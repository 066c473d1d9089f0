import QueryTypes.Proofs.Shape.Excerpt
import QueryTypes.Shape.Shared

/-!
# Building with a ledger

The shared types that a definition uses can be noted while it is built: in a set of its own, which
is handed out with its types, and in a set of all of them. A definition starts a set before it notes
anything, and so does the pass over the shared types. So no set that was handed out is ever written
to again, also when some definitions fail, and each definition comes out as if it stood alone.
-/

namespace QueryTypes

/-- Sets of shared types in the order in which they were started, the last of which is written to,
and the set of all of them. -/
structure Ledger where
  older : List (List String)
  current : List String
  all : List String

namespace Ledger

def empty : Ledger := ⟨[], [], []⟩

def sets (l : Ledger) : List (List String) := l.older ++ [l.current]

def start (l : Ledger) : Ledger := ⟨l.sets, [], l.all⟩

def note (l : Ledger) (name : String) : Ledger := ⟨l.older, name :: l.current, name :: l.all⟩

/-- What stands in the set that was started after so many others. -/
def read (l : Ledger) (place : Nat) : List String := l.sets[place]?.getD []

def noteAll (l : Ledger) (names : List String) : Ledger :=
  ⟨l.older, names ++ l.current, names ++ l.all⟩

end Ledger

/-- A computation that notes shared types. What it noted stays noted when it fails. -/
abbrev Recording := ExceptT ShapeError (StateM Ledger)

namespace Recording

/-- The outcome of a computation that begins with a ledger, and the ledger after it. -/
def after {α : Type} (x : Recording α) (l : Ledger) : Except ShapeError α × Ledger :=
  StateT.run (ExceptT.run x) l

def note (name : String) : Recording Unit := modify fun l => l.note name

/-- Starts a set and gives its place. -/
def start : Recording Nat := do
  modify Ledger.start
  return (← get).older.length

/-- The type of a property; if it mentions a shared type, that is noted. -/
def mention (type : PropertyType) : Recording PropertyType := do
  match type.shared? with
  | some name => note name
  | none => pure ()
  return type

end Recording

namespace ShapeContext

open Recording (mention start)

/-- The property for an entry, with the object types that are built below it. -/
def recordPart (cx : ShapeContext)
    (build : String → NamedType → List Selection → Recording (List ObjectShape)) (name : String)
    (e : Entry) : Recording (Property × List ObjectShape) := do
  if e.field == "__typename" then
    return (⟨e.key, .typename (cx.typenames e.parent), e.conditional, none⟩, [])
  else
    let (type, description) ← e.parent.selectable e.field
    match cx.schema.composite? type.leaf with
    | some t =>
      let child := name ++ "_" ++ e.key
      let below ← build child t e.selections
      return (⟨e.key, .layered type (.object child), e.conditional, description⟩, below)
    | none =>
      let leaf ← mention (.layered type (cx.leaf type.leaf))
      return (⟨e.key, leaf, e.conditional, description⟩, [])

def recordObjects (cx : ShapeContext) :
    Nat → String → NamedType → List Selection → Recording (List ObjectShape)
  | 0, _, _, _ => throw .endless
  | n + 1, name, parent, ss => do
    let entries ← Level.entries cx.schema cx.fragments parent ss
    let parts ← entries.mapM (cx.recordPart (cx.recordObjects n) name)
    return parts.flatMap Prod.snd ++ [⟨name, parts.map Prod.fst, parent.description⟩]

def recordParameter (cx : ShapeContext) (v : VariableDefinition) : Recording Property := do
  if (cx.schema.type? v.type.leaf).isNone then
    throw (.unknownVariableType v.type.text v.name.text)
  return ⟨v.name.text, ← mention (cx.inputType v.type), !v.type.isRequired, none⟩

def recordParameters (cx : ShapeContext) (name : String) (o : Operation) :
    Recording (Option ObjectShape) := do
  if o.variableDefs.isEmpty then return none
  let properties ← o.variableDefs.mapM cx.recordParameter
  return some ⟨name ++ "Variables", properties, none⟩

/-- The module for a definition, and the place of the set with the shared types that it uses. -/
def recordModule (cx : ShapeContext) : Operation ⊕ Fragment → Recording (ModuleShape × Nat)
  | .inl o => do
    match cx.schema.rootType? o.kind, o.name with
    | none, _ => throw (.noRoot o.kind)
    | some _, none => throw .anonymous
    | some root, some name =>
      let place ← start
      let objects ← cx.recordObjects (cx.depth o.selections) name.text root o.selections
      let arguments ← cx.recordParameters name.text o
      return (⟨name.text, .operation o.kind, sourceFile o.origin, objects, arguments⟩, place)
  | .inr f => do
    match cx.schema.composite? f.condition.text with
    | none => throw (.fragmentCondition f.name.text f.condition.text)
    | some t =>
      let place ← start
      let objects ← cx.recordObjects (cx.depth f.selections) f.name.text t f.selections
      return (⟨f.name.text, .fragment, sourceFile f.origin, objects, none⟩, place)

def recordInput (cx : ShapeContext) (t : NamedType) : Recording ObjectShape := do
  let properties ← t.inputFields.mapM fun f =>
    return ⟨f.name, ← mention (cx.inputType f.type), !f.type.isRequired, f.description⟩
  return ⟨t.name, properties, t.description⟩

/-- The shared types for everything that was noted so far. -/
def recordShared (cx : ShapeContext) (omitDeprecated : Bool) : Recording SharedShapes := do
  let names := (← get).all
  let _ ← start
  let types := (cx.sharedNames names).filterMap cx.schema.type?
  let inputs ← (types.filter NamedType.isInput).mapM cx.recordInput
  return ⟨(types.filter NamedType.isEnum).map (enumShape omitDeprecated), inputs⟩

/-- What can be asked of a builder with a ledger. -/
inductive Task
  | definition (x : Operation ⊕ Fragment)
  | shared (omitDeprecated : Bool)

/-- The outcome for a definition, if the task is about one, and the ledger after the task. -/
def perform (cx : ShapeContext) :
    Task → Ledger → Option (Except ShapeError (ModuleShape × Nat)) × Ledger
  | .definition x, l => ((cx.recordModule x).after l).map some id
  | .shared omitDeprecated, l => (none, ((cx.recordShared omitDeprecated).after l).2)

/-- One task after another, whether they fail or not. -/
def performAll (cx : ShapeContext) :
    List Task → Ledger → List (Option (Except ShapeError (ModuleShape × Nat))) × Ledger
  | [], l => ([], l)
  | t :: ts, l =>
    let (first, l) := cx.perform t l
    let (rest, l) := cx.performAll ts l
    (first :: rest, l)

/-- What was handed out for the definitions, as it is found when all tasks are done: each module
with its set of shared types, sorted. -/
def handedOut (cx : ShapeContext) (tasks : List Task) :
    List (Option (Except ShapeError (ModuleShape × List String))) :=
  let (outcomes, l) := cx.performAll tasks .empty
  outcomes.map (Option.map (Except.map fun p => (p.1, Text.sorted (l.read p.2).eraseDups)))

end ShapeContext

/-! ### What is noted -/

namespace Recording

variable {α β γ : Type} {x : Recording α} {r : Except ShapeError α} {l : Ledger}

/-- The computation has the outcome, and it notes what is mentioned there; if it fails it may have
noted anything. -/
def Notes (x : Recording α) (r : Except ShapeError α) (uses : α → List String) : Prop :=
  ∀ l, ∃ names, x.after l = (r, l.noteAll names) ∧
    ∀ a, r = .ok a → ∀ n, n ∈ names ↔ n ∈ uses a

theorem after_bind (x : Recording α) (f : α → Recording β) (l : Ledger) : (x >>= f).after l =
    match x.after l with
    | (.ok a, l') => (f a).after l'
    | (.error e, l') => (.error e, l') := by
  have hbind : (x >>= f).after l =
      StateT.run (ExceptT.bindCont f (x.after l).1) (x.after l).2 := rfl
  rw [hbind]
  rcases x.after l with ⟨r, l'⟩
  cases r <;> rfl

theorem Notes.pure {uses : α → List String} (a : α) (huses : uses a = []) :
    Notes (Pure.pure a : Recording α) (.ok a) uses := by
  intro l
  refine ⟨[], rfl, fun b hb n => ?_⟩
  obtain rfl := Except.ok.inj hb
  rw [huses]

theorem Notes.throw {uses : α → List String} (e : ShapeError) :
    Notes (throw e : Recording α) (.error e) uses :=
  fun l => ⟨[], rfl, by simp⟩

/-- What fails or not without a ledger notes nothing. -/
theorem Notes.lift_bind {f : α → Recording β} {g : α → Except ShapeError β}
    {uses : β → List String} (h : ∀ a, r = .ok a → Notes (f a) (g a) uses) :
    Notes (liftM r >>= f) (r >>= g) uses := by
  intro l
  cases r with
  | error e => exact ⟨[], rfl, by simp [Bind.bind, Except.bind]⟩
  | ok a => exact h a rfl l

theorem Notes.bind {f : α → Recording β} {g : α → Except ShapeError β} {first : α → List String}
    {uses : β → List String} (hx : Notes x r first)
    (hf : ∀ a, r = .ok a → ∃ later, Notes (f a) (g a) later ∧
      ∀ b, g a = .ok b → ∀ n, n ∈ uses b ↔ n ∈ first a ∨ n ∈ later b) :
    Notes (x >>= f) (r >>= g) uses := by
  intro l
  obtain ⟨names, hafter, hnames⟩ := hx l
  rw [after_bind, hafter]
  cases r with
  | error e => exact ⟨names, rfl, by simp [Bind.bind, Except.bind]⟩
  | ok a =>
    obtain ⟨later, hnotes, huses⟩ := hf a rfl
    obtain ⟨names', hafter', hnames'⟩ := hnotes (l.noteAll names)
    refine ⟨names' ++ names, ?_, fun b hb n => ?_⟩
    · refine hafter'.trans ?_
      simp [Ledger.noteAll, Bind.bind, Except.bind]
    · rw [huses b hb, List.mem_append, hnames' b hb, hnames a rfl, or_comm]

theorem notes_mention (type : PropertyType) :
    Notes (mention type) (.ok type) fun type => type.shared?.toList := by
  intro l
  cases hshared : type.shared? with
  | none =>
    refine ⟨[], ?_, fun a ha n => ?_⟩
    · rw [mention, hshared]
      rfl
    · obtain rfl := Except.ok.inj ha
      simp [hshared]
  | some name =>
    refine ⟨[name], ?_, fun a ha n => ?_⟩
    · rw [mention, hshared]
      rfl
    · obtain rfl := Except.ok.inj ha
      simp [hshared]

theorem Notes.map {f : α → β} {first : α → List String} {uses : β → List String}
    (hx : Notes x r first) (huses : ∀ a, r = .ok a → ∀ n, n ∈ uses (f a) ↔ n ∈ first a) :
    Notes (x >>= fun a => Pure.pure (f a)) (r >>= fun a => Pure.pure (f a)) uses := by
  refine hx.bind fun a ha => ⟨fun _ => [], .pure (f a) rfl, fun b hb n => ?_⟩
  obtain rfl := Except.ok.inj hb
  simp [huses a ha]

theorem Notes.mapM {f : α → Recording β} {g : α → Except ShapeError β} {uses : β → List String}
    {xs : List α} (h : ∀ a ∈ xs, Notes (f a) (g a) uses) :
    Notes (xs.mapM f) (xs.mapM g) fun bs => bs.flatMap uses := by
  induction xs with
  | nil => exact .pure [] rfl
  | cons a xs ih =>
    have hrest := ih fun a' ha' => h a' (List.mem_cons_of_mem _ ha')
    rw [List.mapM_cons, List.mapM_cons]
    refine (h a List.mem_cons_self).bind fun b _ =>
      ⟨fun bs => bs.tail.flatMap uses, hrest.map fun bs _ n => Iff.rfl, fun bs hbs n => ?_⟩
    obtain ⟨rest, -, hbs⟩ := Outcome.bind_eq_ok_iff.1 hbs
    obtain rfl := Except.ok.inj hbs
    rw [List.flatMap_cons, List.mem_append]
    rfl

end Recording

namespace ShapeContext

open Recording (Notes notes_mention)

variable {cx : ShapeContext} {x : Operation ⊕ Fragment} {l : Ledger}

def partUses (p : Property × List ObjectShape) : List String :=
  p.1.type.shared?.toList ++ p.2.flatMap ObjectShape.shared

theorem mem_shared_of_parts (name : String) (description : Option String) (n : String)
    (parts : List (Property × List ObjectShape)) :
    n ∈ (parts.flatMap Prod.snd ++ [(⟨name, parts.map Prod.fst, description⟩ : ObjectShape)]).flatMap
      ObjectShape.shared ↔ n ∈ parts.flatMap partUses := by
  have hown : n ∈ (parts.map Prod.fst).filterMap (fun p => p.type.shared?) ↔
      ∃ p ∈ parts, n ∈ p.1.type.shared?.toList := by
    simp [List.mem_filterMap, Option.mem_toList]
  rw [List.flatMap_append, List.mem_append, List.flatMap_singleton, ObjectShape.shared, hown]
  simp only [List.mem_flatMap, partUses, List.mem_append]
  constructor
  · rintro (⟨o, ⟨p, hp, ho⟩, hn⟩ | ⟨p, hp, hn⟩)
    · exact ⟨p, hp, .inr ⟨o, ho, hn⟩⟩
    · exact ⟨p, hp, .inl hn⟩
  · rintro ⟨p, hp, hn | ⟨o, ho, hn⟩⟩
    · exact .inr ⟨p, hp, hn⟩
    · exact .inl ⟨o, ⟨p, hp, ho⟩, hn⟩

theorem notes_recordPart {k : Nat} {name : String} {e : Entry}
    {build : String → NamedType → List Selection → Recording (List ObjectShape)}
    (h : ∀ child t, Notes (build child t e.selections) (cx.objects k child t e.selections)
      fun os => os.flatMap ObjectShape.shared) :
    Notes (cx.recordPart build name e) (cx.part k name e) partUses := by
  rw [recordPart, part]
  by_cases hfield : (e.field == "__typename") = true
  · rw [if_pos hfield, if_pos hfield]
    exact .pure _ rfl
  · rw [if_neg hfield, if_neg hfield]
    refine .lift_bind fun found _ => ?_
    obtain ⟨type, description⟩ := found
    cases ht : cx.schema.composite? type.leaf with
    | some t =>
      simp only [ht]
      refine (h _ t).map fun below _ n => ?_
      simp [partUses, PropertyType.shared?]
    | none =>
      simp only [ht]
      refine (notes_mention (.layered type (cx.leaf type.leaf))).map fun leaf _ n => ?_
      simp [partUses]

theorem notes_recordObjects (cx : ShapeContext) (k : Nat) (name : String) (parent : NamedType)
    (ss : List Selection) : Notes (cx.recordObjects k name parent ss)
      (cx.objects k name parent ss) fun os => os.flatMap ObjectShape.shared := by
  induction k generalizing name parent ss with
  | zero => exact .throw _
  | succ k ih =>
    have hobjects : cx.objects (k + 1) name parent ss = (do
        let entries ← Level.entries cx.schema cx.fragments parent ss
        let parts ← entries.mapM (cx.part k name)
        return parts.flatMap Prod.snd ++ [⟨name, parts.map Prod.fst, parent.description⟩]) := by
      rw [objects]
      rfl
    rw [hobjects]
    refine .lift_bind fun es _ => ?_
    have hparts : Notes (es.mapM (cx.recordPart (cx.recordObjects k) name))
        (es.mapM (cx.part k name)) fun parts => parts.flatMap partUses :=
      .mapM fun e _ => notes_recordPart fun child t => ih child t e.selections
    exact hparts.map fun parts _ n => mem_shared_of_parts name parent.description n parts

theorem notes_recordParameter (cx : ShapeContext) (v : VariableDefinition) :
    Notes (cx.recordParameter v) (do
      if (cx.schema.type? v.type.leaf).isNone then
        throw (.unknownVariableType v.type.text v.name.text)
      return ⟨v.name.text, cx.inputType v.type, !v.type.isRequired, none⟩)
      fun p => p.type.shared?.toList := by
  rw [recordParameter]
  by_cases hnone : (cx.schema.type? v.type.leaf).isNone = true
  · rw [if_pos hnone, if_pos hnone]
    exact .throw _
  · rw [if_neg hnone, if_neg hnone]
    exact (notes_mention (cx.inputType v.type)).map fun _ _ _ => Iff.rfl

theorem notes_recordParameters (cx : ShapeContext) (name : String) (o : Operation) :
    Notes (cx.recordParameters name o) (cx.parameterShape name o) fun arguments =>
      arguments.toList.flatMap ObjectShape.shared := by
  rw [recordParameters, parameterShape]
  by_cases hempty : o.variableDefs.isEmpty = true
  · rw [if_pos hempty, if_pos hempty]
    exact .pure _ rfl
  · rw [if_neg hempty, if_neg hempty]
    refine (Notes.mapM fun v _ => cx.notes_recordParameter v).map fun ps _ n => ?_
    simp [ObjectShape.shared, List.mem_filterMap, Option.mem_toList]

theorem after_start_bind {α : Type} {b : Nat → Recording α} {r : Except ShapeError α}
    {uses : α → List String} (h : Notes (b l.sets.length) r uses) :
    ∃ names, (Recording.start >>= b).after l = (r, ⟨l.sets, names, names ++ l.all⟩) ∧
      ∀ a, r = .ok a → ∀ n, n ∈ names ↔ n ∈ uses a := by
  obtain ⟨names, hafter, hnames⟩ := h l.start
  have hstart : (Recording.start >>= b).after l = (b l.sets.length).after l.start := rfl
  refine ⟨names, ?_, hnames⟩
  rw [hstart, hafter, Ledger.noteAll, Ledger.start, List.append_nil]

theorem mem_imports_iff_mem_shared {m : ModuleShape} {n : String} :
    n ∈ m.imports ↔ n ∈ m.objects.flatMap ObjectShape.shared ∨
      n ∈ m.arguments.toList.flatMap ObjectShape.shared := by
  rw [ModuleShape.imports, Text.mem_sorted, List.mem_eraseDups, List.flatMap_append,
    List.mem_append]

/-- What is written for a definition: a set of its own, with the types that its module imports. -/
structure Recorded (cx : ShapeContext) (x : Operation ⊕ Fragment) (l l' : Ledger)
    (r : Except ShapeError (ModuleShape × Nat)) : Prop where
  outcome : r = (cx.moduleOf x).map fun m => (m, l.sets.length)
  kept : l.sets <+: l'.sets
  imports : ∀ m, cx.moduleOf x = .ok m → ∃ set, l'.sets = l.sets ++ [set] ∧
    ∀ n, n ∈ set ↔ n ∈ m.imports

theorem Recorded.of_notes {body : Nat → Recording (ModuleShape × Nat)}
    (h : Notes (body l.sets.length) ((cx.moduleOf x).map fun m => (m, l.sets.length))
      fun p => p.1.imports) :
    Recorded cx x l ((Recording.start >>= body).after l).2
      ((Recording.start >>= body).after l).1 := by
  obtain ⟨names, hafter, hnames⟩ := after_start_bind h
  rw [hafter]
  refine ⟨rfl, ⟨[names], rfl⟩, fun m hm => ⟨names, rfl, fun n => ?_⟩⟩
  exact hnames (m, l.sets.length) (by rw [hm]; rfl) n

theorem Recorded.of_error {e : ShapeError} (h : cx.moduleOf x = .error e) :
    Recorded cx x l l (.error e) where
  outcome := by rw [h]; rfl
  kept := List.prefix_refl _
  imports m hm := by simp [h] at hm

theorem recorded_operation (cx : ShapeContext) (o : Operation) (l : Ledger) :
    Recorded cx (.inl o) l ((cx.recordModule (.inl o)).after l).2
      ((cx.recordModule (.inl o)).after l).1 := by
  rw [recordModule]
  cases hroot : cx.schema.rootType? o.kind with
  | none =>
    have hmodule : cx.moduleOf (.inl o) = .error (.noRoot o.kind) := by
      rw [moduleOf, Sum.elim_inl, operation, hroot]
      rfl
    exact .of_error hmodule
  | some root =>
    cases hname : o.name with
    | none =>
      have hmodule : cx.moduleOf (.inl o) = .error .anonymous := by
        rw [moduleOf, Sum.elim_inl, operation, hroot, hname]
        rfl
      exact .of_error hmodule
    | some name =>
      have hmodule : (cx.moduleOf (.inl o)).map (fun m => (m, l.sets.length)) = (do
          let objects ← cx.objects (cx.depth o.selections) name.text root o.selections
          let arguments ← cx.parameterShape name.text o
          return (⟨name.text, .operation o.kind, sourceFile o.origin, objects, arguments⟩,
            l.sets.length)) := by
        rw [moduleOf, Sum.elim_inl, operation, hroot, hname]
        simp only [bind, Except.bind]
        cases cx.objects (cx.depth o.selections) name.text root o.selections with
        | error e => rfl
        | ok os => cases cx.parameterShape name.text o <;> rfl
      refine .of_notes ?_
      rw [hmodule]
      refine (cx.notes_recordObjects _ name.text root o.selections).bind fun os _ => ⟨fun p =>
        p.1.arguments.toList.flatMap ObjectShape.shared, ?_, fun p hp n => ?_⟩
      · exact (cx.notes_recordParameters name.text o).map fun _ _ _ => Iff.rfl
      · obtain ⟨arguments, -, hp⟩ := Outcome.bind_eq_ok_iff.1 hp
        obtain rfl := Except.ok.inj hp
        exact mem_imports_iff_mem_shared

theorem recorded_fragment (cx : ShapeContext) (f : Fragment) (l : Ledger) :
    Recorded cx (.inr f) l ((cx.recordModule (.inr f)).after l).2
      ((cx.recordModule (.inr f)).after l).1 := by
  rw [recordModule]
  cases ht : cx.schema.composite? f.condition.text with
  | none =>
    have hmodule : cx.moduleOf (.inr f) =
        .error (.fragmentCondition f.name.text f.condition.text) := by
      rw [Schema.composite?] at ht
      rw [moduleOf, Sum.elim_inr, fragment, ht]
      rfl
    exact .of_error hmodule
  | some t =>
    have hmodule : (cx.moduleOf (.inr f)).map (fun m => (m, l.sets.length)) = (do
        let objects ← cx.objects (cx.depth f.selections) f.name.text t f.selections
        return (⟨f.name.text, .fragment, sourceFile f.origin, objects, none⟩,
          l.sets.length)) := by
      rw [Schema.composite?] at ht
      rw [moduleOf, Sum.elim_inr, fragment, ht]
      simp only [bind, Except.bind]
      cases cx.objects (cx.depth f.selections) f.name.text t f.selections <;> rfl
    refine .of_notes ?_
    rw [hmodule]
    refine (cx.notes_recordObjects _ f.name.text t f.selections).map fun os _ n => ?_
    rw [mem_imports_iff_mem_shared]
    simp

/-- A definition notes what its module imports in a set of its own, whatever the ledger is. -/
theorem recorded_module (cx : ShapeContext) (x : Operation ⊕ Fragment) (l : Ledger) :
    Recorded cx x l ((cx.recordModule x).after l).2 ((cx.recordModule x).after l).1 := by
  cases x with
  | inl o => exact cx.recorded_operation o l
  | inr f => exact cx.recorded_fragment f l

theorem notes_recordInput (cx : ShapeContext) (t : NamedType) : Notes (cx.recordInput t) (do
      let properties ← t.inputFields.mapM fun f =>
        .ok ⟨f.name, cx.inputType f.type, !f.type.isRequired, f.description⟩
      return ⟨t.name, properties, t.description⟩) ObjectShape.shared := by
  have hfield : ∀ f ∈ t.inputFields, Notes
      (do return ⟨f.name, ← Recording.mention (cx.inputType f.type), !f.type.isRequired, f.description⟩)
      (.ok ⟨f.name, cx.inputType f.type, !f.type.isRequired, f.description⟩)
      fun p : Property => p.type.shared?.toList :=
    fun f _ => (notes_mention (cx.inputType f.type)).map fun _ _ _ => Iff.rfl
  refine (Notes.mapM hfield).map fun ps _ n => ?_
  simp [ObjectShape.shared, List.mem_filterMap, Option.mem_toList]

theorem sets_prefix_recordShared (cx : ShapeContext) (omitDeprecated : Bool) (l : Ledger) :
    l.sets <+: ((cx.recordShared omitDeprecated).after l).2.sets := by
  let types := (cx.sharedNames l.all).filterMap cx.schema.type?
  obtain ⟨r, hnotes⟩ : ∃ r, Notes (do
      let inputs ← (types.filter NamedType.isInput).mapM cx.recordInput
      return (⟨(types.filter NamedType.isEnum).map (enumShape omitDeprecated), inputs⟩ :
        SharedShapes)) r fun shapes => shapes.inputs.flatMap ObjectShape.shared :=
    ⟨_, (Notes.mapM fun t _ => cx.notes_recordInput t).map fun _ _ _ => Iff.rfl⟩
  obtain ⟨names, hafter, -⟩ := after_start_bind (l := l) (b := fun _ => _) hnotes
  have hshared : (cx.recordShared omitDeprecated).after l = _ := hafter
  rw [hshared]
  exact ⟨[names], rfl⟩

theorem sets_prefix_perform (cx : ShapeContext) (t : Task) (l : Ledger) :
    l.sets <+: (cx.perform t l).2.sets := by
  cases t with
  | definition x => exact (cx.recorded_module x l).kept
  | shared omitDeprecated => exact cx.sets_prefix_recordShared omitDeprecated l

/-- Nothing is written to a set once the next task begins. -/
theorem sets_prefix_performAll (cx : ShapeContext) (ts : List Task) (l : Ledger) :
    l.sets <+: (cx.performAll ts l).2.sets := by
  induction ts generalizing l with
  | nil => exact List.prefix_refl _
  | cons t ts ih => exact (cx.sets_prefix_perform t l).trans (ih (cx.perform t l).2)

/-- What a task hands out for a definition: its module, and what the module imports. -/
def product (cx : ShapeContext) : Task → Option (Except ShapeError (ModuleShape × List String))
  | .definition x => some ((cx.moduleOf x).map fun m => (m, m.imports))
  | .shared _ => none

theorem read_of_prefix {l last : Ledger} {set : List String} (h : l.sets ++ [set] <+: last.sets) :
    last.read l.sets.length = set := by
  obtain ⟨later, hlater⟩ := h
  rw [Ledger.read, ← hlater]
  simp

/-- Whatever is written later, what was handed out for a definition is what its module imports. -/
theorem read_perform {t : Task} {l last : Ledger} (h : (cx.perform t l).2.sets <+: last.sets) :
    (cx.perform t l).1.map (Except.map fun p => (p.1, Text.sorted (last.read p.2).eraseDups)) =
      cx.product t := by
  cases t with
  | shared omitDeprecated => rfl
  | definition x =>
    have hrecorded := cx.recorded_module x l
    have hperform : (cx.perform (.definition x) l).1 =
        some ((cx.moduleOf x).map fun m => (m, l.sets.length)) := congrArg some hrecorded.outcome
    rw [hperform, Option.map_some, product]
    cases hm : cx.moduleOf x with
    | error e => rfl
    | ok m =>
      obtain ⟨set, hsets, hset⟩ := hrecorded.imports m hm
      have hread : last.read l.sets.length = set := by
        apply read_of_prefix
        rw [← hsets]
        exact h
      have himports : Text.sorted set.eraseDups = m.imports := by
        apply Text.eq_of_pairwise_lt id (Text.pairwise_sorted (Text.nodup_eraseDups _))
          (Text.pairwise_sorted (Text.nodup_eraseDups _))
        intro n
        rw [Text.mem_sorted, List.mem_eraseDups, hset, ModuleShape.imports]
      simp only [Except.map, hread, himports]

theorem handedOut_eq_map_product (cx : ShapeContext) (tasks : List Task) :
    cx.handedOut tasks = tasks.map cx.product := by
  have hall : ∀ l last : Ledger, (cx.performAll tasks l).2.sets <+: last.sets →
      (cx.performAll tasks l).1.map (Option.map (Except.map fun p =>
        (p.1, Text.sorted (last.read p.2).eraseDups))) = tasks.map cx.product := by
    induction tasks with
    | nil => exact fun _ _ _ => rfl
    | cons t ts ih =>
      intro l last h
      have hfirst := read_perform ((cx.sets_prefix_performAll ts _).trans h)
      exact congrArg₂ List.cons hfirst (ih _ last h)
  exact hall .empty _ (List.prefix_refl _)

/-- A definition comes out of any number of tasks as it does alone: whatever was built before it and
whatever is asked for later, its module or its failure and its set of shared types are those of the
document that holds nothing but the definition and the fragments that it involves. -/
theorem definitions_independent (s : Schema) (scalars : ScalarMap) (d : Document) :
    (∀ tasks, (d.context s scalars).handedOut tasks = tasks.map fun
      | .definition x => some ((((d.excerpt x).context s scalars).moduleOf x).map fun m =>
          (m, m.imports))
      | .shared _ => none) ∧
    Types.modules (d.context s scalars) d = (do
      let operations ← d.operations.mapM fun o =>
        ((d.excerpt (.inl o)).context s scalars).operation o
      let fragments ← d.fragmentTable.values.mapM fun f =>
        ((d.excerpt (.inr f)).context s scalars).fragment f
      return operations ++ fragments) ∧
    (∀ x name parent r,
      Builds ((d.excerpt x).context s scalars) name parent (Document.selectionsOf x) r ↔
        Builds (d.context s scalars) name parent (Document.selectionsOf x) r) ∧
    (∀ o, (d.excerpt (.inl o)).operations = [o]) ∧
    (∀ f, (d.excerpt (.inr f)).operations = []) ∧
    ∀ x f, f ∈ (d.excerpt x).fragments ↔ f ∈ d.fragments ∧
      ((∃ g, x = .inr g ∧ g.name.text = f.name.text) ∨
        Involves d.fragmentTable (Document.selectionsOf x) f.name.text) := by
  refine ⟨?_, ?_, ?_, fun _ => rfl, fun _ => rfl, fun _ _ => Document.mem_fragments_excerpt_iff⟩
  · intro tasks
    rw [handedOut_eq_map_product]
    apply List.map_congr_left
    intro t _
    cases t with
    | definition x => simp only [product, moduleOf_excerpt]
    | shared omitDeprecated => rfl
  · have hoperation : ∀ o, ((d.excerpt (.inl o)).context s scalars).operation o =
        (d.context s scalars).operation o := fun o => moduleOf_excerpt s scalars d (.inl o)
    have hfragment : ∀ f, ((d.excerpt (.inr f)).context s scalars).fragment f =
        (d.context s scalars).fragment f := fun f => moduleOf_excerpt s scalars d (.inr f)
    simp only [hoperation, hfragment]
    rfl
  · intro x name parent r
    rw [context_excerpt]
    exact builds_agree_iff (d.agree_excerpt x)

end ShapeContext
end QueryTypes
