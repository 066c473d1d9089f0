import QueryTypes.Proofs.Shape.Collecting
import QueryTypes.Proofs.Shape.Depth
import QueryTypes.Proofs.Shape.Keys

/-!
# Building without a limit

The rules of building, with no bound on the levels inside each other. When no fragment involves
itself, building comes to an end for every selection of fields, however deep it is and whatever types
lead back to themselves. What comes out, objects or the first failure, is what the bounded builder
gives.
-/

namespace QueryTypes

namespace Level

/-- The occurrences by key, each key as one entry. -/
def merged (os : List Occurrence) : List Entry :=
  (groupBy Occurrence.key os).filterMap fun g => entry g.1 g.2

theorem entries_eq (s : Schema) (table : Table Fragment) (parent : NamedType)
    (ss : List Selection) : entries s table parent ss =
      (collect s table (table.length + 1) [] parent false ss).map merged := by
  rw [entries]
  cases collect s table (table.length + 1) [] parent false ss <;> rfl

theorem Yields.entries {s : Schema} {table : Table Fragment} {parent : NamedType}
    {ss : List Selection} {r : Except ShapeError (List Occurrence)}
    (h : Yields s table [] parent false ss r) :
    Level.entries s table parent ss = r.map merged := by
  rw [entries_eq, h.collect]
  rw [Table.unseen_nil]
  exact Nat.lt_succ_self _

end Level

namespace ShapeContext

open Level (Yields merged)

mutual
/-- Building the object types for selections: what is selected is collected, and then each entry of
the level has its turn. -/
inductive Builds (cx : ShapeContext) :
    String → NamedType → List Selection → Except ShapeError (List ObjectShape) → Prop
  | uncollected {name : String} {parent : NamedType} {ss : List Selection} {err : ShapeError} :
      Yields cx.schema cx.fragments [] parent false ss (.error err) →
        Builds cx name parent ss (.error err)
  | unfilled {name : String} {parent : NamedType} {ss : List Selection} {os : List Occurrence}
      {err : ShapeError} :
      Yields cx.schema cx.fragments [] parent false ss (.ok os) →
        Fills cx name (merged os) (.error err) → Builds cx name parent ss (.error err)
  | built {name : String} {parent : NamedType} {ss : List Selection} {os : List Occurrence}
      {properties : List Property} {below : List ObjectShape} :
      Yields cx.schema cx.fragments [] parent false ss (.ok os) →
        Fills cx name (merged os) (.ok (properties, below)) →
        Builds cx name parent ss (.ok (below ++ [⟨name, properties, parent.description⟩]))

/-- The properties for the entries, with the object types below them, up to the first entry that
fails. -/
inductive Fills (cx : ShapeContext) :
    String → List Entry → Except ShapeError (List Property × List ObjectShape) → Prop
  | nil {name : String} : Fills cx name [] (.ok ([], []))
  | typename {name : String} {e : Entry} {rest : List Entry}
      {later : Except ShapeError (List Property × List ObjectShape)} :
      e.field = "__typename" → Fills cx name rest later →
        Fills cx name (e :: rest) (later.map (Prod.map
          (⟨e.key, .typename (cx.typenames e.parent), e.conditional, none⟩ :: ·) id))
  | stray {name : String} {e : Entry} {rest : List Entry} {err : ShapeError} :
      e.field ≠ "__typename" → e.parent.selectable e.field = .error err →
        Fills cx name (e :: rest) (.error err)
  | leaf {name : String} {e : Entry} {rest : List Entry} {type : TypeRef}
      {description : Option String}
      {later : Except ShapeError (List Property × List ObjectShape)} :
      e.field ≠ "__typename" → e.parent.selectable e.field = .ok (type, description) →
        cx.schema.composite? type.leaf = none → Fills cx name rest later →
        Fills cx name (e :: rest) (later.map (Prod.map
          (⟨e.key, .layered type (cx.leaf type.leaf), e.conditional, description⟩ :: ·) id))
  | failing {name : String} {e : Entry} {rest : List Entry} {type : TypeRef}
      {description : Option String} {t : NamedType} {err : ShapeError} :
      e.field ≠ "__typename" → e.parent.selectable e.field = .ok (type, description) →
        cx.schema.composite? type.leaf = some t →
        Builds cx (name ++ "_" ++ e.key) t e.selections (.error err) →
        Fills cx name (e :: rest) (.error err)
  | object {name : String} {e : Entry} {rest : List Entry} {type : TypeRef}
      {description : Option String} {t : NamedType} {below : List ObjectShape}
      {later : Except ShapeError (List Property × List ObjectShape)} :
      e.field ≠ "__typename" → e.parent.selectable e.field = .ok (type, description) →
        cx.schema.composite? type.leaf = some t →
        Builds cx (name ++ "_" ++ e.key) t e.selections (.ok below) → Fills cx name rest later →
        Fills cx name (e :: rest) (later.map (Prod.map
          (⟨e.key, .layered type (.object (name ++ "_" ++ e.key)), e.conditional, description⟩ :: ·)
          (below ++ ·)))
end

variable {cx : ShapeContext} {name : String} {parent : NamedType} {ss : List Selection} {n m : Nat}
  {e : Entry} {es rest : List Entry}

/-! ### The bounded builder -/

/-- The property for an entry, with the object types below it. -/
def part (cx : ShapeContext) (n : Nat) (name : String) (e : Entry) :
    Except ShapeError (Property × List ObjectShape) := do
  if e.field == "__typename" then
    return (⟨e.key, .typename (cx.typenames e.parent), e.conditional, none⟩, [])
  else
    let (type, description) ← e.parent.selectable e.field
    match cx.schema.composite? type.leaf with
    | some t =>
      let child := name ++ "_" ++ e.key
      let below ← cx.objects n child t e.selections
      return (⟨e.key, .layered type (.object child), e.conditional, description⟩, below)
    | none =>
      return (⟨e.key, .layered type (cx.leaf type.leaf), e.conditional, description⟩, [])

/-- The parts for all entries: their properties, and the object types below them. -/
def parts (cx : ShapeContext) (n : Nat) (name : String) (es : List Entry) :
    Except ShapeError (List Property × List ObjectShape) :=
  (es.mapM (cx.part n name)).map fun ps => (ps.map Prod.fst, ps.flatMap Prod.snd)

theorem parts_of_error {err : ShapeError} (h : cx.part n name e = .error err) :
    cx.parts n name (e :: rest) = .error err := by
  rw [parts, List.mapM_cons, h]
  rfl

theorem parts_of_ok {p : Property} {below : List ObjectShape}
    (h : cx.part n name e = .ok (p, below)) : cx.parts n name (e :: rest) =
      (cx.parts n name rest).map (Prod.map (p :: ·) (below ++ ·)) := by
  rw [parts, List.mapM_cons, h, parts]
  cases rest.mapM (cx.part n name) <;> rfl

theorem objects_succ : cx.objects (n + 1) name parent ss = (do
    let es ← Level.entries cx.schema cx.fragments parent ss
    let (properties, below) ← cx.parts n name es
    return below ++ [⟨name, properties, parent.description⟩]) := by
  rw [objects]
  cases Level.entries cx.schema cx.fragments parent ss with
  | error err => rfl
  | ok es =>
    change (es.mapM (cx.part n name) >>= _) = (cx.parts n name es >>= _)
    rw [parts]
    cases es.mapM (cx.part n name) <;> rfl

theorem part_typename (h : e.field = "__typename") : cx.part n name e =
    .ok (⟨e.key, .typename (cx.typenames e.parent), e.conditional, none⟩, []) := by
  rw [part, if_pos (by simpa using h)]
  rfl

theorem part_stray {err : ShapeError} (hfield : e.field ≠ "__typename")
    (h : e.parent.selectable e.field = .error err) : cx.part n name e = .error err := by
  rw [part, if_neg (by simpa using hfield), h]
  rfl

theorem part_leaf {type : TypeRef} {description : Option String} (hfield : e.field ≠ "__typename")
    (h : e.parent.selectable e.field = .ok (type, description))
    (ht : cx.schema.composite? type.leaf = none) : cx.part n name e =
      .ok (⟨e.key, .layered type (cx.leaf type.leaf), e.conditional, description⟩, []) := by
  rw [part, if_neg (by simpa using hfield), h]
  simp only [bind, Except.bind, ht]
  rfl

theorem part_object {type : TypeRef} {description : Option String} {t : NamedType}
    (hfield : e.field ≠ "__typename") (h : e.parent.selectable e.field = .ok (type, description))
    (ht : cx.schema.composite? type.leaf = some t) : cx.part n name e =
      (cx.objects n (name ++ "_" ++ e.key) t e.selections).map fun below =>
        (⟨e.key, .layered type (.object (name ++ "_" ++ e.key)), e.conditional, description⟩,
          below) := by
  rw [part, if_neg (by simpa using hfield), h]
  simp only [bind, Except.bind, ht]
  cases cx.objects n (name ++ "_" ++ e.key) t e.selections <;> rfl

mutual
/-- With enough levels the bounded builder gives what the rules give. -/
theorem Builds.exists_objects {r : Except ShapeError (List ObjectShape)} :
    {name : String} → {parent : NamedType} → {ss : List Selection} → Builds cx name parent ss r →
      ∃ n, ∀ m, n ≤ m → cx.objects m name parent ss = r
  | name, parent, ss, .uncollected hos => by
    refine ⟨1, fun m hm => ?_⟩
    obtain ⟨k, rfl⟩ := Nat.exists_eq_add_of_le' hm
    rw [objects_succ, hos.entries]
    rfl
  | name, parent, ss, .unfilled hos hes => by
    obtain ⟨n, hn⟩ := hes.exists_parts
    refine ⟨n + 1, fun m hm => ?_⟩
    obtain ⟨k, rfl⟩ : ∃ k, m = k + 1 := ⟨m - 1, by omega⟩
    have hparts := hn k (by omega)
    rw [objects_succ, hos.entries]
    simp only [Except.map, bind, Except.bind, hparts]
  | name, parent, ss, .built hos hes => by
    obtain ⟨n, hn⟩ := hes.exists_parts
    refine ⟨n + 1, fun m hm => ?_⟩
    obtain ⟨k, rfl⟩ : ∃ k, m = k + 1 := ⟨m - 1, by omega⟩
    have hparts := hn k (by omega)
    rw [objects_succ, hos.entries]
    simp only [Except.map, bind, Except.bind, hparts]
    rfl

theorem Fills.exists_parts {r : Except ShapeError (List Property × List ObjectShape)} :
    {name : String} → {es : List Entry} → Fills cx name es r →
      ∃ n, ∀ m, n ≤ m → cx.parts m name es = r
  | name, _, .nil => ⟨0, fun _ _ => rfl⟩
  | name, _, .typename hfield hrest => by
    obtain ⟨n, hn⟩ := hrest.exists_parts
    refine ⟨n, fun m hm => ?_⟩
    rw [parts_of_ok (part_typename hfield), hn m hm]
    rfl
  | name, _, .stray hfield herr => ⟨0, fun _ _ => parts_of_error (part_stray hfield herr)⟩
  | name, _, .leaf hfield hf ht hrest => by
    obtain ⟨n, hn⟩ := hrest.exists_parts
    refine ⟨n, fun m hm => ?_⟩
    rw [parts_of_ok (part_leaf hfield hf ht), hn m hm]
    rfl
  | name, _, .failing hfield hf ht hbelow => by
    obtain ⟨n, hn⟩ := hbelow.exists_objects
    refine ⟨n, fun m hm => parts_of_error ?_⟩
    rw [part_object hfield hf ht, hn m hm]
    rfl
  | name, _, .object hfield hf ht hbelow hrest => by
    obtain ⟨n, hn⟩ := hbelow.exists_objects
    obtain ⟨k, hk⟩ := hrest.exists_parts
    -- enough for the object types below the entry and for all later entries
    refine ⟨max n k, fun m hm => ?_⟩
    have hpart : cx.part m name _ = _ := part_object hfield hf ht
    rw [hn m (by omega)] at hpart
    rw [parts_of_ok hpart, hk m (by omega)]
end

theorem Builds.unique {r r' : Except ShapeError (List ObjectShape)} (h : Builds cx name parent ss r)
    (h' : Builds cx name parent ss r') : r = r' := by
  obtain ⟨n, hn⟩ := h.exists_objects
  obtain ⟨m, hm⟩ := h'.exists_objects
  rw [← hn (max n m) (by omega), ← hm (max n m) (by omega)]

/-! ### Building comes to an end -/

theorem fills_parts (hbelow : ∀ e ∈ es, ∀ child t,
    Builds cx child t e.selections (cx.objects n child t e.selections)) :
    Fills cx name es (cx.parts n name es) := by
  induction es with
  | nil => exact .nil
  | cons e rest ih =>
    have hrest := ih fun e' he' => hbelow e' (List.mem_cons_of_mem _ he')
    by_cases hfield : e.field = "__typename"
    · rw [parts_of_ok (part_typename hfield)]
      exact .typename hfield hrest
    · cases hf : e.parent.selectable e.field with
      | error err =>
        rw [parts_of_error (part_stray hfield hf)]
        exact .stray hfield hf
      | ok found =>
        obtain ⟨type, description⟩ := found
        cases ht : cx.schema.composite? type.leaf with
        | none =>
          rw [parts_of_ok (part_leaf hfield hf ht)]
          exact .leaf hfield hf ht hrest
        | some t =>
          have hchild := hbelow e List.mem_cons_self (name ++ "_" ++ e.key) t
          have hpart : cx.part n name e = _ := part_object hfield hf ht
          cases hos : cx.objects n (name ++ "_" ++ e.key) t e.selections with
          | error err =>
            rw [hos] at hchild hpart
            rw [parts_of_error hpart]
            exact .failing hfield hf ht hchild
          | ok below =>
            rw [hos] at hchild hpart
            rw [parts_of_ok hpart]
            exact .object hfield hf ht hchild hrest

theorem builds_objects_succ (hbelow : ∀ es, Level.entries cx.schema cx.fragments parent ss = .ok es →
    ∀ e ∈ es, ∀ child t, Builds cx child t e.selections (cx.objects n child t e.selections)) :
    Builds cx name parent ss (cx.objects (n + 1) name parent ss) := by
  obtain ⟨r, hr⟩ := Level.exists_yields cx.schema cx.fragments [] parent false ss
  have hentries := hr.entries
  rw [objects_succ, hentries]
  cases r with
  | error err => exact .uncollected hr
  | ok os =>
    have hfills : Fills cx name (merged os) (cx.parts n name (merged os)) :=
      fills_parts (hbelow (merged os) hentries)
    simp only [Except.map, bind, Except.bind]
    cases hparts : cx.parts n name (merged os) with
    | error err =>
      rw [hparts] at hfills
      exact .unfilled hr hfills
    | ok filled =>
      rw [hparts] at hfills
      exact .built hr hfills

/-- With one level more than selections can have, the bounded builder follows the rules to the
end. -/
theorem builds_of_bounded (h : Bounded cx.fragments n ss) :
    Builds cx name parent ss (cx.objects (n + 1) name parent ss) := by
  -- below an entry the selections can have one level less
  induction n generalizing name parent ss with
  | zero =>
    refine builds_objects_succ fun es hes e he => ?_
    obtain ⟨m, hm, -⟩ := Level.exists_bounded_of_entries h hes he
    omega
  | succ n ih =>
    refine builds_objects_succ fun es hes e he child t => ?_
    obtain ⟨m, hm, hbound⟩ := Level.exists_bounded_of_entries h hes he
    obtain rfl := Nat.succ.inj hm
    exact ih hbound

/-- When no fragment involves itself, what the rules give is what is built. -/
theorem builds_iff (h : Acyclic cx.fragments) {r : Except ShapeError (List ObjectShape)} :
    Builds cx name parent ss r ↔ cx.objects (cx.depth ss) name parent ss = r := by
  obtain ⟨n, hn, hbound⟩ := exists_bound_of_depth h ss
  have hbuilds : Builds cx name parent ss (cx.objects (cx.depth ss) name parent ss) := by
    rw [hn]
    exact builds_of_bounded hbound
  constructor
  · intro hr
    exact hbuilds.unique hr
  · rintro rfl
    exact hbuilds

/-! ### No failure stands for the limit -/

theorem selectable_ne_endless {field : String} : parent.selectable field ≠ .error .endless := by
  rw [NamedType.selectable]
  split <;> simp

mutual
theorem Builds.ne_endless {r : Except ShapeError (List ObjectShape)} :
    {name : String} → {parent : NamedType} → {ss : List Selection} → Builds cx name parent ss r →
      r ≠ .error .endless
  | name, parent, ss, .uncollected hos => Outcome.error_ne hos.ne_endless
  | name, parent, ss, .unfilled _ hes => Outcome.error_ne hes.ne_endless
  | name, parent, ss, .built _ _ => by simp

theorem Fills.ne_endless {r : Except ShapeError (List Property × List ObjectShape)} :
    {name : String} → {es : List Entry} → Fills cx name es r → r ≠ .error .endless
  | name, _, .nil => by simp
  | name, _, .typename _ hrest => Outcome.map_ne_error hrest.ne_endless
  | name, _, .stray _ herr => by
    intro heq
    rw [Except.error.inj heq] at herr
    exact selectable_ne_endless herr
  | name, _, .leaf _ _ _ hrest => Outcome.map_ne_error hrest.ne_endless
  | name, _, .failing _ _ _ hbelow => Outcome.error_ne hbelow.ne_endless
  | name, _, .object _ _ _ _ hrest => Outcome.map_ne_error hrest.ne_endless
end

theorem objects_ne_endless (h : Acyclic cx.fragments) (name : String) (parent : NamedType)
    (ss : List Selection) : cx.objects (cx.depth ss) name parent ss ≠ .error .endless :=
  ((builds_iff h).2 rfl).ne_endless

theorem parameterShape_ne_endless (cx : ShapeContext) (name : String) (o : Operation) :
    cx.parameterShape name o ≠ .error .endless := by
  rw [parameterShape]
  split
  · simp [pure, Except.pure]
  · rcases Outcome.mapM_cases (fun v : VariableDefinition => (do
      if (cx.schema.type? v.type.leaf).isNone then
        throw (.unknownVariableType v.type.text v.name.text)
      return ⟨v.name.text, cx.inputType v.type, !v.type.isRequired, none⟩ :
        Except ShapeError Property)) o.variableDefs with ⟨ps, hps⟩ | ⟨v, -, err, herr, hall⟩
    · rw [hps]
      simp [bind, Except.bind, pure, Except.pure]
    · rw [hall]
      intro heq
      obtain rfl : err = .endless := Except.error.inj heq
      split at herr <;> cases herr

theorem operation_ne_endless (h : Acyclic cx.fragments) (o : Operation) :
    cx.operation o ≠ .error .endless := by
  rw [operation]
  cases cx.schema.rootType? o.kind with
  | none => simp [throw, throwThe, MonadExceptOf.throw]
  | some root =>
    cases o.name with
    | none => simp [throw, throwThe, MonadExceptOf.throw]
    | some name =>
      have hobjects := objects_ne_endless h name.text root o.selections
      have harguments := cx.parameterShape_ne_endless name.text o
      cases hos : cx.objects (cx.depth o.selections) name.text root o.selections with
      | error err => simpa [bind, Except.bind, hos] using hobjects
      | ok os =>
        cases ha : cx.parameterShape name.text o with
        | error err => simpa [bind, Except.bind, hos, ha] using harguments
        | ok arguments => simp [bind, Except.bind, hos, ha, pure, Except.pure]

theorem fragment_ne_endless (h : Acyclic cx.fragments) (f : Fragment) :
    cx.fragment f ≠ .error .endless := by
  rw [fragment]
  cases (cx.schema.type? f.condition.text).filter NamedType.isComposite with
  | none => simp [throw, throwThe, MonadExceptOf.throw]
  | some t =>
    have hobjects := objects_ne_endless h f.name.text t f.selections
    cases hos : cx.objects (cx.depth f.selections) f.name.text t f.selections with
    | error err => simpa [bind, Except.bind, hos] using hobjects
    | ok os => simp [bind, Except.bind, hos, pure, Except.pure]

theorem acyclic_addTypename {d : Document} (h : Acyclic d.fragmentTable) :
    Acyclic d.addTypename.fragmentTable := by
  intro n f hf hinvolves
  have hleads := leads_iff_involves.2 hinvolves
  rw [← spreadsOf_of_get? hf, spreadsOf_addTypename, leads_addTypename] at hleads
  obtain ⟨f', hf', -⟩ := Option.map_eq_some_iff.1 ((get?_addTypename d n).symm.trans hf)
  rw [spreadsOf_of_get? hf'] at hleads
  exact h.not_leads hf' hleads

/-- Collecting comes to an end with one outcome, whatever fragments spread each other. When no
fragment involves itself, as in every document without complaints, building does so too, whatever is
selected on whatever type: it is not given up for any operation or fragment. -/
theorem building_ends (cx : ShapeContext) :
    (∀ visiting parent conditional ss, ∃ r, ∀ r',
      Yields cx.schema cx.fragments visiting parent conditional ss r' ↔ r' = r) ∧
    (∀ parent ss, Yields cx.schema cx.fragments [] parent false ss
      (Level.collect cx.schema cx.fragments (cx.fragments.length + 1) [] parent false ss)) ∧
    (Acyclic cx.fragments →
      (∀ name parent ss r,
        Builds cx name parent ss r ↔ cx.objects (cx.depth ss) name parent ss = r) ∧
      (∀ o, cx.operation o ≠ .error .endless) ∧ ∀ f, cx.fragment f ≠ .error .endless) ∧
    ∀ d, Validation.complaints cx.schema d = .ok [] →
      Acyclic d.fragmentTable ∧ Acyclic d.addTypename.fragmentTable := by
  refine ⟨?_, ?_, ?_, ?_⟩
  · intro visiting parent conditional ss
    obtain ⟨r, hr⟩ := Level.exists_yields cx.schema cx.fragments visiting parent conditional ss
    refine ⟨r, fun r' => ⟨fun h => h.unique hr, ?_⟩⟩
    rintro rfl
    exact hr
  · intro parent ss
    refine (Level.yields_iff ?_).2 rfl
    rw [Table.unseen_nil]
    exact Nat.lt_succ_self _
  · intro h
    exact ⟨fun name parent ss r => builds_iff h, operation_ne_endless h, fragment_ne_endless h⟩
  · intro d hd
    have hacyclic := (resolved_of_complaints hd).acyclic
    exact ⟨hacyclic, acyclic_addTypename hacyclic⟩

def person : NamedType := plainType "Person" [("name", "String"), ("friend", "Person")]

/-- People who have friends, who have friends. -/
def peopleSchema : Schema :=
  ⟨[plainType "Query" [("me", "Person")], person, ⟨"String", none, .scalar⟩], some "Query", none,
    none, []⟩

def onPerson (name : String) (ss : List Selection) : String × Fragment :=
  (name, ⟨⟨name, none⟩, ⟨"Person", none⟩, [], ss, none⟩)

/-- A fragment that spreads another one on three levels. -/
def nestedFriends : ShapeContext := ⟨peopleSchema, [
  onPerson "Far" [spreadOf "Near",
    plainField "friend" [spreadOf "Near", plainField "friend" [spreadOf "Near"]]],
  onPerson "Near" [plainField "friend" [plainField "name" []]]], .ofOptions .standard⟩

def nestedSelections : List Selection :=
  [spreadOf "Far", plainField "friend" [plainField "friend" [spreadOf "Far"]]]

/-- A fragment that spreads itself, on the same level and below a field. -/
def endlessFriends : ShapeContext := ⟨peopleSchema, [
  onPerson "Round" [spreadOf "Round", plainField "friend" [spreadOf "Round"]]],
  .ofOptions .standard⟩

theorem objects_endlessFriends (n : Nat) (name : String) :
    endlessFriends.objects n name person [spreadOf "Round"] = .error .endless := by
  induction n generalizing name with
  | zero => rfl
  | succ n ih =>
    have hentries : Level.entries endlessFriends.schema endlessFriends.fragments person
        [spreadOf "Round"] = .ok [⟨"friend", "friend", person, [spreadOf "Round"], false⟩] := rfl
    have hpart : endlessFriends.part n name ⟨"friend", "friend", person, [spreadOf "Round"], false⟩ =
        .error .endless := by
      rw [part_object (by simp) rfl rfl]
      exact congrArg (Except.map _) (ih _)
    rw [objects_succ, hentries]
    simp only [bind, Except.bind, parts_of_error hpart]

/-- Fragments on many levels for which building comes to an end, and one for which only collecting
does. -/
theorem building_ends_friends :
    (Acyclic nestedFriends.fragments ∧
      ∃ os, Builds nestedFriends "Me" person nestedSelections (.ok os) ∧
        os.map ObjectShape.name = ["Me_friend_friend_friend_friend_friend",
          "Me_friend_friend_friend_friend", "Me_friend_friend_friend", "Me_friend_friend",
          "Me_friend", "Me"]) ∧
    (∃ os, Yields endlessFriends.schema endlessFriends.fragments [] person false
      [spreadOf "Round"] (.ok os) ∧ os.map Occurrence.key = ["friend"]) ∧
    ∀ name r, ¬ Builds endlessFriends name person [spreadOf "Round"] r := by
  have hacyclic : Acyclic nestedFriends.fragments := by
    have hsettled : Cycle.Settled (spreadsOf nestedFriends.fragments) ["Far", "Near"] :=
      .cons (.cons .nil (by decide) (by decide)) (by decide) (by decide)
    exact acyclic_of_settled hsettled (by decide)
  refine ⟨⟨hacyclic, ?_⟩, ?_, ?_⟩
  · obtain ⟨-, -, hends, -⟩ := building_ends nestedFriends
    exact ⟨_, ((hends hacyclic).1 "Me" person nestedSelections _).2 rfl, rfl⟩
  · obtain ⟨-, hyields, -⟩ := building_ends endlessFriends
    exact ⟨_, hyields person [spreadOf "Round"], rfl⟩
  · intro name r h
    obtain ⟨n, hn⟩ := h.exists_objects
    refine h.ne_endless ?_
    rw [← hn n (Nat.le_refl n), objects_endlessFriends]

end ShapeContext
end QueryTypes
