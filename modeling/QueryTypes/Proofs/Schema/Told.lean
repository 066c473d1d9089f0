import QueryTypes.Proofs.Outcome
import QueryTypes.Schema.Local

/-!
# What is told of a schema

Making a schema of what was told fails with a reason in words, or breaks down where a field has to
be there and is not, where an object is asked for a field and is none, or where the default value of
an argument of a directive ends early. Main statement: it breaks down only on gaps of a few kinds,
and these are listed.
-/

namespace QueryTypes

namespace Introspection

open Outcome (FailsIn)

variable {α : Type}

/-- A failure in words. -/
def InWords (e : IntrospectionFault) : Prop := ∃ m, e = .invalid m

/-- The items under a field that has a list, or something that is read as one. -/
def listed (v : Json) (field : String) : List Json :=
  match (v.field? field).map items with
  | some (.ok xs) => xs
  | _ => []

/-- A reference that leads, through lists and required types, to something that is no object. -/
inductive Broken : Json → Prop
  | flat {t : Json} (h : t.isObj = false) : Broken t
  | inner {t u : Json} {kind : String} (hkind : kind = "LIST" ∨ kind = "NON_NULL")
      (ht : t.field? "kind" = some (.str kind)) (hu : t.field? "ofType" = some u)
      (hholds : u.holds = true) (h : Broken u) : Broken t

/-- What is missing or out of place in what was told. -/
inductive Gap (v : Json) : Prop
  | types (h : v.field? "types" = none)
  | name {x : Json} (hx : x ∈ listed v "types") (hobj : x.isObj = true)
      (h : x.field? "name" = none)
  | enumValue {x e : Json} (hx : x ∈ listed v "types") (he : e ∈ listed x "enumValues")
      (hobj : e.isObj = true) (h : e.field? "name" = none)
  | root {field : String} {w : Json}
      (hfield : field ∈ ["queryType", "mutationType", "subscriptionType"])
      (hw : v.field? field = some w) (hnull : isNull w = false) (h : w.isObj = false)
  | directive {d : Json} (hd : d ∈ listed v "directives")
      (h : d.isObj = false ∨ d.field? "name" = none)
  | argument {d a : Json} {field : String} (hd : d ∈ listed v "directives")
      (ha : a ∈ listed d "args") (hobj : a.isObj = true) (hfield : field ∈ ["name", "type"])
      (h : a.field? field = none)
  | reference {d a t : Json} (hd : d ∈ listed v "directives") (ha : a ∈ listed d "args")
      (ht : a.field? "type" = some t) (h : Broken t)
  | default {d a : Json} {s : String} (hd : d ∈ listed v "directives") (ha : a ∈ listed d "args")
      (hs : a.field? "defaultValue" = some (.str s))
      (h : parseValue ⟨Source.unnamed, s.toList⟩ = .error .cutShort)

theorem failsIn_refuse (m : String) : FailsIn InWords (refuse m : Told α) :=
  .error ⟨m, rfl⟩

theorem failsIn_refuse_bind {β : Type} (m : String) (f : α → Told β) :
    FailsIn InWords ((refuse m : Told α) >>= f) :=
  .bind (failsIn_refuse m) fun _ h => by cases h

theorem failsIn_items (v : Json) : FailsIn InWords (items v) := by
  cases v with
  | arr xs => exact .ok _
  | str s => exact .ok _
  | obj fs => exact .ok _
  | _ => exact failsIn_refuse _

theorem failsIn_name (v : Json) : FailsIn InWords (name v) := by
  cases v with
  | str s =>
    rw [name]
    split
    · exact failsIn_refuse _
    · split
      · exact failsIn_refuse _
      · split
        · exact failsIn_refuse _
        · exact .ok _
  | _ => exact failsIn_refuse _

theorem failsIn_need {v : Json} {n : String} (h : v.isObj = true → v.field? n ≠ none) :
    FailsIn InWords (need v n) := by
  cases v with
  | obj fs =>
    rw [need]
    cases hn : fs.lookup n with
    | some w => exact .ok _
    | none => exact absurd hn (h rfl)
  | _ => exact failsIn_refuse _

theorem field_of_need {v w : Json} {n : String} (h : need v n = .ok w) :
    v.isObj = true ∧ v.field? n = some w := by
  cases v with
  | obj fs =>
    rw [need] at h
    cases hn : fs.lookup n with
    | some w' =>
      rw [hn] at h
      obtain rfl := Except.ok.inj h
      exact ⟨rfl, hn⟩
    | none => simp [hn] at h
  | _ => simp [need, refuse] at h

theorem may_of_isObj {v : Json} (h : v.isObj = true) (n : String) :
    may v n = .ok ((v.field? n).getD .null) := by
  cases v with
  | obj fs => rfl
  | _ => cases h

theorem failsIn_may {v : Json} (h : v.isObj = true) (n : String) : FailsIn InWords (may v n) := by
  rw [may_of_isObj h]
  exact .ok _

theorem failsIn_complete {v : Json} (h : v.isObj = true) (n what : String) :
    FailsIn InWords (complete v n what) := by
  refine .bind (failsIn_may h n) fun w _ => ?_
  split
  · exact failsIn_refuse _
  · exact .ok _

theorem failsIn_within (type part : String) (r : Told α) :
    FailsIn InWords (within type part r) := by
  cases r with
  | ok a => exact .ok _
  | error e => exact .error ⟨_, rfl⟩

theorem field_of_may {v w : Json} {n : String} (h : may v n = .ok w) (hw : isNull w = false) :
    v.field? n = some w := by
  cases v with
  | obj fs =>
    obtain rfl := Except.ok.inj h
    rw [Json.field?]
    cases hn : fs.lookup n with
    | some w => rfl
    | none => simp [hn, isNull] at hw
  | _ => cases h

theorem field_of_complete {v w : Json} {n what : String} (h : complete v n what = .ok w) :
    v.field? n = some w := by
  obtain ⟨w', hw', h⟩ := Outcome.bind_eq_ok_iff.1 h
  cases hnull : isNull w' with
  | true => simp [hnull, refuse] at h
  | false =>
    rw [hnull] at h
    obtain rfl := Except.ok.inj h
    exact field_of_may hw' hnull

theorem listed_of_items {v w : Json} {n : String} {xs : List Json} (hw : v.field? n = some w)
    (hxs : items w = .ok xs) : listed v n = xs := by
  rw [listed, hw, Option.map_some, hxs]

theorem failsIn_wording {v : Json} (h : v.isObj = true) (n what : String) :
    FailsIn InWords (wording v n what) := by
  refine .bind (failsIn_may h n) fun w _ => ?_
  split
  · exact .ok _
  · exact .ok _
  · exact failsIn_refuse _

theorem failsIn_key (v : Json) : FailsIn InWords (key v) := by
  cases v with
  | arr xs => exact failsIn_refuse _
  | obj fs => exact failsIn_refuse _
  | _ => exact .ok _

theorem failsIn_keyed {one : Json → Told (String → α)} {v : Json}
    (hname : v.isObj = true → v.field? "name" ≠ none)
    (hone : v.isObj = true → FailsIn InWords (one v)) : FailsIn InWords (keyed one v) :=
  .bind (failsIn_need hname) fun w hw => .bind (hone (field_of_need hw).1) fun _ _ =>
    .bind (failsIn_key w) fun _ _ => .ok _

theorem failsIn_named (complaint : String) (nameOf : α → String)
    (xs : List (Json × (String → α))) : FailsIn InWords (named complaint nameOf xs) :=
  .ite (fun _ => failsIn_refuse_bind _ _) fun _ =>
    .bind (.mapM fun x _ => .bind (failsIn_name x.1) fun _ _ => .ok _) fun _ _ => .ok _

theorem failsIn_enumValue {e : Json} (h : e.isObj = true) : FailsIn InWords (enumValue e) :=
  .bind (failsIn_wording h _ _) fun _ _ => .bind (failsIn_wording h _ _) fun _ _ => .ok _

theorem failsIn_enumBody (values : List (Json × (String → EnumValue))) :
    FailsIn InWords (enumBody values) := by
  refine .bind (failsIn_named _ _ _) fun vs _ => ?_
  split
  · exact failsIn_refuse _
  · exact .ok _

theorem failsIn_described {x : Json} (hobj : x.isObj = true) (k : Json) {body : Told TypeBody}
    (hbody : FailsIn InWords body) : FailsIn InWords (described x k body) :=
  .bind (failsIn_name k) fun _ _ => .bind (failsIn_wording hobj _ _) fun _ _ =>
    .bind hbody fun _ _ => .ok _

theorem failsIn_scalarBody {x : Json} (hobj : x.isObj = true) (k : Json) :
    FailsIn InWords (scalarBody x k) := by
  refine .bind (failsIn_may hobj _) fun w _ => ?_
  split
  · exact .ok _
  · exact .ok _
  · exact failsIn_refuse _

theorem failsIn_sketch {x : Json} (hname : x.isObj = true → x.field? "name" ≠ none)
    (hvalues : ∀ e ∈ listed x "enumValues", e.isObj = true → e.field? "name" ≠ none) :
    FailsIn InWords (sketch x) := by
  refine .bind (failsIn_need hname) fun k hk => ?_
  have hobj := (field_of_need hk).1
  have hplain (b : TypeBody) : FailsIn InWords (described x k (pure b)) :=
    failsIn_described hobj k (.ok b)
  split
  · exact failsIn_described hobj k (failsIn_scalarBody hobj k)
  · exact hplain _
  · exact hplain _
  · exact .bind (failsIn_complete hobj _ _) fun _ _ => hplain _
  · refine .bind (failsIn_complete hobj _ _) fun w hw => .bind (failsIn_items w) fun xs hxs => ?_
    have hlisted := listed_of_items (field_of_complete hw) hxs
    refine .bind (.mapM fun e he => ?_) fun vs _ => failsIn_described hobj k (failsIn_enumBody vs)
    exact failsIn_keyed (hvalues e (hlisted ▸ he)) failsIn_enumValue
  · exact .bind (failsIn_complete hobj _ _) fun _ _ => hplain _
  · exact failsIn_refuse _

theorem failsIn_namedType (types : List NamedType) {v : Json} (hobj : v.isObj = true) :
    FailsIn InWords (namedType types v) := by
  refine .bind (failsIn_may hobj _) fun n _ => ?_
  dsimp only
  refine .ite (fun _ => failsIn_refuse_bind _ _) fun _ => .bind (failsIn_key n) fun _ _ => ?_
  split
  · exact .ok _
  · exact failsIn_refuse _

theorem isObj_of_not_broken {v : Json} (h : ¬Broken v) : v.isObj = true := by
  cases hobj : v.isObj with
  | true => rfl
  | false => exact absurd (.flat hobj) h

theorem failsIn_typeRef (types : List NamedType) (n : Nat) {v : Json} (h : ¬Broken v) :
    FailsIn InWords (typeRef types n v) := by
  induction n generalizing v with
  | zero => exact failsIn_refuse _
  | succ n ih =>
    have hobj := isObj_of_not_broken h
    refine .bind (failsIn_may hobj _) fun k hk => .ite (fun hkind => ?_) fun _ => ?_
    · refine .bind (failsIn_may hobj _) fun u hu => ?_
      have hinner : u.holds = true → ¬Broken u := by
        intro hholds hu'
        obtain ⟨kind, rfl, hword⟩ : ∃ kind, k = .str kind ∧ (kind = "LIST" ∨ kind = "NON_NULL") := by
          cases k <;> simp_all [text?]
        have hnull : isNull u = false := by cases u <;> simp_all [Json.holds, isNull]
        exact h (.inner hword (field_of_may hk rfl) (field_of_may hu hnull) hholds hu')
      refine .ite (fun _ => failsIn_refuse_bind _ _) fun hholds => ?_
      refine .bind (ih (hinner (by simpa using hholds))) fun t _ => .ite (fun _ => .ok _) fun _ => ?_
      exact .ite (fun _ => failsIn_refuse _) fun _ => .ok _
    · exact .bind (failsIn_namedType types hobj) fun _ _ => .ok _

theorem failsIn_default {a : Json} (hobj : a.isObj = true)
    (h : ∀ s, a.field? "defaultValue" = some (.str s) →
      parseValue ⟨Source.unnamed, s.toList⟩ ≠ .error .cutShort) : FailsIn InWords (default? a) := by
  refine .bind (failsIn_may hobj _) fun w hw => ?_
  split
  · exact .ok _
  · rename_i s
    have hs := h s (field_of_may hw rfl)
    split
    · exact .ok _
    · exact failsIn_refuse _
    · rename_i hcut
      exact absurd hcut hs
  · exact failsIn_refuse _

/-- An argument is told without a gap. -/
structure Whole (a : Json) : Prop where
  name : a.isObj = true → a.field? "name" ≠ none
  type : a.isObj = true → a.field? "type" ≠ none
  reference : ∀ t, a.field? "type" = some t → ¬Broken t
  default : ∀ s, a.field? "defaultValue" = some (.str s) →
    parseValue ⟨Source.unnamed, s.toList⟩ ≠ .error .cutShort

theorem failsIn_argument (types : List NamedType) {a : Json} (h : Whole a) :
    FailsIn InWords (argument types a) := by
  refine failsIn_keyed h.name fun hobj => .bind (failsIn_need h.type) fun t ht => ?_
  refine .bind (failsIn_typeRef types _ (h.reference t (field_of_need ht).2)) fun r _ => ?_
  refine .ite (fun _ => failsIn_refuse_bind _ _) fun _ => ?_
  exact .bind (failsIn_default hobj h.default) fun _ _ => .bind (failsIn_wording hobj _ _) fun _ _ =>
    .bind (failsIn_wording hobj _ _) fun _ _ => .ok _

theorem failsIn_root (types : List NamedType) {v : Json} (hobj : v.isObj = true) {field : String}
    (h : ∀ w, v.field? field = some w → isNull w = false → w.isObj = true) :
    FailsIn InWords (root types v field) := by
  refine .bind (failsIn_may hobj _) fun w hw => .ite (fun _ => .ok _) fun hnull => ?_
  have hwobj := h w (field_of_may hw (by simpa using hnull)) (by simpa using hnull)
  refine .bind (.bind (failsIn_namedType types hwobj) fun t _ => ?_) fun _ _ => .ok _
  exact .ite (fun _ => .ok _) fun _ => failsIn_refuse _

theorem failsIn_fields (types : List NamedType) (s : Sketch) :
    FailsIn InWords (fields types s) :=
  .bind (failsIn_within _ _ _) fun _ _ => failsIn_named _ _ _

theorem failsIn_inputFields (types : List NamedType) (s : Sketch) :
    FailsIn InWords (inputFields types s) :=
  .bind (failsIn_within _ _ _) fun _ _ => failsIn_named _ _ _

theorem failsIn_resolve (types : List NamedType) (s : Sketch) :
    FailsIn InWords (resolve types s) := by
  rw [resolve]
  refine .ite (fun _ => .ok _) fun _ => ?_
  dsimp only
  split
  · exact .bind (failsIn_within _ _ _) fun _ _ => .bind (failsIn_fields _ _) fun _ _ => .ok _
  · exact .bind (failsIn_within _ _ _) fun _ _ => .bind (failsIn_fields _ _) fun _ _ => .ok _
  · exact .bind (failsIn_within _ _ _) fun _ _ => .ok _
  · exact .bind (failsIn_inputFields _ _) fun _ _ => .ok _
  · exact .ok _

theorem failsIn_declared {d : Json} (hobj : d.isObj = true) (k : Json) (places : List Json)
    (args : List (Json × (String → InputValue))) : FailsIn InWords (declared d k places args) := by
  refine .bind (failsIn_name k) fun n _ => .ite (fun _ => failsIn_refuse_bind _ _) fun _ => ?_
  refine .bind (failsIn_named _ _ _) fun _ _ => ?_
  split
  · exact .bind (failsIn_wording hobj _ _) fun _ _ => .ok _
  · exact failsIn_refuse _

theorem failsIn_directive (types : List NamedType) {d : Json} (hobj : d.isObj = true)
    (hname : d.field? "name" ≠ none) (hargs : ∀ a ∈ listed d "args", Whole a) :
    FailsIn InWords (directive types d) := by
  refine .bind (failsIn_complete hobj _ _) fun args hargs' => ?_
  refine .bind (failsIn_complete hobj _ _) fun places _ => ?_
  refine .bind (failsIn_need fun _ => hname) fun k _ => .bind (failsIn_items places) fun ps _ => ?_
  refine .bind (failsIn_items args) fun xs hxs => ?_
  have hlisted := listed_of_items (field_of_complete hargs') hxs
  refine .bind (.mapM fun a ha => failsIn_argument types (hargs a (hlisted ▸ ha))) fun args _ => ?_
  exact failsIn_declared hobj k ps args

theorem failsIn_schema {v : Json}
    (h : ∀ fs, v.field? "__schema" = some (.obj fs) → ¬Gap (.obj fs)) :
    FailsIn InWords (schema v) := by
  rw [schema]
  split
  · rename_i fs hfs
    have hgap : ¬Gap (.obj fs) := by
      refine h fs ?_
      cases hv : v.field? "__schema" with
      | none => simp [hv] at hfs
      | some w => simpa [hv] using hfs
    refine .bind (failsIn_need fun _ hnone => hgap (.types hnone)) fun types htypes => ?_
    refine .bind (failsIn_items types) fun xs hxs => ?_
    have hlisted := listed_of_items (field_of_need htypes).2 hxs
    refine .bind (.mapM fun x hx => ?_) fun told _ => ?_
    · rw [← hlisted] at hx
      exact failsIn_sketch (fun hobj hnone => hgap (.name hx hobj hnone))
        fun e he hobj hnone => hgap (.enumValue hx he hobj hnone)
    have hroot (types : List NamedType) {field : String}
        (hfield : field ∈ ["queryType", "mutationType", "subscriptionType"]) :
        FailsIn InWords (root types (.obj fs) field) := by
      refine failsIn_root types rfl fun w hw hnull => ?_
      cases hobj : w.isObj with
      | true => rfl
      | false => exact absurd (.root hfield hw hnull hobj) hgap
    let sketches := (distinct (fun s => s.type.name) told).map standardized
    have hrest {β : Type} {f : List NamedType → β} : FailsIn InWords (do
        let _ ← wording (.obj fs) "description" "Schema description"
        return f (← sketches.mapM (resolve (sketches.map Sketch.type)))) :=
      .bind (failsIn_wording rfl _ _) fun _ _ =>
        .bind (.mapM fun s _ => failsIn_resolve _ s) fun _ _ => .ok _
    refine .bind (hroot _ (by simp)) fun _ _ => .bind (hroot _ (by simp)) fun _ _ => ?_
    refine .bind (hroot _ (by simp)) fun _ _ => .bind (failsIn_may rfl _) fun ds hds => ?_
    refine .ite (fun hholds => ?_) fun _ => ?_
    · have hsome : isNull ds = false := by cases ds <;> simp_all [Json.holds, isNull]
      refine .bind (failsIn_items ds) fun items hitems => .bind (.mapM fun d hd => ?_) fun _ _ => ?_
      · rw [← listed_of_items (field_of_may hds hsome) hitems] at hd
        have hobj : d.isObj = true := by
          cases hobj : d.isObj with
          | true => rfl
          | false => exact absurd (.directive hd (.inl hobj)) hgap
        refine failsIn_directive _ hobj (fun hnone => hgap (.directive hd (.inr hnone))) ?_
        exact fun a ha => ⟨fun hobj hnone => hgap (.argument hd ha hobj (by simp) hnone),
          fun hobj hnone => hgap (.argument hd ha hobj (by simp) hnone),
          fun t ht hbroken => hgap (.reference hd ha ht hbroken),
          fun s hs hcut => hgap (.default hd ha hs hcut)⟩
      · exact hrest
    · exact .bind (.ok _) fun _ _ => hrest
  · exact failsIn_refuse _

/-- What was told has a gap. -/
def HasGap (v : Json) : Prop := ∃ fs, v.field? "__schema" = some (.obj fs) ∧ Gap (.obj fs)

/-- A schema is made of what was told, or there is a reason in words, or what was told has a
gap. -/
theorem hasGap_of_schema {v : Json} {e : IntrospectionFault} (h : schema v = .error e) :
    InWords e ∨ HasGap v := by
  by_cases hgap : HasGap v
  · exact .inr hgap
  · exact .inl (failsIn_schema (fun fs hfs hfsgap => hgap ⟨fs, hfs, hfsgap⟩) e h)

/-- Making a schema of what was told breaks down on a gap. -/
inductive Breaks (v : Json) : Fault → Prop
  | missing {n : String} (h : schema v = .error (.missingField n)) (hgap : HasGap v) :
      Breaks v (.missingKey n)
  | flat {k : String} (h : schema v = .error (.notObject k)) (hgap : HasGap v) :
      Breaks v (.missingAttribute ("'" ++ k ++ "' object has no attribute 'get'"))
  | cutShort (h : schema v = .error .cutShort) (hgap : HasGap v) :
      Breaks v (.outOfRange "string index out of range")

theorem Breaks.hasGap {v : Json} {f : Fault} (h : Breaks v f) : HasGap v := by
  cases h with
  | missing _ hgap => exact hgap
  | flat _ hgap => exact hgap
  | cutShort _ hgap => exact hgap

theorem breaks_iff {v : Json} {f : Fault} :
    SchemaReaders.standard.introspection v = .error (.breakdown f) ↔ Breaks v f := by
  have hread : SchemaReaders.standard.introspection v =
      (schema v).mapError IntrospectionFault.unmade := rfl
  rw [hread]
  constructor
  · intro h
    cases hschema : schema v with
    | ok s =>
      rw [hschema] at h
      cases h
    | error e =>
      rw [hschema] at h
      have hf : e.unmade = .breakdown f := Except.error.inj h
      rcases hasGap_of_schema hschema with ⟨m, rfl⟩ | hgap
      · cases hf
      · cases e with
        | invalid m => cases hf
        | missingField n => exact Unmade.breakdown.inj hf ▸ .missing hschema hgap
        | notObject k => exact Unmade.breakdown.inj hf ▸ .flat hschema hgap
        | cutShort => exact Unmade.breakdown.inj hf ▸ .cutShort hschema hgap
  · rintro (⟨h, -⟩ | ⟨h, -⟩ | ⟨h, -⟩)
    all_goals
      rw [h]
      rfl

end Introspection

namespace SchemaFiles

variable {read : Json → Except Unmade Schema} {source : String} {v : Json} {f : Fault}

theorem mapError_loadError_iff {α : Type} {said : String → SchemaError} {r : Except Unmade α} :
    r.mapError (Unmade.loadError said) = .error (.fault f) ↔ r = .error (.breakdown f) := by
  cases r with
  | ok a => exact iff_of_false nofun nofun
  | error e =>
    change Except.error (Unmade.loadError said e) = .error (.fault f) ↔ _
    cases e <;> simp [Unmade.loadError]

/-- Something is told of a schema, and the reader breaks down on it. -/
theorem ofIntrospectionWith_fault_iff : ofIntrospectionWith read source v = .error (.fault f) ↔
    ((told v).field? "__schema").isSome = true ∧ read (told v) = .error (.breakdown f) := by
  rw [ofIntrospectionWith]
  cases (told v).field? "__schema" with
  | none => simp
  | some w => simp [mapError_loadError_iff]

theorem ofIntrospection_fault_iff :
    ofIntrospection source v = .error (.fault f) ↔ Introspection.Breaks (told v) f := by
  rw [ofIntrospection, ofIntrospectionWith_fault_iff, Introspection.breaks_iff, and_iff_right_iff_imp]
  intro h
  obtain ⟨fs, hfs, -⟩ := h.hasGap
  rw [hfs]
  rfl

end SchemaFiles

end QueryTypes
