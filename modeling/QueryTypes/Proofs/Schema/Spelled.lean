import QueryTypes.Proofs.Document.Parsed
import QueryTypes.Proofs.Schema.Distinct

/-!
# Names in schemas

Whatever a schema is loaded from, the names of its types and of the values of its enums are
identifiers: the lexer reads no others in declarations, those of an introspection result are looked
at, and the built-in ones are such.
-/

namespace QueryTypes

/-- The name of a type and those of its values are identifiers. -/
def NamedType.IsSpelled (t : NamedType) : Prop :=
  IsIdentifier t.name ∧ ∀ v ∈ t.values, IsIdentifier v.name

def Schema.Spelled (s : Schema) : Prop := ∀ t ∈ s.types, t.IsSpelled

instance (t : NamedType) : Decidable t.IsSpelled := inferInstanceAs (Decidable (_ ∧ _))

instance (s : Schema) : Decidable s.Spelled := inferInstanceAs (Decidable (∀ t ∈ s.types, _))

open Build

variable {types : List NamedType} {directives : List DirectiveType} {s : Schema} {t : NamedType}

/-- A type that is no enum has no values. -/
theorem NamedType.IsSpelled.of_body (hname : IsIdentifier t.name) {b : TypeBody} (hbody : t.body = b)
    (hb : ∀ vs, b ≠ .enum vs) : t.IsSpelled := by
  refine ⟨hname, fun v hv => ?_⟩
  rw [NamedType.values, hbody] at hv
  cases b with
  | enum vs => exact absurd rfl (hb vs)
  | _ => cases hv

namespace Builtin

theorem isSpelled_scalar {name : String} (h : name ∈ scalarNames) : (scalar name).IsSpelled := by
  have hall : ∀ n ∈ scalarNames, (scalar n).IsSpelled := by decide
  exact hall name h

theorem isSpelled_schemaTypes : ∀ t ∈ schemaTypes, t.IsSpelled := by decide

theorem isSpelled_standardType? {name : String} (h : standardType? name = some t) :
    t.IsSpelled := by
  rw [standardType?] at h
  split at h
  · rename_i hn
    obtain rfl := Option.some.inj h
    exact isSpelled_scalar (List.contains_iff_mem.1 hn)
  · exact isSpelled_schemaTypes t (List.mem_of_find?_eq_some h)

end Builtin

theorem isSpelled_settleType (h : t.IsSpelled) (all : List NamedType) :
    (settleType all t).IsSpelled := by
  obtain ⟨name, description, body⟩ := t
  cases body with
  | enum vs => exact h
  | scalar => exact h
  | union ms => exact h
  | object is fs => exact ⟨h.1, by simp [settleType, NamedType.values]⟩
  | interface is fs => exact ⟨h.1, by simp [settleType, NamedType.values]⟩
  | input fs => exact ⟨h.1, by simp [settleType, NamedType.values]⟩

theorem spelled_of_complete (h : ∀ t ∈ types, t.IsSpelled)
    (hs : s.types = (complete types directives).map (settleType (complete types directives))) :
    s.Spelled := by
  intro t ht
  rw [hs] at ht
  obtain ⟨u, hu, rfl⟩ := List.mem_map.1 ht
  refine isSpelled_settleType ?_ _
  rw [complete] at hu
  rcases List.mem_append.1 hu with hu | hu
  · rcases List.mem_append.1 hu with hu | hu
    · exact h u hu
    · exact Builtin.isSpelled_schemaTypes u (List.mem_filter.1 hu).1
  · obtain ⟨n, hn, rfl⟩ := List.mem_map.1 hu
    exact Builtin.isSpelled_scalar (List.mem_filter.1 hn).1

/-! ### Declarations -/

theorem wellSpelled_merged {shapes : List TypeShape} (h : ∀ shape ∈ shapes, shape.WellSpelled)
    (shape : TypeShape) : (merged shapes shape).WellSpelled := by
  intro vs hvs v hv
  cases shape with
  | enum ws =>
    obtain rfl := TypeShape.enum.inj hvs
    obtain ⟨shape, hshape, hv⟩ := List.mem_flatMap.1 hv
    cases shape with
    | enum ws => exact h _ hshape ws rfl v hv
    | _ => cases hv
  | _ => cases hvs

theorem exists_of_body_enum {name : String} {shape : TypeShape} {vs : List EnumValue}
    (h : body name shape = .ok (.enum vs)) :
    ∃ ws, shape = .enum ws ∧ ws.mapM enumValue = .ok vs := by
  cases shape with
  | enum ws =>
    obtain ⟨vs', hvs', h⟩ := Outcome.bind_eq_ok_iff.1 h
    cases h
    exact ⟨ws, rfl, hvs'⟩
  | scalar => cases h
  | union ms => cases h
  | object is fs =>
    obtain ⟨_, -, h⟩ := Outcome.bind_eq_ok_iff.1 (Outcome.ok_of_mapError h)
    cases h
  | interface is fs =>
    obtain ⟨_, -, h⟩ := Outcome.bind_eq_ok_iff.1 (Outcome.ok_of_mapError h)
    cases h
  | input fs =>
    obtain ⟨_, -, h⟩ := Outcome.bind_eq_ok_iff.1 (Outcome.ok_of_mapError h)
    cases h

theorem isSpelled_of_makes {ds : List Definition} (hds : ∀ d ∈ ds, d.WellSpelled)
    {d : TypeDefinition} (hd : .type d ∈ ds) (h : Makes ds d t) : t.IsSpelled := by
  rcases h.body with hstandard | ⟨shapes, hshapes, hbody⟩
  · exact Builtin.isSpelled_standardType? hstandard
  · have hspelled : ∀ shape ∈ shapes, shape.WellSpelled := by
      intro shape hshape
      rcases hshapes shape hshape with rfl | ⟨d', hd', rfl⟩
      · exact ((hds _ hd).type d rfl).2
      · exact ((hds _ hd').type d' rfl).2
    refine ⟨h.name ▸ ((hds _ hd).type d rfl).1, fun v hv => ?_⟩
    obtain ⟨name, description, body⟩ := t
    cases body with
    | enum vs =>
      obtain ⟨ws, hws, hvs⟩ := exists_of_body_enum hbody
      obtain ⟨w, hw, hvalue⟩ := (Outcome.mem_of_mapM hvs).2 v hv
      obtain ⟨reason, -, hvalue⟩ := Outcome.bind_eq_ok_iff.1 hvalue
      rw [← Except.ok.inj hvalue]
      exact wellSpelled_merged hspelled d.shape ws hws w hw
    | _ => cases hv

theorem mem_of_mem_typeDefinitions {ds : List Definition} {d : TypeDefinition}
    (h : d ∈ Declaration.typeDefinitions ds) : .type d ∈ ds := by
  obtain ⟨d', hd', h⟩ := List.mem_filterMap.1 h
  split at h
  · split at h
    · cases h
    · obtain rfl := Option.some.inj h
      exact hd'
  · cases h

theorem spelled_of_definitions {ds : List Definition} (hds : ∀ d ∈ ds, d.WellSpelled)
    (h : Schema.ofDefinitions ds = .ok s) : s.Spelled := by
  obtain ⟨types, directives, htypes, -, hmade⟩ := exists_made (exists_of_ofDefinitions h).2
  refine spelled_of_complete (fun t ht => ?_) htypes
  obtain ⟨d, hd, hmakes⟩ := hmade t ht
  exact isSpelled_of_makes hds (mem_of_mem_typeDefinitions hd) hmakes

/-! ### Introspection results -/

namespace Introspection

theorem isIdentifier_of_name {v : Json} {n : String} (h : name v = .ok n) : IsIdentifier n := by
  cases v with
  | str s =>
    rw [name] at h
    by_cases hempty : s = ""
    · simp [hempty, refuse] at h
    · rw [if_neg hempty] at h
      split at h
      · cases h
      · rename_i hchars
        split at h
        · cases h
        · rename_i hstart
          obtain rfl := Except.ok.inj h
          obtain ⟨c, r, hs⟩ := List.exists_cons_of_ne_nil (mt String.toList_eq_nil_iff.1 hempty)
          rw [IsIdentifier, hs]
          have hfirst : Token.isNameStart c = true := by simpa [hs] using hstart
          have hrest : ∀ x ∈ r, Token.isNameChar x = true := by simpa [hs] using hchars
          simpa [hfirst] using ⟨Token.isNameChar_of_isNameStart hfirst, hrest⟩
  | null => cases h
  | _ => cases h

theorem mem_of_mem_distinct {α : Type} {key : α → String} {xs : List α} {x : α}
    (h : x ∈ distinct key xs) : x ∈ xs := by
  obtain ⟨p, hp, rfl⟩ := List.mem_map.1 h
  obtain ⟨x, hx, rfl⟩ := List.mem_map.1 (Table.mem_of_mem_ofList hp)
  exact hx

/-- What is made under keys is made of names. -/
theorem exists_of_mem_named {α : Type} {complaint : String} {nameOf : α → String}
    {xs : List (Json × (String → α))} {ys : List α} (h : named complaint nameOf xs = .ok ys)
    {y : α} (hy : y ∈ ys) : ∃ x ∈ xs, ∃ n, IsIdentifier n ∧ y = x.2 n := by
  rw [named] at h
  split at h
  · cases h
  · obtain ⟨-, -, h⟩ := Outcome.bind_eq_ok_iff.1 h
    obtain ⟨made, hmade, h⟩ := Outcome.bind_eq_ok_iff.1 h
    obtain rfl := Except.ok.inj h
    obtain ⟨x, hx, hy⟩ := (Outcome.mem_of_mapM hmade).2 y (mem_of_mem_distinct hy)
    obtain ⟨n, hn, hy⟩ := Outcome.bind_eq_ok_iff.1 hy
    exact ⟨x, hx, n, isIdentifier_of_name hn, (Except.ok.inj hy).symm⟩

theorem name_of_enumValue {v : Json} {make : String → EnumValue} (h : enumValue v = .ok make)
    (n : String) : (make n).name = n := by
  obtain ⟨_, -, h⟩ := Outcome.bind_eq_ok_iff.1 h
  obtain ⟨_, -, h⟩ := Outcome.bind_eq_ok_iff.1 h
  rw [← Except.ok.inj h]

theorem make_of_keyed {α : Type} {one : Json → Told (String → α)} {v : Json}
    {x : Json × (String → α)} (h : keyed one v = .ok x) : one v = .ok x.2 := by
  obtain ⟨_, -, h⟩ := Outcome.bind_eq_ok_iff.1 h
  obtain ⟨make, hmake, h⟩ := Outcome.bind_eq_ok_iff.1 h
  obtain ⟨_, -, h⟩ := Outcome.bind_eq_ok_iff.1 h
  rw [← Except.ok.inj h]
  exact hmake

theorem isIdentifier_of_enumBody {told : List Json} {values : List (Json × (String → EnumValue))}
    (hvalues : told.mapM (keyed enumValue) = .ok values) {vs : List EnumValue}
    (h : enumBody values = .ok (.enum vs)) : ∀ w ∈ vs, IsIdentifier w.name := by
  obtain ⟨ws, hws, h⟩ := Outcome.bind_eq_ok_iff.1 h
  split at h
  · cases h
  · obtain rfl := TypeBody.enum.inj (Except.ok.inj h)
    intro w hw
    obtain ⟨x, hx, n, hn, rfl⟩ := exists_of_mem_named hws hw
    obtain ⟨v, -, hv⟩ := (Outcome.mem_of_mapM hvalues).2 x hx
    rw [name_of_enumValue (make_of_keyed hv)]
    exact hn

theorem of_described {v key : Json} {body : Told TypeBody} {k : Sketch}
    (h : described v key body = .ok k) : IsIdentifier k.type.name ∧ body = .ok k.type.body := by
  obtain ⟨n, hn, h⟩ := Outcome.bind_eq_ok_iff.1 h
  obtain ⟨_, -, h⟩ := Outcome.bind_eq_ok_iff.1 h
  obtain ⟨b, hb, h⟩ := Outcome.bind_eq_ok_iff.1 h
  rw [← Except.ok.inj h]
  exact ⟨isIdentifier_of_name hn, hb⟩

theorem body_of_scalarBody {v k : Json} {b : TypeBody} (h : scalarBody v k = .ok b) :
    b = .scalar := by
  obtain ⟨_, -, h⟩ := Outcome.bind_eq_ok_iff.1 h
  split at h
  · exact (Except.ok.inj h).symm
  · exact (Except.ok.inj h).symm
  · cases h

theorem body_of_enumBody {values : List (Json × (String → EnumValue))} {b : TypeBody}
    (h : enumBody values = .ok b) : ∃ vs, b = .enum vs := by
  obtain ⟨vs, -, h⟩ := Outcome.bind_eq_ok_iff.1 h
  split at h
  · cases h
  · exact ⟨vs, (Except.ok.inj h).symm⟩

theorem isSpelled_of_sketch {v : Json} {k : Sketch} (h : sketch v = .ok k) : k.type.IsSpelled := by
  rw [sketch] at h
  obtain ⟨key, -, h⟩ := Outcome.bind_eq_ok_iff.1 h
  have hplain {b : TypeBody} (h : described v key (pure b) = .ok k) (hb : ∀ vs, b ≠ .enum vs) :
      k.type.IsSpelled := by
    obtain ⟨hname, hbody⟩ := of_described h
    exact .of_body hname (Except.ok.inj hbody).symm hb
  split at h
  · obtain ⟨hname, hbody⟩ := of_described h
    exact .of_body hname (body_of_scalarBody hbody) (by simp)
  · exact hplain h (by simp)
  · exact hplain h (by simp)
  · obtain ⟨_, -, h⟩ := Outcome.bind_eq_ok_iff.1 h
    exact hplain h (by simp)
  · obtain ⟨_, -, h⟩ := Outcome.bind_eq_ok_iff.1 h
    obtain ⟨told, -, h⟩ := Outcome.bind_eq_ok_iff.1 h
    obtain ⟨values, hvalues, h⟩ := Outcome.bind_eq_ok_iff.1 h
    obtain ⟨hname, hbody⟩ := of_described h
    obtain ⟨vs, hvs⟩ := body_of_enumBody hbody
    rw [hvs] at hbody
    refine ⟨hname, fun w hw => isIdentifier_of_enumBody hvalues hbody w ?_⟩
    rwa [NamedType.values, hvs] at hw
  · obtain ⟨_, -, h⟩ := Outcome.bind_eq_ok_iff.1 h
    exact hplain h (by simp)
  · cases h

theorem isSpelled_standardized {k : Sketch} (h : k.type.IsSpelled) :
    (standardized k).type.IsSpelled := by
  rw [standardized]
  split
  · rename_i hstandard
    exact Builtin.isSpelled_standardType? hstandard
  · exact h

theorem isSpelled_of_resolve {k : Sketch} (hk : k.type.IsSpelled) (h : resolve types k = .ok t) :
    t.IsSpelled := by
  rw [resolve] at h
  by_cases hb : (Builtin.standardType? k.type.name).isSome = true
  · rw [if_pos hb] at h
    rw [← Except.ok.inj h]
    exact hk
  · rw [if_neg hb] at h
    cases hbody : k.type.body with
    | object is fs =>
      simp only [hbody] at h
      obtain ⟨is', -, h⟩ := Outcome.bind_eq_ok_iff.1 h
      obtain ⟨fs', -, h⟩ := Outcome.bind_eq_ok_iff.1 h
      rw [← Except.ok.inj h]
      exact .of_body hk.1 rfl (by simp)
    | interface is fs =>
      simp only [hbody] at h
      obtain ⟨is', -, h⟩ := Outcome.bind_eq_ok_iff.1 h
      obtain ⟨fs', -, h⟩ := Outcome.bind_eq_ok_iff.1 h
      rw [← Except.ok.inj h]
      exact .of_body hk.1 rfl (by simp)
    | union ms =>
      simp only [hbody] at h
      obtain ⟨body, hmade, h⟩ := Outcome.bind_eq_ok_iff.1 h
      obtain ⟨told, -, hmade⟩ := Outcome.bind_eq_ok_iff.1 (Outcome.ok_of_mapError hmade)
      obtain ⟨listed, -, hmade⟩ := Outcome.bind_eq_ok_iff.1 hmade
      obtain ⟨ms', -, hmade⟩ := Outcome.bind_eq_ok_iff.1 hmade
      rw [← Except.ok.inj h, ← Except.ok.inj hmade]
      exact .of_body hk.1 rfl (by simp)
    | input fs =>
      simp only [hbody] at h
      obtain ⟨fs', -, h⟩ := Outcome.bind_eq_ok_iff.1 h
      rw [← Except.ok.inj h]
      exact .of_body hk.1 rfl (by simp)
    | scalar =>
      simp only [hbody] at h
      rw [← Except.ok.inj h]
      exact .of_body hk.1 rfl (by simp)
    | enum vs =>
      simp only [hbody] at h
      rw [← Except.ok.inj h]
      have hvalues := hk.2
      rw [NamedType.values, hbody] at hvalues
      exact ⟨hk.1, hvalues⟩

theorem spelled_of_introspection {v : Json} (h : schema v = .ok s) : s.Spelled := by
  obtain ⟨listed, told, resolved, directives, htypes, htold, hresolved⟩ := exists_resolved h
  refine spelled_of_complete (fun t ht => ?_) htypes
  obtain ⟨_, hsketch, ht⟩ := (Outcome.mem_of_mapM hresolved).2 t ht
  obtain ⟨k, hk, rfl⟩ := List.mem_map.1 hsketch
  obtain ⟨v, -, hv⟩ := (Outcome.mem_of_mapM htold).2 k (mem_of_mem_distinct hk)
  exact isSpelled_of_resolve (isSpelled_standardized (isSpelled_of_sketch hv)) ht

end Introspection

/-- The names in a schema that was loaded from files are identifiers. -/
theorem SchemaFiles.spelled_of_load {t : FileTree} {cwd : Location} {paths : List String}
    (h : load t cwd paths = .ok s) : s.Spelled := by
  rcases exists_of_load h with ⟨w, hs⟩ | ⟨source, ds, hds, hs⟩
  · exact Introspection.spelled_of_introspection hs
  · exact spelled_of_definitions (wellSpelled_of_parseDefinitions hds) hs

/-- The names in a schema that an endpoint replied are identifiers. -/
theorem Endpoint.spelled_of_ofReply {e : Endpoint} {reply : HttpReply}
    (h : e.ofReply reply = .ok s) : s.Spelled := by
  obtain ⟨w, hs⟩ := exists_of_ofReply h
  exact Introspection.spelled_of_introspection hs

end QueryTypes
