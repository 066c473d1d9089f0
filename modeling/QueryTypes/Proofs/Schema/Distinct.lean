import QueryTypes.Proofs.Outcome
import QueryTypes.Proofs.Schema.Types
import QueryTypes.Proofs.Table
import QueryTypes.Schema.Endpoint

/-!
# Schemas have distinct types

Whatever a schema is loaded from, its types have distinct names: declarations may not repeat a
name, of an introspection result the last type of a name counts, and the built-in types are added
only where their names are free.
-/

namespace QueryTypes

open Build

variable {types : List NamedType} {directives : List DirectiveType}

theorem standardType?_name {name : String} {b : NamedType}
    (h : Builtin.standardType? name = some b) : b.name = name := by
  rw [Builtin.standardType?] at h
  by_cases hn : Builtin.scalarNames.contains name = true
  · rw [if_pos hn] at h
    rw [← Option.some.inj h]
    rfl
  · rw [if_neg hn] at h
    simpa using List.find?_some h

theorem nodup_complete (h : (types.map NamedType.name).Nodup) :
    ((complete types directives).map NamedType.name).Nodup := by
  have hscalar : NamedType.name ∘ Builtin.scalar = id := rfl
  have hfree : ∀ b ∈ Builtin.schemaTypes, (!types.any fun t => t.name == b.name) = true →
      b.name ∉ types.map NamedType.name := by
    intro b _ hb hmem
    obtain ⟨t, ht, hname⟩ := List.mem_map.1 hmem
    rw [Bool.not_eq_true', List.any_eq_false] at hb
    exact hb t ht (by simpa using hname)
  rw [complete, List.map_append, List.map_append, List.map_map, hscalar, List.map_id,
    List.nodup_append, List.nodup_append]
  refine ⟨⟨h, ?_, ?_⟩, ?_, ?_⟩
  · have hall : (Builtin.schemaTypes.map NamedType.name).Nodup := by decide
    exact hall.sublist (List.filter_sublist.map _)
  · rintro n hn m hm rfl
    obtain ⟨b, hb, rfl⟩ := List.mem_map.1 hm
    obtain ⟨hb, hnew⟩ := List.mem_filter.1 hb
    exact hfree b hb hnew hn
  · have hall : Builtin.scalarNames.Nodup := by decide
    exact hall.sublist List.filter_sublist
  · rintro n hn m hm rfl
    obtain ⟨hm, hnew⟩ := List.mem_filter.1 hm
    rw [Bool.and_eq_true, Bool.not_eq_true', List.any_eq_false] at hnew
    rcases List.mem_append.1 hn with hn | hn
    · obtain ⟨t, ht, hname⟩ := List.mem_map.1 hn
      exact hnew.2 t ht (by simpa using hname)
    · obtain ⟨b, hb, rfl⟩ := List.mem_map.1 hn
      have hapart : ∀ b ∈ Builtin.schemaTypes, b.name ∉ Builtin.scalarNames := by decide
      exact hapart b (List.mem_filter.1 hb).1 hm

theorem map_name_settleType (all : List NamedType) :
    (types.map (settleType all)).map NamedType.name = types.map NamedType.name := by
  rw [List.map_map]
  rfl

theorem distinct_of_complete {s : Schema} (h : (types.map NamedType.name).Nodup)
    (hs : s.types = (complete types directives).map (settleType (complete types directives))) :
    s.Distinct := by
  rw [Schema.Distinct, hs, map_name_settleType]
  exact nodup_complete h

namespace Declaration

/-- The name of a type that is declared and not extended. -/
def declared? : Visit → Option String
  | .type t => if t.extends_ then none else some t.name
  | _ => none

/-- How names of declared types are remembered. -/
def noteType (seen : List String) (v : Visit) : List String × List String :=
  match v with
  | .type t =>
    if t.extends_ then (seen, [])
    else noteNames (fun n => "There can be only one type named '" ++ n ++ "'.") seen [t.name]
  | _ => (seen, [])

theorem noteType_of_declared {v : Visit} {n : String} {seen : List String}
    (h : declared? v = some n) (hfound : (noteType seen v).2 = []) :
    n ∉ seen ∧ (noteType seen v).1 = n :: seen := by
  cases v with
  | type t =>
    rw [declared?] at h
    by_cases he : t.extends_ = true
    · simp [he] at h
    · rw [if_neg he] at h
      obtain rfl := Option.some.inj h
      by_cases hn : t.name ∈ seen
      · simp [noteType, he, noteNames, hn] at hfound
      · simp [noteType, he, noteNames, hn]
  | _ => simp [declared?] at h

theorem noteType_of_undeclared {v : Visit} {seen : List String} (h : declared? v = none) :
    (noteType seen v).1 = seen := by
  cases v with
  | type t =>
    rw [declared?] at h
    by_cases he : t.extends_ = true
    · simp [noteType, he]
    · simp [he] at h
  | _ => rfl

theorem nodup_of_go {vs : List Visit} {seen : List String} {i : Nat}
    (h : Findings.ofHistory.go noteType seen i vs = []) :
    (vs.filterMap declared?).Nodup ∧ ∀ n ∈ vs.filterMap declared?, n ∉ seen := by
  induction vs generalizing seen i with
  | nil => simp
  | cons v vs ih =>
    have hgo : (noteType seen v).2.map (fun a => (i, a)) ++
        Findings.ofHistory.go noteType (noteType seen v).1 (i + 1) vs = [] := h
    obtain ⟨hfound, hrest⟩ := List.append_eq_nil_iff.1 hgo
    obtain ⟨hnodup, hfresh⟩ := ih hrest
    cases hv : declared? v with
    | none =>
      rw [noteType_of_undeclared hv] at hfresh
      rw [List.filterMap_cons_none hv]
      exact ⟨hnodup, hfresh⟩
    | some n =>
      obtain ⟨hn, hseen⟩ := noteType_of_declared hv (List.map_eq_nil_iff.1 hfound)
      rw [hseen] at hfresh
      rw [List.filterMap_cons_some hv]
      refine ⟨List.nodup_cons.2 ⟨fun hmem => hfresh n hmem List.mem_cons_self, hnodup⟩, ?_⟩
      intro m hm
      rcases List.mem_cons.1 hm with rfl | hm
      · exact hn
      · exact fun hmem => hfresh m hm (List.mem_cons_of_mem _ hmem)

theorem typeDefinitions_sublist (ds : List Definition) :
    ((typeDefinitions ds).map TypeDefinition.name).Sublist ((visits ds).filterMap declared?) := by
  induction ds with
  | nil => exact List.Sublist.slnil
  | cons d ds ih =>
    rw [visits, List.flatMap_cons, List.filterMap_append]
    cases d with
    | type t =>
      by_cases he : t.extends_ = true
      · have hskip : typeDefinitions (.type t :: ds) = typeDefinitions ds := by
          simp [typeDefinitions, he]
        rw [hskip]
        exact ih.trans (List.sublist_append_right _ _)
      · have hkeep : typeDefinitions (.type t :: ds) = t :: typeDefinitions ds := by
          simp [typeDefinitions, he]
        have hhead : [t.name].Sublist ((definitionVisits (.type t)).filterMap declared?) := by
          rw [definitionVisits, typeVisits, List.filterMap_cons_some (by rw [declared?, if_neg he])]
          simp
        rw [hkeep]
        exact hhead.append ih
    | operation o => exact ih.trans (List.sublist_append_right _ _)
    | fragment f => exact ih.trans (List.sublist_append_right _ _)
    | directive d => exact ih.trans (List.sublist_append_right _ _)
    | schema s => exact ih.trans (List.sublist_append_right _ _)

theorem nodup_of_complaints {ds : List Definition} (h : complaints ds = []) :
    ((typeDefinitions ds).map TypeDefinition.name).Nodup := by
  rw [complaints, Findings.inOrder_eq_nil_iff] at h
  have hunique : uniqueTypes (visits ds) = [] := h _ (by simp)
  exact (nodup_of_go (i := 0) hunique).1.sublist (typeDefinitions_sublist ds)

end Declaration

/-- A type that is made from a definition and the extensions of its name. -/
structure Build.Makes (ds : List Definition) (d : TypeDefinition) (t : NamedType) : Prop where
  name : t.name = d.name
  body : Builtin.standardType? d.name = some t ∨
    ∃ shapes, (∀ shape ∈ shapes, shape = d.shape ∨ ∃ d', .type d' ∈ ds ∧ d'.shape = shape) ∧
      body d.name (merged shapes d.shape) = .ok t.body

theorem Build.made_of_mapM {ds : List Definition} {f : TypeDefinition → Except Diagnostic NamedType}
    (hf : ∀ d t, f d = .ok t → Makes ds d t) {defs : List TypeDefinition}
    (h : defs.mapM f = .ok types) : types.map NamedType.name = defs.map TypeDefinition.name ∧
      ∀ t ∈ types, ∃ d ∈ defs, Makes ds d t := by
  refine ⟨Outcome.map_of_mapM (fun d t h => (hf d t h).name) h, fun t ht => ?_⟩
  obtain ⟨d, hd, h⟩ := (Outcome.mem_of_mapM h).2 t ht
  exact ⟨d, hd, hf d t h⟩

/-- What the types of a schema are made from. -/
theorem Build.exists_made {ds : List Definition} {s : Schema} (h : schema ds = .ok s) :
    ∃ types directives,
      s.types = (complete types directives).map (settleType (complete types directives)) ∧
      types.map NamedType.name = (Declaration.typeDefinitions ds).map TypeDefinition.name ∧
      ∀ t ∈ types, ∃ d ∈ Declaration.typeDefinitions ds, Makes ds d t := by
  rw [schema] at h
  obtain ⟨-, -, h⟩ := Outcome.bind_eq_ok_iff.1 h
  obtain ⟨directives, -, h⟩ := Outcome.bind_eq_ok_iff.1 h
  obtain ⟨types, htypes, h⟩ := Outcome.bind_eq_ok_iff.1 h
  obtain rfl := Except.ok.inj h
  refine ⟨types, _, rfl, made_of_mapM (fun d t h => ?_) htypes⟩
  cases hb : Builtin.standardType? d.name with
  | some b =>
    simp only [hb] at h
    obtain rfl := Except.ok.inj h
    exact ⟨standardType?_name hb, .inl hb⟩
  | none =>
    simp only [hb] at h
    obtain ⟨made, hmade, h⟩ := Outcome.bind_eq_ok_iff.1 h
    obtain rfl := Except.ok.inj h
    refine ⟨rfl, .inr ⟨_, fun shape hshape => ?_, hmade⟩⟩
    refine (List.mem_cons.1 hshape).imp_right fun hshape => ?_
    obtain ⟨d', hd', rfl⟩ := List.mem_map.1 hshape
    obtain ⟨definition, hdefinition, hextends⟩ := List.mem_filterMap.1 (List.mem_filter.1 hd').1
    split at hextends
    · split at hextends
      · obtain rfl := Option.some.inj hextends
        exact ⟨_, hdefinition, rfl⟩
      · cases hextends
    · cases hextends

theorem Build.exists_of_ofDefinitions {ds : List Definition} {s : Schema}
    (h : Schema.ofDefinitions ds = .ok s) :
    Declaration.complaints ds = [] ∧ schema ds = .ok s := by
  rw [Schema.ofDefinitions] at h
  by_cases hc : (Declaration.complaints ds).isEmpty = true
  · rw [if_pos hc] at h
    exact ⟨List.isEmpty_iff.1 hc, Outcome.ok_of_mapError h⟩
  · rw [if_neg hc] at h
    cases h

/-- Declarations make a schema whose types have distinct names. -/
theorem distinct_of_definitions {ds : List Definition} {s : Schema}
    (h : Schema.ofDefinitions ds = .ok s) : s.Distinct := by
  obtain ⟨hcomplaints, hmade⟩ := Build.exists_of_ofDefinitions h
  obtain ⟨types, directives, htypes, hnames, -⟩ := Build.exists_made hmade
  have hnodup := Declaration.nodup_of_complaints hcomplaints
  rw [← hnames] at hnodup
  exact distinct_of_complete hnodup htypes

namespace Introspection

theorem keys_eq_of_named {α : Type} {key : α → String} {ps : Table α}
    (h : ∀ p ∈ ps, p.1 = key p.2) :
    ps.map Prod.fst = ps.values.map key := by
  rw [Table.values, List.map_map]
  exact List.map_congr_left h

theorem nodup_distinct {α : Type} (key : α → String) (xs : List α) :
    ((distinct key xs).map key).Nodup := by
  have hnamed : ∀ p ∈ Table.ofList (xs.map fun x => (key x, x)), p.1 = key p.2 := by
    intro p hp
    obtain ⟨x, -, rfl⟩ := List.mem_map.1 (Table.mem_of_mem_ofList hp)
    rfl
  rw [distinct, ← keys_eq_of_named hnamed]
  exact Table.nodup_keys_ofList _

theorem standardized_name (k : Sketch) : (standardized k).type.name = k.type.name := by
  rw [standardized]
  cases hb : Builtin.standardType? k.type.name with
  | none => rfl
  | some b => exact standardType?_name hb

theorem resolve_name {k : Sketch} {t : NamedType} (h : resolve types k = .ok t) :
    t.name = k.type.name := by
  rw [resolve] at h
  by_cases hb : (Builtin.standardType? k.type.name).isSome = true
  · rw [if_pos hb] at h
    rw [← Except.ok.inj h]
  · rw [if_neg hb] at h
    cases hbody : k.type.body with
    | object is fs =>
      simp only [hbody] at h
      obtain ⟨is', -, h⟩ := Outcome.bind_eq_ok_iff.1 h
      obtain ⟨fs', -, h⟩ := Outcome.bind_eq_ok_iff.1 h
      rw [← Except.ok.inj h]
    | interface is fs =>
      simp only [hbody] at h
      obtain ⟨is', -, h⟩ := Outcome.bind_eq_ok_iff.1 h
      obtain ⟨fs', -, h⟩ := Outcome.bind_eq_ok_iff.1 h
      rw [← Except.ok.inj h]
    | union ms =>
      simp only [hbody] at h
      obtain ⟨ms', -, h⟩ := Outcome.bind_eq_ok_iff.1 h
      rw [← Except.ok.inj h]
    | input fs =>
      simp only [hbody] at h
      obtain ⟨fs', -, h⟩ := Outcome.bind_eq_ok_iff.1 h
      rw [← Except.ok.inj h]
    | scalar =>
      simp only [hbody] at h
      rw [← Except.ok.inj h]
    | enum vs =>
      simp only [hbody] at h
      rw [← Except.ok.inj h]

theorem nodup_resolved {told : List Sketch} {resolved : List NamedType}
    (h : ((distinct (fun k => k.type.name) told).map standardized).mapM (resolve types) =
      .ok resolved) : (resolved.map NamedType.name).Nodup := by
  have hname : (fun k : Sketch => k.type.name) ∘ standardized = fun k => k.type.name :=
    funext standardized_name
  rw [Outcome.map_of_mapM (fun _ _ => resolve_name) h, List.map_map, hname]
  exact nodup_distinct _ _

/-- What the types of a schema are made from. -/
theorem exists_resolved {v : Json} {s : Schema} (h : schema v = .ok s) :
    ∃ (listed : List Json) (told : List Sketch) (resolved : List NamedType)
      (directives : List DirectiveType),
      s.types = (Build.complete resolved directives).map
        (settleType (Build.complete resolved directives)) ∧
      listed.mapM sketch = .ok told ∧
      let sketches := (distinct (fun k => k.type.name) told).map standardized
      sketches.mapM (resolve (sketches.map Sketch.type)) = .ok resolved := by
  rw [schema] at h
  cases hv : (v.field? "__schema").getD .null with
  | obj fs =>
    simp only [hv] at h
    obtain ⟨types, -, h⟩ := Outcome.bind_eq_ok_iff.1 h
    obtain ⟨listed, -, h⟩ := Outcome.bind_eq_ok_iff.1 h
    obtain ⟨told, htold, h⟩ := Outcome.bind_eq_ok_iff.1 h
    obtain ⟨query, -, h⟩ := Outcome.bind_eq_ok_iff.1 h
    obtain ⟨mutation, -, h⟩ := Outcome.bind_eq_ok_iff.1 h
    obtain ⟨subscription, -, h⟩ := Outcome.bind_eq_ok_iff.1 h
    obtain ⟨ds, -, h⟩ := Outcome.bind_eq_ok_iff.1 h
    by_cases hd : ds.holds = true
    · rw [if_pos hd] at h
      obtain ⟨told', -, h⟩ := Outcome.bind_eq_ok_iff.1 h
      obtain ⟨directives, -, h⟩ := Outcome.bind_eq_ok_iff.1 h
      obtain ⟨-, -, h⟩ := Outcome.bind_eq_ok_iff.1 h
      obtain ⟨resolved, hresolved, h⟩ := Outcome.bind_eq_ok_iff.1 h
      obtain rfl := Except.ok.inj h
      exact ⟨listed, told, resolved, directives, rfl, htold, hresolved⟩
    · rw [if_neg hd] at h
      obtain ⟨directives, -, h⟩ := Outcome.bind_eq_ok_iff.1 h
      obtain ⟨-, -, h⟩ := Outcome.bind_eq_ok_iff.1 h
      obtain ⟨resolved, hresolved, h⟩ := Outcome.bind_eq_ok_iff.1 h
      obtain rfl := Except.ok.inj h
      exact ⟨listed, told, resolved, directives, rfl, htold, hresolved⟩
  | _ => simp [hv, refuse] at h

/-- An introspection result makes a schema whose types have distinct names. -/
theorem distinct_of_introspection {v : Json} {s : Schema} (h : schema v = .ok s) : s.Distinct := by
  obtain ⟨listed, told, resolved, directives, htypes, -, hresolved⟩ := exists_resolved h
  exact distinct_of_complete (nodup_resolved hresolved) htypes

end Introspection

namespace SchemaFiles

theorem exists_of_ofIntrospection {source : String} {v : Json} {s : Schema}
    (h : ofIntrospection source v = .ok s) : ∃ w, Introspection.schema w = .ok s := by
  rw [ofIntrospection, ofIntrospectionWith] at h
  split at h
  · cases h
  · exact ⟨told v, Outcome.ok_of_mapError (Outcome.ok_of_mapError h)⟩

theorem exists_of_ofDeclarations {texts : List (List Char)} {s : Schema}
    (h : ofDeclarationsWith SchemaReaders.standard.declarations texts = .ok s) :
    ∃ source ds, parseDefinitions source true = .ok ds ∧ Schema.ofDefinitions ds = .ok s := by
  have hs : Schema.ofText (Text.joinOn '\n' texts) = .ok s :=
    Outcome.ok_of_mapError (Outcome.ok_of_mapError h)
  rw [Schema.ofText] at hs
  obtain ⟨ds, hds, hs⟩ := Outcome.bind_eq_ok_iff.1 hs
  exact ⟨_, ds, Outcome.ok_of_mapError hds, hs⟩

theorem exists_of_ofResultText {path : String} {text : List Char} {s : Schema}
    (h : ofResultText SchemaReaders.standard path text = .ok s) :
    ∃ w, Introspection.schema w = .ok s := by
  rw [ofResultText] at h
  split at h
  · cases h
  · split at h
    · exact exists_of_ofIntrospection h
    · cases h
    · cases h

/-- A schema that was loaded from files is told or declared in them. -/
theorem exists_of_load {t : FileTree} {cwd : Location} {paths : List String} {s : Schema}
    (h : load t cwd paths = .ok s) : (∃ w, Introspection.schema w = .ok s) ∨
      ∃ source ds, parseDefinitions source true = .ok ds ∧ Schema.ofDefinitions ds = .ok s := by
  rw [load, loadWith] at h
  obtain ⟨files, -, h⟩ := Outcome.bind_eq_ok_iff.1 h
  split at h
  · by_cases hmixed : 1 < files.length
    · simp [hmixed, throw, throwThe, MonadExceptOf.throw, bind, Except.bind] at h
    · rw [if_neg hmixed] at h
      obtain ⟨-, -, h⟩ := Outcome.bind_eq_ok_iff.1 h
      obtain ⟨text, -, h⟩ := Outcome.bind_eq_ok_iff.1 h
      exact .inl (exists_of_ofResultText h)
  · by_cases hfiles : files.isEmpty = true
    · simp [hfiles, throw, throwThe, MonadExceptOf.throw, bind, Except.bind] at h
    · rw [if_neg hfiles] at h
      obtain ⟨-, -, h⟩ := Outcome.bind_eq_ok_iff.1 h
      obtain ⟨texts, -, h⟩ := Outcome.bind_eq_ok_iff.1 h
      exact .inr (exists_of_ofDeclarations h)

/-- The types of a schema that was loaded from files have distinct names. -/
theorem distinct_of_load {t : FileTree} {cwd : Location} {paths : List String} {s : Schema}
    (h : load t cwd paths = .ok s) : s.Distinct := by
  rcases exists_of_load h with ⟨w, hs⟩ | ⟨source, ds, -, hs⟩
  · exact Introspection.distinct_of_introspection hs
  · exact distinct_of_definitions hs

end SchemaFiles

namespace Endpoint

/-- A schema that an endpoint replied is told in the reply. -/
theorem exists_of_ofReply {e : Endpoint} {reply : HttpReply} {s : Schema}
    (h : e.ofReply reply = .ok s) : ∃ w, Introspection.schema w = .ok s := by
  cases reply with
  | failed m => simp [ofReply] at h
  | response status headers body =>
    rw [ofReply] at h
    by_cases hstatus : Http.isSuccess status = true
    · cases hv : Json.parse? (withoutMark body) with
      | none => simp [hstatus, hv] at h
      | some v =>
        simp only [hstatus, hv, Bool.not_true, Bool.false_eq_true, if_false] at h
        rw [ofResult] at h
        by_cases herrors : ((v.field? "errors").getD .null).holds = true
        · rw [if_pos herrors] at h
          obtain ⟨texts, -, h⟩ := Outcome.bind_eq_ok_iff.1 h
          simp [throw, throwThe, MonadExceptOf.throw, bind, Except.bind] at h
        · rw [if_neg herrors] at h
          exact SchemaFiles.exists_of_ofIntrospection h
    · simp [hstatus] at h

/-- The types of a schema that an endpoint replied have distinct names. -/
theorem distinct_of_ofReply {e : Endpoint} {reply : HttpReply} {s : Schema}
    (h : e.ofReply reply = .ok s) : s.Distinct := by
  obtain ⟨w, hs⟩ := exists_of_ofReply h
  exact Introspection.distinct_of_introspection hs

end Endpoint
end QueryTypes
