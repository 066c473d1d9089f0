import Mathlib.Data.List.Induction
import Mathlib.Data.List.Nodup
import Mathlib.Data.List.Perm.Subperm
import QueryTypes.Config.Origin
import QueryTypes.Config.Override
import QueryTypes.Proofs.Outcome
import QueryTypes.Proofs.Table

/-!
# The request for a schema

An endpoint is sent one request, and what comes back is read. Its headers are the type of the body,
the configured ones and those given as arguments, each in the place of earlier ones that are spelled
alike. The endpoint reads names without case. Main statement: a name carries the value that counts
and no other exactly if all that was given under it is spelled alike.
-/

namespace QueryTypes

namespace Table

variable {α : Type} {t : Table α} {k : String} {x : α}

/-- Of pairs with one key the last one is left. -/
theorem ofList_of_forall_eq {ps : List (String × α)} (h : ∀ q ∈ ps, q.1 = k) :
    ofList ps = ps.getLast?.toList := by
  induction ps using List.reverseRecOn with
  | nil => rfl
  | append_singleton ps last ih =>
    have hlast : last.1 = k := h last (by simp)
    have hps : ∀ q ∈ ps, q.1 = k := fun q hq => h q (List.mem_append_left _ hq)
    rw [ofList_concat, ih hps, List.getLast?_concat]
    cases hbefore : ps.getLast? with
    | none => rfl
    | some q =>
      have hq : q.1 = last.1 := (hps q (List.mem_of_getLast? hbefore)).trans hlast.symm
      rw [Option.toList_some, set, if_pos hq, hq]
      rfl

/-- Two keys are two pairs. -/
theorem two_le_length {j : String} (hj : j ∈ t.keys) (hk : k ∈ t.keys) (hne : j ≠ k) :
    2 ≤ t.length := by
  have hnodup : [j, k].Nodup := List.nodup_cons.2 ⟨by simpa using hne, List.nodup_singleton k⟩
  have hpair : [j, k].Subperm t.keys := by
    refine hnodup.subperm fun i hi => ?_
    rcases List.mem_pair.1 hi with rfl | rfl
    · exact hj
    · exact hk
  simpa [keys] using hpair.length_le

end Table

theorem Text.length_le_length_joinWith (sep : String) {v : String} {vs : List String}
    (hv : v ∈ vs) : v.length ≤ (Text.joinWith sep vs).length := by
  induction vs with
  | nil => cases hv
  | cons w vs ih =>
    cases vs with
    | nil => simp [Text.joinWith, List.mem_singleton.1 hv]
    | cons u us =>
      rw [Text.joinWith, String.intercalate_cons_cons, String.length_append, String.length_append]
      rcases List.mem_cons.1 hv with rfl | hv
      · omega
      · exact Nat.le_add_left_of_le (ih hv)

/-- Of two joined texts or more neither is all that is read. -/
theorem Text.length_lt_length_joinWith {sep : String} (hsep : sep ≠ "") {v : String}
    {vs : List String} (hv : v ∈ vs) (htwo : 2 ≤ vs.length) :
    v.length < (Text.joinWith sep vs).length := by
  have hpos : 0 < sep.length := Nat.pos_of_ne_zero (mt String.length_eq_zero_iff.1 hsep)
  match vs with
  | w :: u :: us =>
    rw [Text.joinWith, String.intercalate_cons_cons, String.length_append, String.length_append]
    rcases List.mem_cons.1 hv with rfl | hv
    · omega
    · have hle := Text.length_le_length_joinWith sep hv
      rw [Text.joinWith] at hle
      omega

namespace Http

/-- The values under a name, as they are read: in order, whatever the case of the name. -/
def valuesOf (name : String) (hs : List (String × String)) : List String :=
  (hs.filter fun h => lowerName h.1 == lowerName name).map Prod.snd

/-- The value that counts under a name. -/
def lastValue? (name : String) (hs : List (String × String)) : Option String :=
  (valuesOf name hs).getLast?

/-- A name is spelled alike wherever it is given. -/
def SpelledAlike (name : String) (hs : List (String × String)) : Prop :=
  ∀ h ∈ hs, ∀ h' ∈ hs, lowerName h.1 = lowerName name → lowerName h'.1 = lowerName name → h.1 = h'.1

instance (name : String) (hs : List (String × String)) : Decidable (SpelledAlike name hs) := by
  unfold SpelledAlike
  infer_instance

variable {name : String} {hs hs' : List (String × String)}

theorem lastValue?_append :
    lastValue? name (hs ++ hs') = (lastValue? name hs').or (lastValue? name hs) := by
  rw [lastValue?, valuesOf, List.filter_append, List.map_append, List.getLast?_append]
  rfl

/-- What is read under a name: its values, with commas between them. -/
theorem header?_eq (name : String) (hs : List (String × String)) : header? name hs =
    if valuesOf name hs = [] then none else some (Text.joinWith ", " (valuesOf name hs)) := by
  have hmem : lowerName name ∈ (hs.map fun h => lowerName h.1).eraseDups ↔
      valuesOf name hs ≠ [] := by
    rw [List.mem_eraseDups, valuesOf, Ne, List.map_eq_nil_iff, List.filter_eq_nil_iff]
    simp
  rw [header?, sentHeaders, Table.lookup_map_pair]
  by_cases hnone : valuesOf name hs = []
  · rw [if_pos hnone, if_neg fun h => hmem.1 h hnone]
  · rw [if_neg hnone, if_pos (hmem.2 hnone)]
    rfl

theorem valuesOf_ofList (name : String) (hs : List (String × String)) :
    valuesOf name (Table.ofList hs) =
      (Table.ofList (hs.filter fun h => lowerName h.1 == lowerName name)).values := by
  rw [valuesOf, Table.filter_ofList fun k => lowerName k == lowerName name]
  rfl

theorem valuesOf_of_spelledAlike (h : SpelledAlike name hs) :
    valuesOf name (Table.ofList hs) = (lastValue? name hs).toList := by
  have hsame : ∀ k ∈ hs.filter fun h => lowerName h.1 == lowerName name,
      ∀ k' ∈ hs.filter fun h => lowerName h.1 == lowerName name, k.1 = k'.1 := by
    intro k hk k' hk'
    obtain ⟨hk, hname⟩ := List.mem_filter.1 hk
    obtain ⟨hk', hname'⟩ := List.mem_filter.1 hk'
    exact h k hk k' hk' (beq_iff_eq.1 hname) (beq_iff_eq.1 hname')
  rw [valuesOf_ofList, lastValue?, valuesOf, List.getLast?_map]
  generalize hs.filter (fun h => lowerName h.1 == lowerName name) = ps at hsame
  cases ps with
  | nil => rfl
  | cons p ps =>
    rw [Table.ofList_of_forall_eq fun q hq => hsame q hq p List.mem_cons_self]
    cases (p :: ps).getLast? <;> rfl

theorem two_le_length_of_not_spelledAlike (h : ¬SpelledAlike name hs) :
    2 ≤ (valuesOf name (Table.ofList hs)).length := by
  simp only [SpelledAlike, not_forall] at h
  obtain ⟨k, hk, k', hk', hname, hname', hne⟩ := h
  rw [valuesOf_ofList, Table.values, List.length_map]
  have hmem : ∀ k ∈ hs, lowerName k.1 = lowerName name →
      k.1 ∈ (Table.ofList (hs.filter fun h => lowerName h.1 == lowerName name)).keys := by
    intro k hk hname
    refine Table.mem_keys_ofList_iff.2 (List.mem_map_of_mem (List.mem_filter.2 ⟨hk, ?_⟩))
    exact beq_iff_eq.2 hname
  exact Table.two_le_length (hmem k hk hname) (hmem k' hk' hname') hne

theorem lastValue_mem {v : String} (h : lastValue? name hs = some v) :
    v ∈ valuesOf name (Table.ofList hs) := by
  rw [lastValue?, valuesOf, List.getLast?_map, Option.map_eq_some_iff] at h
  obtain ⟨p, hp, rfl⟩ := h
  rw [valuesOf_ofList]
  exact List.mem_map_of_mem (Table.getLast_mem_ofList hp)

/-- In a table of headers a name has the last of its values, and nothing else is read under it,
exactly if it is spelled alike. -/
theorem header?_ofList_iff (name : String) (hs : List (String × String)) :
    (valuesOf name (Table.ofList hs) = (lastValue? name hs).toList ↔ SpelledAlike name hs) ∧
      (header? name (Table.ofList hs) = lastValue? name hs ↔ SpelledAlike name hs) := by
  refine ⟨⟨fun hvalues => ?_, valuesOf_of_spelledAlike⟩, fun hread => ?_, fun halike => ?_⟩
  · by_contra hne
    have htwo := two_le_length_of_not_spelledAlike hne
    have hone : (lastValue? name hs).toList.length ≤ 1 := by cases lastValue? name hs <;> simp
    rw [hvalues] at htwo
    omega
  · by_contra hne
    have htwo := two_le_length_of_not_spelledAlike hne
    have hsome : valuesOf name (Table.ofList hs) ≠ [] := by
      intro hnil
      rw [hnil] at htwo
      exact absurd htwo (by decide)
    rw [header?_eq, if_neg hsome] at hread
    -- The values are joined, and the joined text is longer than the one that counts.
    have hsep : ", " ≠ "" := by decide
    have hlonger := Text.length_lt_length_joinWith hsep (lastValue_mem hread.symm) htwo
    omega
  · rw [header?_eq, valuesOf_of_spelledAlike halike]
    cases lastValue? name hs with
    | none => rfl
    | some v => simp [Text.joinWith]

end Http

namespace Endpoint

/-- An endpoint that keeps what it is sent and always replies the same. -/
def recorded (reply : HttpReply) (r : HttpRequest) : StateM (List HttpRequest) HttpReply := do
  modify (· ++ [r])
  return reply

/-- One request, or none if it cannot be sent, and the reply is read. -/
theorem run_load (e : Endpoint) (reply : HttpReply) (sent : List HttpRequest) :
    (e.load (recorded reply)).run sent =
      if e.canSend then (e.ofReply reply, sent ++ [e.request])
      else (.error (.schema (.notJson e.url)), sent) := by
  rw [load]
  split <;> rfl

theorem requestHeaders_eq {e : Endpoint} {configured : Table String} (hkeys : configured.keys.Nodup)
    {given : List (String × String)}
    (he : e.headers = given.foldl (fun t h => t.set h.1 h.2) configured) :
    e.requestHeaders =
      Table.ofList (("Content-Type", "application/json") :: configured ++ given) := by
  rw [requestHeaders, he, Table.foldl_foldl hkeys, Table.ofList, List.foldl_append]
  rfl

end Endpoint

variable {c c' : ClientConfig} {a : Arguments} {e : Endpoint}

theorem ClientConfig.headers_override (h : c.override a = .ok c') :
    ∃ given, a.headers.mapM parseHeader = .ok given ∧
      c'.schema.headers = given.foldl (fun t h => t.set h.1 h.2) c.schema.headers := by
  obtain ⟨source, hsource, h⟩ := Outcome.bind_eq_ok_iff.1 h
  obtain ⟨given, hgiven, hsource⟩ := Outcome.bind_eq_ok_iff.1 hsource
  obtain rfl := Except.ok.inj h
  obtain rfl := Except.ok.inj hsource
  refine ⟨given, hgiven, ?_⟩
  dsimp only
  split <;> rfl

theorem SchemaSource.headers_of_origin {s : SchemaSource} (h : s.origin = .ok (.endpoint e)) :
    e.headers = s.headers := by
  rw [origin] at h
  split at h
  · cases h
  · injection h with h
    injection h with h
    rw [← h]
  · cases h

/-- The headers of the request for a schema. For every configured table of headers, all headers
given as arguments and every name: one request is sent, and the endpoint reads under the name, in
any case, the last value given as an argument, else the configured one, else the type of the body,
exactly if the name is spelled alike wherever it is given. Otherwise it is sent two values or
more. -/
theorem ClientConfig.headers_sent_iff (hkeys : c.schema.headers.keys.Nodup)
    (hc : c.override a = .ok c') (he : c'.schema.origin = .ok (.endpoint e)) :
    ∃ given, a.headers.mapM parseHeader = .ok given ∧
      (∀ reply, ((e.load (Endpoint.recorded reply)).run []).2 =
        if e.canSend then [e.request] else []) ∧
      ∀ name,
        let standard := [("Content-Type", "application/json")]
        let counted := (Http.lastValue? name given).or
          ((Http.lastValue? name c.schema.headers).or (Http.lastValue? name standard))
        let alike := Http.SpelledAlike name (standard ++ c.schema.headers ++ given)
        (Http.valuesOf name e.request.headers = counted.toList ↔ alike) ∧
        (Http.header? name e.request.headers = counted ↔ alike) ∧
        (¬alike → 2 ≤ (Http.valuesOf name e.request.headers).length) := by
  obtain ⟨given, hgiven, hheaders⟩ := headers_override hc
  have hsent : e.request.headers =
      Table.ofList ([("Content-Type", "application/json")] ++ c.schema.headers ++ given) :=
    Endpoint.requestHeaders_eq hkeys ((SchemaSource.headers_of_origin he).trans hheaders)
  refine ⟨given, hgiven, fun reply => ?_, fun name => ?_⟩
  · rw [Endpoint.run_load]
    split <;> rfl
  · dsimp only
    rw [hsent, ← Http.lastValue?_append, ← Http.lastValue?_append]
    obtain ⟨hvalues, hread⟩ := Http.header?_ofList_iff name
      ([("Content-Type", "application/json")] ++ c.schema.headers ++ given)
    exact ⟨hvalues, hread, Http.two_le_length_of_not_spelledAlike⟩

/-- A configured header is given again in another case: the endpoint is sent both values. -/
theorem ClientConfig.headers_sent_iff_authorization :
    let source : SchemaSource :=
      { SchemaSource.standard with
        endpoint := some "https://h/graphql", headers := [("Authorization", "old")] }
    let c := { ClientConfig.standard with schema := source }
    let a := { Arguments.none with headers := ["authorization: new"] }
    ∃ c' e, c.override a = .ok c' ∧ c'.schema.origin = .ok (.endpoint e) ∧
      Http.header? "Authorization" e.request.headers ≠ some "new" ∧
      2 ≤ (Http.valuesOf "Authorization" e.request.headers).length := by
  intro source c a
  have hgiven : a.headers.mapM parseHeader = .ok [("authorization", "new")] := by decide
  obtain ⟨given, hgiven', -, hread⟩ := headers_sent_iff (c := c) (a := a) (by decide) rfl rfl
  obtain rfl := Except.ok.inj (hgiven'.symm.trans hgiven)
  obtain ⟨-, hread, htwo⟩ := hread "Authorization"
  have hne : ¬Http.SpelledAlike "Authorization"
      ([("Content-Type", "application/json")] ++ source.headers ++ [("authorization", "new")]) := by
    decide
  exact ⟨_, _, rfl, rfl, mt hread.1 hne, htwo hne⟩

end QueryTypes
