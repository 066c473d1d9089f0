import QueryTypes.Json.Access
import QueryTypes.Proofs.Schema.Request
import QueryTypes.Proofs.Schema.Told

/-!
# What an endpoint replies

A reply that is no success or no JSON is a failure to load the schema. So are errors, if their
messages can be read: a list of objects whose messages are texts. Main statement: after one request
the work breaks down exactly on errors that cannot be read and on what is told of a schema if a
schema made of it breaks down.
-/

namespace QueryTypes

namespace Endpoint

/-- Errors whose messages cannot be read, and how reading them breaks down. -/
inductive Unreadable : Json → Fault → Prop
  | flat {v : Json} (h : ∀ xs, v ≠ .arr xs) (hobj : v.isObj = false) (hstr : v.asText? = none) :
      Unreadable v (.wrongType ("'" ++ v.kindName ++ "' object is not iterable"))
  | keys {fs : List (String × Json)} (h : fs ≠ []) :
      Unreadable (.obj fs) (.missingAttribute "'str' object has no attribute 'get'")
  | characters {s : String} (h : s ≠ "") :
      Unreadable (.str s) (.missingAttribute "'str' object has no attribute 'get'")
  | item {front rest : List Json} {x : Json} (hfront : ∀ y ∈ front, y.isObj = true)
      (h : x.isObj = false) : Unreadable (.arr (front ++ x :: rest))
        (.missingAttribute ("'" ++ x.kindName ++ "' object has no attribute 'get'"))
  | message {xs : List Json} {x m : Json} (hxs : ∀ y ∈ xs, y.isObj = true) (hx : x ∈ xs)
      (hm : x.field? "message" = some m) (h : m.asText? = none) :
      Unreadable (.arr xs) (.wrongType "sequence item: expected str instance")

theorem errorText_error_iff {x : Json} {f : Fault} : errorText x = .error f ↔
    x.isObj = false ∧ f = .missingAttribute ("'" ++ x.kindName ++ "' object has no attribute 'get'") := by
  cases x with
  | obj fs =>
    rw [errorText]
    cases hm : fs.lookup "message" with
    | none => simp [Json.isObj]
    | some m => cases m <;> simp [Json.isObj]
  | _ => simp [errorText, Json.isObj, eq_comm]

theorem exists_errorText_iff {x : Json} : (∃ t, errorText x = .ok t) ↔ x.isObj = true := by
  cases ht : errorText x with
  | ok t =>
    simp only [Except.ok.injEq, exists_eq', true_iff]
    cases hobj : x.isObj with
    | true => rfl
    | false => simp [errorText_error_iff.2 ⟨hobj, rfl⟩] at ht
  | error f =>
    simp [(errorText_error_iff.1 ht).1]

theorem errorText_none_iff {x : Json} : errorText x = .ok none ↔
    ∃ m, x.field? "message" = some m ∧ m.asText? = none := by
  cases x with
  | obj fs =>
    rw [errorText, Json.field?]
    cases hm : fs.lookup "message" with
    | none => simp
    | some m => cases m <;> simp [Json.asText?]
  | _ => simp [errorText, Json.field?]

/-- A message that can be joined with others. -/
def joinable : Option String → Except Fault String
  | some t => .ok t
  | none => .error (.wrongType "sequence item: expected str instance")

theorem joinable_error_iff {t : Option String} {f : Fault} : joinable t = .error f ↔
    t = none ∧ f = .wrongType "sequence item: expected str instance" := by
  cases t <;> simp [joinable, eq_comm]

/-- Of a list all messages are read first, and then they are joined. -/
theorem errorTexts_arr (xs : List Json) :
    errorTexts (.arr xs) = xs.mapM errorText >>= fun texts => texts.mapM joinable := by
  have hjoinable : (fun
      | some t => pure t
      | none => throw (Fault.wrongType "sequence item: expected str instance")) = joinable :=
    funext fun t => by cases t <;> rfl
  rw [← hjoinable]
  rfl

theorem unreadable_of_errorTexts_arr {xs : List Json} {f : Fault}
    (h : errorTexts (.arr xs) = .error f) : Unreadable (.arr xs) f := by
  rw [errorTexts_arr] at h
  rcases Outcome.bind_eq_error_iff.1 h with hread | ⟨texts, htexts, hjoin⟩
  · obtain ⟨front, x, rest, rfl, hfront, hx⟩ := Outcome.mapM_eq_error_iff.1 hread
    obtain ⟨hflat, rfl⟩ := errorText_error_iff.1 hx
    exact .item (fun y hy => exists_errorText_iff.1 (hfront y hy)) hflat
  · obtain ⟨front, t, rest, rfl, -, ht⟩ := Outcome.mapM_eq_error_iff.1 hjoin
    obtain ⟨rfl, rfl⟩ := joinable_error_iff.1 ht
    obtain ⟨hleft, hright⟩ := Outcome.mem_of_mapM htexts
    obtain ⟨x, hx, hnone⟩ := hright none (by simp)
    obtain ⟨m, hm, htext⟩ := errorText_none_iff.1 hnone
    refine .message (fun y hy => exists_errorText_iff.1 ?_) hx hm htext
    obtain ⟨t, -, ht⟩ := hleft y hy
    exact ⟨t, ht⟩

theorem errorTexts_item {front rest : List Json} {x : Json} (hfront : ∀ y ∈ front, y.isObj = true)
    (h : x.isObj = false) : errorTexts (.arr (front ++ x :: rest)) =
      .error (.missingAttribute ("'" ++ x.kindName ++ "' object has no attribute 'get'")) := by
  rw [errorTexts_arr]
  refine Outcome.bind_eq_error_iff.2 (.inl (Outcome.mapM_eq_error_iff.2 ?_))
  exact ⟨front, x, rest, rfl, fun y hy => exists_errorText_iff.2 (hfront y hy),
    errorText_error_iff.2 ⟨h, rfl⟩⟩

theorem errorTexts_message {xs : List Json} {x m : Json} (hxs : ∀ y ∈ xs, y.isObj = true)
    (hx : x ∈ xs) (hm : x.field? "message" = some m) (h : m.asText? = none) :
    errorTexts (.arr xs) = .error (.wrongType "sequence item: expected str instance") := by
  rw [errorTexts_arr]
  rcases Outcome.mapM_cases errorText xs with ⟨texts, htexts⟩ | ⟨y, hy, f, hf, -⟩
  · obtain ⟨t, ht, hnone⟩ := (Outcome.mem_of_mapM htexts).1 x hx
    obtain rfl := Except.ok.inj ((errorText_none_iff.2 ⟨m, hm, h⟩).symm.trans hnone)
    refine Outcome.bind_eq_error_iff.2 (.inr ⟨texts, htexts, ?_⟩)
    rcases Outcome.mapM_cases joinable texts with ⟨joined, hjoined⟩ | ⟨t, -, f, hf, hjoined⟩
    · obtain ⟨y, -, hy⟩ := (Outcome.mem_of_mapM hjoined).1 none ht
      cases hy
    · rw [hjoined, (joinable_error_iff.1 hf).2]
  · obtain ⟨t, ht⟩ := exists_errorText_iff.2 (hxs y hy)
    rw [ht] at hf
    cases hf

theorem errorTexts_str (s : String) : errorTexts (.str s) =
    errorTexts (.arr (s.toList.map fun c => .str (String.singleton c))) := rfl

theorem errorTexts_error_iff {errors : Json} {f : Fault} :
    errorTexts errors = .error f ↔ Unreadable errors f := by
  constructor
  · intro h
    cases errors with
    | arr xs => exact unreadable_of_errorTexts_arr h
    | obj fs =>
      cases fs with
      | nil => cases h
      | cons field fs =>
        obtain rfl := Except.error.inj h
        exact .keys (by simp)
    | str s =>
      rw [errorTexts_str] at h
      cases hs : s.toList with
      | nil =>
        rw [hs] at h
        cases h
      | cons c cs =>
        rw [hs] at h
        obtain rfl := Except.error.inj h
        refine .characters ?_
        rintro rfl
        cases hs
    | _ =>
      obtain rfl := Except.error.inj h
      exact .flat (by simp) rfl rfl
  · intro h
    cases h with
    | flat h hobj hstr => cases errors <;> simp_all [errorTexts, Json.isObj, Json.asText?] <;> rfl
    | keys h =>
      obtain ⟨field, fs, rfl⟩ := List.exists_cons_of_ne_nil h
      rfl
    | characters h =>
      obtain ⟨c, cs, hs⟩ := List.exists_cons_of_ne_nil (mt String.toList_eq_nil_iff.1 h)
      rw [errorTexts_str, hs]
      rfl
    | item hfront h => exact errorTexts_item hfront h
    | message hxs hx hm h => exact errorTexts_message hxs hx hm h

/-- Errors can be read if they are a list of objects, each with a text as its message or without
one. -/
theorem readable_iff {errors : Json} (hholds : errors.holds = true) :
    (∀ f, ¬Unreadable errors f) ↔ ∃ xs, errors = .arr xs ∧
      ∀ x ∈ xs, x.isObj = true ∧ ∀ m, x.field? "message" = some m → m.asText? ≠ none := by
  constructor
  · intro h
    cases errors with
    | arr xs =>
      obtain ⟨texts, htexts⟩ : ∃ texts, errorTexts (.arr xs) = .ok texts := by
        cases htexts : errorTexts (.arr xs) with
        | ok texts => exact ⟨texts, rfl⟩
        | error f => exact absurd (errorTexts_error_iff.1 htexts) (h f)
      rw [errorTexts_arr] at htexts
      obtain ⟨read, hread, -⟩ := Outcome.bind_eq_ok_iff.1 htexts
      have hobj : ∀ x ∈ xs, x.isObj = true := by
        intro x hx
        obtain ⟨t, -, ht⟩ := (Outcome.mem_of_mapM hread).1 x hx
        exact exists_errorText_iff.1 ⟨t, ht⟩
      exact ⟨xs, rfl, fun x hx => ⟨hobj x hx, fun m hm hnone => h _ (.message hobj hx hm hnone)⟩⟩
    | obj fs => exact absurd (.keys (by simpa [Json.holds] using hholds)) (h _)
    | str s => exact absurd (.characters (by simpa [Json.holds] using hholds)) (h _)
    | _ => exact absurd (.flat (by simp) rfl rfl) (h _)
  · rintro ⟨xs, rfl, hxs⟩ f hf
    cases hf with
    | flat h => exact h xs rfl
    | @item front rest x hfront h =>
      have hobj := (hxs x (by simp)).1
      rw [h] at hobj
      cases hobj
    | message hobj hx hm h => exact (hxs _ hx).2 _ hm h

/-- What a reply has as its errors. -/
def errorsOf (v : Json) : Json := (v.field? "errors").getD .null

/-- The reply is a success, and its body is read as a value. -/
def Answers (reply : HttpReply) (v : Json) : Prop :=
  ∃ status headers body, reply = .response status headers body ∧ Http.isSuccess status = true ∧
    Json.parse? (withoutMark body) = some v

/-- What was replied breaks down the work: errors that cannot be read, or, without errors, what is
told of a schema. -/
inductive Breaks (v : Json) (f : Fault) : Prop
  | errors (hholds : (errorsOf v).holds = true) (h : Unreadable (errorsOf v) f)
  | told (hholds : (errorsOf v).holds = false) (h : Introspection.Breaks (SchemaFiles.told v) f)

theorem ofResult_of_holds {url : String} {v : Json} (h : (errorsOf v).holds = true) :
    ofResult url v = (errorTexts (errorsOf v)).mapError .fault >>= fun texts =>
      .error (.schema (.refused url texts)) := by
  rw [ofResult]
  exact if_pos h

theorem ofResult_of_not_holds {url : String} {v : Json} (h : (errorsOf v).holds = false) :
    ofResult url v = SchemaFiles.ofIntrospection url v := by
  rw [ofResult]
  exact if_neg (by rw [← errorsOf, h]; decide)

theorem ofResult_fault_iff {url : String} {v : Json} {f : Fault} :
    ofResult url v = .error (.fault f) ↔ Breaks v f := by
  constructor
  · intro h
    cases hholds : (errorsOf v).holds with
    | true =>
      rw [ofResult_of_holds hholds] at h
      cases htexts : errorTexts (errorsOf v) with
      | ok texts =>
        rw [htexts] at h
        cases h
      | error f' =>
        rw [htexts] at h
        injection h with h
        injection h with h
        subst h
        exact .errors hholds (errorTexts_error_iff.1 htexts)
    | false =>
      rw [ofResult_of_not_holds hholds] at h
      exact .told hholds (SchemaFiles.ofIntrospection_fault_iff.1 h)
  · rintro (⟨hholds, h⟩ | ⟨hholds, h⟩)
    · rw [ofResult_of_holds hholds, errorTexts_error_iff.2 h]
      rfl
    · rw [ofResult_of_not_holds hholds]
      exact SchemaFiles.ofIntrospection_fault_iff.2 h

/-- With errors there is no schema, whatever else was replied. -/
theorem ofResult_refused {url : String} {v : Json} (hholds : (errorsOf v).holds = true) :
    (∀ s, ofResult url v ≠ .ok s) ∧
      ((∃ m, ofResult url v = .error (.schema m)) ↔ ∀ f, ¬Unreadable (errorsOf v) f) := by
  rw [ofResult_of_holds hholds]
  cases htexts : errorTexts (errorsOf v) with
  | ok texts =>
    refine ⟨fun s h => (nomatch h), fun _ f hf => ?_, fun _ => ⟨_, rfl⟩⟩
    rw [errorTexts_error_iff.2 hf] at htexts
    cases htexts
  | error f =>
    refine ⟨fun s h => (nomatch h), ?_, fun h => absurd (errorTexts_error_iff.1 htexts) (h f)⟩
    rintro ⟨m, h⟩
    cases h

theorem ofReply_of_answers {e : Endpoint} {reply : HttpReply} {v : Json} (h : Answers reply v) :
    e.ofReply reply = ofResult e.url v := by
  obtain ⟨status, headers, body, rfl, hstatus, hv⟩ := h
  simp [ofReply, hstatus, hv]

theorem ofReply_fault_iff {e : Endpoint} {reply : HttpReply} {f : Fault} :
    e.ofReply reply = .error (.fault f) ↔ ∃ v, Answers reply v ∧ Breaks v f := by
  constructor
  · intro h
    cases reply with
    | failed m => cases h
    | response status headers body =>
      cases hstatus : Http.isSuccess status with
      | false => simp [ofReply, hstatus] at h
      | true =>
        cases hv : Json.parse? (withoutMark body) with
        | none => simp [ofReply, hstatus, hv] at h
        | some v =>
          have hanswers : Answers (.response status headers body) v :=
            ⟨status, headers, body, rfl, hstatus, hv⟩
          rw [ofReply_of_answers hanswers] at h
          exact ⟨v, hanswers, ofResult_fault_iff.1 h⟩
  · rintro ⟨v, hanswers, hbreaks⟩
    rw [ofReply_of_answers hanswers]
    exact ofResult_fault_iff.2 hbreaks

/-- Loading a schema from an endpoint. For every endpoint that can be sent its request and every
reply: one request is sent, a POST. The work breaks down exactly if the reply is a success whose
body is a value with errors that cannot be read, or without errors but with something told of a
schema that a schema made of it breaks down on. A reply with errors never gives a schema; it is a
failure to load one exactly if the errors are a list of objects, each with a text as its message or
without one. -/
theorem load_fault_iff {e : Endpoint} (he : e.canSend = true) (reply : HttpReply) :
    let run := (e.load (recorded reply)).run []
    (run.2 = [e.request] ∧ e.request.method = "POST") ∧
    (∀ f, run.1 = .error (.fault f) ↔ ∃ v, Answers reply v ∧ Breaks v f) ∧
    ∀ v, Answers reply v → (errorsOf v).holds = true →
      (∀ s, run.1 ≠ .ok s) ∧
      ((∃ m, run.1 = .error (.schema m)) ↔ ∃ xs, errorsOf v = .arr xs ∧
        ∀ x ∈ xs, x.isObj = true ∧ ∀ m, x.field? "message" = some m → m.asText? ≠ none) := by
  have hrun : (e.load (recorded reply)).run [] = (e.ofReply reply, [e.request]) := by
    rw [run_load, if_pos he]
    rfl
  rw [hrun]
  refine ⟨⟨rfl, rfl⟩, fun f => ofReply_fault_iff, fun v hv hholds => ?_⟩
  dsimp only
  rw [ofReply_of_answers hv, ← readable_iff hholds]
  exact ofResult_refused hholds

/-- An error that is a text: the reply is a success with errors, and the work breaks down. -/
theorem load_fault_iff_text :
    let e : Endpoint := ⟨"https://h/graphql", [], .whole 30⟩
    let reply := HttpReply.response 200 [] "\x7b\"errors\":[\"x\"]\x7d"
    e.canSend = true ∧ ((e.load (recorded reply)).run []).1 =
      .error (.fault (.missingAttribute "'str' object has no attribute 'get'")) := by
  intro e reply
  have hsend : e.canSend = true := by decide +kernel
  have hanswers : Answers reply (.obj [("errors", .arr [.str "x"])]) :=
    ⟨200, [], _, rfl, by decide, by cbv⟩
  obtain ⟨-, hfault, -⟩ := load_fault_iff hsend reply
  have hnone : ∀ y ∈ ([] : List Json), y.isObj = true := by simp
  exact ⟨hsend, (hfault _).2 ⟨_, hanswers, .errors rfl (.item hnone rfl)⟩⟩

end Endpoint

end QueryTypes
