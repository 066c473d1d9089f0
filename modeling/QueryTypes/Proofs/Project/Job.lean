import QueryTypes.Project.Session

/-!
# How work and jobs run

There is one equation for each way to put work and jobs together. A resolver looks at files or sends
a request, and nothing comes of it but log lines and an answer, which does not depend on the log.
-/

namespace QueryTypes

namespace Work

variable {α β : Type} {w : World}

@[simp] theorem perform_pure (a : α) : (pure a : Work α).perform w = (.ok a, w) := rfl

@[simp] theorem perform_throw (f : Failure) : (throw f : Work α).perform w = (.error f, w) := rfl

@[simp] theorem perform_get : (get : Work World).perform w = (.ok w, w) := rfl

@[simp] theorem perform_set (w' : World) : (set w' : Work Unit).perform w = (.ok (), w') := rfl

theorem perform_bind (x : Work α) (f : α → Work β) :
    (x >>= f).perform w = match x.perform w with
      | (.ok a, w') => (f a).perform w'
      | (.error e, w') => (.error e, w') := by
  change (match x.run.run w with | (r, w') => (ExceptT.bindCont f r).run w') = _
  unfold perform
  rcases x.run.run w with ⟨r, w'⟩
  cases r <;> rfl

theorem perform_bind_eq_ok_iff {x : Work α} {f : α → Work β} {b : β} {w' : World} :
    (x >>= f).perform w = (.ok b, w') ↔
      ∃ a w₁, x.perform w = (.ok a, w₁) ∧ (f a).perform w₁ = (.ok b, w') := by
  rw [perform_bind]
  rcases x.perform w with ⟨r, w₁⟩
  cases r with
  | error e => simp
  | ok a =>
    constructor
    · exact fun h => ⟨a, w₁, rfl, h⟩
    · rintro ⟨a', w₁', heq, h⟩
      obtain ⟨hok, rfl⟩ := Prod.mk.inj heq
      obtain rfl := Except.ok.inj hok
      exact h

@[simp] theorem perform_debug (part text : String) :
    (debug part text).perform w = (.ok (), { w with log := w.log ++ [⟨.debug, part, text⟩] }) := rfl

end Work

namespace Job

variable {α β : Type} {s : Session}

@[simp] theorem perform_pure (a : α) : (pure a : Job α).perform s = (.ok a, s) := rfl

@[simp] theorem perform_throw (f : Failure) : (throw f : Job α).perform s = (.error f, s) := rfl

@[simp] theorem perform_get : (get : Job Session).perform s = (.ok s, s) := rfl

@[simp] theorem perform_setFiles (files : Option (List ClientFile)) :
    (Session.setFiles files).perform s =
      (.ok (), { s with project := { s.project with files := files } }) := rfl

theorem perform_bind (x : Job α) (f : α → Job β) :
    (x >>= f).perform s = match x.perform s with
      | (.ok a, s') => (f a).perform s'
      | (.error e, s') => (.error e, s') := by
  change (match x.run.run s with | (r, s') => (ExceptT.bindCont f r).run s') = _
  unfold perform
  rcases x.run.run s with ⟨r, s'⟩
  cases r <;> rfl

theorem perform_map (f : α → β) (x : Job α) :
    (f <$> x).perform s = ((x.perform s).1.map f, (x.perform s).2) := by
  rw [← bind_pure_comp, perform_bind]
  rcases x.perform s with ⟨r, s'⟩
  cases r <;> rfl

@[simp] theorem perform_ofExcept (r : Except Failure α) : (ofExcept r).perform s = (r, s) := by
  cases r <;> rfl

@[simp] theorem perform_ofWork (w : Work α) :
    (ofWork w).perform s = ((w.perform s.world).1, { s with world := (w.perform s.world).2 }) := by
  simp only [ofWork, perform_bind, perform_get]
  rcases w.perform s.world with ⟨r, world⟩
  cases r <;> rfl

end Job

/-! ### Work that leaves only log lines -/

/-- A world with nothing in its log. -/
def World.hushed (w : World) : World := { w with log := [] }

namespace Work

variable {α β : Type}

/-- Nothing but the log is touched. -/
def OnlyLogs (w : Work α) : Prop := ∀ world, (w.perform world).2.hushed = world.hushed

/-- What is done does not depend on the log. -/
def IgnoresLog (w : Work α) : Prop :=
  ∀ world log, (w.perform { world with log := log }).1 = (w.perform world).1 ∧
    (w.perform { world with log := log }).2.hushed = (w.perform world).2.hushed

/-- Work that answers, and leaves only log lines. -/
structure Asks (w : Work α) : Prop where
  onlyLogs : w.OnlyLogs
  ignoresLog : w.IgnoresLog

namespace Asks

theorem pure (a : α) : (pure a : Work α).Asks := ⟨fun _ => rfl, fun _ _ => ⟨rfl, rfl⟩⟩

theorem throw (f : Failure) : (throw f : Work α).Asks := ⟨fun _ => rfl, fun _ _ => ⟨rfl, rfl⟩⟩

theorem debug (part text : String) : (debug part text).Asks :=
  ⟨fun _ => rfl, fun _ _ => ⟨rfl, rfl⟩⟩

theorem bind {x : Work α} {f : α → Work β} (hx : x.Asks) (hf : ∀ a, (f a).Asks) :
    (x >>= f).Asks := by
  constructor
  · intro world
    have hfirst := hx.onlyLogs world
    rw [perform_bind]
    rcases h : x.perform world with ⟨e | a, world'⟩
    all_goals rw [h] at hfirst
    · exact hfirst
    · exact ((hf a).onlyLogs world').trans hfirst
  · intro world log
    obtain ⟨hanswer, hworld⟩ := hx.ignoresLog world log
    rw [perform_bind, perform_bind]
    rcases h : x.perform { world with log := log } with ⟨answer, world₁⟩
    rcases h' : x.perform world with ⟨answer', world₂⟩
    rw [h, h'] at hanswer hworld
    obtain rfl : answer = answer' := hanswer
    cases answer with
    | error e => exact ⟨rfl, hworld⟩
    | ok a =>
      have hsame : world₁ = { world₂ with log := world₁.log } :=
        congrArg (fun w => { w with log := world₁.log }) hworld
      rw [hsame]
      exact (hf a).ignoresLog world₂ world₁.log

/-- Looking at the files is asking. -/
theorem look {f : World → Work α} (hf : ∀ world, (f world).Asks)
    (hlog : ∀ world log, f { world with log := log } = f world) : (get >>= f).Asks := by
  constructor
  · exact fun world => (hf world).onlyLogs world
  · intro world log
    have hget : ∀ w : World, (get >>= f).perform w = (f w).perform w := fun _ => rfl
    rw [hget, hget, hlog]
    exact (hf world).ignoresLog world log

end Asks
end Work

variable {send : HttpRequest → Work HttpReply}

theorem Endpoint.asks_load (hsend : ∀ q, (send q).Asks) (e : Endpoint) : (e.load send).Asks := by
  unfold Endpoint.load
  split
  · exact (hsend _).bind fun _ => .pure _
  · exact .pure _

namespace SchemaOrigin

theorem asks_noteTag (o : SchemaOrigin) (tag : Option String) : (o.noteTag tag).Asks := by
  unfold noteTag
  split
  · exact .debug _ _
  · exact .pure _

theorem asks_resolveFiles (readers : SchemaReaders) (paths : List String) (tag : Option String) :
    (resolveFiles readers paths tag).Asks := by
  refine .bind (asks_noteTag _ tag) fun _ => .look (fun w => ?_) fun _ _ => rfl
  cases SchemaFiles.loadWith readers w.tree w.cwd paths with
  | ok schema => exact .pure schema
  | error e => exact .throw e.failure

theorem asks_resolveEndpoint (hsend : ∀ q, (send q).Asks) (e : Endpoint) (tag : Option String) :
    (resolveEndpoint e send tag).Asks := by
  refine .bind (asks_noteTag _ tag) fun _ => .bind (e.asks_load hsend) fun loaded => ?_
  cases loaded with
  | ok schema => exact .pure schema
  | error e => exact .throw e.failure

/-- Loading a schema is asking, if sending a request is. -/
theorem asks_resolve (hsend : ∀ q, (send q).Asks) (o : SchemaOrigin) (tag : Option String) :
    (o.resolve send tag).Asks := by
  cases o with
  | files paths => exact asks_resolveFiles .standard paths tag
  | endpoint e => exact asks_resolveEndpoint hsend e tag

end SchemaOrigin

theorem Project.asks_resolve (hsend : ∀ q, (send q).Asks) (p : Project) (tag : Option String) :
    (p.resolve send tag).Asks := by
  unfold Project.resolve
  split
  · exact .throw _
  · exact SchemaOrigin.asks_resolve hsend _ tag

end QueryTypes
