import QueryTypes.Pipeline.Run
import QueryTypes.Proofs.Project.Job

/-!
# Calls of a run

What a run asks of its resolver and of its backend is written down in order, with what came back
from the one and what the other starts from. Writing it down changes nothing about the run.
-/

namespace QueryTypes

/-- A call of the resolver, with its answer, or of the backend, with the files that it finds. -/
inductive PipelineCall
  | resolved (answer : Except Failure Schema)
  | generated (g : Generation) (tree : FileTree) (cwd : Location)

namespace PipelineCall

def schema? : PipelineCall → Option Schema
  | resolved (.ok s) => some s
  | _ => none

def isGenerated : PipelineCall → Bool
  | resolved _ => false
  | generated .. => true

end PipelineCall

/-- A job that writes down its calls. -/
abbrev Recorded := ExceptT Failure (StateM (Session × List PipelineCall))

/-- The backend is called once, whatever comes of it. -/
theorem run_run_dispatch {σ : Type} (backend : Generation → ExceptT Failure (StateM σ) Nat)
    (d : Document) (s : Schema) (r : Request) (y : σ) :
    (dispatch backend d s r).run.run y =
      (((backend (r.generation d s)).run.run y).1.mapError (Failure.during r.target),
        ((backend (r.generation d s)).run.run y).2) := by
  simp only [dispatch, tryCatchThe, MonadExceptOf.tryCatch, ExceptT.tryCatch, ExceptT.run_mk,
    StateT.run_bind]
  rw [ExceptT.run]
  rcases StateT.run (backend (r.generation d s)) y with ⟨n, y'⟩
  cases n <;> rfl

namespace Recorded

variable {α β : Type}

def perform (x : Recorded α) (s : Session) (calls : List PipelineCall) :
    Except Failure α × Session × List PipelineCall := x.run.run (s, calls)

def ofJob (j : Job α) : Recorded α := fun (s, calls) =>
  ((j.perform s).1, (j.perform s).2, calls)

instance : MonadLift Job Recorded := ⟨ofJob⟩

/-- Some work that counts as a call. -/
def calling (call : World → Except Failure α → PipelineCall) (w : Work α) : Recorded α :=
  fun (s, calls) =>
    let (r, world) := w.perform s.world
    (r, { s with world := world }, calls ++ [call s.world r])

def resolve (w : Work Schema) : Recorded Schema := calling (fun _ answer => .resolved answer) w

def generate (backend : Generation → Work Nat) (g : Generation) : Recorded Nat :=
  calling (fun world _ => .generated g world.tree world.cwd) (backend g)

variable {s : Session} {calls : List PipelineCall}

@[simp] theorem perform_pure (a : α) : (pure a : Recorded α).perform s calls = (.ok a, s, calls) :=
  rfl

theorem perform_bind (x : Recorded α) (f : α → Recorded β) :
    (x >>= f).perform s calls = match x.perform s calls with
      | (.ok a, y) => (f a).perform y.1 y.2
      | (.error e, y) => (.error e, y) := by
  change (match x.run.run (s, calls) with | (r, y) => (ExceptT.bindCont f r).run y) = _
  unfold perform
  rcases x.run.run (s, calls) with ⟨r, y⟩
  cases r <;> rfl

@[simp] theorem perform_liftM (j : Job α) :
    (liftM j : Recorded α).perform s calls = ((j.perform s).1, (j.perform s).2, calls) := rfl

@[simp] theorem perform_calling (call : World → Except Failure α → PipelineCall) (w : Work α) :
    (calling call w).perform s calls = ((w.perform s.world).1,
      { s with world := (w.perform s.world).2 }, calls ++ [call s.world (w.perform s.world).1]) := rfl

theorem perform_dispatch (backend : Generation → Recorded Nat) (d : Document) (schema : Schema)
    (r : Request) :
    (dispatch backend d schema r).perform s calls =
      (((backend (r.generation d schema)).perform s calls).1.mapError (Failure.during r.target),
        ((backend (r.generation d schema)).perform s calls).2) :=
  run_run_dispatch backend d schema r (s, calls)

/-- What is written down gives what the job gives that writes nothing down. -/
def Erases (x : Recorded α) (j : Job α) : Prop :=
  ∀ s calls, ((x.perform s calls).1, (x.perform s calls).2.1) = j.perform s

namespace Erases

theorem pure (a : α) : Erases (pure a) (pure a) := fun _ _ => rfl

theorem bind {x : Recorded α} {j : Job α} {f : α → Recorded β} {g : α → Job β} (hx : Erases x j)
    (hf : ∀ a, Erases (f a) (g a)) : Erases (x >>= f) (j >>= g) := by
  intro s calls
  rw [Recorded.perform_bind, Job.perform_bind, ← hx s calls]
  rcases x.perform s calls with ⟨r, s', calls'⟩
  cases r with
  | error e => rfl
  | ok a => exact hf a s' calls'

theorem liftM (j : Job α) : Erases (liftM j) (liftM j) := fun _ _ => rfl

theorem calling (call : World → Except Failure α → PipelineCall) (w : Work α) :
    Erases (calling call w) (Job.ofWork w) := by
  intro s calls
  rw [perform_calling, Job.perform_ofWork]

theorem dispatch {backend : Generation → Recorded Nat} {j : Generation → Job Nat}
    (h : ∀ g, Erases (backend g) (j g)) (d : Document) (schema : Schema) (r : Request) :
    Erases (dispatch backend d schema r) (dispatch j d schema r) := by
  intro s calls
  obtain ⟨hanswer, hafter⟩ := Prod.ext_iff.1 (h (r.generation d schema) s calls)
  rw [Recorded.perform, Job.perform, run_run_dispatch, run_run_dispatch]
  exact Prod.ext (congrArg (Except.mapError (Failure.during r.target)) hanswer) hafter

theorem schema {x : Recorded Schema} {j : Job Schema} (h : Erases x j) :
    Erases (Pipeline.schema x) (Pipeline.schema j) := by
  refine bind (liftM _) fun s => ?_
  cases s.kept with
  | some schema => exact pure schema
  | none =>
    refine bind ?_ fun schema => bind (liftM _) fun _ => pure schema
    exact bind h fun schema => bind (liftM _) fun _ => pure schema

theorem runWith {x : Recorded Schema} {j : Job Schema} (h : Erases x j)
    {backend : Generation → Recorded Nat} {g : Generation → Job Nat}
    (hg : ∀ a, Erases (backend a) (g a)) (r : Request) :
    Erases (Pipeline.runWith x backend r) (Pipeline.runWith j g r) :=
  bind (liftM _) fun _ => bind (schema h) fun σ => bind (liftM _) fun d =>
    bind (dispatch hg d σ r) fun _ => bind (liftM _) fun _ => pure _

end Erases
end Recorded
end QueryTypes
