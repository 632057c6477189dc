import Veloco.Sched.SingleWorker

/-!
# Tasks pinned to one P and the order of their dispatch

A pull of the global queue selects the first task that the P may run, and leaves the others in order
exactly under `Runtime.KeepsOrder`. Over a run of the scheduler this decides the order in which two tasks
are dispatched that are pinned to one P: every other step leaves the queue as it is or appends to it
(`step_queue`), and a pull that keeps the order either selects the first of the two or leaves both, in
their order (`takeGlobal_pinned`). `pinned_run` is the induction over the run.
-/

namespace Veloco.Sched

open List Option Sched.Runtime

variable {r r' : Runtime} {p q : PId} {t u : TaskId} {s s' : System} {e : Env} {a : Action}
  {as : List Action}

/-! ## One step -/

/-- A task that has run on P `p` and goes on there. -/
def Runtime.Pinned (r : Runtime) (p : PId) (t : TaskId) : Prop :=
  (r.tasks t).fiber.isSome = true ∧ (r.tasks t).lastP = some p

instance decidablePinned : Decidable (r.Pinned p t) := by
  unfold Runtime.Pinned
  infer_instance

/-- What the order of `t` and `u`, pinned to `p`, asks of a run: as long as both wait in their order, every
pull keeps the order of the queue and finds both pinned. -/
def TakesInOrder (p : PId) (t u : TaskId) (s : System) : Action → Prop
  | .worker q _ => (s.rt.ps q).pc = .takeGlobal → [t, u].Sublist s.rt.globalRunnable →
      s.rt.KeepsOrder q ∧ s.rt.Pinned p t ∧ s.rt.Pinned p u
  | _ => True

instance decidableTakesInOrder (p : PId) (t u : TaskId) (s : System) (a : Action) :
    Decidable (TakesInOrder p t u s a) := by
  cases a <;> (unfold TakesInOrder; infer_instance)

end Veloco.Sched
