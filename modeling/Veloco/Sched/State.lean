import Veloco.TimerHeap

/-!
# Tasks, Ps and the Runtime (`src/runtime/runtime_internal.h`)
-/

namespace Veloco.Sched

open Function
open Veloco.TimerHeap (Node Heap)

abbrev TaskId := ℕ
abbrev PId := ℕ
abbrev TimerId := ℕ
abbrev IoId := ℕ

def runQueueCapacity : ℕ := 1024

def stealBatchMax : ℕ := 8

/-! ## Tasks -/

inductive TaskState where
  | new
  | runnable
  | running
  | waiting
  | sleeping
  | done
  | cancelled
  deriving DecidableEq, Repr

def TaskState.terminal (s : TaskState) : Bool := s = .done || s = .cancelled

inductive WaitQueue where
  | mutex (m : ℕ)
  | semaphore (s : ℕ)
  | waitGroup (g : ℕ)
  | senders (c : ℕ)
  | receivers (c : ℕ)
  | joiners (t : TaskId)
  deriving DecidableEq, Repr

inductive Park where
  | yield
  | wait (q : WaitQueue)
  | timer (tm : TimerId)
  | io
  | bare
  deriving DecidableEq, Repr

inductive Point where
  | body
  | leaving (k : Park)
  | parked (k : Park)
  | armTask (tm : TimerId) (result : Status)
  | armP (tm : TimerId) (result : Status)
  deriving DecidableEq, Repr

inductive FiberState where
  | ready
  | running
  | suspended
  | done
  deriving DecidableEq, Repr

structure Fiber where
  owner : PId
  state : FiberState
  deriving DecidableEq, Repr

inductive TimerEvent where
  | expired
  | cancelled
  deriving DecidableEq, Repr

/-- `struct vl_task`. -/
structure Task where
  state : TaskState := .new
  queued : Bool := false
  fiber : Option Fiber := none
  waitingOn : Option TaskId := none
  timerResult : Status := .ok
  lastP : Option PId := none
  executing : Bool := false
  wakePending : Bool := false
  waitingForIo : Bool := false
  point : Point := .body
  causes : ℕ := 0
  wakes : ℕ := 0
  yields : ℕ := 0
  enqueues : ℕ := 0
  timerEvent : Option TimerEvent := none
  deriving DecidableEq, Repr

structure Timer where
  task : Option TaskId := none
  p : Option PId := none
  deriving DecidableEq, Repr

/-! ## Workers -/

inductive Pc where
  | off
  | top
  | expire
  | pollIo
  | ownerPop
  | unqueue (t : TaskId)
  | takeGlobal
  | stealNext (offset : ℕ)
  | stealBatch (offset : ℕ) (items : List TaskId)
  | stolen (items : List TaskId)
  | execute (t : TaskId)
  | cancelled
  | createFiber (t : TaskId)
  | resume (t : TaskId)
  | inTask (t : TaskId)
  | returned (t : TaskId) (resumeStatus : Status)
  | idle
  | idlePoll
  | runWait
  | runEnd
  | stopping
  | exited
  deriving DecidableEq, Repr

/-- `struct vl_p`. -/
structure P where
  runnable : List TaskId := []
  pc : Pc := .off
  idle : Bool := false
  timers : List TimerId := []
  timersCapacity : ℕ := 0
  deriving DecidableEq, Repr

/-! ## The Runtime -/

structure Runtime where
  workerCount : ℕ
  globalRunnable : List TaskId := []
  tasks : TaskId → Task := fun _ => {}
  taskCount : ℕ := 0
  ps : PId → P := fun _ => {}
  waiters : WaitQueue → List TaskId := fun _ => []
  timers : TimerId → Timer := fun _ => {}
  node : TimerId → Node := fun _ => ⟨0, 0, false⟩
  liveTasks : ℕ := 0
  activeWorkers : ℕ := 0
  idleWorkers : ℕ := 0
  timerCount : ℕ := 0
  ioDriver : Option IoId := none
  ioWaiting : ℕ := 0
  running : Bool := false
  runStatus : Status := .ok
  shutdownRequested : Bool := false
  stopWorkers : Bool := false
  spawned : ℕ := 0
  completed : ℕ := 0
  cancelled : ℕ := 0

namespace Runtime

variable (r : Runtime)

def setTask (t : TaskId) (k : Task) : Runtime := { r with tasks := update r.tasks t k }

def setP (p : PId) (x : P) : Runtime := { r with ps := update r.ps p x }

def setPc (p : PId) (pc : Pc) : Runtime := r.setP p { r.ps p with pc := pc }

def setWaiters (q : WaitQueue) (l : List TaskId) : Runtime :=
  { r with waiters := update r.waiters q l }

@[simp] theorem setTask_tasks (t : TaskId) (k : Task) :
    (r.setTask t k).tasks = update r.tasks t k := rfl

@[simp] theorem setTask_ps (t : TaskId) (k : Task) : (r.setTask t k).ps = r.ps := rfl

@[simp] theorem setP_ps (p : PId) (x : P) : (r.setP p x).ps = update r.ps p x := rfl

@[simp] theorem setP_tasks (p : PId) (x : P) : (r.setP p x).tasks = r.tasks := rfl

@[simp] theorem setPc_ps (p : PId) (pc : Pc) :
    (r.setPc p pc).ps = update r.ps p { r.ps p with pc := pc } := rfl

@[simp] theorem setPc_tasks (p : PId) (pc : Pc) : (r.setPc p pc).tasks = r.tasks := rfl

@[simp] theorem setWaiters_tasks (q : WaitQueue) (l : List TaskId) :
    (r.setWaiters q l).tasks = r.tasks := rfl

@[simp] theorem setTask_globalRunnable (t : TaskId) (k : Task) :
    (r.setTask t k).globalRunnable = r.globalRunnable := rfl

@[simp] theorem setP_globalRunnable (p : PId) (x : P) :
    (r.setP p x).globalRunnable = r.globalRunnable := rfl

@[simp] theorem setPc_globalRunnable (p : PId) (pc : Pc) :
    (r.setPc p pc).globalRunnable = r.globalRunnable := rfl

def pushGlobal (t : TaskId) : Runtime := { r with globalRunnable := r.globalRunnable ++ [t] }

@[simp] theorem pushGlobal_ps (t : TaskId) : (r.pushGlobal t).ps = r.ps := rfl

@[simp] theorem pushGlobal_globalRunnable (t : TaskId) :
    (r.pushGlobal t).globalRunnable = r.globalRunnable ++ [t] := rfl

@[simp] theorem pushGlobal_tasks (t : TaskId) : (r.pushGlobal t).tasks = r.tasks := rfl

def ownerPush (p : PId) (t : TaskId) : Option Runtime :=
  if (r.ps p).runnable.length < runQueueCapacity then
    some (r.setP p { r.ps p with runnable := (r.ps p).runnable ++ [t] })
  else none

def enqueueGlobal (t : TaskId) : Runtime :=
  if (r.tasks t).state ≠ .runnable ∨ (r.tasks t).queued then r
  else (r.setTask t { r.tasks t with
    queued := true, enqueues := (r.tasks t).enqueues + 1 }).pushGlobal t

/-- `vl_task_enqueue_local_locked`. -/
def enqueueLocal (p : PId) (t : TaskId) : Runtime :=
  if (r.tasks t).state ≠ .runnable ∨ (r.tasks t).queued then r
  else
    let r' := r.setTask t { r.tasks t with
      queued := true, enqueues := (r.tasks t).enqueues + 1 }
    if r.workerCount = 1 ∨ (r.tasks t).fiber.isSome then r'.pushGlobal t
    else (r'.ownerPush p t).getD (r'.pushGlobal t)

/-- `vl_task_wake_locked`. -/
def wake (t : TaskId) : Runtime :=
  if (r.tasks t).state ≠ .waiting ∧ (r.tasks t).state ≠ .sleeping then r
  else if (r.tasks t).executing then r.setTask t { r.tasks t with wakePending := true }
  else
    (r.setTask t { r.tasks t with state := .runnable, wakes := (r.tasks t).wakes + 1 }).enqueueGlobal t

variable {r}

theorem wake_of_not_waiting {t : TaskId} (hw : (r.tasks t).state ≠ .waiting)
    (hs : (r.tasks t).state ≠ .sleeping) : r.wake t = r := by
  simp [wake, hw, hs]

theorem wake_of_executing {t : TaskId}
    (hs : (r.tasks t).state = .waiting ∨ (r.tasks t).state = .sleeping)
    (hex : (r.tasks t).executing = true) :
    r.wake t = r.setTask t { r.tasks t with wakePending := true } := by
  rcases hs with hs | hs <;> simp [wake, hs, hex]

theorem wake_of_parked {t : TaskId}
    (hs : (r.tasks t).state = .waiting ∨ (r.tasks t).state = .sleeping)
    (hex : (r.tasks t).executing = false) (hq : (r.tasks t).queued = false) :
    r.wake t = (r.setTask t { r.tasks t with
      state := .runnable
      wakes := (r.tasks t).wakes + 1
      queued := true
      enqueues := (r.tasks t).enqueues + 1 }).pushGlobal t := by
  rcases hs with hs | hs <;> simp [wake, hs, hex, enqueueGlobal, hq, setTask, pushGlobal]

theorem enqueueGlobal_tasks_ne (r : Runtime) {w u : TaskId} (hne : u ≠ w) :
    (r.enqueueGlobal w).tasks u = r.tasks u := by
  unfold enqueueGlobal
  split_ifs
  · rfl
  · simp [hne]

theorem wake_tasks_ne (r : Runtime) {w u : TaskId} (hne : u ≠ w) :
    (r.wake w).tasks u = r.tasks u := by
  unfold wake
  split_ifs
  · rfl
  · simp [hne]
  · rw [enqueueGlobal_tasks_ne _ hne]
    simp [hne]

structure SameRest (r r' : Runtime) : Prop where
  workerCount : r'.workerCount = r.workerCount
  taskCount : r'.taskCount = r.taskCount
  ps : r'.ps = r.ps
  waiters : r'.waiters = r.waiters
  timers : r'.timers = r.timers
  node : r'.node = r.node
  liveTasks : r'.liveTasks = r.liveTasks
  activeWorkers : r'.activeWorkers = r.activeWorkers
  idleWorkers : r'.idleWorkers = r.idleWorkers
  timerCount : r'.timerCount = r.timerCount
  ioWaiting : r'.ioWaiting = r.ioWaiting
  running : r'.running = r.running
  runStatus : r'.runStatus = r.runStatus
  shutdownRequested : r'.shutdownRequested = r.shutdownRequested
  stopWorkers : r'.stopWorkers = r.stopWorkers
  spawned : r'.spawned = r.spawned
  completed : r'.completed = r.completed
  cancelled : r'.cancelled = r.cancelled

theorem SameRest.trans {a b c : Runtime} (h : a.SameRest b) (k : b.SameRest c) : a.SameRest c where
  workerCount := k.workerCount.trans h.workerCount
  taskCount := k.taskCount.trans h.taskCount
  ps := k.ps.trans h.ps
  waiters := k.waiters.trans h.waiters
  timers := k.timers.trans h.timers
  node := k.node.trans h.node
  liveTasks := k.liveTasks.trans h.liveTasks
  activeWorkers := k.activeWorkers.trans h.activeWorkers
  idleWorkers := k.idleWorkers.trans h.idleWorkers
  timerCount := k.timerCount.trans h.timerCount
  ioWaiting := k.ioWaiting.trans h.ioWaiting
  running := k.running.trans h.running
  runStatus := k.runStatus.trans h.runStatus
  shutdownRequested := k.shutdownRequested.trans h.shutdownRequested
  stopWorkers := k.stopWorkers.trans h.stopWorkers
  spawned := k.spawned.trans h.spawned
  completed := k.completed.trans h.completed
  cancelled := k.cancelled.trans h.cancelled

theorem wake_sameRest (r : Runtime) (w : TaskId) : r.SameRest (r.wake w) := by
  unfold wake enqueueGlobal
  split_ifs <;> constructor <;> rfl

variable (r)

/-- `vl_worker_stop_run_locked`. -/
def stopRun (status : Status) : Runtime :=
  if r.running then { r with runStatus := status, running := false } else r

/-! ## Wait queues -/

def waitPush (q : WaitQueue) (t : TaskId) : Runtime := r.setWaiters q (r.waiters q ++ [t])

def waitPop (q : WaitQueue) : Option (TaskId × Runtime) :=
  match r.waiters q with
  | [] => none
  | w :: rest =>
    some (w, (r.setTask w { r.tasks w with causes := (r.tasks w).causes + 1 }).setWaiters q rest)

def park (q : WaitQueue) (t : TaskId) : Option Runtime :=
  if (r.tasks t).state ≠ .running ∨ (r.tasks t).executing = false then none
  else
    some ((r.setTask t { r.tasks t with state := .waiting, point := .leaving (.wait q) }).waitPush q t)

end Runtime

end Veloco.Sched
