import Veloco.Placement
import Veloco.Sched.Step

/-!
# What a step can do to the Runtime
-/

namespace Veloco.Sched

open Veloco.TimerHeap (Heap Added Removed)

def Pc.tasks : Pc → List TaskId
  | .unqueue t | .execute t | .createFiber t | .resume t | .inTask t | .returned t _ => [t]
  | .stealBatch _ items | .stolen items => items
  | _ => []

def Pc.searching : Pc → Bool
  | .expire | .pollIo | .ownerPop | .unqueue _ | .takeGlobal | .stealNext _ | .stealBatch _ _
  | .stolen _ | .execute _ => true
  | _ => false

def Pc.executes (t : TaskId) : Pc → Bool
  | .createFiber u | .resume u | .inTask u | .returned u _ => u = t
  | _ => false

def Pc.taken : Pc → Bool
  | .unqueue _ | .stealBatch _ _ | .stolen _ => true
  | _ => false

def Pc.outside : Pc → Bool
  | .off | .runWait | .runEnd | .stopping | .exited => true
  | _ => false

inductive Place where
  | globalRunnable
  | runnable (p : PId)
  | worker (p : PId)
  deriving DecidableEq, Repr

def Runtime.contents (r : Runtime) : Place → List TaskId
  | .globalRunnable => r.globalRunnable
  | .runnable p => (r.ps p).runnable
  | .worker p => (r.ps p).pc.tasks

inductive Outer (r : Runtime) (p : PId) : Pc → Prop
  | enter (hpc : (r.ps p).pc = .off) (hp : p ≠ 0) : Outer r p .top
  | home (hpc : (r.ps p).pc = .top) (hp : p ≠ 0) : Outer r p .off
  | wait (hpc : (r.ps p).pc = .top) (hp : p = 0) : Outer r p .runWait
  | waited (hpc : (r.ps p).pc = .runWait) (ha : r.activeWorkers = 0) : Outer r p .runEnd
  | exit (hpc : (r.ps p).pc = .off ∧ p ≠ 0 ∨ (r.ps p).pc = .stopping)
      (hf : ∀ t, (r.tasks t).lastP = some p → (r.tasks t).fiber = none) : Outer r p .exited

structure Goto (r : Runtime) (p : PId) (b : Pc) : Prop where
  lt : p < r.workerCount
  from_nil : (r.ps p).pc.tasks = []
  to_nil : b.tasks = []
  searching : b.searching = true → (r.ps p).pc.searching = true ∨ r.running = true
  outside : b.outside = true → (r.ps p).pc.outside = true ∨ r.running = false
  from_awake : (r.ps p).pc ≠ .idlePoll
  to_plain : b ≠ .idlePoll ∧ b ≠ .stopping
  outer : (r.ps p).pc.outside = true ∨ b.outside = true → Outer r p b

inductive Label where
  | plain
  | ownerSpawn
  | arm (t : TaskId) (tm : TimerId)
  | woken (t : TaskId)
  | fail (t : TaskId)
  | runReturn
  deriving DecidableEq, Repr

def TimerEvent.status : TimerEvent → Status
  | .expired => .ok
  | .cancelled => .cancelled

def Runtime.disarm (r : Runtime) (p : PId) (h : Heap TimerId) (tm : TimerId) : Runtime :=
  { (r.putHeap p h).setTimer tm ⟨none, none⟩ with timerCount := r.timerCount - 1 }

def Runtime.endTask (r : Runtime) (p : PId) (t : TaskId) (k : Task) : Runtime :=
  { (r.setTask t k).setPc p .top with activeWorkers := r.activeWorkers - 1 }

inductive Eff : Label → Runtime → Runtime → Prop
  -- the worker looks for a task
  | goto {r p b} (h : Goto r p b) : Eff .plain r (r.setPc p b)
  | ownerPop {r p t l} (hpc : (r.ps p).pc = .ownerPop) (hd : (r.ps p).runnable = l ++ [t]) :
      Eff .plain r (r.setP p { r.ps p with runnable := l, pc := .unqueue t })
  | unqueue {r p t} (hpc : (r.ps p).pc = .unqueue t) :
      Eff .plain r ((r.setTask t { r.tasks t with queued := false }).setPc p (.execute t))
  | rotate {r t l} (hg : r.globalRunnable = t :: l) :
      Eff .plain r { r with globalRunnable := l ++ [t] }
  | pull {r p t l} (hpc : (r.ps p).pc = .takeGlobal) (hg : r.globalRunnable = t :: l)
      (hf : (r.tasks t).fiber = none ∨ (r.tasks t).lastP = some p) :
      Eff .plain r { (r.setTask t { r.tasks t with queued := false }).setPc p (.execute t) with
        globalRunnable := l }
  | localize {r p t l} (hlt : p < r.workerCount) (hg : r.globalRunnable = t :: l)
      (hf : (r.tasks t).fiber = none) :
      Eff .plain r { r.setP p { r.ps p with runnable := (r.ps p).runnable ++ [t] } with
        globalRunnable := l }
  | steal {r p o items v t l} (hpc : (r.ps p).pc = .stealBatch o items)
      (hv : (r.ps v).runnable = t :: l) :
      Eff .plain r ((r.setP v { r.ps v with runnable := l }).setPc p
        (.stealBatch o (items ++ [t])))
  | regrip {r p b} (hfrom : (r.ps p).pc.taken = true) (hto : b.taken = true)
      (ht : b.tasks = (r.ps p).pc.tasks) : Eff .plain r (r.setPc p b)
  | keepLocal {r p u t l} (hpc : (r.ps p).pc = .stolen (u :: t :: l)) :
      Eff .plain r (r.setP p { r.ps p with
        runnable := (r.ps p).runnable ++ [t], pc := .stolen (u :: l) })
  | keepGlobal {r p u t l} (hpc : (r.ps p).pc = .stolen (u :: t :: l)) :
      Eff .plain r ((r.pushGlobal t).setPc p (.stolen (u :: l)))
  -- `vl_worker_execute`
  | drop {r p t} (hpc : (r.ps p).pc = .execute t)
      (h : (r.tasks t).state ≠ .runnable ∨ r.running = false) : Eff .plain r (r.setPc p .top)
  | cancelHeld {r p t} (hpc : (r.ps p).pc = .execute t) (hs : (r.tasks t).state = .runnable)
      (hsd : r.shutdownRequested = true) :
      Eff .plain r { (r.setTask t { r.tasks t with state := .cancelled }).setPc p .cancelled with
        liveTasks := r.liveTasks - 1
        cancelled := r.cancelled + 1 }
  | start {r p t} (hpc : (r.ps p).pc = .execute t) (hs : (r.tasks t).state = .runnable)
      (hrun : r.running = true) :
      Eff .plain r { (r.setTask t { r.tasks t with
          executing := true, lastP := some p, state := .running }).setPc p (.createFiber t) with
        activeWorkers := r.activeWorkers + 1 }
  | created {r p t} (hpc : (r.ps p).pc = .createFiber t) : Eff .plain r (r.setPc p (.resume t))
  | create {r p t} (hpc : (r.ps p).pc = .createFiber t) :
      Eff .plain r ((r.setTask t { r.tasks t with fiber := some ⟨p, .ready⟩ }).setPc p (.resume t))
  | fiberError {r p t status} (hpc : (r.ps p).pc = .createFiber t ∨ (r.ps p).pc = .resume t)
      (hst : status ≠ .ok) : Eff .plain r (r.setPc p (.returned t status))
  | resume {r p t f} (hpc : (r.ps p).pc = .resume t) (hf : (r.tasks t).fiber = some f) :
      Eff .plain r ((r.setTask t { r.tasks t with
        fiber := some { f with state := .running }
        point := (r.tasks t).resumePoint }).setPc p (.inTask t))
  | leave {r p t k} (hpc : (r.ps p).pc = .inTask t) (hpt : (r.tasks t).point = .leaving k) :
      Eff .plain r (r.leaveFiber p t .suspended (.parked k))
  | fiberYield {r p t} (hpc : (r.ps p).pc = .inTask t) (hpt : (r.tasks t).point = .body) :
      Eff .plain r (r.leaveFiber p t .suspended (.parked .bare))
  | finish {r p t} (hpc : (r.ps p).pc = .inTask t) (hpt : (r.tasks t).point = .body) :
      Eff .plain r (r.leaveFiber p t .done .body)
  | endFail {r p t status} (hpc : (r.ps p).pc = .returned t status)
      (hs : (r.tasks t).state = .running) :
      Eff (.fail t) r { r.endTask p t { r.tasks t with
          executing := false, state := .cancelled, fiber := none } with
        liveTasks := r.liveTasks - 1
        cancelled := r.cancelled + 1 }
  | endDone {r p t status} (hpc : (r.ps p).pc = .returned t status)
      (hs : (r.tasks t).state = .running) (hj : r.waiters (.joiners t) = []) :
      Eff .plain r { r.endTask p t { r.tasks t with
          executing := false, state := .done, fiber := none } with
        liveTasks := r.liveTasks - 1
        completed := r.completed + 1 }
  | endWoken {r p t} (hpc : (r.ps p).pc = .returned t .ok) (hw : (r.tasks t).wakePending = true) :
      Eff (.woken t) r ((r.endTask p t { r.tasks t with
          executing := false
          wakePending := false
          state := .runnable
          wakes := (r.tasks t).wakes + 1
          queued := true
          enqueues := (r.tasks t).enqueues + 1 }).pushGlobal t)
  | endYield {r p t} (hpc : (r.ps p).pc = .returned t .ok) (hs : (r.tasks t).state = .runnable) :
      Eff .plain r ((r.endTask p t { r.tasks t with
          executing := false
          yields := (r.tasks t).yields + 1
          queued := true
          enqueues := (r.tasks t).enqueues + 1 }).pushGlobal t)
  | endParked {r p t} (hpc : (r.ps p).pc = .returned t .ok) (hw : (r.tasks t).wakePending = false)
      (hs : (r.tasks t).state = .waiting ∨ (r.tasks t).state = .sleeping) :
      Eff .plain r (r.endTask p t { r.tasks t with executing := false })
  -- calls of tasks
  | spawn {r l} (hsd : r.shutdownRequested = false)
      (hl : l = .ownerSpawn ∨ ∃ p t, (r.ps p).pc = .inTask t) :
      Eff l r { r.setTask r.taskCount { state := .runnable, queued := true, enqueues := 1 } with
        taskCount := r.taskCount + 1
        globalRunnable := r.globalRunnable ++ [r.taskCount]
        liveTasks := r.liveTasks + 1
        spawned := r.spawned + 1 }
  | yield {r p t} (hpc : (r.ps p).pc = .inTask t) (hpt : (r.tasks t).point = .body) :
      Eff .plain r (r.setTask t { r.tasks t with state := .runnable, point := .leaving .yield })
  | park {r p t q x} (hpc : (r.ps p).pc = .inTask t) (hpt : (r.tasks t).point = .body)
      (hq : ∀ u, q = .joiners u → (r.tasks u).state.terminal = false) :
      Eff .plain r ((r.setTask t { r.tasks t with
        state := .waiting, waitingOn := x, point := .leaving (.wait q) }).waitPush q t)
  | parkIo {r p t io} (hpc : (r.ps p).pc = .inTask t) (hpt : (r.tasks t).point = .body) :
      Eff .plain r { r.setTask t { r.tasks t with
          waitingForIo := true, state := .waiting, point := .leaving .io } with
        ioDriver := some io
        ioWaiting := r.ioWaiting + 1 }
  | arm {r p t tm d h} (hpc : (r.ps p).pc = .inTask t) (hpt : (r.tasks t).point = .body)
      (hact : (r.node tm).active = false) (htm : (r.timers tm).task = none)
      (hadd : Added { r.heap p with
        node := Function.update r.node tm { r.node tm with deadline := d } } h tm) :
      Eff (.arm t tm) r { ((r.setTask t { r.tasks t with
          state := .sleeping
          timerResult := .ok
          point := .leaving (.timer tm)
          timerEvent := none }).setTimer tm ⟨some t, some p⟩).putHeap p h with
        timerCount := r.timerCount + 1 }
  | armFail {r p t tm d} (hpc : (r.ps p).pc = .inTask t) (hpt : (r.tasks t).point = .body)
      (hact : (r.node tm).active = false) (htm : (r.timers tm).task = none) :
      Eff .plain r { (r.setTask t { r.tasks t with timerResult := .ok }).setTimer tm ⟨none, none⟩ with
        node := Function.update r.node tm { r.node tm with deadline := d } }
  | clearTask {r p t tm result} (hpc : (r.ps p).pc = .inTask t)
      (hpt : (r.tasks t).point = .armTask tm result) :
      Eff .plain r ((r.clearTimerTask tm).setTask t { r.tasks t with point := .armP tm result })
  | clearP {r p t tm result} (hpc : (r.ps p).pc = .inTask t)
      (hpt : (r.tasks t).point = .armP tm result) :
      Eff .plain r ((r.clearTimerP tm).setTask t { r.tasks t with point := .body })
  -- wakers
  | release {r q w l x} (hq : r.waiters q = w :: l) :
      Eff .plain r (((r.setTask w { r.tasks w with
        causes := (r.tasks w).causes + 1, waitingOn := x }).setWaiters q l).wake w)
  | fire {r p h tm w event} (hrem : (r.heap p).Indexed → Removed (r.heap p) h tm)
      (hmem : tm ∈ (r.ps p).timers) (htm : (r.timers tm).task = some w) :
      Eff .plain r (((r.disarm p h tm).setTask w { r.tasks w with
        timerResult := event.status
        timerEvent := some event
        causes := (r.tasks w).causes + 1 }).wake w)
  | fireNone {r p h tm} (hrem : (r.heap p).Indexed → Removed (r.heap p) h tm)
      (hmem : tm ∈ (r.ps p).timers) (htm : (r.timers tm).task = none) :
      Eff .plain r (r.disarm p h tm)
  | completeIo {r t io} (hs : (r.tasks t).state = .waiting) (hio : (r.tasks t).waitingForIo = true) :
      Eff .plain r ({ r.setTask t { r.tasks t with
          waitingForIo := false, causes := (r.tasks t).causes + 1 } with
        ioWaiting := r.ioWaiting - 1
        ioDriver := io }.wake t)
  -- idling, the run and its end
  | idleEnter {r p} (hpc : (r.ps p).pc = .idle) (hidle : (r.ps p).idle = false) :
      Eff .plain r { r.setP p { r.ps p with idle := true, pc := .idlePoll } with
        idleWorkers := r.idleWorkers + 1 }
  | idleAgain {r p} (hpc : (r.ps p).pc = .idle) (hidle : (r.ps p).idle = true) :
      Eff .plain r (r.setPc p .idlePoll)
  | idleSkip {r p} (hpc : (r.ps p).pc = .idlePoll) (hidle : (r.ps p).idle = false) :
      Eff .plain r (r.setPc p .top)
  | idleLeave {r p} (hpc : (r.ps p).pc = .idlePoll) (hidle : (r.ps p).idle = true) :
      Eff .plain r { r.setP p { r.ps p with idle := false, pc := .top } with
        idleWorkers := r.idleWorkers - 1 }
  | stop {r status} (h : r.liveTasks = 0 ∧ status = .ok ∨
        r.deadlocked = true ∧ status = .invalidState) :
      Eff .plain r { r with runStatus := status, running := false }
  | runBegin {r} (hpc : (r.ps 0).pc = .off) (hlt : 0 < r.workerCount) :
      Eff .plain r ({ r with runStatus := .ok, idleWorkers := 0, running := true }.setPc 0 .top)
  | runReturn {r p} (hpc : (r.ps p).pc = .runEnd) : Eff .runReturn r (r.setPc p .off)
  | requestShutdown {r} : Eff .plain r r.requestShutdown
  | shutdownBegin {r} (hpc : (r.ps 0).pc = .off) : Eff .plain r r.shutdownBegin
  | cancelTask {r t} (hlt : t < r.taskCount) (hex : (r.tasks t).executing = false)
      (hlive : (r.tasks t).state.terminal = false)
      (hsd : r.shutdownRequested = true ∨ (r.ps 0).pc = .stopping) : Eff .plain r (r.cancelTask t)
  | destroyFiber {r t} (hlt : t < r.taskCount) (hex : (r.tasks t).executing = false) :
      Eff .plain r (r.setTask t { r.tasks t with fiber := none })

def Effs (A : Runtime → Label → Prop) : Runtime → Runtime → Prop :=
  Relation.ReflTransGen fun r r' => ∃ l, A r l ∧ Eff l r r'

end Veloco.Sched
