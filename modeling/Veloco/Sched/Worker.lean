import Veloco.Sched.Task

/-!
# The worker loop and the run (`src/runtime/worker.c`, `scheduler.c`)
-/

namespace Veloco.Sched

structure Env where
  now : ℕ := 0
  fiberOk : Bool := true
  stealLost : Bool := false
  deriving DecidableEq, Repr

def pullFirst (eligible : TaskId → Bool) : ℕ → List TaskId → Option TaskId × List TaskId
  | 0, queue => (none, queue)
  | _ + 1, [] => (none, [])
  | n + 1, t :: queue =>
    if eligible t then (some t, queue) else pullFirst eligible n (queue ++ [t])

def pullExtra (hasFiber : TaskId → Bool) :
    ℕ → ℕ → List TaskId → List TaskId → List TaskId × List TaskId
  | 0, _, queue, deque => (queue, deque)
  | _ + 1, _, [], deque => ([], deque)
  | n + 1, pulled, t :: queue, deque =>
    if pulled < stealBatchMax then
      if hasFiber t then pullExtra hasFiber n pulled (queue ++ [t]) deque
      else if deque.length < runQueueCapacity then
        pullExtra hasFiber n (pulled + 1) queue (deque ++ [t])
      else (queue ++ [t], deque)
    else (t :: queue, deque)

def Task.resumePoint (k : Task) : Point :=
  match k.point with
  | .parked (.timer tm) => .armTask tm k.timerResult
  | _ => .body

namespace Runtime

variable (r : Runtime)

def takeGlobal (p : PId) : Option TaskId × Runtime :=
  let hasFiber := fun t => (r.tasks t).fiber.isSome
  let first := pullFirst (fun t => !hasFiber t || (r.tasks t).lastP = some p)
    r.globalRunnable.length r.globalRunnable
  let r₁ := match first.1 with
    | some t => r.setTask t { r.tasks t with queued := false }
    | none => r
  let rest :=
    if r.workerCount > 1 then
      pullExtra hasFiber first.2.length (if first.1.isSome then 1 else 0) first.2 (r.ps p).runnable
    else (first.2, (r.ps p).runnable)
  (first.1, { r₁.setP p { r₁.ps p with runnable := rest.2 } with globalRunnable := rest.1 })

def keepStolen (p : PId) (items : List TaskId) : Runtime :=
  items.foldl (fun r t => (r.ownerPush p t).getD (r.pushGlobal t)) r

/-! ## `vl_worker_execute` -/

def executeBegin (p : PId) (t : TaskId) : Runtime :=
  if (r.tasks t).state ≠ .runnable ∨ r.running = false then r.setPc p .top
  else if r.shutdownRequested then
    { (r.setTask t { r.tasks t with state := .cancelled }).setPc p .cancelled with
      liveTasks := r.liveTasks - 1
      cancelled := r.cancelled + 1 }
  else
    { (r.setTask t { r.tasks t with
        executing := true, lastP := some p, state := .running }).setPc p (.createFiber t) with
      activeWorkers := r.activeWorkers + 1 }

def stopIfDone : Runtime := if r.liveTasks = 0 then r.stopRun .ok else r

def createFiber (p : PId) (t : TaskId) (ok : Bool) : Runtime :=
  if (r.tasks t).fiber.isSome then r.setPc p (.resume t)
  else if ok then
    (r.setTask t { r.tasks t with fiber := some ⟨p, .ready⟩ }).setPc p (.resume t)
  else r.setPc p (.returned t .system)

def resumeFiber (p : PId) (t : TaskId) : Runtime :=
  match (r.tasks t).fiber with
  | none => r.setPc p (.returned t .invalidArgument)
  | some f =>
    if f.owner ≠ p ∨ f.state = .running ∨ f.state = .done then
      r.setPc p (.returned t .invalidState)
    else
      (r.setTask t { r.tasks t with
        fiber := some { f with state := .running }
        point := (r.tasks t).resumePoint }).setPc p (.inTask t)

def leaveFiber (p : PId) (t : TaskId) (state : FiberState) (point : Point) : Runtime :=
  (r.setTask t { r.tasks t with
    fiber := (r.tasks t).fiber.map fun f => { f with state := state }
    point := point }).setPc p (.returned t .ok)

def cancelReturned (t : TaskId) : Runtime :=
  { r.setTask t { r.tasks t with state := .cancelled, fiber := none } with
    liveTasks := r.liveTasks - 1
    cancelled := r.cancelled + 1 }

def fiberDone (t : TaskId) : Bool :=
  match (r.tasks t).fiber with
  | none => true
  | some f => f.state = .done

def completeReturned (t : TaskId) : Runtime :=
  let r' := (r.setTask t { r.tasks t with state := .done }).complete t
  r'.setTask t { r'.tasks t with fiber := none }

def settleReturned (p : PId) (t : TaskId) : Runtime :=
  let k := r.tasks t
  let r' :=
    if k.wakePending ∧ (k.state = .waiting ∨ k.state = .sleeping) then
      r.setTask t { k with wakePending := false, state := .runnable, wakes := k.wakes + 1 }
    else if k.state = .runnable then r.setTask t { k with yields := k.yields + 1 }
    else r
  if (r'.tasks t).state = .runnable then r'.enqueueLocal p t
  else if (r'.tasks t).state = .running then r'.cancelReturned t
  else r'

def executeEnd (p : PId) (t : TaskId) (resumeStatus : Status) : Runtime :=
  let r₁ := { r.setTask t { r.tasks t with executing := false } with
    activeWorkers := r.activeWorkers - 1 }
  let r₂ :=
    if resumeStatus ≠ .ok then r₁.cancelReturned t
    else if r₁.fiberDone t then r₁.completeReturned t
    else r₁.settleReturned p t
  r₂.stopIfDone.setPc p .top

/-! ## `vl_worker_idle` -/

def deadlocked : Bool :=
  r.idleWorkers = r.workerCount && r.globalRunnable.length = 0 && r.liveTasks ≠ 0 &&
    r.timerCount = 0 && r.ioWaiting = 0 &&
    (List.range r.workerCount).all fun p => (r.ps p).runnable.length = 0

def idleBegin (p : PId) : Runtime :=
  if r.running = false then r.setPc p .top
  else
    let r' :=
      if (r.ps p).idle then r
      else { r.setP p { r.ps p with idle := true } with idleWorkers := r.idleWorkers + 1 }
    (if r'.deadlocked then r'.stopRun .invalidState else r').setPc p .idlePoll

def idleEnd (p : PId) : Runtime :=
  if (r.ps p).idle then
    { r.setP p { r.ps p with idle := false, pc := .top } with idleWorkers := r.idleWorkers - 1 }
  else r.setPc p .top

/-! ## Run, cancellation and shutdown -/

def cancelTask (t : TaskId) : Runtime :=
  if (r.tasks t).state.terminal ∨ (r.tasks t).executing then r
  else
    let io := (r.tasks t).waitingForIo && r.ioWaiting ≠ 0
    { r.setTask t { r.tasks t with
        state := .cancelled
        waitingForIo := (r.tasks t).waitingForIo && !io } with
      ioWaiting := if io then r.ioWaiting - 1 else r.ioWaiting
      liveTasks := r.liveTasks - 1
      cancelled := r.cancelled + 1 }

def cancelAll : Runtime := (List.range r.taskCount).reverse.foldl cancelTask r

def destroyFiber (p : PId) (t : TaskId) : Runtime :=
  if (r.tasks t).fiber.isSome ∧ (r.tasks t).lastP = some p then
    r.setTask t { r.tasks t with fiber := none }
  else r

def destroyOwnedFibers (p : PId) : Runtime :=
  (List.range r.taskCount).reverse.foldl (fun r t => r.destroyFiber p t) r

def runBegin : Option Runtime :=
  if r.running ∨ r.liveTasks = 0 then none
  else some ({ r with runStatus := .ok, idleWorkers := 0, running := true }.setPc 0 .top)

def requestShutdown : Runtime := { r with shutdownRequested := true, running := false }

def shutdownBegin : Runtime := { r.setPc 0 .stopping with running := false, stopWorkers := true }

def shutdownEnd : Runtime := (r.cancelAll.destroyOwnedFibers 0).setPc 0 .exited

def taskStep (p : PId) (t : TaskId) : Option Runtime :=
  match (r.tasks t).point with
  | .leaving k => some (r.leaveFiber p t .suspended (.parked k))
  | .armTask tm result =>
    some ((r.clearTimerTask tm).setTask t { r.tasks t with point := .armP tm result })
  | .armP tm _ => some ((r.clearTimerP tm).setTask t { r.tasks t with point := .body })
  | _ => none

def workerStep (p : PId) (e : Env) : Option Runtime :=
  match (r.ps p).pc with
  | .off =>
    -- P0 leaves `off` by calls of the owner thread only
    if p = 0 then none
    else if r.stopWorkers then some ((r.destroyOwnedFibers p).setPc p .exited)
    else if r.running then some (r.setPc p .top)
    else some r
  | .top =>
    if r.running then some (r.setPc p .expire)
    else some (r.setPc p (if p = 0 then .runWait else .off))
  | .expire => some ((r.timersExpire p e.now).setPc p .pollIo)
  | .pollIo => some (r.setPc p .ownerPop)
  | .ownerPop =>
    match (r.ps p).runnable.getLast? with
    | some t => some (r.setP p { r.ps p with
        runnable := (r.ps p).runnable.dropLast, pc := .unqueue t })
    | none => some (r.setPc p .takeGlobal)
  | .unqueue t => some ((r.setTask t { r.tasks t with queued := false }).setPc p (.execute t))
  | .takeGlobal =>
    match r.takeGlobal p with
    | (some t, r') => some (r'.setPc p (.execute t))
    | (none, r') => some (r'.setPc p (.stealNext 1))
  | .stealNext offset =>
    if offset < r.workerCount then some (r.setPc p (.stealBatch offset []))
    else some (r.setPc p .idle)
  | .stealBatch offset items =>
    let victim := (p + offset) % r.workerCount
    match (r.ps victim).runnable with
    | t :: rest =>
      if items.length < stealBatchMax ∧ e.stealLost = false then
        some ((r.setP victim { r.ps victim with runnable := rest }).setPc p
          (.stealBatch offset (items ++ [t])))
      else some (r.setPc p (if items = [] then .stealNext (offset + 1) else .stolen items))
    | [] => some (r.setPc p (if items = [] then .stealNext (offset + 1) else .stolen items))
  | .stolen items =>
    match items with
    | [] => none
    | t :: rest => some ((r.keepStolen p rest).setPc p (.unqueue t))
  | .execute t => some (r.executeBegin p t)
  | .cancelled => some (r.stopIfDone.setPc p .top)
  | .createFiber t => some (r.createFiber p t e.fiberOk)
  | .resume t => some (r.resumeFiber p t)
  | .inTask t => r.taskStep p t
  | .returned t status => some (r.executeEnd p t status)
  | .idle => some (r.idleBegin p)
  | .idlePoll => some (r.idleEnd p)
  | .runWait => if r.activeWorkers = 0 then some (r.setPc p .runEnd) else none
  | .runEnd => some ((if r.shutdownRequested then r.cancelAll else r).setPc p .off)
  | .stopping =>
    if (List.range r.workerCount).all fun k => k = 0 || (r.ps k).pc = .exited then
      some r.shutdownEnd
    else none
  | .exited => none

end Runtime

end Veloco.Sched
