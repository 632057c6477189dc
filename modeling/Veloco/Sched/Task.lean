import Veloco.Sched.State

/-!
# Task calls and timers (`src/runtime/task.c`, `src/time/timer.c`)
-/

namespace Veloco.Sched

open Veloco.TimerHeap (Node Heap)

namespace Runtime

variable (r : Runtime)

/-! ## `task.c` -/

def spawn : Option Runtime :=
  if r.shutdownRequested then none
  else
    let t := r.taskCount
    let r' := ({ r.setTask t { state := .runnable } with taskCount := t + 1 }).enqueueGlobal t
    some { r' with liveTasks := r'.liveTasks + 1, spawned := r'.spawned + 1 }

/-- `vl_yield`. -/
def yieldTask (t : TaskId) : Runtime :=
  if (r.tasks t).state ≠ .running ∨ (r.tasks t).executing = false then r
  else r.setTask t { r.tasks t with state := .runnable, point := .leaving .yield }

def join (t target : TaskId) : Runtime × Option Status :=
  if (r.tasks target).state = .done then (r, some .ok)
  else if target = t then (r, some .invalidState)
  else if (r.tasks target).state = .cancelled ∨ (r.tasks t).state ≠ .running then
    (r, some .invalidState)
  else
    ((r.setTask t { r.tasks t with
        state := .waiting
        waitingOn := some target
        point := .leaving (.wait (.joiners target)) }).waitPush (.joiners target) t, none)

def releaseJoiner (w : TaskId) : Runtime :=
  (r.setTask w { r.tasks w with waitingOn := none, causes := (r.tasks w).causes + 1 }).wake w

/-- `vl_task_complete_locked`. -/
def complete (t : TaskId) : Runtime :=
  let r' := (r.waiters (.joiners t)).foldl releaseJoiner (r.setWaiters (.joiners t) [])
  { r' with liveTasks := r'.liveTasks - 1, completed := r'.completed + 1 }

def canParkForIo (p : PId) (t : TaskId) (io : IoId) : Bool :=
  p = 0 && (r.tasks t).state = .running && !(r.tasks t).waitingForIo &&
    !(r.ioWaiting ≠ 0 && r.ioDriver ≠ some io)

def parkForIo (p : PId) (t : TaskId) (io : IoId) : Runtime × Option Status :=
  if r.canParkForIo p t io then
    ({ r.setTask t { r.tasks t with
        waitingForIo := true, state := .waiting, point := .leaving .io } with
        ioDriver := some io
        ioWaiting := r.ioWaiting + 1 }, none)
  else (r, some .invalidState)

def completeIo (t : TaskId) : Runtime × Status :=
  if (r.tasks t).state ≠ .waiting ∨ (r.tasks t).waitingForIo = false ∨ r.ioWaiting = 0 then
    (r, .invalidState)
  else
    let waiting := r.ioWaiting - 1
    (({ r.setTask t { r.tasks t with
          waitingForIo := false, causes := (r.tasks t).causes + 1 } with
        ioWaiting := waiting
        ioDriver := if waiting = 0 then none else r.ioDriver }).wake t, .ok)

/-! ## `timer.c` -/

def heap (p : PId) : Heap TimerId := ⟨(r.ps p).timers, (r.ps p).timersCapacity, r.node⟩

def putHeap (p : PId) (h : Heap TimerId) : Runtime :=
  { r.setP p { r.ps p with timers := h.items, timersCapacity := h.capacity } with node := h.node }

def setTimer (tm : TimerId) (x : Timer) : Runtime :=
  { r with timers := Function.update r.timers tm x }

def canArm (t : TaskId) (tm : TimerId) : Bool :=
  !(r.node tm).active && (r.timers tm).task = none && (r.tasks t).state = .running &&
    (r.tasks t).executing

/-- `vl_timer_arm` up to its park. -/
def timerArm (p : PId) (t : TaskId) (tm : TimerId) (delay now : ℕ) (reallocOk : Bool) :
    Runtime × Option Status :=
  if delay > Word.sizeMax - now then (r, some .invalidArgument)
  else if r.canArm t tm = false then (r, some .invalidState)
  else
    let r' : Runtime := { (r.setTask t { r.tasks t with state := .sleeping, timerResult := .ok }).setTimer
        tm ⟨some t, some p⟩ with
      node := Function.update r.node tm { r.node tm with deadline := now + delay } }
    match (r'.heap p).push tm reallocOk with
    | (.ok, h) =>
      ({ (r'.setTask t { r'.tasks t with point := .leaving (.timer tm), timerEvent := none }).putHeap
          p h with timerCount := r'.timerCount + 1 }, none)
    | (status, _) =>
      ((r'.setTask t { r'.tasks t with state := .running }).setTimer tm ⟨none, none⟩, some status)

/-- A timer has left its heap. -/
def fireTimer (tm : TimerId) (result : Status) (event : TimerEvent) : Runtime :=
  let r' := { r.setTimer tm ⟨none, none⟩ with timerCount := r.timerCount - 1 }
  match (r.timers tm).task with
  | none => r'
  | some t =>
    (r'.setTask t { r'.tasks t with
      timerResult := result
      timerEvent := some event
      causes := (r'.tasks t).causes + 1 }).wake t

def timerCancel (tm : TimerId) : Runtime × Status :=
  match (r.timers tm).p, (r.timers tm).task with
  | some p, some _ =>
    if (r.node tm).active then
      ((r.putHeap p ((r.heap p).remove tm)).fireTimer tm .cancelled .cancelled, .ok)
    else (r, .invalidState)
  | _, _ => (r, .invalidState)

/-- The loop of `vl_timers_expire`. -/
def expireLoop (p : PId) (now : ℕ) : ℕ → Runtime → Runtime
  | 0, r => r
  | n + 1, r =>
    match (r.heap p).peek with
    | none => r
    | some first =>
      if (r.node first).deadline ≤ now then
        match (r.heap p).pop with
        | none => r
        | some (tm, h) => expireLoop p now n ((r.putHeap p h).fireTimer tm .ok .expired)
      else r

def timersExpire (p : PId) (now : ℕ) : Runtime := expireLoop p now (r.ps p).timers.length r

def clearTimerTask (tm : TimerId) : Runtime := r.setTimer tm { r.timers tm with task := none }

def clearTimerP (tm : TimerId) : Runtime := r.setTimer tm { r.timers tm with p := none }

end Runtime

end Veloco.Sched
