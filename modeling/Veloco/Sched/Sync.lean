import Veloco.Sched.Worker

/-!
# Mutexes, semaphores, wait groups and channels (`src/sync/`)
-/

namespace Veloco.Sched

open Function

abbrev Value := ℕ

abbrev Cell := ℕ

structure Channel where
  buffer : ℕ → Value := fun _ => 0
  capacity : ℕ := 0
  head : ℕ := 0
  length : ℕ := 0
  closed : Bool := false

def Channel.push (c : Channel) (value : Value) : Channel :=
  { c with
    buffer := update c.buffer ((c.head + c.length) % c.capacity) value
    length := c.length + 1 }

def Channel.pop (c : Channel) : Value × Channel :=
  (c.buffer c.head, { c with head := (c.head + 1) % c.capacity, length := c.length - 1 })

structure Wait where
  value : Value := 0
  output : Option Cell := none
  result : Status := .ok
  deriving DecidableEq, Repr

structure System where
  rt : Runtime
  mutexOwner : ℕ → Option TaskId := fun _ => none
  permits : ℕ → ℕ := fun _ => 0
  count : ℕ → ℕ := fun _ => 0
  channel : ℕ → Channel := fun _ => {}
  wait : TaskId → Wait := fun _ => {}
  memory : Cell → Value := fun _ => 0

namespace System

variable (s : System)

def setWait (t : TaskId) (w : Wait) : System := { s with wait := update s.wait t w }

def setChannel (c : ℕ) (x : Channel) : System :=
  { s with channel := update s.channel c x }

def store (cell : Cell) (value : Value) : System :=
  { s with memory := update s.memory cell value }

def park (q : WaitQueue) (t : TaskId) : System × Option Status :=
  match s.rt.park q t with
  | none => (s, some .invalidState)
  | some r => ({ s with rt := r }.setWait t { s.wait t with result := .ok }, none)

def release (waiter : TaskId) (r : Runtime) (w : Wait) : System :=
  { s with rt := r.wake waiter }.setWait waiter w

/-! ## Mutex -/

def mutexLock (m : ℕ) (t : TaskId) : System × Option Status :=
  match s.mutexOwner m with
  | none => ({ s with mutexOwner := update s.mutexOwner m (some t) }, some .ok)
  | some owner => if owner = t then (s, some .invalidState) else s.park (.mutex m) t

def mutexUnlock (m : ℕ) (t : TaskId) : System × Option Status :=
  if s.mutexOwner m ≠ some t then (s, some .invalidState)
  else
    match s.rt.waitPop (.mutex m) with
    | none => ({ s with mutexOwner := update s.mutexOwner m none }, some .ok)
    | some (next, r) =>
      ({ s with mutexOwner := update s.mutexOwner m (some next) }.release next r
        { s.wait next with result := .ok }, some .ok)

/-! ## Semaphore -/

def semaphoreWait (i : ℕ) (t : TaskId) : System × Option Status :=
  if s.permits i ≠ 0 then
    ({ s with permits := update s.permits i (s.permits i - 1) }, some .ok)
  else s.park (.semaphore i) t

def semaphorePost (i : ℕ) : System × Status :=
  match s.rt.waitPop (.semaphore i) with
  | some (waiter, r) => (s.release waiter r { s.wait waiter with result := .ok }, .ok)
  | none =>
    if s.permits i = Word.sizeMax then (s, .invalidState)
    else ({ s with permits := update s.permits i (s.permits i + 1) }, .ok)

/-! ## Wait group -/

def releaseAll (q : WaitQueue) (f : Wait → Wait) : ℕ → System → System
  | 0, s => s
  | n + 1, s =>
    match s.rt.waitPop q with
    | none => s
    | some (waiter, r) => releaseAll q f n (s.release waiter r (f (s.wait waiter)))

def waitGroupAdd (g : ℕ) (delta : ℤ) : System × Status :=
  let magnitude := (-(delta + 1)).toNat + 1
  if (delta < 0 ∧ magnitude > s.count g) ∨
      (delta > 0 ∧ delta.toNat > Word.sizeMax - s.count g) ∨
      (delta > 0 ∧ (s.rt.waiters (.waitGroup g)).length ≠ 0) then (s, .invalidState)
  else
    let count := if delta < 0 then s.count g - magnitude else s.count g + delta.toNat
    let s' := { s with count := update s.count g count }
    if count = 0 then
      (releaseAll (.waitGroup g) (fun w => { w with result := .ok })
        (s.rt.waiters (.waitGroup g)).length s', .ok)
    else (s', .ok)

def waitGroupWait (g : ℕ) (t : TaskId) : System × Option Status :=
  if s.count g = 0 then (s, some .ok) else s.park (.waitGroup g) t

/-! ## Channel -/

def channelSend (c : ℕ) (t : TaskId) (value : Value) : System × Option Status :=
  if (s.channel c).closed then (s, some .closed)
  else
    match s.rt.waitPop (.receivers c) with
    | some (receiver, r) =>
      let s' := match (s.wait receiver).output with
        | some cell => s.store cell value
        | none => s
      (s'.release receiver r { s.wait receiver with output := none, result := .ok }, some .ok)
    | none =>
      if (s.channel c).length < (s.channel c).capacity then
        (s.setChannel c ((s.channel c).push value), some .ok)
      else
        match s.park (.senders c) t with
        | (s', none) => (s'.setWait t { s'.wait t with value := value }, none)
        | (s', status) => (s', status)

def channelReceive (c : ℕ) (t : TaskId) (out : Cell) : System × Option Status :=
  if (s.channel c).length ≠ 0 then
    let s' := (s.store out (s.channel c).pop.1).setChannel c (s.channel c).pop.2
    match s'.rt.waitPop (.senders c) with
    | some (sender, r) =>
      ((s'.setChannel c ((s'.channel c).push (s.wait sender).value)).release sender r
        { s.wait sender with value := 0, result := .ok }, some .ok)
    | none => (s', some .ok)
  else
    match s.rt.waitPop (.senders c) with
    | some (sender, r) =>
      ((s.store out (s.wait sender).value).release sender r
        { s.wait sender with value := 0, result := .ok }, some .ok)
    | none =>
      if (s.channel c).closed then (s, some .closed)
      else
        match s.park (.receivers c) t with
        | (s', none) => (s'.setWait t { s'.wait t with output := some out }, none)
        | (s', status) => (s', status)

def channelClose (c : ℕ) : System × Status :=
  if (s.channel c).closed then (s, .closed)
  else
    let s₁ := s.setChannel c { s.channel c with closed := true }
    let s₂ := releaseAll (.senders c) (fun w => { w with value := 0, result := .closed })
      (s₁.rt.waiters (.senders c)).length s₁
    (releaseAll (.receivers c) (fun w => { w with output := none, result := .closed })
      (s₂.rt.waiters (.receivers c)).length s₂, .ok)

end System

end Veloco.Sched
