import Veloco.Sched.Sync
import Veloco.Trans

/-!
# A Runtime with its workers, tasks and other threads
-/

namespace Veloco.Sched

inductive Call where
  | spawn
  | yield
  | join (target : TaskId)
  | mutexLock (m : ℕ)
  | mutexUnlock (m : ℕ)
  | semaphoreWait (i : ℕ)
  | waitGroupWait (g : ℕ)
  | channelSend (c : ℕ) (value : Value)
  | channelReceive (c : ℕ) (out : Cell)
  | timerArm (tm : TimerId) (delay now : ℕ) (reallocOk : Bool)
  | parkForIo (io : IoId)
  | fiberYield
  | finish
  deriving DecidableEq, Repr

inductive FreeCall where
  | semaphorePost (i : ℕ)
  | waitGroupAdd (g : ℕ) (delta : ℤ)
  | channelClose (c : ℕ)
  | timerCancel (tm : TimerId)
  | completeIo (t : TaskId)
  | requestShutdown
  deriving DecidableEq, Repr

inductive OwnerCall where
  | spawn
  | run
  | shutdown
  deriving DecidableEq, Repr

inductive Action where
  | worker (p : PId) (e : Env)
  | call (p : PId) (c : Call)
  | free (c : FreeCall)
  | owner (c : OwnerCall)
  deriving DecidableEq, Repr

namespace System

variable (s : System)

def call (p : PId) (t : TaskId) : Call → System × Option Status
  | .spawn =>
    match s.rt.spawn with
    | some r => ({ s with rt := r }, some .ok)
    | none => (s, some .invalidState)
  | .yield => ({ s with rt := s.rt.yieldTask t }, none)
  | .join target => let x := s.rt.join t target; ({ s with rt := x.1 }, x.2)
  | .mutexLock m => s.mutexLock m t
  | .mutexUnlock m => s.mutexUnlock m t
  | .semaphoreWait i => s.semaphoreWait i t
  | .waitGroupWait g => s.waitGroupWait g t
  | .channelSend c value => s.channelSend c t value
  | .channelReceive c out => s.channelReceive c t out
  | .timerArm tm delay now ok =>
    let x := s.rt.timerArm p t tm delay now ok; ({ s with rt := x.1 }, x.2)
  | .parkForIo io => let x := s.rt.parkForIo p t io; ({ s with rt := x.1 }, x.2)
  | .fiberYield => ({ s with rt := s.rt.leaveFiber p t .suspended (.parked .bare) }, none)
  | .finish => ({ s with rt := s.rt.leaveFiber p t .done .body }, none)

def freeCall : FreeCall → System × Status
  | .semaphorePost i => s.semaphorePost i
  | .waitGroupAdd g delta => s.waitGroupAdd g delta
  | .channelClose c => s.channelClose c
  | .timerCancel tm => let x := s.rt.timerCancel tm; ({ s with rt := x.1 }, x.2)
  | .completeIo t => let x := s.rt.completeIo t; ({ s with rt := x.1 }, x.2)
  | .requestShutdown => ({ s with rt := s.rt.requestShutdown }, .ok)

def ownerCall : OwnerCall → Option System
  | .spawn => s.rt.spawn.map fun r => { s with rt := r }
  | .run => s.rt.runBegin.map fun r => { s with rt := r }
  | .shutdown => some { s with rt := s.rt.shutdownBegin }

end System

def step (s : System) : Action → Option System
  | .worker p e =>
    if p < s.rt.workerCount then (s.rt.workerStep p e).map fun r => { s with rt := r } else none
  | .call p c =>
    match (s.rt.ps p).pc with
    | .inTask t => if (s.rt.tasks t).point = .body then some (s.call p t c).1 else none
    | _ => none
  -- after `vl_runtime_shutdown` there is no Runtime to call
  | .free c => if (s.rt.ps 0).pc = .exited then none else some (s.freeCall c).1
  | .owner c => if (s.rt.ps 0).pc = .off then s.ownerCall c else none

structure Initial (workerCount : ℕ) (s : System) : Prop where
  pos : 0 < workerCount
  rt : s.rt = { workerCount := workerCount }

end Veloco.Sched
