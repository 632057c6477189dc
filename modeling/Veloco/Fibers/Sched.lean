import Veloco.Sched.State
import Veloco.Trans

/-!
# Fibers of one scheduler (`src/fiber/fiber.c`)
-/

namespace Veloco.Fibers

open Function
open Veloco.Sched (FiberState)

abbrev FiberId := ℕ

abbrev Ctx := Option FiberId

abbrev Long := ℤ

inductive Point where
  | start
  | resumed (caller : Ctx) (fiber : FiberId)
  | yielded (fiber : FiberId)
  | unreachable
  deriving DecidableEq, Repr

structure Frame where
  stack : Ctx
  point : Point
  deriving DecidableEq, Repr

structure Fiber where
  caller : Ctx := none
  state : FiberState := .ready
  inbox : Long := 0
  outbound : Long := 0
  context : Frame
  deriving DecidableEq, Repr

structure Sched where
  fibers : FiberId → Option Fiber := fun _ => none
  rootContext : Frame := ⟨none, .unreachable⟩
  current : Ctx := none
  control : Ctx := none
  liveFibers : ℕ := 0

inductive Event where
  | created (f : FiberId)
  | resume (c : Ctx) (f : FiberId) (value : Long)
  | yield (c : Ctx) (value : Long)
  | ret (f : FiberId) (value : Long)
  | yieldReturns (c : Ctx) (value : Long)
  | resumeReturns (c : Ctx) (f : FiberId) (value : Long)
  | destroyed (f : FiberId)
  deriving DecidableEq, Repr

namespace Sched

variable (s : Sched)

def modify (f : FiberId) (g : Fiber → Fiber) : Option Sched :=
  (s.fibers f).map fun k => { s with fibers := update s.fibers f (some (g k)) }

def setState (caller : Ctx) (state : FiberState) : Option Sched :=
  match caller with
  | none => some s
  | some c => s.modify c fun k => { k with state := state }

def frame (caller : Ctx) : Option Frame :=
  match caller with
  | none => some s.rootContext
  | some c => (s.fibers c).map (·.context)

def saveContext (caller : Ctx) (frame : Frame) : Option Sched :=
  match caller with
  | none => some { s with rootContext := frame }
  | some c => s.modify c fun k => { k with context := frame }

def jump (target : Ctx) : Option (Sched × List Event) := do
  let frame ← s.frame target
  match frame.point with
  | .start =>
    -- `vl_fiber_trampoline` calls the function of the current fiber
    let f ← s.current
    let k ← s.fibers f
    if k.state = .running then some ({ s with control := frame.stack }, []) else none
  | .resumed caller fiber =>
    let s ← { s with control := frame.stack, current := caller }.setState caller .running
    let k ← s.fibers fiber
    let s ← s.modify fiber fun k => { k with caller := none }
    some (s, [.resumeReturns frame.stack fiber k.outbound])
  | .yielded fiber =>
    let k ← s.fibers fiber
    some ({ s with control := frame.stack }, [.yieldReturns frame.stack k.inbox])
  | .unreachable => none

def create (f : FiberId) : Option (Sched × List Event) :=
  if (s.fibers f).isSome then none
  else some ({ s with
    fibers := update s.fibers f (some { context := ⟨some f, .start⟩ })
    liveFibers := s.liveFibers + 1 }, [.created f])

def enter (f : FiberId) (value : Long) : Option Sched := do
  let caller := s.current
  let s₁ ← s.setState caller .suspended
  let s₂ ← s₁.modify f fun k => { k with caller := caller, inbox := value, state := .running }
  { s₂ with current := some f }.saveContext caller ⟨s.control, .resumed caller f⟩

def resume (f : FiberId) (value : Long) : Option (Sched × List Event) := do
  let k ← s.fibers f
  if k.state = .running ∨ k.state = .done then some (s, [])
  else
    let s₁ ← s.enter f value
    let (s₂, events) ← s₁.jump (some f)
    some (s₂, .resume s.control f value :: events)

def leave (f : FiberId) (value : Long) (state : FiberState) (point : Point) : Option Sched := do
  let k ← s.fibers f
  let s₁ ← s.modify f fun k => { k with outbound := value, state := state }
  let s₂ ← { s₁ with current := k.caller }.setState k.caller .running
  s₂.saveContext (some f) ⟨s.control, point⟩

def handBack (f : FiberId) (value : Long) (state : FiberState) (point : Point) :
    Option (Sched × List Event) := do
  let k ← s.fibers f
  let s₁ ← s.leave f value state point
  s₁.jump k.caller

def yield (value : Long) : Option (Sched × List Event) :=
  match s.current with
  | none => some (s, [])
  | some f => do
    let k ← s.fibers f
    if k.state ≠ .running then some (s, [])
    else
      let (s', events) ← s.handBack f value .suspended (.yielded f)
      some (s', .yield s.control value :: events)

def ret (value : Long) : Option (Sched × List Event) :=
  match s.control with
  | none => none
  | some f => do
    let (s', events) ← s.handBack f value .done .unreachable
    some (s', .ret f value :: events)

def destroy (f : FiberId) : Option (Sched × List Event) := do
  let k ← s.fibers f
  if k.state = .running then some (s, [])
  else some ({ s with
    fibers := update s.fibers f none
    liveFibers := s.liveFibers - 1 }, [.destroyed f])

end Sched

inductive Op where
  | create (f : FiberId)
  | resume (f : FiberId) (value : Long)
  | yield (value : Long)
  | ret (value : Long)
  | destroy (f : FiberId)
  deriving DecidableEq, Repr

def Sched.op (s : Sched) : Op → Option (Sched × List Event)
  | .create f => s.create f
  | .resume f value => s.resume f value
  | .yield value => s.yield value
  | .ret value => s.ret value
  | .destroy f => s.destroy f

structure System where
  sched : Sched := {}
  trace : List Event := []

def step (s : System) (op : Op) : Option System :=
  (s.sched.op op).map fun x => ⟨x.1, s.trace ++ x.2⟩

end Veloco.Fibers
