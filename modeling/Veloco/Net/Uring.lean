import Veloco.Net.Registry
import Veloco.Trans

/-!
# The io_uring backend (`src/net/uring_backend.c`, `src/net/io_worker.c`)
-/

namespace Veloco.Net.Uring

open Function
open Veloco.Net

/-! ## Sockets -/

structure Tracked where
  fd : ℤ
  generation : ℕ
  socket : ℕ
  deriving DecidableEq, Repr

structure Sockets where
  reg : Registry
  opened : ℤ → Option ℕ
  count : ℕ
  tracked : List Tracked

namespace Sockets

variable (net : Sockets)

def initial : Sockets := ⟨Registry.empty, fun _ => none, 0, []⟩

def openAt (fd : ℤ) : Option Sockets :=
  if 0 ≤ fd ∧ net.opened fd = none then
    some { net with opened := update net.opened fd (some net.count), count := net.count + 1 }
  else none

def discard (fd : ℤ) : Option Sockets :=
  if socketIsTracked fd net.reg = false then
    some { net with opened := update net.opened fd none }
  else none

def track (fd : ℤ) (calloc : Bool) : Option (Status × Sockets) :=
  match net.opened fd with
  | none => none
  | some socket =>
    match socketTrack fd net.reg calloc with
    | (.ok, reg) =>
      some (.ok, { net with
        reg := reg
        tracked := ⟨fd, socketGeneration fd reg, socket⟩ :: net.tracked })
    | (status, reg) => some (status, { net with reg := reg })

/-- `vl_socket_close`. -/
def close (fd : ℤ) (closed : Bool) : Sockets :=
  match socketClose fd net.reg closed with
  | (.ok, reg) => { net with reg := reg, opened := update net.opened fd none }
  | (_, reg) => { net with reg := reg }

def release (request : Request) : Sockets :=
  { net with reg := socketRelease request.fd net.reg request.generation }

def accept (fd : ℤ) (calloc : Bool) : Option (ℤ × Sockets) :=
  match net.openAt fd with
  | none => none
  | some opened =>
    match opened.track fd calloc with
    | none => none
    | some (.ok, tracked) => some (fd, tracked)
    | some (_, failed) =>
      -- `close(result)`
      some (-emfile, { failed with opened := update failed.opened fd none })

end Sockets

/-! ## The ring -/

structure Operation where
  request : Request
  completion : Completion
  resolved : Bool
  completionConsumed : Bool
  cancelCommandPending : Bool
  deriving DecidableEq, Repr

def Operation.new (request : Request) : Operation :=
  ⟨request, ⟨request, 0, .none, 0⟩, false, false, false⟩

inductive Command where
  | submit (operation : ℕ)
  | cancel (operation : ℕ)
  deriving DecidableEq, Repr

/-- Where the owner's call is. -/
inductive Owner where
  | idle
  | claim (request : Request)
  | enqueue (request : Request)
  | unclaim (request : Request)
  | free (operation : ℕ) (completion : Completion)
  | finish (operation : ℕ) (completion : Completion)
  | closeAccepted (operation : ℕ) (completion : Completion)
  | join
  | destroy
  | closed
  deriving DecidableEq, Repr

/-- Where the worker's loop is. -/
inductive Worker where
  | idle
  | commands (rest : List Command) (stopping : Bool)
  | free (operation : ℕ) (rest : List Command) (stopping : Bool)
  | release (operation : ℕ)
  | publish (operation : ℕ)
  | stopped
  deriving DecidableEq, Repr

/-- `vl_uring_state_t`. -/
structure Ring where
  operations : ℕ → Operation
  next : ℕ
  queue : List Command
  active : List ℕ
  completed : List ℕ
  workerStatus : Status
  stopRequested : Bool
  owner : Owner
  worker : Worker
  outstanding : List ℕ
  cancelling : List ℕ
  returned : List (ℕ × Completion)
  freed : List ℕ

namespace Ring

variable (r : Ring)

def initial : Ring :=
  ⟨fun _ => .new ⟨0, .cancel, 0, true, 0, true, 0, 0, 0⟩, 0, [], [], [], .ok, false, .idle, .idle, [],
    [], [], []⟩

def setOperation (o : ℕ) (operation : Operation) : Ring :=
  { r with operations := update r.operations o operation }

def findActive (id : ℕ) : Option ℕ := r.active.find? fun o => (r.operations o).request.id == id

def submit (request : Request) : Option Ring :=
  if r.workerStatus ≠ .ok ∨ (r.findActive request.id).isSome then none
  else some { r with
    operations := update r.operations r.next (.new request)
    next := r.next + 1
    active := r.next :: r.active
    queue := r.queue ++ [.submit r.next] }

/-- `vl_io_worker_cancel`. -/
def cancel (id : ℕ) (calloc : Bool) : Ring :=
  if calloc = false then r
  else
    match r.findActive id with
    | none => r
    | some o =>
      if (r.operations o).cancelCommandPending then r
      else { r with
        operations := update r.operations o
          { r.operations o with cancelCommandPending := true }
        queue := r.queue ++ [.cancel o] }

def poll : Ring :=
  match r.completed with
  | [] => r
  | o :: rest =>
    let operation := r.operations o
    { r with
      operations := update r.operations o { operation with completionConsumed := true }
      completed := rest
      owner := if operation.cancelCommandPending then .finish o operation.completion
        else .free o operation.completion }

def deliver (o : ℕ) (completion : Completion) : Ring :=
  { r with returned := (o, completion) :: r.returned, owner := .idle }

def halt (status : Status) : Ring :=
  { r with workerStatus := status, worker := .stopped, outstanding := [], cancelling := [] }

def prepareOperation (op : Op) (sqe : Bool) : Status :=
  if sqe = false then .system
  else
    match op with
    | .cancel => .unsupported
    | _ => .ok

def processSubmit (o : ℕ) (rest : List Command) (stopping sqe : Bool) : Ring :=
  match prepareOperation (r.operations o).request.op sqe with
  | .ok => { r with outstanding := o :: r.outstanding, worker := .commands rest stopping }
  | status => { r with workerStatus := status, worker := .commands rest true }

def processCancel (o : ℕ) (rest : List Command) (stopping sqe : Bool) : Ring :=
  let operation := r.operations o
  let r := r.setOperation o { operation with cancelCommandPending := false }
  if operation.resolved = false then
    if sqe then { r with cancelling := o :: r.cancelling, worker := .commands rest stopping }
    else { r with workerStatus := .system, worker := .commands rest true }
  else if operation.completionConsumed then { r with worker := .free o rest stopping }
  else { r with worker := .commands rest stopping }

def completionOf (request : Request) (result : ℤ) : Completion where
  request := request
  result := result
  events :=
    { readable := request.op == .accept || request.op == .recv
      writable := request.op == .send || request.op == .connect
      eof := request.op == .recv && result == 0
      error := decide (result < 0) && result != -etime && result != -ecanceled }
  generation := request.generation

def complete (o : ℕ) (result : ℤ) : Ring :=
  let operation := r.operations o
  { r.setOperation o { operation with completion := completionOf operation.request result } with
    outstanding := r.outstanding.erase o
    worker := if operation.request.op = .timeout then .publish o else .release o }

def publish (o : ℕ) : Ring :=
  if (r.operations o).resolved then { r with worker := .idle }
  else { r.setOperation o { r.operations o with resolved := true } with
    active := r.active.erase o
    completed := r.completed ++ [o]
    worker := .idle }

end Ring

/-! ## Steps -/

structure Issue where
  request : Request
  socket : Option ℕ
  deriving DecidableEq, Repr

structure State where
  net : Sockets
  ring : Ring
  issued : List Issue

def State.initial : State := ⟨.initial, .initial, []⟩

def validateRequest (request : Request) : Status :=
  match request.op with
  | .accept => if 0 ≤ request.fd then .ok else .invalidArgument
  | .recv => if request.fd < 0 ∨ request.bufNull = true ∧ request.len ≠ 0 then .invalidArgument else .ok
  | .send => if request.fd < 0 ∨ request.bufNull = true ∧ request.len ≠ 0 then .invalidArgument else .ok
  | .connect =>
    if request.fd < 0 ∨ request.addressNull = true ∨ request.addressLen = 0 then .invalidArgument
    else .ok
  | .timeout => if request.timeoutNs ≠ 0 then .ok else .invalidArgument
  | .cancel => .unsupported

inductive Call where
  | submit (request : Request)
  | cancel (id : ℕ) (calloc : Bool)
  | poll
  | destroy
  deriving DecidableEq, Repr

inductive Outcome where
  | nothing
  | enqueue (calloc wakeup : Bool)
  | close (closed : Bool)
  deriving DecidableEq, Repr

inductive Action where
  | detach
  | command (sqe : Bool)
  | processed (ok : Bool)
  | completion (operation : ℕ) (result : ℤ) (calloc : Bool)
  | cancelled (operation : ℕ)
  | advance
  | fail
  deriving DecidableEq, Repr

inductive Label where
  | call (call : Call)
  | owner (outcome : Outcome)
  | worker (action : Action)
  | openAt (fd : ℤ)
  | discard (fd : ℤ)
  | track (fd : ℤ) (calloc : Bool)
  | close (fd : ℤ) (closed : Bool)
  deriving DecidableEq, Repr

namespace State

variable (s : State)

def setOwner (owner : Owner) : State := { s with ring := { s.ring with owner := owner } }

def submit (request : Request) : State :=
  if validateRequest request ≠ .ok then s
  else if request.op = .timeout then s.setOwner (.enqueue { request with generation := 0 })
  else
    let generation := socketGeneration request.fd s.net.reg
    if generation = 0 ∨ request.generation ≠ 0 ∧ request.generation ≠ generation then s
    else if request.generation = 0 then
      s.setOwner (.claim { request with generation := generation })
    else s.setOwner (.claim request)

def call : Call → State
  | .submit request => s.submit request
  | .cancel id calloc => { s with ring := s.ring.cancel id calloc }
  | .poll => { s with ring := s.ring.poll }
  | .destroy => { s with ring := { s.ring with stopRequested := true, owner := .join } }

def claim (request : Request) : State :=
  match socketClaim request.fd s.net.reg request.generation with
  | (.ok, reg) => { s.setOwner (.enqueue request) with net := { s.net with reg := reg } }
  | (_, reg) => { s.setOwner .idle with net := { s.net with reg := reg } }

def submitFailed (request : Request) : State :=
  if request.op = .timeout then s.setOwner .idle else s.setOwner (.unclaim request)

/-- `vl_io_worker_submit`. -/
def enqueue (request : Request) (calloc wakeup : Bool) : State :=
  if calloc = false then s.submitFailed request
  else
    match s.ring.submit request with
    | none => s.submitFailed request
    | some ring =>
      if wakeup then { s with ring := { ring with owner := .idle } }
      else { s with ring := ring }.submitFailed request

/-- The end of `vl_io_poll`. -/
def finish (o : ℕ) (completion : Completion) : State :=
  if socketRequestIsStale completion.request s.net.reg then
    if completion.request.op = .accept ∧ 0 ≤ completion.result then
      s.setOwner (.closeAccepted o completion)
    else { s with ring := s.ring.deliver o { completion with
      result := -estale, events := { completion.events with error := true } } }
  else { s with ring := s.ring.deliver o completion }

def destroy : State :=
  match s.ring.active with
  | o :: rest =>
    let request := (s.ring.operations o).request
    { s with
      net := if request.op = .timeout then s.net else s.net.release request
      ring := { s.ring with active := rest, freed := o :: s.ring.freed } }
  | [] => { s with ring := { s.ring with
      completed := [], freed := s.ring.completed ++ s.ring.freed, owner := .closed } }

def owner (outcome : Outcome) : Option State :=
  match s.ring.owner, outcome with
  | .claim request, .nothing => some (s.claim request)
  | .enqueue request, .enqueue calloc wakeup => some (s.enqueue request calloc wakeup)
  | .unclaim request, .nothing => some { s.setOwner .idle with net := s.net.release request }
  | .free o completion, .nothing =>
    some { s with ring := { s.ring with
      freed := o :: s.ring.freed, owner := .finish o completion } }
  | .finish o completion, .nothing => some (s.finish o completion)
  | .closeAccepted o completion, .close closed =>
    some { s with
      net := s.net.close completion.result closed
      ring := s.ring.deliver o { completion with
        result := -estale, events := { completion.events with error := true } } }
  | .join, .nothing =>
    if s.ring.worker = .stopped then
      some { s with ring := { s.ring with queue := [], owner := .destroy } }
    else none
  | .destroy, .nothing => some s.destroy
  | _, _ => none

def command (command : Command) (rest : List Command) (stopping sqe : Bool) : State :=
  match command with
  | .submit o =>
    let request := (s.ring.operations o).request
    let ring := s.ring.processSubmit o rest stopping sqe
    if Ring.prepareOperation request.op sqe = .ok ∧ request.op ≠ .timeout then
      { s with ring := ring, issued := ⟨request, s.net.opened request.fd⟩ :: s.issued }
    else { s with ring := ring }
  | .cancel o => { s with ring := s.ring.processCancel o rest stopping sqe }

def completion (o : ℕ) (result : ℤ) (calloc : Bool) : Option State :=
  if (s.ring.operations o).request.op = .accept ∧ 0 ≤ result then
    match s.net.accept result calloc with
    | none => none
    | some (result, net) => some { s with net := net, ring := s.ring.complete o result }
  else some { s with ring := s.ring.complete o result }

def worker (action : Action) : Option State :=
  match s.ring.worker, action with
  | .idle, .detach =>
    some { s with ring := { s.ring with queue := [], worker := .commands s.ring.queue false } }
  | .commands (c :: rest) stopping, .command sqe => some (s.command c rest stopping sqe)
  | .commands [] stopping, .processed ok =>
    if stopping || s.ring.stopRequested then
      some { s with ring := s.ring.halt s.ring.workerStatus }
    else if ok = false then some { s with ring := s.ring.halt .system }
    else some { s with ring := { s.ring with worker := .idle } }
  | .free o rest stopping, .advance =>
    some { s with ring := { s.ring with
      freed := o :: s.ring.freed, worker := .commands rest stopping } }
  | .idle, .completion o result calloc =>
    if o ∈ s.ring.outstanding then s.completion o result calloc else none
  | .idle, .cancelled o =>
    if o ∈ s.ring.cancelling then
      some { s with ring := { s.ring with cancelling := s.ring.cancelling.erase o } }
    else none
  | .release o, .advance =>
    some { s with
      net := s.net.release (s.ring.operations o).request
      ring := { s.ring with worker := .publish o } }
  | .publish o, .advance => some { s with ring := s.ring.publish o }
  | .idle, .fail => some { s with ring := s.ring.halt .system }
  | _, _ => none

end State

def step (s : State) : Label → Option State
  | .call c => if s.ring.owner = .idle then some (s.call c) else none
  | .owner outcome => s.owner outcome
  | .worker action => s.worker action
  | .openAt fd => (s.net.openAt fd).map fun net => { s with net := net }
  | .discard fd => (s.net.discard fd).map fun net => { s with net := net }
  | .track fd calloc => (s.net.track fd calloc).map fun p => { s with net := p.2 }
  | .close fd closed => some { s with net := s.net.close fd closed }

end Veloco.Net.Uring
