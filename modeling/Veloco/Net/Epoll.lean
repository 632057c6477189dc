import Veloco.Net.Registry
import Veloco.Trans

/-!
# The epoll backend (`src/net/epoll_backend.c`, `src/net/backend.c`)
-/

namespace Veloco.Net.Epoll

open Veloco.Net

/-! ## Data -/

inductive Interest where
  | epollin
  | epollout
  deriving DecidableEq, Repr

structure Waiter where
  serial : ℕ
  request : Request
  events : Interest
  deriving DecidableEq, Repr

/-- The events of an `epoll_wait`. -/
structure Flags where
  epollin : Bool
  epollout : Bool
  epollerr : Bool
  epollhup : Bool
  epollrdhup : Bool
  deriving DecidableEq, Repr

structure Entry where
  serial : ℕ
  completion : Completion
  deriving DecidableEq, Repr

inductive After where
  | cancelled
  | polled (entry : Entry)
  deriving DecidableEq, Repr

inductive Pc where
  | idle
  | generation (waiter : Waiter) (generation : ℕ)
  | tracked (waiter : Waiter)
  | claimed (waiter : Waiter)
  | unclaim (waiter : Waiter)
  | release (waiter : Waiter) (after : After)
  | scan (nowait : Bool) (rest : List Waiter)
  | ready (nowait : Bool) (waiter : Waiter) (flags : Flags)
  | execute (nowait : Bool) (waiter : Waiter) (flags : Flags)
  | accepted (waiter : Waiter) (flags : Flags) (fd : ℤ)
  | finish (entry : Entry)
  | closeAccepted (entry : Entry)
  | destroy (rest : List Waiter)
  | closed
  deriving DecidableEq, Repr

structure Handle where
  waiters : List Waiter
  completed : List Entry
  registered : List Waiter
  pc : Pc
  accepted : List ℕ
  rejected : List ℕ
  returned : List Entry
  dropped : List ℕ
  deleted : List (Waiter × Waiter)

def Handle.init : Handle := ⟨[], [], [], .idle, [], [], [], [], []⟩

structure State where
  reg : Registry
  handles : ℕ → Handle
  next : ℕ

def State.initial : State := ⟨Registry.empty, fun _ => .init, 0⟩

/-! ## Parts of the backend -/

def requestEvents : Op → Option Interest
  | .accept => some .epollin
  | .recv => some .epollin
  | .send => some .epollout
  | .connect => some .epollout
  | _ => none

namespace Handle

variable (h : Handle)

def findWaiter (fd : ℤ) : Option Waiter := h.waiters.find? fun w => w.request.fd == fd

def findRequest (id : ℕ) : Option Waiter := h.waiters.find? fun w => w.request.id == id

def removeWaiter (w : Waiter) : Handle := { h with waiters := h.waiters.erase w }

def epollDel (w : Waiter) : Handle :=
  { h with
    registered := h.registered.filter fun e => e.request.fd != w.request.fd
    deleted := ((h.registered.filter fun e => e.request.fd == w.request.fd).map fun e => (w, e)) ++
      h.deleted }

def deleteWaiter (w : Waiter) (after : After) : Handle :=
  { (h.epollDel w).removeWaiter w with pc := .release w after }

def queueCompletion (e : Entry) : Handle := { h with completed := h.completed ++ [e] }

def reject (serial : ℕ) : Handle := { h with rejected := serial :: h.rejected, pc := .idle }

def deliver (e : Entry) : Handle := { h with returned := e :: h.returned, pc := .idle }

def submit (reg : Registry) (serial : ℕ) (request : Request) : Handle :=
  if request.fd < 0 then h.reject serial
  else
    match requestEvents request.op with
    | none => h.reject serial
    | some events =>
      if (request.op = .recv ∨ request.op = .send) ∧ request.bufNull = true ∧ request.len ≠ 0 then
        h.reject serial
      else if (h.findRequest request.id).isSome ∨ (h.findWaiter request.fd).isSome then
        h.reject serial
      else { h with
        pc := .generation ⟨serial, request, events⟩ (socketGeneration request.fd reg) }

def cancelEntry (w : Waiter) : Entry :=
  ⟨w.serial, ⟨w.request, -ecanceled, .none, w.request.generation⟩⟩

/-- `vl_epoll_backend_cancel`. -/
def cancel (id : ℕ) (malloc : Bool) : Handle :=
  match h.findRequest id with
  | none => h
  | some w =>
    if malloc = false then h
    else (h.queueCompletion (cancelEntry w)).deleteWaiter w .cancelled

def poll (nowait clock : Bool) : Handle :=
  match h.completed with
  | e :: rest => { h with completed := rest, pc := .finish e }
  | [] => if clock = false then h else { h with pc := .scan nowait h.waiters }

def destroy : Handle :=
  { h with
    waiters := []
    completed := []
    dropped := h.waiters.map Waiter.serial ++ h.completed.map Entry.serial
    pc := .destroy h.waiters }

def staleEntry (w : Waiter) : Entry :=
  ⟨w.serial, ⟨w.request, -estale, .none, w.request.generation⟩⟩

def completeReady (w : Waiter) (flags : Flags) (result : ℤ) : Handle :=
  h.deleteWaiter w (.polled ⟨w.serial,
    { request := w.request
      result := result
      events :=
        { readable := flags.epollin
          writable := flags.epollout
          eof := flags.epollhup || flags.epollrdhup ||
            (w.request.op == .recv && result == 0)
          error := flags.epollerr || decide (result < 0) }
      generation := w.request.generation }⟩)

/-- The operation would block. -/
def retry (nowait : Bool) : Handle :=
  if nowait then { h with pc := .idle } else { h with pc := .scan nowait h.waiters }

def makeStale (e : Entry) : Entry :=
  { e with completion := { e.completion with
      result := -estale
      events := { e.completion.events with error := true } } }

end Handle

/-! ## Steps -/

inductive Call where
  | submit (request : Request)
  | cancel (id : ℕ) (malloc : Bool)
  | poll (nowait clock : Bool)
  | destroy
  deriving DecidableEq, Repr

inductive Wait where
  | timeout
  | interrupted (expired : Bool)
  | failed
  | event (index : ℕ) (flags : Flags)
  deriving DecidableEq, Repr

inductive IoResult where
  | done (value : ℕ)
  | again
  | failed (errno : ℕ)
  deriving DecidableEq, Repr

inductive Outcome where
  | nothing
  | add (calloc ctl : Bool)
  | wait (answer : Wait)
  | io (answer : IoResult)
  | track (calloc : Bool)
  | close (closed : Bool)
  deriving DecidableEq, Repr

inductive Label where
  | call (handle : ℕ) (call : Call)
  | advance (handle : ℕ) (outcome : Outcome)
  | track (fd : ℤ) (calloc : Bool)
  | close (fd : ℤ) (closed : Bool)
  deriving DecidableEq, Repr

namespace State

variable (s : State)

def setHandle (i : ℕ) (h : Handle) : State := { s with handles := Function.update s.handles i h }

def unregister (fd : ℤ) : State :=
  { s with handles := fun i => { s.handles i with
      registered := (s.handles i).registered.filter fun e => e.request.fd != fd } }

def close (fd : ℤ) (closed : Bool) : State :=
  match socketClose fd s.reg closed with
  | (.ok, reg) => { s with reg := reg }.unregister fd
  | (_, reg) => { s with reg := reg }

def track (fd : ℤ) (calloc : Bool) : State := { s with reg := (socketTrack fd s.reg calloc).2 }

def call (i : ℕ) : Call → State
  | .submit request =>
    { s.setHandle i ((s.handles i).submit s.reg s.next request) with next := s.next + 1 }
  | .cancel id malloc => s.setHandle i ((s.handles i).cancel id malloc)
  | .poll nowait clock => s.setHandle i ((s.handles i).poll nowait clock)
  | .destroy => s.setHandle i (s.handles i).destroy

def checkGeneration (i : ℕ) (w : Waiter) (generation : ℕ) : State :=
  let h := s.handles i
  if socketIsTracked w.request.fd s.reg = false ∨ generation = 0 then
    s.setHandle i (h.reject w.serial)
  else if w.request.generation ≠ 0 ∧ generation ≠ w.request.generation then
    s.setHandle i (h.reject w.serial)
  else if w.request.generation = 0 then
    s.setHandle i { h with
      pc := .tracked { w with request := { w.request with generation := generation } } }
  else s.setHandle i { h with pc := .tracked w }

def claim (i : ℕ) (w : Waiter) : State :=
  match socketClaim w.request.fd s.reg w.request.generation with
  | (.ok, reg) => { s.setHandle i { s.handles i with pc := .claimed w } with reg := reg }
  | (_, reg) => { s.setHandle i ((s.handles i).reject w.serial) with reg := reg }

def add (i : ℕ) (w : Waiter) (calloc ctl : Bool) : State :=
  let h := s.handles i
  if calloc = false ∨ ctl = false ∨ h.registered.any (fun e => e.request.fd == w.request.fd) then
    s.setHandle i { h with pc := .unclaim w }
  else s.setHandle i { h with
    registered := w :: h.registered
    waiters := w :: h.waiters
    accepted := w.serial :: h.accepted
    pc := .idle }

def release (w : Waiter) : State :=
  { s with reg := socketRelease w.request.fd s.reg w.request.generation }

def execute (i : ℕ) (nowait : Bool) (w : Waiter) (flags : Flags) (answer : IoResult) : State :=
  let h := s.handles i
  match w.request.op, answer with
  | .accept, .done fd => s.setHandle i { h with pc := .accepted w flags fd }
  | .accept, .again => s.setHandle i (h.retry nowait)
  | .accept, .failed errno => s.setHandle i (h.completeReady w flags (-errno))
  | .recv, .done n => s.setHandle i (h.completeReady w flags n)
  | .recv, .again => s.setHandle i (h.retry nowait)
  | .recv, .failed errno => s.setHandle i (h.completeReady w flags (-errno))
  | .send, .done n => s.setHandle i (h.completeReady w flags n)
  | .send, .again => s.setHandle i (h.retry nowait)
  | .send, .failed errno => s.setHandle i (h.completeReady w flags (-errno))
  -- `getsockopt`: `done` is the pending error of the socket
  | .connect, .done error => s.setHandle i (h.completeReady w flags (-error))
  | .connect, .again => s.setHandle i (h.completeReady w flags (-11))
  | .connect, .failed errno => s.setHandle i (h.completeReady w flags (-errno))
  | _, _ => s.setHandle i { h with pc := .idle }

def trackAccepted (i : ℕ) (w : Waiter) (flags : Flags) (fd : ℤ) (calloc : Bool) : State :=
  let h := s.handles i
  match socketTrack fd s.reg calloc with
  | (.ok, reg) => { s.setHandle i (h.completeReady w flags fd) with reg := reg }
  | (_, reg) =>
    -- `close(accepted_fd)`
    ({ s.setHandle i (h.completeReady w flags (-emfile)) with reg := reg }).unregister fd

def finish (i : ℕ) (e : Entry) : State :=
  let h := s.handles i
  if socketRequestIsStale e.completion.request s.reg then
    if e.completion.request.op = .accept ∧ 0 ≤ e.completion.result then
      s.setHandle i { h with pc := .closeAccepted e }
    else s.setHandle i (h.deliver (Handle.makeStale e))
  else s.setHandle i (h.deliver e)

def advance (i : ℕ) (outcome : Outcome) : Option State :=
  let h := s.handles i
  match h.pc, outcome with
  | .generation w generation, .nothing => some (s.checkGeneration i w generation)
  | .tracked w, .nothing => some (s.claim i w)
  | .claimed w, .add calloc ctl => some (s.add i w calloc ctl)
  | .unclaim w, .nothing => some ((s.release w).setHandle i (h.reject w.serial))
  | .release w .cancelled, .nothing => some ((s.release w).setHandle i { h with pc := .idle })
  | .release w (.polled e), .nothing => some ((s.release w).setHandle i { h with pc := .finish e })
  | .scan nowait (w :: rest), .nothing =>
    if socketRequestIsStale w.request s.reg then
      some (s.setHandle i (h.deleteWaiter w (.polled (Handle.staleEntry w))))
    else some (s.setHandle i { h with pc := .scan nowait rest })
  | .scan nowait [], .wait answer =>
    match answer with
    | .timeout => some (s.setHandle i { h with pc := .idle })
    | .interrupted expired => some (s.setHandle i (h.retry (nowait || expired)))
    | .failed => some (s.setHandle i { h with pc := .idle })
    | .event index flags =>
      (h.registered[index]?).map fun w => s.setHandle i { h with pc := .ready nowait w flags }
  | .ready nowait w flags, .nothing =>
    if socketRequestIsStale w.request s.reg then
      some (s.setHandle i (h.completeReady w flags (-estale)))
    else some (s.setHandle i { h with pc := .execute nowait w flags })
  | .execute nowait w flags, .io answer => some (s.execute i nowait w flags answer)
  | .accepted w flags fd, .track calloc => some (s.trackAccepted i w flags fd calloc)
  | .finish e, .nothing => some (s.finish i e)
  | .closeAccepted e, .close closed =>
    some ((s.close e.completion.result closed).setHandle i
      (((s.close e.completion.result closed).handles i).deliver (Handle.makeStale e)))
  | .destroy (w :: rest), .nothing => some ((s.release w).setHandle i { h with pc := .destroy rest })
  | .destroy [], .nothing => some (s.setHandle i { h with registered := [], pc := .closed })
  | _, _ => none

end State

def step (s : State) : Label → Option State
  | .call i c => if (s.handles i).pc = .idle then some (s.call i c) else none
  | .advance i outcome => s.advance i outcome
  | .track fd calloc => some (s.track fd calloc)
  | .close fd closed => some (s.close fd closed)

end Veloco.Net.Epoll
