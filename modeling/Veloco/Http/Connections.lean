import Veloco.Sched.Ends
import Veloco.Total

/-!
# Connection tasks (`src/http/http_connection.c`)
-/

namespace Veloco.Http

open Function
open Veloco.Sched (PId TaskId System Runtime Pc)

abbrev Socket := ℕ

structure Server where
  shutdownRequested : Bool := false
  activeConnections : ℕ := 0
  maxConnections : ℕ
  deriving DecidableEq, Repr

inductive Caller where
  | owner
  | worker (p : PId)
  | thread (n : ℕ)
  deriving DecidableEq, Repr

inductive SpawnPc where
  | shutdown
  | limit
  | calloc
  | fetchAdd
  | spawn
  | fetchSub
  deriving DecidableEq, Repr

structure SpawnCall where
  caller : Caller
  fd : Socket
  late : Bool
  pc : SpawnPc := .shutdown
  deriving DecidableEq, Repr

inductive Stage where
  | run
  | closed
  | left
  deriving DecidableEq, Repr

structure Connection where
  fd : Socket
  stage : Stage := .run
  deriving DecidableEq, Repr

def SpawnPc.allocated : SpawnPc → Bool
  | .fetchAdd | .spawn | .fetchSub => true
  | _ => false

def SpawnPc.added : SpawnPc → Bool
  | .spawn | .fetchSub => true
  | _ => false

def SpawnPc.passed : SpawnPc → Bool
  | .calloc | .fetchAdd => true
  | _ => false

structure State where
  sys : System
  server : Server
  calls : List SpawnCall := []
  answers : List (SpawnCall × Status) := []
  connections : TaskId → Option Connection := fun _ => none
  sockets : ℕ := 0
  active : Socket → Bool := fun _ => false
  closes : Socket → ℕ := fun _ => 0

namespace State

variable (s : State)

abbrev rt : Runtime := s.sys.rt

def connected (p : Connection → Bool) (t : TaskId) : Bool := (s.connections t).any p

def holding : ℕ :=
  Total.count (Finset.range s.rt.taskCount) (s.connected fun k => k.stage ≠ .left)

def records : ℕ := s.holding + s.calls.countP fun c => c.pc.allocated

def setActiveConnections (n : ℕ) : State :=
  { s with server := { s.server with activeConnections := n } }

def setConnection (t : TaskId) (k : Connection) : State :=
  { s with connections := update s.connections t (some k) }

@[simp] theorem setActiveConnections_activeConnections (n : ℕ) :
    (s.setActiveConnections n).server.activeConnections = n := rfl

@[simp] theorem setActiveConnections_maxConnections (n : ℕ) :
    (s.setActiveConnections n).server.maxConnections = s.server.maxConnections := rfl

@[simp] theorem setActiveConnections_calls (n : ℕ) : (s.setActiveConnections n).calls = s.calls := rfl

@[simp] theorem setConnection_server (t : TaskId) (k : Connection) :
    (s.setConnection t k).server = s.server := rfl

@[simp] theorem setConnection_calls (t : TaskId) (k : Connection) :
    (s.setConnection t k).calls = s.calls := rfl

def bodyOn (p : PId) : Option TaskId :=
  match (s.rt.ps p).pc with
  | .inTask t => if (s.rt.tasks t).point = .body then some t else none
  | _ => none

def outside (c : Caller) : Bool := s.calls.all fun call => call.caller ≠ c

/-! ## `vl_http_spawn_connection` -/

def vlSpawn (c : Caller) (ok : Bool) : Option Runtime :=
  let allowed := match c with
    | .owner => (s.rt.ps 0).pc = .off
    | .worker p => (s.bodyOn p).isSome
    | .thread _ => false
  if allowed && ok then s.rt.spawn else none

inductive Next where
  | goto (pc : SpawnPc)
  | ret (status : Status)

def spawnConnection (call : SpawnCall) (ok : Bool) : State × Next :=
  match call.pc with
  | .shutdown => (s, if s.server.shutdownRequested then .ret .closed else .goto .limit)
  | .limit =>
    (s, if s.server.activeConnections ≥ s.server.maxConnections then .ret .closed
      else .goto .calloc)
  | .calloc => (s, if ok ∧ s.records < Word.sizeMax then .goto .fetchAdd else .ret .outOfMemory)
  | .fetchAdd =>
    (s.setActiveConnections (Word.add s.server.activeConnections 1), .goto .spawn)
  | .spawn =>
    match s.vlSpawn call.caller ok with
    | some r =>
      ({ s with sys := { s.sys with rt := r } }.setConnection s.rt.taskCount { fd := call.fd },
        .ret .ok)
    | none => (s, .goto .fetchSub)
  | .fetchSub =>
    (s.setActiveConnections (Word.sub s.server.activeConnections 1), .ret .invalidState)

def nextOperation (i : ℕ) (ok : Bool) : Option State :=
  match s.calls[i]? with
  | none => none
  | some call =>
    match s.spawnConnection call ok with
    | (s', .goto pc) => some { s' with calls := s.calls.set i { call with pc := pc } }
    | (s', .ret status) =>
      some { s' with calls := s.calls.eraseIdx i, answers := s.answers ++ [(call, status)] }

def canCall : Caller → Bool
  | .owner => (s.rt.ps 0).pc = .off || (s.rt.ps 0).pc = .exited
  | .worker p =>
    match s.bodyOn p with
    | some t => (s.connections t).all fun k => k.stage = .run
    | none => false
  | .thread _ => true

/-! ## `vl_http_connection_task` -/

def socketClose (fd : Socket) (ok : Bool) : State :=
  if s.active fd && ok then
    { s with
      active := update s.active fd false
      closes := update s.closes fd (s.closes fd + 1) }
  else s

def connectionOn (p : PId) : Option (TaskId × Connection) :=
  if s.outside (.worker p) then (s.bodyOn p).bind fun t => (s.connections t).map fun k => (t, k)
  else none

def closeFd (p : PId) (ok : Bool) : Option State :=
  match s.connectionOn p with
  | some (t, k) =>
    if k.stage = .run then some ((s.socketClose k.fd ok).setConnection t { k with stage := .closed })
    else none
  | none => none

def leave (p : PId) : Option State :=
  match s.connectionOn p with
  | some (t, k) =>
    if k.stage = .closed then
      some ((s.setActiveConnections (Word.sub s.server.activeConnections 1)).setConnection t
        { k with stage := .left })
    else none
  | none => none

def allows : Sched.Action → Bool
  | .call p c => s.outside (.worker p) && (s.bodyOn p).all fun t =>
      (s.connections t).all fun k => k.stage = if c = .finish then .left else .run
  | .owner _ => s.outside .owner
  | _ => true

end State

inductive Action where
  | sched (a : Sched.Action)
  | accept
  | requestShutdown
  | enter (c : Caller) (fd : Socket)
  | next (i : ℕ) (ok : Bool)
  | closeFd (p : PId) (ok : Bool)
  | leave (p : PId)
  deriving DecidableEq, Repr

def step (s : State) : Action → Option State
  | .sched a =>
    if s.allows a then (Sched.step s.sys a).map fun sys => { s with sys := sys } else none
  | .accept =>
    some { s with sockets := s.sockets + 1, active := update s.active s.sockets true }
  | .requestShutdown => some { s with server := { s.server with shutdownRequested := true } }
  | .enter c fd =>
    if s.canCall c && s.outside c then
      some { s with calls := s.calls ++ [⟨c, fd, s.server.shutdownRequested, .shutdown⟩] }
    else none
  | .next i ok => s.nextOperation i ok
  | .closeFd p ok => s.closeFd p ok
  | .leave p => s.leave p

structure Initial (workerCount maxConnections : ℕ) (s : State) : Prop where
  sys : Sched.Initial workerCount s.sys
  eq : s = { sys := s.sys, server := { maxConnections := maxConnections } }

end Veloco.Http
