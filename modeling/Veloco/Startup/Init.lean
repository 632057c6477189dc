import Veloco.Memory.Valloc

/-!
# `vl_runtime_init_with_config` (`src/runtime/scheduler.c`)
-/

namespace Veloco.Startup

open Function

def runtimeMaxWorkers : ℕ := 64

def runtimeDefaultTaskStackSize : ℕ := 64 * 1024

def runtimeDefaultWorkerCount : ℕ := 1

structure Config where
  taskStackSize : ℕ
  workerCount : ℕ
  deriving DecidableEq, Repr

structure P where
  eventFd : ℤ := 0
  threadStarted : Bool := false
  initStatus : Status := .ok
  fiberSched : Bool := false
  deriving DecidableEq, Repr

structure Impl where
  hasPs : Bool := false
  ps : ℕ → P := fun _ => {}
  workerCount : ℕ := 0
  taskStackSize : ℕ := 0
  stopWorkers : Bool := false

inductive Event where
  | created (fd : ℕ)
  | wrote (fd : ℕ)
  | closed (fd : ℕ)
  | started (p : ℕ)
  | joined (p : ℕ)
  deriving DecidableEq, Repr

structure World where
  memory : Memory.State
  isOpen : ℕ → Bool
  threadSched : Bool
  events : List Event := []

structure Answers where
  memory : Memory.Env
  callocImpl : Bool
  mutexInit : Bool
  condInit : Bool
  callocPs : Bool
  runQueue : ℕ → Bool
  eventfd : ℕ → Option ℕ
  fiberSched : ℕ → Bool
  pthreadCreate : ℕ → Bool

/-! ## Unwinding -/

def World.write (w : World) (fd : ℤ) : World :=
  if 0 ≤ fd ∧ w.isOpen fd.toNat = true then { w with events := w.events ++ [.wrote fd.toNat] }
  else w

def World.close (w : World) (fd : ℤ) : World :=
  if 0 ≤ fd ∧ w.isOpen fd.toNat = true then
    { w with
      isOpen := update w.isOpen fd.toNat false
      events := w.events ++ [.closed fd.toNat] }
  else w

def wakeLoop (impl : Impl) : ℕ → World → World
  | 0, w => w
  | n + 1, w => (wakeLoop impl n w).write (impl.ps n).eventFd

def runtimeWakeWorkers (impl : Impl) (w : World) : World :=
  if impl.hasPs = false then w else wakeLoop impl impl.workerCount w

def Impl.setP (impl : Impl) (index : ℕ) (p : P) : Impl :=
  { impl with ps := update impl.ps index p }

def workerStop (index : ℕ) (s : Impl × World) : Impl × World :=
  if (s.1.ps index).threadStarted = false then s
  else (s.1.setP index { s.1.ps index with threadStarted := false },
    { s.2 with events := s.2.events ++ [.joined index] })

def stopLoop : ℕ → Impl × World → Impl × World
  | 0, s => s
  | n + 1, s =>
    let s := stopLoop n s
    if 0 < n ∧ (s.1.ps n).threadStarted = true then workerStop n s else s

def closeLoop (impl : Impl) : ℕ → World → World
  | 0, w => w
  | n + 1, w =>
    let w := closeLoop impl n w
    if 0 ≤ (impl.ps n).eventFd then w.close (impl.ps n).eventFd else w

def runtimeCleanupPartial (impl : Impl) (initializedPs : ℕ) (w : World) : World :=
  let impl := { impl with stopWorkers := true }
  let w := runtimeWakeWorkers impl w
  let (impl, w) := stopLoop initializedPs (impl, w)
  let w := if initializedPs ≠ 0 ∧ (impl.ps 0).fiberSched = true then
    { w with threadSched := false } else w
  closeLoop impl initializedPs w

/-! ## Setting up -/

abbrev Failed := Status × ℕ × Impl × World

def startWorker (x : Answers) (index : ℕ) (p : P) (impl : Impl) (w : World) :
    Except Failed (Impl × World) :=
  if index = 0 then
    if w.threadSched = true ∨ x.fiberSched 0 = false then
      .error (.system, index + 1, impl.setP index p, w)
    else
      .ok (impl.setP index { p with fiberSched := true, initStatus := .ok },
        { w with threadSched := true })
  else if x.pthreadCreate index = false then
    .error (.system, index + 1, impl.setP index p, w)
  else
    .ok (impl.setP index { p with threadStarted := true },
      { w with events := w.events ++ [.started index] })

def startP (x : Answers) (index : ℕ) (impl : Impl) (w : World) : Except Failed (Impl × World) :=
  let p := { impl.ps index with eventFd := -1, initStatus := .system }
  if x.runQueue index = false then .error (.outOfMemory, index, impl.setP index p, w)
  else
    match x.eventfd index with
    | none => .error (.system, index + 1, impl.setP index p, w)
    | some fd => startWorker x index { p with eventFd := fd } impl
        { w with
          isOpen := update w.isOpen fd true
          events := w.events ++ [.created fd] }

def startPs (x : Answers) : ℕ → Impl → World → Except Failed (Impl × World)
  | 0, impl, w => .ok (impl, w)
  | n + 1, impl, w => (startPs x n impl w).bind fun s => startP x n s.1 s.2

def workersReport (x : Answers) (impl : Impl) : Impl :=
  { impl with ps := fun i =>
      if 0 < i ∧ i < impl.workerCount then
        { impl.ps i with initStatus := if x.fiberSched i then .ok else .system }
      else impl.ps i }

def Impl.workerFailed (impl : Impl) : Bool :=
  (List.range impl.workerCount).any fun i =>
    decide (0 < i) && decide ((impl.ps i).initStatus ≠ .ok)

def workerCountOf (config : Option Config) : ℕ :=
  match config with
  | some c => if c.workerCount ≠ 0 then c.workerCount else runtimeDefaultWorkerCount
  | none => runtimeDefaultWorkerCount

def stackSizeOf (config : Option Config) : ℕ :=
  match config with
  | some c => if c.taskStackSize ≠ 0 then c.taskStackSize else runtimeDefaultTaskStackSize
  | none => runtimeDefaultTaskStackSize

abbrev RuntimePtr := Option (Option Impl)

def accepted (runtime : RuntimePtr) (config : Option Config) : Bool :=
  match runtime with
  | some none => decide (workerCountOf config ≠ 0 ∧ workerCountOf config ≤ runtimeMaxWorkers)
  | _ => false

def failed (x : Answers) (status : Status) (w : World) : Except Status Impl × World :=
  (.error status, { w with memory := Memory.allocatorShutdown x.memory w.memory })

def newImpl (config : Option Config) : Impl where
  hasPs := true
  workerCount := workerCountOf config
  taskStackSize := stackSizeOf config

def setUp (x : Answers) (config : Option Config) (w : World) : Except Status Impl × World :=
  match startPs x (workerCountOf config) (newImpl config) w with
  | .error (status, n, impl, w) => failed x status (runtimeCleanupPartial impl n w)
  | .ok (impl, w) =>
    let impl := workersReport x impl
    if impl.workerFailed = true then
      failed x .system (runtimeCleanupPartial impl (workerCountOf config) w)
    else (.ok impl, w)

def runtimeInitWithConfig (plat : Memory.Platform) (x : Answers) (runtime : RuntimePtr)
    (config : Option Config) (w : World) : Except Status Impl × World :=
  if accepted runtime config = false then (.error .invalidArgument, w)
  else
    match Memory.allocatorInit plat w.memory with
    | (.ok, memory) =>
      let w := { w with memory := memory }
      if x.callocImpl = false then failed x .outOfMemory w
      else if x.mutexInit = false then failed x .system w
      else if x.condInit = false then failed x .system w
      else if x.callocPs = false then failed x .outOfMemory (runtimeCleanupPartial {} 0 w)
      else setUp x config w
    | (_, memory) => (.error .invalidState, { w with memory := memory })

end Veloco.Startup
