import Veloco.Memory.Valloc

/-!
# Arenas and pools (`src/memory/arena.c`, `src/memory/object_pool.c`)
-/

namespace Veloco.Memory

open Veloco.Word

/-! ## Arenas -/

def arenaDefaultBlockSize : ℕ := 64 * 1024

structure ArenaBlock where
  base : ℕ
  mappingSize : ℕ
  capacity : ℕ
  used : ℕ
  deriving DecidableEq, Repr

structure ArenaImpl where
  blockSize : ℕ
  blocks : List ArenaBlock
  deriving DecidableEq, Repr

def arenaNewBlock (M : Platform) (x : Env) (minimumCapacity : ℕ) (impl : ArenaImpl) (s : State) :
    Option ArenaImpl × State :=
  let capacity := if impl.blockSize > minimumCapacity then impl.blockSize else minimumCapacity
  if capacity > sizeMax - (s.pageSize - 1) then (none, s)
  else
    let objectPages := (capacity + s.pageSize - 1) / s.pageSize
    if objectPages = 0 ∨ objectPages = sizeMax then (none, s)
    else
      match pageHeapAcquire M x (objectPages + 1) s with
      | (none, s) => (none, s)
      | (some ⟨block, mappingSize⟩, s) =>
        (some { impl with
          blocks := ⟨block, mappingSize, mappingSize - s.pageSize, 0⟩ :: impl.blocks }, s)

def arenaReleaseHeadBlock (x : Env) (impl : ArenaImpl) (s : State) : ArenaImpl × State :=
  match impl.blocks with
  | [] => (impl, s)
  | block :: rest =>
    ({ impl with blocks := rest }, pageHeapRelease x block.base block.mappingSize s)

def arenaOffset (base used align : ℕ) : Option ℕ :=
  if used > sizeMax - base then none
  else
    let current := base + used
    if current > sizeMax - (align - 1) then none
    else some (((current + align - 1) &&& (modulus - align)) - base)

def ArenaBlock.fits (block : ArenaBlock) (offset size : ℕ) : Bool :=
  decide (offset ≤ block.capacity) && decide (size ≤ block.capacity - offset)

/-- The end of `vl_arena_alloc`. -/
def arenaTake (offset size : ℕ) (impl : ArenaImpl) (s : State) : ℕ × ArenaImpl × State :=
  match impl.blocks with
  | [] => (0, impl, s)
  | block :: rest =>
    (block.base + s.pageSize + offset,
      { impl with blocks := { block with used := offset + size } :: rest }, s)

def arenaGrow (M : Platform) (x : Env) (size align : ℕ) (impl : ArenaImpl) (s : State) :
    ℕ × ArenaImpl × State :=
  if size > sizeMax - align then (0, impl, s)
  else
    match arenaNewBlock M x (size + align) impl s with
    | (none, s) => (0, impl, s)
    | (some impl, s) =>
      match impl.blocks with
      | [] => (0, impl, s)
      | block :: _ =>
        match arenaOffset (block.base + s.pageSize) 0 align with
        | none => (0, arenaReleaseHeadBlock x impl s)
        | some offset =>
          if block.fits offset size then arenaTake offset size impl s
          else (0, arenaReleaseHeadBlock x impl s)

def arenaServe (M : Platform) (x : Env) (size align : ℕ) (fresh : Bool) (impl : ArenaImpl)
    (s : State) : ℕ × ArenaImpl × State :=
  match impl.blocks with
  | [] => (0, impl, s)
  | block :: _ =>
    match arenaOffset (block.base + s.pageSize) block.used align with
    | none => if fresh then (0, arenaReleaseHeadBlock x impl s) else (0, impl, s)
    | some offset =>
      if block.fits offset size then arenaTake offset size impl s
      else arenaGrow M x size align impl s

def arenaAlloc (M : Platform) (x y : Env) (size align : ℕ) (impl : ArenaImpl) (s : State) :
    ℕ × ArenaImpl × State :=
  if size = 0 ∨ isPowerOfTwo align = false then (0, impl, s)
  else
    match memoryEnsureInitialized M s with
    | (.ok, s) =>
      match impl.blocks with
      | _ :: _ => arenaServe M x size align false impl s
      | [] =>
        if size > sizeMax - align then (0, impl, s)
        else
          match arenaNewBlock M x (size + align) impl s with
          | (none, s) => (0, impl, s)
          | (some impl, s) => arenaServe M y size align true impl s
    | (_, s) => (0, impl, s)

/-- The loop of `vl_arena_reset`. -/
def arenaReleaseBlocks (x : Env) : List ArenaBlock → State → State
  | [], s => s
  | block :: rest, s => arenaReleaseBlocks x rest (pageHeapRelease x block.base block.mappingSize s)

def arenaReset (x : Env) (impl : ArenaImpl) (s : State) : ArenaImpl × State :=
  if s.initialized = false then (impl, s)
  else ({ impl with blocks := [] }, arenaReleaseBlocks x impl.blocks s)

/-! ## Pools -/

structure PoolItem where
  object : ℕ
  active : Bool
  deriving DecidableEq, Repr

structure PoolImpl where
  objectSize : ℕ
  items : List PoolItem
  deriving DecidableEq, Repr

/-- The search of `vl_pool_alloc`. -/
def poolReuse : List PoolItem → Option (ℕ × List PoolItem)
  | [] => none
  | item :: rest =>
    if item.active = false then some (item.object, { item with active := true } :: rest)
    else (poolReuse rest).map fun r => (r.1, item :: r.2)

def poolAlloc (M : Platform) (x : Env) (allocOk : Bool) (impl : PoolImpl) (s : State) :
    ℕ × PoolImpl × State :=
  match memoryEnsureInitialized M s with
  | (.ok, s) =>
    match poolReuse impl.items with
    | some (object, items) => (object, { impl with items := items }, s)
    | none =>
      if allocOk = false then (0, impl, s)
      else
        match malloc M x impl.objectSize s with
        | (0, s) => (0, impl, s)
        | (object + 1, s) =>
          (object + 1, { impl with items := ⟨object + 1, true⟩ :: impl.items },
            s.gain (object + 1) impl.objectSize)
  | (_, s) => (0, impl, s)

/-- The search of `vl_pool_free`. -/
def poolRetire (ptr : ℕ) : List PoolItem → Status × Option (List PoolItem)
  | [] => (.invalidArgument, some [])
  | item :: rest =>
    if item.object = ptr then
      if item.active = false then (.invalidState, none)
      else (.ok, some ({ item with active := false } :: rest))
    else ((poolRetire ptr rest).1, (poolRetire ptr rest).2.map (item :: ·))

def poolFree (M : Platform) (ptr : ℕ) (impl : PoolImpl) (s : State) : Status × PoolImpl × State :=
  if ptr = 0 then (.invalidArgument, impl, s)
  else if s.initialized = false then (.invalidState, impl, s)
  else
    match poolRetire ptr impl.items with
    | (status, some items) => (status, { impl with items := items }, s)
    | (status, none) => (status, impl, debugAbort M s)

/-- The loop of `vl_pool_destroy`. -/
def poolFreeItems (M : Platform) (x : Env) : List PoolItem → State → State
  | [], s => s
  | item :: rest, s =>
    poolFreeItems M x rest ((free M x item.object s).drop item.object)

/-! ## The clients -/

structure Heap where
  mem : State
  arenas : List (Option ArenaImpl)
  pools : List (Option PoolImpl)

def Heap.initial (arenas pools : ℕ) : Heap :=
  ⟨State.initial, List.replicate arenas none, List.replicate pools none⟩

def Heap.arenaBlocks (h : Heap) : List ArenaBlock :=
  h.arenas.flatMap fun impl => (impl.map ArenaImpl.blocks).getD []

def Heap.poolItems (h : Heap) : List PoolItem :=
  h.pools.flatMap fun impl => (impl.map PoolImpl.items).getD []

/-- What a thread does next. -/
inductive Op where
  | call (c : Call)
  | arenaInit (i blockSize : ℕ) (allocOk : Bool)
  | arenaAlloc (i size align : ℕ) (again : Option ℕ)
  | arenaReset (i : ℕ)
  | arenaDestroy (i : ℕ)
  | poolInit (i objectSize : ℕ) (allocOk : Bool)
  | poolAlloc (i : ℕ) (allocOk : Bool)
  | poolFree (i ptr : ℕ)
  | poolDestroy (i : ℕ)

namespace Heap

variable (M : Platform) (x : Env) (h : Heap)

def setArena (i : ℕ) (impl : Option ArenaImpl) : Heap := { h with arenas := h.arenas.set i impl }

def setPool (i : ℕ) (impl : Option PoolImpl) : Heap := { h with pools := h.pools.set i impl }

/-- `arena->impl`. -/
def arena (i : ℕ) : Option ArenaImpl := (h.arenas[i]?).join

/-- `pool->impl`. -/
def pool (i : ℕ) : Option PoolImpl := (h.pools[i]?).join

def arenaInit (i blockSize : ℕ) (allocOk : Bool) : Status × Heap :=
  if h.arenas.length ≤ i ∨ h.arena i ≠ none then (.invalidArgument, h)
  else
    match memoryEnsureInitialized M h.mem with
    | (.ok, s) =>
      let blockSize := if blockSize = 0 then arenaDefaultBlockSize else blockSize
      let h := { h with mem := s }
      if blockSize > sizeMax - s.pageSize then (.invalidArgument, h)
      else if allocOk = false then (.outOfMemory, h)
      else (.ok, h.setArena i (some ⟨blockSize, []⟩))
    | (_, s) => (.invalidState, { h with mem := s })

def arenaAlloc (i size align : ℕ) (again : Option ℕ) : ℕ × Heap :=
  match h.arena i with
  | none => (0, h)
  | some impl =>
    let (ptr, impl, s) :=
      Memory.arenaAlloc M x { x with mmap := again } size align impl h.mem
    (ptr, { h with mem := s }.setArena i (some impl))

def arenaReset (i : ℕ) : Heap :=
  match h.arena i with
  | none => h
  | some impl =>
    let (impl, s) := Memory.arenaReset x impl h.mem
    { h with mem := s }.setArena i (some impl)

def arenaDestroy (i : ℕ) : Heap :=
  if h.mem.initialized = false then h else (h.arenaReset x i).setArena i none

def poolInit (i objectSize : ℕ) (allocOk : Bool) : Status × Heap :=
  if h.pools.length ≤ i ∨ h.pool i ≠ none ∨ objectSize = 0 then (.invalidArgument, h)
  else
    match memoryEnsureInitialized M h.mem with
    | (.ok, s) =>
      let h := { h with mem := s }
      if allocOk = false then (.outOfMemory, h) else (.ok, h.setPool i (some ⟨objectSize, []⟩))
    | (_, s) => (.invalidState, { h with mem := s })

def poolAlloc (i : ℕ) (allocOk : Bool) : ℕ × Heap :=
  match h.pool i with
  | none => (0, h)
  | some impl =>
    let (ptr, impl, s) := Memory.poolAlloc M x allocOk impl h.mem
    (ptr, { h with mem := s }.setPool i (some impl))

def poolFree (i ptr : ℕ) : Status × Heap :=
  match h.pool i with
  | none => (if ptr = 0 ∨ h.pools.length ≤ i then .invalidArgument else .invalidState, h)
  | some impl =>
    let (status, impl, s) := Memory.poolFree M ptr impl h.mem
    (status, { h with mem := s }.setPool i (some impl))

def poolDestroy (i : ℕ) : Heap :=
  if h.mem.initialized = false then h
  else
    match h.pool i with
    | none => h
    | some impl => { h with mem := poolFreeItems M x impl.items h.mem }.setPool i none

def unpooled (ptr : ℕ) : Bool := h.poolItems.all fun item => item.object != ptr

def valid : Op → Bool
  | .call (.free ptr) | .call (.realloc ptr _) => h.unpooled ptr
  | .poolFree _ ptr => h.poolItems.all fun item => item.object != ptr || item.active
  | .arenaInit _ blockSize _ => blockSize < modulus
  | .arenaAlloc _ size align _ => size < modulus && align < modulus
  | .poolInit _ objectSize _ => objectSize < modulus
  | _ => true

def step : Env × Op → Option Heap
  | (x, op) =>
    if h.valid op = false then none
    else
      match op with
      | .call c => (Memory.step M h.mem (x, c)).map fun s => { h with mem := s }
      | .arenaInit i blockSize allocOk => some (h.arenaInit M i blockSize allocOk).2
      | .arenaAlloc i size align again => some (h.arenaAlloc M x i size align again).2
      | .arenaReset i => some (h.arenaReset x i)
      | .arenaDestroy i => some (h.arenaDestroy x i)
      | .poolInit i objectSize allocOk => some (h.poolInit M i objectSize allocOk).2
      | .poolAlloc i allocOk => some (h.poolAlloc M x i allocOk).2
      | .poolFree i ptr => some (h.poolFree M i ptr).2
      | .poolDestroy i => some (h.poolDestroy M x i)

end Heap

end Veloco.Memory
