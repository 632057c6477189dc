import Veloco.Memory.Span
import Veloco.Trans

/-!
# The allocator (`src/memory/valloc.c`, `src/memory/debug_allocator.c`)
-/

namespace Veloco.Memory

open Veloco.Bytes Veloco.Word

/-! ## Debug checks -/

def debugAbort (M : Platform) (s : State) : State :=
  if M.debug then { s with aborted := true } else s

def debugPrepare (M : Platform) (header user : ℕ) (s : State) : State :=
  if M.debug then
    let canary := user + (s.headers header).requestedSize
    let s := s.setHeader header { s.headers header with prefixCanary := debugCanary }
    s.overwrite M canary 8 (store s.bytes canary 8 debugCanary)
  else s

def debugValidate (M : Platform) (header user : ℕ) (s : State) : Bool × State :=
  if M.debug then
    let hd := s.headers header
    if hd.magic ≠ objectMagic ∨ hd.prefixCanary ≠ debugCanary ∨ hd.state ≠ .allocated then
      (false, debugAbort M s)
    else if load s.bytes (user + hd.requestedSize) 8 ≠ debugCanary then (false, debugAbort M s)
    else (true, s)
  else (true, s)

def poison (M : Platform) (user capacity : ℕ) (s : State) : State :=
  if M.debug then s.overwrite M user capacity (fill s.bytes user capacity debugPoison) else s

/-! ## Initialisation -/

def allocatorInit (M : Platform) (s : State) : Status × State :=
  if s.initialized then (.ok, s)
  else if isPowerOfTwo M.pageSize = false then (.system, s)
  else (.ok, { s with
    initialized := true
    pageSize := M.pageSize
    stats := default
    bins := fun _ => default
    central := fun _ => []
    allSpans := []
    largeAllocations := [] })

def allocatorShutdown (x : Env) (s : State) : State :=
  if s.initialized = false then s
  else
    let s := s.allSpans.foldl (fun s a =>
      pageHeapRelease x (s.spans a).mappingBase (s.spans a).mappingSize s) s
    let s := s.largeAllocations.foldl (fun s h =>
      pageHeapRelease x (s.headers h).mappingBase (s.headers h).mappingSize s) s
    { s with
      initialized := false
      pageSize := 0
      stats := default
      bins := fun _ => default
      central := fun _ => []
      allSpans := []
      largeAllocations := [] }

def memoryEnsureInitialized (M : Platform) (s : State) : Status × State :=
  if s.initialized then (.ok, s) else allocatorInit M s

def statsCanAllocate (size : ℕ) (s : State) : Bool :=
  s.stats.activeBytes ≤ sizeMax - size && s.stats.activeObjects != sizeMax

def State.countAllocation (s : State) (size : ℕ) : State :=
  { s with stats := { s.stats with
      activeBytes := add s.stats.activeBytes size
      activeObjects := add s.stats.activeObjects 1 } }

/-! ## Caches -/

def binPush (M : Platform) (b : Bin) (user : ℕ) (s : State) : State :=
  let s := s.setLink M user (s.bins b).head
  s.setBin b ⟨user, add (s.bins b).count 1⟩

def binPop (b : Bin) (s : State) : State :=
  s.setBin b ⟨s.link (s.bins b).head, sub (s.bins b).count 1⟩

def findRefillSpan (k : ℕ) (s : State) : Option ℕ :=
  (s.central k).find? fun a => (s.spans a).centralFree != 0

/-- `vl_refill_cache`, first loop: objects of the remote queue. -/
def refillRemote (M : Platform) (p k : ℕ) : ℕ → ℕ → State → ℕ × State
  | 0, count, s => (count, s)
  | n + 1, count, s =>
    let user := (s.bins (.remote p k)).head
    if user = 0 then (count, s)
    else refillRemote M p k n (count + 1)
      (binPush M (.cache p k) user (binPop (.remote p k) s))

/-- Its second loop: objects of one span. -/
def refillCentral (M : Platform) (p k span : ℕ) : ℕ → ℕ → State → ℕ × State
  | 0, count, s => (count, s)
  | n + 1, count, s =>
    if (s.spans span).centralFree = 0 then (count, s)
    else
      let (user, s) := spanTakeCentral span s
      refillCentral M p k span n (count + 1) (binPush M (.cache p k) user s)

/-- The end of `vl_refill_cache`. -/
def refillFromSpan (M : Platform) (p k span count : ℕ) (s : State) : Status × State :=
  match refillCentral M p k span (cacheRefill - count) count s with
  | (0, s) => (.outOfMemory, s)
  | (_ + 1, s) =>
    (.ok, { s with stats := { s.stats with centralRefills := add s.stats.centralRefills 1 } })

def refillCache (M : Platform) (x : Env) (k : ℕ) (s : State) : Status × State :=
  let p := memoryCurrentP x
  let found := findRefillSpan k s
  let (count, s) := refillRemote M p k cacheRefill 0 s
  if count = cacheRefill then (.ok, s)
  else
    match found with
    | some span => refillFromSpan M p k span count s
    | none =>
      match spanCreate M x k s with
      | (.error _, s) => (.outOfMemory, s)
      | (.ok span, s) => refillFromSpan M p k span count s

def cacheTake (M : Platform) (b : Bin) (s : State) : ℕ × State :=
  let user := (s.bins b).head
  let s := binPop b s
  let span := (s.headers (user - M.headerSize)).span
  let sp := s.spans span
  (user, s.setSpan span { sp with
    cachedCount := sub sp.cachedCount 1
    freeCount := sub sp.freeCount 1
    activeCount := add sp.activeCount 1 })

def cachePop (M : Platform) (x : Env) (k : ℕ) (s : State) : ℕ × State :=
  let b := Bin.cache (memoryCurrentP x) k
  if (s.bins b).head = 0 then
    match refillCache M x k s with
    | (.ok, s) => cacheTake M b s
    | (_, s) => (0, s)
  else cacheTake M b s

def drainOne (M : Platform) (x : Env) (b : Bin) (s : State) : State :=
  let user := (s.bins b).head
  let span := (s.headers (user - M.headerSize)).span
  spanReclaimIfEmpty x span (spanMoveToCentral M span user (binPop b s))

/-- `vl_drain_cache`: back to the spans. -/
def drainLoop (M : Platform) (x : Env) (b : Bin) : ℕ → State → State
  | 0, s => s
  | n + 1, s => if (s.bins b).head = 0 then s else drainLoop M x b n (drainOne M x b s)

def drainCache (M : Platform) (x : Env) (k : ℕ) (s : State) : State :=
  drainLoop M x (.cache (memoryCurrentP x) k) cacheRefill s

def pushBin (x : Env) (ownerP k : ℕ) : Bin :=
  let ownerP := if ownerP < memoryMaxP then ownerP else 0
  if memoryCurrentP x ≠ ownerP then .remote ownerP k else .cache ownerP k

def countCrossPFree (b : Bin) (s : State) : State :=
  match b with
  | .remote _ _ => { s with stats := { s.stats with crossPFrees := add s.stats.crossPFrees 1 } }
  | .cache _ _ => s

def cacheLink (M : Platform) (b : Bin) (header user : ℕ) (s : State) : State :=
  let s := binPush M b user s
  let span := (s.headers header).span
  let sp := s.spans span
  s.setSpan span { sp with
    cachedCount := add sp.cachedCount 1
    freeCount := add sp.freeCount 1
    activeCount := sub sp.activeCount 1 }

def cacheGive (M : Platform) (b : Bin) (header user : ℕ) (s : State) : State :=
  cacheLink M b header user
    (poison M user (s.headers header).capacity (countCrossPFree b s))

def cachePush (M : Platform) (x : Env) (header user : ℕ) (s : State) : State :=
  let hd := s.headers header
  let b := pushBin x hd.ownerP (s.spans hd.span).classIndex
  let s := cacheGive M b header user s
  if (s.bins b).count > cacheMax then
    drainCache M x (s.spans (s.headers header).span).classIndex s
  else s

/-! ## Allocation -/

def initializeHeader (x : Env) (header : ℕ) (kind : ObjectKind) (capacity requested span
    mappingBase mappingSize : ℕ) (s : State) : State :=
  s.setHeader header { s.headers header with
    magic := objectMagic
    kind := kind
    state := .allocated
    requestedSize := requested
    capacity := capacity
    span := span
    mappingBase := mappingBase
    mappingSize := mappingSize
    ownerP := if span ≠ 0 then (s.spans span).ownerP else memoryCurrentP x }

def largeInsert (header : ℕ) (s : State) : State :=
  { s with largeAllocations := header :: s.largeAllocations }

def largeRemove (header : ℕ) (s : State) : State :=
  { s with largeAllocations := s.largeAllocations.erase header }

def mallocLarge (M : Platform) (x : Env) (size : ℕ) (s : State) : ℕ × State :=
  if size > sizeMax - M.headerSize - M.suffixSize then (0, s)
  else
    let bytes := M.headerSize + size + M.suffixSize
    if bytes > sizeMax - (s.pageSize - 1) then (0, s)
    else
      let pages := (bytes + s.pageSize - 1) / s.pageSize
      if pages = 0 then (0, s)
      else
        match pageHeapAcquire M x pages s with
        | (none, s) => (0, s)
        | (some ⟨header, mappingSize⟩, s) =>
          let user := header + M.headerSize
          let s := initializeHeader x header .large size size 0 header mappingSize s
          let s := largeInsert header s
          let s := s.countAllocation size
          (user, debugPrepare M header user s)

def mallocFinish (M : Platform) (x : Env) (k size user : ℕ) (s : State) : State :=
  let header := user - M.headerSize
  let s := initializeHeader x header .small (sizeClassCapacity k) size (s.headers header).span 0 0 s
  debugPrepare M header user (s.countAllocation size)

def countCacheHit (x : Env) (k : ℕ) (s : State) : State :=
  if (s.bins (.cache (memoryCurrentP x) k)).head ≠ 0 ∨
      (s.bins (.remote (memoryCurrentP x) k)).head ≠ 0 then
    { s with stats := { s.stats with cacheHits := add s.stats.cacheHits 1 } }
  else s

/-- `vl_malloc` under the lock. -/
def mallocLocked (M : Platform) (x : Env) (size : ℕ) (s : State) : ℕ × State :=
  if statsCanAllocate size s = false then (0, s)
  else
    let k := sizeClassIndex size
    if sizeClassCount ≤ k then mallocLarge M x size s
    else
      match cachePop M x k (countCacheHit x k s) with
      | (0, s) => (0, s)
      | (user + 1, s) => (user + 1, mallocFinish M x k size (user + 1) s)

def requestSize (size : ℕ) : ℕ := if size = 0 then 1 else size

def malloc (M : Platform) (x : Env) (size : ℕ) (s : State) : ℕ × State :=
  match memoryEnsureInitialized M s with
  | (.ok, s) => mallocLocked M x (requestSize size) s
  | (_, s) => (0, s)

def markFree (header : ℕ) (s : State) : State :=
  { s.setHeader header { s.headers header with state := .free } with
    stats := { s.stats with
      activeBytes := sub s.stats.activeBytes (s.headers header).requestedSize
      activeObjects := sub s.stats.activeObjects 1 } }

def freeChecked (M : Platform) (x : Env) (ptr : ℕ) (s : State) : State :=
  let header := ptr - M.headerSize
  let hd := s.headers header
  match hd.kind with
  | .large =>
    pageHeapRelease x hd.mappingBase hd.mappingSize (largeRemove header (markFree header s))
  | .small => cachePush M x header ptr (markFree header s)

def free (M : Platform) (x : Env) (ptr : ℕ) (s : State) : State :=
  if ptr = 0 ∨ s.initialized = false then s
  else
    let header := ptr - M.headerSize
    let hd := s.headers header
    if hd.magic ≠ objectMagic ∨ hd.state ≠ .allocated then debugAbort M s
    else
      match debugValidate M header ptr s with
      | (false, s) => s
      | (true, s) =>
        if s.stats.activeObjects = 0 ∨ s.stats.activeBytes < hd.requestedSize then
          debugAbort M s
        else freeChecked M x ptr s

def calloc (M : Platform) (x : Env) (count size : ℕ) (s : State) : ℕ × State :=
  if count ≠ 0 ∧ size > sizeMax / count then (0, s)
  else
    match malloc M x (count * size) s with
    | (0, s) => (0, s)
    | (ptr + 1, s) =>
      (ptr + 1, s.overwrite M (ptr + 1) (count * size) (fill s.bytes (ptr + 1) (count * size) 0))

def reallocInPlace (M : Platform) (ptr size : ℕ) (s : State) : ℕ × State :=
  let header := ptr - M.headerSize
  let hd := s.headers header
  if s.stats.activeBytes < hd.requestedSize then (0, debugAbort M s)
  else
    let retainedBytes := sub s.stats.activeBytes hd.requestedSize
    if retainedBytes > sizeMax - size then (0, s)
    else
      let s := s.setHeader header { hd with requestedSize := size }
      let s := { s with stats := { s.stats with activeBytes := add retainedBytes size } }
      (ptr, debugPrepare M header ptr s)

def reallocMove (M : Platform) (x : Env) (ptr size : ℕ) (s : State) : ℕ × State :=
  let hd := s.headers (ptr - M.headerSize)
  let copySize := if hd.requestedSize < size then hd.requestedSize else size
  match malloc M x size s with
  | (0, s) => (0, s)
  | (replacement + 1, s) =>
    let s := s.overwrite M (replacement + 1) copySize
      (copy s.bytes (replacement + 1) ptr copySize)
    (replacement + 1, free M x ptr s)

def realloc (M : Platform) (x : Env) (ptr size : ℕ) (s : State) : ℕ × State :=
  if ptr = 0 then malloc M x size s
  else if size = 0 then (0, free M x ptr s)
  else if s.initialized = false then (0, s)
  else
    let header := ptr - M.headerSize
    let hd := s.headers header
    if hd.magic ≠ objectMagic ∨ hd.state ≠ .allocated then (0, debugAbort M s)
    else
      match debugValidate M header ptr s with
      | (false, s) => (0, debugAbort M s)
      | (true, s) =>
        if size ≤ hd.capacity then reallocInPlace M ptr size s
        else reallocMove M x ptr size s

/-! ## The clients -/

inductive Call where
  | malloc (size : ℕ)
  | calloc (count size : ℕ)
  | realloc (ptr size : ℕ)
  | free (ptr : ℕ)
  | write (ptr offset : ℕ) (value : UInt8)

def State.holds (s : State) (ptr : ℕ) : Bool := s.live.any fun b => b.ptr == ptr

def State.gain (s : State) (ptr size : ℕ) : State :=
  if ptr = 0 then s else { s with live := ⟨ptr, requestSize size⟩ :: s.live }

/-- A client gives up `ptr`. -/
def State.drop (s : State) (ptr : ℕ) : State :=
  { s with live := s.live.filter fun b => b.ptr != ptr }

/-- The clients' step. -/
def step (M : Platform) (s : State) : Env × Call → Option State
  | (x, .malloc size) =>
    if size < modulus then
      let (ptr, s) := malloc M x size s
      some (s.gain ptr size)
    else none
  | (x, .calloc count size) =>
    if count < modulus ∧ size < modulus then
      let (ptr, s) := calloc M x count size s
      some (s.gain ptr (count * size))
    else none
  | (x, .realloc ptr size) =>
    if size < modulus ∧ (ptr = 0 ∨ s.holds ptr) then
      let (new, s) := realloc M x ptr size s
      if ptr = 0 then some (s.gain new size)
      else if size = 0 then some (s.drop ptr)
      else if new = 0 then some s
      else some ((s.drop ptr).gain new size)
    else none
  | (x, .free ptr) =>
    if ptr = 0 ∨ s.holds ptr then some ((free M x ptr s).drop ptr) else none
  | (_, .write ptr offset value) =>
    if s.live.any fun b => b.ptr == ptr && decide (offset < b.size) then
      some (s.overwrite M (ptr + offset) 1 (fill s.bytes (ptr + offset) 1 value))
    else none

end Veloco.Memory
