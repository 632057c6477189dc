import Veloco.Memory.State

/-!
# The page heap and the spans (`src/memory/page_heap.c`, `src/memory/span.c`)
-/

namespace Veloco.Memory

open Veloco.Bytes Veloco.Word

/-! ## The page heap -/

def State.Fresh (s : State) (a n : ℕ) : Prop :=
  a ≠ 0 ∧ s.pageSize ∣ a ∧ a + n ≤ modulus ∧ ∀ r ∈ s.mapped, Apart r.base r.size a n

instance (s : State) (a n : ℕ) : Decidable (s.Fresh a n) :=
  inferInstanceAs (Decidable (_ ∧ _ ∧ _ ∧ _))

/-- `mmap`. -/
def State.mmap (s : State) (x : Env) (bytes : ℕ) : Option ℕ :=
  x.mmap.filter fun a => decide (s.Fresh a bytes)

def State.addMapping (M : Platform) (s : State) (a bytes : ℕ) : State :=
  { s.overwrite M a bytes (fill s.bytes a bytes 0) with
    mapped := ⟨a, bytes⟩ :: s.mapped
    stats := { s.stats with
      mmapCalls := add s.stats.mmapCalls 1
      mappedBytes := add s.stats.mappedBytes bytes } }

def pageHeapAcquire (M : Platform) (x : Env) (pages : ℕ) (s : State) : Option Region × State :=
  if s.initialized = false ∨ pages = 0 ∨ pages > sizeMax / s.pageSize then (none, s)
  else
    let bytes := pages * s.pageSize
    if s.stats.mappedBytes > sizeMax - bytes then (none, s)
    else
      match s.mmap x bytes with
      | none => (none, s)
      | some a => (some ⟨a, bytes⟩, s.addMapping M a bytes)

def pageHeapRelease (x : Env) (mappingBase mappedSize : ℕ) (s : State) : State :=
  if mappingBase = 0 ∨ mappedSize = 0 then s
  else if x.munmap mappingBase = false then s
  else
    { s with
      mapped := s.mapped.erase ⟨mappingBase, mappedSize⟩
      stats := { s.stats with
        mappedBytes :=
          if mappedSize ≤ s.stats.mappedBytes then sub s.stats.mappedBytes mappedSize else 0 } }

/-! ## Spans -/

def spanObjectStride (M : Platform) (capacity : ℕ) : ℕ :=
  memoryAlignUp (M.headerSize + capacity + M.suffixSize) memoryAlignment

def freshHeader (hd : Header) (span : ℕ) (sp : Span) : Header :=
  { hd with
    magic := objectMagic
    kind := .small
    state := .free
    requestedSize := 0
    capacity := sp.capacity
    ownerP := sp.ownerP
    span := span
    mappingBase := 0
    mappingSize := 0 }

def initObject (M : Platform) (span index : ℕ) (s : State) : State :=
  let sp := s.spans span
  let header := sp.mappingBase + s.pageSize + index * sp.objectStride
  let user := header + M.headerSize
  let s := s.setHeader header (freshHeader (s.headers header) span sp)
  let s := s.setLink M user sp.centralFree
  s.setSpan span { s.spans span with centralFree := user }

def initObjects (M : Platform) (span : ℕ) : ℕ → State → State
  | 0, s => s
  | n + 1, s => initObject M span n (initObjects M span n s)

def spanObjectArea (stride : ℕ) : ℕ :=
  if stride > 64 * 1024 / 2 then stride * 2 else 64 * 1024

def newSpan (M : Platform) (x : Env) (k span mappingSize page : ℕ) : Span where
  mappingBase := span
  mappingSize := mappingSize
  classIndex := k
  capacity := sizeClassCapacity k
  objectStride := spanObjectStride M (sizeClassCapacity k)
  objectCount := (mappingSize - page) / spanObjectStride M (sizeClassCapacity k)
  centralFreeCount := 0
  freeCount := 0
  activeCount := 0
  cachedCount := 0
  ownerP := memoryCurrentP x
  centralFree := 0

def spanCreate (M : Platform) (x : Env) (classIndex : ℕ) (s : State) :
    Except Status ℕ × State :=
  if sizeClassCount ≤ classIndex then (.error .invalidArgument, s)
  else
    let capacity := sizeClassCapacity classIndex
    let stride := spanObjectStride M capacity
    let objectPages := (spanObjectArea stride + s.pageSize - 1) / s.pageSize
    if objectPages = 0 ∨ objectPages = sizeMax then (.error .invalidArgument, s)
    else
      match pageHeapAcquire M x (objectPages + 1) s with
      | (none, s) => (.error .outOfMemory, s)
      | (some ⟨span, mappingSize⟩, s) =>
        let sp := newSpan M x classIndex span mappingSize s.pageSize
        let s := s.setSpan span sp
        if sp.objectCount = 0 then (.error .system, pageHeapRelease x span mappingSize s)
        else
          let s := initObjects M span sp.objectCount s
          let s := s.setSpan span { s.spans span with
            centralFreeCount := sp.objectCount
            freeCount := sp.objectCount }
          (.ok span, { s with
            allSpans := span :: s.allSpans
            central := Function.update s.central classIndex (span :: s.central classIndex)
            liveSpans := span :: s.liveSpans })

def spanTakeCentral (span : ℕ) (s : State) : ℕ × State :=
  if span = 0 ∨ (s.spans span).centralFree = 0 then (0, s)
  else
    let sp := s.spans span
    (sp.centralFree, s.setSpan span { sp with
      centralFree := s.link sp.centralFree
      centralFreeCount := sub sp.centralFreeCount 1
      cachedCount := add sp.cachedCount 1 })

def spanMoveToCentral (M : Platform) (span user : ℕ) (s : State) : State :=
  if span = 0 ∨ user = 0 then s
  else
    let s := s.setLink M user (s.spans span).centralFree
    let sp := s.spans span
    s.setSpan span { sp with
      centralFree := user
      centralFreeCount := add sp.centralFreeCount 1
      cachedCount := if sp.cachedCount > 0 then sub sp.cachedCount 1 else sp.cachedCount }

def spanRemoveFromCentral (span : ℕ) (s : State) : State :=
  let k := (s.spans span).classIndex
  { s with central := Function.update s.central k ((s.central k).erase span) }

def spanRemoveFromAll (span : ℕ) (s : State) : State :=
  { s with allSpans := s.allSpans.erase span }

def Span.reclaimable (sp : Span) : Bool :=
  sp.activeCount == 0 && sp.cachedCount == 0 && sp.centralFreeCount == sp.objectCount

def spanReclaimIfEmpty (x : Env) (span : ℕ) (s : State) : State :=
  let sp := s.spans span
  if span = 0 ∨ sp.reclaimable = false then s
  else
    let s := spanRemoveFromAll span (spanRemoveFromCentral span s)
    let s := { s with
      liveSpans := s.liveSpans.erase span
      released := ⟨sp, Chain.walk s.link 0 sp.objectCount sp.centralFree⟩ :: s.released }
    pageHeapRelease x sp.mappingBase sp.mappingSize s

end Veloco.Memory
