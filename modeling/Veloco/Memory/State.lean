import Veloco.Bytes
import Veloco.Chain
import Veloco.Common
import Veloco.Word

/-!
# Spans, objects and the allocator state (`src/memory/memory_internal.h`)
-/

namespace Veloco.Memory

open Function
open Veloco.Bytes Veloco.Word

def sizeClassCount : ℕ := 42

def memoryAlignment : ℕ := 16

def cacheMax : ℕ := 64

def cacheRefill : ℕ := 32

def memoryMaxP : ℕ := 64

def objectMagic : ℕ := 0x56454c4f434f4d45

def debugCanary : ℕ := 0xd0c0b0a090807060

def debugPoison : UInt8 := 0xa5

/-- `sizeof(vl_span_t)`. -/
def spanSize : ℕ := 112

structure Platform where
  debug : Bool
  pageSize : ℕ
  deriving DecidableEq, Repr

/-- `sizeof(vl_object_header_t)`. -/
def Platform.headerSize (plat : Platform) : ℕ := if plat.debug then 96 else 80

def Platform.suffixSize (plat : Platform) : ℕ := if plat.debug then 8 else 0

structure Env where
  pIndex : ℕ
  mmap : Option ℕ
  munmap : ℕ → Bool

def memoryCurrentP (x : Env) : ℕ := if x.pIndex < memoryMaxP then x.pIndex else 0

/-! ## Records -/

inductive ObjectKind where
  | small
  | large
  deriving DecidableEq, Repr, Inhabited

inductive ObjectState where
  | free
  | allocated
  deriving DecidableEq, Repr, Inhabited

structure Header where
  magic : ℕ
  kind : ObjectKind
  state : ObjectState
  requestedSize : ℕ
  capacity : ℕ
  ownerP : ℕ
  span : ℕ
  mappingBase : ℕ
  mappingSize : ℕ
  prefixCanary : ℕ
  deriving DecidableEq, Repr, Inhabited

structure Span where
  mappingBase : ℕ
  mappingSize : ℕ
  classIndex : ℕ
  capacity : ℕ
  objectStride : ℕ
  objectCount : ℕ
  centralFreeCount : ℕ
  freeCount : ℕ
  activeCount : ℕ
  cachedCount : ℕ
  ownerP : ℕ
  centralFree : ℕ
  deriving DecidableEq, Repr, Inhabited

structure Cache where
  head : ℕ
  count : ℕ
  deriving DecidableEq, Repr, Inhabited

/-- The caches. -/
inductive Bin where
  | cache (p k : ℕ)
  | remote (p k : ℕ)
  deriving DecidableEq, Repr

structure Stats where
  activeBytes : ℕ
  activeObjects : ℕ
  cacheHits : ℕ
  centralRefills : ℕ
  mmapCalls : ℕ
  mappedBytes : ℕ
  crossPFrees : ℕ
  deriving DecidableEq, Repr, Inhabited

structure Region where
  base : ℕ
  size : ℕ
  deriving DecidableEq, Repr

structure Block where
  ptr : ℕ
  size : ℕ
  deriving DecidableEq, Repr

structure Release where
  span : Span
  central : List ℕ
  deriving DecidableEq, Repr

structure State where
  initialized : Bool
  pageSize : ℕ
  stats : Stats
  bins : Bin → Cache
  central : ℕ → List ℕ
  allSpans : List ℕ
  largeAllocations : List ℕ
  headers : ℕ → Header
  spans : ℕ → Span
  bytes : Memory
  mapped : List Region
  aborted : Bool
  liveSpans : List ℕ
  released : List Release
  live : List Block

def State.initial : State where
  initialized := false
  pageSize := 0
  stats := default
  bins := fun _ => default
  central := fun _ => []
  allSpans := []
  largeAllocations := []
  headers := fun _ => default
  spans := fun _ => default
  bytes := fun _ => 0
  mapped := []
  aborted := false
  liveSpans := []
  released := []
  live := []

namespace State

variable (plat : Platform) (s : State)

def setSpan (a : ℕ) (span : Span) : State :=
  { s with spans := update s.spans a span }

def setHeader (h : ℕ) (header : Header) : State :=
  { s with headers := update s.headers h header }

def setBin (b : Bin) (cache : Cache) : State :=
  { s with bins := update s.bins b cache }

def overwrite (a n : ℕ) (m : Memory) : State :=
  { s with
    bytes := m
    headers := fun h => if Apart a n h plat.headerSize then s.headers h else default
    spans := fun b => if Apart a n b spanSize then s.spans b else default }

/-- `*(void **)user`. -/
def link (user : ℕ) : ℕ := load s.bytes user 8

/-- `*(void **)user = value`. -/
def setLink (user value : ℕ) : State := s.overwrite plat user 8 (store s.bytes user 8 value)

@[simp] theorem setSpan_spans (a : ℕ) (span : Span) :
    (s.setSpan a span).spans = update s.spans a span := rfl

@[simp] theorem setSpan_headers (a : ℕ) (span : Span) :
    (s.setSpan a span).headers = s.headers := rfl

@[simp] theorem setHeader_headers (h : ℕ) (header : Header) :
    (s.setHeader h header).headers = update s.headers h header := rfl

end State

/-! ## Size classes (`src/memory/size_class.c`) -/

def sizeClasses : List ℕ :=
  [8, 16, 24, 32, 48, 64, 80, 96, 112, 128,
   160, 192, 224, 256, 320, 384, 448, 512, 640, 768,
   896, 1024, 1280, 1536, 1792, 2048, 2560, 3072, 3584, 4096,
   5120, 6144, 7168, 8192, 10240, 12288, 14336, 16384, 20480, 24576,
   28672, 32768]

def sizeClassSearch (size low high : ℕ) : ℕ :=
  if low < high then
    let middle := low + (high - low) / 2
    if sizeClasses.getD middle 0 < size then sizeClassSearch size (middle + 1) high
    else sizeClassSearch size low middle
  else low
termination_by high - low

def sizeClassIndex (size : ℕ) : ℕ := sizeClassSearch size 0 sizeClassCount

def sizeClassCapacity (index : ℕ) : ℕ :=
  if index < sizeClassCount then sizeClasses.getD index 0 else 0

def memoryAlignUp (value alignment : ℕ) : ℕ :=
  if alignment = 0 then 0
  else
    let remainder := value &&& (alignment - 1)
    if remainder = 0 then value
    else if value > sizeMax - (alignment - remainder) then 0
    else value + alignment - remainder

end Veloco.Memory
