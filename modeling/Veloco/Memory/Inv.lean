import Veloco.Ledger
import Veloco.Memory.Layout

/-!
# What holds between two calls
-/

namespace Veloco.Memory

open Veloco.Bytes Veloco.Word Veloco.Chain Veloco.Ledger

/-! ## Places -/

inductive Place where
  | central (a : ℕ)
  | bin (b : Bin)
  | allocated
  deriving DecidableEq, Repr

namespace Place

def isCentral : Place → Bool
  | central _ => true
  | _ => false

def isCached : Place → Bool
  | bin _ => true
  | _ => false

def isAllocated : Place → Bool
  | allocated => true
  | _ => false

end Place

def Bin.p : Bin → ℕ
  | cache p _ => p
  | remote p _ => p

def Bin.classIndex : Bin → ℕ
  | cache _ k => k
  | remote _ k => k

def Place.Fits (a k : ℕ) : Place → Prop
  | central b => b = a
  | bin b => b.classIndex = k ∧ b.p < memoryMaxP
  | allocated => True

def State.IsSlot (M : Platform) (s : State) (u : ℕ) : Prop :=
  ∃ a ∈ s.allSpans, ∃ i < (s.spans a).objectCount, u = s.slot M a i

/-- The slots of the span at `a`. -/
def State.slots (M : Platform) (s : State) (a : ℕ) : List ℕ :=
  (List.range (s.spans a).objectCount).map (s.slot M a)

def State.HasList (s : State) : Place → Prop
  | .central a => a ∈ s.allSpans
  | .bin _ => True
  | .allocated => False

def State.head (s : State) : Place → ℕ
  | .central a => (s.spans a).centralFree
  | .bin b => (s.bins b).head
  | .allocated => 0

structure Lists (M : Platform) (s : State) (loc : ℕ → Place) (c : Place → List ℕ) : Prop where
  located : Located (s.IsSlot M) loc c
  fits : ∀ a ∈ s.allSpans, ∀ i < (s.spans a).objectCount,
    (loc (s.slot M a i)).Fits a (s.spans a).classIndex
  links : ∀ pl, s.HasList pl → Links s.link 0 (s.head pl) (c pl)
  binCount : ∀ b, (s.bins b).count = (c (.bin b)).length
  centralFreeCount : ∀ a ∈ s.allSpans,
    (s.spans a).centralFreeCount = tally (s.slots M a) loc Place.isCentral
  cachedCount : ∀ a ∈ s.allSpans,
    (s.spans a).cachedCount = tally (s.slots M a) loc Place.isCached
  activeCount : ∀ a ∈ s.allSpans,
    (s.spans a).activeCount = tally (s.slots M a) loc Place.isAllocated
  freeCount : ∀ a ∈ s.allSpans,
    (s.spans a).freeCount = (s.spans a).centralFreeCount + (s.spans a).cachedCount

structure SlotHeaderOk (a : ℕ) (sp : Span) (pl : Place) (hd : Header) : Prop where
  magic : hd.magic = objectMagic
  kind : hd.kind = .small
  capacity : hd.capacity = sp.capacity
  ownerP : hd.ownerP = sp.ownerP
  span : hd.span = a
  state : hd.state = .allocated ↔ pl = .allocated

structure Headers (M : Platform) (s : State) (loc : ℕ → Place) : Prop where
  slot : ∀ a ∈ s.allSpans, ∀ i < (s.spans a).objectCount,
    SlotHeaderOk a (s.spans a) (loc (s.slot M a i)) (s.headers (s.cellAt a i))
  magic : ∀ h ∈ s.largeAllocations, (s.headers h).magic = objectMagic
  state : ∀ h ∈ s.largeAllocations, (s.headers h).state = .allocated

structure BlockOk (M : Platform) (bytes : Memory) (b : Block) (hd : Header) : Prop where
  size_pos : 0 < b.size
  requested : hd.requestedSize = b.size
  size_le : b.size ≤ hd.capacity
  prefixCanary : M.debug = true → hd.prefixCanary = debugCanary
  suffixCanary : M.debug = true → load bytes (b.ptr + b.size) 8 = debugCanary

structure Live (M : Platform) (s : State) (loc : ℕ → Place) : Prop where
  nodup : (s.live.map Block.ptr).Nodup
  mem : ∀ u, u ∈ s.live.map Block.ptr ↔
    (s.IsSlot M u ∧ loc u = .allocated) ∨ ∃ h ∈ s.largeAllocations, u = h + M.headerSize
  block : ∀ b ∈ s.live, BlockOk M s.bytes b (s.headers (b.ptr - M.headerSize))
  activeObjects : s.stats.activeObjects = s.live.length
  activeBytes : s.stats.activeBytes = (s.live.map Block.size).sum
  activeBytes_lt : s.stats.activeBytes < modulus

def ReleasedOk (M : Platform) (r : Release) : Prop :=
  ∀ i < r.span.objectCount,
    r.span.mappingBase + M.pageSize + i * r.span.objectStride + M.headerSize ∈ r.central

structure Inv (M : Platform) (s : State) (loc : ℕ → Place) (c : Place → List ℕ) : Prop where
  layout : Layout M s
  lists : Lists M s loc c
  headers : Headers M s loc
  live : Live M s loc
  aborted : s.aborted = false
  released : ∀ r ∈ s.released, ReleasedOk M r

structure Span.Like (sp sp' : Span) : Prop where
  mappingBase : sp'.mappingBase = sp.mappingBase
  mappingSize : sp'.mappingSize = sp.mappingSize
  classIndex : sp'.classIndex = sp.classIndex
  capacity : sp'.capacity = sp.capacity
  objectStride : sp'.objectStride = sp.objectStride
  objectCount : sp'.objectCount = sp.objectCount
  ownerP : sp'.ownerP = sp.ownerP

theorem Span.Like.refl (sp : Span) : sp.Like sp := ⟨rfl, rfl, rfl, rfl, rfl, rfl, rfl⟩

structure Header.Like (hd hd' : Header) : Prop where
  kind : hd'.kind = hd.kind
  capacity : hd'.capacity = hd.capacity
  mappingBase : hd'.mappingBase = hd.mappingBase
  mappingSize : hd'.mappingSize = hd.mappingSize

theorem Header.Like.refl (hd : Header) : hd.Like hd := ⟨rfl, rfl, rfl, rfl⟩

structure SameObjects (s s' : State) : Prop where
  pageSize : s'.pageSize = s.pageSize
  allSpans : s'.allSpans = s.allSpans
  largeAllocations : s'.largeAllocations = s.largeAllocations
  spans : ∀ a ∈ s.allSpans, (s.spans a).Like (s'.spans a)
  larges : ∀ h ∈ s.largeAllocations, (s.headers h).Like (s'.headers h)

structure SameLayout (s s' : State) : Prop extends SameObjects s s' where
  initialized : s'.initialized = s.initialized
  mapped : s'.mapped = s.mapped
  central : s'.central = s.central
  liveSpans : s'.liveSpans = s.liveSpans

theorem SpanOk.like {M : Platform} {page : ℕ} {mapped : List Region} {a : ℕ} {sp sp' : Span}
    (h : SpanOk M page mapped a sp) (hl : sp.Like sp') : SpanOk M page mapped a sp' where
  base := hl.mappingBase.trans h.base
  region := by rw [hl.mappingSize]; exact h.region
  classIndex := by rw [hl.classIndex]; exact h.classIndex
  capacity := by rw [hl.capacity, hl.classIndex]; exact h.capacity
  stride := by rw [hl.objectStride, hl.capacity]; exact h.stride
  fits := by rw [hl.objectCount, hl.objectStride, hl.mappingSize]; exact h.fits
  ownerP := by rw [hl.ownerP]; exact h.ownerP

theorem LargeOk.like {M : Platform} {mapped : List Region} {h : ℕ} {hd hd' : Header}
    (hok : LargeOk M mapped h hd) (hl : hd.Like hd') : LargeOk M mapped h hd' where
  kind := hl.kind.trans hok.kind
  base := hl.mappingBase.trans hok.base
  region := by rw [hl.mappingSize]; exact hok.region
  fits := by rw [hl.capacity, hl.mappingSize]; exact hok.fits

section Same

variable {M : Platform} {s s' : State} {a i u : ℕ}

theorem SameObjects.cellAt (h : SameObjects s s') (ha : a ∈ s.allSpans) (i : ℕ) :
    s'.cellAt a i = s.cellAt a i := by
  unfold State.cellAt
  rw [h.pageSize, (h.spans a ha).objectStride]

theorem SameObjects.slot (h : SameObjects s s') (M : Platform) (ha : a ∈ s.allSpans) (i : ℕ) :
    s'.slot M a i = s.slot M a i := by
  unfold State.slot
  rw [h.cellAt ha]

theorem SameObjects.slots (h : SameObjects s s') (M : Platform) (ha : a ∈ s.allSpans) :
    s'.slots M a = s.slots M a := by
  unfold State.slots
  rw [(h.spans a ha).objectCount]
  exact List.map_congr_left fun i _ => h.slot M ha i

theorem SameObjects.isSlot (h : SameObjects s s') (M : Platform) (u : ℕ) :
    s'.IsSlot M u ↔ s.IsSlot M u := by
  unfold State.IsSlot
  rw [h.allSpans]
  refine exists_congr fun a => and_congr_right fun ha => ?_
  rw [(h.spans a ha).objectCount]
  refine exists_congr fun i => and_congr_right fun _ => ?_
  rw [h.slot M ha]

theorem Layout.same (hL : Layout M s) (h : SameLayout s s') : Layout M s' where
  initialized := h.initialized.trans hL.initialized
  pageSize := h.pageSize.trans hL.pageSize
  holdsSpan := by rw [h.pageSize]; exact hL.holdsSpan
  aligned := by rw [h.pageSize]; exact hL.aligned
  mapped := by rw [h.pageSize, h.mapped]; exact hL.mapped
  spans := by
    intro a ha
    rw [h.allSpans] at ha
    rw [h.pageSize, h.mapped]
    exact (hL.spans a ha).like (h.spans a ha)
  larges := by
    intro l hl
    rw [h.largeAllocations] at hl
    rw [h.mapped]
    exact (hL.larges l hl).like (h.larges l hl)
  nodup := by rw [h.allSpans, h.largeAllocations]; exact hL.nodup
  nodup_central := by rw [h.central]; exact hL.nodup_central
  mem_central := by
    intro k a
    rw [h.central, h.allSpans, hL.mem_central]
    refine and_congr_right fun ha => ?_
    rw [(h.spans a ha).classIndex]
  liveSpans := by rw [h.liveSpans, h.allSpans]; exact hL.liveSpans

end Same

end Veloco.Memory
