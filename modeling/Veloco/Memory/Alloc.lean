import Veloco.Memory.Touch

/-!
# `vl_malloc`
-/

namespace Veloco.Memory

open Function List State
open Veloco.Bytes Veloco.Word Veloco.Chain Veloco.Ledger

variable {M : Platform} {s t : State} {loc : ℕ → Place} {c : Place → List ℕ}
  {a i k l m p size : ℕ}

theorem Inv.stats (h : Inv M s loc c) {stats : Stats}
    (hbj : stats.activeObjects = s.stats.activeObjects)
    (hbyt : stats.activeBytes = s.stats.activeBytes) :
    Inv M { s with stats := stats } loc c := by
  have hsm : SameLayout s { s with stats := stats } :=
    ⟨⟨rfl, rfl, rfl, fun _ _ => Span.Like.refl _, fun _ _ => Header.Like.refl _⟩, rfl, rfl, rfl,
      rfl⟩
  have hobj := hsm.toSameObjects
  constructor
  case layout => exact h.layout.same hsm
  case lists => exact h.lists.frame hobj rfl (fun _ _ => rfl) fun _ _ _ => rfl
  case headers => exact h.headers.frame hobj (fun _ _ _ => rfl) fun _ _ => Iff.rfl
  case live =>
    exact h.live.frame hobj ⟨rfl, rfl, rfl, hbj, hbyt⟩ (fun b hb => h.live.block b hb)
      fun _ _ => Iff.rfl
  case aborted => exact h.aborted
  case released => exact h.released

theorem good_refillFromSpan (h : Good M s) (hp : p < memoryMaxP) (ha : a ∈ s.allSpans)
    (hk : (s.spans a).classIndex = k) {count : ℕ}
    (hcnt : count ≠ 0 → (s.bins (.cache p k)).head ≠ 0) :
    Good M (refillFromSpan M p k a count s).2 ∧
      SameAccounts s (refillFromSpan M p k a count s).2 ∧
      ((refillFromSpan M p k a count s).1 = .ok →
        ((refillFromSpan M p k a count s).2.bins (.cache p k)).head ≠ 0) := by
  have hqui := quiet_refillCentral hp (cacheRefill - count) count s h ha hk
  have hbs : a ≠ 0 := by
    obtain ⟨loc, c, hI⟩ := h
    exact Nat.ne_of_gt (hI.layout.mapped.base _ (hI.layout.spans a ha).region).1
  have hhe := @refillCentral_head M p k a (cacheRefill - count) count s hbs hcnt
  unfold refillFromSpan
  cases hr : refillCentral M p k a (cacheRefill - count) count s with
  | mk total s' =>
    rw [hr] at hqui hhe
    cases total with
    | zero => exact ⟨hqui.good, hqui.accounts, fun hok => nomatch hok⟩
    | succ total =>
      obtain ⟨loc, c, hI⟩ := hqui.good
      exact ⟨⟨loc, c, hI.stats rfl rfl⟩, ⟨hqui.accounts.live, hqui.accounts.activeObjects,
        hqui.accounts.activeBytes⟩, fun _ => hhe (Nat.succ_ne_zero _)⟩

theorem findRefillSpan_mem (hL : Layout M s) (hf : findRefillSpan k s = some a) :
    a ∈ s.allSpans ∧ (s.spans a).classIndex = k :=
  (hL.mem_central k a).mp (mem_of_find?_eq_some hf)

theorem good_refillCache (h : Good M s) (x : Env) (hk : k < sizeClassCount) :
    Good M (refillCache M x k s).2 ∧ SameAccounts s (refillCache M x k s).2 ∧
      ((refillCache M x k s).1 = .ok →
        ((refillCache M x k s).2.bins (.cache (memoryCurrentP x) k)).head ≠ 0) := by
  have hp := memoryCurrentP_lt x
  have hqui := quiet_refillRemote (memoryCurrentP x) k cacheRefill 0 s h
  have hhe := @refillRemote_head M (memoryCurrentP x) k cacheRefill 0 s
    (fun hne => absurd rfl hne)
  unfold refillCache
  dsimp only
  cases hr : refillRemote M (memoryCurrentP x) k cacheRefill 0 s with
  | mk count s₁ =>
    rw [hr] at hqui hhe
    dsimp only at hqui hhe ⊢
    by_cases hfu : count = cacheRefill
    · rw [if_pos hfu]
      exact ⟨hqui.good, hqui.accounts, fun _ => hhe (by rw [hfu]; decide)⟩
    rw [if_neg hfu]
    cases hfn : findRefillSpan k s with
    | some a =>
      -- the span was found before the first loop, which leaves the spans where they are
      obtain ⟨loc, c, hI⟩ := h
      obtain ⟨ha, hka⟩ := findRefillSpan_mem hI.layout hfn
      have hfr := good_refillFromSpan hqui.good hp (a := a) (k := k)
        (by rw [hqui.layout.allSpans]; exact ha)
        (by rw [(hqui.layout.spans a ha).classIndex]; exact hka) hhe
      exact ⟨hfr.1, hqui.accounts.trans hfr.2.1, hfr.2.2⟩
    | none =>
      obtain ⟨loc, c, hI⟩ := hqui.good
      obtain ⟨hgd, hacc, hbn, hok⟩ := hI.spanCreate x hk
      dsimp only
      cases hc : spanCreate M x k s₁ with
      | mk result s₂ =>
        rw [hc] at hgd hacc hbn hok
        cases result with
        | error e => exact ⟨hgd, hqui.accounts.trans hacc, fun h => nomatch h⟩
        | ok a =>
          obtain ⟨ha, hka⟩ := hok a rfl
          have hfr := good_refillFromSpan hgd hp ha hka (by rw [hbn]; exact hhe)
          exact ⟨hfr.1, (hqui.accounts.trans hacc).trans hfr.2.1, hfr.2.2⟩

theorem cachePop_cases (h : Good M s) (x : Env) (hk : k < sizeClassCount) :
    ∃ t, Good M t ∧ SameAccounts s t ∧ (cachePop M x k s = (0, t) ∨
      (t.bins (.cache (memoryCurrentP x) k)).head ≠ 0 ∧
        cachePop M x k s = cacheTake M (.cache (memoryCurrentP x) k) t) := by
  unfold cachePop
  dsimp only
  by_cases hemp : (s.bins (.cache (memoryCurrentP x) k)).head = 0
  · rw [if_pos hemp]
    obtain ⟨hgd, hacc, hhe⟩ := good_refillCache h x hk
    refine ⟨(refillCache M x k s).2, hgd, hacc, ?_⟩
    cases hr : refillCache M x k s with
    | mk status s₁ =>
      rw [hr] at hhe
      cases status with
      | ok => exact .inr ⟨hhe rfl, rfl⟩
      | _ => exact .inl rfl
  · rw [if_neg hemp]
    exact ⟨s, h, SameAccounts.refl s, Or.inr ⟨hemp, rfl⟩⟩

theorem Inv.take (h : Inv M t loc c) (ha : a ∈ t.allSpans)
    (hi : i < (t.spans a).objectCount) {b : Bin} (hu : (t.bins b).head = t.slot M a i)
    (hloc : loc (t.slot M a i) = .bin b) :
    (cacheTake M b t).1 = t.slot M a i ∧ SameLayout t (cacheTake M b t).2 ∧
      Lists M (cacheTake M b t).2 (update loc (t.slot M a i) .allocated)
        (bring c (t.slot M a i) .allocated) := by
  have hL := h.layout
  have hS := h.lists
  have hslot : t.IsSlot M (t.slot M a i) := ⟨a, ha, i, hi, rfl⟩
  have hsp : (t.headers (t.slot M a i - M.headerSize)).span = a := by
    rw [State.slot_sub]
    exact (h.headers.slot a ha i hi).span
  have hsub := hS.binCount_sub hL hslot hloc
  have hcac := hL.tally_sub ha hi loc (q := Place.isCached) (by rw [hloc]; rfl)
  have hact := hL.tally_add ha hi loc (q := Place.isAllocated) (by rw [hloc]; rfl)
  rw [← hS.cachedCount a ha] at hcac
  rw [← hS.activeCount a ha] at hact
  have hcou := hS.counts ha
  have hfreeCount := hS.freeCount a ha
  have hlt := hL.objectCount_lt ha
  have hfree : sub (t.spans a).freeCount 1 + 1 = (t.spans a).freeCount :=
    sub_one_add_one (by omega) (by omega)
  have hsta : cacheTake M b t = (t.slot M a i,
      { t with
        bins := update t.bins b ⟨t.link (t.slot M a i), sub (t.bins b).count 1⟩
        spans := update t.spans a { t.spans a with
          cachedCount := sub (t.spans a).cachedCount 1
          freeCount := sub (t.spans a).freeCount 1
          activeCount := add (t.spans a).activeCount 1 } }) := by
    simp only [cacheTake, binPop, State.setBin, State.setSpan, hu, hsp]
  rw [hsta]
  have hsm : SameLayout t { t with
      bins := update t.bins b ⟨t.link (t.slot M a i), sub (t.bins b).count 1⟩
      spans := update t.spans a { t.spans a with
        cachedCount := sub (t.spans a).cachedCount 1
        freeCount := sub (t.spans a).freeCount 1
        activeCount := add (t.spans a).activeCount 1 } } := by
    refine ⟨⟨rfl, rfl, rfl, fun d _ => ?_, fun _ _ => Header.Like.refl _⟩, rfl, rfl, rfl, rfl⟩
    by_cases hda : d = a
    · subst hda
      simp only [update_self]
      exact ⟨rfl, rfl, rfl, rfl, rfl, rfl, rfl⟩
    · simp only [update_of_ne hda]
      exact Span.Like.refl _
  refine ⟨rfl, hsm, hS.move hL ha hi hloc (by simp) trivial ?_⟩
  constructor
  case same => exact hsm
  case pop => exact fun _ => ⟨hu, by simp [State.head]⟩
  case push => exact fun hal => absurd hal id
  case head =>
    intro q _ hqb _
    cases q with
    | central d =>
      by_cases hda : d = a
      · subst hda
        simp [State.head]
      · simp [State.head, hda]
    | bin d =>
      have hdb : d ≠ b := fun heq => hqb (congrArg Place.bin heq)
      simp [State.head, hdb]
    | allocated => rfl
  case link => exact fun _ _ _ => rfl
  case binCount =>
    intro d
    by_cases hd : d = b
    · subst hd
      simpa using hsub
    · simp [hd, Ne.symm hd]
  case centralFreeCount => simp [Place.isCentral]
  case cachedCount => simpa [Place.isCached] using hcac
  case activeCount => simpa [Place.isAllocated] using hact
  case freeCount => simpa [Place.isAllocated] using hfree
  case others =>
    intro d _ hda
    simp [hda]

theorem Inv.allocate (h : Inv M t loc c) (x : Env)
    (hhe : (t.bins (.cache p k)).head ≠ 0) (hpos : 0 < size)
    (hcap : size ≤ sizeClassCapacity k) (hbj : t.stats.activeObjects + 1 < modulus)
    (hbyt : t.stats.activeBytes + size < modulus) :
    ∃ a ∈ t.allSpans, ∃ i < (t.spans a).objectCount, loc (t.slot M a i) = .bin (.cache p k) ∧
      (cacheTake M (.cache p k) t).1 = t.slot M a i ∧
      (mallocFinish M x k size (cacheTake M (.cache p k) t).1
        (cacheTake M (.cache p k) t).2).live = t.live ∧
      SameLayout t { mallocFinish M x k size (cacheTake M (.cache p k) t).1
        (cacheTake M (.cache p k) t).2 with
          live := ⟨(cacheTake M (.cache p k) t).1, size⟩ :: t.live } ∧
      Inv M { mallocFinish M x k size (cacheTake M (.cache p k) t).1
        (cacheTake M (.cache p k) t).2 with
          live := ⟨(cacheTake M (.cache p k) t).1, size⟩ :: t.live }
        (update loc (t.slot M a i) .allocated)
        (bring c (t.slot M a i) .allocated) := by
  have hL := h.layout
  have hls : t.HasList (.bin (.cache p k)) := trivial
  obtain ⟨a, ha, i, hi, hu, hloc⟩ := h.lists.head_slot hls hhe
  have hbd := hL.slot_bounds ha hi
  have hfit := h.lists.fits a ha i hi
  rw [hloc] at hfit
  have hk : k = (t.spans a).classIndex := hfit.1
  have hcp : (t.spans a).capacity = sizeClassCapacity k := by rw [(hL.spans a ha).capacity, ← hk]
  obtain ⟨hfst, hsm₁, hlis₁⟩ := h.take ha hi hu hloc
  have hfra₁ : (cacheTake M (.cache p k) t).2.headers = t.headers ∧
      (cacheTake M (.cache p k) t).2.bytes = t.bytes ∧
      (cacheTake M (.cache p k) t).2.stats = t.stats ∧
      (cacheTake M (.cache p k) t).2.live = t.live ∧
      (cacheTake M (.cache p k) t).2.aborted = t.aborted ∧
      (cacheTake M (.cache p k) t).2.released = t.released :=
    ⟨rfl, rfl, rfl, rfl, rfl, rfl⟩
  rw [hfst]
  generalize (cacheTake M (.cache p k) t).2 = t₁ at hsm₁ hlis₁ hfra₁ ⊢
  obtain ⟨hhds₁, hbyt₁, hsta₁, hlv₁, habo₁, hrel₁⟩ := hfra₁
  have hL₁ := hL.same hsm₁
  have hc₁ : Cell t₁ (t.cellAt a i) (t.spans a).objectStride := hsm₁.cell (Cell.slot ha hi)
  have hlar : t.cellAt a i ∉ t₁.largeAllocations := by
    rw [hsm₁.largeAllocations]
    exact fun hmem => hL.cellAt_ne_large ha hi hmem rfl
  have hsp : (t.headers (t.cellAt a i)).span = a := (h.headers.slot a ha i hi).span
  have hbs : a ≠ 0 := Nat.ne_of_gt (hL.mapped.base _ (hL.spans a ha).region).1
  -- the header is written, the allocation is counted, and then come the canaries
  obtain ⟨hd, hhd⟩ : ∃ hd : Header, hd = { t.headers (t.cellAt a i) with
      magic := objectMagic
      kind := .small
      state := .allocated
      requestedSize := size
      capacity := sizeClassCapacity k
      span := a
      mappingBase := 0
      mappingSize := 0
      ownerP := (t.spans a).ownerP } := ⟨_, rfl⟩
  have hnt : initializeHeader x (t.cellAt a i) .small (sizeClassCapacity k) size
      (t₁.headers (t.cellAt a i)).span 0 0 t₁ = t₁.setHeader (t.cellAt a i) hd := by
    rw [initializeHeader, hhds₁, hsp, if_pos hbs, (hsm₁.spans a ha).ownerP, hhd]
  have hst := hL.stride_bounds ha
  have hpr := hL₁.prepared hc₁ hd (fun hmem => absurd hmem hlar) (by rw [hhd]; dsimp only; omega)
    { t₁.stats with
      activeBytes := add t₁.stats.activeBytes size
      activeObjects := add t₁.stats.activeObjects 1 }
  have hfin : mallocFinish M x k size (t.slot M a i) t₁ =
      debugPrepare M (t.cellAt a i) (t.cellAt a i + M.headerSize)
        { t₁.setHeader (t.cellAt a i) hd with
          stats := { t₁.stats with
            activeBytes := add t₁.stats.activeBytes size
            activeObjects := add t₁.stats.activeObjects 1 } } := by
    rw [mallocFinish, slot_sub, hnt]
    rfl
  rw [hsta₁, add_of_lt hbyt, add_of_lt hbj] at hpr hfin
  obtain ⟨hlv₂, hsta₂⟩ := debugPrepare_accounts M (t.cellAt a i)
    (t.cellAt a i + M.headerSize)
    { t₁.setHeader (t.cellAt a i) hd with
      stats := { t.stats with
        activeBytes := t.stats.activeBytes + size
        activeObjects := t.stats.activeObjects + 1 } }
  rw [← hfin] at hpr hlv₂ hsta₂
  generalize mallocFinish M x k size (t.slot M a i) t₁ = t₂ at hpr hlv₂ hsta₂ ⊢
  have htou := hpr.touches.trans
    (Touches.accounts M t₂ t₂.stats (⟨t.slot M a i, size⟩ :: t.live) _ _)
  have hptr : ∀ b ∈ t.live, b.ptr ≠ t.slot M a i := fun b hb =>
    h.live.ptr_ne hL ha hi (by rw [hloc]; simp) hb
  have hfre : t.slot M a i ∉ t.live.map Block.ptr := by
    rintro hmem
    obtain ⟨b, hb, heq⟩ := mem_map.mp hmem
    exact hptr b hb heq
  refine ⟨a, ha, i, hi, hloc, rfl, hlv₂.trans hlv₁, hsm₁.trans htou.same, h.change ha hi
    (hsm₁.trans htou.same) (htou.lists hL₁ hc₁ hlis₁ ?_) ?_ ?_ ?_ ?_ ?_ ?_ ?_ ?_ ?_ ?_ ?_ ?_⟩
  · -- the free lists
    intro v _ hfree heq
    subst heq
    exact hfree (update_self _ _ _)
  · -- the other headers
    intro l n hc hne
    rw [htou.headers l n (hsm₁.cell hc) hne, hhds₁]
  · -- the header of the object
    have hok : SlotHeaderOk a (t.spans a) .allocated hd := by
      rw [hhd]
      exact ⟨rfl, rfl, hcp.symm, rfl, rfl, by simp⟩
    exact hok.of_core hpr.core (Span.Like.refl _) Iff.rfl
  · -- the memory
    have hkeep := htou.bytes
    rw [hbyt₁] at hkeep
    exact hkeep
  · -- the other blocks
    intro b hb hne
    rcases mem_cons.mp hb with rfl | hb
    · exact absurd rfl hne
    · exact hb
  · -- the new block
    intro b hb heq
    rcases mem_cons.mp hb with rfl | hb
    · have hok := hpr.block (by rw [hhd]; exact hpos) (by rw [hhd]; exact hcap)
      have hreq : hd.requestedSize = size := by rw [hhd]
      rw [hreq] at hok
      exact hok
    · exact absurd heq (hptr b hb)
  · -- the pointers differ
    exact nodup_cons.mpr ⟨hfre, h.live.nodup⟩
  · -- the pointers
    intro v
    by_cases hv : v = t.slot M a i
    · simp [hv]
    · simp [hv]
  · -- the statistics
    rw [hsta₂]
    exact congrArg (· + 1) h.live.activeObjects
  · rw [hsta₂, map_cons, sum_cons, ← h.live.activeBytes, Nat.add_comm]
  · rw [hsta₂]
    exact hbyt
  · rw [htou.aborted, habo₁]
  · rw [htou.released, hrel₁]

def State.adoptLarge (s : State) (l : ℕ) (hd : Header) : State :=
  { s.setHeader l hd with largeAllocations := l :: s.largeAllocations }

section Large

variable (h : Inv M s loc c) (hsp : l ∉ s.allSpans) (hlar : l ∉ s.largeAllocations)
  {hd : Header} (hok : LargeOk M s.mapped l hd)

include h hsp hlar hok

theorem Inv.layout_adoptLarge : Layout M (s.adoptLarge l hd) := by
  have hL := h.layout
  refine { hL with larges := ?_, nodup := ?_ }
  · intro h' hh'
    simp only [adoptLarge, setHeader_headers]
    rcases mem_cons.mp hh' with rfl | hmem
    · rw [update_self]
      exact hok
    · have hne : h' ≠ l := by
        rintro rfl
        exact hlar hmem
      rw [update_of_ne hne]
      exact hL.larges h' hmem
  · obtain ⟨hnd, hnd', hdis⟩ := nodup_append.mp hL.nodup
    refine nodup_append.mpr ⟨hnd, nodup_cons.mpr ⟨hlar, hnd'⟩, fun a ha b hb => ?_⟩
    rcases mem_cons.mp hb with rfl | hb
    · rintro rfl
      exact hsp ha
    · exact hdis a ha b hb

theorem Inv.cell_adoptLarge {n : ℕ} (hc : Cell s a n) : a ≠ l ∧ Cell (s.adoptLarge l hd) a n := by
  have hL := h.layout_adoptLarge hsp hlar hok
  have hl : l ∈ (s.adoptLarge l hd).largeAllocations := mem_cons_self
  cases hc with
  | @slot d j hd' hj =>
    have hcl : Cell (s.adoptLarge l hd) ((s.adoptLarge l hd).cellAt d j)
        ((s.adoptLarge l hd).spans d).objectStride := Cell.slot hd' hj
    exact ⟨hL.cellAt_ne_large (a := d) (i := j) hd' hj hl, hcl⟩
  | large hh =>
    have hne : a ≠ l := by
      rintro rfl
      exact hlar hh
    have hcl : Cell (s.adoptLarge l hd) a ((s.adoptLarge l hd).headers a).mappingSize :=
      Cell.large (mem_cons_of_mem _ hh)
    have hhea : (s.adoptLarge l hd).headers a = s.headers a := update_of_ne hne _ _
    rw [hhea] at hcl
    exact ⟨hne, hcl⟩

theorem Inv.prepared_adoptLarge (size : ℕ)
    (hrm : M.headerSize + hd.requestedSize + M.suffixSize ≤ hd.mappingSize) :
    Prepared M (s.adoptLarge l hd) (debugPrepare M l (l + M.headerSize)
      ((s.adoptLarge l hd).countAllocation size)) l hd.mappingSize hd := by
  have hL₁ := h.layout_adoptLarge hsp hlar hok
  have hsl : (s.adoptLarge l hd).headers l = hd := update_self _ _ _
  have hc₁ : Cell (s.adoptLarge l hd) l ((s.adoptLarge l hd).headers l).mappingSize :=
    Cell.large mem_cons_self
  rw [hsl] at hc₁
  have hcnt : (s.adoptLarge l hd).countAllocation size =
      { (s.adoptLarge l hd).setHeader l hd with
        stats := ((s.adoptLarge l hd).countAllocation size).stats } := by
    simp only [countAllocation, adoptLarge, setHeader, update_idem]
  rw [hcnt]
  exact hL₁.prepared hc₁ hd (fun _ => by rw [hsl]; exact Header.Like.refl _) hrm _

theorem Inv.adoptLarge (hpos : 0 < size) (hmag : hd.magic = objectMagic)
    (hsta : hd.state = .allocated) (hreq : hd.requestedSize = size) (hcap : hd.capacity = size)
    (hbj : s.stats.activeObjects + 1 < modulus)
    (hbyt : s.stats.activeBytes + size < modulus) :
    (debugPrepare M l (l + M.headerSize)
      ((s.adoptLarge l hd).countAllocation size)).live = s.live ∧
    Inv M { debugPrepare M l (l + M.headerSize)
      ((s.adoptLarge l hd).countAllocation size) with
        live := ⟨l + M.headerSize, size⟩ :: s.live } loc c := by
  have hL := h.layout
  have hL₁ := h.layout_adoptLarge hsp hlar hok
  have hl : l ∈ (s.adoptLarge l hd).largeAllocations := mem_cons_self
  have hsl : (s.adoptLarge l hd).headers l = hd := update_self _ _ _
  have hc₁ : Cell (s.adoptLarge l hd) l hd.mappingSize := by
    have hcl : Cell (s.adoptLarge l hd) l ((s.adoptLarge l hd).headers l).mappingSize :=
      Cell.large hl
    rw [hsl] at hcl
    exact hcl
  have hcel : ∀ a n, Cell s a n → a ≠ l ∧ Cell (s.adoptLarge l hd) a n := fun a n hc =>
    h.cell_adoptLarge hsp hlar hok hc
  have hft := hok.fits
  have hpr := h.prepared_adoptLarge hsp hlar hok size (by omega)
  obtain ⟨hlv₂, hsta₂⟩ := debugPrepare_accounts M l (l + M.headerSize)
    ((s.adoptLarge l hd).countAllocation size)
  generalize debugPrepare M l (l + M.headerSize)
    ((s.adoptLarge l hd).countAllocation size) = t at hpr hlv₂ hsta₂ ⊢
  have hstat : t.stats.activeObjects = s.stats.activeObjects + 1 ∧
      t.stats.activeBytes = s.stats.activeBytes + size := by
    rw [hsta₂]
    exact ⟨add_of_lt hbj, add_of_lt hbyt⟩
  have htou := hpr.touches.trans
    (Touches.accounts M t t.stats (⟨l + M.headerSize, size⟩ :: s.live) _ _)
  have hslot : ∀ u, s.IsSlot M u → u ≠ l + M.headerSize := by
    rintro u ⟨b, hb, j, hj, rfl⟩ heq
    exact (hcel _ _ (Cell.slot hb hj)).1 (Nat.add_right_cancel heq)
  have hptr : ∀ b ∈ s.live, b.ptr ≠ l + M.headerSize := by
    intro b hb heq
    obtain ⟨n, hc, hle, -⟩ := h.live.cell hL h.headers hb
    exact (hcel _ _ hc).1 (by omega)
  have hsm := htou.same.toSameObjects
  refine ⟨hlv₂, ?_⟩
  constructor
  case layout => exact hL₁.same htou.same
  case lists =>
    have hlists : Lists M (s.adoptLarge l hd) loc c := { h.lists with }
    exact htou.lists hL₁ hc₁ hlists fun u hu _ => hslot u hu
  case headers =>
    have hhds : Headers M (s.adoptLarge l hd) loc := by
      refine ⟨fun b hb i hi => ?_, fun h' hh' => ?_, fun h' hh' => ?_⟩
      · have hne := (hcel _ _ (Cell.slot hb hi)).1
        have hhea : (s.adoptLarge l hd).headers (s.cellAt b i) = s.headers (s.cellAt b i) :=
          update_of_ne hne _ _
        have hslo := h.headers.slot b hb i hi
        rw [← hhea] at hslo
        exact hslo
      all_goals rcases mem_cons.mp hh' with rfl | hh'
      · rw [hsl]
        exact hmag
      · have hhea : (s.adoptLarge l hd).headers h' = s.headers h' :=
          update_of_ne (hcel _ _ (Cell.large hh')).1 _ _
        rw [hhea]
        exact h.headers.magic h' hh'
      · rw [hsl]
        exact hsta
      · have hhea : (s.adoptLarge l hd).headers h' = s.headers h' :=
          update_of_ne (hcel _ _ (Cell.large hh')).1 _ _
        rw [hhea]
        exact h.headers.state h' hh'
    refine hhds.frame hsm (fun l' n' hc => ?_) fun _ _ => Iff.rfl
    by_cases heq : l' = l
    · subst heq
      rw [hsl]
      exact hpr.core
    · rw [htou.headers l' n' hc heq]
  case live =>
    constructor
    case nodup =>
      refine nodup_cons.mpr ⟨fun hmem => ?_, h.live.nodup⟩
      obtain ⟨b, hb, heq⟩ := mem_map.mp hmem
      exact hptr b hb heq
    case mem =>
      intro u
      rw [map_cons, mem_cons, h.live.mem, hsm.isSlot M, hsm.largeAllocations]
      have hslots : (s.adoptLarge l hd).IsSlot M u ↔ s.IsSlot M u := Iff.rfl
      simp only [State.adoptLarge, mem_cons, exists_eq_or_imp] at hslots ⊢
      rw [hslots]
      exact or_left_comm
    case block =>
      intro b hb
      rcases mem_cons.mp hb with rfl | hb
      · have hblo := hpr.block (by omega) (by omega)
        rw [hreq] at hblo
        rw [Nat.add_sub_cancel]
        exact hblo
      · obtain ⟨n, hc, hle, hfit, -⟩ := h.live.cell hL h.headers hb
        obtain ⟨hne, hc'⟩ := hcel _ _ hc
        have hhea : t.headers (b.ptr - M.headerSize) = s.headers (b.ptr - M.headerSize) := by
          rw [htou.headers _ _ hc' hne]
          exact update_of_ne hne _ _
        dsimp only
        rw [hhea]
        have hhdr := hL₁.header_fits hc₁
        have hsz := (h.live.block b hb).size_le
        exact (h.live.block b hb).keeps htou.bytes
          ((hL₁.cells_apart hc₁ hc' hne.symm).within (by omega) (by omega) (by omega) (by omega))
    case activeObjects =>
      rw [hstat.1]
      exact congrArg (· + 1) h.live.activeObjects
    case activeBytes => rw [hstat.2, map_cons, sum_cons, ← h.live.activeBytes, Nat.add_comm]
    case activeBytes_lt =>
      rw [hstat.2]
      exact hbyt
  case aborted => exact htou.aborted.trans h.aborted
  case released =>
    rw [htou.released]
    exact h.released

end Large

def Serves (M : Platform) (size : ℕ) (s : State) (r : ℕ × State) : Prop :=
  r.2.live = s.live ∧
    (r.1 = 0 ∧ Good M r.2 ∨ r.1 ≠ 0 ∧ Good M { r.2 with live := ⟨r.1, size⟩ :: s.live })

theorem Live.length_lt (hV : Live M s loc) (hL : Layout M s) (hH : Headers M s loc) :
    s.live.length < modulus := by
  have hlen := length_lt_of_nodup hV.nodup modulus (fun u hu => ?_) (by decide)
  · rwa [length_map] at hlen
  obtain ⟨b, hb, rfl⟩ := mem_map.mp hu
  obtain ⟨n, hc, hle, hfit, -⟩ := hV.cell hL hH hb
  obtain ⟨o, m, hreg, -, -, hend⟩ := hL.cell_inside hc
  have hok := hV.block b hb
  have hpos := hok.size_pos
  have hsz := hok.size_le
  have hmap := (hL.mapped.size _ hreg).2
  have hhdr := M.headerSize_cases
  dsimp only at hmap
  omega

theorem mallocLarge_spec (h : Good M s) (x : Env) (hpos : 0 < size)
    (hbj : s.stats.activeObjects + 1 < modulus)
    (hbyt : s.stats.activeBytes + size < modulus) :
    Serves M size s (mallocLarge M x size s) := by
  have hfl : Serves M size s (0, s) := ⟨rfl, Or.inl ⟨rfl, h⟩⟩
  unfold mallocLarge
  split_ifs with hsz
  · exact hfl
  dsimp only
  split_ifs with htot hpag
  · exact hfl
  · exact hfl
  obtain ⟨loc, c, hI⟩ := h
  have hpa : 0 < s.pageSize := lt_of_lt_of_le (by decide) hI.layout.holdsSpan
  have hft := le_pages_mul (M.headerSize + size + M.suffixSize) hpa
  generalize hp : (M.headerSize + size + M.suffixSize + s.pageSize - 1) / s.pageSize = pages
    at hpag hft
  rcases pageHeapAcquire_cases M x pages s with hnn | ⟨l, hpg, hf, hso⟩
  · rw [hnn]
    exact hfl
  · rw [hso]
    have hhdr := M.headerSize_cases
    have hn : 0 < pages * s.pageSize := by omega
    obtain ⟨hsp, hlar⟩ := hI.layout.fresh_not_mem hf hn
    have hI₁ := hI.addMapping hf hn
    have hne : l + M.headerSize ≠ 0 := by omega
    have hok : LargeOk M (s.addMapping M l (pages * s.pageSize)).mapped l
        { (s.addMapping M l (pages * s.pageSize)).headers l with
          magic := objectMagic
          kind := .large
          state := .allocated
          requestedSize := size
          capacity := size
          span := 0
          mappingBase := l
          mappingSize := pages * s.pageSize
          ownerP := memoryCurrentP x } := ⟨rfl, rfl, mem_cons_self, hft⟩
    obtain ⟨hlv, hI₂⟩ := hI₁.adoptLarge hsp hlar hok hpos rfl rfl rfl rfl hbj hbyt
    exact ⟨hlv, Or.inr ⟨hne, loc, c, hI₂⟩⟩

theorem Good.countCacheHit (h : Good M s) (x : Env) (k : ℕ) :
    Good M (countCacheHit x k s) ∧ SameAccounts s (countCacheHit x k s) := by
  unfold Memory.countCacheHit
  split_ifs
  · obtain ⟨loc, c, hI⟩ := h
    exact ⟨⟨loc, c, hI.stats rfl rfl⟩, rfl, rfl, rfl⟩
  · exact ⟨h, SameAccounts.refl s⟩

theorem Good.room (h : Good M s) (hsz : size < modulus) (hcan : statsCanAllocate size s = true) :
    s.stats.activeObjects + 1 < modulus ∧ s.stats.activeBytes + size < modulus := by
  have hmax : sizeMax = modulus - 1 := rfl
  have hmod : modulus = 18446744073709551616 := rfl
  simp only [statsCanAllocate, Bool.and_eq_true, decide_eq_true_eq, bne_iff_ne] at hcan
  obtain ⟨loc, c, hI⟩ := h
  have hlt := hI.live.activeObjects
  have hle := hI.live.length_lt hI.layout hI.headers
  omega

theorem mallocLocked_spec (h : Good M s) (x : Env) (hpos : 0 < size) (hsz : size < modulus) :
    Serves M size s (mallocLocked M x size s) := by
  unfold mallocLocked
  split_ifs with hcan
  · exact ⟨rfl, Or.inl ⟨rfl, h⟩⟩
  have hrm := h.room hsz (Bool.eq_true_of_not_eq_false hcan)
  dsimp only
  split_ifs with hlar
  · exact mallocLarge_spec h x hpos hrm.1 hrm.2
  have hk : sizeClassIndex size < sizeClassCount := not_le.mp hlar
  have hhit := h.countCacheHit x (sizeClassIndex size)
  obtain ⟨t, hgd, hacc, hpop | ⟨hhe, hpop⟩⟩ := cachePop_cases hhit.1 x hk
  · have hacc' := hhit.2.trans hacc
    rw [hpop]
    exact ⟨hacc'.live, Or.inl ⟨rfl, hgd⟩⟩
  · have hacc' := hhit.2.trans hacc
    obtain ⟨loc, c, hI⟩ := hgd
    obtain ⟨a, ha, i, hi, -, hfst, hlv, -, hI'⟩ := hI.allocate x hhe hpos
      (le_sizeClassCapacity hk) (by rw [hacc'.activeObjects]; exact hrm.1)
      (by rw [hacc'.activeBytes]; exact hrm.2)
    have hne : (cacheTake M (.cache (memoryCurrentP x) (sizeClassIndex size)) t).1 ≠ 0 := by
      rw [hfst]
      exact Nat.ne_of_gt (hI.layout.slot_bounds ha hi).1
    rw [hpop]
    cases hr : cacheTake M (.cache (memoryCurrentP x) (sizeClassIndex size)) t with
    | mk user t₁ =>
      rw [hr] at hne hlv hI'
      cases user with
      | zero => exact absurd rfl hne
      | succ user =>
        rw [hacc'.live] at hlv hI'
        exact ⟨hlv, Or.inr ⟨hne, _, _, hI'⟩⟩

end Veloco.Memory
