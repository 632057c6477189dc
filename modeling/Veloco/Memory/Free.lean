import Veloco.Memory.Alloc

/-!
# `vl_free`, and blocks that stay
-/

namespace Veloco.Memory

open Function List State
open Veloco.Bytes Veloco.Word Veloco.Chain Veloco.Ledger

variable {M : Platform} {s t : State} {loc : ℕ → Place} {c : Place → List ℕ}
  {a i k l m n p size w : ℕ} {b : Block}

/-! ## The clients' list -/

theorem perm_cons_filter {L : List Block} (hnd : (L.map Block.ptr).Nodup) (hb : b ∈ L) :
    L.Perm (b :: L.filter fun d => d.ptr != b.ptr) := by
  have hL : L.Nodup := List.Nodup.of_map _ hnd
  rw [perm_ext_iff_of_nodup hL (nodup_cons.mpr ⟨by simp, hL.filter _⟩)]
  intro d
  simp only [mem_cons, mem_filter, bne_iff_ne, ne_eq]
  constructor
  · intro hd
    by_cases heq : d.ptr = b.ptr
    · exact .inl (inj_on_of_nodup_map hnd hd hb heq)
    · exact .inr ⟨hd, heq⟩
  · rintro (rfl | ⟨hd, -⟩)
    · exact hb
    · exact hd

theorem Live.filter_stats (hV : Live M s loc) (hb : b ∈ s.live) :
    (s.live.filter fun d => d.ptr != b.ptr).length + 1 = s.stats.activeObjects ∧
      ((s.live.filter fun d => d.ptr != b.ptr).map Block.size).sum + b.size =
        s.stats.activeBytes := by
  have hpr := perm_cons_filter hV.nodup hb
  have hsum := (hpr.map Block.size).sum_eq
  rw [map_cons, sum_cons] at hsum
  rw [hV.activeObjects, hV.activeBytes, hpr.length_eq, hsum, length_cons]
  omega

theorem mem_filter_ptr (L : List Block) (ptr u : ℕ) :
    u ∈ (L.filter fun d => d.ptr != ptr).map Block.ptr ↔ u ≠ ptr ∧ u ∈ L.map Block.ptr := by
  simp only [mem_map, mem_filter, bne_iff_ne, ne_eq]
  constructor
  · rintro ⟨d, ⟨hd, hne⟩, rfl⟩
    exact ⟨hne, d, hd, rfl⟩
  · rintro ⟨hne, d, hd, rfl⟩
    exact ⟨d, ⟨hd, hne⟩, rfl⟩

def State.withLive (s : State) (live : List Block) : State := { s with live := live }

section WithLive

variable (M : Platform) (x : Env) (s : State) (live : List Block)

theorem pageHeapRelease_withLive (base size : ℕ) :
    pageHeapRelease x base size (s.withLive live) =
      (pageHeapRelease x base size s).withLive live := by
  unfold pageHeapRelease
  by_cases hnl : base = 0 ∨ size = 0
  · rw [if_pos hnl, if_pos hnl]
  · rw [if_neg hnl, if_neg hnl]
    by_cases hfl : x.munmap base = false
    · rw [if_pos hfl, if_pos hfl]
    · rw [if_neg hfl, if_neg hfl]
      rfl

theorem drainOne_withLive (b : Bin) :
    drainOne M x b (s.withLive live) = (drainOne M x b s).withLive live := by
  have hmv : ∀ a u : ℕ, spanMoveToCentral M a u ((binPop b s).withLive live) =
      (spanMoveToCentral M a u (binPop b s)).withLive live := by
    intro a u
    unfold spanMoveToCentral
    split_ifs <;> rfl
  have hrec : ∀ (a : ℕ) (t : State), spanReclaimIfEmpty x a (t.withLive live) =
      (spanReclaimIfEmpty x a t).withLive live := by
    intro a t
    rw [spanReclaimIfEmpty_eq, spanReclaimIfEmpty_eq]
    by_cases hcn : a = 0 ∨ (t.spans a).reclaimable = false
    · rw [if_pos hcn]
      exact if_pos hcn
    · rw [if_neg hcn]
      refine (if_neg hcn).trans ?_
      exact pageHeapRelease_withLive x (t.disown a) live _ _
  unfold drainOne
  exact (congrArg _ (hmv _ _)).trans (hrec _ _)

theorem drainLoop_withLive (b : Bin) : ∀ (n : ℕ) (s : State),
    drainLoop M x b n (s.withLive live) = (drainLoop M x b n s).withLive live
  | 0, _ => rfl
  | n + 1, s => by
    rw [drainLoop, drainLoop, drainOne_withLive, drainLoop_withLive b n]
    by_cases hhd : (s.bins b).head = 0
    · rw [if_pos hhd]
      exact if_pos hhd
    · rw [if_neg hhd]
      exact if_neg hhd

theorem cacheGive_withLive (b : Bin) (header user : ℕ) :
    cacheGive M b header user (s.withLive live) =
      (cacheGive M b header user s).withLive live := by
  unfold cacheGive poison countCrossPFree
  cases b <;> dsimp only <;> split_ifs <;> rfl

theorem cachePush_withLive (header user : ℕ) :
    cachePush M x header user (s.withLive live) =
      (cachePush M x header user s).withLive live := by
  have hgv := cacheGive_withLive M s live (pushBin x (s.headers header).ownerP
    (s.spans (s.headers header).span).classIndex) header user
  unfold cachePush
  dsimp only
  refine (congrArg (fun t : State => if (t.bins (pushBin x (s.headers header).ownerP
    (s.spans (s.headers header).span).classIndex)).count > cacheMax then
      drainCache M x (t.spans (t.headers header).span).classIndex t else t) hgv).trans ?_
  generalize cacheGive M (pushBin x (s.headers header).ownerP
    (s.spans (s.headers header).span).classIndex) header user s = t
  by_cases hfu : (t.bins (pushBin x (s.headers header).ownerP
      (s.spans (s.headers header).span).classIndex)).count > cacheMax
  · rw [if_pos hfu]
    exact (if_pos hfu).trans (drainLoop_withLive M x live _ _ t)
  · rw [if_neg hfu]
    exact if_neg hfu

theorem debugValidate_withLive (header user : ℕ) :
    debugValidate M header user (s.withLive live) =
      ((debugValidate M header user s).1,
        ((debugValidate M header user s).2).withLive live) := by
  unfold debugValidate debugAbort
  dsimp only [withLive]
  split_ifs <;> rfl

theorem free_withLive (ptr : ℕ) :
    free M x ptr (s.withLive live) = (free M x ptr s).withLive live := by
  have habo : ∀ t : State, debugAbort M (t.withLive live) =
      (debugAbort M t).withLive live := by
    intro t
    unfold debugAbort
    split_ifs <;> rfl
  have hche : ∀ t : State, freeChecked M x ptr (t.withLive live) =
      (freeChecked M x ptr t).withLive live := by
    intro t
    have hkn : ((t.withLive live).headers (ptr - M.headerSize)).kind =
        (t.headers (ptr - M.headerSize)).kind := rfl
    unfold freeChecked
    dsimp only
    rw [hkn]
    cases (t.headers (ptr - M.headerSize)).kind with
    | large =>
      exact pageHeapRelease_withLive x (largeRemove (ptr - M.headerSize)
        (markFree (ptr - M.headerSize) t)) live _ _
    | small => exact cachePush_withLive M x (markFree (ptr - M.headerSize) t) live _ _
  unfold free
  by_cases hnl : ptr = 0 ∨ s.initialized = false
  · rw [if_pos hnl]
    exact if_pos hnl
  rw [if_neg hnl]
  refine (if_neg hnl).trans ?_
  dsimp only
  by_cases hbad : (s.headers (ptr - M.headerSize)).magic ≠ objectMagic ∨
      (s.headers (ptr - M.headerSize)).state ≠ .allocated
  · rw [if_pos hbad]
    exact (if_pos hbad).trans (habo s)
  rw [if_neg hbad]
  refine (if_neg hbad).trans ?_
  rw [debugValidate_withLive]
  cases hv : debugValidate M (ptr - M.headerSize) ptr s with
  | mk ok t =>
    cases ok with
    | false => rfl
    | true =>
      dsimp only
      by_cases hsta : t.stats.activeObjects = 0 ∨
          t.stats.activeBytes < (s.headers (ptr - M.headerSize)).requestedSize
      · rw [if_pos hsta]
        exact (if_pos hsta).trans (habo t)
      · rw [if_neg hsta]
        exact (if_neg hsta).trans (hche t)

end WithLive

theorem Inv.validate (h : Inv M s loc c) (hb : b ∈ s.live) :
    (s.headers (b.ptr - M.headerSize)).magic = objectMagic ∧
      (s.headers (b.ptr - M.headerSize)).state = .allocated ∧
      debugValidate M (b.ptr - M.headerSize) b.ptr s = (true, s) ∧
      s.stats.activeObjects ≠ 0 ∧ b.size ≤ s.stats.activeBytes := by
  have hok := h.live.block b hb
  have hsta := h.live.filter_stats hb
  have hhea : (s.headers (b.ptr - M.headerSize)).magic = objectMagic ∧
      (s.headers (b.ptr - M.headerSize)).state = .allocated := by
    rcases (h.live.mem b.ptr).mp (mem_map_of_mem hb) with ⟨⟨a, ha, i, hi, hu⟩, hal⟩ | ⟨l, hl, hu⟩
    · have hsl := h.headers.slot a ha i hi
      rw [hu, slot_sub]
      exact ⟨hsl.magic, hsl.state.mpr (hu ▸ hal)⟩
    · rw [hu, Nat.add_sub_cancel]
      exact ⟨h.headers.magic l hl, h.headers.state l hl⟩
  refine ⟨hhea.1, hhea.2, ?_, by omega, by omega⟩
  unfold debugValidate
  by_cases hdeb : M.debug = true
  · rw [if_pos hdeb]
    dsimp only
    rw [if_neg, if_neg]
    · rw [hok.requested, not_not]
      exact hok.suffixCanary hdeb
    · rw [not_or, not_or, not_not, not_not, not_not]
      exact ⟨hhea.1, hok.prefixCanary hdeb, hhea.2⟩
  · rw [if_neg hdeb]

theorem poison_header (hL : Layout M s) (hc : Cell s l n) (hfit : M.headerSize + k ≤ n) :
    (poison M (l + M.headerSize) k s).headers l = s.headers l := by
  unfold poison
  split_ifs
  · exact hL.overwrite_header hc le_rfl (by omega) _ hc
  · rfl

theorem poison_accounts (M : Platform) (user : ℕ) (s : State) :
    (poison M user k s).stats = s.stats ∧ (poison M user k s).live = s.live := by
  unfold poison
  split_ifs <;> exact ⟨rfl, rfl⟩

theorem countCrossPFree_eq (d : Bin) (s : State) :
    ∃ stats : Stats, stats.activeObjects = s.stats.activeObjects ∧
      stats.activeBytes = s.stats.activeBytes ∧
      countCrossPFree d s = { s with stats := stats } := by
  cases d with
  | cache p k => exact ⟨s.stats, rfl, rfl, rfl⟩
  | remote p k => exact ⟨{ s.stats with crossPFrees := add s.stats.crossPFrees 1 }, rfl, rfl, rfl⟩

theorem Lists.cacheLink (hL : Layout M t) (hS : Lists M t loc c) (ha : a ∈ t.allSpans)
    (hi : i < (t.spans a).objectCount) (hsp : (t.headers (t.cellAt a i)).span = a)
    (hal : loc (t.slot M a i) = .allocated) (d : Bin) :
    Moves M t (cacheLink M d (t.cellAt a i) (t.slot M a i) t) a (t.slot M a i)
        .allocated (.bin d) ∧
      (∀ l n, Cell t l n →
        (cacheLink M d (t.cellAt a i) (t.slot M a i) t).headers l = t.headers l) ∧
      (cacheLink M d (t.cellAt a i) (t.slot M a i) t).bytes =
        store t.bytes (t.slot M a i) 8 (t.bins d).head := by
  have hsl : t.IsSlot M (t.slot M a i) := ⟨a, ha, i, hi, rfl⟩
  have hadd : add (t.bins d).count 1 = (t.bins d).count + 1 :=
    hS.binCount_add hL hsl (by rw [hal]; simp)
  have hcac := hL.tally_add ha hi loc (q := Place.isCached) (by rw [hal]; rfl)
  have hact := hL.tally_sub ha hi loc (q := Place.isAllocated) (by rw [hal]; rfl)
  rw [← hS.cachedCount a ha] at hcac
  rw [← hS.activeCount a ha] at hact
  have hcou := hS.counts ha
  have hfre := hS.freeCount a ha
  have hlt := hL.objectCount_lt ha
  have hfr : add (t.spans a).freeCount 1 = (t.spans a).freeCount + 1 := add_of_lt (by omega)
  have hspan' := hL.setLink_span ha hi (t.bins d).head ha
  have hhea := hL.setLink_header ha hi (t.bins d).head (Cell.slot ha hi)
  have hstat : Memory.cacheLink M d (t.cellAt a i) (t.slot M a i) t =
      t.relink M (t.slot M a i) (t.head (.bin d))
        (update t.bins d ⟨t.slot M a i, (t.bins d).count + 1⟩) a
        { t.spans a with
          cachedCount := (t.spans a).cachedCount + 1
          freeCount := (t.spans a).freeCount + 1
          activeCount := sub (t.spans a).activeCount 1 } := by
    have hps : binPush M d (t.slot M a i) t =
        { t.setLink M (t.slot M a i) (t.bins d).head with
          bins := update t.bins d ⟨t.slot M a i, (t.bins d).count + 1⟩ } := by
      rw [← hadd]
      rfl
    unfold Memory.cacheLink
    rw [hps]
    dsimp only
    rw [hhea, hsp, hspan', hcac, hfr]
    rfl
  rw [hstat]
  refine ⟨hS.relink hL ha hi trivial ⟨rfl, rfl, rfl, rfl, rfl, rfl, rfl⟩ (fun hl => absurd hl id)
    ?_ ?_ (fun _ _ => rfl) ?_ rfl ?_ ?_ ?_, ?_, rfl⟩
  · simp [State.relink, State.head]
  · intro b' _ hb'
    simp only [ne_eq, Place.bin.injEq] at hb'
    simp [hb']
  · intro b'
    by_cases hb' : b' = d
    · subst hb'
      simp
    · simp [hb', Ne.symm hb']
  · simp [Place.isCached]
  · simpa [Place.isAllocated] using hact
  · simp [Place.isAllocated]
  · exact fun l n hc => hL.setLink_header ha hi (t.bins d).head hc

theorem Inv.give (h : Inv M s loc c) (ha : a ∈ s.allSpans) (hi : i < (s.spans a).objectCount)
    (hb : b ∈ s.live) (hptr : b.ptr = s.slot M a i) {d : Bin}
    (hft : (Place.bin d).Fits a (s.spans a).classIndex) {t : State}
    (ht : t = cacheGive M d (s.cellAt a i) (s.slot M a i) (markFree (s.cellAt a i) s)) :
    Inv M (t.withLive (s.live.filter fun e => e.ptr != b.ptr))
        (update loc (s.slot M a i) (.bin d)) (bring c (s.slot M a i) (.bin d)) ∧
      SameLayout s (t.withLive (s.live.filter fun e => e.ptr != b.ptr)) ∧
      (t.spans (t.headers (s.cellAt a i)).span).classIndex = (s.spans a).classIndex := by
  subst ht
  have hL := h.layout
  have hlar : s.cellAt a i ∉ s.largeAllocations := fun hmem => hL.cellAt_ne_large ha hi hmem rfl
  have hal : loc (s.slot M a i) = .allocated := by
    rcases (h.live.mem b.ptr).mp (mem_map_of_mem hb) with ⟨-, hal⟩ | ⟨l, hl, hu⟩
    · rw [hptr] at hal
      exact hal
    · rw [hptr] at hu
      exact absurd (Nat.add_right_cancel hu) (hL.cellAt_ne_large ha hi hl)
  have hhea := h.headers.slot a ha i hi
  have hc : Cell s (s.cellAt a i) (s.spans a).objectStride := Cell.slot ha hi
  have hst := hL.stride_bounds ha
  have hok := h.live.block b hb
  have hreq : (s.headers (s.cellAt a i)).requestedSize = b.size := by
    rw [← hok.requested, hptr, State.slot_sub]
  obtain ⟨hlen, hsum⟩ := h.live.filter_stats hb
  have hlt := h.live.activeBytes_lt
  have hlen_ := h.live.length_lt hL h.headers
  rw [← h.live.activeObjects] at hlen_
  -- the header and the statistics, then the poison
  have htou₁ : Touches M s (markFree (s.cellAt a i) s) (s.cellAt a i) (s.spans a).objectStride :=
    (Touches.setHeader _ fun hmem => absurd hmem hlar).trans (Touches.accounts M _ _ _ _ _)
  have hhdr₁ : (markFree (s.cellAt a i) s).headers (s.cellAt a i) =
      { s.headers (s.cellAt a i) with state := .free } := update_self _ _ _
  have hsta₁ : (markFree (s.cellAt a i) s).stats.activeObjects =
        (s.live.filter fun e => e.ptr != b.ptr).length ∧
      (markFree (s.cellAt a i) s).stats.activeBytes =
        ((s.live.filter fun e => e.ptr != b.ptr).map Block.size).sum := by
    simp only [markFree, hreq]
    rw [sub_of_le (by omega) (by omega), sub_of_le (by omega) hlt]
    omega
  obtain ⟨stats, hobj, hbyt, hcro⟩ := countCrossPFree_eq d (markFree (s.cellAt a i) s)
  have htou₂ : Touches M s (countCrossPFree d (markFree (s.cellAt a i) s)) (s.cellAt a i)
      (s.spans a).objectStride := by
    rw [hcro]
    exact htou₁.trans (Touches.accounts M _ _ _ _ _)
  have hhdr₂ : (countCrossPFree d (markFree (s.cellAt a i) s)).headers (s.cellAt a i) =
      { s.headers (s.cellAt a i) with state := .free } := by
    rw [hcro]
    exact hhdr₁
  have hsta₂ : (countCrossPFree d (markFree (s.cellAt a i) s)).stats = stats := by rw [hcro]
  have hcap : ((markFree (s.cellAt a i) s).headers (s.cellAt a i)).capacity =
      (s.spans a).capacity := by
    rw [hhdr₁]
    exact hhea.capacity
  unfold cacheGive
  rw [hcap]
  generalize countCrossPFree d (markFree (s.cellAt a i) s) = t₂ at htou₂ hhdr₂ hsta₂ ⊢
  have hL₂ := hL.same htou₂.same
  have hc₂ := htou₂.same.cell hc
  have htou₃ := htou₂.trans (touches_poison hL₂ hc₂ (k := (s.spans a).capacity) (by omega))
  have hhdr₃ := poison_header hL₂ hc₂ (k := (s.spans a).capacity) (by omega)
  rw [hhdr₂] at hhdr₃
  have hsta₃ : (poison M (s.cellAt a i + M.headerSize) (s.spans a).capacity t₂).stats =
      stats := (poison_accounts M _ t₂).1.trans hsta₂
  have hsr : s.slot M a i = s.cellAt a i + M.headerSize := rfl
  rw [← hsr] at htou₃ hhdr₃ hsta₃
  generalize poison M (s.slot M a i) (s.spans a).capacity t₂ = t₃ at htou₃ hhdr₃ hsta₃ ⊢
  have hL₃ := hL.same htou₃.same
  have ha₃ : a ∈ t₃.allSpans := by rw [htou₃.same.allSpans]; exact ha
  have hi₃ : i < (t₃.spans a).objectCount := by rw [htou₃.spans a ha]; exact hi
  have hcl₃ : t₃.cellAt a i = s.cellAt a i := htou₃.same.cellAt ha i
  have hsl₃ : t₃.slot M a i = s.slot M a i := htou₃.same.slot M ha i
  have hlists₃ : Lists M t₃ loc c := by
    refine htou₃.lists hL hc h.lists fun v _ hfr heq => hfr ?_
    rw [heq]
    exact hal
  -- the object is linked in front of the cache
  obtain ⟨hmv, hhds₄, hbyt₄⟩ := hlists₃.cacheLink hL₃ ha₃ hi₃
    (by rw [hcl₃, hhdr₃]; exact hhea.span) (by rw [hsl₃]; exact hal) d
  have hft₃ : (Place.bin d).Fits a (t₃.spans a).classIndex := by
    rw [htou₃.spans a ha]
    exact hft
  have hlis₄ := hlists₃.move hL₃ ha₃ hi₃ (by rw [hsl₃]; exact hal) (by simp) hft₃ hmv
  rw [hcl₃, hsl₃] at hmv hhds₄ hbyt₄ hlis₄
  have hacc₄ : (Memory.cacheLink M d (s.cellAt a i) (s.slot M a i) t₃).stats = stats ∧
      (Memory.cacheLink M d (s.cellAt a i) (s.slot M a i) t₃).aborted = s.aborted ∧
      (Memory.cacheLink M d (s.cellAt a i) (s.slot M a i) t₃).released = s.released :=
    ⟨hsta₃, htou₃.aborted, htou₃.released⟩
  generalize Memory.cacheLink M d (s.cellAt a i) (s.slot M a i) t₃ = t₄
    at hmv hhds₄ hbyt₄ hlis₄ hacc₄ ⊢
  have htou₄ := Touches.accounts M t₄ t₄.stats (s.live.filter fun e => e.ptr != b.ptr)
    (s.cellAt a i) (s.spans a).objectStride
  have hsm := (htou₃.same.trans hmv.same).trans htou₄.same
  have hbd := hL.slot_bounds ha hi
  have hfin : t₄.headers (s.cellAt a i) = { s.headers (s.cellAt a i) with state := .free } :=
    (hhds₄ _ _ (htou₃.same.cell hc)).trans hhdr₃
  refine ⟨h.change ha hi hsm (hlis₄.frame htou₄.same.toSameObjects rfl
    (fun _ _ => rfl) fun _ _ _ => rfl) ?_ ?_ ?_ ?_ ?_ ?_ ?_ ?_ ?_ ?_ ?_ ?_, hsm, ?_⟩
  · -- the other headers
    intro l n hc' hne
    exact (hhds₄ l n (htou₃.same.cell hc')).trans (htou₃.headers l n hc' hne)
  · -- the header of the object
    exact (congrArg (SlotHeaderOk a (s.spans a) (.bin d)) hfin).mpr
      ⟨hhea.magic, hhea.kind, hhea.capacity, hhea.ownerP, hhea.span, by simp⟩
  · -- the memory
    have hsto : Keeps t₃.bytes t₄.bytes (s.slot M a i)
        ((s.spans a).objectStride - M.headerSize) := by
      rw [hbyt₄]
      exact (keeps_store _ _ _ _).widen le_rfl (by omega)
    exact htou₃.bytes.trans hsto
  · -- the other blocks
    exact fun e he _ => mem_of_mem_filter he
  · -- there is no block at the slot any more
    intro e he heq
    have hmem := (mem_filter_ptr s.live b.ptr e.ptr).mp (mem_map_of_mem he)
    exact absurd (heq.trans hptr.symm) hmem.1
  · -- the pointers differ
    exact h.live.nodup.sublist (List.Sublist.map _ filter_sublist)
  · -- the pointers
    intro v
    refine (mem_filter_ptr s.live b.ptr v).trans ?_
    rw [hptr]
    by_cases hv : v = s.slot M a i
    · simp [hv]
    · simp [hv]
  · -- the statistics
    exact (congrArg Stats.activeObjects hacc₄.1).trans (hobj.trans hsta₁.1)
  · exact (congrArg Stats.activeBytes hacc₄.1).trans (hbyt.trans hsta₁.2)
  · have hfin : t₄.stats.activeBytes = _ :=
      (congrArg Stats.activeBytes hacc₄.1).trans (hbyt.trans hsta₁.2)
    exact lt_of_eq_of_lt hfin (by omega)
  · exact hacc₄.2.1
  · exact hacc₄.2.2
  · rw [hfin]
    dsimp only
    rw [hhea.span]
    exact (hsm.spans a ha).classIndex

theorem Inv.disownLarge (h : Inv M s loc c) (hl : l ∈ s.largeAllocations) (hb : b ∈ s.live)
    (hptr : b.ptr = l + M.headerSize) :
    Inv M ((largeRemove l (markFree l s)).withLive
      (s.live.filter fun e => e.ptr != b.ptr)) loc c := by
  have hL := h.layout
  have hnd := nodup_append.mp hL.nodup
  have hreq : (s.headers l).requestedSize = b.size := by
    rw [← (h.live.block b hb).requested, hptr, Nat.add_sub_cancel]
  obtain ⟨hlen, hsum⟩ := h.live.filter_stats hb
  have hlt := h.live.activeBytes_lt
  have hlen_ := h.live.length_lt hL h.headers
  rw [← h.live.activeObjects] at hlen_
  have hsta : (markFree l s).stats.activeObjects = (s.live.filter fun e => e.ptr != b.ptr).length ∧
      (markFree l s).stats.activeBytes =
        ((s.live.filter fun e => e.ptr != b.ptr).map Block.size).sum := by
    simp only [markFree, hreq]
    rw [sub_of_le (by omega) (by omega), sub_of_le (by omega) hlt]
    omega
  have hhea : ∀ l', l' ≠ l → (markFree l s).headers l' = s.headers l' := fun l' hne =>
    update_of_ne hne _ _
  have hmem : ∀ l', l' ∈ s.largeAllocations.erase l ↔ l' ≠ l ∧ l' ∈ s.largeAllocations :=
    fun l' => hnd.2.1.mem_erase_iff
  constructor
  case layout =>
    refine { hL with larges := ?_, nodup := ?_ }
    · intro l' hl'
      obtain ⟨hne, hl'⟩ := (hmem l').mp hl'
      exact (congrArg (LargeOk M s.mapped l') (hhea l' hne)).mpr (hL.larges l' hl')
    · exact hL.nodup.sublist (List.Sublist.append_left erase_sublist _)
  case lists => exact { h.lists with }
  case headers =>
    refine ⟨fun a ha i hi => ?_, fun l' hl' => ?_, fun l' hl' => ?_⟩
    · have hne : s.cellAt a i ≠ l := hL.cellAt_ne_large ha hi hl
      exact (congrArg (SlotHeaderOk a (s.spans a) (loc (s.slot M a i)))
        (hhea _ hne)).mpr (h.headers.slot a ha i hi)
    · obtain ⟨hne, hl'⟩ := (hmem l').mp hl'
      exact (congrArg Header.magic (hhea l' hne)).trans (h.headers.magic l' hl')
    · obtain ⟨hne, hl'⟩ := (hmem l').mp hl'
      exact (congrArg Header.state (hhea l' hne)).trans (h.headers.state l' hl')
  case live =>
    constructor
    case nodup => exact h.live.nodup.sublist (List.Sublist.map _ filter_sublist)
    case mem =>
      intro u
      refine (mem_filter_ptr s.live b.ptr u).trans ?_
      rw [h.live.mem, hptr, and_or_left]
      refine or_congr ⟨fun hu => hu.2, fun hu => ⟨?_, hu⟩⟩ ⟨?_, ?_⟩
      · rintro rfl
        obtain ⟨a, ha, i, hi, heq⟩ := hu.1
        exact hL.cellAt_ne_large ha hi hl (Nat.add_right_cancel heq).symm
      · rintro ⟨hne, l', hl', rfl⟩
        exact ⟨l', (hmem l').mpr ⟨fun heq => hne (by rw [heq]), hl'⟩, rfl⟩
      · rintro ⟨l', hl', rfl⟩
        obtain ⟨hne, hl'⟩ := (hmem l').mp hl'
        exact ⟨fun heq => hne (Nat.add_right_cancel heq), l', hl', rfl⟩
    case block =>
      intro e he
      obtain ⟨he, hne⟩ := mem_filter.mp he
      simp only [bne_iff_ne, ne_eq] at hne
      obtain ⟨n, -, hle, -⟩ := h.live.cell hL h.headers he
      exact (congrArg (BlockOk M s.bytes e)
        (hhea (e.ptr - M.headerSize) (by omega))).mpr (h.live.block e he)
    case activeObjects => exact hsta.1
    case activeBytes => exact hsta.2
    case activeBytes_lt => exact lt_of_eq_of_lt hsta.2 (by omega)
  case aborted => exact h.aborted
  case released => exact h.released

theorem pushBin_fits (x : Env) {p : ℕ} (hp : p < memoryMaxP) (a k : ℕ) :
    (Place.bin (pushBin x p k)).Fits a k := by
  unfold pushBin
  rw [if_pos hp]
  dsimp only
  split_ifs <;> exact ⟨rfl, hp⟩

theorem Inv.cachePush_eq (h : Inv M s loc c) (x : Env) (ha : a ∈ s.allSpans)
    (hi : i < (s.spans a).objectCount) {d : Bin}
    (hd : d = pushBin x (s.spans a).ownerP (s.spans a).classIndex) {t : State}
    (ht : t = cacheGive M d (s.cellAt a i) (s.slot M a i) (markFree (s.cellAt a i) s)) :
    cachePush M x (s.cellAt a i) (s.slot M a i) (markFree (s.cellAt a i) s) =
      if (t.bins d).count > cacheMax then
        drainCache M x (t.spans (t.headers (s.cellAt a i)).span).classIndex t
      else t := by
  have hhea := h.headers.slot a ha i hi
  have hsf : (markFree (s.cellAt a i) s).headers (s.cellAt a i) =
      { s.headers (s.cellAt a i) with state := .free } := update_self _ _ _
  have hspa : (markFree (s.cellAt a i) s).spans = s.spans := rfl
  unfold Memory.cachePush
  dsimp only
  rw [hsf, hspa]
  dsimp only
  rw [hhea.span, hhea.ownerP, ← hd, ← ht]

theorem Inv.cachePush (h : Inv M s loc c) (x : Env) (ha : a ∈ s.allSpans)
    (hi : i < (s.spans a).objectCount) (hb : b ∈ s.live) (hptr : b.ptr = s.slot M a i) :
    Good M ((cachePush M x (s.cellAt a i) (s.slot M a i)
      (markFree (s.cellAt a i) s)).withLive (s.live.filter fun e => e.ptr != b.ptr)) := by
  have hgd : Good M _ :=
    ⟨_, _, (h.give ha hi hb hptr (pushBin_fits x (h.layout.spans a ha).ownerP a _) rfl).1⟩
  rw [h.cachePush_eq x ha hi rfl rfl]
  split_ifs
  · unfold drainCache
    rw [← drainLoop_withLive]
    exact (good_drainLoop x _ cacheRefill _ hgd).1
  · exact hgd

theorem Inv.free_eq (h : Inv M s loc c) (x : Env) (hb : b ∈ s.live) :
    free M x b.ptr s = freeChecked M x b.ptr s := by
  obtain ⟨hmag, hstat, hval, hobj, hbyt⟩ := h.validate hb
  have hreq := (h.live.block b hb).requested
  have hnl : b.ptr ≠ 0 := by
    obtain ⟨n, -, hle, -⟩ := h.live.cell h.layout h.headers hb
    have hhdr := M.headerSize_cases
    omega
  have hnt : s.initialized ≠ false := by
    rw [h.layout.initialized]
    simp
  unfold free
  rw [if_neg (not_or.mpr ⟨hnl, hnt⟩)]
  dsimp only
  rw [if_neg (not_or.mpr ⟨not_not.mpr hmag, not_not.mpr hstat⟩), hval]
  dsimp only
  rw [if_neg]
  rw [hreq, not_or]
  exact ⟨hobj, by omega⟩

theorem Inv.free_cases (h : Inv M s loc c) (x : Env) (hb : b ∈ s.live) :
    (∃ a ∈ s.allSpans, ∃ i < (s.spans a).objectCount, b.ptr = s.slot M a i ∧
      (s.headers (b.ptr - M.headerSize)).kind = .small ∧
      free M x b.ptr s = Memory.cachePush M x (s.cellAt a i) (s.slot M a i)
        (markFree (s.cellAt a i) s)) ∨
    (∃ l ∈ s.largeAllocations, b.ptr = l + M.headerSize ∧
      (s.headers (b.ptr - M.headerSize)).kind = .large ∧
      free M x b.ptr s = pageHeapRelease x l (s.headers l).mappingSize
        (largeRemove l (markFree l s))) := by
  rw [h.free_eq x hb]
  unfold freeChecked
  dsimp only
  rcases (h.live.mem b.ptr).mp (mem_map_of_mem hb) with ⟨⟨a, ha, i, hi, hu⟩, -⟩ | ⟨l, hl, hu⟩
  · have hcl : b.ptr - M.headerSize = s.cellAt a i := by rw [hu, State.slot_sub]
    have hkn := (h.headers.slot a ha i hi).kind
    rw [hcl, hkn]
    exact .inl ⟨a, ha, i, hi, hu, rfl, by rw [hu]⟩
  · have hok := h.layout.larges l hl
    have hcl : b.ptr - M.headerSize = l := by rw [hu, Nat.add_sub_cancel]
    rw [hcl, hok.kind]
    dsimp only
    rw [hok.base]
    exact .inr ⟨l, hl, hu, rfl, rfl⟩

theorem free_live (x : Env) (ptr : ℕ) (s : State) : (free M x ptr s).live = s.live := by
  have hsf : free M x ptr s = (free M x ptr s).withLive s.live :=
    free_withLive M x s s.live ptr
  have hsm := congrArg State.live hsf
  exact hsm

theorem free_spec (h : Good M s) (x : Env) (hb : b ∈ s.live) :
    (free M x b.ptr s).live = s.live ∧
      Good M ((free M x b.ptr s).withLive (s.live.filter fun e => e.ptr != b.ptr)) := by
  obtain ⟨loc, c, hI⟩ := h
  refine ⟨free_live x b.ptr s, ?_⟩
  obtain ⟨a, ha, i, hi, hu, -, heq⟩ | ⟨l, hl, hu, -, heq⟩ := hI.free_cases x hb
  · rw [heq]
    exact hI.cachePush x ha hi hb hu
  · have hnd := nodup_append.mp hI.layout.nodup
    rw [heq, ← pageHeapRelease_withLive]
    refine ⟨loc, c, (hI.disownLarge hl hb hu).release x ?_ ?_⟩
    · exact fun hmem => hnd.2.2 l hmem l hl rfl
    · exact fun hmem => (hnd.2.1.mem_erase_iff.mp hmem).1 rfl

theorem Inv.write (h : Inv M s loc c) (hb : b ∈ s.live) {bytes : Memory} (hlo : b.ptr ≤ w)
    (hhi : w + k ≤ b.ptr + b.size) (hm : Keeps s.bytes bytes w k) :
    Inv M (s.overwrite M w k bytes) loc c := by
  have hL := h.layout
  obtain ⟨n, hc, hle, hfit, -⟩ := h.live.cell hL h.headers hb
  have hok := h.live.block b hb
  have hsz := hok.size_le
  have hptr : b.ptr - M.headerSize + M.headerSize = b.ptr := Nat.sub_add_cancel hle
  have hlo' : b.ptr - M.headerSize + M.headerSize ≤ w := by omega
  have hhi' : w + k ≤ b.ptr - M.headerSize + n := by omega
  have hhea := hL.overwrite_header hc hlo' hhi' bytes hc
  refine h.touch hc (by rw [hptr]; exact mem_map_of_mem hb)
    (Touches.overwrite hL hc hlo' hhi' hm) (by rw [hhea]) (fun _ he _ => he) ?_ (List.Perm.refl _)
    rfl h.live.activeBytes h.live.activeBytes_lt
  intro e he heq
  obtain rfl : e = b := inj_on_of_nodup_map h.live.nodup he hb (heq.trans hptr)
  rw [hhea]
  exact hok.keeps hm (.inl hhi)

theorem reallocInPlace_spec (h : Good M s) (hb : b ∈ s.live) (hpos : 0 < size)
    (hsz : size ≤ (s.headers (b.ptr - M.headerSize)).capacity) (hlt : size < modulus) :
    reallocInPlace M b.ptr size s = (0, s) ∨
      (reallocInPlace M b.ptr size s).1 = b.ptr ∧
        (reallocInPlace M b.ptr size s).2.live = s.live ∧
        Good M ((reallocInPlace M b.ptr size s).2.withLive
          (⟨b.ptr, size⟩ :: s.live.filter fun e => e.ptr != b.ptr)) := by
  obtain ⟨loc, c, hI⟩ := h
  have hL := hI.layout
  obtain ⟨n, hc, hle, hfit, -⟩ := hI.live.cell hL hI.headers hb
  have hptr : b.ptr - M.headerSize + M.headerSize = b.ptr := Nat.sub_add_cancel hle
  have hreq := (hI.live.block b hb).requested
  obtain ⟨hlen, hsum⟩ := hI.live.filter_stats hb
  have hact := hI.live.activeBytes_lt
  have hmax : sizeMax = modulus - 1 := rfl
  unfold reallocInPlace
  dsimp only
  rw [if_neg (by omega), hreq, sub_of_le (by omega) hact]
  by_cases hrm : s.stats.activeBytes - b.size > sizeMax - size
  · rw [if_pos hrm]
    exact .inl rfl
  rw [if_neg hrm, add_of_lt (by omega)]
  right
  have hpp := hL.prepared hc { s.headers (b.ptr - M.headerSize) with requestedSize := size }
    (fun _ => ⟨rfl, rfl, rfl, rfl⟩) (by dsimp only; omega)
    { s.stats with activeBytes := s.stats.activeBytes - b.size + size }
  obtain ⟨hlv, hsta⟩ := debugPrepare_accounts M (b.ptr - M.headerSize)
    (b.ptr - M.headerSize + M.headerSize)
    { s.setHeader (b.ptr - M.headerSize)
        { s.headers (b.ptr - M.headerSize) with requestedSize := size } with
      stats := { s.stats with activeBytes := s.stats.activeBytes - b.size + size } }
  rw [hptr] at hpp hlv hsta
  have hpr := perm_cons_filter hI.live.nodup hb
  refine ⟨rfl, hlv, loc, c, hI.touch hc (by rw [hptr]; exact mem_map_of_mem hb)
    (hpp.touches.trans (Touches.accounts M _ _ _ _ _)) hpp.core ?_ ?_ ?_ ?_ ?_ ?_⟩
  · -- the other blocks
    intro e he hne
    rcases mem_cons.mp he with rfl | he
    · exact absurd hptr.symm hne
    · exact mem_of_mem_filter he
  · -- the block itself
    intro e he heq
    rcases mem_cons.mp he with rfl | he
    · have hblo := hpp.block hpos hsz
      rw [hptr] at hblo
      exact hblo
    · have hmem := (mem_filter_ptr s.live b.ptr e.ptr).mp (mem_map_of_mem he)
      exact absurd (heq.trans hptr) hmem.1
  · -- the pointers
    exact (hpr.map Block.ptr).symm
  · -- the statistics
    have hfin := congrArg Stats.activeObjects hsta
    exact hfin
  · have hfin := congrArg Stats.activeBytes hsta
    refine hfin.trans ?_
    simp only [withLive, map_cons, sum_cons]
    omega
  · have hfin := congrArg Stats.activeBytes hsta
    refine lt_of_eq_of_lt hfin ?_
    dsimp only
    omega

end Veloco.Memory
