import Veloco.Memory.Refill

/-!
# Mappings come and go
-/

namespace Veloco.Memory

open Function List
open Veloco.Bytes Veloco.Word Veloco.Chain Veloco.Ledger

variable {M : Platform} {s s' : State} {loc : ℕ → Place} {c : Place → List ℕ} {a b i k l n : ℕ}

theorem pageHeapAcquire_cases (M : Platform) (x : Env) (pages : ℕ) (s : State) :
    pageHeapAcquire M x pages s = (none, s) ∨
      ∃ a, 0 < pages ∧ s.Fresh a (pages * s.pageSize) ∧
        pageHeapAcquire M x pages s =
          (some ⟨a, pages * s.pageSize⟩, s.addMapping M a (pages * s.pageSize)) := by
  unfold pageHeapAcquire
  by_cases hbad : s.initialized = false ∨ pages = 0 ∨ pages > sizeMax / s.pageSize
  · rw [if_pos hbad]
    exact Or.inl rfl
  rw [if_neg hbad]
  by_cases hfl : s.stats.mappedBytes > sizeMax - pages * s.pageSize
  · dsimp only
    rw [if_pos hfl]
    exact Or.inl rfl
  dsimp only
  rw [if_neg hfl]
  cases hmap : s.mmap x (pages * s.pageSize) with
  | none => exact Or.inl rfl
  | some a =>
    have hfre : s.Fresh a (pages * s.pageSize) := by
      rw [State.mmap, Option.filter_eq_some_iff] at hmap
      exact of_decide_eq_true hmap.2
    exact Or.inr ⟨a, by omega, hfre, rfl⟩

section Fresh

variable (hL : Layout M s) (hf : s.Fresh a n)

include hL hf

theorem Layout.fresh_apart_cell {l m : ℕ} (hc : Cell s l m) : Apart a n l m := by
  obtain ⟨o, k, hreg, -, hle, hend⟩ := hL.cell_inside hc
  exact (hf.2.2.2 _ hreg).symm.within le_rfl le_rfl hle hend

theorem Layout.fresh_apart_span (hb : b ∈ s.allSpans) : Apart a n b spanSize := by
  have hft := (hL.spans b hb).fits
  have hpg := hL.holdsSpan
  exact (hf.2.2.2 _ (hL.spans b hb).region).symm.within le_rfl le_rfl le_rfl (by dsimp only; omega)

theorem Layout.addMapping_span (hb : b ∈ s.allSpans) :
    (s.addMapping M a n).spans b = s.spans b :=
  if_pos (hL.fresh_apart_span hf hb)

theorem Layout.addMapping_header {l m : ℕ} (hc : Cell s l m) :
    (s.addMapping M a n).headers l = s.headers l :=
  if_pos ((hL.fresh_apart_cell hf hc).within le_rfl le_rfl le_rfl
    (Nat.add_le_add_left (hL.header_fits hc) l))

theorem Layout.addMapping_sameObjects : SameObjects s (s.addMapping M a n) where
  pageSize := rfl
  allSpans := rfl
  largeAllocations := rfl
  spans := by
    intro b hb
    rw [hL.addMapping_span hf hb]
    exact Span.Like.refl _
  larges := by
    intro h hh
    rw [hL.addMapping_header hf (Cell.large hh)]
    exact Header.Like.refl _

theorem Layout.addMapping (hn : 0 < n) : Layout M (s.addMapping M a n) where
  initialized := hL.initialized
  pageSize := hL.pageSize
  holdsSpan := hL.holdsSpan
  aligned := hL.aligned
  mapped := by
    refine ⟨pairwise_cons.mpr ⟨fun r hr => (hf.2.2.2 r hr).symm, hL.mapped.apart⟩, ?_, ?_⟩
    · intro r hr
      rcases mem_cons.mp hr with rfl | hr
      · exact ⟨Nat.pos_of_ne_zero hf.1, hf.2.1⟩
      · exact hL.mapped.base r hr
    · intro r hr
      rcases mem_cons.mp hr with rfl | hr
      · exact ⟨hn, hf.2.2.1⟩
      · exact hL.mapped.size r hr
  spans := by
    intro b hb
    have hok := hL.spans b hb
    rw [hL.addMapping_span hf hb]
    exact { hok with region := mem_cons_of_mem _ hok.region }
  larges := by
    intro h hh
    have hok := hL.larges h hh
    rw [hL.addMapping_header hf (Cell.large hh)]
    exact { hok with region := mem_cons_of_mem _ hok.region }
  nodup := hL.nodup
  nodup_central := hL.nodup_central
  mem_central := by
    intro k b
    refine (hL.mem_central k b).trans (and_congr_right fun hb => ?_)
    rw [hL.addMapping_span hf hb]
  liveSpans := hL.liveSpans

end Fresh

theorem Inv.addMapping (h : Inv M s loc c) (hf : s.Fresh a n) (hn : 0 < n) :
    Inv M (s.addMapping M a n) loc c := by
  have hL := h.layout
  have hkeep : Keeps s.bytes (fill s.bytes a n 0) a n := keeps_fill _ _ _ _
  constructor
  case layout => exact hL.addMapping hf hn
  case lists =>
    refine h.lists.frame (hL.addMapping_sameObjects hf) rfl (fun b hb => hL.addMapping_span hf hb)
      fun u hu _ => ?_
    obtain ⟨b, hb, i, hi, rfl⟩ := hu
    exact hkeep.load ((hL.fresh_apart_cell hf (Cell.slot hb hi)).within le_rfl le_rfl
      (Nat.le_add_right _ _) (hL.slot_bounds hb hi).2.2.1)
  case headers =>
    refine h.headers.frame (hL.addMapping_sameObjects hf) (fun l m hc => ?_) fun _ _ => Iff.rfl
    rw [hL.addMapping_header hf hc]
  case live =>
    refine h.live.frame (hL.addMapping_sameObjects hf) ⟨rfl, rfl, rfl, rfl, rfl⟩ (fun b hb => ?_)
      fun _ _ => Iff.rfl
    obtain ⟨m, hc, hle, hfit, -⟩ := h.live.cell hL h.headers hb
    have hsz := (h.live.block b hb).size_le
    rw [hL.addMapping_header hf hc]
    exact (h.live.block b hb).keeps hkeep
      ((hL.fresh_apart_cell hf hc).within le_rfl le_rfl (by omega) (by omega))
  case aborted => exact h.aborted
  case released => exact h.released

theorem pageHeapRelease_eq (x : Env) (a n : ℕ) (s : State) :
    ∃ mapped mappedBytes, (mapped = s.mapped ∨ mapped = s.mapped.erase ⟨a, n⟩) ∧
      pageHeapRelease x a n s =
        { s with mapped := mapped, stats := { s.stats with mappedBytes := mappedBytes } } := by
  unfold pageHeapRelease
  split_ifs
  · exact ⟨s.mapped, s.stats.mappedBytes, Or.inl rfl, rfl⟩
  · exact ⟨s.mapped, s.stats.mappedBytes, Or.inl rfl, rfl⟩
  · exact ⟨_, _, Or.inr rfl, rfl⟩
  · exact ⟨_, _, Or.inr rfl, rfl⟩

theorem Inv.release (h : Inv M s loc c) (x : Env) (hsp : a ∉ s.allSpans)
    (hlar : a ∉ s.largeAllocations) : Inv M (pageHeapRelease x a n s) loc c := by
  obtain ⟨mapped, mappedBytes, hm, heq⟩ := pageHeapRelease_eq x a n s
  have hL := h.layout
  have hsub : mapped.Sublist s.mapped := by
    rcases hm with rfl | rfl
    · exact List.Sublist.refl _
    · exact erase_sublist
  have hkeep : ∀ r ∈ s.mapped, r.base ≠ a → r ∈ mapped := by
    intro r hr hne
    rcases hm with rfl | rfl
    · exact hr
    · exact (mem_erase_of_ne fun heq => hne (congrArg Region.base heq)).mpr hr
  have hobj : SameObjects s (pageHeapRelease x a n s) := by
    rw [heq]
    exact ⟨rfl, rfl, rfl, fun _ _ => Span.Like.refl _, fun _ _ => Header.Like.refl _⟩
  rw [heq] at hobj ⊢
  constructor
  case layout =>
    refine { hL with mapped := ?_, spans := ?_, larges := ?_ }
    · exact ⟨hL.mapped.apart.sublist hsub, fun r hr => hL.mapped.base r (hsub.subset hr),
        fun r hr => hL.mapped.size r (hsub.subset hr)⟩
    · intro b hb
      have hok := hL.spans b hb
      refine { hok with region := hkeep _ hok.region ?_ }
      rintro rfl
      exact hsp hb
    · intro l hl
      have hok := hL.larges l hl
      refine { hok with region := hkeep _ hok.region ?_ }
      rintro rfl
      exact hlar hl
  case lists => exact h.lists.frame hobj rfl (fun _ _ => rfl) fun _ _ _ => rfl
  case headers => exact h.headers.frame hobj (fun _ _ _ => rfl) fun _ _ => Iff.rfl
  case live =>
    exact h.live.frame hobj ⟨rfl, rfl, rfl, rfl, rfl⟩ (fun b hb => h.live.block b hb)
      fun _ _ => Iff.rfl
  case aborted => exact h.aborted
  case released => exact h.released

def State.disown (s : State) (a : ℕ) : State :=
  { spanRemoveFromAll a (spanRemoveFromCentral a s) with
    liveSpans := s.liveSpans.erase a
    released := ⟨s.spans a, walk s.link 0 (s.spans a).objectCount (s.spans a).centralFree⟩ ::
      s.released }

theorem spanReclaimIfEmpty_eq (x : Env) (a : ℕ) (s : State) :
    spanReclaimIfEmpty x a s = if a = 0 ∨ (s.spans a).reclaimable = false then s
      else pageHeapRelease x (s.spans a).mappingBase (s.spans a).mappingSize (s.disown a) := rfl

theorem spanReclaimIfEmpty_same (x : Env) (a : ℕ) (s : State) :
    (spanReclaimIfEmpty x a s).bins = s.bins ∧ (spanReclaimIfEmpty x a s).headers = s.headers ∧
      (spanReclaimIfEmpty x a s).spans = s.spans ∧ (spanReclaimIfEmpty x a s).bytes = s.bytes := by
  rw [spanReclaimIfEmpty_eq]
  by_cases hcn : a = 0 ∨ (s.spans a).reclaimable = false
  · rw [if_pos hcn]
    exact ⟨rfl, rfl, rfl, rfl⟩
  · rw [if_neg hcn]
    obtain ⟨mapped, mappedBytes, -, heq⟩ :=
      pageHeapRelease_eq x (s.spans a).mappingBase (s.spans a).mappingSize (s.disown a)
    rw [heq]
    exact ⟨rfl, rfl, rfl, rfl⟩

section Disown

variable (h : Inv M s loc c) (ha : a ∈ s.allSpans)
  (hfl : (s.spans a).centralFreeCount = (s.spans a).objectCount)

include h ha hfl

theorem Inv.loc_of_full : ∀ i < (s.spans a).objectCount, loc (s.slot M a i) = .central a := by
  intro i hi
  have htal : tally (s.slots M a) loc Place.isCentral = (s.slots M a).length := by
    rw [← h.lists.centralFreeCount a ha, hfl, State.length_slots]
  have hall := forall_of_tally_eq htal _ (State.mem_slots.mpr ⟨i, hi, rfl⟩)
  have hfit := h.lists.fits a ha i hi
  cases hpl : loc (s.slot M a i) with
  | central b =>
    rw [hpl] at hfit
    exact congrArg Place.central hfit
  | bin b => simp [hpl, Place.isCentral] at hall
  | allocated => simp [hpl, Place.isCentral] at hall

theorem Inv.isSlot_disown (u : ℕ) :
    (s.disown a).IsSlot M u ↔ s.IsSlot M u ∧ loc u ≠ .central a := by
  have hnd := (nodup_append.mp h.layout.nodup).1
  constructor
  · rintro ⟨b, hb, i, hi, rfl⟩
    obtain ⟨hne, hb⟩ := (hnd.mem_erase_iff).mp hb
    refine ⟨⟨b, hb, i, hi, rfl⟩, fun hloc => hne ?_⟩
    have hfit := h.lists.fits b hb i hi
    have hsl : (s.disown a).slot M b i = s.slot M b i := rfl
    rw [hsl] at hloc
    rw [hloc] at hfit
    exact hfit.symm
  · rintro ⟨⟨b, hb, i, hi, rfl⟩, hloc⟩
    refine ⟨b, (hnd.mem_erase_iff).mpr ⟨?_, hb⟩, i, hi, rfl⟩
    rintro rfl
    exact hloc (h.loc_of_full ha hfl i hi)

theorem Inv.layout_disown : Layout M (s.disown a) := by
  have hL := h.layout
  have hnd := (nodup_append.mp hL.nodup).1
  refine { hL with spans := ?_, nodup := ?_, nodup_central := ?_, mem_central := ?_,
                   liveSpans := ?_ }
  · exact fun b hb => hL.spans b (mem_of_mem_erase hb)
  · exact hL.nodup.sublist (List.Sublist.append_right erase_sublist _)
  · intro k
    by_cases hk : k = (s.spans a).classIndex
    · subst hk
      simp only [State.disown, spanRemoveFromAll, spanRemoveFromCentral, update_self]
      exact (hL.nodup_central _).erase a
    · simp only [State.disown, spanRemoveFromAll, spanRemoveFromCentral, update_of_ne hk]
      exact hL.nodup_central k
  · intro k b
    simp only [State.disown, spanRemoveFromAll, spanRemoveFromCentral]
    rw [hnd.mem_erase_iff]
    by_cases hk : k = (s.spans a).classIndex
    · subst hk
      rw [update_self, (hL.nodup_central _).mem_erase_iff, hL.mem_central, and_assoc]
    · rw [update_of_ne hk, hL.mem_central]
      constructor
      · rintro ⟨hb, hkb⟩
        refine ⟨⟨?_, hb⟩, hkb⟩
        rintro rfl
        exact hk hkb.symm
      · rintro ⟨⟨-, hb⟩, hkb⟩
        exact ⟨hb, hkb⟩
  · exact congrArg (List.erase · a) hL.liveSpans

theorem Inv.lists_disown : Lists M (s.disown a) loc (update c (.central a) []) := by
  have hS := h.lists
  have hnd := (nodup_append.mp h.layout.nodup).1
  have hsp : ∀ b ∈ (s.disown a).allSpans, b ≠ a ∧ b ∈ s.allSpans := fun b hb =>
    hnd.mem_erase_iff.mp hb
  constructor
  case located => exact hS.located.discard (h.isSlot_disown ha hfl)
  case fits => exact fun b hb i hi => hS.fits b (hsp b hb).2 i hi
  case links =>
    intro q hq
    have hne : q ≠ .central a := by
      rintro rfl
      exact (hsp a hq).1 rfl
    have hq' : s.HasList q := by
      cases q with
      | central b => exact (hsp b hq).2
      | bin b => exact trivial
      | allocated => exact hq
    rw [update_of_ne hne]
    exact hS.links q hq'
  case binCount =>
    intro b
    rw [update_of_ne (by simp)]
    exact hS.binCount b
  case centralFreeCount => exact fun b hb => hS.centralFreeCount b (hsp b hb).2
  case cachedCount => exact fun b hb => hS.cachedCount b (hsp b hb).2
  case activeCount => exact fun b hb => hS.activeCount b (hsp b hb).2
  case freeCount => exact fun b hb => hS.freeCount b (hsp b hb).2

theorem Inv.disown : Inv M (s.disown a) loc (update c (.central a) []) := by
  have hL := h.layout
  have hnd := (nodup_append.mp hL.nodup).1
  constructor
  case layout => exact h.layout_disown ha hfl
  case lists => exact h.lists_disown ha hfl
  case headers =>
    exact ⟨fun b hb i hi => h.headers.slot b (mem_of_mem_erase hb) i hi, h.headers.magic,
      h.headers.state⟩
  case live =>
    refine ⟨h.live.nodup, fun u => ?_, h.live.block, h.live.activeObjects, h.live.activeBytes,
      h.live.activeBytes_lt⟩
    refine (h.live.mem u).trans (or_congr ?_ Iff.rfl)
    rw [h.isSlot_disown ha hfl]
    constructor
    · rintro ⟨hu, hal⟩
      exact ⟨⟨hu, by simp [hal]⟩, hal⟩
    · rintro ⟨⟨hu, -⟩, hal⟩
      exact ⟨hu, hal⟩
  case aborted => exact h.aborted
  case released =>
    intro r hr
    rcases mem_cons.mp hr with rfl | hr
    · -- the walk over the central list meets every slot
      intro i hi
      have hwl : walk s.link 0 (s.spans a).objectCount (s.spans a).centralFree = c (.central a) :=
        (h.lists.links (.central a) ha).walk_eq (by rw [← h.lists.length_central hL ha, hfl])
      have hmem : s.slot M a i ∈ c (.central a) :=
        (h.lists.located.mem _ _).mpr ⟨⟨a, ha, i, hi, rfl⟩, h.loc_of_full ha hfl i hi⟩
      dsimp only
      rw [hwl, (hL.spans a ha).base, ← hL.pageSize]
      exact hmem
    · exact h.released r hr

end Disown

theorem Inv.reclaim (h : Inv M s loc c) (x : Env) (ha : a ∈ s.allSpans) :
    (∃ c', Inv M (spanReclaimIfEmpty x a s) loc c') ∧
      (∀ d ∈ (spanReclaimIfEmpty x a s).allSpans, d ∈ s.allSpans) ∧
      SameAccounts s (spanReclaimIfEmpty x a s) := by
  rw [spanReclaimIfEmpty_eq]
  split_ifs with hcn
  · exact ⟨⟨c, h⟩, fun d hd => hd, SameAccounts.refl s⟩
  · rw [not_or, Bool.not_eq_false] at hcn
    simp only [Span.reclaimable, Bool.and_eq_true, beq_iff_eq] at hcn
    obtain ⟨-, -, hfl⟩ := hcn
    have hnd := nodup_append.mp h.layout.nodup
    rw [(h.layout.spans a ha).base]
    refine ⟨⟨_, (h.disown ha hfl).release x ?_ ?_⟩, ?_⟩
    · exact fun hmem => (hnd.1.mem_erase_iff.mp hmem).1 rfl
    · exact fun hmem => hnd.2.2 a ha a hmem rfl
    · obtain ⟨mapped, mappedBytes, -, heq⟩ :=
        pageHeapRelease_eq x a (s.spans a).mappingSize (s.disown a)
      rw [heq]
      exact ⟨fun d hd => mem_of_mem_erase hd, rfl, rfl, rfl⟩

theorem Inv.drainOne (h : Inv M s loc c) (x : Env) {b : Bin} (hhd : (s.bins b).head ≠ 0) :
    Good M (drainOne M x b s) ∧ SameAccounts s (drainOne M x b s) ∧
      ∃ a ∈ s.allSpans, drainOne M x b s =
        spanReclaimIfEmpty x a (spanMoveToCentral M a (s.bins b).head (binPop b s)) := by
  obtain ⟨a, i, hsp, hshi⟩ := h.cacheToCentral hhd
  obtain ⟨⟨c', hI'⟩, -, hacc⟩ := hshi.inv.reclaim x (a := a)
    (by rw [hshi.layout.allSpans]; exact hshi.mem)
  have hone : Memory.drainOne M x b s =
      spanReclaimIfEmpty x a (spanMoveToCentral M a (s.bins b).head (binPop b s)) := by
    rw [Memory.drainOne, hsp]
  rw [hone]
  exact ⟨⟨_, c', hI'⟩, hshi.accounts.trans hacc, a, hshi.mem, rfl⟩

theorem good_drainLoop (x : Env) (b : Bin) : ∀ (n : ℕ) (s : State), Good M s →
    Good M (drainLoop M x b n s) ∧ SameAccounts s (drainLoop M x b n s)
  | 0, s, h => ⟨h, SameAccounts.refl s⟩
  | n + 1, s, h => by
    rw [drainLoop]
    split_ifs with hhd
    · exact ⟨h, SameAccounts.refl s⟩
    · obtain ⟨loc, c, hI⟩ := h
      obtain ⟨hgd, hacc, -⟩ := hI.drainOne x hhd
      have hrs := good_drainLoop x b n _ hgd
      exact ⟨hrs.1, hacc.trans hrs.2⟩

end Veloco.Memory
