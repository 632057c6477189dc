import Veloco.Memory.Inv

/-!
# Writes stay inside their cell
-/

namespace Veloco.Memory

open List
open Veloco.Bytes Veloco.Word Veloco.Chain Veloco.Ledger

variable {M : Platform} {s s' : State} {loc : ℕ → Place} {c : Place → List ℕ}
  {a b i j k l n l' n' u v w : ℕ}

/-! ## Cells -/

@[simp] theorem State.slot_sub (M : Platform) (s : State) (a i : ℕ) :
    s.slot M a i - M.headerSize = s.cellAt a i := Nat.add_sub_cancel ..

theorem Layout.header_fits (hL : Layout M s) (hc : Cell s l n) : M.headerSize ≤ n := by
  cases hc with
  | slot ha hi =>
    have hst := hL.stride_bounds ha
    omega
  | large hh =>
    have hft := (hL.larges _ hh).fits
    omega

theorem Layout.write_apart_header (hL : Layout M s) (hc : Cell s l n)
    (hlo : l + M.headerSize ≤ w) (hhi : w + k ≤ l + n) (hc' : Cell s l' n') :
    Apart w k l' M.headerSize := by
  have hft := hL.header_fits hc'
  by_cases heq : l = l'
  · right
    omega
  · exact (hL.cells_apart hc hc' heq).within (by omega) hhi le_rfl (by omega)

theorem Layout.write_apart_span (hL : Layout M s) (hc : Cell s l n) (hlo : l ≤ w)
    (hhi : w + k ≤ l + n) (hb : b ∈ s.allSpans) : Apart w k b spanSize := by
  have hpg := hL.holdsSpan
  exact (hL.cell_apart_page hc hb).within hlo hhi le_rfl (by omega)

section Overwrite

variable (hL : Layout M s) (hc : Cell s l n) (hlo : l + M.headerSize ≤ w)
  (hhi : w + k ≤ l + n) (m : Memory)

include hL hc hlo hhi

theorem Layout.overwrite_header (hc' : Cell s l' n') :
    (s.overwrite M w k m).headers l' = s.headers l' :=
  if_pos (hL.write_apart_header hc hlo hhi hc')

theorem Layout.overwrite_span (hb : b ∈ s.allSpans) :
    (s.overwrite M w k m).spans b = s.spans b :=
  if_pos (hL.write_apart_span hc (by omega) hhi hb)

theorem Layout.sameLayout_overwrite : SameLayout s (s.overwrite M w k m) where
  initialized := rfl
  pageSize := rfl
  mapped := rfl
  allSpans := rfl
  largeAllocations := rfl
  central := rfl
  liveSpans := rfl
  spans := by
    intro b hb
    rw [hL.overwrite_span hc hlo hhi m hb]
    exact Span.Like.refl _
  larges := by
    intro h hh
    rw [hL.overwrite_header hc hlo hhi m (Cell.large hh)]
    exact Header.Like.refl _

end Overwrite

theorem SameLayout.refl (s : State) : SameLayout s s :=
  ⟨⟨rfl, rfl, rfl, fun _ _ => Span.Like.refl _, fun _ _ => Header.Like.refl _⟩, rfl, rfl, rfl, rfl⟩

theorem SameLayout.trans {t : State} (h : SameLayout s s') (h' : SameLayout s' t) :
    SameLayout s t where
  initialized := h'.initialized.trans h.initialized
  pageSize := h'.pageSize.trans h.pageSize
  mapped := h'.mapped.trans h.mapped
  allSpans := h'.allSpans.trans h.allSpans
  largeAllocations := h'.largeAllocations.trans h.largeAllocations
  central := h'.central.trans h.central
  liveSpans := h'.liveSpans.trans h.liveSpans
  spans := by
    intro a ha
    have h₁ := h.spans a ha
    have h₂ := h'.spans a (h.allSpans ▸ ha)
    exact ⟨h₂.mappingBase.trans h₁.mappingBase, h₂.mappingSize.trans h₁.mappingSize,
      h₂.classIndex.trans h₁.classIndex, h₂.capacity.trans h₁.capacity,
      h₂.objectStride.trans h₁.objectStride, h₂.objectCount.trans h₁.objectCount,
      h₂.ownerP.trans h₁.ownerP⟩
  larges := by
    intro l hl
    have h₁ := h.larges l hl
    have h₂ := h'.larges l (h.largeAllocations ▸ hl)
    exact ⟨h₂.kind.trans h₁.kind, h₂.capacity.trans h₁.capacity,
      h₂.mappingBase.trans h₁.mappingBase, h₂.mappingSize.trans h₁.mappingSize⟩

theorem SameObjects.cell (h : SameObjects s s') (hc : Cell s l n) : Cell s' l n := by
  cases hc with
  | @slot a i ha hi =>
    have hl := h.spans a ha
    rw [← h.cellAt ha, ← hl.objectStride]
    exact Cell.slot (h.allSpans ▸ ha) (hl.objectCount ▸ hi)
  | large hh =>
    rw [← (h.larges l hh).mappingSize]
    exact Cell.large (h.largeAllocations ▸ hh)

theorem Layout.slot_bounds (hL : Layout M s) (ha : a ∈ s.allSpans)
    (hi : i < (s.spans a).objectCount) :
    0 < s.slot M a i ∧ s.slot M a i + (s.spans a).capacity + M.suffixSize ≤
        s.cellAt a i + (s.spans a).objectStride ∧
      s.slot M a i + 8 ≤ s.cellAt a i + (s.spans a).objectStride ∧
      s.slot M a i < modulus ∧ 16 ∣ s.slot M a i := by
  have hin := hL.slot_inside ha hi
  have hst := hL.stride_bounds ha
  have hcap := hL.capacity_bounds ha
  have hhdr := M.headerSize_cases
  have hsz := hL.mapped.size _ (hL.spans a ha).region
  have hbs := hL.mapped.base _ (hL.spans a ha).region
  have halign : 16 ∣ s.cellAt a i :=
    dvd_add (dvd_add (hL.aligned.trans hbs.2) hL.aligned) (Dvd.dvd.mul_left hst.2.2 i)
  have hmod : modulus = 18446744073709551616 := rfl
  have hsl : s.slot M a i = s.cellAt a i + M.headerSize := rfl
  dsimp only at hsz
  omega

theorem State.mem_slots : u ∈ s.slots M a ↔ ∃ i < (s.spans a).objectCount, u = s.slot M a i := by
  simp only [State.slots, mem_map, mem_range]
  refine exists_congr fun i => and_congr_right fun _ => ?_
  exact eq_comm

theorem Layout.nodup_slots (hL : Layout M s) (ha : a ∈ s.allSpans) : (s.slots M a).Nodup := by
  refine List.Nodup.map_on ?_ nodup_range
  intro i hi j hj heq
  exact (hL.cellAt_inj ha (mem_range.mp hi) ha (mem_range.mp hj)
    (Nat.add_right_cancel heq)).2

theorem Layout.objectCount_lt (hL : Layout M s) (ha : a ∈ s.allSpans) :
    (s.spans a).objectCount < modulus := by
  have hft := (hL.spans a ha).fits
  have hst := hL.stride_bounds ha
  have hsz := hL.mapped.size _ (hL.spans a ha).region
  have hhdr := M.headerSize_cases
  have hbs := hL.mapped.base _ (hL.spans a ha).region
  have hmul : (s.spans a).objectCount ≤ (s.spans a).objectCount * (s.spans a).objectStride :=
    Nat.le_mul_of_pos_right _ (by omega)
  dsimp only at hsz hbs
  omega

theorem Layout.slot_inj (hL : Layout M s) (ha : a ∈ s.allSpans)
    (hi : i < (s.spans a).objectCount) (hb : b ∈ s.allSpans) (hj : j < (s.spans b).objectCount)
    (heq : s.slot M a i = s.slot M b j) : a = b ∧ i = j :=
  hL.cellAt_inj ha hi hb hj (Nat.add_right_cancel heq)

theorem Layout.load_slot (hL : Layout M s) {m : Memory} (hc : Cell s l n) (hlo : l ≤ w)
    (hhi : w + k ≤ l + n) (hm : Keeps s.bytes m w k) (hu : s.IsSlot M u)
    (hne : u ≠ l + M.headerSize) : load m u 8 = s.link u := by
  obtain ⟨a, ha, i, hi, rfl⟩ := hu
  have hne' : l ≠ s.cellAt a i := by
    rintro rfl
    exact hne rfl
  have hbd := hL.slot_bounds ha hi
  have hsl : s.slot M a i = s.cellAt a i + M.headerSize := rfl
  refine hm.load ((hL.cells_apart hc (Cell.slot ha hi) hne').within hlo hhi ?_ hbd.2.2.1)
  omega

theorem length_lt_of_nodup {t : List ℕ} (hnd : t.Nodup) (bound : ℕ)
    (ht : ∀ x ∈ t, 0 < x ∧ x < bound) (hpos : 0 < bound) : t.length < bound := by
  have hsub : t.toFinset ⊆ Finset.Ioo 0 bound := by
    intro x hx
    exact Finset.mem_Ioo.mpr (ht x (mem_toFinset.mp hx))
  have hcr := Finset.card_le_card hsub
  rw [toFinset_card_of_nodup hnd, Nat.card_Ioo] at hcr
  omega

theorem Layout.length_lt (hL : Layout M s) (hloc : Located (s.IsSlot M) loc c) (pl : Place) :
    (c pl).length < modulus := by
  refine length_lt_of_nodup (hloc.nodup pl) modulus ?_ (by decide)
  intro u hu
  obtain ⟨⟨a, ha, i, hi, rfl⟩, -⟩ := (hloc.mem pl u).mp hu
  have hbd := hL.slot_bounds ha hi
  exact ⟨hbd.1, hbd.2.2.2.1⟩

theorem State.length_slots (M : Platform) (s : State) (a : ℕ) :
    (s.slots M a).length = (s.spans a).objectCount := by
  simp [State.slots]

theorem tally_places (t : List ℕ) (loc : ℕ → Place) :
    tally t loc Place.isCentral + tally t loc Place.isCached + tally t loc Place.isAllocated =
      t.length := by
  refine tally_add fun u _ => ?_
  cases loc u <;> rfl

theorem Lists.counts (hS : Lists M s loc c) (ha : a ∈ s.allSpans) :
    (s.spans a).centralFreeCount + (s.spans a).cachedCount + (s.spans a).activeCount =
      (s.spans a).objectCount := by
  rw [hS.centralFreeCount a ha, hS.cachedCount a ha, hS.activeCount a ha, tally_places,
    State.length_slots]

theorem Lists.length_central (hL : Layout M s) (hS : Lists M s loc c) (ha : a ∈ s.allSpans) :
    (s.spans a).centralFreeCount = (c (.central a)).length := by
  have hpr : (c (.central a)).Perm
      ((s.slots M a).filter fun u => (loc u).isCentral) := by
    rw [perm_ext_iff_of_nodup (hS.located.nodup _) ((hL.nodup_slots ha).filter _)]
    intro u
    rw [hS.located.mem, mem_filter, State.mem_slots]
    constructor
    · rintro ⟨⟨b, hb, i, hi, rfl⟩, heq⟩
      have hfit := hS.fits b hb i hi
      rw [heq] at hfit
      obtain rfl : a = b := hfit
      exact ⟨⟨i, hi, rfl⟩, by rw [heq]; rfl⟩
    · rintro ⟨⟨i, hi, rfl⟩, hcen⟩
      have hfit := hS.fits a ha i hi
      refine ⟨⟨a, ha, i, hi, rfl⟩, ?_⟩
      cases hpl : loc (s.slot M a i) with
      | central b =>
        rw [hpl] at hfit
        exact congrArg Place.central hfit
      | bin b => simp [hpl, Place.isCentral] at hcen
      | allocated => simp [hpl, Place.isCentral] at hcen
  rw [hS.centralFreeCount a ha, hpr.length_eq, tally, countP_eq_length_filter]

end Veloco.Memory
