import Veloco.Memory.Valloc

/-!
# Where objects lie
-/

namespace Veloco.Memory

open List
open Veloco.Bytes Veloco.Word

theorem Platform.headerSize_cases (M : Platform) :
    M.headerSize = 80 ∧ M.suffixSize = 0 ∨ M.headerSize = 96 ∧ M.suffixSize = 8 := by
  unfold Platform.headerSize Platform.suffixSize
  cases M.debug <;> simp

theorem sizeClassCapacity_bounds {k : ℕ} (hk : k < sizeClassCount) :
    8 ≤ sizeClassCapacity k ∧ sizeClassCapacity k ≤ 32768 := by
  have hall : ∀ k < 42, 8 ≤ sizeClassCapacity k ∧ sizeClassCapacity k ≤ 32768 := by decide
  exact hall k hk

theorem le_sizeClassSearch (size low high : ℕ) (hle : low ≤ high)
    (hhg : high < sizeClassCount → size ≤ sizeClasses.getD high 0) :
    sizeClassSearch size low high < sizeClassCount →
      size ≤ sizeClasses.getD (sizeClassSearch size low high) 0 := by
  induction low, high using sizeClassSearch.induct size with
  | case1 low high hlt middle hmid ih =>
    rw [sizeClassSearch, if_pos hlt]
    simp only [middle] at hmid ih
    rw [if_pos hmid]
    exact ih (by omega) hhg
  | case2 low high hlt middle hmid ih =>
    rw [sizeClassSearch, if_pos hlt]
    simp only [middle] at hmid ih
    rw [if_neg hmid]
    exact ih (by omega) (fun _ => not_lt.mp hmid)
  | case3 low high hlt =>
    have heq : low = high := by omega
    rw [sizeClassSearch, if_neg hlt, heq]
    exact hhg

theorem le_sizeClassCapacity {size : ℕ} (hk : sizeClassIndex size < sizeClassCount) :
    size ≤ sizeClassCapacity (sizeClassIndex size) := by
  rw [sizeClassCapacity, if_pos hk]
  refine le_sizeClassSearch size 0 sizeClassCount (Nat.zero_le _) ?_ hk
  intro h
  exact absurd h (lt_irrefl _)

theorem memoryAlignUp_bounds (value : ℕ) (hv : value < 2 ^ 32) :
    value ≤ memoryAlignUp value memoryAlignment ∧ memoryAlignUp value memoryAlignment < value + 16 ∧
      16 ∣ memoryAlignUp value memoryAlignment := by
  have hrem : value &&& (memoryAlignment - 1) = value % 16 := Nat.and_two_pow_sub_one_eq_mod value 4
  have hmax : sizeMax = 18446744073709551615 := rfl
  have hal : memoryAlignment = 16 := rfl
  unfold memoryAlignUp
  rw [if_neg (by decide), hrem]
  dsimp only
  split_ifs <;> omega

theorem spanObjectStride_bounds (M : Platform) {k : ℕ} (hk : k < sizeClassCount) :
    M.headerSize + sizeClassCapacity k + M.suffixSize ≤
        spanObjectStride M (sizeClassCapacity k) ∧
      spanObjectStride M (sizeClassCapacity k) < 2 ^ 16 ∧
      16 ∣ spanObjectStride M (sizeClassCapacity k) := by
  have hcap := sizeClassCapacity_bounds hk
  have hsiz := M.headerSize_cases
  have hup := memoryAlignUp_bounds
    (M.headerSize + sizeClassCapacity k + M.suffixSize) (by omega)
  unfold spanObjectStride
  omega

theorem dvd_pageSize {n : ℕ} (hpow : isPowerOfTwo n = true) (hn : spanSize ≤ n) : 16 ∣ n := by
  obtain ⟨k, rfl⟩ := isPowerOfTwo_iff.mp hpow
  have hk : 4 ≤ k := by
    by_contra hlt
    have hsma : 2 ^ k ≤ 2 ^ 3 := Nat.pow_le_pow_right (by norm_num) (by omega)
    unfold spanSize at hn
    omega
  exact pow_dvd_pow 2 hk

/-! ## Mappings, spans and large objects in order -/

structure MappedOk (page : ℕ) (mapped : List Region) : Prop where
  apart : mapped.Pairwise fun r t => Apart r.base r.size t.base t.size
  base : ∀ r ∈ mapped, 0 < r.base ∧ page ∣ r.base
  size : ∀ r ∈ mapped, 0 < r.size ∧ r.base + r.size ≤ modulus

structure SpanOk (M : Platform) (page : ℕ) (mapped : List Region) (a : ℕ) (sp : Span) :
    Prop where
  base : sp.mappingBase = a
  region : ⟨a, sp.mappingSize⟩ ∈ mapped
  classIndex : sp.classIndex < sizeClassCount
  capacity : sp.capacity = sizeClassCapacity sp.classIndex
  stride : sp.objectStride = spanObjectStride M sp.capacity
  fits : page + sp.objectCount * sp.objectStride ≤ sp.mappingSize
  ownerP : sp.ownerP < memoryMaxP

structure LargeOk (M : Platform) (mapped : List Region) (h : ℕ) (hd : Header) : Prop where
  kind : hd.kind = .large
  base : hd.mappingBase = h
  region : ⟨h, hd.mappingSize⟩ ∈ mapped
  fits : M.headerSize + hd.capacity + M.suffixSize ≤ hd.mappingSize

structure Layout (M : Platform) (s : State) : Prop where
  initialized : s.initialized = true
  pageSize : s.pageSize = M.pageSize
  holdsSpan : spanSize ≤ s.pageSize
  aligned : 16 ∣ s.pageSize
  mapped : MappedOk s.pageSize s.mapped
  spans : ∀ a ∈ s.allSpans, SpanOk M s.pageSize s.mapped a (s.spans a)
  larges : ∀ h ∈ s.largeAllocations, LargeOk M s.mapped h (s.headers h)
  nodup : (s.allSpans ++ s.largeAllocations).Nodup
  nodup_central : ∀ k, (s.central k).Nodup
  mem_central : ∀ k a, a ∈ s.central k ↔ a ∈ s.allSpans ∧ (s.spans a).classIndex = k
  liveSpans : s.liveSpans = s.allSpans

def State.cellAt (s : State) (a i : ℕ) : ℕ := a + s.pageSize + i * (s.spans a).objectStride

def State.slot (M : Platform) (s : State) (a i : ℕ) : ℕ := s.cellAt a i + M.headerSize

inductive Cell (s : State) : ℕ → ℕ → Prop where
  | slot {a i : ℕ} (ha : a ∈ s.allSpans) (hi : i < (s.spans a).objectCount) :
      Cell s (s.cellAt a i) (s.spans a).objectStride
  | large {h : ℕ} (hh : h ∈ s.largeAllocations) : Cell s h (s.headers h).mappingSize

theorem MappedOk.apart_of_ne {page : ℕ} {mapped : List Region} (h : MappedOk page mapped)
    {r t : Region} (hr : r ∈ mapped) (ht : t ∈ mapped) (hne : r ≠ t) :
    Apart r.base r.size t.base t.size := by
  have hsy : Std.Symm fun r t : Region => Apart r.base r.size t.base t.size :=
    ⟨fun _ _ ha => Apart.symm ha⟩
  exact h.apart.forall hr ht hne

namespace Layout

variable {M : Platform} {s : State} {a b i j l n l' n' h : ℕ}

theorem stride_bounds (hL : Layout M s) (ha : a ∈ s.allSpans) :
    M.headerSize + (s.spans a).capacity + M.suffixSize ≤ (s.spans a).objectStride ∧
      (s.spans a).objectStride < 2 ^ 16 ∧ 16 ∣ (s.spans a).objectStride := by
  have hsp := hL.spans a ha
  rw [hsp.stride, hsp.capacity]
  exact spanObjectStride_bounds M hsp.classIndex

theorem capacity_bounds (hL : Layout M s) (ha : a ∈ s.allSpans) :
    8 ≤ (s.spans a).capacity ∧ (s.spans a).capacity ≤ 32768 := by
  have hsp := hL.spans a ha
  rw [hsp.capacity]
  exact sizeClassCapacity_bounds hsp.classIndex

theorem owners_apart (hL : Layout M s) {m k : ℕ} (ha : ⟨a, m⟩ ∈ s.mapped)
    (hb : ⟨b, k⟩ ∈ s.mapped) (hne : a ≠ b) : Apart a m b k := by
  refine hL.mapped.apart_of_ne ha hb ?_
  rintro heq
  exact hne (congrArg Region.base heq)

theorem slot_inside (hL : Layout M s) (ha : a ∈ s.allSpans) (hi : i < (s.spans a).objectCount) :
    a + s.pageSize ≤ s.cellAt a i ∧
      s.cellAt a i + (s.spans a).objectStride ≤ a + (s.spans a).mappingSize := by
  have hft := (hL.spans a ha).fits
  have hmul : (i + 1) * (s.spans a).objectStride ≤
      (s.spans a).objectCount * (s.spans a).objectStride := Nat.mul_le_mul_right _ hi
  rw [Nat.succ_mul] at hmul
  unfold State.cellAt
  omega

theorem slots_apart (hij : i ≠ j) :
    Apart (s.cellAt a i) (s.spans a).objectStride (s.cellAt a j) (s.spans a).objectStride := by
  unfold Apart State.cellAt
  rcases Nat.lt_or_gt_of_ne hij with hlt | hlt
  · left
    have hmul := Nat.mul_le_mul_right (s.spans a).objectStride (Nat.succ_le_of_lt hlt)
    rw [Nat.succ_mul] at hmul
    omega
  · right
    have hmul := Nat.mul_le_mul_right (s.spans a).objectStride (Nat.succ_le_of_lt hlt)
    rw [Nat.succ_mul] at hmul
    omega

theorem cell_inside (hL : Layout M s) (hc : Cell s l n) :
    ∃ o m, ⟨o, m⟩ ∈ s.mapped ∧ o ∈ s.allSpans ++ s.largeAllocations ∧ o ≤ l ∧ l + n ≤ o + m := by
  cases hc with
  | slot ha hi =>
    have hin := hL.slot_inside ha hi
    exact ⟨_, _, (hL.spans _ ha).region, mem_append_left _ ha, by omega, hin.2⟩
  | large hh => exact ⟨_, _, (hL.larges _ hh).region, mem_append_right _ hh, le_rfl, le_rfl⟩

theorem cells_apart (hL : Layout M s) (hc : Cell s l n) (hc' : Cell s l' n') (hne : l ≠ l') :
    Apart l n l' n' := by
  -- two slots of one span are side by side; everything else is in two mappings
  by_cases hsm : ∃ a i j, a ∈ s.allSpans ∧ l = s.cellAt a i ∧ l' = s.cellAt a j ∧
      n = (s.spans a).objectStride ∧ n' = (s.spans a).objectStride
  · obtain ⟨a, i, j, -, rfl, rfl, rfl, rfl⟩ := hsm
    refine slots_apart ?_
    rintro rfl
    exact hne rfl
  have hnod := nodup_append.mp hL.nodup
  cases hc with
  | @slot a i ha hi =>
    have hin := hL.slot_inside ha hi
    cases hc' with
    | @slot b j hb hj =>
      have hab : a ≠ b := by
        rintro rfl
        exact hsm ⟨a, i, j, ha, rfl, rfl, rfl, rfl⟩
      have hin' := hL.slot_inside hb hj
      exact (hL.owners_apart (hL.spans a ha).region (hL.spans b hb).region hab).within
        (by omega) (by omega) (by omega) (by omega)
    | large hh =>
      have hah : a ≠ l' := fun heq => hnod.2.2 a ha l' hh heq
      exact (hL.owners_apart (hL.spans a ha).region (hL.larges l' hh).region hah).within
        (by omega) (by omega) le_rfl le_rfl
  | large hh =>
    cases hc' with
    | @slot b j hb hj =>
      have hin' := hL.slot_inside hb hj
      have hbh : l ≠ b := fun heq => hnod.2.2 b hb l hh heq.symm
      exact (hL.owners_apart (hL.larges l hh).region (hL.spans b hb).region hbh).within
        le_rfl le_rfl (by omega) (by omega)
    | large hh' => exact hL.owners_apart (hL.larges l hh).region (hL.larges l' hh').region hne

theorem cell_apart_page (hL : Layout M s) (hc : Cell s l n) (ha : a ∈ s.allSpans) :
    Apart l n a s.pageSize := by
  have hreg := (hL.spans a ha).region
  have hsz : s.pageSize ≤ (s.spans a).mappingSize :=
    le_trans (Nat.le_add_right _ _) (hL.spans a ha).fits
  have hnod := nodup_append.mp hL.nodup
  cases hc with
  | @slot b i hb hi =>
    have hin := hL.slot_inside hb hi
    by_cases hab : b = a
    · subst hab
      exact Or.inr hin.1
    · exact (hL.owners_apart (hL.spans b hb).region hreg hab).within
        (by omega) (by omega) le_rfl (by omega)
  | large hh =>
    have hah : l ≠ a := fun heq => hnod.2.2 a ha l hh heq.symm
    exact (hL.owners_apart (hL.larges l hh).region hreg hah).within le_rfl le_rfl le_rfl (by omega)

theorem cellAt_inj (hL : Layout M s) (ha : a ∈ s.allSpans) (hi : i < (s.spans a).objectCount)
    (hb : b ∈ s.allSpans) (hj : j < (s.spans b).objectCount) (heq : s.cellAt a i = s.cellAt b j) :
    a = b ∧ i = j := by
  have hin := hL.slot_inside ha hi
  have hin' := hL.slot_inside hb hj
  have hst := hL.stride_bounds ha
  have hst' := hL.stride_bounds hb
  have hhdr := M.headerSize_cases
  have hab : a = b := by
    by_contra hne
    have hap := hL.owners_apart (hL.spans a ha).region (hL.spans b hb).region hne
    unfold Apart at hap
    omega
  subst hab
  refine ⟨rfl, ?_⟩
  by_contra hne
  have hap := @slots_apart s a _ _ hne
  unfold Apart at hap
  omega

theorem cellAt_ne_large (hL : Layout M s) (ha : a ∈ s.allSpans)
    (hi : i < (s.spans a).objectCount) (hh : h ∈ s.largeAllocations) : s.cellAt a i ≠ h := by
  intro heq
  have hin := hL.slot_inside ha hi
  have hnod := nodup_append.mp hL.nodup
  have hft := (hL.larges h hh).fits
  have hst := hL.stride_bounds ha
  have hhdr := M.headerSize_cases
  have hap := hL.owners_apart (hL.spans a ha).region (hL.larges h hh).region
    (fun heq => hnod.2.2 a ha h hh heq)
  unfold Apart at hap
  omega

end Layout

end Veloco.Memory
