import Mathlib.Algebra.BigOperators.Group.Finset.Piecewise
import Mathlib.Data.List.Perm.Basic

/-!
# A total when one of its terms changes
-/

namespace Veloco.Total

open List

variable {ι : Type*} [DecidableEq ι] {s : Finset ι} {i : ι}

theorem sum_change {f g : ι → ℕ} (hi : i ∈ s) (h : ∀ j, j ≠ i → g j = f j) :
    ∑ j ∈ s, g j + f i = ∑ j ∈ s, f j + g i := by
  have hrest : ∑ j ∈ s.erase i, g j = ∑ j ∈ s.erase i, f j :=
    Finset.sum_congr rfl fun j hj => h j (Finset.ne_of_mem_erase hj)
  calc ∑ j ∈ s, g j + f i
      = ∑ j ∈ s.erase i, g j + g i + f i := by rw [Finset.sum_erase_add s g hi]
    _ = ∑ j ∈ s.erase i, f j + f i + g i := by rw [hrest, Nat.add_right_comm]
    _ = ∑ j ∈ s, f j + g i := by rw [Finset.sum_erase_add s f hi]

def count (s : Finset ι) (p : ι → Bool) : ℕ := (s.filter fun i => p i = true).card

variable {p q r : ι → Bool}

omit [DecidableEq ι] in
theorem count_congr (h : ∀ j, q j = p j) : count s q = count s p := by
  unfold count
  simp only [h]

omit [DecidableEq ι] in
theorem count_eq_sum : count s p = ∑ j ∈ s, (p j).toNat := by
  unfold count
  rw [Finset.card_filter]
  refine Finset.sum_congr rfl fun j _ => ?_
  cases p j <;> rfl

theorem count_change (hi : i ∈ s) (h : ∀ j, j ≠ i → q j = p j) :
    count s q + (p i).toNat = count s p + (q i).toNat := by
  rw [count_eq_sum, count_eq_sum]
  exact sum_change (f := fun j => (p j).toNat) hi fun j hj => congrArg Bool.toNat (h j hj)

omit [DecidableEq ι] in
theorem count_pos (hi : i ∈ s) (h : p i = true) : count s p ≠ 0 :=
  Finset.card_ne_zero_of_mem (Finset.mem_filter.mpr ⟨hi, h⟩)

omit [DecidableEq ι] in
theorem count_eq_zero : count s p = 0 ↔ ∀ i ∈ s, p i = false := by
  unfold count
  rw [Finset.card_eq_zero, Finset.filter_eq_empty_iff]
  simp

theorem count_insert (hi : i ∉ s) (h : ∀ j ∈ s, q j = p j) (hq : q i = false) :
    count (insert i s) q = count s p := by
  rw [count_eq_sum, count_eq_sum, Finset.sum_insert hi, hq]
  rw [Finset.sum_congr rfl fun j hj => by rw [h j hj]]
  exact Nat.zero_add _

theorem count_range {n m : ℕ} {p : ℕ → Bool} (hle : n ≤ m) (h : ∀ j, n ≤ j → p j = false) :
    count (Finset.range m) p = count (Finset.range n) p := by
  unfold count
  congr 1
  ext j
  simp only [Finset.mem_filter, Finset.mem_range]
  constructor
  · rintro ⟨-, hp⟩
    refine ⟨?_, hp⟩
    by_contra hj
    rw [h j (by omega)] at hp
    cases hp
  · rintro ⟨hj, hp⟩
    exact ⟨by omega, hp⟩

omit [DecidableEq ι] in
theorem count_split (h : ∀ i ∈ s, (p i).toNat + (q i).toNat = (r i).toNat) :
    count s p + count s q = count s r := by
  rw [count_eq_sum, count_eq_sum, count_eq_sum, ← Finset.sum_add_distrib]
  exact Finset.sum_congr rfl h

section List

variable {α : Type*} {l : List α} {k : ℕ} {a : α}

theorem countP_eraseIdx (p : α → Bool) (h : l[k]? = some a) :
    (l.eraseIdx k).countP p + (p a).toNat = l.countP p := by
  obtain ⟨hk, rfl⟩ := List.getElem?_eq_some_iff.mp h
  rw [← (getElem_cons_eraseIdx_perm hk).countP_eq p, countP_cons]
  cases p l[k] <;> rfl

theorem countP_set (p : α → Bool) (h : l[k]? = some a) (b : α) :
    (l.set k b).countP p + (p a).toNat = l.countP p + (p b).toNat := by
  obtain ⟨hk, -⟩ := List.getElem?_eq_some_iff.mp h
  have hb : (l.set k b).countP p = (l.eraseIdx k).countP p + (p b).toNat := by
    rw [(set_perm_cons_eraseIdx hk b).countP_eq p, countP_cons]
    cases p b <;> rfl
  rw [hb, ← countP_eraseIdx p h]
  omega

end List

end Veloco.Total
