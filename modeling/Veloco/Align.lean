import Mathlib.Data.Nat.Bitwise

/-!
# Rounding up with a mask
-/

namespace Veloco.Align

variable {a k n w : ℕ}

def roundUp (a n : ℕ) : ℕ := (n + a - 1) / a * a

theorem dvd_roundUp : a ∣ roundUp a n := Dvd.intro_left _ rfl

theorem le_roundUp (ha : 0 < a) : n ≤ roundUp a n := by
  unfold roundUp
  have hdiv := Nat.div_add_mod (n + a - 1) a
  have hmod := Nat.mod_lt (n + a - 1) ha
  rw [Nat.mul_comm] at hdiv
  omega

theorem roundUp_lt (ha : 0 < a) : roundUp a n < n + a := by
  have hle : roundUp a n ≤ n + a - 1 := Nat.div_mul_le_self _ _
  omega

theorem testBit_mask (hk : k ≤ w) (i : ℕ) :
    (2 ^ w - 2 ^ k).testBit i = (decide (k ≤ i) && decide (i < w)) := by
  have hshift : 2 ^ w - 2 ^ k = (2 ^ (w - k) - 1) <<< k := by
    rw [Nat.shiftLeft_eq, Nat.sub_mul, Nat.one_mul, ← Nat.pow_add, Nat.sub_add_cancel hk]
  rw [hshift, Nat.testBit_shiftLeft, Nat.testBit_two_pow_sub_one]
  by_cases hi : k ≤ i
  · have hiff : i - k < w - k ↔ i < w := by omega
    simp [hi, hiff]
  · simp [hi]

theorem and_mask (hk : k ≤ w) (hn : n < 2 ^ w) : n &&& (2 ^ w - 2 ^ k) = n / 2 ^ k * 2 ^ k := by
  rw [← Nat.shiftRight_eq_div_pow, ← Nat.shiftLeft_eq]
  apply Nat.eq_of_testBit_eq
  intro i
  rw [Nat.testBit_and, testBit_mask hk, Nat.testBit_shiftLeft, Nat.testBit_shiftRight]
  by_cases hi : k ≤ i
  · rw [Nat.add_sub_cancel' hi]
    by_cases hw : i < w
    · simp [hi, hw]
    · have hhigh : n.testBit i = false :=
        Nat.testBit_lt_two_pow (lt_of_lt_of_le hn (Nat.pow_le_pow_right Nat.two_pos (not_lt.mp hw)))
      simp [hhigh]
  · simp [hi]

theorem add_and_mask (hk : k ≤ w) (hn : n + 2 ^ k - 1 < 2 ^ w) :
    (n + 2 ^ k - 1) &&& (2 ^ w - 2 ^ k) = roundUp (2 ^ k) n := and_mask hk hn

end Veloco.Align
