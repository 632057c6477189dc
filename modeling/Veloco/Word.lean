import Mathlib.Data.Nat.Bitwise

/-!
# `size_t` arithmetic
-/

namespace Veloco.Word

/-- The number of `size_t` values. -/
def modulus : ℕ := 2 ^ 64

def sizeMax : ℕ := modulus - 1

def intMax : ℕ := 2 ^ 31 - 1

/-- `a + b` on `size_t`. -/
def add (a b : ℕ) : ℕ := (a + b) % modulus

/-- `a - b` on `size_t`. -/
def sub (a b : ℕ) : ℕ := (a + (modulus - b)) % modulus

theorem add_of_lt {a b : ℕ} (h : a + b < modulus) : add a b = a + b := Nat.mod_eq_of_lt h

theorem sub_of_le {a b : ℕ} (hb : b ≤ a) (ha : a < modulus) : sub a b = a - b := by
  unfold sub
  rw [show a + (modulus - b) = (a - b) + modulus by omega, Nat.add_mod_right,
    Nat.mod_eq_of_lt (by omega)]

theorem sub_one_add_one {a : ℕ} (h : 0 < a) (ha : a < modulus) : sub a 1 + 1 = a := by
  rw [sub_of_le h ha]
  omega

def isPowerOfTwo (value : ℕ) : Bool := value != 0 && value &&& (value - 1) == 0

theorem isPowerOfTwo_iff {value : ℕ} : isPowerOfTwo value = true ↔ ∃ k, value = 2 ^ k := by
  simp only [isPowerOfTwo, Bool.and_eq_true, bne_iff_ne, beq_iff_eq]
  exact Nat.ne_zero_and_sub_one_eq_zero_iff_isPowerOfTwo

theorem isPowerOfTwo_pos {value : ℕ} (h : isPowerOfTwo value = true) : 0 < value := by
  obtain ⟨k, rfl⟩ := isPowerOfTwo_iff.mp h
  exact Nat.two_pow_pos k

end Veloco.Word
