import Mathlib.Data.Nat.Digits.Lemmas

/-!
# Numbers as text
-/

namespace Veloco.Numeral

open List

variable {b n : ℕ}

def digit (d : ℕ) : UInt8 := if d < 10 then (48 + d).toUInt8 else (87 + d).toUInt8

def digitValue (c : UInt8) : Option ℕ :=
  if 48 ≤ c ∧ c ≤ 57 then some (c.toNat - 48)
  else if 97 ≤ c ∧ c ≤ 102 then some (c.toNat - 87)
  else if 65 ≤ c ∧ c ≤ 70 then some (c.toNat - 55)
  else none

def numeral (b n : ℕ) : List UInt8 := if n = 0 then [48] else (Nat.digits b n).reverse.map digit

def readDigit (b n : ℕ) (c : UInt8) : Option ℕ :=
  (digitValue c).bind fun d => if d < b then some (d + b * n) else none

def readNumeral (b : ℕ) (text : List UInt8) : Option ℕ :=
  if text = [] then none else text.foldlM (readDigit b) 0

theorem digitValue_digit : ∀ d < 16, digitValue (digit d) = some d := by decide

theorem foldlM_digits (hb : b ≤ 16) (digits : List ℕ) (h : ∀ d ∈ digits, d < b) :
    (digits.reverse.map digit).foldlM (readDigit b) 0 = some (Nat.ofDigits b digits) := by
  induction digits with
  | nil => rfl
  | cons d digits ih =>
    have hd := h d mem_cons_self
    rw [reverse_cons, map_append, foldlM_append,
      ih fun e he => h e (mem_cons_of_mem d he)]
    simp [readDigit, digitValue_digit d (lt_of_lt_of_le hd hb), hd, Nat.ofDigits_cons]

theorem readNumeral_numeral (hlow : 1 < b) (hb : b ≤ 16) (n : ℕ) : readNumeral b (numeral b n) = some n := by
  unfold numeral readNumeral
  by_cases hn : n = 0
  · subst hn
    have hzero : digitValue 48 = some 0 := by decide
    simp [readDigit, hzero, Nat.zero_lt_of_lt hlow]
  · rw [if_neg hn, if_neg]
    · rw [foldlM_digits hb _ fun d hd => Nat.digits_lt_base hlow hd, Nat.ofDigits_digits]
    · simp [Nat.digits_ne_nil_iff_ne_zero.mpr hn]

theorem mem_numeral (hlow : 1 < b) (hb : b ≤ 16) {c : UInt8} (h : c ∈ numeral b n) :
    ∃ d < 16, c = digit d := by
  unfold numeral at h
  split_ifs at h with hn
  · exact ⟨0, by decide, mem_singleton.mp h⟩
  · obtain ⟨d, hd, rfl⟩ := mem_map.mp h
    exact ⟨d, lt_of_lt_of_le (Nat.digits_lt_base hlow (mem_reverse.mp hd)) hb, rfl⟩

theorem numeral_length_le (hlow : 1 < b) {k : ℕ} (hk : 0 < k) (h : n < b ^ k) :
    (numeral b n).length ≤ k := by
  unfold numeral
  split_ifs with hn
  · exact hk
  · rw [length_map, length_reverse]
    exact (Nat.digits_length_le_iff hlow n).mpr h

end Veloco.Numeral
