import Veloco.Http.Fragments

/-!
# Bytes after a request
-/

namespace Veloco.Http

open List

/-- The bytes of the fragments up to the one that brings the byte with number `n`. -/
def arrival (n : ℕ) : List (List UInt8) → ℕ
  | [] => 0
  | data :: rest => if n ≤ data.length then data.length else data.length + arrival (n - data.length) rest

section Pipelined

variable {config : Config} {capacity : ℕ} {p : Parser} {acc w rest : List UInt8} {v : Verdict}

theorem answer_of_start {v' : Verdict} (hw : Answers config w v) (hst : acc ++ rest = w)
    (h : Answers config acc v') (hfin : v'.status ≠ .needMore) : v' = v := by
  subst hst
  exact (h.append hfin rest).unique hw

theorem feedAll_pipelined (fragments : List (List UInt8)) (hrd : Reading config capacity p acc)
    (hw : Answers config w v) (hfin : v.status ≠ .needMore)
    (hcut : acc ++ fragments.flatten = w ++ rest) (hacc : acc.length < w.length)
    (hfit : acc.length + arrival (w.length - acc.length) fragments ≤ capacity) :
    verdict (feedAll p fragments) = v := by
  induction fragments generalizing p acc with
  | nil =>
    have hlen := congrArg List.length hcut
    rw [flatten_nil, append_nil, length_append] at hlen
    omega
  | cons data fragments ih =>
    rw [flatten_cons, ← append_assoc] at hcut
    unfold arrival at hfit
    have hle : (acc ++ data).length ≤ capacity := by
      rw [length_append]
      split_ifs at hfit with hend
      · exact hfit
      · omega
    obtain ⟨hans, hmr⟩ := feed_answers data hrd hle
    unfold feedAll
    by_cases hend : w.length ≤ (acc ++ data).length
    · -- the request is there: the bytes so far begin with it
      obtain ⟨more, hspl⟩ : ∃ more, acc ++ data = w ++ more := by
        obtain ⟨more, hmr⟩ := prefix_of_prefix_length_le ⟨rest, hcut.symm⟩ ⟨_, rfl⟩ hend
        exact ⟨more, hmr.symm⟩
      rw [hspl] at hans
      have hv := hans.unique (hw.append hfin more)
      generalize p.feed data = result at hv ⊢
      obtain ⟨p', status⟩ := result
      cases status with
      | needMore => exact absurd (congrArg Verdict.status hv).symm hfin
      | complete => exact hv
      | error => exact hv
    · -- the bytes so far are a part of the request
      obtain ⟨more, hspl⟩ : ∃ more, (acc ++ data) ++ more = w :=
        prefix_of_prefix_length_le ⟨_, hcut⟩ ⟨rest, rfl⟩ (by omega)
      generalize p.feed data = result at hans hmr ⊢
      obtain ⟨p', status⟩ := result
      cases status with
      | needMore =>
        rw [length_append] at hend hle
        refine ih (hmr rfl) hcut (by rw [length_append]; omega) ?_
        rw [if_neg (by omega)] at hfit
        rw [length_append, Nat.sub_add_eq]
        omega
      | complete => exact answer_of_start hw hspl hans fun h => by cases h
      | error => exact answer_of_start hw hspl hans fun h => by cases h

theorem feed_overflow {data : List UInt8} (hrd : Reading config capacity p acc)
    (hacc : acc.length ≤ capacity) (hvr : capacity < (acc ++ data).length) :
    p.feed data = (p.setError .payloadTooLarge, .error) := by
  rw [length_append] at hvr
  unfold Parser.feed
  rw [if_neg (by simp [hrd.complete, hrd.error]), if_pos]
  rw [hrd.capacity_eq, hrd.length_eq]
  omega

theorem feedAll_overflow (fragments : List (List UInt8)) (hrd : Reading config capacity p acc)
    (hw : Answers config w v) (hcom : v.status = .complete)
    (hmin : ∀ q v', q <+: w → q ≠ w → Answers config q v' → v'.status ≠ .complete)
    (hft : w.length ≤ capacity) (hcut : acc ++ fragments.flatten = w ++ rest)
    (hacc : acc.length < w.length)
    (hvr : capacity < acc.length + arrival (w.length - acc.length) fragments) :
    (feedAll p fragments).2 = .error ∧ (feedAll p fragments).1.error = .payloadTooLarge := by
  induction fragments generalizing p acc with
  | nil =>
    unfold arrival at hvr
    omega
  | cons data fragments ih =>
    rw [flatten_cons, ← append_assoc] at hcut
    unfold arrival at hvr
    unfold feedAll
    by_cases hend : w.length ≤ (acc ++ data).length
    · -- the fragment with the last byte does not fit
      rw [length_append] at hend
      rw [if_pos (by omega)] at hvr
      rw [feed_overflow hrd (by omega) (by rwa [length_append])]
      exact ⟨rfl, rfl⟩
    · -- the bytes so far are a proper part of the request, which no answer but `needMore` fits
      have hpr : acc ++ data <+: w := prefix_of_prefix_length_le ⟨_, hcut⟩ ⟨rest, rfl⟩ (by omega)
      obtain ⟨more, hspl⟩ := hpr
      obtain ⟨hans, hmr⟩ := feed_answers data hrd (by omega)
      generalize p.feed data = result at hans hmr ⊢
      obtain ⟨p', status⟩ := result
      cases status with
      | needMore =>
        rw [length_append] at hend
        refine ih (hmr rfl) hcut (by rw [length_append]; omega) ?_
        rw [if_neg (by omega)] at hvr
        rw [length_append, Nat.sub_add_eq]
        omega
      | complete =>
        refine absurd rfl (hmin (acc ++ data) _ ⟨more, hspl⟩ (fun heq => hend ?_) hans)
        rw [heq]
      | error =>
        have hv := answer_of_start hw hspl hans fun h => by cases h
        rw [← hv] at hcom
        cases hcom

end Pipelined

/-- **Pipelined bytes do not change the verdict** as long as the fragments up to the one with the last
byte of the request fit the buffer. For a request without a complete proper part that is also needed: if
they do not fit, the parser answers `413`. -/
theorem pipelined_verdict (config : Config) (malloc : Bool) (r s : List UInt8)
    (hr : ((Parser.init config malloc).feed r).2 = .complete) (fragments : List (List UInt8))
    (hcut : fragments.flatten = r ++ s) :
    let fits := arrival r.length fragments ≤ (Parser.init config malloc).capacity
    let result := feedAll (.init config malloc) fragments
    (fits → verdict result = verdict ((Parser.init config malloc).feed r)) ∧
      ((∀ q, q <+: r → q ≠ r → ((Parser.init config malloc).feed q).2 ≠ .complete) →
        (verdict result = verdict ((Parser.init config malloc).feed r) ↔ fits) ∧
        (¬ fits → result.2 = .error ∧ result.1.error = .payloadTooLarge)) := by
  intro fits result
  obtain ⟨rfl, hrm, hans⟩ := answers_of_taken (fun h => by rw [hr] at h; cases h)
  have hsta : (verdict ((Parser.init config true).feed r)).status = .complete := hr
  have hlen : ([] : List UInt8).length < r.length := by
    -- an empty request is not complete
    rw [length_nil, length_pos_iff]
    rintro rfl
    exact absurd hr (by cases config; simp [Parser.feed, Parser.init, findHeaderEnd, Search.find])
  have hcut : [] ++ fragments.flatten = r ++ s := hcut
  have hsm : fits → verdict result = verdict ((Parser.init config true).feed r) := fun hfit =>
    feedAll_pipelined fragments (reading_init config) hans (by rw [hsta]; exact fun h => by cases h)
      hcut hlen (by rwa [length_nil, Nat.zero_add, Nat.sub_zero])
  refine ⟨hsm, fun hmin => ?_⟩
  have hvr : ¬ fits → result.2 = .error ∧ result.1.error = .payloadTooLarge := fun hnot => by
    refine feedAll_overflow fragments (reading_init config) hans hsta (fun q v' hq hne hv' => ?_)
      hrm hcut hlen (by rw [length_nil, Nat.zero_add, Nat.sub_zero]; exact not_le.mp hnot)
    rw [hv'.unique (feed_answers q (reading_init config) (hq.length_le.trans hrm)).1]
    exact hmin q hq hne
  refine ⟨⟨fun heq => by_contra fun hnot => ?_, hsm⟩, hvr⟩
  have herr : result.2 = .complete := (congrArg Verdict.status heq).trans hsta
  rw [(hvr hnot).1] at herr
  cases herr

def getRoot : List UInt8 := [71, 69, 84, 32, 47, 32] ++ versionStart ++ [49, 13, 10, 13, 10]

theorem pipelined_verdict_getRoot :
    (verdict (feedAll (.init ⟨32, 32, 16⟩ true) [getRoot.take 5, getRoot.drop 5 ++ [71, 69, 84]])).status =
      .complete := by
  have hver := pipelined_verdict ⟨32, 32, 16⟩ true getRoot [71, 69, 84] (by decide +kernel)
    [getRoot.take 5, getRoot.drop 5 ++ [71, 69, 84]] (by decide +kernel)
  have hmin : ∀ q ∈ getRoot.inits, q ≠ getRoot →
      ((Parser.init ⟨32, 32, 16⟩ true).feed q).2 ≠ .complete := by decide +kernel
  have hiff := (hver.2 fun q hq => hmin q ((mem_inits q getRoot).mpr hq)).1
  exact (congrArg Verdict.status (hiff.mpr (by decide +kernel))).trans (by decide +kernel)

/-- **A request at its limits is lost with the byte that follows it.** -/
theorem pipelined_refused :
    ((Parser.init ⟨18, 18, 1⟩ true).feed getRoot).2 = .complete ∧
      (verdict (feedAll (.init ⟨18, 18, 1⟩ true) [getRoot ++ [71, 69]])).status = .error ∧
      (verdict (feedAll (.init ⟨18, 18, 1⟩ true) [getRoot ++ [71, 69]])).error = .payloadTooLarge := by
  decide +kernel

end Veloco.Http
