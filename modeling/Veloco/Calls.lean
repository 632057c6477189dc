import Mathlib.Data.List.Basic

/-!
# Calls that are answered in the order in which they were made
-/

namespace Veloco.Calls

open List

variable {τ α ρ β : Type*}

structure Entry (τ α ρ : Type*) where
  caller : τ
  arg : α
  answer : Option ρ

def pending (log : List (Entry τ α ρ)) : List (Entry τ α ρ) := log.filter fun e => e.answer.isNone

def Entry.outcome (gives : α → ρ → Option β) (e : Entry τ α ρ) : Option β :=
  e.answer.bind (gives e.arg)

def outcomes (gives : α → ρ → Option β) (log : List (Entry τ α ρ)) : List β :=
  log.filterMap (Entry.outcome gives)

def InOrder (gives : α → ρ → Option β) (log : List (Entry τ α ρ)) : Prop :=
  log.Pairwise fun a b => a.answer = none → b.outcome gives = none

def settle [DecidableEq τ] (waiting : List τ) (answer : τ → α → ρ) (log : List (Entry τ α ρ)) :
    List (Entry τ α ρ) :=
  log.map fun e =>
    if e.answer.isNone ∧ e.caller ∉ waiting then { e with answer := some (answer e.caller e.arg) } else e

section Append

variable {gives : α → ρ → Option β} {log : List (Entry τ α ρ)} {e : Entry τ α ρ}

theorem pending_append_answered (h : e.answer ≠ none) : pending (log ++ [e]) = pending log := by
  unfold pending
  rw [filter_append]
  simp [h]

theorem pending_append_waiting (h : e.answer = none) : pending (log ++ [e]) = pending log ++ [e] := by
  unfold pending
  rw [filter_append]
  simp [h]

theorem outcomes_append : outcomes gives (log ++ [e]) = outcomes gives log ++ (e.outcome gives).toList := by
  unfold outcomes
  rw [filterMap_append]
  cases h : e.outcome gives with
  | none => simp [h]
  | some x => simp [h]

theorem InOrder.append (h : InOrder gives log)
    (he : pending log ≠ [] → e.outcome gives = none) : InOrder gives (log ++ [e]) := by
  apply pairwise_append.mpr
  refine ⟨h, pairwise_singleton _ _, fun a ha b hb hnn => ?_⟩
  obtain rfl := mem_singleton.mp hb
  apply he
  exact ne_nil_of_mem (mem_filter.mpr ⟨ha, by simp [hnn]⟩)

theorem pending_eq_nil {waiting : List τ} (h : waiting = (pending log).map Entry.caller)
    (hwt : waiting = []) : pending log = [] := map_eq_nil_iff.mp (h.symm.trans hwt)

theorem inOrder_of_pending (h : pending log = []) : InOrder gives log := by
  apply pairwise_iff_forall_sublist.mpr
  intro a b hab hnn
  have hmem : a ∈ pending log := mem_filter.mpr ⟨hab.subset mem_cons_self, by simp [hnn]⟩
  rw [h] at hmem
  exact absurd hmem not_mem_nil

theorem map_caller_eq {gives : α → ρ → Option τ} (hord : InOrder gives log)
    (h : ∀ e ∈ log, e.answer = none ∨ e.outcome gives = some e.caller) :
    log.map Entry.caller = outcomes gives log ++ (pending log).map Entry.caller := by
  induction log with
  | nil => rfl
  | cons e log ih =>
    obtain ⟨hlat, hrs⟩ := pairwise_cons.mp hord
    specialize ih hrs fun e' he' => h e' (mem_cons_of_mem e he')
    rcases h e mem_cons_self with hnn | hgiv
    · -- nobody behind `e` has been given anything
      have hbr : e.outcome gives = none := by
        unfold Entry.outcome
        rw [hnn]
        rfl
      have hnot : outcomes gives log = [] := filterMap_eq_nil_iff.mpr fun a ha => hlat a ha hnn
      have hwai : pending (e :: log) = e :: pending log := filter_cons_of_pos (by simp [hnn])
      rw [hnot] at ih
      have hemp : outcomes gives (e :: log) = [] := by
        unfold outcomes at hnot ⊢
        rw [filterMap_cons, hbr, hnot]
      rw [hemp, hwai, map_cons, map_cons, ih]
      rfl
    · have hans : e.answer ≠ none := by
        intro hnn
        unfold Entry.outcome at hgiv
        rw [hnn] at hgiv
        cases hgiv
      have hwai : pending (e :: log) = pending log := filter_cons_of_neg (by simpa using hans)
      have hfir : outcomes gives (e :: log) = e.caller :: outcomes gives log := by
        unfold outcomes
        rw [filterMap_cons, hgiv]
      rw [hfir, hwai, map_cons, ih]
      rfl

end Append

section Settle

variable [DecidableEq τ] {gives : α → ρ → Option β} {log : List (Entry τ α ρ)} {waiting : List τ}
  {answer : τ → α → ρ}

theorem mem_settle {e : Entry τ α ρ} (h : e ∈ settle waiting answer log) :
    e ∈ log ∨ ∃ e' ∈ pending log, e'.caller ∉ waiting ∧
      e = { e' with answer := some (answer e'.caller e'.arg) } := by
  obtain ⟨e', he', rfl⟩ := mem_map.mp h
  by_cases hout : e'.answer.isNone ∧ e'.caller ∉ waiting
  · rw [if_pos hout]
    exact Or.inr ⟨e', mem_filter.mpr ⟨he', hout.1⟩, hout.2, rfl⟩
  · rw [if_neg hout]
    exact Or.inl he'

theorem settle_of_waiting (h : ∀ e ∈ pending log, e.caller ∈ waiting) :
    settle waiting answer log = log := by
  unfold settle
  refine (map_congr_left fun e he => ?_).trans (map_id log)
  apply if_neg
  rintro ⟨hnn, hout⟩
  exact hout (h e (mem_filter.mpr ⟨he, hnn⟩))

theorem settle_waiting (h : waiting = (pending log).map Entry.caller) :
    settle waiting answer log = log := by
  apply settle_of_waiting
  intro e he
  rw [h]
  exact mem_map_of_mem he

theorem settle_first (answer : τ → α → ρ) {e : Entry τ α ρ} {rest : List (Entry τ α ρ)}
    (h : pending log = e :: rest) (hout : e.caller ∉ waiting) (hrs : ∀ e' ∈ rest, e'.caller ∈ waiting) :
    ∃ before after, log = before ++ e :: after ∧ pending before = [] ∧ pending after = rest ∧
      settle waiting answer log =
        before ++ { e with answer := some (answer e.caller e.arg) } :: after := by
  obtain ⟨before, after, rfl, hbef, he, haft⟩ := filter_eq_cons_iff.mp h
  have hnn : pending before = [] := filter_eq_nil_iff.mpr hbef
  refine ⟨before, after, rfl, hnn, haft, ?_⟩
  have hsm : settle waiting answer before = before := by
    apply settle_of_waiting
    intro e' he'
    rw [hnn] at he'
    exact absurd he' not_mem_nil
  have hsame' : settle waiting answer after = after := by
    apply settle_of_waiting
    intro e' he'
    exact hrs e' (haft ▸ he')
  unfold settle at hsm hsame' ⊢
  rw [map_append, map_cons, hsm, hsame', if_pos ⟨he, hout⟩]

theorem outcomes_settle_first {e : Entry τ α ρ} {rest : List (Entry τ α ρ)}
    (hord : InOrder gives log) (h : pending log = e :: rest) (hout : e.caller ∉ waiting)
    (hrs : ∀ e' ∈ rest, e'.caller ∈ waiting) :
    pending (settle waiting answer log) = rest ∧
      outcomes gives (settle waiting answer log) =
        outcomes gives log ++ (gives e.arg (answer e.caller e.arg)).toList ∧
      InOrder gives (settle waiting answer log) := by
  obtain ⟨before, after, rfl, hbef, haft, hset⟩ := settle_first answer h hout hrs
  have hnn : e.answer = none := by
    have hmem : e ∈ pending (before ++ e :: after) := h ▸ mem_cons_self
    simpa using (mem_filter.mp hmem).2
  obtain ⟨hord₁, hord₂, hcro⟩ := pairwise_append.mp hord
  obtain ⟨hlat, hord₃⟩ := pairwise_cons.mp hord₂
  -- what follows has been given nothing
  have hnot : after.filterMap (Entry.outcome gives) = [] :=
    filterMap_eq_nil_iff.mpr fun a ha => hlat a ha hnn
  rw [hset]
  refine ⟨?_, ?_, ?_⟩
  · unfold pending at hbef haft ⊢
    rw [filter_append, hbef, filter_cons_of_neg (by simp), haft]
    rfl
  · unfold outcomes
    rw [filterMap_append, filterMap_append, filterMap_cons, filterMap_cons, hnot]
    have hgiv : (Entry.outcome gives { e with answer := some (answer e.caller e.arg) }) =
        gives e.arg (answer e.caller e.arg) := rfl
    have hbr : e.outcome gives = none := by
      unfold Entry.outcome
      rw [hnn]
      rfl
    rw [hgiv, hbr]
    cases gives e.arg (answer e.caller e.arg) with
    | none => simp
    | some x => simp
  · apply pairwise_append.mpr
    refine ⟨hord₁, pairwise_cons.mpr ⟨fun a _ hnn => (by cases hnn), hord₃⟩, ?_⟩
    intro a ha b hb hfr
    -- nobody waits in front of it
    have hmem : a ∈ pending before := mem_filter.mpr ⟨ha, by simp [hfr]⟩
    rw [hbef] at hmem
    exact absurd hmem not_mem_nil

theorem settle_queue {w : τ} {rest : List τ} (h : w :: rest = (pending log).map Entry.caller)
    (hnod : (w :: rest).Nodup) (hord : InOrder gives log) :
    ∃ e others, pending log = e :: others ∧ e.caller = w ∧ others.map Entry.caller = rest ∧
      ∀ answer : τ → α → ρ, pending (settle rest answer log) = others ∧
        outcomes gives (settle rest answer log) =
          outcomes gives log ++ (gives e.arg (answer w e.arg)).toList ∧
        InOrder gives (settle rest answer log) := by
  obtain ⟨e, others, hpen, rfl, rfl⟩ := map_eq_cons_iff.mp h.symm
  refine ⟨e, others, hpen, rfl, rfl, fun answer => ?_⟩
  exact outcomes_settle_first hord hpen (nodup_cons.mp hnod).1
    fun e' he' => mem_map_of_mem he'

theorem pending_settle_all (answer : τ → α → ρ) (log : List (Entry τ α ρ)) :
    pending (settle [] answer log) = [] := by
  apply filter_eq_nil_iff.mpr
  intro e' he'
  obtain ⟨e, -, rfl⟩ := mem_map.mp he'
  by_cases hnn : e.answer.isNone
  · rw [if_pos ⟨hnn, not_mem_nil⟩]
    simp
  · rw [if_neg fun hand => hnn hand.1]
    exact hnn

theorem outcomes_settle_all (answer : τ → α → ρ) (hord : InOrder gives log) :
    outcomes gives (settle [] answer log) = outcomes gives log ++
      (pending log).filterMap fun e => gives e.arg (answer e.caller e.arg) := by
  induction log with
  | nil => rfl
  | cons e log ih =>
    obtain ⟨hlat, hord⟩ := pairwise_cons.mp hord
    specialize ih hord
    unfold outcomes pending settle at ih ⊢
    rw [map_cons, filterMap_cons, filterMap_cons, ih]
    by_cases hnn : e.answer.isNone
    · -- `e` waited, so nobody behind it had been given anything
      have hbr : e.outcome gives = none := by
        unfold Entry.outcome
        rw [Option.isNone_iff_eq_none.mp hnn]
        rfl
      have hnot : log.filterMap (Entry.outcome gives) = [] :=
        filterMap_eq_nil_iff.mpr fun a ha => hlat a ha (Option.isNone_iff_eq_none.mp hnn)
      have hgiv : (Entry.outcome gives { e with answer := some (answer e.caller e.arg) }) =
          gives e.arg (answer e.caller e.arg) := rfl
      have hwai : (e :: log).filter (fun e => e.answer.isNone) =
          e :: log.filter fun e => e.answer.isNone := filter_cons_of_pos hnn
      rw [if_pos ⟨hnn, not_mem_nil⟩, hwai, filterMap_cons, hgiv, hbr, hnot]
      cases gives e.arg (answer e.caller e.arg) with
      | none => rfl
      | some x => rfl
    · have hwai : (e :: log).filter (fun e => e.answer.isNone) =
          log.filter fun e => e.answer.isNone := filter_cons_of_neg hnn
      rw [if_neg fun hand => hnn hand.1, hwai]
      cases e.outcome gives with
      | none => rfl
      | some x => rfl

theorem settle_all (answer : τ → α → ρ) (hord : InOrder gives log)
    (h : ∀ e ∈ pending log, gives e.arg (answer e.caller e.arg) = none) :
    pending (settle [] answer log) = [] ∧
      outcomes gives (settle [] answer log) = outcomes gives log ∧
      InOrder gives (settle [] answer log) := by
  have hnn := pending_settle_all answer log
  refine ⟨hnn, ?_, inOrder_of_pending hnn⟩
  rw [outcomes_settle_all answer hord, filterMap_eq_nil_iff.mpr h, append_nil]

end Settle

end Veloco.Calls
