import Veloco.Common
import Veloco.Word

/-!
# How long `vl_epoll_backend_poll` waits
-/

namespace Veloco.Net.Epoll

open Veloco.Word

structure Timespec where
  sec : ℕ
  nsec : ℕ
  normal : nsec < 1000000000
  deriving DecidableEq, Repr

def Timespec.nanos (t : Timespec) : ℕ := t.sec * 1000000000 + t.nsec

def Timespec.after (now : Timespec) (timeoutMs : ℕ) : Timespec :=
  let sec := now.sec + timeoutMs / 1000
  let nsec := now.nsec + timeoutMs % 1000 * 1000000
  if h : nsec ≥ 1000000000 then ⟨sec + 1, nsec - 1000000000, by have := now.normal; omega⟩
  else ⟨sec, nsec, by omega⟩

theorem nanos_carry {s n q m : ℕ} (h : n + m * 1000000 ≥ 1000000000) :
    (s + q + 1) * 1000000000 + (n + m * 1000000 - 1000000000) =
      s * 1000000000 + n + (1000 * q + m) * 1000000 := by
  obtain ⟨d, hd⟩ := Nat.exists_eq_add_of_le h
  rw [hd, Nat.add_sub_cancel_left]
  omega

theorem Timespec.nanos_after (now : Timespec) (timeoutMs : ℕ) :
    (now.after timeoutMs).nanos = now.nanos + timeoutMs * 1000000 := by
  have hspl : (now.after timeoutMs).nanos =
      now.nanos + (1000 * (timeoutMs / 1000) + timeoutMs % 1000) * 1000000 := by
    unfold Timespec.after
    dsimp only
    by_cases h : now.nsec + timeoutMs % 1000 * 1000000 ≥ 1000000000
    · rw [dif_pos h]
      exact nanos_carry h
    · rw [dif_neg h]
      unfold Timespec.nanos
      dsimp only
      generalize timeoutMs / 1000 = q
      generalize timeoutMs % 1000 = m
      omega
  rw [hspl, Nat.div_add_mod]

def makeDeadline (timeoutMs : ℤ) (clock : Option Timespec) : Status × Option Timespec :=
  if timeoutMs < 0 then (.ok, none)
  else
    match clock with
    | none => (.system, none)
    | some now => (.ok, some (now.after timeoutMs.toNat))

def remainingTimeout (deadline : Timespec) (timeoutMs : ℤ) (clock : Option Timespec) : ℤ :=
  if timeoutMs < 0 then -1
  else
    match clock with
    | none => timeoutMs
    | some now =>
      let milliseconds := ((deadline.sec : ℤ) - now.sec) * 1000 +
        ((deadline.nsec : ℤ) - now.nsec).tdiv 1000000
      if milliseconds ≤ 0 then 0
      else if milliseconds > intMax then intMax
      else milliseconds

def LongEnough (deadline now : Timespec) (wait : ℤ) : Prop :=
  (deadline.nanos ≤ now.nanos → wait = 0) ∧
    (now.nanos < deadline.nanos →
      wait = intMax ∨ (((deadline.nanos - now.nanos + 999999) / 1000000 : ℕ) : ℤ) ≤ wait)

def InPhase (deadline now : Timespec) : Prop :=
  deadline.nanos ≤ now.nanos ∨ deadline.nsec ≤ now.nsec ∨
    (1000000 : ℤ) ∣ (deadline.nsec : ℤ) - now.nsec

instance (deadline now : Timespec) : Decidable (InPhase deadline now) :=
  inferInstanceAs (Decidable (_ ∨ _ ∨ _))

theorem tdiv_near (d : ℤ) : d - 1000000 < d.tdiv 1000000 * 1000000 ∧
    d.tdiv 1000000 * 1000000 < d + 1000000 := by
  rw [Int.tdiv_eq_ediv]
  split_ifs with h
  · omega
  · rw [Int.sign_eq_one_of_pos (by decide)]
    omega

theorem le_tdiv {d : ℤ} (h : d ≤ 0 ∨ (1000000 : ℤ) ∣ d) : d ≤ d.tdiv 1000000 * 1000000 := by
  rw [Int.tdiv_eq_ediv]
  split_ifs with hpos
  · omega
  · rw [Int.sign_eq_one_of_pos (by decide)]
    omega

theorem remainingTimeout_longEnough {deadline now : Timespec} {timeoutMs : ℤ}
    (hpha : InPhase deadline now) (ht : 0 ≤ timeoutMs) :
    LongEnough deadline now (remainingTimeout deadline timeoutMs (some now)) := by
  have hnr := (tdiv_near ((deadline.nsec : ℤ) - now.nsec)).2
  have hle : deadline.nanos ≤ now.nanos ∨ (deadline.nsec : ℤ) - now.nsec ≤
      ((deadline.nsec : ℤ) - now.nsec).tdiv 1000000 * 1000000 := by
    rcases hpha with hps | hpha | hpha
    · exact Or.inl hps
    · exact Or.inr (le_tdiv (Or.inl (by omega)))
    · exact Or.inr (le_tdiv (Or.inr hpha))
  unfold remainingTimeout
  rw [if_neg (not_lt.mpr ht)]
  dsimp only
  generalize ((deadline.nsec : ℤ) - now.nsec).tdiv 1000000 = q at hnr hle ⊢
  unfold LongEnough Timespec.nanos at *
  constructor
  · intro hps
    rw [if_pos (by omega)]
  · intro hfut
    rw [if_neg (by omega)]
    split_ifs with hbig
    · exact Or.inl rfl
    · exact Or.inr (by omega)

/-! ## The loop -/

inductive Answer where
  | timedOut
  | interrupted
  | failed
  | event (status : Status)
  deriving DecidableEq, Repr

structure Round where
  scan : Status
  start : Timespec
  clockOk : Bool
  answer : Answer
  stop : Timespec
  deriving DecidableEq, Repr

def reading (ok : Bool) (time : Timespec) : Option Timespec := if ok then some time else none

def Round.wait (deadline : Timespec) (timeoutMs : ℤ) (round : Round) : ℤ :=
  remainingTimeout deadline timeoutMs (reading round.clockOk round.start)

def pollLoop (deadline : Timespec) (timeoutMs : ℤ) : List Round → Option (Status × Timespec)
  | [] => none
  | round :: rest =>
    if round.scan = .ok then some (.ok, round.start)
    else
      match round.answer with
      | .timedOut => some (.wouldBlock, round.stop)
      | .interrupted =>
        if round.wait deadline timeoutMs = 0 then some (.wouldBlock, round.stop)
        else pollLoop deadline timeoutMs rest
      | .failed => some (.system, round.stop)
      | .event status =>
        if status = .ok ∨ status = .unsupported then some (status, round.stop)
        else if timeoutMs = 0 then some (.wouldBlock, round.stop)
        else pollLoop deadline timeoutMs rest

def poll (timeoutMs : ℤ) (pop : Status) (start : Timespec) (clockOk : Bool) (rounds : List Round) :
    Option (Status × Timespec) :=
  if pop = .ok then some (.ok, start)
  else
    match makeDeadline timeoutMs (reading clockOk start) with
    | (.ok, deadline) => pollLoop (deadline.getD ⟨0, 0, by decide⟩) timeoutMs rounds
    | (_, _) => some (.system, start)

def Elapses (deadline : Timespec) (timeoutMs : ℤ) : Timespec → List Round → Prop
  | _, [] => True
  | last, round :: rest =>
    last.nanos ≤ round.start.nanos ∧ round.start.nanos ≤ round.stop.nanos ∧
      (round.answer = .timedOut →
        (round.start.nanos : ℤ) + round.wait deadline timeoutMs * 1000000 ≤ round.stop.nanos) ∧
      Elapses deadline timeoutMs round.stop rest

def Punctual (timeoutMs : ℕ) (pop : Status) (start : Timespec) (rounds : List Round) : Prop :=
  (∀ round ∈ rounds, round.clockOk = true →
    LongEnough (start.after timeoutMs) round.start (round.wait (start.after timeoutMs) timeoutMs)) ∧
  (0 < timeoutMs → ∀ time, poll timeoutMs pop start true rounds = some (.wouldBlock, time) →
    (start.after timeoutMs).nanos ≤ time.nanos)

theorem poll_clock {timeoutMs : ℤ} {pop : Status} {start deadline : Timespec} {clockOk : Bool}
    {rounds : List Round} (hpop : pop ≠ .ok)
    (hdea : makeDeadline timeoutMs (reading clockOk start) = (.ok, some deadline)) :
    poll timeoutMs pop start clockOk rounds = pollLoop deadline timeoutMs rounds := by
  unfold poll
  rw [if_neg hpop, hdea]
  generalize pollLoop = loop
  rfl

section Loop

variable {start : Timespec} {timeoutMs : ℕ}

theorem waits_out {a b t m : ℕ} (hab : a ≤ b) (htm : t ≤ m) :
    ((a + t * 1000000 : ℕ) : ℤ) ≤ b + (m : ℤ) * 1000000 := by
  omega

theorem reaches_deadline {a b : ℕ} {wait : ℤ} (h : (((a - b + 999999) / 1000000 : ℕ) : ℤ) ≤ wait) :
    (a : ℤ) ≤ b + wait * 1000000 := by
  omega

theorem Round.deadline_le {round : Round} (hmax : timeoutMs ≤ intMax)
    (hls : start.nanos ≤ round.start.nanos)
    (hpha : round.clockOk = true → InPhase (start.after timeoutMs) round.start) :
    ((start.after timeoutMs).nanos : ℤ) ≤
      round.start.nanos + round.wait (start.after timeoutMs) timeoutMs * 1000000 := by
  have haft := start.nanos_after timeoutMs
  have hneg : ¬ (timeoutMs : ℤ) < 0 := by omega
  cases hclock : round.clockOk with
  | false =>
    have hwt : round.wait (start.after timeoutMs) timeoutMs = timeoutMs := by
      unfold Round.wait reading remainingTimeout
      rw [hclock, if_neg hneg]
      rfl
    rw [hwt, haft]
    exact waits_out hls le_rfl
  | true =>
    have hln := remainingTimeout_longEnough (hpha hclock) (not_lt.mp hneg)
    have hwt : round.wait (start.after timeoutMs) timeoutMs =
        remainingTimeout (start.after timeoutMs) timeoutMs (some round.start) := by
      unfold Round.wait reading
      rw [hclock, if_pos rfl]
    rw [← hwt] at hln
    obtain ⟨hps, hfut⟩ := hln
    by_cases hlt : round.start.nanos < (start.after timeoutMs).nanos
    · rcases hfut hlt with hsat | hcl
      · rw [hsat, haft]
        exact waits_out hls hmax
      · exact reaches_deadline hcl
    · rw [hps (not_lt.mp hlt), Int.zero_mul, Int.add_zero]
      exact Int.ofNat_le.mpr (not_lt.mp hlt)

theorem pollLoop_punctual (hpos : 0 < timeoutMs) (hmax : timeoutMs ≤ intMax) {time : Timespec} :
    ∀ (rounds : List Round) (last : Timespec), start.nanos ≤ last.nanos →
      Elapses (start.after timeoutMs) timeoutMs last rounds →
      (∀ round ∈ rounds, round.clockOk = true → InPhase (start.after timeoutMs) round.start) →
      pollLoop (start.after timeoutMs) timeoutMs rounds = some (.wouldBlock, time) →
      (start.after timeoutMs).nanos ≤ time.nanos := by
  intro rounds
  induction rounds with
  | nil =>
    intro last _ _ _ h
    exact absurd h (by simp [pollLoop])
  | cons round rest ih =>
    intro last hls hela hpha h
    obtain ⟨hsta, hst, htim, hrs⟩ := hela
    have hrea := round.deadline_le hmax (hls.trans hsta) (hpha round List.mem_cons_self)
    have hnx := ih round.stop ((hls.trans hsta).trans hst) hrs fun k hk => hpha k (List.mem_cons_of_mem _ hk)
    unfold pollLoop at h
    by_cases hscan : round.scan = .ok
    · rw [if_pos hscan] at h
      exact absurd h (by simp)
    rw [if_neg hscan] at h
    cases hans : round.answer with
    | timedOut =>
      rw [hans] at h
      obtain rfl : round.stop = time := by simpa using h
      exact Int.ofNat_le.mp (hrea.trans (htim hans))
    | interrupted =>
      rw [hans] at h
      dsimp only at h
      split_ifs at h with hzr
      · obtain rfl : round.stop = time := by simpa using h
        rw [hzr, Int.zero_mul, Int.add_zero] at hrea
        exact (Int.ofNat_le.mp hrea).trans hst
      · exact hnx h
    | failed =>
      rw [hans] at h
      exact absurd h (by simp)
    | event status =>
      rw [hans] at h
      dsimp only at h
      split_ifs at h with hdn hnowait
      · obtain ⟨rfl, -⟩ : status = .wouldBlock ∧ _ := by simpa using h
        exact absurd hdn (by simp)
      · exact absurd (Int.ofNat_eq_zero.mp hnowait) hpos.ne'
      · exact hnx h

/-- The deadline of a poll with a clock. -/
theorem makeDeadline_clock (start : Timespec) (timeoutMs : ℕ) :
    makeDeadline timeoutMs (reading true start) = (.ok, some (start.after timeoutMs)) := by
  have hneg : ¬ (timeoutMs : ℤ) < 0 := not_lt.mpr (Int.natCast_nonneg timeoutMs)
  unfold makeDeadline reading
  rw [if_neg hneg, if_pos rfl]
  dsimp only
  rw [Int.toNat_natCast]

/-- **A poll whose clock is in phase is punctual.** -/
theorem poll_punctual {pop : Status} {rounds : List Round} (hmax : timeoutMs ≤ intMax)
    (hela : Elapses (start.after timeoutMs) timeoutMs start rounds)
    (hpha : ∀ round ∈ rounds, round.clockOk = true → InPhase (start.after timeoutMs) round.start) :
    Punctual timeoutMs pop start rounds := by
  refine ⟨fun round hrou hclock => ?_, fun hpos time hpoll => ?_⟩
  · have hln : LongEnough (start.after timeoutMs) round.start
        (remainingTimeout (start.after timeoutMs) timeoutMs (some round.start)) :=
      remainingTimeout_longEnough (hpha round hrou hclock) (Int.natCast_nonneg timeoutMs)
    unfold Round.wait reading
    rwa [hclock, if_pos rfl]
  · by_cases hpop : pop = .ok
    · unfold poll at hpoll
      rw [if_pos hpop] at hpoll
      exact absurd hpoll (by simp)
    · rw [poll_clock hpop (makeDeadline_clock start timeoutMs)] at hpoll
      exact pollLoop_punctual hpos hmax rounds start (Nat.le_refl _) hela hpha hpoll

end Loop

def interruptedPoll : List Round :=
  [⟨.wouldBlock, ⟨5, 0, by decide⟩, true, .interrupted, ⟨5, 1700000, by decide⟩⟩,
    ⟨.wouldBlock, ⟨5, 2000000, by decide⟩, true, .timedOut, ⟨5, 5000000, by decide⟩⟩]

theorem poll_punctual_interrupted :
    Punctual 5 .wouldBlock ⟨5, 0, by decide⟩ interruptedPoll ∧
      poll 5 .wouldBlock ⟨5, 0, by decide⟩ true interruptedPoll =
        some (.wouldBlock, ⟨5, 5000000, by decide⟩) := by
  have hwt : Round.wait (Timespec.after ⟨5, 0, by decide⟩ 5) (5 : ℕ)
      ⟨.wouldBlock, ⟨5, 2000000, by decide⟩, true, .timedOut, ⟨5, 5000000, by decide⟩⟩ = 3 := by decide
  refine ⟨poll_punctual (by decide) ?_ fun round hrou _ => Or.inr (Or.inr ?_), by decide⟩
  · refine ⟨by decide, by decide, (fun h => by cases h), by decide, by decide, fun _ => ?_, trivial⟩
    rw [hwt]
    decide
  · rcases List.mem_pair.mp hrou with rfl | rfl
    · exact ⟨5, by decide⟩
    · exact ⟨3, by decide⟩

def earlyPoll : List Round := [⟨.wouldBlock, ⟨5, 1, by decide⟩, true, .timedOut, ⟨5, 1, by decide⟩⟩]

/-- The wait is `0` although almost a millisecond is left, and the poll gives up at once. -/
theorem poll_gives_up_early :
    Elapses (Timespec.after ⟨5, 0, by decide⟩ 1) 1 ⟨5, 0, by decide⟩ earlyPoll ∧
      ¬ Punctual 1 .wouldBlock ⟨5, 0, by decide⟩ earlyPoll ∧
      remainingTimeout (Timespec.after ⟨5, 0, by decide⟩ 1) 1 (some ⟨5, 1, by decide⟩) = 0 ∧
      poll 1 .wouldBlock ⟨5, 0, by decide⟩ true earlyPoll =
        some (.wouldBlock, ⟨5, 1, by decide⟩) ∧
      (⟨5, 1, by decide⟩ : Timespec).nanos < (Timespec.after ⟨5, 0, by decide⟩ 1).nanos := by
  have hear : poll 1 .wouldBlock ⟨5, 0, by decide⟩ true earlyPoll =
      some (.wouldBlock, ⟨5, 1, by decide⟩) := by decide
  have hbef : (⟨5, 1, by decide⟩ : Timespec).nanos <
      (Timespec.after ⟨5, 0, by decide⟩ 1).nanos := by decide
  have hwt : Round.wait (Timespec.after ⟨5, 0, by decide⟩ 1) 1
      ⟨.wouldBlock, ⟨5, 1, by decide⟩, true, .timedOut, ⟨5, 1, by decide⟩⟩ = 0 := by decide
  refine ⟨?_, fun hpun => ?_, by decide, hear, hbef⟩
  · refine ⟨by decide, by decide, fun _ => ?_, trivial⟩
    rw [hwt, Int.zero_mul, Int.add_zero]
  · exact absurd (hpun.2 (by decide) _ hear) (not_le.mpr hbef)

end Veloco.Net.Epoll
