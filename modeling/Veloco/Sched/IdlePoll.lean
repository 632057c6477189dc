import Mathlib.Algebra.Order.Floor.Div
import Veloco.TimerHeap.Order
import Veloco.Sched.Reach

/-!
# How long an idle worker sleeps
-/

namespace Veloco.Sched

open Sched.Runtime
open Veloco.Word
open Veloco.TimerHeap (Heap)

variable {r : Runtime} {p : PId} {now : ℕ}

def Runtime.timersTimeoutMs (r : Runtime) (p : PId) (now : ℕ) : ℤ :=
  match (r.heap p).peek with
  | none => 0
  | some first =>
    if (r.node first).deadline ≤ now then 0
    else
      let remaining := sub (r.node first).deadline now
      if remaining / 1000000 ≥ intMax then intMax
      else (add remaining 999999 / 1000000 : ℕ)

def Runtime.idlePollTimeout (r : Runtime) (p : PId) (now : ℕ) : ℤ :=
  let timeout := r.timersTimeoutMs p now
  if r.ioWaiting ≠ 0 ∧ p = 0 ∧ (timeout < 0 ∨ timeout > 10) then 10 else timeout

def LeastMillis (deadline now t : ℕ) : Prop :=
  deadline ≤ now + t * 1000000 ∧ ∀ t', deadline ≤ now + t' * 1000000 → t ≤ t'

theorem leastMillis_ceilDiv (hlt : now ≤ deadline) :
    LeastMillis deadline now ((deadline - now) ⌈/⌉ 1000000) := by
  have hiff : ∀ t, (deadline - now) ⌈/⌉ 1000000 ≤ t ↔ deadline ≤ now + t * 1000000 := by
    intro t
    rw [ceilDiv_le_iff_le_mul (by norm_num), Nat.mul_comm]
    omega
  exact ⟨(hiff _).mp le_rfl, fun t' ht' => (hiff t').mpr ht'⟩

theorem roundMillis_exact {deadline : ℕ} (hlt : now < deadline) (hd : deadline < modulus) :
    (if sub deadline now / 1000000 ≥ intMax then intMax
      else add (sub deadline now) 999999 / 1000000) =
      min ((deadline - now) ⌈/⌉ 1000000) intMax := by
  have hmax : intMax * 1000000 + 999999 < modulus := by decide
  rw [sub_of_le hlt.le hd, Nat.ceilDiv_eq_add_pred_div]
  split_ifs with hbig
  · omega
  · rw [add_of_lt (by omega)]
    omega

theorem timersTimeoutMs_eq {first : TimerId} (hfir : (r.heap p).peek = some first)
    (hd : (r.node first).deadline < modulus) :
    r.timersTimeoutMs p now = if (r.node first).deadline ≤ now then 0
      else ((min (((r.node first).deadline - now) ⌈/⌉ 1000000) intMax : ℕ) : ℤ) := by
  unfold timersTimeoutMs
  rw [hfir]
  dsimp only
  split_ifs with hdue hbig
  · rfl
  · rw [← roundMillis_exact (not_le.mp hdue) hd, if_pos hbig]
  · rw [← roundMillis_exact (not_le.mp hdue) hd, if_neg hbig]

/-- What `vl_worker_idle` has to pass to `poll` when no I/O is pending: a negative timeout with no
timer, `0` when a timer is due, and otherwise the least number of milliseconds to the earliest deadline
of all timers, saturated at `INT_MAX`. -/
structure Runtime.PollsRight (r : Runtime) (p : PId) (now : ℕ) : Prop where
  blocks : (r.ps p).timers = [] → r.idlePollTimeout p now < 0
  due : (∃ tm ∈ (r.ps p).timers, (r.node tm).deadline ≤ now) → r.idlePollTimeout p now = 0
  waits : (r.ps p).timers ≠ [] → (∀ tm ∈ (r.ps p).timers, now < (r.node tm).deadline) →
    ∃ first ∈ (r.ps p).timers,
      (∀ tm ∈ (r.ps p).timers, (r.node first).deadline ≤ (r.node tm).deadline) ∧
      ∃ t, LeastMillis (r.node first).deadline now t ∧ r.idlePollTimeout p now = (min t intMax : ℕ)

theorem idlePollTimeout_eq (hio : r.ioWaiting = 0) : r.idlePollTimeout p now = r.timersTimeoutMs p now := by
  unfold idlePollTimeout
  dsimp only
  rw [if_neg fun hbad => hbad.1 hio]

/-- With no timer the answer is `0`, and `poll` returns at once. -/
theorem idlePollTimeout_empty (hio : r.ioWaiting = 0) (hnone : (r.ps p).timers = []) :
    r.idlePollTimeout p now = 0 := by
  rw [idlePollTimeout_eq hio]
  simp [timersTimeoutMs, heap, Heap.peek, hnone]

/-- **The timeout of an idle worker is right exactly when its P has a timer.** -/
theorem idlePollTimeout_exact (ho : (r.heap p).Ordered) (hio : r.ioWaiting = 0)
    (hd : ∀ tm ∈ (r.ps p).timers, (r.node tm).deadline < modulus) (now : ℕ) :
    r.PollsRight p now ↔ (r.ps p).timers ≠ [] := by
  refine ⟨fun h hnone => ?_, fun harm => ?_⟩
  · have hneg := h.blocks hnone
    rw [idlePollTimeout_empty hio hnone] at hneg
    exact lt_irrefl 0 hneg
  obtain ⟨first, hfir⟩ : ∃ first, (r.heap p).peek = some first := by
    obtain ⟨first, rest, hlist⟩ := List.exists_cons_of_ne_nil harm
    exact ⟨first, by simp [Heap.peek, heap, hlist]⟩
  have hmem : first ∈ (r.ps p).timers := List.mem_of_getElem? hfir
  have hlea : ∀ tm ∈ (r.ps p).timers, (r.node first).deadline ≤ (r.node tm).deadline :=
    ho.le_of_peek hfir
  have htim : r.idlePollTimeout p now = _ :=
    (idlePollTimeout_eq hio).trans (timersTimeoutMs_eq hfir (hd first hmem))
  refine ⟨fun hnone => absurd hnone harm, ?_, fun _ hfut => ?_⟩
  · rintro ⟨tm, htm, hdue⟩
    rw [htim, if_pos ((hlea tm htm).trans hdue)]
  · have hlt := hfut first hmem
    rw [if_neg (not_le.mpr hlt)] at htim
    exact ⟨first, hmem, hlea, _, leastMillis_ceilDiv hlt.le, htim⟩

def twoDeadlines : Runtime where
  workerCount := 1
  ps := fun _ => { timers := [0, 1], timersCapacity := 16 }
  node := fun tm => ⟨[5000001, 12000000].getD tm 0, tm, true⟩
  timerCount := 2

theorem idlePollTimeout_exact_twoDeadlines :
    twoDeadlines.idlePollTimeout 0 0 = 6 ∧ ∃ first ∈ (twoDeadlines.ps 0).timers,
      ∃ t, LeastMillis (twoDeadlines.node first).deadline 0 t ∧
        twoDeadlines.idlePollTimeout 0 0 = (min t intMax : ℕ) := by
  have ho : (twoDeadlines.heap 0).Ordered := by
    intro i hpos hlt
    have hlt : i < 2 := hlt
    interval_cases i
    decide
  have hrig := (idlePollTimeout_exact ho rfl (by decide) 0).mpr (by decide)
  obtain ⟨first, hfir, -, ht⟩ := hrig.waits (by decide) (by decide)
  exact ⟨by decide, first, hfir, ht⟩

def idleSchedule : List Action :=
  [Action.owner .spawn, .owner .run] ++ List.replicate 8 (Action.worker 0 {}) ++
    List.replicate 10 (Action.worker 1 {})

/-- Worker 1 polls, in the middle of a run, with no timer on its P and no I/O pending, and its timeout
is `0` at every time. -/
theorem idle_worker_spins : ∃ s : System,
    Trans.run step { rt := { workerCount := 2 } } idleSchedule = some s ∧
    (s.rt.ps 1).pc = .idlePoll ∧ s.rt.running = true ∧ s.rt.ioWaiting = 0 ∧
    (s.rt.ps 1).timers = [] ∧ ∀ now, s.rt.idlePollTimeout 1 now = 0 := by
  have heval : (Trans.run step { rt := { workerCount := 2 } } idleSchedule).map (fun s =>
      ((s.rt.ps 1).pc, s.rt.running, s.rt.ioWaiting, (s.rt.ps 1).timers)) =
      some (.idlePoll, true, 0, []) := by rfl
  obtain ⟨s, hs, heq⟩ := Option.map_eq_some_iff.mp heval
  simp only [Prod.mk.injEq] at heq
  obtain ⟨hpc, hrun, hio, htime⟩ := heq
  exact ⟨s, hs, hpc, hrun, hio, htime, fun now => idlePollTimeout_empty hio htime⟩

end Veloco.Sched
