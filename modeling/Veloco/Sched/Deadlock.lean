import Veloco.Sched.Returns

/-!
# When a run is reported as stuck
-/

namespace Veloco.Sched

open Function Option Sched.Runtime
open Veloco.Total

variable {r r' : Runtime} {p : PId} {t : TaskId} {s s' : System} {l : Label}

def Ending (r : Runtime) : Prop :=
  r.shutdownRequested = true ∧ r.running = false ∧ (r.ps 0).pc ≠ .off

theorem Pc.ne_off_of_inside {pc : Pc} (h : pc.outside = false) : pc ≠ .off := by
  rintro rfl
  simp [Pc.outside] at h

theorem Eff.ending (he : Eff l r r') (hl : l ≠ .runReturn) (h : Ending r) : Ending r' := by
  obtain ⟨hsd, hrun, hoff⟩ := h
  have hoth : ∀ {p : PId}, (∀ q, q ≠ p → (r'.ps q).pc = (r.ps q).pc) → (r'.ps p).pc ≠ .off →
      (r'.ps 0).pc ≠ .off := by
    intro p hpc hp
    by_cases h0 : 0 = p
    · rwa [h0]
    · rwa [hpc 0 h0]
  refine ⟨he.shutdownRequested hsd, ?_, ?_⟩
  · by_contra hr
    rcases he.running (by simpa using hr) with hrun' | ⟨hpc, -⟩
    · simp [hrun] at hrun'
    · exact hoff hpc
  · cases he.turn with
    | stay hpc => rwa [hpc 0]
    | inner hpc _ hto => exact hoth hpc (Pc.ne_off_of_inside hto)
    | runBegin _ hfr _ _ | shutdownBegin _ hfr _ => exact absurd hfr hoff
    | runReturn h _ _ _ => exact absurd h hl
    | @outer p hpc hto =>
      generalize hb : (r'.ps p).pc = b at hto
      cases hto with
      | home _ hp => rwa [hpc 0 (Ne.symm hp)]
      | enter _ _ | wait _ _ | waited _ _ | exit _ _ => exact hoth hpc (by simp [hb])

structure Strict (r : Runtime) : Prop where
  halted : HaltedUnless (Ending r) r
  kept : KeptUnless (Ending r) r

theorem Eff.strict (he : Eff l r r') (ha : QuietSpawn r l) (hE : Ending r → Ending r') (hs : Sound r)
    (h : Strict r) : Strict r' := by
  have hhal := h.halted.imp hE
  refine ⟨he.haltedUnless ha hs.inv hs.control hs.live ?_ hhal,
    he.keptUnless hs.inv hs.live hhal (h.kept.imp hE)⟩
  rintro rfl
  by_cases hoff : (r.ps 0).pc = .off
  · exact Or.inr (hs.control.outside (by rw [hoff]; rfl))
  · exact Or.inl ⟨rfl, rfl, hoff⟩

theorem Strict.of_terminal (hs : Sound r)
    (ht : ∀ t < r.taskCount, (r.tasks t).state.terminal = true) : Strict r := by
  have hnn : r.live = ∅ := by
    apply Finset.eq_empty_of_forall_notMem
    intro t hmem
    obtain ⟨hlt, hlv⟩ := mem_live.mp hmem
    simp [ht t hlt] at hlv
  refine ⟨fun _ => Or.inr (Or.inl ?_), fun t hrun => ?_⟩
  · rw [hs.live, hnn, Finset.card_empty]
  · have hlt := hs.inv.lt_of_ne_new (t := t) (by simp [hrun])
    have htr := ht t hlt
    rw [hrun] at htr
    simp [TaskState.terminal] at htr

theorem strict_step {a : Action} (hs : step s a = some s') (ha : SpawnsQuietly s a) (h : Sound s.rt)
    (ho : Orderly s.rt) (hk : Strict s.rt) : Strict s'.rt := by
  by_cases hret : ∃ p e, a = .worker p e ∧ (s.rt.ps p).pc = .runEnd
  · obtain ⟨p, e, rfl, hpc⟩ := hret
    by_cases hsd : s.rt.shutdownRequested = true
    · exact .of_terminal (sound_step hs h) fun t ht => terminal_of_runEnd h ho hpc hs hsd ht
    · rw [step_runEnd hpc hs, if_neg hsd]
      exact (Eff.runReturn hpc).strict (by simp [QuietSpawn]) (fun hE => absurd hE.1 hsd) h hk
  · refine (step_keeps (A := fun r l => QuietSpawn r l ∧ l ≠ .runReturn) (by simp [QuietSpawn]) ?_ hs
      ?_ h hk).2
    · intro l r r' hl he hs hk
      exact he.strict hl.1 (he.ending hl.2) hs hk
    · intro l hl
      refine ⟨SpawnsQuietly.admits s a ha l hl, ?_⟩
      rintro rfl
      cases hl.emission with
      | runReturn hpc => exact hret ⟨_, _, rfl, hpc⟩

def Beyond (r : Runtime) : Prop := ∀ p, r.workerCount ≤ p → (r.ps p).runnable = []

theorem Beyond.same (h : Beyond r) (hps : ∀ q, (r'.ps q).runnable = (r.ps q).runnable)
    (hw : r'.workerCount = r.workerCount) : Beyond r' :=
  fun q hq => (hps q).trans (h q (hw ▸ hq))

theorem Beyond.change {x : P} (h : Beyond r) (hp : p < r.workerCount)
    (hps : r'.ps = update r.ps p x) (hw : r'.workerCount = r.workerCount) : Beyond r' := by
  intro q hq
  have hqp : q ≠ p := fun he => absurd hp (Nat.not_lt.mpr (he ▸ hw ▸ hq))
  rw [hps, update_of_ne hqp]
  exact h q (hw ▸ hq)

theorem Eff.beyond (he : Eff l r r') (hc : Control r) (h : Beyond r) : Beyond r' := by
  cases he with
  | localize hlt _ _ => exact h.change hlt rfl rfl
  | ownerPop hpc _ | keepLocal hpc => exact h.change (hc.lt (by simp [hpc])) rfl rfl
  | @steal _ p o items v t l hpc hv =>
    have hlt : v < r.workerCount := by
      by_contra hlt
      rw [h v (Nat.le_of_not_lt hlt)] at hv
      simp at hv
    have hfir : Beyond (r.setP v { r.ps v with runnable := l }) := h.change hlt rfl rfl
    exact hfir.same (update_congr P.runnable (by rfl)) rfl
  | release _ | fire _ _ _ | completeIo _ _ =>
    intro q hq
    rw [(wake_sameRest _ _).workerCount] at hq
    rw [(wake_sameRest _ _).ps]
    first
      | exact h q hq
      | exact (update_congr P.runnable (by rfl) q).trans (h q hq)
  | cancelTask _ _ _ _ =>
    unfold Runtime.cancelTask
    split_ifs <;> exact h
  | _ => first
    | exact h
    | exact h.same (update_congr P.runnable (by rfl)) rfl

structure Stuck (r : Runtime) : Prop where
  tasks : ∀ t < r.taskCount, (r.tasks t).state.terminal = false →
    ((r.tasks t).state = .waiting ∨ (r.tasks t).state = .sleeping) ∧
      (r.tasks t).executing = false ∧ (r.tasks t).wakePending = false ∧ ∀ pl, t ∉ r.contents pl
  timers : (∀ p, (r.ps p).timers = []) ∧ ∀ tm, (r.node tm).active = false
  io : ∀ t, (r.tasks t).waitingForIo = false

theorem deadlocked_iff : r.deadlocked = true ↔
    r.idleWorkers = r.workerCount ∧ r.globalRunnable = [] ∧ r.liveTasks ≠ 0 ∧ r.timerCount = 0 ∧
      r.ioWaiting = 0 ∧ ∀ p < r.workerCount, (r.ps p).runnable = [] := by
  simp [deadlocked, and_assoc]

theorem contents_of_deadlocked (hc : Control r) (hb : Beyond r) (hd : r.deadlocked = true)
    (pl : Place) : r.contents pl = [] := by
  obtain ⟨-, hglo, -, -, -, hdeq⟩ := deadlocked_iff.mp hd
  cases pl with
  | globalRunnable => exact hglo
  | runnable p =>
    by_cases hp : p < r.workerCount
    · exact hdeq p hp
    · exact hb p (Nat.le_of_not_lt hp)
  | worker p => exact (hc.quiet_of_deadlocked hd p).2

theorem stuck_of_deadlocked (hs : Sound r) (hcnt : Counted r) (hb : Beyond r)
    (hd : r.deadlocked = true) (hrunnable : ∀ t, (r.tasks t).state ≠ .runnable) : Stuck r := by
  obtain ⟨-, -, -, htim, hio, -⟩ := deadlocked_iff.mp hd
  have hemp := contents_of_deadlocked hs.control hb hd
  have hhea : ∀ p, (r.ps p).timers = [] := by
    intro p
    by_cases hp : p < r.workerCount
    · have hsum := hcnt.timers.total.symm.trans htim
      rw [Finset.sum_eq_zero_iff] at hsum
      exact List.length_eq_zero_iff.mp (hsum p (Finset.mem_range.mpr hp))
    · exact hcnt.timers.beyond p (Nat.le_of_not_lt hp)
  refine ⟨fun t ht hlv => ?_, ⟨hhea, fun tm => ?_⟩, fun t => ?_⟩
  · have hnn := hs.inv.nowhere t fun pl => by simp [hemp pl]
    refine ⟨?_, hnn.executing, hnn.wakePending, fun pl => by simp [hemp pl]⟩
    have hnew := hs.inv.made t ht
    have hrn := hnn.state
    have hnot := hrunnable t
    cases hst : (r.tasks t).state <;> simp [hst, TaskState.terminal] at hlv hnew hrn hnot ⊢
  · by_contra hact
    obtain ⟨p, hp⟩ := hs.timed.inHeap tm (by simpa using hact)
    simp [hhea p] at hp
  · by_cases ht : t < r.taskCount
    · exact count_eq_zero.mp (hcnt.io.symm.trans hio) t (Finset.mem_range.mpr ht)
    · rw [hs.inv.fresh t (Nat.le_of_not_lt ht)]

theorem idleBegin_report (hpc : (r.ps p).pc = .idle) (hrun : r.running = true)
    (hsp : (r.idleBegin p).running = false) :
    (r.idleBegin p).deadlocked = true ∧ (r.idleBegin p).runStatus = .invalidState ∧
      (r.idleBegin p).tasks = r.tasks ∧ (r.idleBegin p).contents = r.contents := by
  unfold idleBegin at hsp ⊢
  rw [if_neg (by simp [hrun])] at hsp ⊢
  dsimp only at hsp ⊢
  generalize hr : (if (r.ps p).idle then r else
    { r.setP p { r.ps p with idle := true } with idleWorkers := r.idleWorkers + 1 }) = r₁ at hsp ⊢
  have hsm : r₁.running = r.running ∧ r₁.tasks = r.tasks ∧ r₁.contents = r.contents := by
    subst hr
    split_ifs
    · exact ⟨rfl, rfl, rfl⟩
    · refine ⟨rfl, rfl, funext fun pl => ?_⟩
      cases pl with
      | globalRunnable => rfl
      | runnable q => exact update_congr P.runnable (by rfl) q
      | worker q => exact update_congr (fun x : P => x.pc.tasks) (by rfl) q
  have hpc₁ : (r₁.ps p).pc.tasks = [] := by
    have hpla := congrFun hsm.2.2 (.worker p)
    exact hpla.trans (by simp [contents, hpc, Pc.tasks])
  by_cases hd : r₁.deadlocked = true
  · have hrun₁ : r₁.running = true := hsm.1.trans hrun
    rw [if_pos hd, stopRun, if_pos hrun₁]
    refine ⟨?_, rfl, hsm.2.1, ?_⟩
    · rw [deadlocked_iff] at hd ⊢
      refine ⟨hd.1, hd.2.1, hd.2.2.1, hd.2.2.2.1, hd.2.2.2.2.1, fun q hq => ?_⟩
      exact (update_congr P.runnable (by rfl) q).trans (hd.2.2.2.2.2 q hq)
    · rw [contents_setPc]
      refine Eq.trans ?_ hsm.2.2
      exact update_eq_self_iff.mpr hpc₁.symm
  · rw [if_neg hd] at hsp
    have hsp : r₁.running = false := hsp
    rw [hsm.1, hrun] at hsp
    simp at hsp

theorem strict_run {n : ℕ} {as : List Action} (hnt : Initial n s)
    (hrun : Trans.run step s as = some s') (hspa : Trans.Meets step SpawnsQuietly s as) :
    Strict s'.rt := by
  have h0 : Strict s.rt := by
    rw [hnt.rt]
    exact ⟨fun _ => Or.inr (Or.inl rfl), by simp [KeptUnless]⟩
  refine (Trans.run_invariant_of_meets
    (I := fun s : System => (Sound s.rt ∧ Orderly s.rt) ∧ Strict s.rt) ?_ hrun hspa
    ⟨⟨hnt.sound, hnt.counted, hnt.owner, hnt.finished⟩, h0⟩).2
  intro s a s' hs ha h
  exact ⟨orderly_step hs h.1.1 h.1.2, strict_step hs ha h.1.1 h.1.2 h.2⟩

theorem beyond_run {n : ℕ} {as : List Action} (hnt : Initial n s)
    (hrun : Trans.run step s as = some s') : Beyond s'.rt := by
  refine (run_keeps_always (fun _ _ _ he h hb => he.beyond h.control hb) hrun hnt.sound ?_).2
  rw [hnt.rt]
  exact fun _ _ => rfl

/-- **Deadlock reports.** -/
theorem deadlock_report_sound {n : ℕ} {as : List Action} (hnt : Initial n s)
    (hrun : Trans.run step s as = some s') :
    s'.rt.timerCount = ∑ p ∈ Finset.range s'.rt.workerCount, (s'.rt.ps p).timers.length ∧
    s'.rt.ioWaiting =
      ((Finset.range s'.rt.taskCount).filter fun t => (s'.rt.tasks t).waitingForIo = true).card ∧
    s'.rt.idleWorkers ≤
      ((Finset.range s'.rt.workerCount).filter fun p => (s'.rt.ps p).idle = true).card ∧
    (Trans.Meets step SpawnsQuietly s as → ∀ p e s'', (s'.rt.ps p).pc = .idle →
      s'.rt.running = true → step s' (.worker p e) = some s'' → s''.rt.running = false →
        s''.rt.runStatus = .invalidState ∧ Stuck s''.rt) := by
  obtain ⟨hsou, hord⟩ := orderly_run hnt hrun
  refine ⟨hord.counted.timers.total, hord.counted.io, hsou.control.idleWorkers, ?_⟩
  intro hspa p e s'' hpc hrn hste hsp
  have hstr := strict_run hnt hrun hspa
  have hrun' : Trans.run step s (as ++ [Action.worker p e]) = some s'' := by
    rw [Trans.run_append, hrun]
    simp [Trans.run_cons, hste]
  obtain ⟨hsound', hord'⟩ := orderly_run hnt hrun'
  have heq : s''.rt = s'.rt.idleBegin p := by
    simp only [step] at hste
    split_ifs at hste
    obtain ⟨r', hr, rfl⟩ := map_eq_some_iff.mp hste
    simp only [workerStep, hpc, some.injEq] at hr
    exact hr.symm
  obtain ⟨hd, hsta, htas, hcon⟩ := idleBegin_report hpc hrn (heq ▸ hsp)
  rw [← heq] at hd hsta htas hcon
  have hbey := beyond_run hnt hrun'
  refine ⟨hsta, stuck_of_deadlocked hsound' hord'.counted hbey hd fun t ht => ?_⟩
  -- a runnable task was in a place before the report, and every place is empty
  rw [htas] at ht
  have hemp := contents_of_deadlocked hsound'.control hbey hd
  rw [hcon] at hemp
  rcases hstr.kept t ht with hpre | ⟨-, hnot, -⟩
  · rcases hpre with hg | ⟨q, hq | hq⟩
    · simpa [contents] using (hemp .globalRunnable ▸ hg : t ∈ [])
    · simpa using (hemp (.runnable q) ▸ hq : t ∈ [])
    · simpa using (hemp (.worker q) ▸ hq : t ∈ [])
  · simp [hrn] at hnot

theorem deadlock_report_sound_semaphore : ∃ s s' : System,
    Trans.run step { rt := { workerCount := 1 } } ([Action.owner .spawn, .owner .run] ++
      List.replicate 8 (Action.worker 0 {}) ++ [Action.call 0 (.semaphoreWait 0)] ++
      List.replicate 8 (Action.worker 0 {})) = some s ∧
    step s (.worker 0 {}) = some s' ∧ s'.rt.runStatus = .invalidState ∧ Stuck s'.rt := by
  have hvl : (Trans.run step { rt := { workerCount := 1 } } ([Action.owner .spawn, .owner .run] ++
      List.replicate 8 (Action.worker 0 {}) ++ [Action.call 0 (.semaphoreWait 0)] ++
      List.replicate 8 (Action.worker 0 {}))).map (fun s => ((s.rt.ps 0).pc, s.rt.running,
        (step s (.worker 0 {})).map fun s' => s'.rt.running)) =
      some (.idle, true, some false) := by rfl
  obtain ⟨s, hs, heq⟩ := map_eq_some_iff.mp hvl
  simp only [Prod.mk.injEq] at heq
  obtain ⟨hpc, hrun, hste⟩ := heq
  obtain ⟨s', hs', hsp⟩ := map_eq_some_iff.mp hste
  have hqui : Trans.Meets step SpawnsQuietly { rt := { workerCount := 1 } }
      ([Action.owner .spawn, .owner .run] ++ List.replicate 8 (Action.worker 0 {}) ++
        [Action.call 0 (.semaphoreWait 0)] ++ List.replicate 8 (Action.worker 0 {})) := by
    refine ⟨fun _ => rfl, fun s₁ _ => Trans.meets_of_forall (fun a ha s => ?_) s₁⟩
    apply SpawnsQuietly.of_ne
    rintro rfl
    simp at ha
  exact ⟨s, s', hs, hs', (deadlock_report_sound ⟨by decide, rfl⟩ hs).2.2.2 hqui 0 {} s' hpc hrun hs'
    hsp⟩

def droppedTaskSchedule : List Action :=
  ownerSpawnSchedule ++ [Action.owner .run] ++ List.replicate 9 (Action.worker 0 {}) ++
    List.replicate 8 (Action.worker 1 {})

/-- The task that `ownerSpawnSchedule` has dropped is runnable when worker 1 reports a deadlock in the
second run. -/
theorem dropped_task_reported : ∃ s s' : System,
    Trans.run step { rt := { workerCount := 2 } } droppedTaskSchedule = some s ∧
    (s.rt.ps 1).pc = .idle ∧ s.rt.running = true ∧ step s (.worker 1 {}) = some s' ∧
    s'.rt.running = false ∧ s'.rt.runStatus = .invalidState ∧ s'.rt.shutdownRequested = false ∧
    1 < s'.rt.taskCount ∧ (s'.rt.tasks 1).state = .runnable := by
  have hvl : (Trans.run step { rt := { workerCount := 2 } } droppedTaskSchedule).map (fun s =>
      ((s.rt.ps 1).pc, s.rt.running, (step s (.worker 1 {})).map fun s' =>
        (s'.rt.running, s'.rt.runStatus, s'.rt.shutdownRequested, s'.rt.taskCount,
          (s'.rt.tasks 1).state))) =
      some (.idle, true, some (false, .invalidState, false, 2, .runnable)) := by rfl
  obtain ⟨s, hs, heq⟩ := map_eq_some_iff.mp hvl
  simp only [Prod.mk.injEq] at heq
  obtain ⟨hpc, hrun, hste⟩ := heq
  obtain ⟨s', hs', heq'⟩ := map_eq_some_iff.mp hste
  simp only [Prod.mk.injEq] at heq'
  obtain ⟨hsp, hsta, hsd, hcnt, hstat⟩ := heq'
  exact ⟨s, s', hs, hpc, hrun, hs', hsp, hsta, hsd, by omega, hstat⟩

end Veloco.Sched
