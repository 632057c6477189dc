import Veloco.Sched.Counters
import Veloco.Sched.Placed

/-!
# When `vl_runtime_run` returns
-/

namespace Veloco.Sched

open Function Option Sched.Runtime
open Veloco.Total

variable {r r' : Runtime} {p : PId} {t : TaskId} {s s' : System} {l : Label}

variable {x : P} {pc : Pc} {n : ℕ} {as : List Action} {e : Env}

inductive Turn (l : Label) (r r' : Runtime) : Prop
  | stay (hpc : ∀ q, (r'.ps q).pc = (r.ps q).pc)
  | inner {p : PId} (hpc : ∀ q, q ≠ p → (r'.ps q).pc = (r.ps q).pc)
      (hfr : (r.ps p).pc.outside = false) (hto : (r'.ps p).pc.outside = false)
  | outer {p : PId} (hpc : ∀ q, q ≠ p → (r'.ps q).pc = (r.ps q).pc) (hto : Outer r p (r'.ps p).pc)
  | runBegin (hpc : ∀ q, q ≠ 0 → (r'.ps q).pc = (r.ps q).pc) (hfr : (r.ps 0).pc = .off)
      (hto : (r'.ps 0).pc = .top) (hrun : r'.running = true)
  | runReturn {p : PId} (hl : l = .runReturn) (hpc : ∀ q, q ≠ p → (r'.ps q).pc = (r.ps q).pc)
      (hfr : (r.ps p).pc = .runEnd) (hto : (r'.ps p).pc = .off)
  | shutdownBegin (hpc : ∀ q, q ≠ 0 → (r'.ps q).pc = (r.ps q).pc) (hfr : (r.ps 0).pc = .off)
      (hto : (r'.ps 0).pc = .stopping)

theorem pc_of_update (r r' : Runtime) (hps : r'.ps = update r.ps p x) :
    (r'.ps p).pc = x.pc ∧ ∀ q, q ≠ p → (r'.ps q).pc = (r.ps q).pc := by
  rw [hps]
  exact ⟨by rw [update_self], fun q hq => by rw [update_of_ne hq]⟩

theorem Turn.of_inner {a : Pc} (hpc : (r.ps p).pc = a)
    (hps : r'.ps = update r.ps p x) (ha : a.outside = false)
    (hx : x.pc.outside = false) : Turn l r r' := by
  obtain ⟨hsl, hsm⟩ := pc_of_update r r' hps
  exact .inner hsm (by rw [hpc, ha]) (by rw [hsl, hx])

theorem Pc.outside_of_taken (h : pc.taken = true) : pc.outside = false := by
  cases pc <;> simp [Pc.taken, Pc.outside] at h ⊢

theorem Eff.turn (he : Eff l r r') : Turn l r r' := by
  cases he with
  | @goto _ p b hg =>
    by_cases hout : (r.ps p).pc.outside = true ∨ b.outside = true
    · obtain ⟨hsl, hsm⟩ := pc_of_update r (r.setPc p b) rfl
      refine .outer hsm ?_
      rw [hsl]
      exact hg.outer hout
    · rw [not_or, Bool.not_eq_true, Bool.not_eq_true] at hout
      exact .of_inner rfl rfl hout.1 hout.2
  | regrip hfr hto _ =>
    exact .of_inner rfl rfl (Pc.outside_of_taken hfr) (Pc.outside_of_taken hto)
  | @steal _ p o items v t l hpc hv =>
    refine .inner (p := p) (fun q hq => ?_) (by rw [hpc]; rfl) ?_
    · rw [setPc_ps, update_of_ne hq]
      exact setRunnable_pc r v q l
    · rw [setPc_ps, update_self]
      rfl
  | localize _ _ _ => exact .stay fun q => setRunnable_pc r _ q _
  | arm _ _ _ _ _ | fireNone _ _ _ => exact .stay fun q => putHeap_pc _ _ q _
  | fire _ _ _ =>
    refine .stay fun q => ?_
    rw [(wake_sameRest _ _).ps]
    exact putHeap_pc _ _ q _
  | release _ | completeIo _ _ =>
    refine .stay fun q => ?_
    rw [(wake_sameRest _ _).ps]
    rfl
  | cancelTask _ _ _ _ =>
    refine .stay fun q => ?_
    unfold Runtime.cancelTask
    split_ifs <;> rfl
  | fiberError hpc _ => rcases hpc with hpc | hpc <;> exact .of_inner hpc rfl rfl rfl
  | runBegin hpc _ =>
    obtain ⟨hsl, hsm⟩ := pc_of_update r (setPc { r with
      runStatus := .ok, idleWorkers := 0, running := true } 0 .top) rfl
    exact .runBegin hsm hpc hsl rfl
  | runReturn hpc =>
    obtain ⟨hsl, hsm⟩ := pc_of_update r (r.setPc _ .off) rfl
    exact .runReturn rfl hsm hpc hsl
  | shutdownBegin hpc =>
    obtain ⟨hsl, hsm⟩ := pc_of_update r r.shutdownBegin rfl
    exact .shutdownBegin hsm hpc hsl
  | ownerPop hpc _ | unqueue hpc | pull hpc _ _ | keepLocal hpc | keepGlobal hpc | drop hpc _
  | cancelHeld hpc _ _ | start hpc _ _ | created hpc | create hpc | resume hpc _ | leave hpc _
  | fiberYield hpc _ | finish hpc _ | endFail hpc _ | endDone hpc _ _ | endWoken hpc _
  | endYield hpc _ | endParked hpc _ _ | idleEnter hpc _ | idleAgain hpc _ | idleSkip hpc _
  | idleLeave hpc _ => exact .of_inner hpc rfl rfl rfl
  | _ => exact .stay fun _ => rfl

theorem Eff.running (he : Eff l r r') (h : r'.running = true) :
    r.running = true ∨ (r.ps 0).pc = .off ∧ (r'.ps 0).pc = .top := by
  cases he with
  | runBegin hpc _ => exact Or.inr ⟨hpc, by simp [Runtime.setPc]⟩
  | release _ | fire _ _ _ | completeIo _ _ =>
    rw [(Runtime.wake_sameRest _ _).running] at h
    exact Or.inl h
  | cancelTask _ _ _ _ =>
    unfold Runtime.cancelTask at h
    split_ifs at h <;> exact Or.inl h
  | stop _ => simp at h
  | requestShutdown => simp [Runtime.requestShutdown] at h
  | shutdownBegin _ => simp [Runtime.shutdownBegin] at h
  | _ => exact Or.inl h

theorem Eff.activeWorkers (he : Eff l r r') :
    r'.activeWorkers ≤ r.activeWorkers ∨ r.running = true := by
  cases he with
  | start _ _ hrun => exact Or.inr hrun
  | release _ | fire _ _ _ | completeIo _ _ =>
    exact Or.inl (Nat.le_of_eq (wake_sameRest _ _).activeWorkers)
  | cancelTask _ _ _ _ =>
    unfold Runtime.cancelTask
    split_ifs <;> exact Or.inl (Nat.le_refl _)
  | endFail _ _ | endDone _ _ _ | endWoken _ _ | endYield _ _ | endParked _ _ _ =>
    exact Or.inl (Nat.sub_le _ _)
  | _ => exact Or.inl (Nat.le_refl _)

/-! ## The end of `vl_runtime_run` -/

structure Owner (r : Runtime) : Prop where
  only : ∀ p, (r.ps p).pc = .runWait ∨ (r.ps p).pc = .runEnd → p = 0
  ends : (r.ps 0).pc = .runEnd → r.activeWorkers = 0

theorem Owner.turn (h : Owner r) (hpc : ∀ q, q ≠ p → (r'.ps q).pc = (r.ps q).pc)
    (hto : (r'.ps p).pc ≠ .runWait ∧ (r'.ps p).pc ≠ .runEnd)
    (ha : (r.ps 0).pc = .runEnd → r'.activeWorkers ≤ r.activeWorkers) : Owner r' := by
  refine ⟨fun q hq => ?_, fun hq => ?_⟩
  · by_cases hqp : q = p
    · rw [hqp] at hq
      exact absurd hq (not_or.mpr hto)
    · rw [hpc q hqp] at hq
      exact h.only q hq
  · by_cases hp : 0 = p
    · rw [hp] at hq
      exact absurd hq hto.2
    · rw [hpc 0 hp] at hq
      have hzr := h.ends hq
      have hle := ha hq
      omega

theorem Pc.not_end_of_inside (h : pc.outside = false) : pc ≠ .runWait ∧ pc ≠ .runEnd := by
  cases pc <;> simp [Pc.outside] at h ⊢

theorem Eff.owner (he : Eff l r r') (hc : Control r) (h : Owner r) : Owner r' := by
  have hact : (r.ps 0).pc = .runEnd → r'.activeWorkers ≤ r.activeWorkers := by
    intro hpc
    refine he.activeWorkers.resolve_right ?_
    rw [hc.outside (by rw [hpc]; rfl)]
    exact Bool.false_ne_true
  cases he.turn with
  | stay hpc =>
    refine ⟨fun q hq => h.only q (hpc q ▸ hq), fun hq => ?_⟩
    rw [hpc] at hq
    have hzr := h.ends hq
    have hle := hact hq
    omega
  | inner hpc _ hto => exact h.turn hpc (Pc.not_end_of_inside hto) hact
  | runBegin hpc _ hto _ => exact h.turn hpc (by simp [hto]) hact
  | runReturn _ hpc _ hto => exact h.turn hpc (by simp [hto]) hact
  | shutdownBegin hpc _ hto => exact h.turn hpc (by simp [hto]) hact
  | @outer p hpc hto =>
    generalize hb : (r'.ps p).pc = b at hto
    cases hto with
    | enter _ _ | home _ _ | exit _ _ => exact h.turn hpc (by simp [hb]) hact
    | wait hfr hp =>
      subst hp
      refine ⟨fun q hq => ?_, fun hq => by simp [hb] at hq⟩
      by_contra hne
      rw [hpc q hne] at hq
      exact hne (h.only q hq)
    | waited hfr ha =>
      obtain rfl := h.only p (Or.inl hfr)
      refine ⟨fun q hq => ?_, fun _ => ?_⟩
      · by_contra hne
        rw [hpc q hne] at hq
        exact hne (h.only q hq)
      · have hrun := hc.outside (by rw [hfr]; rfl)
        have hle := he.activeWorkers.resolve_right (by rw [hrun]; exact Bool.false_ne_true)
        omega

theorem Owner.not_executing (h : Owner r) (hi : Inv r) (hc : Control r) (ha : ActiveCounted r)
    (hpc : (r.ps p).pc = .runEnd) (t : TaskId) : (r.tasks t).executing = false := by
  obtain rfl := h.only p (Or.inr hpc)
  have hnn : ∀ q ∈ Finset.range r.workerCount, (r.ps q).pc.executing = false :=
    count_eq_zero.mp (ha.symm.trans (h.ends hpc))
  by_contra hex
  obtain ⟨q, hq, -⟩ := hi.executing (t := t) (by simpa using hex)
  have hlt : q < r.workerCount := by
    apply hc.lt
    intro hoff
    simp [hoff, Pc.executes] at hq
  have hno := hnn q (Finset.mem_range.mpr hlt)
  cases hqpc : (r.ps q).pc <;> simp [hqpc, Pc.executes, Pc.executing] at hq hno

theorem Initial.owner (h : Initial n s) : Owner s.rt := by
  rw [h.rt]
  exact ⟨by simp, by simp⟩

def Pc.inRun : Pc → Bool
  | .off | .stopping | .exited => false
  | _ => true

theorem Pc.inRun_of_inside (h : pc.outside = false) : pc.inRun = true := by
  cases pc <;> simp [Pc.outside, Pc.inRun] at h ⊢

theorem Eff.inRun (he : Eff l r r') (h : (r'.ps 0).pc.inRun = true) :
    (r.ps 0).pc.inRun = true ∨ r'.running = true := by
  have hoth : ∀ {p : PId}, (∀ q, q ≠ p → (r'.ps q).pc = (r.ps q).pc) → 0 ≠ p →
      (r.ps 0).pc.inRun = true := fun hpc hp => hpc 0 hp ▸ h
  cases he.turn with
  | stay hpc => exact Or.inl (hpc 0 ▸ h)
  | @inner p hpc hfr _ =>
    left
    by_cases hp : 0 = p
    · rw [hp]
      exact Pc.inRun_of_inside hfr
    · exact hoth hpc hp
  | runBegin _ _ _ hrun => exact Or.inr hrun
  | @runReturn p _ hpc _ hto =>
    left
    by_cases hp : 0 = p
    · rw [hp, hto] at h
      simp [Pc.inRun] at h
    · exact hoth hpc hp
  | shutdownBegin _ _ hto =>
    rw [hto] at h
    simp [Pc.inRun] at h
  | @outer p hpc hto =>
    left
    by_cases hp : 0 = p
    · subst hp
      generalize hb : (r'.ps 0).pc = b at hto
      cases hto with
      | enter _ hp | home _ hp => exact absurd rfl hp
      | wait hfr _ => rw [hfr]; rfl
      | waited hfr _ => rw [hfr]; rfl
      | exit _ _ =>
        rw [hb] at h
        simp [Pc.inRun] at h
    · exact hoth hpc hp

def Finished (r : Runtime) : Prop :=
  r.running = false → (r.ps 0).pc.inRun = true → r.shutdownRequested = false → r.runStatus = .ok →
    r.liveTasks = 0

theorem Finished.same (h : Finished r)
    (hin : (r'.ps 0).pc.inRun = true → (r.ps 0).pc.inRun = true ∨ r'.running = true)
    (hr : r'.running = r.running) (hsd : r'.shutdownRequested = r.shutdownRequested)
    (hst : r'.runStatus = r.runStatus) (hl : r.liveTasks = 0 → r'.liveTasks = 0) : Finished r' := by
  intro h1 h2 h3 h4
  have hpc : (r.ps 0).pc.inRun = true := by
    refine (hin h2).resolve_right ?_
    rw [h1]
    exact Bool.false_ne_true
  exact hl (h (hr ▸ h1) hpc (hsd ▸ h3) (hst ▸ h4))

theorem Finished.wake (h : Finished r) (w : TaskId) : Finished (r.wake w) := by
  have hw := r.wake_sameRest w
  refine h.same (fun hin => Or.inl ?_) hw.running hw.shutdownRequested hw.runStatus
    fun hl => hw.liveTasks.trans hl
  rwa [hw.ps] at hin

theorem Eff.finished (he : Eff l r r') (hown : l = .ownerSpawn → (r.ps 0).pc = .off) (hi : Inv r)
    (hl : Live r) (h : Finished r) : Finished r' := by
  have hin := he.inRun
  have hsub : r.liveTasks = 0 → r.liveTasks - 1 = 0 := fun h0 => by rw [h0]
  cases he with
  | @stop _ status hsp =>
    intro _ _ _ hst
    have hst : status = .ok := hst
    rcases hsp with ⟨hnn, -⟩ | ⟨-, hbad⟩
    · exact hnn
    · simp [hst] at hbad
  | requestShutdown => exact fun _ _ hsd _ => by simp [Runtime.requestShutdown] at hsd
  | runBegin _ _ => exact fun hr => by simp [Runtime.setPc, Runtime.setP] at hr
  | shutdownBegin _ => exact fun _ hpc => by simp [Runtime.shutdownBegin, Runtime.setPc, Pc.inRun] at hpc
  | spawn _ hsrc =>
    intro hrun hpc hsd hst
    exfalso
    rcases hsrc with hl | ⟨p, t, hp⟩
    · have hpc : (r.ps 0).pc.inRun = true := hpc
      rw [hown hl] at hpc
      simp [Pc.inRun] at hpc
    · -- the task that spawns is live, so the run has not ended
      have hlv := hi.live_of_hands (p := p) (t := t) (by simp [hp, Pc.tasks])
        (by simp [hp, Pc.searching])
      exact hl.pos_of_mem hlv (h hrun hpc hsd hst)
  | release _ | fire _ _ _ | completeIo _ _ =>
    refine Finished.wake ?_ _
    exact h.same (fun hpc => (hin (by rw [(wake_sameRest _ _).ps]; exact hpc)).imp_right
      fun hr => (wake_sameRest _ _).running.symm.trans hr) rfl rfl rfl id
  | cancelTask _ hex hlv _ =>
    unfold Runtime.cancelTask at hin ⊢
    rw [if_neg (by simp [hlv, hex])] at hin ⊢
    exact h.same hin rfl rfl rfl hsub
  | cancelHeld _ _ _ | endFail _ _ | endDone _ _ _ => exact h.same hin rfl rfl rfl hsub
  | _ => exact h.same hin rfl rfl rfl id

theorem Initial.finished (h : Initial n s) : Finished s.rt := by
  rw [h.rt]
  exact fun _ _ _ _ => rfl

structure Orderly (r : Runtime) : Prop where
  counted : Counted r
  owner : Owner r
  finished : Finished r

theorem orderly_step {a : Action} (hs : step s a = some s') (h : Sound s.rt) (ho : Orderly s.rt) :
    Sound s'.rt ∧ Orderly s'.rt := by
  refine step_keeps (A := fun r l => l = .ownerSpawn → (r.ps 0).pc = .off) (by simp) ?_ hs ?_ h ho
  · intro l r r' hown he h ho
    exact ⟨he.counted h ho.counted, he.owner h.control ho.owner,
      he.finished hown h.inv h.live ho.finished⟩
  · rintro l hl rfl
    cases hl.emission with
    | ownerSpawn =>
      by_contra hoff
      simp [step, hoff] at hs

theorem orderly_run (hnt : Initial n s)
    (hrun : Trans.run step s as = some s') : Sound s'.rt ∧ Orderly s'.rt :=
  Trans.run_invariant (I := fun s : System => Sound s.rt ∧ Orderly s.rt)
    (fun _ _ _ hs h => orderly_step hs h.1 h.2) hrun
    ⟨hnt.sound, hnt.counted, hnt.owner, hnt.finished⟩

theorem step_runEnd (hpc : (s.rt.ps p).pc = .runEnd) (hs : step s (.worker p e) = some s') :
    s'.rt = (if s.rt.shutdownRequested then s.rt.cancelAll else s.rt).setPc p .off := by
  simp only [step] at hs
  split_ifs at hs
  obtain ⟨r', hr, rfl⟩ := map_eq_some_iff.mp hs
  simp only [workerStep, hpc, some.injEq] at hr
  exact hr.symm

theorem Live.all_terminal (h : Live r) (hnn : r.liveTasks = 0) (ht : t < r.taskCount) :
    (r.tasks t).state.terminal = true := by
  by_contra hlv
  exact h.pos_of_mem (mem_live.mpr ⟨ht, by simpa using hlv⟩) hnn

theorem terminal_of_runEnd (h : Sound s.rt) (ho : Orderly s.rt)
    (hpc : (s.rt.ps p).pc = .runEnd) (hs : step s (.worker p e) = some s')
    (hsd : s.rt.shutdownRequested = true) (ht : t < s'.rt.taskCount) :
    (s'.rt.tasks t).state.terminal = true := by
  have heq := step_runEnd hpc hs
  rw [if_pos hsd] at heq
  rw [heq] at ht ⊢
  have hcnt : s.rt.cancelAll.taskCount = s.rt.taskCount :=
    (effs_cancelAll (A := fun _ _ => True) (fun _ => trivial) (Or.inl hsd)).2.2.1
  have ht : t < s.rt.taskCount := hcnt ▸ ht
  show (s.rt.cancelAll.tasks t).state.terminal = true
  by_cases hlv : (s.rt.tasks t).state.terminal = true
  · rw [cancelAll, foldl_cancelTask_terminal _ _ hlv, hlv]
  · have hex := ho.owner.not_executing h.inv h.control ho.counted.active hpc t
    rw [cancelAll_cancels ht hex (by simpa using hlv)]
    rfl

def Runtime.runResult (r : Runtime) : Status := if r.shutdownRequested then .ok else r.runStatus

/-- **Accounting of live tasks.** -/
theorem live_accounting {n : ℕ} {as : List Action} (hnt : Initial n s)
    (hrun : Trans.run step s as = some s') :
    s'.rt.liveTasks = s'.rt.live.card ∧
    (∀ t < s'.rt.taskCount, (s'.rt.tasks t).state.terminal = false → s'.rt.liveTasks ≠ 0) ∧
    s'.rt.spawned = s'.rt.completed + s'.rt.cancelled + s'.rt.liveTasks ∧
    ((s'.rt.ps 0).pc = .off → s'.rt.runBegin = none →
      ∀ t < s'.rt.taskCount, (s'.rt.tasks t).state.terminal = true) ∧
    ∀ p e s'', (s'.rt.ps p).pc = .runEnd → step s' (.worker p e) = some s'' →
      (s'.rt.shutdownRequested = false → s'.rt.runResult = .ok →
        ∀ t < s''.rt.taskCount, (s''.rt.tasks t).state.terminal = true) ∧
      (s'.rt.shutdownRequested = true →
        ∀ t < s''.rt.taskCount, (s''.rt.tasks t).state.terminal = true) := by
  obtain ⟨hsou, hord⟩ := orderly_run hnt hrun
  refine ⟨hsou.live, fun t ht hlv => ?_, hord.counted.accounts, fun hoff hnn t ht => ?_,
    fun p e s'' hpc hste => ⟨fun hsd hok t ht => ?_, fun hsd t ht => ?_⟩⟩
  · exact hsou.live.pos_of_mem (mem_live.mpr ⟨ht, hlv⟩)
  · have hrn := hsou.control.outside (by rw [hoff]; rfl)
    have hzr : s'.rt.liveTasks = 0 := by
      by_contra hpos
      simp [runBegin, hrn, hpos] at hnn
    exact hsou.live.all_terminal hzr ht
  · obtain rfl := hord.owner.only p (Or.inr hpc)
    have hok : s'.rt.runStatus = .ok := by simpa [runResult, hsd] using hok
    have hzr : s'.rt.liveTasks = 0 :=
      hord.finished (hsou.control.outside (by rw [hpc]; rfl)) (by rw [hpc]; rfl) hsd hok
    have heq := step_runEnd hpc hste
    rw [hsd] at heq
    rw [heq] at ht ⊢
    exact hsou.live.all_terminal hzr ht
  · exact terminal_of_runEnd hsou hord hpc hste hsd ht

theorem live_accounting_one_task : ∃ s s' : System,
    Trans.run step { rt := { workerCount := 1 } } ([Action.owner .spawn, .owner .run] ++
      List.replicate 8 (Action.worker 0 {}) ++ [Action.call 0 .finish] ++ List.replicate 3 (Action.worker 0 {})) =
        some s ∧
    s.rt.runResult = .ok ∧ step s (.worker 0 {}) = some s' ∧
    (s'.rt.tasks 0).state.terminal = true := by
  have hvl : (Trans.run step { rt := { workerCount := 1 } } ([Action.owner .spawn, .owner .run] ++
      List.replicate 8 (Action.worker 0 {}) ++ [Action.call 0 .finish] ++
      List.replicate 3 (Action.worker 0 {}))).map (fun s => ((s.rt.ps 0).pc, s.rt.shutdownRequested,
        s.rt.runResult, (step s (.worker 0 {})).map fun s' => s'.rt.taskCount)) =
      some (.runEnd, false, .ok, some 1) := by rfl
  obtain ⟨s, hs, heq⟩ := map_eq_some_iff.mp hvl
  simp only [Prod.mk.injEq] at heq
  obtain ⟨hpc, hsd, hok, hste⟩ := heq
  obtain ⟨s', hs', hcnt⟩ := map_eq_some_iff.mp hste
  refine ⟨s, s', hs, hok, hs', ?_⟩
  exact ((live_accounting ⟨by decide, rfl⟩ hs).2.2.2.2 0 {} s' hpc hs').1 hsd hok 0 (by omega)

end Veloco.Sched
