import Veloco.Sched.Waits

/-!
# A task mutex excludes and hands over in order
-/

namespace Veloco.Sched

open Function List Sched.System
open Veloco.Calls

variable {p : PId} {t w : TaskId} {s s' s'' : System} {m n : ℕ} {a : Action}

def unlocks (m : ℕ) (s : System) : Action → Option TaskId
  | .call p (.mutexUnlock m') =>
    match (s.rt.ps p).pc with
    | .inTask t => if m' = m ∧ (s.mutexUnlock m t).2 = some .ok then some t else none
    | _ => none
  | _ => none

def mutexStep (m : ℕ) : System × ObjectLog TaskId → Action → Option (System × ObjectLog TaskId) :=
  objectStep (.mutex m) (unlocks m)

inductive Turns (m : ℕ) (s : System) (a : Action) (s' : System) : Prop
  | kept (hm : Moves (.mutex m) s a s' []) (hunl : unlocks m s a = none)
      (hown : s'.mutexOwner m = s.mutexOwner m)
      (hdl : s.mutexOwner m = none → s'.rt.waiters (.mutex m) = s.rt.waiters (.mutex m))
  | taken {t : TaskId} (hm : Moves (.mutex m) s a s' [t]) (hunl : unlocks m s a = none)
      (hown : s.mutexOwner m = none) (howner' : s'.mutexOwner m = some t)
  | opened {t : TaskId} (hm : Moves (.mutex m) s a s' []) (hunl : unlocks m s a = some t)
      (hown : s.mutexOwner m = some t) (howner' : s'.mutexOwner m = none)
      (hdl : s'.rt.waiters (.mutex m) = [])
  | handed {t w : TaskId} (hm : Moves (.mutex m) s a s' [w]) (hunl : unlocks m s a = some t)
      (hown : s.mutexOwner m = some t) (howner' : s'.mutexOwner m = some w)

theorem unlocks_of_not_touches (h : a.touches (.mutex m) = false) : unlocks m s a = none := by
  cases a with
  | call p c =>
    cases c with
    | mutexUnlock m' =>
      have hne : m' ≠ m := by
        rintro rfl
        exact absurd rfl (of_decide_eq_false h)
      unfold unlocks
      dsimp only
      split
      · exact if_neg fun hand => hne hand.1
      · rfl
    | _ => rfl
  | worker | free | owner => rfl

theorem lock_turns (hdl : s.mutexOwner m = none → s.rt.waiters (.mutex m) = [])
    (hpc : (s.rt.ps p).pc = .inTask t) :
    Turns m s (.call p (.mutexLock m)) (s.mutexLock m t).1 := by
  have hcs := waitCalls_call (q := .mutex m) (c := .mutexLock m) hpc (by simp [Call.waitsAt])
  cases hown : s.mutexOwner m with
  | none =>
    have hlc : s.mutexLock m t =
        ({ s with mutexOwner := update s.mutexOwner m (some t) }, some .ok) := by
      unfold mutexLock
      rw [hown]
    rw [show s.call p t (.mutexLock m) = s.mutexLock m t from rfl, hlc] at hcs
    rw [hlc]
    exact .taken (.granted hcs rfl (hdl hown)) rfl hown (update_self _ _ _)
  | some u =>
    by_cases hsl : u = t
    · have hlc : s.mutexLock m t = (s, some .invalidState) := by
        unfold mutexLock
        rw [hown]
        exact if_pos hsl
      rw [show s.call p t (.mutexLock m) = s.mutexLock m t from rfl, hlc] at hcs
      rw [hlc]
      exact .kept (.refused hcs rfl) rfl rfl fun _ => rfl
    · have hlc : s.mutexLock m t = s.park (.mutex m) t := by
        unfold mutexLock
        rw [hown]
        exact if_neg hsl
      rw [hlc]
      refine .kept (.of_park hpc (by simp [Call.waitsAt]) hlc) rfl
        (park_sameData (.mutex m) (.mutex m) t s) fun hnn => ?_
      rw [hown] at hnn
      cases hnn

theorem unlock_turns (hpc : (s.rt.ps p).pc = .inTask t) :
    Turns m s (.call p (.mutexUnlock m)) (s.mutexUnlock m t).1 := by
  have hcs : s.waitCalls (.mutex m) (.call p (.mutexUnlock m)) = [] := by
    unfold waitCalls
    dsimp only
    rw [hpc]
    rfl
  have hunl : unlocks m s (.call p (.mutexUnlock m)) =
      if (s.mutexUnlock m t).2 = some .ok then some t else none := by
    unfold unlocks
    dsimp only
    rw [hpc]
    simp
  by_cases hown : s.mutexOwner m = some t
  · unfold mutexUnlock at hunl ⊢
    rw [if_neg (not_not.mpr hown)] at hunl ⊢
    cases hpop : s.rt.waitPop (.mutex m) with
    | none =>
      rw [hpop] at hunl
      exact .opened (.same hcs rfl) hunl hown (update_self _ _ _) (waitPop_eq_none.mp hpop)
    | some x =>
      obtain ⟨w, r⟩ := x
      obtain ⟨rest, hw, hr⟩ := waitPop_eq_some hpop
      rw [hpop] at hunl
      refine .handed (.popped hcs hw ?_ ?_) hunl hown (update_self _ _ _)
      · rw [release_waiters, hr, update_self]
      · exact congrArg Wait.result (update_self w _ s.wait)
  · unfold mutexUnlock at hunl ⊢
    rw [if_pos hown] at hunl ⊢
    exact .kept (.same hcs rfl) hunl rfl fun _ => rfl

theorem turns_step (h : Inv s.rt) (hdl : s.mutexOwner m = none → s.rt.waiters (.mutex m) = [])
    (hst : step s a = some s') : Turns m s a s' := by
  cases ha : a.touches (.mutex m) with
  | false =>
    have hsm := sameAt_step h (by simp) ha hst
    exact .kept (.of_sameAt ha hsm) (unlocks_of_not_touches ha) hsm.data fun _ => hsm.waiters
  | true =>
    obtain ⟨p, e, rfl⟩ | ⟨p, t, call, rfl, hpc, -, rfl⟩ | ⟨call, rfl, rfl⟩ | ⟨call, rfl⟩ :=
      step_cases hst
    · cases ha
    · cases call with
      | mutexLock m' =>
        obtain rfl : m = m' := by simpa [Action.touches, Call.touches] using ha
        exact lock_turns hdl hpc
      | mutexUnlock m' =>
        obtain rfl : m = m' := by simpa [Action.touches, Call.touches] using ha
        exact unlock_turns hpc
      | _ => simp [Action.touches, Call.touches] at ha
    · cases call <;> simp [Action.touches, FreeCall.touches] at ha
    · cases ha

structure MutexOk (m : ℕ) (x : System × ObjectLog TaskId) : Prop where
  sound : Sound x.1.rt
  waits : Waits (.mutex m) x.1 x.2
  idle : x.1.mutexOwner m = none → x.1.rt.waiters (.mutex m) = []
  balance : ∀ t, x.2.granted.count t = x.2.acts.count t + if x.1.mutexOwner m = some t then 1 else 0

section Runs

variable {x y : System × ObjectLog TaskId} {log log' : ObjectLog TaskId} {as bs : List Action}

theorem MutexOk.initial (hnt : Initial n s) (hown : s.mutexOwner m = none) : MutexOk m (s, {}) := by
  refine ⟨hnt.sound, .initial hnt, fun _ => ?_, fun t => ?_⟩
  · show s.rt.waiters _ = []
    rw [hnt.rt]
  · show 0 = 0 + if s.mutexOwner m = some t then 1 else 0
    rw [hown]
    rfl

theorem MutexOk.step (h : MutexOk m x) (hst : mutexStep m x a = some y) :
    MutexOk m y ∧ x.2.granted <+: y.2.granted := by
  obtain ⟨s', hs, rfl⟩ := Option.map_eq_some_iff.mp hst
  have hex := h.sound.inv.queues
  have hct : ∀ o, unlocks m x.1 a = o →
      (x.2.next (.mutex m) (unlocks m) x.1 a s').acts = x.2.acts ++ o.toList := by
    rintro o rfl
    rfl
  cases turns_step h.sound.inv h.idle hs with
  | kept hm hunl hown hdl =>
    obtain ⟨hwai, hgra⟩ := h.waits.move (unlocks m) hex hm
    refine ⟨⟨sound_step hs h.sound, hwai, fun hnn => ?_, fun t => ?_⟩, ⟨_, hgra.symm⟩⟩
    · rw [hown] at hnn
      exact (hdl hnn).trans (h.idle hnn)
    · rw [hgra, hct none hunl, hown, append_nil]
      simpa using h.balance t
  | @taken u hm hunl hown howner' =>
    obtain ⟨hwai, hgra⟩ := h.waits.move (unlocks m) hex hm
    refine ⟨⟨sound_step hs h.sound, hwai, fun hnn => ?_, fun t => ?_⟩, ⟨_, hgra.symm⟩⟩
    · rw [howner'] at hnn
      cases hnn
    · have hbal := h.balance t
      rw [hown] at hbal
      rw [hgra, hct none hunl, howner', count_append, hbal]
      simp [count_singleton]
  | @opened u hm hunl hown howner' hdl =>
    obtain ⟨hwai, hgra⟩ := h.waits.move (unlocks m) hex hm
    refine ⟨⟨sound_step hs h.sound, hwai, fun _ => hdl, fun t => ?_⟩, ⟨_, hgra.symm⟩⟩
    have hbal := h.balance t
    rw [hown] at hbal
    rw [hgra, hct _ hunl, howner', append_nil, count_append, hbal]
    simp [count_singleton]
  | @handed u w hm hunl hown howner' =>
    obtain ⟨hwai, hgra⟩ := h.waits.move (unlocks m) hex hm
    refine ⟨⟨sound_step hs h.sound, hwai, fun hnn => ?_, fun t => ?_⟩, ⟨_, hgra.symm⟩⟩
    · rw [howner'] at hnn
      cases hnn
    · have hbal := h.balance t
      rw [hown] at hbal
      rw [hgra, hct _ hunl, howner', count_append, count_append, hbal]
      simp [count_singleton]

def ObjectLog.holds (log : ObjectLog TaskId) (t : TaskId) : Prop :=
  log.acts.count t < log.granted.count t

/-- **Exclusion and order of a task mutex.** -/
theorem mutex_of_run (hnt : Initial n s) (hown : s.mutexOwner m = none)
    (hrun : Trans.run (mutexStep m) (s, {}) as = some (s', log))
    (hlat : Trans.run (mutexStep m) (s', log) bs = some (s'', log')) :
    (∀ t, (log.holds t ↔ s'.mutexOwner m = some t) ∧ log.granted.count t ≤ log.acts.count t + 1) ∧
      (s'.mutexOwner m = none → s'.rt.waiters (.mutex m) = []) ∧
      log.queued = log.handed ++ s'.rt.waiters (.mutex m) ∧
      InOrder grants log.waits ∧ log.granted <+: log'.granted ∧
      (∀ t, s'.mutexOwner m ≠ some t → s'.mutexUnlock m t = (s', some .invalidState)) ∧
      (∀ t, s'.mutexOwner m = some t → s'.mutexLock m t = (s', some .invalidState)) := by
  obtain ⟨hok, -⟩ := objectStep_run MutexOk.step hrun (MutexOk.initial hnt hown)
  obtain ⟨-, hgr⟩ := objectStep_run MutexOk.step hlat hok
  refine ⟨fun t => ?_, hok.idle, hok.waits.fifo, hok.waits.order, hgr, fun t hoth => ?_,
    fun t hsl => ?_⟩
  · have hbal : log.granted.count t =
        log.acts.count t + if s'.mutexOwner m = some t then 1 else 0 := hok.balance t
    unfold ObjectLog.holds
    by_cases hsl : s'.mutexOwner m = some t
    · rw [if_pos hsl] at hbal
      exact ⟨⟨fun _ => hsl, fun _ => by omega⟩, by omega⟩
    · rw [if_neg hsl] at hbal
      exact ⟨⟨fun hlt => by omega, fun h => absurd h hsl⟩, by omega⟩
  · unfold mutexUnlock
    exact if_pos hoth
  · unfold mutexLock
    rw [hsl]
    exact if_pos rfl

def handOverSchedule : List Action :=
  [Action.owner .spawn, .owner .spawn, .owner .run] ++ List.replicate 8 (Action.worker 0 {}) ++
    [Action.call 0 (.mutexLock 0), .call 0 .yield] ++ List.replicate 10 (Action.worker 0 {}) ++
    [Action.call 0 (.mutexLock 0)] ++ List.replicate 10 (Action.worker 0 {}) ++
    [Action.call 0 (.mutexUnlock 0)]

theorem mutex_of_run_hand_over : ∃ s log,
    Trans.run (mutexStep 0) ({ rt := { workerCount := 1 } }, {}) handOverSchedule = some (s, log) ∧
    s.mutexOwner 0 = some 1 ∧ log.handed = [1] ∧ log.holds 1 ∧ ¬ log.holds 0 ∧ log.queued = [1] := by
  have hvl : (Trans.run (mutexStep 0) ({ rt := { workerCount := 1 } }, {}) handOverSchedule).map
      (fun x => (x.1.mutexOwner 0, x.2.handed, x.1.rt.waiters (.mutex 0))) =
        some (some 1, [1], []) := by rfl
  obtain ⟨⟨s, log⟩, hs, heq⟩ := Option.map_eq_some_iff.mp hvl
  obtain ⟨hown, hhan, hws⟩ : s.mutexOwner 0 = some 1 ∧ log.handed = [1] ∧
      s.rt.waiters (.mutex 0) = [] := by
    simpa only [Prod.mk.injEq] using heq
  have hnt : Initial 1 { rt := { workerCount := 1 } } := ⟨by decide, rfl⟩
  obtain ⟨hhol, -, hque, -⟩ := mutex_of_run hnt rfl hs (Trans.run_nil _)
  refine ⟨s, log, hs, hown, hhan, (hhol 1).1.mpr hown, fun h => ?_, ?_⟩
  · have hzr := (hhol 0).1.mp h
    rw [hown] at hzr
    cases hzr
  · rw [hque, hhan, hws]
    rfl

end Runs

end Veloco.Sched
