import Veloco.Sched.Waits

/-!
# A semaphore conserves its permits
-/

namespace Veloco.Sched

open Function List Option
open Veloco.Calls

variable {p : PId} {t w : TaskId} {s s' s'' : System} {i n k : ℕ} {a : Action}

def posts (i : ℕ) (s : System) : Action → Option Unit
  | .free (.semaphorePost i') => if i' = i ∧ (s.semaphorePost i).2 = .ok then some () else none
  | _ => none

def semaphoreStep (i : ℕ) : System × ObjectLog Unit → Action → Option (System × ObjectLog Unit) :=
  objectStep (.semaphore i) (posts i)

inductive Trades (i : ℕ) (s : System) (a : Action) (s' : System) : Prop
  | kept (hm : Moves (.semaphore i) s a s' []) (hps : posts i s a = none)
      (hper : s'.permits i = s.permits i)
      (hdl : s.permits i ≠ 0 → s'.rt.waiters (.semaphore i) = s.rt.waiters (.semaphore i))
  | taken {t : TaskId} (hm : Moves (.semaphore i) s a s' [t]) (hps : posts i s a = none)
      (hsm : s.permits i ≠ 0) (hper : s'.permits i = s.permits i - 1)
      (hdl : s'.rt.waiters (.semaphore i) = [])
  | added (hm : Moves (.semaphore i) s a s' []) (hps : posts i s a = some ())
      (hrm : s.permits i ≠ Word.sizeMax) (hper : s'.permits i = s.permits i + 1)
      (hdl : s'.rt.waiters (.semaphore i) = [])
  | handed {w : TaskId} (hm : Moves (.semaphore i) s a s' [w]) (hps : posts i s a = some ())
      (hnn : s.permits i = 0) (hper : s'.permits i = s.permits i)

theorem posts_of_not_touches (h : a.touches (.semaphore i) = false) : posts i s a = none := by
  cases a with
  | free c =>
    cases c with
    | semaphorePost i' =>
      have hne : i' ≠ i := by
        rintro rfl
        exact absurd rfl (of_decide_eq_false h)
      exact if_neg fun hand => hne hand.1
    | _ => rfl
  | worker | call | owner => rfl

theorem wait_trades (hdl : s.permits i ≠ 0 → s.rt.waiters (.semaphore i) = [])
    (hpc : (s.rt.ps p).pc = .inTask t) :
    Trades i s (.call p (.semaphoreWait i)) (s.semaphoreWait i t).1 := by
  by_cases hsm : s.permits i ≠ 0
  · have hcs := waitCalls_call (q := .semaphore i) (c := .semaphoreWait i) hpc
      (by simp [Call.waitsAt])
    have hwt : s.semaphoreWait i t =
        ({ s with permits := update s.permits i (s.permits i - 1) }, some .ok) := by
      unfold System.semaphoreWait
      exact if_pos hsm
    rw [show s.call p t (.semaphoreWait i) = s.semaphoreWait i t from rfl, hwt] at hcs
    rw [hwt]
    exact .taken (.granted hcs rfl (hdl hsm)) rfl hsm (update_self _ _ _) (hdl hsm)
  · have hwt : s.semaphoreWait i t = s.park (.semaphore i) t := by
      unfold System.semaphoreWait
      exact if_neg hsm
    rw [hwt]
    exact .kept (.of_park hpc (by simp [Call.waitsAt]) hwt) rfl
      (park_sameData (.semaphore i) (.semaphore i) t s) fun hne => absurd hne hsm

theorem post_cases (s : System) (i : ℕ) :
    (s.semaphorePost i = (s, .invalidState) ∧ s.permits i = Word.sizeMax) ∨
      (s.semaphorePost i).2 = .ok := by
  unfold System.semaphorePost
  split
  · exact Or.inr rfl
  · split_ifs with hfl
    · exact Or.inl ⟨rfl, hfl⟩
    · exact Or.inr rfl

theorem post_trades (hdl : s.permits i ≠ 0 → s.rt.waiters (.semaphore i) = []) :
    Trades i s (.free (.semaphorePost i)) (s.semaphorePost i).1 := by
  have hcs : s.waitCalls (.semaphore i) (.free (.semaphorePost i)) = [] := rfl
  have hps : posts i s (.free (.semaphorePost i)) =
      if (s.semaphorePost i).2 = .ok then some () else none := by
    unfold posts
    simp
  unfold System.semaphorePost at hps ⊢
  cases hpop : s.rt.waitPop (.semaphore i) with
  | some x =>
    obtain ⟨w, r⟩ := x
    obtain ⟨rest, hw, hr⟩ := waitPop_eq_some hpop
    rw [hpop] at hps
    have hnn : s.permits i = 0 := by
      by_contra hne
      rw [hdl hne] at hw
      cases hw
    refine .handed (.popped hcs hw ?_ ?_) hps hnn rfl
    · rw [release_waiters, hr, update_self]
    · exact congrArg Wait.result (update_self w _ s.wait)
  | none =>
    rw [hpop] at hps
    dsimp only at hps ⊢
    by_cases hfl : s.permits i = Word.sizeMax
    · rw [if_pos hfl] at hps ⊢
      exact .kept (.same hcs rfl) hps rfl fun _ => rfl
    · rw [if_neg hfl] at hps ⊢
      exact .added (.same hcs rfl) hps hfl (update_self _ _ _) (waitPop_eq_none.mp hpop)

theorem trades_step (h : Inv s.rt) (hdl : s.permits i ≠ 0 → s.rt.waiters (.semaphore i) = [])
    (hst : step s a = some s') : Trades i s a s' := by
  cases ha : a.touches (.semaphore i) with
  | false =>
    have hsa := sameAt_step h (by simp) ha hst
    exact .kept (.of_sameAt ha hsa) (posts_of_not_touches ha) hsa.data fun _ => hsa.waiters
  | true =>
    obtain ⟨p, e, rfl⟩ | ⟨p, t, call, rfl, hpc, -, rfl⟩ | ⟨call, rfl, rfl⟩ | ⟨call, rfl⟩ :=
      step_cases hst
    · cases ha
    · cases call with
      | semaphoreWait i' =>
        obtain rfl : i = i' := by simpa [Action.touches, Call.touches] using ha
        exact wait_trades hdl hpc
      | _ => simp [Action.touches, Call.touches] at ha
    · cases call with
      | semaphorePost i' =>
        obtain rfl : i = i' := by simpa [Action.touches, FreeCall.touches] using ha
        exact post_trades hdl
      | _ => simp [Action.touches, FreeCall.touches] at ha
    · cases ha

structure SemaphoreOk (i k : ℕ) (x : System × ObjectLog Unit) : Prop where
  sound : Sound x.1.rt
  waits : Waits (.semaphore i) x.1 x.2
  idle : x.1.permits i ≠ 0 → x.1.rt.waiters (.semaphore i) = []
  conserve : k + x.2.acts.length = x.1.permits i + x.2.granted.length
  bounded : x.1.permits i ≤ Word.sizeMax

section Runs

variable {x y : System × ObjectLog Unit} {log log' : ObjectLog Unit} {as bs : List Action}

theorem SemaphoreOk.initial (hnt : Initial n s) (hper : s.permits i ≤ Word.sizeMax) :
    SemaphoreOk i (s.permits i) (s, {}) := by
  refine ⟨hnt.sound, .initial hnt, fun _ => ?_, rfl, hper⟩
  show s.rt.waiters _ = []
  rw [hnt.rt]

theorem SemaphoreOk.step (h : SemaphoreOk i k x) (hst : semaphoreStep i x a = some y) :
    SemaphoreOk i k y ∧ x.2.granted <+: y.2.granted := by
  obtain ⟨s', hs, rfl⟩ := map_eq_some_iff.mp hst
  have hex := h.sound.inv.queues
  have hcon := h.conserve
  have hbou := h.bounded
  have hct : ∀ o, posts i x.1 a = o →
      (x.2.next (.semaphore i) (posts i) x.1 a s').acts.length = x.2.acts.length + o.toList.length := by
    rintro o rfl
    exact length_append
  cases trades_step h.sound.inv h.idle hs with
  | kept hm hps hper hdl =>
    obtain ⟨hwai, hgra⟩ := h.waits.move (posts i) hex hm
    refine ⟨⟨sound_step hs h.sound, hwai, fun hne => ?_, ?_, ?_⟩, ⟨_, hgra.symm⟩⟩
    · rw [hper] at hne
      exact (hdl hne).trans (h.idle hne)
    · rw [hct _ hps, hgra, hper, append_nil]
      exact hcon
    · rw [hper]
      exact hbou
  | taken hm hps hsm hper hdl =>
    obtain ⟨hwai, hgra⟩ := h.waits.move (posts i) hex hm
    refine ⟨⟨sound_step hs h.sound, hwai, fun _ => hdl, ?_, ?_⟩, ⟨_, hgra.symm⟩⟩
    · rw [hct _ hps, hgra, hper, length_append]
      simp only [toList_none, length_nil, length_singleton]
      omega
    · rw [hper]
      omega
  | added hm hps hrm hper hdl =>
    obtain ⟨hwai, hgra⟩ := h.waits.move (posts i) hex hm
    refine ⟨⟨sound_step hs h.sound, hwai, fun _ => hdl, ?_, ?_⟩, ⟨_, hgra.symm⟩⟩
    · rw [hct _ hps, hgra, hper, append_nil]
      simp only [toList_some, length_singleton]
      omega
    · rw [hper]
      omega
  | handed hm hps hnn hper =>
    obtain ⟨hwai, hgra⟩ := h.waits.move (posts i) hex hm
    refine ⟨⟨sound_step hs h.sound, hwai, fun hne => ?_, ?_, ?_⟩, ⟨_, hgra.symm⟩⟩
    · rw [hper] at hne
      exact absurd hnn hne
    · rw [hct _ hps, hgra, hper, length_append]
      simp only [toList_some, length_singleton]
      omega
    · rw [hper]
      exact hbou

/-- **Conservation of the permits of a semaphore.** -/
theorem semaphore_of_run (hnt : Initial n s) (hper : s.permits i ≤ Word.sizeMax)
    (hrun : Trans.run (semaphoreStep i) (s, {}) as = some (s', log))
    (hlat : Trans.run (semaphoreStep i) (s', log) bs = some (s'', log')) :
    s.permits i + log.acts.length = s'.permits i + log.granted.length ∧
      (0 < s'.permits i → s'.rt.waiters (.semaphore i) = []) ∧
      s'.permits i ≤ Word.sizeMax ∧
      log.queued = log.handed ++ s'.rt.waiters (.semaphore i) ∧
      InOrder grants log.waits ∧ log.granted <+: log'.granted ∧
      ((s'.semaphorePost i).2 ≠ .ok →
        s'.semaphorePost i = (s', .invalidState) ∧ s'.permits i = Word.sizeMax) := by
  obtain ⟨hok, -⟩ := objectStep_run SemaphoreOk.step hrun (SemaphoreOk.initial hnt hper)
  obtain ⟨-, hgr⟩ := objectStep_run SemaphoreOk.step hlat hok
  refine ⟨hok.conserve, fun hpos => hok.idle (Nat.pos_iff_ne_zero.mp hpos), hok.bounded, hok.waits.fifo,
    hok.waits.order, hgr, fun href => ?_⟩
  exact (post_cases s' i).resolve_right href

def postSchedule : List Action :=
  [Action.owner .spawn, .owner .run] ++ List.replicate 8 (Action.worker 0 {}) ++
    [Action.call 0 (.semaphoreWait 0), .call 0 (.semaphoreWait 0), .free (.semaphorePost 0)]

theorem semaphore_of_run_post : ∃ s log,
    Trans.run (semaphoreStep 0) ({ rt := { workerCount := 1 }, permits := fun _ => 1 }, {})
      postSchedule = some (s, log) ∧
    log.granted = [0, 0] ∧ log.handed = [0] ∧ 1 + log.acts.length = s.permits 0 + 2 := by
  have hvl : (Trans.run (semaphoreStep 0)
      ({ rt := { workerCount := 1 }, permits := fun _ => 1 }, {}) postSchedule).map
      (fun x => (x.2.granted, x.2.handed)) = some ([0, 0], [0]) := by rfl
  obtain ⟨⟨s, log⟩, hs, heq⟩ := map_eq_some_iff.mp hvl
  obtain ⟨hgra, hhan⟩ : log.granted = [0, 0] ∧ log.handed = [0] := by
    simpa only [Prod.mk.injEq] using heq
  have hnt : Initial 1 { rt := { workerCount := 1 }, permits := fun _ => 1 } := ⟨by decide, rfl⟩
  have hcon := (semaphore_of_run hnt (by decide) hs (Trans.run_nil _)).1
  rw [hgra] at hcon
  exact ⟨s, log, hs, hgra, hhan, hcon⟩

end Runs

end Veloco.Sched
