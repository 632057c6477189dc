import Veloco.Sched.Reach

/-!
# No lost wakeup
-/

namespace Veloco.Sched

open Function Option Sched.Runtime

variable {r r' : Runtime} {p : PId} {t : TaskId} {s s' : System}

variable {q : WaitQueue} {c n : ℕ} {k : Task} {a : Action}

theorem Inv.linked_or_pending (h : Inv r) (hs : (r.tasks t).state = .waiting)
    (hq : (r.tasks t).In (.wait q)) :
    ((r.tasks t).wakePending = false ∧ (r.waiters q).count t = 1 ∧ ∀ q', q' ≠ q → t ∉ r.waiters q') ∨
    ((r.tasks t).wakePending = true ∧ (r.tasks t).executing = true ∧ ∀ q', t ∉ r.waiters q') := by
  have hw := h.waits t
  cases hp : (r.tasks t).wakePending with
  | true =>
    refine Or.inr ⟨rfl, ?_, (hw.unlinked_of_pending hp).1⟩
    by_contra hex
    simp [h.not_pending (by simpa using hex)] at hp
  | false =>
    left
    have hasl : (r.tasks t).Asleep (.wait q) := Or.inr ⟨hs, hp, hq⟩
    obtain ⟨hln, -, hio⟩ := hw.only hasl (by simp [hs])
    obtain ⟨q', hq'⟩ : ∃ q', t ∈ r.waiters q' :=
      (hw.waiting hs hp).resolve_right fun h' => by simpa using hio h'
    obtain rfl : q = q' := by simpa using hln q' hq'
    refine ⟨rfl, List.count_eq_one_of_mem (h.queues.nodup q) hq', fun q'' hne hq'' => ?_⟩
    exact hne (h.queues.unique hq'' hq')

theorem Inv.waitPop_wake {r₁ : Runtime} (h : Inv r)
    (hpop : r.waitPop q = some (t, r₁)) (hc : (r.tasks t).state ≠ .cancelled) :
    ((r.tasks t).executing = true ∧ r₁.wake t = r₁.setTask t { r.tasks t with
      causes := (r.tasks t).causes + 1, wakePending := true }) ∨
    ((r.tasks t).executing = false ∧ r₁.wake t = (r₁.setTask t { r.tasks t with
      causes := (r.tasks t).causes + 1
      state := .runnable
      wakes := (r.tasks t).wakes + 1
      queued := true
      enqueues := (r.tasks t).enqueues + 1 }).pushGlobal t) := by
  unfold waitPop at hpop
  split at hpop
  · simp at hpop
  · next w l hq =>
    obtain ⟨rfl, rfl⟩ : w = t ∧ _ = r₁ := by simpa using hpop
    have hln : w ∈ r.waiters q := by simp [hq]
    obtain ⟨hs, -, -⟩ := ((h.waits w).linked q hln).resolve_left hc
    have hs : (r.tasks w).state = .waiting := hs
    by_cases hex : (r.tasks w).executing = true
    · refine Or.inl ⟨hex, ?_⟩
      rw [wake_of_executing (Or.inl (by simp [setWaiters, hs]))
        (by simp [setWaiters, hex])]
      simp [setWaiters, setTask]
    · have hex : (r.tasks w).executing = false := by simpa using hex
      refine Or.inr ⟨hex, ?_⟩
      have hque := h.unqueued_of_waiting hex (Or.inl hs)
      rw [wake_of_parked (Or.inl (by simp [setWaiters, hs]))
        (by simp [setWaiters, hex]) (by simp [setWaiters, hque])]
      simp [setWaiters, setTask]

def Runtime.Pending (r : Runtime) (t : TaskId) (causes wakes enqueues : ℕ) : Prop :=
  (r.tasks t).wakePending = true ∧ (r.tasks t).causes = causes ∧ (r.tasks t).wakes = wakes ∧
    (r.tasks t).enqueues = enqueues

theorem pending_of_update {w : ℕ} {u : TaskId} (h : r.Pending t c w n)
    (ht : r'.tasks = update r.tasks u k)
    (hk : u = t → k.wakePending = (r.tasks u).wakePending ∧ k.causes = (r.tasks u).causes ∧
      k.wakes = (r.tasks u).wakes ∧ k.enqueues = (r.tasks u).enqueues) : r'.Pending t c w n := by
  unfold Runtime.Pending
  rw [ht]
  by_cases hu : t = u
  · obtain ⟨h1, h2, h3, h4⟩ := hk hu.symm
    rw [hu, update_self, h1, h2, h3, h4, ← hu]
    exact h
  · rw [update_of_ne hu]
    exact h

theorem pending_of_ne_wake {m : ℕ} {w : TaskId} (hne : t ≠ w) (h : r.Pending t c n m)
    (ht : r'.tasks = update r.tasks w k) : (r'.wake w).Pending t c n m := by
  unfold Runtime.Pending
  rw [wake_tasks_ne r' hne, ht, update_of_ne hne]
  exact h

theorem Eff.pending {l : Label} {w : ℕ} (he : Eff l r r') (hl : l ≠ .woken t) (hi : Inv r)
    (h : r.Pending t c w n) : r'.Pending t c w n := by
  have hst := (hi.waits t).pending h.1
  obtain ⟨hln, htm, hio⟩ := (hi.waits t).unlinked_of_pending h.1
  cases he with
  | endWoken _ _ => exact pending_of_update h rfl fun hu => absurd (congrArg Label.woken hu) hl
  | endYield _ hs =>
    refine pending_of_update h rfl fun hu => ?_
    rw [hu] at hs
    simp [hs] at hst
  | spawn _ _ =>
    refine pending_of_update h rfl fun hu => ?_
    have hs := hi.fresh _ (Nat.le_refl r.taskCount)
    rw [hu] at hs
    simp [hs] at hst
  | @release _ q w _ _ hq =>
    have hne : t ≠ w := fun hu => hln q (by simp [hq, hu])
    exact pending_of_ne_wake hne h rfl
  | @fire _ _ _ tm w _ _ _ hw =>
    have hne : t ≠ w := fun hu => htm tm (hu ▸ hw)
    exact pending_of_ne_wake hne h rfl
  | @completeIo _ u _ _ hu =>
    have hne : t ≠ u := by
      rintro rfl
      simp [hio] at hu
    exact pending_of_ne_wake hne h rfl
  | cancelTask _ _ _ _ =>
    unfold Runtime.cancelTask
    split_ifs
    · exact h
    · exact pending_of_update h rfl fun _ => ⟨rfl, rfl, rfl, rfl⟩
  | _ => first
    | exact h
    | exact pending_of_update h rfl fun _ => ⟨rfl, rfl, rfl, rfl⟩

theorem stopIfDone_frame (r : Runtime) :
    r.stopIfDone.tasks = r.tasks ∧ r.stopIfDone.globalRunnable = r.globalRunnable := by
  unfold stopIfDone stopRun
  split_ifs <;> exact ⟨rfl, rfl⟩

theorem Inv.executeEnd_woken {status : Status} (h : Inv r)
    (hpc : (r.ps p).pc = .returned t status) (hw : (r.tasks t).wakePending = true) :
    (r.executeEnd p t status).tasks t = { r.tasks t with
      executing := false
      wakePending := false
      state := .runnable
      wakes := (r.tasks t).wakes + 1
      queued := true
      enqueues := (r.tasks t).enqueues + 1 } ∧
    (r.executeEnd p t status).globalRunnable = r.globalRunnable ++ [t] := by
  obtain ⟨hact, ⟨-, hno⟩ | ⟨rfl, ⟨f, hf, hss⟩, -⟩⟩ := h.returned hpc
  · simp [hw] at hno
  have hts := returnedTask_tasks r t
  have hdn : (r.returnedTask t).fiberDone t = false := by
    rw [returnedTask_fiberDone]
    simp [fiberDone, hf, hss]
  rw [executeEnd_eq, if_neg (by simp), if_neg (by rw [hdn]; simp), setPc_tasks,
    setPc_globalRunnable, (stopIfDone_frame _).1, (stopIfDone_frame _).2,
    settleReturned_woken (by rw [hts]; exact hw)
      (by rw [hts]; exact (h.waits t).pending hw) (by rw [hts]; exact hact.queued)
      (by rw [hts]; simp [hf]), hts]
  simp [returnedTask, edit]

def TakesReturn (s : System) (t : TaskId) (a : Action) : Prop :=
  ∃ p e status, a = .worker p e ∧ (s.rt.ps p).pc = .returned t status

theorem step_pending {w : ℕ} (h : Sound s.rt) (hs : step s a = some s')
    (ha : ¬ TakesReturn s t a) (hp : s.rt.Pending t c w n) : s'.rt.Pending t c w n := by
  refine (step_keeps (A := fun _ l => l ≠ .woken t) (fun _ => by simp)
    (fun l r r' hl he h' => he.pending hl h'.inv) hs ?_ h hp).2
  rintro l hl rfl
  cases hl.emission with
  | woken hpc => exact ha ⟨_, _, _, rfl, hpc⟩

theorem step_takes_return (h : Sound s.rt) (hs : step s a = some s')
    (ha : TakesReturn s t a) (hw : (s.rt.tasks t).wakePending = true) :
    (s'.rt.tasks t).state = .runnable ∧ (s'.rt.tasks t).wakePending = false ∧
    (s'.rt.tasks t).causes = (s.rt.tasks t).causes ∧
    (s'.rt.tasks t).wakes = (s.rt.tasks t).wakes + 1 ∧
    (s'.rt.tasks t).enqueues = (s.rt.tasks t).enqueues + 1 ∧
    s'.rt.globalRunnable = s.rt.globalRunnable ++ [t] := by
  obtain ⟨p, e, status, rfl, hpc⟩ := ha
  simp only [step] at hs
  split_ifs at hs
  obtain ⟨r', hr, rfl⟩ := map_eq_some_iff.mp hs
  unfold workerStep at hr
  simp only [hpc, some.injEq] at hr
  obtain ⟨h1, h2⟩ := h.inv.executeEnd_woken hpc hw
  subst hr
  refine ⟨?_, ?_, ?_, ?_, ?_, h2⟩ <;> simp only [h1]

/-- **No lost wakeup.** -/
theorem no_lost_wakeup {n : ℕ} {as : List Action} (hnt : Initial n s)
    (hrun : Trans.run step s as = some s') :
    (∀ t q, (s'.rt.tasks t).state = .waiting → (s'.rt.tasks t).In (.wait q) →
      ((s'.rt.tasks t).wakePending = false ∧ (s'.rt.waiters q).count t = 1 ∧
        ∀ q', q' ≠ q → t ∉ s'.rt.waiters q') ∨
      ((s'.rt.tasks t).wakePending = true ∧ (s'.rt.tasks t).executing = true ∧
        ∀ q', t ∉ s'.rt.waiters q')) ∧
    (∀ t, (s'.rt.tasks t).wakePending = true → (s'.rt.tasks t).executing = true ∧
      ((s'.rt.tasks t).state = .waiting ∨ (s'.rt.tasks t).state = .sleeping)) ∧
    (∀ t < s'.rt.taskCount, (s'.rt.tasks t).state ≠ .cancelled →
      (s'.rt.tasks t).causes = (s'.rt.tasks t).wakes + (s'.rt.tasks t).wakePending.toNat ∧
      (s'.rt.tasks t).enqueues = (s'.rt.tasks t).wakes + (s'.rt.tasks t).yields + 1) ∧
    (∀ q t r₁, s'.rt.waitPop q = some (t, r₁) → (s'.rt.tasks t).state ≠ .cancelled →
      ((s'.rt.tasks t).executing = true ∧ r₁.wake t = r₁.setTask t { s'.rt.tasks t with
        causes := (s'.rt.tasks t).causes + 1, wakePending := true }) ∨
      ((s'.rt.tasks t).executing = false ∧ r₁.wake t = (r₁.setTask t { s'.rt.tasks t with
        causes := (s'.rt.tasks t).causes + 1
        state := .runnable
        wakes := (s'.rt.tasks t).wakes + 1
        queued := true
        enqueues := (s'.rt.tasks t).enqueues + 1 }).pushGlobal t)) ∧
    (∀ t a s'', (s'.rt.tasks t).wakePending = true → step s' a = some s'' →
      (TakesReturn s' t a →
        (s''.rt.tasks t).state = .runnable ∧ (s''.rt.tasks t).wakePending = false ∧
        (s''.rt.tasks t).causes = (s'.rt.tasks t).causes ∧
        (s''.rt.tasks t).wakes = (s'.rt.tasks t).wakes + 1 ∧
        (s''.rt.tasks t).enqueues = (s'.rt.tasks t).enqueues + 1 ∧
        s''.rt.globalRunnable = s'.rt.globalRunnable ++ [t]) ∧
      (¬ TakesReturn s' t a → (s''.rt.tasks t).wakePending = true ∧
        (s''.rt.tasks t).causes = (s'.rt.tasks t).causes ∧
        (s''.rt.tasks t).wakes = (s'.rt.tasks t).wakes ∧
        (s''.rt.tasks t).enqueues = (s'.rt.tasks t).enqueues)) := by
  have hsou := sound_run hnt hrun
  have hinv := hsou.inv
  refine ⟨fun t q hs hq => hinv.linked_or_pending hs hq, fun t hw => ?_, fun t ht hc => ?_,
    fun q t r₁ hpop hc => hinv.waitPop_wake hpop hc, fun t a s'' hw hs => ?_⟩
  · refine ⟨?_, (hinv.waits t).pending hw⟩
    by_contra hex
    simp [hinv.not_pending (by simpa using hex)] at hw
  · exact ⟨(hinv.waits t).causes hc, (hinv.waits t).enqueues (hinv.made t ht)⟩
  · exact ⟨fun ha => step_takes_return hsou hs ha hw,
      fun ha => step_pending hsou hs ha ⟨hw, rfl, rfl, rfl⟩⟩

theorem no_lost_wakeup_deferred : ∃ s : System,
    Trans.run step { rt := { workerCount := 1 } } ([Action.owner .spawn, .owner .run] ++
      List.replicate 8 (Action.worker 0 {}) ++ [Action.call 0 (.semaphoreWait 0), .free (.semaphorePost 0)]) =
      some s ∧
    (s.rt.tasks 0).wakePending = true ∧ (s.rt.tasks 0).executing = true ∧
    (s.rt.tasks 0).causes = (s.rt.tasks 0).wakes + 1 := by
  have hvl : (Trans.run step { rt := { workerCount := 1 } } ([Action.owner .spawn, .owner .run] ++
      List.replicate 8 (Action.worker 0 {}) ++
      [Action.call 0 (.semaphoreWait 0), .free (.semaphorePost 0)])).map (fun s =>
        (s.rt.taskCount, (s.rt.tasks 0).state, (s.rt.tasks 0).wakePending)) =
      some (1, .waiting, true) := by rfl
  obtain ⟨s, hs, heq⟩ := map_eq_some_iff.mp hvl
  simp only [Prod.mk.injEq] at heq
  obtain ⟨h1, h2, h3⟩ := heq
  obtain ⟨-, hpen, hcnt, -⟩ := no_lost_wakeup ⟨by decide, rfl⟩ hs
  refine ⟨s, hs, h3, (hpen 0 h3).1, ?_⟩
  simpa [h3] using (hcnt 0 (by rw [h1]; decide) (by simp [h2])).1

end Veloco.Sched
