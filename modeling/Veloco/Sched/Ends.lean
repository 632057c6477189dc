import Veloco.Sched.Reach

/-!
# What ends a task
-/

namespace Veloco.Sched

open Function Option Sched.Runtime

variable {r r' r'' : Runtime} {p : PId} {t u w : TaskId} {s s' : System} {q : WaitQueue}

def Task.returned (k : Task) : Bool := k.fiber.any fun f => f.state = .done

/-- A step that does not end `t`. -/
structure Onward (t : TaskId) (r r' : Runtime) : Prop where
  state : (r'.tasks t).state = (r.tasks t).state ∨ (r'.tasks t).state.terminal = false
  returned : (r'.tasks t).returned = true → (r.tasks t).returned = true

namespace Onward

theorem of_task (h : r'.tasks t = r.tasks t) : Onward t r r' := by
  refine ⟨Or.inl ?_, ?_⟩
  · rw [h]
  · rw [h]
    exact id

theorem of_tasks (h : r'.tasks = r.tasks) : Onward t r r' := of_task (congrFun h t)

theorem trans (h : Onward t r r') (h' : Onward t r' r'') : Onward t r r'' where
  state := by
    rcases h'.state with hs | hs
    · rw [hs]
      exact h.state
    · exact Or.inr hs
  returned := h.returned ∘ h'.returned

theorem edit {k : Task} (ht : r'.tasks = update r.tasks u k)
    (hs : k.state = (r.tasks u).state ∨ k.state.terminal = false)
    (hf : k.returned = true → (r.tasks u).returned = true) : Onward t r r' := by
  by_cases hu : t = u
  · subst hu
    refine ⟨?_, ?_⟩
    · rw [ht, update_self]
      exact hs
    · rw [ht, update_self]
      exact hf
  · exact of_task (by rw [ht, update_of_ne hu])

theorem record {k : Task} (ht : r'.tasks = update r.tasks u k)
    (hs : k.state = (r.tasks u).state) (hf : k.fiber = (r.tasks u).fiber) : Onward t r r' :=
  edit ht (Or.inl hs) (by unfold Task.returned; rw [hf]; exact id)

theorem move {k : Task} (ht : r'.tasks = update r.tasks u k)
    (hs : k.state.terminal = false) (hf : k.fiber = (r.tasks u).fiber) : Onward t r r' :=
  edit ht (Or.inr hs) (by unfold Task.returned; rw [hf]; exact id)

theorem enqueueGlobal : Onward t r (r.enqueueGlobal u) := by
  unfold Runtime.enqueueGlobal
  split_ifs
  · exact of_tasks rfl
  · exact record rfl rfl rfl

theorem wake : Onward t r (r.wake w) := by
  unfold Runtime.wake
  split_ifs
  · exact of_tasks rfl
  · exact record rfl rfl rfl
  · refine Onward.trans ?_ enqueueGlobal
    exact move rfl rfl rfl

theorem ownerPush : Onward t r ((r.ownerPush p u).getD (r.pushGlobal u)) := by
  unfold Runtime.ownerPush
  split_ifs <;> exact of_tasks rfl

theorem suspend {pt : Point} : Onward t r (r.leaveFiber p u .suspended pt) := by
  refine edit rfl (Or.inl rfl) ?_
  unfold Task.returned
  cases (r.tasks u).fiber <;> simp

theorem foldl {α : Type} {f : Runtime → α → Runtime} (hf : ∀ r a, Onward t r (f r a)) (l : List α)
    (r : Runtime) : Onward t r (l.foldl f r) := by
  induction l generalizing r with
  | nil => exact of_tasks rfl
  | cons a l ih => exact (hf r a).trans (ih _)

end Onward

theorem waitPop_onward (h : r.waitPop q = some (w, r')) : Onward t r (r'.wake w) := by
  unfold waitPop at h
  split at h
  · cases h
  · cases h
    refine Onward.trans ?_ Onward.wake
    exact Onward.record rfl rfl rfl

theorem park_onward : Onward t s.rt (s.park q u).1.rt := by
  unfold System.park park
  split_ifs
  · exact Onward.of_tasks rfl
  · exact Onward.move rfl rfl rfl

theorem releaseAll_onward (f : Wait → Wait) (n : ℕ) (s : System) :
    Onward t s.rt (System.releaseAll q f n s).rt := by
  induction n generalizing s with
  | zero => exact Onward.of_tasks rfl
  | succ n ih =>
    unfold System.releaseAll
    split
    · exact Onward.of_tasks rfl
    · next w r' hp => exact (waitPop_onward hp).trans (ih (s.release w r' (f (s.wait w))))

theorem spawn_onward (h : r.spawn = some r') : Onward t r r' := by
  unfold spawn at h
  split_ifs at h
  cases h
  have hnew : Onward t r ({ r.setTask r.taskCount { state := .runnable } with
      taskCount := r.taskCount + 1 } : Runtime) :=
    Onward.edit rfl (Or.inr rfl) (by simp [Task.returned])
  exact (hnew.trans Onward.enqueueGlobal).trans (Onward.of_tasks rfl)

theorem park_then_onward (f : Wait → Wait) :
    Onward t s.rt (match s.park q u with
      | (s', none) => (s'.setWait u (f (s'.wait u)), none)
      | (s', status) => (s', status)).1.rt := by
  have hpr : Onward t s.rt (s.park q u).1.rt := park_onward
  split <;> next heq => rwa [heq] at hpr

theorem channelSend_onward (c : ℕ) (value : Value) :
    Onward t s.rt (s.channelSend c u value).1.rt := by
  unfold System.channelSend
  by_cases hclo : (s.channel c).closed = true
  · rw [if_pos hclo]
    exact Onward.of_tasks rfl
  · rw [if_neg hclo]
    split
    · next hp =>
      split <;> exact waitPop_onward hp
    · by_cases hrm : (s.channel c).length < (s.channel c).capacity
      · rw [if_pos hrm]
        exact Onward.of_tasks rfl
      · rw [if_neg hrm]
        exact park_then_onward fun w => { w with value := value }

theorem channelReceive_onward (c : ℕ) (out : Cell) :
    Onward t s.rt (s.channelReceive c u out).1.rt := by
  unfold System.channelReceive
  by_cases hlen : (s.channel c).length ≠ 0
  · rw [if_pos hlen]
    dsimp only
    split
    · next hp => exact waitPop_onward (r := s.rt) hp
    · exact Onward.of_tasks rfl
  · rw [if_neg hlen]
    split
    · next hp => exact waitPop_onward hp
    · by_cases hclo : (s.channel c).closed = true
      · rw [if_pos hclo]
        exact Onward.of_tasks rfl
      · rw [if_neg hclo]
        exact park_then_onward fun w => { w with output := some out }

theorem timerArm_onward (tm : TimerId) (delay now : ℕ) (ok : Bool) :
    Onward t r (r.timerArm p u tm delay now ok).1 := by
  unfold timerArm
  split_ifs
  · exact Onward.of_tasks rfl
  · exact Onward.of_tasks rfl
  · have hsle : Onward t r
        (r.setTask u { r.tasks u with state := .sleeping, timerResult := .ok }) :=
      Onward.move rfl rfl rfl
    dsimp only
    split
    · exact hsle.trans (Onward.record rfl rfl rfl)
    · exact hsle.trans (Onward.move rfl rfl rfl)

theorem call_onward {c : Call} (hc : c = .finish → u ≠ t) : Onward t s.rt (s.call p u c).1.rt := by
  cases c with
  | spawn =>
    simp only [System.call]
    split
    · next hr => exact spawn_onward hr
    · exact Onward.of_tasks rfl
  | yield =>
    simp only [System.call, Runtime.yieldTask]
    split_ifs
    · exact Onward.of_tasks rfl
    · exact Onward.move rfl rfl rfl
  | join target =>
    simp only [System.call, Runtime.join]
    split_ifs
    · exact Onward.of_tasks rfl
    · exact Onward.of_tasks rfl
    · exact Onward.of_tasks rfl
    · exact Onward.move rfl rfl rfl
  | mutexLock m =>
    simp only [System.call, System.mutexLock]
    split
    · exact Onward.of_tasks rfl
    · split_ifs
      · exact Onward.of_tasks rfl
      · exact park_onward
  | mutexUnlock m =>
    simp only [System.call, System.mutexUnlock]
    split_ifs
    · exact Onward.of_tasks rfl
    · split
      · exact Onward.of_tasks rfl
      · next hp => exact waitPop_onward hp
  | semaphoreWait i =>
    simp only [System.call, System.semaphoreWait]
    split_ifs
    · exact Onward.of_tasks rfl
    · exact park_onward
  | waitGroupWait g =>
    simp only [System.call, System.waitGroupWait]
    split_ifs
    · exact Onward.of_tasks rfl
    · exact park_onward
  | channelSend c value => exact channelSend_onward c value
  | channelReceive c out => exact channelReceive_onward c out
  | timerArm tm delay now ok => exact timerArm_onward tm delay now ok
  | parkForIo io =>
    simp only [System.call, Runtime.parkForIo]
    split_ifs
    · exact Onward.move rfl rfl rfl
    · exact Onward.of_tasks rfl
  | fiberYield => exact Onward.suspend
  | finish => exact Onward.of_task (by simp [System.call, Runtime.leaveFiber, (hc rfl).symm])

theorem fireTimer_onward (tm : TimerId) (result : Status) (event : TimerEvent) :
    Onward t r (r.fireTimer tm result event) := by
  unfold fireTimer
  split
  · exact Onward.of_tasks rfl
  · refine Onward.trans ?_ Onward.wake
    exact Onward.record rfl rfl rfl

theorem freeCall_onward (c : FreeCall) : Onward t s.rt (s.freeCall c).1.rt := by
  cases c with
  | semaphorePost i =>
    simp only [System.freeCall, System.semaphorePost]
    split
    · next hp => exact waitPop_onward hp
    · split_ifs <;> exact Onward.of_tasks rfl
  | waitGroupAdd g delta =>
    simp only [System.freeCall, System.waitGroupAdd]
    generalize (if delta < 0 then _ else _ : ℕ) = count
    split_ifs
    · exact Onward.of_tasks rfl
    · exact releaseAll_onward _ _ { s with count := update s.count g count }
    · exact Onward.of_tasks rfl
  | channelClose c =>
    simp only [System.freeCall, System.channelClose]
    split_ifs
    · exact Onward.of_tasks rfl
    · refine Onward.trans ?_ (releaseAll_onward _ _ _)
      exact releaseAll_onward _ _ (s.setChannel c _)
  | timerCancel tm =>
    simp only [System.freeCall, timerCancel]
    split
    · split_ifs
      · refine Onward.trans ?_ (fireTimer_onward _ _ _)
        exact Onward.of_tasks rfl
      · exact Onward.of_tasks rfl
    · exact Onward.of_tasks rfl
  | completeIo v =>
    simp only [System.freeCall, completeIo]
    generalize (if s.rt.ioWaiting - 1 = 0 then none else s.rt.ioDriver) = driver
    split_ifs
    · exact Onward.of_tasks rfl
    · refine Onward.trans ?_ Onward.wake
      exact Onward.record rfl rfl rfl
  | requestShutdown => exact Onward.of_tasks rfl

/-! ## Workers -/

theorem expireLoop_onward (now n : ℕ) (r : Runtime) : Onward t r (expireLoop p now n r) := by
  induction n generalizing r with
  | zero => exact Onward.of_tasks rfl
  | succ n ih =>
    unfold expireLoop
    split
    · exact Onward.of_tasks rfl
    · split_ifs
      · split
        · exact Onward.of_tasks rfl
        · next tm h _ =>
          have hput : Onward t r (r.putHeap p h) := Onward.of_tasks rfl
          exact (hput.trans (fireTimer_onward tm .ok .expired)).trans (ih _)
      · exact Onward.of_tasks rfl

theorem takeGlobal_onward : Onward t r (r.takeGlobal p).2 := by
  unfold takeGlobal
  dsimp only
  split
  · exact Onward.record rfl rfl rfl
  · exact Onward.of_tasks rfl

theorem destroyOwnedFibers_onward : Onward t r (r.destroyOwnedFibers p) := by
  unfold destroyOwnedFibers
  refine Onward.foldl (fun r u => ?_) _ r
  unfold destroyFiber
  split_ifs
  · exact Onward.edit rfl (Or.inl rfl) (by simp [Task.returned])
  · exact Onward.of_tasks rfl

theorem stopIfDone_onward (r : Runtime) (p : PId) : Onward t r (r.stopIfDone.setPc p .top) := by
  unfold stopIfDone stopRun
  split_ifs <;> exact Onward.of_tasks rfl

theorem cancelAll_task (h : (r.tasks t).state.terminal = true) : r.cancelAll.tasks t = r.tasks t := by
  unfold cancelAll
  generalize (List.range r.taskCount).reverse = l
  have hone : ∀ r' : Runtime, r'.tasks t = r.tasks t → ∀ u, (r'.cancelTask u).tasks t = r.tasks t := by
    intro r' hr' u
    unfold cancelTask
    split_ifs with hsk
    · exact hr'
    · by_cases hu : t = u
      · subst hu
        exact absurd (Or.inl (by rw [hr']; exact h)) hsk
      · simp [hu, hr']
  have hlp : ∀ r' : Runtime, r'.tasks t = r.tasks t →
      (l.foldl cancelTask r').tasks t = r.tasks t := by
    induction l with
    | nil => exact fun _ h => h
    | cons u l ih => exact fun r' hr' => ih _ (hone r' hr' u)
  exact hlp r rfl

theorem enqueueLocal_onward : Onward t r (r.enqueueLocal p u) := by
  unfold enqueueLocal
  by_cases hsk : (r.tasks u).state ≠ .runnable ∨ (r.tasks u).queued = true
  · rw [if_pos hsk]
    exact Onward.of_tasks rfl
  · rw [if_neg hsk]
    have hq : Onward t r (r.setTask u { r.tasks u with
        queued := true, enqueues := (r.tasks u).enqueues + 1 }) := Onward.record rfl rfl rfl
    dsimp only
    split_ifs
    · exact hq.trans (Onward.of_tasks rfl)
    · exact hq.trans Onward.ownerPush

theorem cancelReturned_onward (hu : u ≠ t) : Onward t r (r.cancelReturned u) :=
  Onward.of_task (by simp [cancelReturned, hu.symm])

theorem settleReturned_onward (hu : u = t → (r.tasks u).state ≠ .running) :
    Onward t r (r.settleReturned p u) := by
  unfold settleReturned
  dsimp only
  have hmid : ∀ r₁ : Runtime, Onward t r r₁ → (u = t → (r₁.tasks u).state ≠ .running) →
      Onward t r (if (r₁.tasks u).state = .runnable then r₁.enqueueLocal p u
        else if (r₁.tasks u).state = .running then r₁.cancelReturned u else r₁) := by
    intro r₁ h₁ hs
    split_ifs with hrn hrun
    · exact h₁.trans enqueueLocal_onward
    · exact h₁.trans (cancelReturned_onward fun he => hs he hrun)
    · exact h₁
  apply hmid
  · split_ifs
    · exact Onward.move rfl rfl rfl
    · exact Onward.record rfl rfl rfl
    · exact Onward.of_tasks rfl
  · intro he
    split_ifs with hw hr
    · simp
    · simp [hr]
    · exact hu he

theorem complete_onward (r : Runtime) (u : TaskId) : Onward t r (r.complete u) := by
  have hone : ∀ (r : Runtime) w, Onward t r (r.releaseJoiner w) := by
    intro r w
    refine Onward.trans ?_ Onward.wake
    exact Onward.record rfl rfl rfl
  have hemp : Onward t r (r.setWaiters (.joiners u) []) := Onward.of_tasks rfl
  have hlp := Onward.foldl hone (r.waiters (.joiners u)) (r.setWaiters (.joiners u) [])
  exact (hemp.trans hlp).trans (Onward.of_tasks rfl)

theorem completeReturned_onward (hu : u ≠ t) : Onward t r (r.completeReturned u) := by
  have hdn : Onward t r (r.setTask u { r.tasks u with state := .done }) :=
    Onward.of_task (by simp [hu.symm])
  refine (hdn.trans (complete_onward _ u)).trans ?_
  exact Onward.of_task (by simp [completeReturned, hu.symm])

theorem completeReturned_task (r : Runtime) (t : TaskId) :
    ((r.completeReturned t).tasks t).state = .done ∨
      ((r.completeReturned t).tasks t).state.terminal = false := by
  have hsta := (complete_onward (t := t) (r.setTask t { r.tasks t with state := .done }) t).state
  rw [setTask_tasks, update_self] at hsta
  unfold completeReturned
  rw [setTask_tasks, update_self]
  exact hsta

theorem executeEnd_onward {status : Status} (hu : u ≠ t) : Onward t r (r.executeEnd p u status) := by
  have hrt : Onward t r (r.returnedTask u) := Onward.record rfl rfl rfl
  have hbra : Onward t r
      (if status ≠ .ok then (r.returnedTask u).cancelReturned u
        else if (r.returnedTask u).fiberDone u then (r.returnedTask u).completeReturned u
        else (r.returnedTask u).settleReturned p u) := by
    split_ifs
    · exact hrt.trans (cancelReturned_onward hu)
    · exact hrt.trans (completeReturned_onward hu)
    · exact hrt.trans (settleReturned_onward fun he => absurd he hu)
  rw [executeEnd_eq]
  exact hbra.trans (stopIfDone_onward _ p)

/-- The next step of worker `p` does not end task `t`. -/
def Runtime.spares (r : Runtime) (p : PId) (t : TaskId) : Bool :=
  match (r.ps p).pc with
  | .execute u => u ≠ t || !r.shutdownRequested
  | .returned u status =>
    u ≠ t || status = .ok && ((r.tasks t).returned || (r.tasks t).state ≠ .running)
  | .runEnd => !r.shutdownRequested || (r.tasks t).state.terminal
  | .stopping => (r.tasks t).state.terminal
  | _ => true

theorem workerStep_onward {e : Env} (h : r.workerStep p e = some r') (hsp : r.spares p t = true)
    (hret : ∀ status, (r.ps p).pc ≠ .returned t status) : Onward t r r' := by
  unfold workerStep at h
  unfold spares at hsp
  cases hpc : (r.ps p).pc with
  | off =>
    simp only [hpc] at h
    split_ifs at h
    · cases h
      exact destroyOwnedFibers_onward.trans (Onward.of_tasks rfl)
    · cases h
      exact Onward.of_tasks rfl
    · cases h
      exact Onward.of_tasks rfl
  | top =>
    simp only [hpc] at h
    split_ifs at h <;> cases h <;> exact Onward.of_tasks rfl
  | expire =>
    simp only [hpc, some.injEq] at h
    subst h
    exact (expireLoop_onward e.now _ r).trans (Onward.of_tasks rfl)
  | ownerPop =>
    simp only [hpc] at h
    split at h <;> cases h <;> exact Onward.of_tasks rfl
  | unqueue u =>
    simp only [hpc, some.injEq] at h
    subst h
    exact Onward.record rfl rfl rfl
  | takeGlobal =>
    simp only [hpc] at h
    have htk : Onward t r (r.takeGlobal p).2 := takeGlobal_onward
    generalize r.takeGlobal p = x at h htk
    obtain ⟨_ | u, r₁⟩ := x
    · cases h
      exact htk.trans (Onward.of_tasks rfl)
    · cases h
      exact htk.trans (Onward.of_tasks rfl)
  | stealNext offset =>
    simp only [hpc] at h
    split_ifs at h <;> cases h <;> exact Onward.of_tasks rfl
  | stealBatch offset items =>
    simp only [hpc] at h
    split at h
    · split_ifs at h <;> cases h <;> exact Onward.of_tasks rfl
    · cases h
      exact Onward.of_tasks rfl
  | stolen items =>
    simp only [hpc] at h
    split at h
    · cases h
    · next u rest =>
      cases h
      have hkeep : Onward t r (r.keepStolen p rest) := Onward.foldl (fun _ _ => Onward.ownerPush) rest r
      exact hkeep.trans (Onward.of_tasks rfl)
  | execute u =>
    simp only [hpc, some.injEq] at h hsp
    subst h
    unfold executeBegin
    split_ifs with hdr hsd
    · exact Onward.of_tasks rfl
    · have hu : t ≠ u := by
        rintro rfl
        simp [hsd] at hsp
      exact Onward.of_task (by simp [hu])
    · exact Onward.move rfl rfl rfl
  | cancelled =>
    simp only [hpc, some.injEq] at h
    subst h
    exact stopIfDone_onward r p
  | createFiber u =>
    simp only [hpc, some.injEq] at h
    subst h
    unfold createFiber
    split_ifs
    · exact Onward.of_tasks rfl
    · exact Onward.edit rfl (Or.inl rfl) (by simp [Task.returned])
    · exact Onward.of_tasks rfl
  | resume u =>
    simp only [hpc, some.injEq] at h
    subst h
    unfold resumeFiber
    split
    · exact Onward.of_tasks rfl
    · split_ifs
      · exact Onward.of_tasks rfl
      · exact Onward.edit rfl (Or.inl rfl) (by simp [Task.returned])
  | inTask u =>
    simp only [hpc] at h
    unfold taskStep at h
    split at h
    · cases h
      exact Onward.suspend
    · cases h
      exact Onward.record rfl rfl rfl
    · cases h
      exact Onward.record rfl rfl rfl
    · cases h
  | returned u status =>
    simp only [hpc, some.injEq] at h
    subst h
    have hu : u ≠ t := by
      rintro rfl
      exact hret status hpc
    exact executeEnd_onward hu
  | idle =>
    simp only [hpc, some.injEq] at h
    subst h
    unfold idleBegin stopRun
    dsimp only
    split_ifs <;> exact Onward.of_tasks rfl
  | idlePoll =>
    simp only [hpc, some.injEq] at h
    subst h
    unfold idleEnd
    split_ifs <;> exact Onward.of_tasks rfl
  | runWait =>
    simp only [hpc] at h
    split_ifs at h
    cases h
    exact Onward.of_tasks rfl
  | runEnd =>
    simp only [hpc, some.injEq] at h hsp
    subst h
    split_ifs with hsd
    · have hend : (r.tasks t).state.terminal = true := by simpa [hsd] using hsp
      exact Onward.of_task (cancelAll_task hend)
    · exact Onward.of_tasks rfl
  | stopping =>
    simp only [hpc] at h hsp
    split_ifs at h
    cases h
    have hcan : Onward t r r.cancelAll := Onward.of_task (cancelAll_task hsp)
    exact (hcan.trans destroyOwnedFibers_onward).trans (Onward.of_tasks rfl)
  | exited =>
    simp only [hpc] at h
    cases h
  | _ =>
    simp only [hpc, some.injEq] at h
    subst h
    exact Onward.of_tasks rfl

structure Spared (F : Prop) (t : TaskId) (r r' : Runtime) : Prop where
  cancelled : (r'.tasks t).state = .cancelled → (r.tasks t).state = .cancelled
  done : (r'.tasks t).state = .done → (r.tasks t).state = .done ∨ (r.tasks t).returned = true
  returned : (r'.tasks t).returned = true → (r.tasks t).returned = true ∨ F

theorem Onward.spared {F : Prop} (h : Onward t r r') : Spared F t r r' := by
  have hsm : ∀ x : TaskState, x.terminal = true → (r'.tasks t).state = x →
      (r.tasks t).state = x := by
    intro x hx hs
    rcases h.state with he | he
    · rw [← he, hs]
    · rw [hs, hx] at he
      simp at he
  exact ⟨hsm _ rfl, fun hd => Or.inl (hsm _ rfl hd), fun hr => Or.inl (h.returned hr)⟩

theorem Inv.executeEnd_spared {F : Prop} (h : Inv r) (hpc : (r.ps p).pc = .returned t .ok)
    (hok : (r.tasks t).returned = true ∨ (r.tasks t).state ≠ .running) :
    Spared F t r (r.executeEnd p t .ok) := by
  have hrt : Onward t r (r.returnedTask t) := Onward.record rfl rfl rfl
  rw [executeEnd_eq, if_neg (by simp), returnedTask_fiberDone]
  by_cases hd : r.fiberDone t = true
  · -- a parked task has a suspended fiber, so the function of this one has returned
    have hret : (r.tasks t).returned = true := by
      refine hok.resolve_right fun hs => ?_
      rcases (h.returned hpc).2 with ⟨hr, -⟩ | ⟨-, ⟨f, hf, hss⟩, -⟩
      · exact hs hr
      · simp [fiberDone, hf, hss] at hd
    rw [if_pos hd]
    refine ⟨fun hc => ?_, fun _ => Or.inr hret, fun _ => Or.inl hret⟩
    have hc := ((stopIfDone_onward _ p).spared (F := F)).cancelled hc
    rcases completeReturned_task (r.returnedTask t) t with hs | hs
    · rw [hs] at hc
      cases hc
    · rw [hc] at hs
      cases hs
  · rw [if_neg hd]
    have hs : (r.tasks t).state ≠ .running := by
      refine hok.resolve_left fun hret => hd ?_
      unfold Task.returned at hret
      unfold fiberDone
      cases hf : (r.tasks t).fiber <;> simp_all
    have hset : Onward t (r.returnedTask t) ((r.returnedTask t).settleReturned p t) :=
      settleReturned_onward fun _ => by rw [returnedTask_tasks]; exact hs
    exact ((hrt.trans hset).trans (stopIfDone_onward _ p)).spared

theorem step_spared {a : Action} (h : Inv s.rt) (hs : step s a = some s')
    (hsp : ∀ p e, a = .worker p e → s.rt.spares p t = true) :
    Spared (∃ p, a = .call p .finish ∧ (s.rt.ps p).pc = .inTask t ∧ (s.rt.tasks t).point = .body) t
      s.rt s'.rt := by
  unfold step at hs
  cases a with
  | worker p e =>
    dsimp only at hs
    split_ifs at hs
    obtain ⟨r', hr, rfl⟩ := map_eq_some_iff.mp hs
    have hspa := hsp p e rfl
    by_cases hret : ∃ status, (s.rt.ps p).pc = .returned t status
    · obtain ⟨status, hpc⟩ := hret
      unfold spares at hspa
      unfold workerStep at hr
      simp only [hpc, some.injEq] at hspa hr
      obtain ⟨rfl, hok⟩ : status = .ok ∧
          ((s.rt.tasks t).returned = true ∨ (s.rt.tasks t).state ≠ .running) := by
        simpa using hspa
      subst hr
      exact h.executeEnd_spared hpc hok
    · exact (workerStep_onward hr hspa fun status hpc => hret ⟨status, hpc⟩).spared
  | call p c =>
    dsimp only at hs
    split at hs
    · next u hpc =>
      split_ifs at hs with hpt
      cases hs
      by_cases hfin : c = .finish ∧ u = t
      · obtain ⟨rfl, rfl⟩ := hfin
        have hsta : ((s.call p u .finish).1.rt.tasks u).state = (s.rt.tasks u).state := by
          simp [System.call, leaveFiber]
        exact ⟨fun hc => by rw [← hsta, hc], fun hd => Or.inl (by rw [← hsta, hd]),
          fun _ => Or.inr ⟨p, rfl, hpc, hpt⟩⟩
      · exact (call_onward fun hc hu => hfin ⟨hc, hu⟩).spared
    · cases hs
  | free c =>
    dsimp only at hs
    split_ifs at hs
    cases hs
    exact (freeCall_onward c).spared
  | owner c =>
    dsimp only at hs
    split_ifs at hs
    cases c with
    | spawn =>
      obtain ⟨r', hr, rfl⟩ := map_eq_some_iff.mp hs
      exact (spawn_onward hr).spared
    | run =>
      obtain ⟨r', hr, rfl⟩ := map_eq_some_iff.mp hs
      unfold runBegin at hr
      split_ifs at hr
      cases hr
      exact Onward.spared (Onward.of_tasks rfl)
    | shutdown =>
      cases hs
      exact Onward.spared (Onward.of_tasks rfl)

theorem spawn_task (h : r.spawn = some r') :
    (r'.tasks r.taskCount).state = .runnable ∧ (r'.tasks r.taskCount).returned = false := by
  unfold spawn at h
  split_ifs at h
  cases h
  simp [enqueueGlobal, Task.returned]

theorem Eff.taskCount_le {l : Label} (he : Eff l r r') : r.taskCount ≤ r'.taskCount := by
  cases he with
  | spawn _ _ => exact Nat.le_succ _
  | release _ | fire _ _ _ | completeIo _ _ =>
    rw [(wake_sameRest _ _).taskCount]
    exact Nat.le_refl _
  | cancelTask _ _ _ _ => rw [(cancelTask_frame r _).2.1]
  | _ => exact Nat.le_refl _

theorem taskCount_step {a : Action} (h : Sound s.rt) (hs : step s a = some s') :
    s.rt.taskCount ≤ s'.rt.taskCount :=
  (step_keeps (A := fun _ _ => True) (I := fun r => s.rt.taskCount ≤ r.taskCount)
    (fun _ => trivial) (fun _ _ _ _ he _ hle => hle.trans he.taskCount_le) hs (fun _ _ => trivial) h
    (Nat.le_refl _)).2

end Veloco.Sched
