import Veloco.Sched.Refine

/-!
# `vl_worker_execute` as a sequence of effects
-/

namespace Veloco.Sched

open Function List Sched.Runtime
open Veloco.Placement

variable {A : Runtime → Label → Prop} {r r' : Runtime} {p : PId} {t : TaskId}

namespace Runtime

theorem wake_setWaiters (r : Runtime) (q : WaitQueue) (l : List TaskId) (w : TaskId) :
    (r.setWaiters q l).wake w = (r.wake w).setWaiters q l := by
  unfold wake enqueueGlobal
  simp only [setWaiters, setTask, update_self]
  split_ifs <;> rfl

def edit (r : Runtime) (t : TaskId) (k : Task) (n : ℕ) : Runtime :=
  { r.setTask t k with activeWorkers := n }

theorem releaseJoiner_edit (r : Runtime) {t w : TaskId} (hne : w ≠ t) (k : Task) (n : ℕ) :
    (r.edit t k n).releaseJoiner w = (r.releaseJoiner w).edit t k n := by
  unfold releaseJoiner wake enqueueGlobal
  have hw : (r.edit t k n).tasks w = r.tasks w := by simp [edit, hne]
  simp only [hw, setTask, update_self]
  split_ifs <;> simp [edit, setTask, pushGlobal, update_comm hne]

theorem foldl_releaseJoiner_edit (r : Runtime) {t : TaskId} (k : Task) (n : ℕ) {l : List TaskId}
    (hl : t ∉ l) :
    l.foldl releaseJoiner (r.edit t k n) = (l.foldl releaseJoiner r).edit t k n := by
  induction l generalizing r with
  | nil => rfl
  | cons w l ih =>
    rw [mem_cons, not_or] at hl
    rw [foldl_cons, foldl_cons, releaseJoiner_edit r (Ne.symm hl.1), ih _ hl.2]

end Runtime

section Execute

variable (hA : ∀ r, A r .plain)

include hA

theorem effs_executeBegin (hpc : (r.ps p).pc = .execute t) : Effs A r (r.executeBegin p t) := by
  unfold executeBegin
  split_ifs with hd hsd
  · exact .plain hA (.drop hpc hd)
  · rw [not_or, not_not] at hd
    exact .plain hA (.cancelHeld hpc hd.1 hsd)
  · rw [not_or, not_not] at hd
    exact .plain hA (.start hpc hd.1 (by simpa using hd.2))

theorem effs_createFiber {ok : Bool} (hpc : (r.ps p).pc = .createFiber t) :
    Effs A r (r.createFiber p t ok) := by
  unfold createFiber
  split_ifs
  · exact .plain hA (.created hpc)
  · exact .plain hA (.create hpc)
  · exact .plain hA (.fiberError (.inl hpc) (by simp))

theorem effs_resumeFiber (hpc : (r.ps p).pc = .resume t) : Effs A r (r.resumeFiber p t) := by
  unfold resumeFiber
  split
  · exact .plain hA (.fiberError (.inr hpc) (by simp))
  · next f hf =>
    split_ifs
    · exact .plain hA (.fiberError (.inr hpc) (by simp))
    · exact .plain hA (.resume hpc hf)

theorem effs_taskStep (hpc : (r.ps p).pc = .inTask t) (hs : r.taskStep p t = some r') :
    Effs A r r' := by
  unfold taskStep at hs
  split at hs
  · next j hpt =>
    cases hs
    exact .plain hA (.leave hpc hpt)
  · next tm result hpt =>
    cases hs
    exact .plain hA (.clearTask hpc hpt)
  · next tm result hpt =>
    cases hs
    exact .plain hA (.clearP hpc hpt)
  · simp at hs

/-! ## The last section -/

theorem effs_joiners {q : WaitQueue} (l : List TaskId) (r : Runtime) (hq : r.waiters q = l) :
    Effs A r (l.foldl releaseJoiner (r.setWaiters q [])) := by
  induction l generalizing r with
  | nil =>
    have : r.setWaiters q [] = r := by
      rw [← hq]
      simp [setWaiters]
    rw [foldl_nil, this]
    exact .refl r
  | cons w l ih =>
    refine (Effs.plain hA (.release (x := none) hq)).trans ?_
    have := ih (((r.setTask w { r.tasks w with
      causes := (r.tasks w).causes + 1, waitingOn := none }).setWaiters q l).wake w) (by
        rw [(wake_sameRest _ w).waiters]
        simp [setWaiters])
    rw [foldl_cons]
    convert this using 2
    rw [← wake_setWaiters]
    unfold releaseJoiner
    congr 1
    simp [setWaiters, setTask]

omit hA in
theorem foldl_releaseJoiner_rest (l : List TaskId) (r : Runtime) :
    r.SameRest (l.foldl releaseJoiner r) ∧
      ∀ u, u ∉ l → (l.foldl releaseJoiner r).tasks u = r.tasks u := by
  induction l generalizing r with
  | nil => exact ⟨by constructor <;> rfl, fun _ _ => rfl⟩
  | cons w l ih =>
    obtain ⟨h1, h2⟩ := ih (r.releaseJoiner w)
    have hset : r.SameRest (r.setTask w { r.tasks w with
      waitingOn := none, causes := (r.tasks w).causes + 1 }) := by constructor <;> rfl
    rw [foldl_cons]
    refine ⟨(hset.trans (wake_sameRest _ w)).trans h1, fun u hu => ?_⟩
    rw [mem_cons, not_or] at hu
    rw [h2 u hu.2, releaseJoiner, wake_tasks_ne _ hu.1]
    simp [hu.1]

omit hA in
theorem completeReturned_eq {n : ℕ} (hl : t ∉ r.waiters (.joiners t)) :
    (r.edit t { r.tasks t with executing := false } n).completeReturned t =
      let rJ := (r.waiters (.joiners t)).foldl releaseJoiner (r.setWaiters (.joiners t) [])
      { rJ.edit t { r.tasks t with executing := false, state := .done, fiber := none } n with
        liveTasks := rJ.liveTasks - 1
        completed := rJ.completed + 1 } := by
  have hdn : (r.edit t { r.tasks t with executing := false } n).setTask t
      { (r.edit t { r.tasks t with executing := false } n).tasks t with state := .done } =
      r.edit t { r.tasks t with executing := false, state := .done } n := by
    simp [edit, setTask]
  unfold completeReturned complete
  rw [hdn]
  have hfd := foldl_releaseJoiner_edit (r.setWaiters (.joiners t) [])
    { r.tasks t with executing := false, state := .done } n hl
  have hset : (r.edit t { r.tasks t with executing := false, state := .done } n).setWaiters
      (.joiners t) [] = (r.setWaiters (.joiners t) []).edit t
        { r.tasks t with executing := false, state := .done } n := rfl
  have hw : (r.edit t { r.tasks t with executing := false, state := .done } n).waiters
      (.joiners t) = r.waiters (.joiners t) := rfl
  rw [hset, hw, hfd]
  simp [edit, setTask]

theorem effs_completeReturned {status : Status} (h : Inv r) (hpc : (r.ps p).pc = .returned t status)
    (hs : (r.tasks t).state = .running) :
    Effs A r (((r.edit t { r.tasks t with executing := false }
      (r.activeWorkers - 1)).completeReturned t).setPc p .top) := by
  have hl : t ∉ r.waiters (.joiners t) :=
    ((h.waits t).unlinked (by simp [hs]) (by simp [hs]) (by simp [hs])).1 _
  rw [completeReturned_eq hl]
  obtain ⟨hrs, htas⟩ :=
    foldl_releaseJoiner_rest (r.waiters (.joiners t)) (r.setWaiters (.joiners t) [])
  have hjn := effs_joiners hA (r.waiters (.joiners t)) r rfl
  set rJ := (r.waiters (.joiners t)).foldl releaseJoiner (r.setWaiters (.joiners t) []) with hrJ
  have hpcJ : (rJ.ps p).pc = .returned t status := by rw [hrs.ps]; exact hpc
  have htJ : rJ.tasks t = r.tasks t := htas t hl
  have hact : rJ.activeWorkers = r.activeWorkers := hrs.activeWorkers
  have hend := Eff.endDone (r := rJ) hpcJ (by rw [htJ, hs])
    (by rw [hrs.waiters]; simp [setWaiters])
  refine hjn.trans ?_
  convert Effs.plain hA hend using 1
  rw [← htJ, ← hact]
  rfl

omit hA in
theorem Runtime.enqueueLocal_of_fiber (hs : (r.tasks t).state = .runnable)
    (hq : (r.tasks t).queued = false) (hf : (r.tasks t).fiber.isSome = true) :
    r.enqueueLocal p t = (r.setTask t { r.tasks t with
      queued := true, enqueues := (r.tasks t).enqueues + 1 }).pushGlobal t := by
  simp [enqueueLocal, hs, hq, hf]

omit hA in
theorem Runtime.settleReturned_woken (hw : (r.tasks t).wakePending = true)
    (hs : (r.tasks t).state = .waiting ∨ (r.tasks t).state = .sleeping)
    (hq : (r.tasks t).queued = false) (hf : (r.tasks t).fiber.isSome = true) :
    r.settleReturned p t = (r.setTask t { r.tasks t with
      wakePending := false
      state := .runnable
      wakes := (r.tasks t).wakes + 1
      queued := true
      enqueues := (r.tasks t).enqueues + 1 }).pushGlobal t := by
  unfold settleReturned
  simp only [hw, hs, and_self, if_true, setTask_tasks, update_self]
  rw [enqueueLocal_of_fiber (by simp) (by simp [hq]) (by simp [hf])]
  simp [setTask]

omit hA in
theorem Runtime.settleReturned_runnable (hw : (r.tasks t).wakePending = false)
    (hs : (r.tasks t).state = .runnable)
    (hq : (r.tasks t).queued = false) (hf : (r.tasks t).fiber.isSome = true) :
    r.settleReturned p t = (r.setTask t { r.tasks t with
      yields := (r.tasks t).yields + 1
      queued := true
      enqueues := (r.tasks t).enqueues + 1 }).pushGlobal t := by
  unfold settleReturned
  simp only [hw, hs, Bool.false_eq_true, false_and, if_false, if_true, setTask_tasks, update_self]
  rw [enqueueLocal_of_fiber (by simp) (by simp [hq]) (by simp [hf])]
  simp [setTask]

theorem effs_settleReturned (h : Inv r) (hpc : (r.ps p).pc = .returned t .ok)
    (hdn : r.fiberDone t = false) (hwok : A r (.woken t))
    (hfl : (r.tasks t).state = .running → A r (.fail t)) :
    Effs A r (((r.edit t { r.tasks t with executing := false }
      (r.activeWorkers - 1)).settleReturned p t).setPc p .top) := by
  have hok := h.returned hpc
  have hque : (r.tasks t).queued = false := hok.1.queued
  obtain ⟨f, hf⟩ : ∃ f, (r.tasks t).fiber = some f := by
    unfold fiberDone at hdn
    cases hf : (r.tasks t).fiber with
    | none => simp [hf] at hdn
    | some f => exact ⟨f, rfl⟩
  have hts : (r.edit t { r.tasks t with executing := false } (r.activeWorkers - 1)).tasks t =
      { r.tasks t with executing := false } := by simp [edit]
  by_cases hw : (r.tasks t).wakePending = true
  · -- a wake came while the fiber was on its way back
    convert Effs.single hwok (Eff.endWoken hpc hw) using 1
    rw [settleReturned_woken (by simpa [hts] using hw)
      (by simpa [hts] using (h.waits t).pending hw) (by simpa [hts] using hque)
      (by rw [hts]; simp [hf]), hts]
    simp [edit, setTask, endTask, setPc, setP, pushGlobal]
  have hw : (r.tasks t).wakePending = false := by simpa using hw
  cases hs : (r.tasks t).state with
  | runnable =>
    convert Effs.plain hA (.endYield hpc hs) using 1
    rw [settleReturned_runnable (by simpa [hts] using hw) (by simpa [hts] using hs)
      (by simpa [hts] using hque) (by rw [hts]; simp [hf]), hts]
    simp [edit, setTask, endTask, setPc, setP, pushGlobal]
  | running =>
    convert Effs.single (hfl hs) (Eff.endFail hpc hs) using 1
    simp [settleReturned, edit, setTask, cancelReturned, endTask, setPc, setP, hs]
  | waiting =>
    convert Effs.plain hA (.endParked hpc hw (.inl hs)) using 1
    simp [settleReturned, edit, setTask, endTask, setPc, setP, hs, hw]
  | sleeping =>
    convert Effs.plain hA (.endParked hpc hw (.inr hs)) using 1
    simp [settleReturned, edit, setTask, endTask, setPc, setP, hs, hw]
  | new | done | cancelled =>
    rcases hok.2 with ⟨hr, -⟩ | ⟨-, -, j, -, hj⟩
    · simp [hs] at hr
    · have hj := hj.state
      rw [hs] at hj
      cases j <;> simp [Park.state] at hj

def Runtime.returnedTask (r : Runtime) (t : TaskId) : Runtime :=
  r.edit t { r.tasks t with executing := false } (r.activeWorkers - 1)

omit hA in
theorem returnedTask_tasks (r : Runtime) (t : TaskId) :
    (r.returnedTask t).tasks t = { r.tasks t with executing := false } := by
  simp [returnedTask, edit]

omit hA in
theorem returnedTask_fiberDone (r : Runtime) (t : TaskId) :
    (r.returnedTask t).fiberDone t = r.fiberDone t := by
  unfold fiberDone
  rw [returnedTask_tasks]

omit hA in
theorem executeEnd_eq (r : Runtime) (p : PId) (t : TaskId) (status : Status) :
    r.executeEnd p t status =
      (if status ≠ .ok then (r.returnedTask t).cancelReturned t
        else if (r.returnedTask t).fiberDone t then (r.returnedTask t).completeReturned t
        else (r.returnedTask t).settleReturned p t).stopIfDone.setPc p .top := rfl

theorem effs_executeEnd {status : Status} (h : Inv r) (hpc : (r.ps p).pc = .returned t status)
    (hwok : A r (.woken t))
    (hfl : (status ≠ .ok ∨ r.fiberDone t = false ∧ (r.tasks t).state = .running) →
      A r (.fail t)) :
    Effs A r (r.executeEnd p t status) := by
  have hok := h.returned hpc
  rw [executeEnd_eq, stopIfDone_setPc, returnedTask_fiberDone]
  refine .trans ?_ (effs_stopIfDone hA _)
  by_cases hst : status = .ok
  · subst hst
    rw [if_neg (by simp)]
    by_cases hd : r.fiberDone t = true
    · rw [if_pos hd]
      refine effs_completeReturned hA h hpc ?_
      rcases hok.2 with ⟨hr, -⟩ | ⟨-, ⟨f, hf, hss⟩, -⟩
      · exact hr
      · simp [fiberDone, hf, hss] at hd
    · have hd : r.fiberDone t = false := by simpa using hd
      rw [if_neg (by simp [hd])]
      exact effs_settleReturned hA h hpc hd hwok fun hs => hfl (.inr ⟨hd, hs⟩)
  · rw [if_pos hst]
    have hs : (r.tasks t).state = .running := by
      rcases hok.2 with ⟨hr, -⟩ | ⟨hst', -⟩
      · exact hr
      · exact absurd hst' hst
    convert Effs.single (hfl (.inl hst)) (Eff.endFail hpc hs) using 1
    simp [returnedTask, edit, setTask, cancelReturned, endTask, setPc, setP]

end Execute

end Veloco.Sched
