import Veloco.Sched.KeepCalls

/-!
# Every step of a worker is a sequence of effects
-/

namespace Veloco.Sched

open Sched.Runtime
open Veloco.Placement

variable {A : Runtime → Label → Prop} {r r' : Runtime} {p : PId} {t : TaskId}

theorem Effs.inv (hs : Effs A r r') (h : Inv r) : Inv r' := by
  induction hs with
  | refl => exact h
  | tail _ he ih =>
    obtain ⟨l, -, he⟩ := he
    exact he.inv ih

theorem Effs.single {l : Label} (ha : A r l) (he : Eff l r r') : Effs A r r' :=
  Relation.ReflTransGen.single ⟨l, ha, he⟩

theorem Effs.refl (r : Runtime) : Effs A r r := Relation.ReflTransGen.refl

theorem Effs.trans {r'' : Runtime} (h₁ : Effs A r r') (h₂ : Effs A r' r'') : Effs A r r'' :=
  Relation.ReflTransGen.trans h₁ h₂

namespace Runtime

theorem setPc_setPc (r : Runtime) (p : PId) (a b : Pc) : (r.setPc p a).setPc p b = r.setPc p b := by
  simp [setPc, setP]

def setQueues (r : Runtime) (p : PId) (queue deque : List TaskId) : Runtime :=
  { r.setP p { r.ps p with runnable := deque } with globalRunnable := queue }

theorem setQueues_self (r : Runtime) (p : PId) :
    r.setQueues p r.globalRunnable (r.ps p).runnable = r := by
  simp [setQueues, setP]

theorem setQueues_setQueues (r : Runtime) (p : PId) (g d g' d' : List TaskId) :
    (r.setQueues p g d).setQueues p g' d' = r.setQueues p g' d' := by
  simp [setQueues, setP]

end Runtime

section Search

variable (hA : ∀ r, A r .plain)

include hA

theorem Effs.plain (he : Eff .plain r r') : Effs A r r' := .single (hA r) he

theorem effs_pullFirst (eligible : TaskId → Bool) (n : ℕ) (r : Runtime) :
    match pullFirst eligible n r.globalRunnable with
    | (some t, queue) => eligible t = true ∧ Effs A r { r with globalRunnable := t :: queue }
    | (none, queue) => Effs A r { r with globalRunnable := queue } := by
  induction n generalizing r with
  | zero => exact .refl r
  | succ n ih =>
    cases hq : r.globalRunnable with
    | nil =>
      simp only [pullFirst]
      rw [← hq]
      exact .refl r
    | cons t queue =>
      unfold pullFirst
      split_ifs with he
      · refine ⟨he, ?_⟩
        rw [← hq]
        exact .refl r
      · have hst : Effs A r { r with globalRunnable := queue ++ [t] } :=
          Effs.plain hA (.rotate hq)
        have := ih { r with globalRunnable := queue ++ [t] }
        dsimp only at this ⊢
        split at this
        · exact ⟨this.1, hst.trans this.2⟩
        · exact hst.trans this

theorem effs_pullExtra {hasFiber : TaskId → Bool} (p : PId) (n m : ℕ) (r : Runtime)
    (hlt : p < r.workerCount) (hf : ∀ u, hasFiber u = (r.tasks u).fiber.isSome) :
    Effs A r (r.setQueues p (pullExtra hasFiber n m r.globalRunnable (r.ps p).runnable).1
      (pullExtra hasFiber n m r.globalRunnable (r.ps p).runnable).2) := by
  induction n generalizing m r with
  | zero =>
    rw [pullExtra, setQueues_self]
    exact .refl r
  | succ n ih =>
    cases hq : r.globalRunnable with
    | nil =>
      rw [pullExtra, ← hq, setQueues_self]
      exact .refl r
    | cons t queue =>
      have hrot : Eff .plain r (r.setQueues p (queue ++ [t]) (r.ps p).runnable) := by
        have := Eff.rotate hq
        simpa [setQueues, setP] using this
      rw [pullExtra]
      split_ifs with hm hfib hlen
      · have := ih m (r.setQueues p (queue ++ [t]) (r.ps p).runnable) hlt hf
        rw [setQueues_setQueues] at this
        refine (Effs.plain hA hrot).trans ?_
        simpa [setQueues] using this
      · have hfib : (r.tasks t).fiber = none := by simpa [hf] using hfib
        have hst : Eff .plain r (r.setQueues p queue ((r.ps p).runnable ++ [t])) :=
          Eff.localize hlt hq hfib
        have := ih (m + 1) (r.setQueues p queue ((r.ps p).runnable ++ [t])) hlt hf
        rw [setQueues_setQueues] at this
        refine (Effs.plain hA hst).trans ?_
        simpa [setQueues] using this
      · exact .plain hA hrot
      · rw [← hq, setQueues_self]
        exact .refl r

theorem effs_takeGlobal (hlt : p < r.workerCount) (hpc : (r.ps p).pc = .takeGlobal) :
    Effs A r ((r.takeGlobal p).2.setPc p
      (match (r.takeGlobal p).1 with | some t => .execute t | none => .stealNext 1)) := by
  set hasFiber : TaskId → Bool := fun t => (r.tasks t).fiber.isSome with hhf
  have hfir := effs_pullFirst hA
    (fun t => !hasFiber t || (r.tasks t).lastP = some p) r.globalRunnable.length r
  -- the batch loop, or nothing with a single worker
  have hext : ∀ (r₁ : Runtime) (m : ℕ), p < r₁.workerCount →
      (∀ u, hasFiber u = (r₁.tasks u).fiber.isSome) →
      Effs A r₁ (r₁.setQueues p
        (if r.workerCount > 1 then pullExtra hasFiber r₁.globalRunnable.length m r₁.globalRunnable
          (r₁.ps p).runnable else (r₁.globalRunnable, (r₁.ps p).runnable)).1
        (if r.workerCount > 1 then pullExtra hasFiber r₁.globalRunnable.length m r₁.globalRunnable
          (r₁.ps p).runnable else (r₁.globalRunnable, (r₁.ps p).runnable)).2) := by
    intro r₁ m hp hf
    split_ifs
    · exact effs_pullExtra hA p _ m r₁ hp hf
    · rw [setQueues_self]
      exact .refl r₁
  unfold takeGlobal
  dsimp only
  split at hfir
  · next t queue heq =>
    obtain ⟨helig, hrot⟩ := hfir
    rw [heq]
    have hpull : Eff .plain { r with globalRunnable := t :: queue }
        { (r.setTask t { r.tasks t with queued := false }).setPc p (.execute t) with
          globalRunnable := queue } :=
      Eff.pull (r := { r with globalRunnable := t :: queue }) hpc rfl (by simpa [hasFiber] using helig)
    refine hrot.trans ((Effs.plain hA hpull).trans ?_)
    have := hext { (r.setTask t { r.tasks t with queued := false }).setPc p (.execute t) with
      globalRunnable := queue } 1 hlt (by
        intro u
        by_cases hu : u = t <;> simp [hasFiber, setPc, setP, hu])
    simpa [setQueues, setPc, setP, setTask] using this
  · next queue heq =>
    rw [heq]
    refine hfir.trans ((hext { r with globalRunnable := queue } 0 hlt (fun _ => rfl)).trans ?_)
    refine .plain hA (.goto ⟨hlt, ?_, rfl, ?_, ?_, ?_, by simp, ?_⟩)
    all_goals simp [setQueues, hpc, Pc.tasks, Pc.searching, Pc.outside]

omit hA in
theorem keepStolen_setPc (r : Runtime) (p : PId) (b : Pc) (l : List TaskId) :
    (r.setPc p b).keepStolen p l = (r.keepStolen p l).setPc p b := by
  induction l generalizing r with
  | nil => rfl
  | cons x l ih =>
    have hpush : ((r.setPc p b).ownerPush p x).getD ((r.setPc p b).pushGlobal x) =
        ((r.ownerPush p x).getD (r.pushGlobal x)).setPc p b := by
      unfold ownerPush
      by_cases hlen : (r.ps p).runnable.length < runQueueCapacity <;>
        simp [hlen, setPc, setP, pushGlobal]
    simp only [keepStolen, List.foldl_cons] at ih ⊢
    rw [hpush, ih]

theorem effs_stolen {u : TaskId} (l : List TaskId) (r : Runtime)
    (hpc : (r.ps p).pc = .stolen (u :: l)) :
    Effs A r ((r.keepStolen p l).setPc p (.unqueue u)) := by
  induction l generalizing r with
  | nil =>
    refine .plain hA (.regrip (by simp [hpc, Pc.taken]) rfl ?_)
    simp [hpc, Pc.tasks]
  | cons x l ih =>
    simp only [keepStolen, List.foldl_cons] at ih ⊢
    unfold ownerPush
    split_ifs with hlen
    · refine (Effs.plain hA (.keepLocal hpc)).trans ?_
      have := ih _ (show ((r.setP p { r.ps p with
        runnable := (r.ps p).runnable ++ [x], pc := .stolen (u :: l) }).ps p).pc = _ by simp)
      have hcomm := keepStolen_setPc
        (r.setP p { r.ps p with runnable := (r.ps p).runnable ++ [x] }) p (.stolen (u :: l)) l
      simp only [keepStolen] at hcomm
      have heq : r.setP p { r.ps p with
          runnable := (r.ps p).runnable ++ [x], pc := .stolen (u :: l) } =
          (r.setP p { r.ps p with runnable := (r.ps p).runnable ++ [x] }).setPc p
            (.stolen (u :: l)) := by simp [setP, setPc]
      rw [heq, hcomm, setPc_setPc] at this
      rw [heq]
      exact this
    · refine (Effs.plain hA (.keepGlobal hpc)).trans ?_
      have := ih ((r.pushGlobal x).setPc p (.stolen (u :: l))) (by simp)
      have hcomm := keepStolen_setPc (r.pushGlobal x) p (.stolen (u :: l)) l
      simp only [keepStolen] at hcomm
      rw [hcomm, setPc_setPc] at this
      exact this

theorem effs_goto {b : Pc} (hg : Goto r p b) : Effs A r (r.setPc p b) := .plain hA (.goto hg)

theorem effs_stopIfDone (r : Runtime) : Effs A r r.stopIfDone := by
  unfold stopIfDone stopRun
  split_ifs with hlive
  · exact .plain hA (.stop (.inl ⟨hlive, rfl⟩))
  · exact .refl r
  · exact .refl r

omit hA in
theorem stopIfDone_setPc (r : Runtime) (p : PId) (b : Pc) :
    r.stopIfDone.setPc p b = (r.setPc p b).stopIfDone := by
  unfold stopIfDone stopRun
  simp only [show (r.setPc p b).liveTasks = r.liveTasks from rfl,
    show (r.setPc p b).running = r.running from rfl]
  split_ifs <;> rfl

end Search

end Veloco.Sched
