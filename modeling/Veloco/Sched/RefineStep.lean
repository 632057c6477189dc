import Veloco.Sched.RefineExec
import Veloco.Sched.Timers

/-!
# Every step of the system is a sequence of effects
-/

namespace Veloco.Sched

open List Option Sched.Runtime
open Veloco.Placement
open Veloco.TimerHeap (Heap Removed)

variable {A : Runtime → Label → Prop} {r r' : Runtime} {p : PId} {t : TaskId}

section Loops

variable (hA : ∀ r, A r .plain)

include hA

theorem effs_fireTimer {g : Heap TimerId} {tm : TimerId} (event : TimerEvent)
    (hrem : (r.heap p).Indexed → Removed (r.heap p) g tm) (hmem : tm ∈ (r.ps p).timers) :
    Effs A r ((r.putHeap p g).fireTimer tm event.status event) := by
  unfold fireTimer
  have htim : (r.putHeap p g).timers = r.timers := rfl
  rw [htim]
  cases htm : (r.timers tm).task with
  | none => exact .plain hA (.fireNone hrem hmem htm)
  | some w => exact .plain hA (.fire hrem hmem htm)

omit hA in
theorem pop_mem {h g : Heap TimerId} {tm : TimerId} (hp : h.pop = some (tm, g)) : tm ∈ h.items := by
  unfold Heap.pop at hp
  split at hp
  · simp at hp
  · next x hx =>
    obtain ⟨rfl, -⟩ : x = tm ∧ _ := by simpa using hp
    exact mem_of_getElem? hx

theorem effs_expireLoop (now n : ℕ) (r : Runtime) : Effs A r (expireLoop p now n r) := by
  induction n generalizing r with
  | zero => exact .refl r
  | succ n ih =>
    unfold expireLoop
    split
    · exact .refl r
    · split_ifs
      · split
        · exact .refl r
        · next tm g hpop =>
          refine .trans ?_ (ih _)
          exact effs_fireTimer hA .expired (fun hi => (Heap.pop_spec hi hpop).2) (pop_mem hpop)
      · exact .refl r

omit hA in
theorem fireTimer_ps (r : Runtime) (tm : TimerId) (result : Status) (event : TimerEvent) :
    (r.fireTimer tm result event).ps = r.ps := by
  unfold fireTimer
  split
  · rfl
  · exact (wake_sameRest _ _).ps

omit hA in
theorem fireTimer_workerCount (r : Runtime) (tm : TimerId) (result : Status) (event : TimerEvent) :
    (r.fireTimer tm result event).workerCount = r.workerCount := by
  unfold fireTimer
  split
  · rfl
  · exact (wake_sameRest _ _).workerCount

omit hA in
theorem expireLoop_frame (now n : ℕ) (r : Runtime) :
    ((expireLoop p now n r).ps p).pc = (r.ps p).pc ∧
      (expireLoop p now n r).workerCount = r.workerCount := by
  induction n generalizing r with
  | zero => exact ⟨rfl, rfl⟩
  | succ n ih =>
    unfold expireLoop
    split
    · exact ⟨rfl, rfl⟩
    · split_ifs
      · split
        · exact ⟨rfl, rfl⟩
        · next tm g _ =>
          obtain ⟨h1, h2⟩ := ih ((r.putHeap p g).fireTimer tm .ok .expired)
          rw [h1, h2, fireTimer_ps, fireTimer_workerCount, putHeap_pc]
          exact ⟨rfl, rfl⟩
      · exact ⟨rfl, rfl⟩

/-! ## Cancellation and fibers -/

omit hA in
theorem cancelTask_frame (r : Runtime) (u : TaskId) :
    (r.cancelTask u).ps = r.ps ∧ (r.cancelTask u).taskCount = r.taskCount ∧
      (r.cancelTask u).shutdownRequested = r.shutdownRequested ∧
      (r.cancelTask u).workerCount = r.workerCount := by
  unfold cancelTask
  split_ifs <;> exact ⟨rfl, rfl, rfl, rfl⟩

theorem effs_cancelTasks (l : List TaskId) (r : Runtime) (hl : ∀ u ∈ l, u < r.taskCount)
    (hsd : r.shutdownRequested = true ∨ (r.ps 0).pc = .stopping) :
    Effs A r (l.foldl cancelTask r) ∧ (l.foldl cancelTask r).ps = r.ps ∧
      (l.foldl cancelTask r).taskCount = r.taskCount ∧
      (l.foldl cancelTask r).workerCount = r.workerCount := by
  induction l generalizing r with
  | nil => exact ⟨Effs.refl r, rfl, rfl, rfl⟩
  | cons u l ih =>
    obtain ⟨hps, hcnt, hreq, hwor⟩ := cancelTask_frame r u
    obtain ⟨h1, h2, h3, h4⟩ := ih (r.cancelTask u)
      (fun x hx => hcnt ▸ hl x (mem_cons_of_mem _ hx)) (by rw [hps, hreq]; exact hsd)
    rw [foldl_cons]
    refine ⟨Effs.trans ?_ h1, h2.trans hps, h3.trans hcnt, h4.trans hwor⟩
    by_cases hsk : (r.tasks u).state.terminal ∨ (r.tasks u).executing
    · unfold cancelTask
      rw [if_pos hsk]
      exact .refl r
    · rw [not_or, Bool.not_eq_true, Bool.not_eq_true] at hsk
      exact .plain hA (.cancelTask (hl u mem_cons_self) hsk.2 hsk.1 hsd)

theorem effs_cancelAll (hsd : r.shutdownRequested = true ∨ (r.ps 0).pc = .stopping) :
    Effs A r r.cancelAll ∧ r.cancelAll.ps = r.ps ∧ r.cancelAll.taskCount = r.taskCount ∧
      r.cancelAll.workerCount = r.workerCount :=
  effs_cancelTasks hA _ r (fun u hu => by simpa using hu) hsd

omit hA in
theorem cancelAll_setPc (r : Runtime) (p : PId) (b : Pc) :
    r.cancelAll.setPc p b = (r.setPc p b).cancelAll := by
  have hone : ∀ (r : Runtime) (u : TaskId),
      (r.cancelTask u).setPc p b = (r.setPc p b).cancelTask u := by
    intro r u
    unfold cancelTask
    by_cases hsk : (r.tasks u).state.terminal ∨ (r.tasks u).executing
    · rw [if_pos hsk, if_pos (by exact hsk)]
    · rw [if_neg hsk, if_neg (by exact hsk)]
      rfl
  have hall : ∀ (l : List TaskId) (r : Runtime),
      (l.foldl cancelTask r).setPc p b = l.foldl cancelTask (r.setPc p b) := by
    intro l
    induction l with
    | nil => exact fun _ => rfl
    | cons u l ih =>
      intro r
      rw [foldl_cons, foldl_cons, ih, hone]
  exact hall _ r

omit hA in
theorem Inv.idle_of_lastP (h : Inv r) (hpc : (r.ps p).pc.tasks = [])
    (hls : (r.tasks t).lastP = some p) : (r.tasks t).executing = false := by
  by_contra hex
  have hex : (r.tasks t).executing = true := by simpa using hex
  obtain ⟨q, hq, hact⟩ := h.executing hex
  obtain rfl : q = p := by simpa [hact.lastP] using hls
  cases hc : (r.ps q).pc <;> simp_all [Pc.tasks, Pc.executes]

theorem effs_destroyFibers (l : List TaskId) (r : Runtime) (h : Inv r)
    (hl : ∀ u ∈ l, u < r.taskCount) (hpc : (r.ps p).pc.tasks = []) :
    Effs A r (l.foldl (fun r u => r.destroyFiber p u) r) ∧
      (l.foldl (fun r u => r.destroyFiber p u) r).ps = r.ps ∧
      (l.foldl (fun r u => r.destroyFiber p u) r).workerCount = r.workerCount := by
  induction l generalizing r with
  | nil => exact ⟨Effs.refl r, rfl, rfl⟩
  | cons u l ih =>
    rw [foldl_cons]
    have hl' : ∀ x ∈ l, x < r.taskCount := fun x hx => hl x (mem_cons_of_mem _ hx)
    by_cases hown : (r.tasks u).fiber.isSome ∧ (r.tasks u).lastP = some p
    · have hex : (r.tasks u).executing = false := h.idle_of_lastP hpc hown.2
      have he := Eff.destroyFiber (hl u mem_cons_self) hex
      have hste : r.destroyFiber p u = r.setTask u { r.tasks u with fiber := none } := by
        unfold destroyFiber
        rw [if_pos hown]
      rw [hste]
      obtain ⟨h1, h2, h3⟩ := ih _ (he.inv h) hl' hpc
      exact ⟨(Effs.plain hA he).trans h1, h2, h3⟩
    · have hste : r.destroyFiber p u = r := by
        unfold destroyFiber
        rw [if_neg hown]
      rw [hste]
      exact ih r h hl' hpc

theorem effs_destroyOwnedFibers (h : Inv r) (hpc : (r.ps p).pc.tasks = []) :
    Effs A r (r.destroyOwnedFibers p) ∧ (r.destroyOwnedFibers p).ps = r.ps ∧
      (r.destroyOwnedFibers p).workerCount = r.workerCount :=
  effs_destroyFibers hA _ r h (fun u hu => by simpa using hu) hpc

omit hA in
theorem destroyFiber_lastP (r : Runtime) (p : PId) (x u : TaskId) :
    ((r.destroyFiber p x).tasks u).lastP = (r.tasks u).lastP := by
  unfold destroyFiber
  split_ifs
  · exact update_congr Task.lastP (by rfl) u
  · rfl

omit hA in
theorem destroyFiber_fiber (r : Runtime) (p : PId) (x u : TaskId) :
    ((r.destroyFiber p x).tasks u).fiber =
      if u = x ∧ (r.tasks u).lastP = some p then none else (r.tasks u).fiber := by
  unfold destroyFiber
  by_cases hu : u = x
  · subst hu
    by_cases hls : (r.tasks u).lastP = some p
    · cases hf : (r.tasks u).fiber <;> simp [hls, hf]
    · simp [hls]
  · split_ifs <;> simp_all

omit hA in
theorem destroyFibers_fiber (l : List TaskId) (r : Runtime) (p : PId) (u : TaskId) :
    ((l.foldl (fun r u => r.destroyFiber p u) r).tasks u).lastP = (r.tasks u).lastP ∧
    ((l.foldl (fun r u => r.destroyFiber p u) r).tasks u).fiber =
      if u ∈ l ∧ (r.tasks u).lastP = some p then none else (r.tasks u).fiber := by
  induction l generalizing r with
  | nil => simp
  | cons x l ih =>
    obtain ⟨hls, hfib⟩ := ih (r.destroyFiber p x)
    rw [foldl_cons, hls, hfib, destroyFiber_lastP, destroyFiber_fiber]
    refine ⟨rfl, ?_⟩
    by_cases hp : (r.tasks u).lastP = some p
    · by_cases hx : u = x
      · subst hx
        simp [hp]
      · simp [hp, hx]
    · simp [hp]

omit hA in
theorem destroyOwnedFibers_fiber (h : Inv r) (p : PId) (u : TaskId)
    (hls : ((r.destroyOwnedFibers p).tasks u).lastP = some p) :
    ((r.destroyOwnedFibers p).tasks u).fiber = none := by
  unfold destroyOwnedFibers at hls ⊢
  obtain ⟨hsm, hfib⟩ := destroyFibers_fiber (List.range r.taskCount).reverse r p u
  rw [hsm] at hls
  rw [hfib]
  by_cases hlt : u < r.taskCount
  · simp [hlt, hls]
  · simp [h.fresh u (Nat.le_of_not_lt hlt)]

theorem effs_stopDeadlocked (r : Runtime) :
    Effs A r (if r.deadlocked then r.stopRun .invalidState else r) := by
  unfold stopRun
  split_ifs with hd hrun
  · exact .plain hA (.stop (.inr ⟨hd, rfl⟩))
  · exact .refl r
  · exact .refl r

omit hA in
theorem stopDeadlocked_setPc (r : Runtime) (p : PId) (b : Pc) :
    (if r.deadlocked then r.stopRun .invalidState else r).setPc p b =
      if (r.setPc p b).deadlocked then (r.setPc p b).stopRun .invalidState else r.setPc p b := by
  have hd : (r.setPc p b).deadlocked = r.deadlocked := by
    have hlen : ∀ q, ((r.setPc p b).ps q).runnable.length = (r.ps q).runnable.length :=
      fun q => congrArg List.length (update_congr P.runnable (by rfl) q)
    unfold deadlocked
    simp only [hlen]
    rfl
  unfold stopRun
  simp only [hd, show (r.setPc p b).running = r.running from rfl]
  split_ifs <;> rfl

theorem effs_idleBegin (hlt : p < r.workerCount) (hpc : (r.ps p).pc = .idle) :
    Effs A r (r.idleBegin p) := by
  unfold idleBegin
  by_cases hrun : r.running = false
  · rw [if_pos hrun]
    refine effs_goto hA ⟨hlt, ?_, rfl, ?_, ?_, ?_, by simp, ?_⟩
    all_goals simp [hpc, Pc.tasks, Pc.searching, Pc.outside]
  · rw [if_neg hrun]
    dsimp only
    rw [stopDeadlocked_setPc]
    refine .trans ?_ (effs_stopDeadlocked hA _)
    split_ifs with hdl
    · exact .plain hA (.idleAgain hpc hdl)
    · convert Effs.plain hA (.idleEnter hpc (by simpa using hdl)) using 1
      simp [setP, setPc]

theorem effs_idleEnd (hpc : (r.ps p).pc = .idlePoll) : Effs A r (r.idleEnd p) := by
  unfold idleEnd
  split_ifs with hdl
  · exact .plain hA (.idleLeave hpc hdl)
  · exact .plain hA (.idleSkip hpc (by simpa using hdl))

def Emits (r : Runtime) (p : PId) (l : Label) : Prop :=
  (∃ t status, (r.ps p).pc = .returned t status ∧
    (l = .woken t ∨
      l = .fail t ∧ (status ≠ .ok ∨ r.fiberDone t = false ∧ (r.tasks t).state = .running))) ∨
  (r.ps p).pc = .runEnd ∧ l = .runReturn

theorem effs_shutdownEnd (h : Inv r) (hlt : 0 < r.workerCount) (hpc : (r.ps 0).pc = .stopping) :
    Effs A r r.shutdownEnd := by
  obtain ⟨h1, hps, -, hw⟩ := effs_cancelAll hA (.inr hpc)
  have hpc1 : (r.cancelAll.ps 0).pc = .stopping := by rw [hps]; exact hpc
  obtain ⟨h2, hps2, hw2⟩ := effs_destroyOwnedFibers hA (p := 0) (h1.inv h) (by rw [hpc1]; rfl)
  have hpc2 : ((r.cancelAll.destroyOwnedFibers 0).ps 0).pc = .stopping := by rw [hps2]; exact hpc1
  refine (h1.trans h2).trans (effs_goto hA ⟨by rw [hw2, hw]; exact hlt, ?_, rfl, ?_, ?_, ?_, by simp,
    fun _ => .exit (.inr hpc2) fun u hu => destroyOwnedFibers_fiber (h1.inv h) 0 u hu⟩)
  all_goals simp [hpc2, Pc.tasks, Pc.searching, Pc.outside]

theorem effs_workerStep {e : Env} (h : Inv r) (hlt : p < r.workerCount)
    (hsp : (r.ps p).pc = .stopping → p = 0) (hE : ∀ l, Emits r p l → A r l)
    (hs : r.workerStep p e = some r') : Effs A r r' := by
  have hgo : ∀ b : Pc, (r.ps p).pc.tasks = [] → b.tasks = [] →
      (b.searching = true → (r.ps p).pc.searching = true ∨ r.running = true) →
      (b.outside = true → (r.ps p).pc.outside = true ∨ r.running = false) →
      (r.ps p).pc ≠ .idlePoll → b ≠ .idlePoll ∧ b ≠ .stopping →
      ((r.ps p).pc.outside = true ∨ b.outside = true → Outer r p b) → Effs A r (r.setPc p b) :=
    fun b h1 h2 h3 h4 h5 h6 h7 => effs_goto hA ⟨hlt, h1, h2, h3, h4, h5, h6, h7⟩
  unfold workerStep at hs
  cases hpc : (r.ps p).pc with
  | off =>
    simp only [hpc] at hs
    split_ifs at hs with hp hst hrun
    · cases hs
      obtain ⟨h1, hps, hw⟩ := effs_destroyOwnedFibers hA h (p := p) (by rw [hpc]; rfl)
      refine h1.trans (effs_goto hA ⟨by rw [hw]; exact hlt, ?_, rfl, ?_, ?_, ?_, by simp,
        fun _ => .exit (.inl ⟨hps ▸ hpc, hp⟩) fun u hu => destroyOwnedFibers_fiber h p u hu⟩)
      all_goals simp [hps, hpc, Pc.tasks, Pc.searching, Pc.outside]
    · cases hs
      refine hgo _ ?_ rfl ?_ ?_ ?_ (by simp) (fun _ => .enter hpc hp) <;>
        simp [hpc, Pc.tasks, Pc.searching, Pc.outside]
    · cases hs
      exact .refl _
  | top =>
    simp only [hpc] at hs
    split_ifs at hs with hrun hp
    · cases hs
      refine hgo _ ?_ rfl ?_ ?_ ?_ (by simp) ?_ <;> simp [hpc, hrun, Pc.tasks, Pc.outside]
    · cases hs
      refine hgo _ ?_ rfl ?_ ?_ ?_ (by simp) (fun _ => .wait hpc hp) <;>
        simp [hpc, hrun, Pc.tasks, Pc.searching]
    · cases hs
      refine hgo _ ?_ rfl ?_ ?_ ?_ (by simp) (fun _ => .home hpc hp) <;>
        simp [hpc, hrun, Pc.tasks, Pc.searching]
  | expire =>
    simp only [hpc, some.injEq] at hs
    subst hs
    obtain ⟨h1, h2⟩ := expireLoop_frame (p := p) e.now (r.ps p).timers.length r
    refine (effs_expireLoop hA e.now _ r).trans (effs_goto hA ⟨?_, ?_, rfl, ?_, ?_, ?_, by simp, ?_⟩)
    · rw [h2]
      exact hlt
    all_goals simp [h1, hpc, Pc.tasks, Pc.searching, Pc.outside]
  | pollIo =>
    simp only [hpc, some.injEq] at hs
    subst hs
    refine hgo _ ?_ rfl ?_ ?_ ?_ (by simp) ?_ <;> simp [hpc, Pc.tasks, Pc.searching, Pc.outside]
  | ownerPop =>
    simp only [hpc] at hs
    split at hs
    · next t ht =>
      cases hs
      have hne : (r.ps p).runnable ≠ [] := by
        intro he
        simp [he] at ht
      have hls : (r.ps p).runnable = (r.ps p).runnable.dropLast ++ [t] := by
        have h1 := dropLast_append_getLast hne
        have h2 : (r.ps p).runnable.getLast hne = t := by
          rw [List.getLast?_eq_some_getLast hne] at ht
          exact some.inj ht
        rw [h2] at h1
        exact h1.symm
      exact .plain hA (.ownerPop hpc hls)
    · cases hs
      refine hgo _ ?_ rfl ?_ ?_ ?_ (by simp) ?_ <;> simp [hpc, Pc.tasks, Pc.searching, Pc.outside]
  | unqueue t =>
    simp only [hpc, some.injEq] at hs
    subst hs
    exact .plain hA (.unqueue hpc)
  | takeGlobal =>
    simp only [hpc] at hs
    have htk := effs_takeGlobal hA hlt hpc
    split at hs
    · next t r₁ ht =>
      cases hs
      rwa [ht] at htk
    · next r₁ ht =>
      cases hs
      rwa [ht] at htk
  | stealNext o =>
    simp only [hpc] at hs
    split_ifs at hs <;> cases hs
    · refine hgo _ ?_ rfl ?_ ?_ ?_ (by simp) ?_ <;> simp [hpc, Pc.tasks, Pc.searching, Pc.outside]
    · refine hgo _ ?_ rfl ?_ ?_ ?_ (by simp) ?_ <;> simp [hpc, Pc.tasks, Pc.searching, Pc.outside]
  | stealBatch o items =>
    have hrs : Effs A r (r.setPc p
        (if items = [] then .stealNext (o + 1) else .stolen items)) := by
      split_ifs with hite
      · refine hgo _ ?_ rfl ?_ ?_ ?_ (by simp) ?_ <;>
          simp [hpc, hite, Pc.tasks, Pc.searching, Pc.outside]
      · exact .plain hA (.regrip (by simp [hpc, Pc.taken]) rfl (by simp [hpc, Pc.tasks]))
    simp only [hpc] at hs
    split at hs
    · next t l hv =>
      split_ifs at hs
      all_goals cases hs
      · exact .plain hA (.steal hpc hv)
      all_goals first
        | exact hrs
        | simpa [*] using hrs
    · cases hs
      exact hrs
  | stolen items =>
    simp only [hpc] at hs
    cases items with
    | nil => simp at hs
    | cons t l =>
      cases hs
      exact effs_stolen hA l r hpc
  | execute t =>
    simp only [hpc, some.injEq] at hs
    subst hs
    exact effs_executeBegin hA hpc
  | cancelled =>
    simp only [hpc, some.injEq] at hs
    subst hs
    rw [stopIfDone_setPc]
    refine .trans ?_ (effs_stopIfDone hA _)
    refine hgo _ ?_ rfl ?_ ?_ ?_ (by simp) ?_ <;> simp [hpc, Pc.tasks, Pc.searching, Pc.outside]
  | createFiber t =>
    simp only [hpc, some.injEq] at hs
    subst hs
    exact effs_createFiber hA hpc
  | resume t =>
    simp only [hpc, some.injEq] at hs
    subst hs
    exact effs_resumeFiber hA hpc
  | inTask t =>
    simp only [hpc] at hs
    exact effs_taskStep hA hpc hs
  | returned t status =>
    simp only [hpc, some.injEq] at hs
    subst hs
    exact effs_executeEnd hA h hpc (hE _ (.inl ⟨t, status, hpc, Or.inl rfl⟩))
      fun hf => hE _ (.inl ⟨t, status, hpc, Or.inr ⟨rfl, hf⟩⟩)
  | idle =>
    simp only [hpc, some.injEq] at hs
    subst hs
    exact effs_idleBegin hA hlt hpc
  | idlePoll =>
    simp only [hpc, some.injEq] at hs
    subst hs
    exact effs_idleEnd hA hpc
  | runWait =>
    simp only [hpc] at hs
    split_ifs at hs with hct
    cases hs
    refine hgo _ ?_ rfl ?_ ?_ ?_ (by simp) (fun _ => .waited hpc hct) <;>
      simp [hpc, Pc.tasks, Pc.searching, Pc.outside]
  | runEnd =>
    simp only [hpc, some.injEq] at hs
    subst hs
    have hret := Effs.single (hE _ (Or.inr ⟨hpc, rfl⟩)) (Eff.runReturn hpc)
    split_ifs with hsd
    · rw [cancelAll_setPc]
      exact hret.trans (effs_cancelAll (r := r.setPc p .off) hA (.inl hsd)).1
    · exact hret
  | stopping =>
    obtain rfl := hsp hpc
    simp only [hpc] at hs
    split_ifs at hs
    cases hs
    exact effs_shutdownEnd hA h hlt hpc
  | exited => simp [hpc] at hs

end Loops

end Veloco.Sched
