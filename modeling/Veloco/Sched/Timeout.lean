import Veloco.Sched.Sleep

/-!
# No stranded sleeper
-/

namespace Veloco.Sched

open Function Option Sched.Runtime
open Veloco.TimerHeap (Heap)

variable {r r' : Runtime} {p : PId} {t : TaskId} {tm : TimerId} {s s' : System}

variable {k : Task} {n : ℕ} {as : List Action} {a : Action}

/-! ## What ended a sleep -/

def Task.armResult (k : Task) : Option Status :=
  match k.point with
  | .leaving (.timer _) | .parked (.timer _) => some k.timerResult
  | .armTask _ result | .armP _ result => some result
  | _ => none

def Task.Answered (k : Task) : Prop :=
  ∀ result, k.armResult = some result →
    (k.state = .sleeping ∧ k.wakePending = false ∧ k.timerEvent = none) ∨
    ∃ event, k.timerEvent = some event ∧ result = event.status

def Results (r : Runtime) : Prop := ∀ t, (r.tasks t).state.terminal = false → (r.tasks t).Answered

theorem Results.update (h : Results r) (ht : r'.tasks = update r.tasks t k)
    (hk : k.state.terminal = false → k.Answered) : Results r' := by
  intro u hu
  rw [ht] at hu ⊢
  by_cases hut : u = t
  · rw [hut, update_self] at hu ⊢
    exact hk hu
  · rw [update_of_ne hut] at hu ⊢
    exact h u hu

def Task.answerFields (k : Task) : TaskState × Bool × Option TimerEvent × Option Status :=
  (k.state, k.wakePending, k.timerEvent, k.armResult)

theorem Results.same (h : Results r) (ht : r'.tasks = Function.update r.tasks t k)
    (hk : k.answerFields = (r.tasks t).answerFields) : Results r' := by
  refine h.update ht fun hlv => ?_
  simp only [Task.answerFields, Prod.mk.injEq] at hk
  obtain ⟨h1, h2, h3, h4⟩ := hk
  rw [h1] at hlv
  unfold Task.Answered
  rw [h1, h2, h3, h4]
  exact h t hlv

theorem Task.answered_of_none (h : k.armResult = none) : k.Answered := fun _ hr => by simp [h] at hr

theorem Results.wake {w : TaskId} (h : Results r)
    (hw : (r.tasks w).state.terminal = false → (r.tasks w).armResult = none ∨
      ∃ event, (r.tasks w).timerEvent = some event ∧ (r.tasks w).armResult = some event.status) :
    Results (r.wake w) := by
  intro u hu
  rw [wake_terminal] at hu
  by_cases huw : u = w
  · subst huw
    have hsm : ((r.wake u).tasks u).armResult = (r.tasks u).armResult ∧
        ((r.wake u).tasks u).timerEvent = (r.tasks u).timerEvent := by
      unfold Runtime.wake Runtime.enqueueGlobal
      split_ifs <;> simp [Task.armResult]
    intro result hr
    rw [hsm.1] at hr
    rcases hw hu with hn | ⟨event, he, hres⟩
    · simp [hn] at hr
    · refine Or.inr ⟨event, hsm.2.trans he, ?_⟩
      rw [hres] at hr
      exact (some.inj hr).symm
  · rw [wake_tasks_ne r huw]
    exact h u hu

theorem Task.Asleep.armResult_timer (h : k.Asleep (.timer tm))
    (hlv : k.state.terminal = false) : k.armResult = some k.timerResult := by
  rcases h with hc | ⟨-, -, hp | hp⟩
  · simp [hc, TaskState.terminal] at hlv
  · simp [Task.armResult, hp]
  · simp [Task.armResult, hp]

theorem Task.Asleep.armResult_none {j : Park} (h : k.Asleep j)
    (hlv : k.state.terminal = false) (hj : ∀ tm, j ≠ .timer tm) : k.armResult = none := by
  rcases h with hc | ⟨-, -, hp | hp⟩
  · simp [hc, TaskState.terminal] at hlv
  · cases j <;> simp_all [Task.armResult]
  · cases j <;> simp_all [Task.armResult]

theorem resumePoint_armResult (k : Task) (f : Option Fiber) :
    ({ k with fiber := f, point := k.resumePoint } : Task).armResult = k.armResult ∨
      ({ k with fiber := f, point := k.resumePoint } : Task).armResult = none := by
  unfold Task.resumePoint
  split
  · next tm h => exact Or.inl (by simp [Task.armResult, h])
  · exact Or.inr rfl

theorem Eff.results {l : Label} (he : Eff l r r') (hi : Inv r) (h : Results r) : Results r' := by
  cases he with
  | start _ hs _ =>
    refine h.update rfl fun _ result hr => Or.inr ?_
    obtain ⟨hsl, -⟩ | hev := h _ (by rw [hs]; rfl) result hr
    · simp [hs] at hsl
    · exact hev
  | endWoken _ hw =>
    have hst := (hi.waits _).pending hw
    refine h.update rfl fun _ result hr => Or.inr ?_
    obtain ⟨-, hp, -⟩ | hev := h _ (by rcases hst with hs | hs <;> rw [hs] <;> rfl) result hr
    · simp [hw] at hp
    · exact hev
  | @resume _ _ t f _ _ =>
    rcases resumePoint_armResult (r.tasks t) (some { f with state := .running }) with hr | hr
    · exact h.same rfl (by simp only [Task.answerFields, hr])
    · exact h.update rfl fun _ => Task.answered_of_none hr
  | @leave _ _ _ k _ hpt =>
    refine h.same rfl ?_
    cases k <;> simp [Task.answerFields, Task.armResult, hpt]
  | arm hpc hpt _ _ _ =>
    refine h.update rfl fun _ result _ => Or.inl ⟨rfl, (hi.inBody hpc hpt).2.2.2, rfl⟩
  | armFail _ hpt _ _ =>
    refine h.update rfl fun _ => Task.answered_of_none ?_
    simp [Task.armResult, hpt]
  | clearTask _ hpt => exact h.same rfl (by simp [Task.answerFields, Task.armResult, hpt])
  | @release _ q w _ _ hq =>
    have hasl := (hi.waits w).linked q (by simp [hq])
    refine Results.wake ?_ fun hlv => Or.inl ?_
    · exact h.same rfl rfl
    · rw [Runtime.setWaiters_tasks, Runtime.setTask_tasks, Function.update_self] at hlv ⊢
      exact hasl.armResult_none hlv (by simp)
  | @fire _ _ _ tm w event _ _ hw =>
    have hasl := (hi.waits w).timer tm hw
    have hres : (r.tasks w).state.terminal = false →
        ({ r.tasks w with
          timerResult := event.status
          timerEvent := some event
          causes := (r.tasks w).causes + 1 } : Task).armResult = some event.status := by
      intro hlv
      have hasleep' : ({ r.tasks w with
          timerResult := event.status
          timerEvent := some event
          causes := (r.tasks w).causes + 1 } : Task).Asleep (.timer tm) := hasl
      exact hasleep'.armResult_timer hlv
    refine Results.wake ?_ fun hlv => Or.inr ⟨event, ?_, ?_⟩
    · refine h.update rfl fun hlv result hr => Or.inr ⟨event, rfl, ?_⟩
      rw [hres hlv] at hr
      exact (Option.some.inj hr).symm
    · simp
    · rw [Runtime.setTask_tasks, Function.update_self] at hlv ⊢
      exact hres hlv
  | @completeIo _ u _ _ hio =>
    have hasl := (hi.waits u).io hio
    refine Results.wake ?_ fun hlv => Or.inl ?_
    · exact h.same rfl rfl
    · simp only [Runtime.setTask_tasks, Function.update_self] at hlv ⊢
      exact hasl.armResult_none hlv (by simp)
  | cancelHeld _ _ _ | endFail _ _ | endDone _ _ _ =>
    exact h.update rfl fun hlv => by simp [TaskState.terminal] at hlv
  | cancelTask _ _ _ _ =>
    unfold Runtime.cancelTask
    split_ifs
    · exact h
    · exact h.update rfl fun hlv => by simp [TaskState.terminal] at hlv
  | spawn _ _ | yield _ _ | parkIo _ _ | clearP _ _ | fiberYield _ _ | finish _ _ =>
    exact h.update rfl fun _ => Task.answered_of_none rfl
  | park _ _ _ => exact h.update rfl fun _ => Task.answered_of_none rfl
  | _ => first
    | exact h
    | exact h.same rfl rfl

theorem Inv.point_of_waiting (hi : Inv r)
    (hs : (r.tasks t).state = .waiting ∨ (r.tasks t).state = .sleeping) :
    ∃ j, (r.tasks t).point = .leaving j ∨ (r.tasks t).point = .parked j := by
  by_cases hex : (r.tasks t).executing = true
  · obtain ⟨q, hq, -⟩ := hi.executing hex
    have hmem : t ∈ (r.ps q).pc.tasks := by
      cases hpc : (r.ps q).pc <;> simp_all [Pc.executes, Pc.tasks]
    have hok : pcOk q (r.ps q).pc (r.tasks t) := hi.placed (.worker q) t hmem
    have hrun : (r.tasks t).state ≠ .running := by rcases hs with hs | hs <;> simp [hs]
    cases hpc : (r.ps q).pc with
    | createFiber | resume =>
      rw [hpc] at hok
      exact absurd hok.2.1 hrun
    | inTask =>
      rw [hpc] at hok
      obtain ⟨-, -, ⟨hr, -⟩ | ⟨j, hj, -⟩⟩ := hok
      · exact absurd hr hrun
      · exact ⟨j, Or.inl hj⟩
    | returned =>
      rw [hpc] at hok
      obtain ⟨-, ⟨hr, -⟩ | ⟨-, -, j, hj, -⟩⟩ := hok
      · exact absurd hr hrun
      · exact ⟨j, Or.inr hj⟩
    | _ => simp [hpc, Pc.executes] at hq
  · have hex : (r.tasks t).executing = false := by simpa using hex
    obtain ⟨j, hj, -⟩ := (hi.nowhere t (hi.absent_of_waiting hex hs)).parked hs
    exact ⟨j, Or.inr hj⟩

structure WokenBy (event : TimerEvent) (t : TaskId) (r r' : Runtime) : Prop where
  timerEvent : (r'.tasks t).timerEvent = some event
  result : (r'.tasks t).timerResult = event.status
  causes : (r'.tasks t).causes = (r.tasks t).causes + 1
  woken : (r.tasks t).executing = true ∧ (r'.tasks t).wakePending = true ∧
      (r'.tasks t).wakes = (r.tasks t).wakes ∧ (r'.tasks t).enqueues = (r.tasks t).enqueues ∨
    (r.tasks t).executing = false ∧ (r'.tasks t).state = .runnable ∧
      (r'.tasks t).wakes = (r.tasks t).wakes + 1 ∧
      (r'.tasks t).enqueues = (r.tasks t).enqueues + 1 ∧
      r'.globalRunnable = r.globalRunnable ++ [t]
  free : ∀ tm, (r'.timers tm).task ≠ some t

theorem Inv.fireTimer_wakes (hi : Inv r) (htm : (r.timers tm).task = some t)
    (hs : (r.tasks t).state = .sleeping) (g : Heap TimerId) (event : TimerEvent) :
    WokenBy event t r ((r.putHeap p g).fireTimer tm event.status event) := by
  have hasl := (hi.waits t).timer tm htm
  have hfr : ∀ tm', (update r.timers tm ⟨none, none⟩ tm').task ≠ some t := by
    intro tm' h
    by_cases hne : tm' = tm
    · simp [hne] at h
    · rw [update_of_ne hne] at h
      have := ((hi.waits t).only hasl (by simp [hs])).2.1 tm' h
      exact hne (by simpa using this.symm)
  unfold fireTimer
  have htim : (r.putHeap p g).timers = r.timers := rfl
  rw [htim, htm]
  dsimp only
  by_cases hex : (r.tasks t).executing = true
  · rw [wake_of_executing (Or.inr (by simp [putHeap, setTimer, hs]))
      (by simp [putHeap, setTimer, hex])]
    refine ⟨by simp, by simp, ?_, Or.inl ⟨hex, by simp, ?_, ?_⟩, hfr⟩ <;>
      simp [putHeap, setTimer]
  · have hex : (r.tasks t).executing = false := by simpa using hex
    have hque := hi.unqueued_of_waiting hex (Or.inr hs)
    rw [wake_of_parked (Or.inr (by simp [putHeap, setTimer, hs]))
      (by simp [putHeap, setTimer, hex])
      (by simp [putHeap, setTimer, hque])]
    refine ⟨by simp, by simp, ?_, Or.inr ⟨hex, by simp, ?_, ?_, ?_⟩, hfr⟩ <;>
      simp [putHeap, setTimer]

theorem Inv.timerCancel_wakes (hi : Inv r) (htm : r.timers tm = ⟨some t, some p⟩)
    (hact : (r.node tm).active = true) (hs : (r.tasks t).state = .sleeping) :
    (r.timerCancel tm).2 = .ok ∧ WokenBy .cancelled t r (r.timerCancel tm).1 := by
  unfold timerCancel
  rw [htm]
  simp only [hact, if_true, true_and]
  exact hi.fireTimer_wakes (by rw [htm]) hs _ .cancelled

def ArmsFresh (s : System) : Action → Prop
  | .call p (.timerArm tm _ _ _) => ∀ t, (s.rt.ps p).pc = .inTask t → s.rt.canArm t tm = true →
      ∀ u, (s.rt.tasks u).arming = some tm → (s.rt.tasks u).state.terminal = true
  | _ => True

theorem ArmsFresh.admits (s : System) (a : Action) (h : ArmsFresh s a) : s.Admits FreshArm a := by
  rintro l hl t tm rfl
  cases hl.emission with
  | arm hpc hcan => exact h t hpc hcan

theorem results_run (hnt : Initial n s)
    (hrun : Trans.run step s as = some s') : Results s'.rt := by
  refine (run_keeps_always (fun _ _ _ he h hr => he.results h.inv hr) hrun hnt.sound ?_).2
  rw [hnt.rt]
  exact fun t _ => Task.answered_of_none rfl

theorem sleepers_run (hnt : Initial n s)
    (hrun : Trans.run step s as = some s') (hfre : Trans.Meets step ArmsFresh s as) :
    Sound s'.rt ∧ Alone s'.rt ∧ Sleepers s'.rt := by
  refine run_keeps (A := FreshArm) (I := fun r => Alone r ∧ Sleepers r) (fun _ _ _ hl => by simp at hl)
    ?_ hrun (hfre.imp ArmsFresh.admits) hnt.sound ?_
  · intro l r r' ha he h hi
    exact ⟨he.alone ha h.inv hi.1, he.sleepers h.inv h.timed hi.1 hi.2⟩
  · rw [hnt.rt]
    exact ⟨fun t u tm ht => by simp [Task.arming] at ht, fun t ht => by simp at ht⟩

/-- **No stranded sleeper.** -/
theorem no_stranded_sleeper {n : ℕ} {as : List Action} (hnt : Initial n s)
    (hrun : Trans.run step s as = some s') (hfre : Trans.Meets step ArmsFresh s as) :
    (∀ t, (s'.rt.tasks t).state = .sleeping → (s'.rt.tasks t).wakePending = true ∨
      ∃ tm p, s'.rt.timers tm = ⟨some t, some p⟩ ∧ (s'.rt.node tm).active = true ∧
        tm ∈ (s'.rt.ps p).timers ∧ (∀ tm', (s'.rt.timers tm').task = some t → tm' = tm) ∧
        ((s'.rt.timerCancel tm).2 = .ok ∧ WokenBy .cancelled t s'.rt (s'.rt.timerCancel tm).1) ∧
        ∀ g, (s'.rt.heap p).pop = some (tm, g) →
          WokenBy .expired t s'.rt ((s'.rt.putHeap p g).fireTimer tm .ok .expired)) ∧
    (∀ t, (s'.rt.tasks t).state ≠ .cancelled →
      (s'.rt.tasks t).causes = (s'.rt.tasks t).wakes + (s'.rt.tasks t).wakePending.toNat) ∧
    (∀ t tm result, (s'.rt.tasks t).state.terminal = false →
      (s'.rt.tasks t).point = .armTask tm result ∨ (s'.rt.tasks t).point = .armP tm result →
      (s'.rt.tasks t).timerEvent = some .expired ∧ result = .ok ∨
      (s'.rt.tasks t).timerEvent = some .cancelled ∧ result = .cancelled) := by
  obtain ⟨hsou, -, hsle⟩ := sleepers_run hnt hrun hfre
  have hinv := hsou.inv
  refine ⟨fun t hs => ?_, fun t hc => (hinv.waits t).causes hc, fun t tm result hlv hpt => ?_⟩
  · by_cases hw : (s'.rt.tasks t).wakePending = true
    · exact Or.inl hw
    · obtain ⟨tm, p, htm, hact, hmem⟩ := hsle t hs (by simpa using hw)
      have hts : (s'.rt.timers tm).task = some t := by rw [htm]
      refine Or.inr ⟨tm, p, htm, hact, hmem, fun tm' htm' => ?_, hinv.timerCancel_wakes htm hact hs,
        fun g _ => hinv.fireTimer_wakes hts hs g .expired⟩
      have hnl := (hinv.waits t).only ((hinv.waits t).timer tm hts) (by simp [hs])
      simpa using (hnl.2.1 tm' htm').symm
  · have hres : (s'.rt.tasks t).armResult = some result := by
      rcases hpt with hpt | hpt <;> simp [Task.armResult, hpt]
    rcases results_run hnt hrun t hlv result hres with ⟨hs, -⟩ | ⟨event, hev, rfl⟩
    · obtain ⟨j, hj | hj⟩ := hinv.point_of_waiting (Or.inr hs) <;> simp [hj] at hpt
    · cases event with
      | expired => exact Or.inl ⟨hev, rfl⟩
      | cancelled => exact Or.inr ⟨hev, rfl⟩

def rearmSchedule : List Action :=
  [Action.owner .spawn, .owner .spawn, .owner .run] ++ List.replicate 8 (Action.worker 0 {}) ++
    [Action.call 0 (.timerArm 0 10 0 true)] ++ List.replicate 10 (Action.worker 0 {}) ++
    [Action.free (.timerCancel 0), .call 0 (.timerArm 0 10 0 true)] ++ List.replicate 11 (Action.worker 0 {})

/-- The second task of `rearmSchedule` sleeps, nobody has woken it, and its timer has forgotten it. -/
theorem rearmed_timer_strands : ∃ s : System,
    Trans.run step { rt := { workerCount := 1 } } rearmSchedule = some s ∧
    (s.rt.tasks 1).state = .sleeping ∧ (s.rt.tasks 1).wakePending = false ∧
    (s.rt.node 0).active = true ∧ (s.rt.timers 0).task = none ∧
    s.rt.shutdownRequested = false ∧ s.rt.stopWorkers = false ∧
    ∀ tm, (s.rt.timers tm).task ≠ some 1 := by
  have hvl : (Trans.run step { rt := { workerCount := 1 } } rearmSchedule).map (fun s =>
      ((s.rt.tasks 1).state, (s.rt.tasks 1).wakePending, (s.rt.tasks 1).point, s.rt.node 0,
        s.rt.timers 0, s.rt.shutdownRequested, s.rt.stopWorkers)) =
      some (.sleeping, false, .parked (.timer 0), ⟨10, 0, true⟩, ⟨none, some 0⟩, false, false) := by
    cbv
  obtain ⟨s, hs, heq⟩ := map_eq_some_iff.mp hvl
  simp only [Prod.mk.injEq] at heq
  obtain ⟨h1, h2, h3, h4, h5, h6, h7⟩ := heq
  refine ⟨s, hs, h1, h2, by rw [h4], by rw [h5], h6, h7, fun tm htm => ?_⟩
  have hinv := (sound_run ⟨by decide, rfl⟩ hs).inv
  obtain ⟨-, -, hin⟩ := ((hinv.waits 1).timer tm htm).resolve_left (by simp [h1])
  obtain rfl : 0 = tm := by simpa [Task.In, h3] using hin
  simp [h5] at htm

theorem admits_of_no_arm
    (ha : ∀ p tm delay now ok, a ≠ .call p (.timerArm tm delay now ok)) (s : System) :
    s.Admits (fun _ l => ∀ t tm, l ≠ .arm t tm) a := by
  rintro l hl t tm rfl
  cases hl.emission with
  | arm hpc hcan => exact ha _ _ _ _ _ rfl

theorem armsFresh_first (hnt : Initial n s)
    (has : ∀ b ∈ as, ∀ p tm delay now ok, b ≠ .call p (.timerArm tm delay now ok)) :
    Trans.Meets step ArmsFresh s (as ++ [a]) := by
  refine Trans.Meets.append (Trans.meets_of_forall (fun b hb s => ?_) s) fun t ht => ⟨?_, fun _ _ => trivial⟩
  · cases b with
    | call p c =>
      cases c with
      | timerArm tm delay now ok => exact absurd rfl (has _ hb p tm delay now ok)
      | _ => trivial
    | _ => trivial
  · have hno : ∀ u, (t.rt.tasks u).arming = none := by
      refine (run_keeps (A := fun _ l => ∀ t tm, l ≠ .arm t tm)
        (I := fun r => ∀ u, (r.tasks u).arming = none) (fun _ => by simp) ?_ ht
        (Trans.meets_of_forall (fun b hb s => admits_of_no_arm (has b hb) s) s) hnt.sound ?_).2
      · intro l r r' hl he _ hno u
        refine eq_none_iff_forall_ne_some.mpr fun tm htm => ?_
        rcases he.arms u tm htm with h | h
        · simp [hno u] at h
        · exact hl u tm h
      · rw [hnt.rt]
        exact fun _ => rfl
    cases a with
    | call p c =>
      cases c with
      | timerArm tm delay now ok => exact fun _ _ _ u hu => by simp [hno u] at hu
      | _ => trivial
    | _ => trivial

theorem no_stranded_sleeper_one_arm : ∃ s : System,
    Trans.run step { rt := { workerCount := 1 } } ([Action.owner .spawn, .owner .run] ++
      List.replicate 8 (Action.worker 0 {}) ++ [Action.call 0 (.timerArm 0 10 0 true)]) = some s ∧
    (s.rt.tasks 0).state = .sleeping ∧ (s.rt.timers 0).task = some 0 ∧
    WokenBy .cancelled 0 s.rt (s.rt.timerCancel 0).1 := by
  have hvl : (Trans.run step { rt := { workerCount := 1 } } ([Action.owner .spawn, .owner .run] ++
      List.replicate 8 (Action.worker 0 {}) ++ [Action.call 0 (.timerArm 0 10 0 true)])).map (fun s =>
        ((s.rt.tasks 0).state, (s.rt.tasks 0).wakePending, s.rt.timers 0)) =
      some (.sleeping, false, ⟨some 0, some 0⟩) := by cbv
  obtain ⟨s, hs, heq⟩ := map_eq_some_iff.mp hvl
  simp only [Prod.mk.injEq] at heq
  obtain ⟨h1, h2, h3⟩ := heq
  have hfre : Trans.Meets step ArmsFresh { rt := { workerCount := 1 } } ([Action.owner .spawn,
      .owner .run] ++ List.replicate 8 (Action.worker 0 {}) ++ [Action.call 0 (.timerArm 0 10 0 true)]) :=
    armsFresh_first (n := 1) ⟨by decide, rfl⟩ (by simp)
  refine ⟨s, hs, h1, by rw [h3], ?_⟩
  rcases (no_stranded_sleeper ⟨by decide, rfl⟩ hs hfre).1 0 h1 with h | h
  · simp [h2] at h
  · obtain ⟨tm, p, -, -, -, hnl, hcn, -⟩ := h
    obtain rfl : 0 = tm := hnl 0 (by rw [h3])
    exact hcn.2

end Veloco.Sched
