import Veloco.Sched.Wakeup

/-!
# A join does not outlive its target
-/

namespace Veloco.Sched

open Function List Option Sched.Runtime

variable {r r' : Runtime} {p : PId} {t : TaskId} {s s' : System}

variable {w u : TaskId} {n : ℕ} {as : List Action}

def NoJoinerFails (r : Runtime) (l : Label) : Prop := ∀ t, l = .fail t → r.waiters (.joiners t) = []

structure Joined (r : Runtime) : Prop where
  stopping : (r.ps 0).pc = .stopping → r.stopWorkers = true
  ended : r.shutdownRequested = false → r.stopWorkers = false →
    ∀ t, (r.tasks t).state.terminal = true → r.waiters (.joiners t) = []

theorem Joined.stay (h : Joined r) (hpc : (r'.ps 0).pc = .stopping → (r.ps 0).pc = .stopping)
    (hsd : r'.shutdownRequested = r.shutdownRequested) (hsp : r'.stopWorkers = r.stopWorkers)
    (hw : ∀ u, (r'.tasks u).state.terminal = true → r.waiters (.joiners u) = [] →
      r'.waiters (.joiners u) = [])
    (ht : ∀ u, (r'.tasks u).state.terminal = true → (r.tasks u).state.terminal = true ∨
      r.shutdownRequested = true ∨ r.stopWorkers = true ∨ r.waiters (.joiners u) = []) :
    Joined r' where
  stopping hs := hsp.trans (h.stopping (hpc hs))
  ended h1 h2 u hu' := by
    rw [hsd] at h1
    rw [hsp] at h2
    rcases ht u hu' with hu | hu | hu | hu
    · exact hw u hu' (h.ended h1 h2 u hu)
    · simp [h1] at hu
    · simp [h2] at hu
    · exact hw u hu' hu

theorem terminal_of_update {k : Task} (ht : r'.tasks = update r.tasks t k)
    (hk : k.state.terminal = true → (r.tasks t).state.terminal = true ∨ r.shutdownRequested = true ∨
      r.stopWorkers = true ∨ r.waiters (.joiners t) = []) (u : TaskId)
    (hu : (r'.tasks u).state.terminal = true) :
    (r.tasks u).state.terminal = true ∨ r.shutdownRequested = true ∨ r.stopWorkers = true ∨
      r.waiters (.joiners u) = [] := by
  rw [ht] at hu
  by_cases hut : u = t
  · subst hut
    rw [update_self] at hu
    exact hk hu
  · rw [update_of_ne hut] at hu
    exact .inl hu

theorem not_stopping_of_update {x : P} (hps : r'.ps = update r.ps p x)
    (hx : x.pc ≠ .stopping ∨ x.pc = (r.ps p).pc) (hs : (r'.ps 0).pc = .stopping) :
    (r.ps 0).pc = .stopping := by
  rw [hps] at hs
  by_cases hp : 0 = p
  · rw [← hp, update_self] at hs
    rcases hx with hx | hx
    · exact absurd hs hx
    · rw [hp, ← hx, hs]
  · rwa [update_of_ne hp] at hs

theorem Joined.wake (h : Joined r) : Joined (r.wake w) := by
  have hw := r.wake_sameRest w
  exact h.stay (fun hs => hw.ps ▸ hs) hw.shutdownRequested hw.stopWorkers
    (fun u _ hu => by rw [hw.waiters]; exact hu)
    fun u hu => .inl (r.wake_terminal w u ▸ hu)

theorem Eff.joined {l : Label} (he : Eff l r r') (ha : NoJoinerFails r l) (h : Joined r) :
    Joined r' := by
  cases he with
  | goto hg =>
    exact h.stay (not_stopping_of_update rfl (.inl hg.to_plain.2)) rfl rfl (fun _ _ => id)
      fun _ => .inl
  | steal _ _ =>
    have hv : ∀ v l, Joined (r.setP v { r.ps v with runnable := l }) := fun v l =>
      h.stay (not_stopping_of_update rfl (.inr (by rfl))) rfl rfl (fun _ _ => id) fun _ => .inl
    exact (hv _ _).stay (not_stopping_of_update rfl (.inl (by simp))) rfl rfl (fun _ _ => id)
      fun _ => .inl
  | @regrip _ _ b _ hto _ =>
    refine h.stay (not_stopping_of_update rfl (.inl fun hb => ?_)) rfl rfl (fun _ _ => id)
      fun _ => .inl
    have hb : b = .stopping := hb
    simp [hb, Pc.taken] at hto
  | cancelHeld _ _ hsd =>
    exact h.stay (not_stopping_of_update rfl (.inl (by simp))) rfl rfl (fun _ _ => id)
      (terminal_of_update rfl fun _ => .inr (.inl hsd))
  | endFail _ _ =>
    exact h.stay (not_stopping_of_update rfl (.inl (by simp))) rfl rfl (fun _ _ => id)
      (terminal_of_update rfl fun _ => .inr (.inr (.inr (ha _ rfl))))
  | endDone _ _ hj =>
    exact h.stay (not_stopping_of_update rfl (.inl (by simp))) rfl rfl (fun _ _ => id)
      (terminal_of_update rfl fun _ => .inr (.inr (.inr hj)))
  | cancelTask _ _ _ hsd =>
    unfold Runtime.cancelTask
    split_ifs
    · exact h
    · exact h.stay id rfl rfl (fun _ _ => id)
        (terminal_of_update rfl fun _ => .inr (hsd.imp id fun hs => .inl (h.stopping hs)))
  | @park _ _ t q _ _ _ hq =>
    refine h.stay id rfl rfl (fun u hu hnil => ?_)
      (terminal_of_update rfl (by simp [TaskState.terminal]))
    have hne : WaitQueue.joiners u ≠ q := by
      rintro rfl
      have hlv := hq u rfl
      by_cases hut : u = t
      · simp [Runtime.waitPush, hut, TaskState.terminal] at hu
      · simp [Runtime.waitPush, hut, hlv] at hu
    exact (Function.update_of_ne hne _ _).trans hnil
  | @release _ q w l _ hq =>
    refine Joined.wake ?_
    refine h.stay id rfl rfl (fun u _ hnil => ?_) (terminal_of_update rfl Or.inl)
    have hne : WaitQueue.joiners u ≠ q := by
      rintro rfl
      simp [hq] at hnil
    exact (Function.update_of_ne hne _ _).trans hnil
  | fire _ _ _ =>
    refine Joined.wake ?_
    exact h.stay (not_stopping_of_update rfl (.inr (by rfl))) rfl rfl (fun _ _ => id)
      (terminal_of_update rfl Or.inl)
  | completeIo _ _ =>
    refine Joined.wake ?_
    exact h.stay id rfl rfl (fun _ _ => id) (terminal_of_update rfl Or.inl)
  | stop _ => exact ⟨h.stopping, h.ended⟩
  | requestShutdown => exact ⟨h.stopping, fun h1 => by simp [Runtime.requestShutdown] at h1⟩
  | shutdownBegin _ => exact ⟨fun _ => rfl, fun _ h2 => by simp [Runtime.shutdownBegin] at h2⟩
  | fireNone _ _ _ | localize _ _ _ =>
    exact h.stay (not_stopping_of_update rfl (.inr (by rfl))) rfl rfl (fun _ _ => id) fun _ => .inl
  | arm _ _ _ _ _ =>
    exact h.stay (not_stopping_of_update rfl (.inr (by rfl))) rfl rfl (fun _ _ => id)
      (terminal_of_update rfl (by simp [TaskState.terminal]))
  | rotate _ => exact h.stay id rfl rfl (fun _ _ => id) fun _ => .inl
  | _ => first
    | exact h
    | exact h.stay id rfl rfl (fun _ _ => id) (terminal_of_update rfl Or.inl)
    | exact h.stay id rfl rfl (fun _ _ => id) (terminal_of_update rfl (by simp [TaskState.terminal]))
    | exact h.stay (not_stopping_of_update rfl (.inl (by simp))) rfl rfl (fun _ _ => id)
        fun _ => .inl
    | exact h.stay (not_stopping_of_update rfl (.inl (by simp))) rfl rfl (fun _ _ => id)
        (terminal_of_update rfl Or.inl)
    | exact h.stay (not_stopping_of_update rfl (.inl (by simp))) rfl rfl (fun _ _ => id)
        (terminal_of_update rfl (by simp [TaskState.terminal]))

def Moved (r r' : Runtime) (w : TaskId) : Prop :=
  ((r.tasks w).executing = true ∧ (r'.tasks w).wakePending = true) ∨
  ((r.tasks w).executing = false ∧ (r'.tasks w).state = .runnable ∧ w ∈ r'.globalRunnable)

theorem releaseJoiner_moved (hs : (r.tasks w).state = .waiting)
    (hq : (r.tasks w).executing = false → (r.tasks w).queued = false) :
    Moved r (r.releaseJoiner w) w := by
  unfold releaseJoiner
  by_cases hex : (r.tasks w).executing = true
  · rw [wake_of_executing (.inl (by simp [hs])) (by simp [hex])]
    exact .inl ⟨hex, by simp⟩
  · have hex : (r.tasks w).executing = false := by simpa using hex
    rw [wake_of_parked (.inl (by simp [hs])) (by simp [hex]) (by simp [hq hex])]
    exact .inr ⟨hex, by simp, by simp⟩

theorem releaseJoiner_global (hu : u ∈ r.globalRunnable) :
    u ∈ (r.releaseJoiner w).globalRunnable := by
  unfold releaseJoiner wake enqueueGlobal
  split_ifs <;> simp [hu]

theorem foldl_releaseJoiner_global (l : List TaskId) (r : Runtime)
    (hu : u ∈ r.globalRunnable) : u ∈ (l.foldl releaseJoiner r).globalRunnable := by
  induction l generalizing r with
  | nil => exact hu
  | cons w l ih => exact ih _ (releaseJoiner_global hu)

theorem foldl_releaseJoiner_moved (l : List TaskId) (r : Runtime) (hl : l.Nodup)
    (hw : w ∈ l) (hs : (r.tasks w).state = .waiting)
    (hq : (r.tasks w).executing = false → (r.tasks w).queued = false) :
    Moved r (l.foldl releaseJoiner r) w := by
  induction l generalizing r with
  | nil => simp at hw
  | cons x l ih =>
    rw [nodup_cons] at hl
    rw [foldl_cons]
    by_cases hx : w = x
    · subst hx
      have hsm := (foldl_releaseJoiner_rest l (r.releaseJoiner w)).2 w hl.1
      rcases releaseJoiner_moved hs hq with ⟨hex, hp⟩ | ⟨hex, hr, hg⟩
      · exact .inl ⟨hex, by rw [hsm, hp]⟩
      · exact .inr ⟨hex, by rw [hsm, hr], foldl_releaseJoiner_global l _ hg⟩
    · have hsm : (r.releaseJoiner x).tasks w = r.tasks w := by
        rw [releaseJoiner, wake_tasks_ne _ hx]
        simp [hx]
      have hmov := ih (r.releaseJoiner x) hl.2 ((mem_cons.mp hw).resolve_left hx)
        (by rw [hsm, hs]) (by rw [hsm]; exact hq)
      unfold Moved at hmov
      rwa [hsm] at hmov

theorem enqueueLocal_state (r : Runtime) (p : PId) (t : TaskId) :
    ((r.enqueueLocal p t).tasks t).state = (r.tasks t).state := by
  unfold enqueueLocal
  split_ifs
  · rfl
  · simp
  · dsimp only
    unfold ownerPush
    split_ifs <;> simp

theorem settleReturned_terminal (h : ((r.settleReturned p t).tasks t).state.terminal = true) :
    (r.tasks t).state = .running ∨ (r.tasks t).state.terminal = true := by
  unfold settleReturned at h
  dsimp only at h
  by_cases hw : (r.tasks t).wakePending = true ∧
      ((r.tasks t).state = .waiting ∨ (r.tasks t).state = .sleeping)
  · simp [hw, enqueueLocal_state, TaskState.terminal] at h
  · rw [if_neg hw] at h
    cases hs : (r.tasks t).state with
    | running => exact .inl rfl
    | runnable => simp [hs, enqueueLocal_state, TaskState.terminal] at h
    | _ => simpa [hs] using h

theorem Inv.executeEnd_moves {status : Status} (h : Inv r) (hpc : (r.ps p).pc = .returned t status)
    (hfl : (status ≠ .ok ∨ r.fiberDone t = false ∧ (r.tasks t).state = .running) →
      r.waiters (.joiners t) = [])
    (hend : ((r.executeEnd p t status).tasks t).state.terminal = true)
    (hw : w ∈ r.waiters (.joiners t)) (hs : (r.tasks w).state = .waiting) :
    Moved r (r.executeEnd p t status) w := by
  have hno : ¬ (status ≠ .ok ∨ r.fiberDone t = false ∧ (r.tasks t).state = .running) := fun hf => by
    simp [hfl hf] at hw
  simp only [not_or, not_not, not_and] at hno
  obtain ⟨rfl, hno⟩ := hno
  have hts := returnedTask_tasks r t
  have hlv : (r.tasks t).state.terminal = false :=
    (mem_live.mp (h.live_of_hands (p := p) (by simp [hpc, Pc.tasks])
      (by simp [hpc, Pc.searching]))).2
  rw [executeEnd_eq, if_neg (by simp), returnedTask_fiberDone] at hend ⊢
  by_cases hd : r.fiberDone t = true
  · have hsl : t ∉ r.waiters (.joiners t) := by
      rcases (h.returned hpc).2 with ⟨hr, -⟩ | ⟨-, ⟨f, hf, hss⟩, -⟩
      · exact ((h.waits t).unlinked (by simp [hr]) (by simp [hr]) (by simp [hr])).1 _
      · simp [fiberDone, hf, hss] at hd
    have hne : w ≠ t := fun he => hsl (he ▸ hw)
    rw [if_pos hd]
    have hmov := foldl_releaseJoiner_moved _ (r.setWaiters (.joiners t) [])
      (h.queues.nodup (.joiners t)) hw hs (fun hex => h.unqueued_of_waiting hex (.inl hs))
    unfold Moved at hmov ⊢
    rw [setPc_tasks, setPc_globalRunnable, (stopIfDone_frame _).1, (stopIfDone_frame _).2]
    unfold returnedTask
    rw [completeReturned_eq hsl]
    simpa [edit, hne] using hmov
  · rw [if_neg hd, setPc_tasks, (stopIfDone_frame _).1] at hend
    rcases settleReturned_terminal hend with hr | ht
    · rw [hts] at hr
      exact absurd hr (hno (by simpa using hd))
    · rw [hts, hlv] at ht
      simp at ht

def FailsAlone (s : System) : Action → Prop
  | .worker p _ => ∀ t status, (s.rt.ps p).pc = .returned t status →
      (status ≠ .ok ∨ s.rt.fiberDone t = false ∧ (s.rt.tasks t).state = .running) →
      s.rt.waiters (.joiners t) = []
  | _ => True

theorem FailsAlone.admits (s : System) (a : Action) (h : FailsAlone s a) :
    s.Admits NoJoinerFails a := by
  rintro l hl t rfl
  cases hl.emission with
  | fail hpc hf => exact h t _ hpc hf

theorem joined_run (hnt : Initial n s)
    (hrun : Trans.run step s as = some s') (hfai : Trans.Meets step FailsAlone s as) :
    Sound s'.rt ∧ Joined s'.rt := by
  refine run_keeps (A := NoJoinerFails) (fun _ _ hl => by simp at hl)
    (fun l r r' ha he _ hj => he.joined ha hj) hrun (hfai.imp FailsAlone.admits) hnt.sound ?_
  rw [hnt.rt]
  exact ⟨by simp, fun _ _ _ _ => rfl⟩

theorem execute_ends {e : Env} (hs : step s (.worker p e) = some s')
    (hpc : (s.rt.ps p).pc = .execute t) (hlv : (s.rt.tasks t).state.terminal = false)
    (hend : (s'.rt.tasks t).state.terminal = true) : s.rt.shutdownRequested = true := by
  simp only [step] at hs
  split_ifs at hs
  obtain ⟨r', hr, rfl⟩ := map_eq_some_iff.mp hs
  unfold workerStep at hr
  simp only [hpc, some.injEq] at hr
  subst hr
  unfold executeBegin at hend
  split_ifs at hend with h1 h2
  · simp [hlv] at hend
  · exact h2
  · simp [TaskState.terminal] at hend

/-- **A join ends with its target.** -/
theorem join_ends_with_target {n : ℕ} {as : List Action} (hnt : Initial n s)
    (hrun : Trans.run step s as = some s') (hfai : Trans.Meets step FailsAlone s as) :
    (s'.rt.shutdownRequested = false → s'.rt.stopWorkers = false → ∀ t target,
      (s'.rt.tasks t).state = .waiting → (s'.rt.tasks t).In (.wait (.joiners target)) →
      (s'.rt.tasks target).state.terminal = true → (s'.rt.tasks t).wakePending = true) ∧
    (∀ p e target s'', FailsAlone s' (.worker p e) → step s' (.worker p e) = some s'' →
      (s'.rt.tasks target).state.terminal = false →
      (s''.rt.tasks target).state.terminal = true →
      ((∃ status, (s'.rt.ps p).pc = .returned target status) →
        ∀ w ∈ s'.rt.waiters (.joiners target), (s'.rt.tasks w).state = .waiting →
          Moved s'.rt s''.rt w) ∧
      ((s'.rt.ps p).pc = .execute target → s'.rt.shutdownRequested = true)) := by
  obtain ⟨hsou, hjoi⟩ := joined_run hnt hrun hfai
  refine ⟨fun hsd hsp t target hs hin ht => ?_, fun p e target s'' hf hst hlv hend => ⟨?_, ?_⟩⟩
  · rcases hsou.inv.linked_or_pending hs hin with ⟨-, hcnt, -⟩ | ⟨hp, -⟩
    · simp [hjoi.ended hsd hsp target ht] at hcnt
    · exact hp
  · rintro ⟨status, hpc⟩ w hw hs
    simp only [step] at hst
    split_ifs at hst
    obtain ⟨r', hr, rfl⟩ := map_eq_some_iff.mp hst
    unfold workerStep at hr
    simp only [hpc, some.injEq] at hr
    subst hr
    exact hsou.inv.executeEnd_moves hpc (hf target status hpc) hend hw hs
  · exact fun hpc => execute_ends hst hpc hlv hend

def failedFiberSchedule : List Action :=
  [Action.owner .spawn, .owner .spawn, .owner .run] ++ List.replicate 8 (Action.worker 0 {}) ++
    [Action.call 0 (.join 1)] ++ List.replicate 8 (Action.worker 0 {}) ++
    [Action.worker 0 { fiberOk := false }, .worker 0 {}]

/-- In `failedFiberSchedule` the target of the join is cancelled, no shutdown has been requested, and
the joiner waits with no wake pending. -/
theorem failed_fiber_strands_joiner : ∃ s : System,
    Trans.run step { rt := { workerCount := 1 } } failedFiberSchedule = some s ∧
    (s.rt.tasks 1).state = .cancelled ∧ (s.rt.tasks 0).state = .waiting ∧
    (s.rt.tasks 0).In (.wait (.joiners 1)) ∧ (s.rt.tasks 0).wakePending = false ∧
    s.rt.waiters (.joiners 1) = [0] ∧ s.rt.shutdownRequested = false ∧ s.rt.stopWorkers = false := by
  have hvl : (Trans.run step { rt := { workerCount := 1 } } failedFiberSchedule).map (fun s =>
      ((s.rt.tasks 1).state, (s.rt.tasks 0).state, (s.rt.tasks 0).point, (s.rt.tasks 0).wakePending,
        s.rt.waiters (.joiners 1), s.rt.shutdownRequested, s.rt.stopWorkers)) =
      some (.cancelled, .waiting, .parked (.wait (.joiners 1)), false, [0], false, false) := by rfl
  obtain ⟨s, hs, heq⟩ := map_eq_some_iff.mp hvl
  simp only [Prod.mk.injEq] at heq
  obtain ⟨h1, h2, h3, h4, h5, h6, h7⟩ := heq
  exact ⟨s, hs, h1, h2, Or.inr h3, h4, h5, h6, h7⟩

def failsAlone (s : System) : Action → Bool
  | .worker p _ =>
    match (s.rt.ps p).pc with
    | .returned t status =>
      (status = .ok && (s.rt.fiberDone t || (s.rt.tasks t).state ≠ .running)) ||
        s.rt.waiters (.joiners t) = []
    | _ => true
  | _ => true

theorem failsAlone_sound (s : System) (a : Action) (h : failsAlone s a = true) : FailsAlone s a := by
  cases a with
  | worker p e =>
    intro t status hpc hf
    simp only [failsAlone, hpc, Bool.or_eq_true, Bool.and_eq_true, decide_eq_true_eq] at h
    rcases h with ⟨rfl, hd | hr⟩ | h
    · simp [hd] at hf
    · simp [hr] at hf
    · exact h
  | _ => trivial

theorem join_ends_with_target_return : ∃ s s' : System,
    Trans.run step { rt := { workerCount := 1 } } ([Action.owner .spawn, .owner .spawn, .owner .run] ++
      List.replicate 8 (Action.worker 0 {}) ++ [Action.call 0 (.join 1)] ++ List.replicate 10 (Action.worker 0 {}) ++
      [Action.call 0 .finish]) = some s ∧
    s.rt.waiters (.joiners 1) = [0] ∧ step s (.worker 0 {}) = some s' ∧
    (s'.rt.tasks 1).state = .done ∧ Moved s.rt s'.rt 0 := by
  have hmee : Trans.Meets step FailsAlone { rt := { workerCount := 1 } } ([Action.owner .spawn,
      .owner .spawn, .owner .run] ++ List.replicate 8 (Action.worker 0 {}) ++ [Action.call 0 (.join 1)] ++
      List.replicate 10 (Action.worker 0 {}) ++ [Action.call 0 .finish]) :=
    Trans.meets_of_checks failsAlone_sound (by rfl)
  have hvl : ((Trans.run step { rt := { workerCount := 1 } } ([Action.owner .spawn, .owner .spawn,
      .owner .run] ++ List.replicate 8 (Action.worker 0 {}) ++ [Action.call 0 (.join 1)] ++
      List.replicate 10 (Action.worker 0 {}) ++ [Action.call 0 .finish])).map fun s =>
        (s.rt.waiters (.joiners 1), (s.rt.tasks 0).state, (s.rt.tasks 1).state, (s.rt.ps 0).pc,
          failsAlone s (.worker 0 {}),
          (step s (.worker 0 {})).map fun s' => (s'.rt.tasks 1).state)) =
      some ([0], .waiting, .running, .returned 1 .ok, true, some .done) := by rfl
  obtain ⟨s, hs, heq⟩ := map_eq_some_iff.mp hvl
  simp only [Prod.mk.injEq] at heq
  obtain ⟨h1, h2, h3, h4, h5, h6⟩ := heq
  obtain ⟨s', hs', h7⟩ := map_eq_some_iff.mp h6
  refine ⟨s, s', hs, h1, hs', h7, ?_⟩
  have hmv := (join_ends_with_target ⟨by decide, rfl⟩ hs hmee).2 0 {} 1 s'
    (failsAlone_sound _ _ h5) hs' (by rw [h3]; rfl) (by rw [h7]; rfl)
  exact hmv.1 ⟨.ok, h4⟩ 0 (by simp [h1]) h2

end Veloco.Sched
