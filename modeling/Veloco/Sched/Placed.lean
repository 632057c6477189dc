import Veloco.Sched.Reach

/-!
# Where the tasks of a Runtime are
-/

namespace Veloco.Sched

open List Option Sched.Runtime
open Veloco.Placement

variable {r : Runtime} {p : PId} {t : TaskId} {s s' : System}

def Runtime.OnePlace (r : Runtime) (t : TaskId) : Prop :=
  ∃ pl, (r.contents pl).count t = 1 ∧ (∀ pl', pl' ≠ pl → t ∉ r.contents pl') ∧
    ∀ p, pl = .worker p → (r.ps p).pc.searching = true

theorem Inv.searching_of_hands (h : Inv r) (ht : t ∈ (r.ps p).pc.tasks)
    (hex : (r.tasks t).executing = false) : (r.ps p).pc.searching = true := by
  have hok : pcOk p (r.ps p).pc (r.tasks t) := h.placed (.worker p) t ht
  cases hpc : (r.ps p).pc with
  | unqueue | stealBatch | stolen | execute => rfl
  | createFiber | resume | inTask | returned =>
    rw [hpc] at hok
    simp [hok.1.executing] at hex
  | _ => simp [hpc, Pc.tasks] at ht

theorem Inv.onePlace (h : Inv r) (hp : r.Present t) (hex : (r.tasks t).executing = false) :
    r.OnePlace t := by
  obtain ⟨pl, hpl⟩ : ∃ pl, t ∈ r.contents pl := by
    rcases hp with hg | ⟨p, hd | hw⟩
    · exact ⟨.globalRunnable, hg⟩
    · exact ⟨.runnable p, hd⟩
    · exact ⟨.worker p, hw⟩
  refine ⟨pl, count_eq_one_of_mem (h.places.nodup pl) hpl, fun pl' hne hpl' => ?_, ?_⟩
  · exact hne (h.places.unique hpl' hpl)
  · rintro p rfl
    exact h.searching_of_hands hpl hex

theorem cancelTask_of_ne {u : TaskId} (hu : t ≠ u) : (r.cancelTask u).tasks t = r.tasks t := by
  unfold cancelTask
  split_ifs
  · rfl
  · simp [hu]

theorem foldl_cancelTask_terminal (l : List TaskId) (r : Runtime)
    (hs : (r.tasks t).state.terminal = true) :
    ((l.foldl cancelTask r).tasks t).state = (r.tasks t).state := by
  induction l generalizing r with
  | nil => rfl
  | cons u l ih =>
    have hsm : ((r.cancelTask u).tasks t).state = (r.tasks t).state := by
      by_cases hu : t = u
      · subst hu
        simp [cancelTask, hs]
      · rw [cancelTask_of_ne hu]
    rw [foldl_cons, ih _ (by rw [hsm, hs]), hsm]

theorem foldl_cancelTask (l : List TaskId) (r : Runtime) (ht : t ∈ l)
    (hex : (r.tasks t).executing = false) (hlv : (r.tasks t).state.terminal = false) :
    ((l.foldl cancelTask r).tasks t).state = .cancelled := by
  induction l generalizing r with
  | nil => simp at ht
  | cons u l ih =>
    by_cases hu : t = u
    · subst hu
      have hc : ((r.cancelTask t).tasks t).state = .cancelled := by simp [cancelTask, hex, hlv]
      rw [foldl_cons, foldl_cancelTask_terminal l _ (by rw [hc]; rfl), hc]
    · have hsm := cancelTask_of_ne (r := r) hu
      exact ih _ ((mem_cons.mp ht).resolve_left hu) (by rw [hsm, hex]) (by rw [hsm, hlv])

theorem Runtime.cancelAll_cancels (ht : t < r.taskCount) (hex : (r.tasks t).executing = false)
    (hlv : (r.tasks t).state.terminal = false) : (r.cancelAll.tasks t).state = .cancelled :=
  foldl_cancelTask _ r (by simpa using ht) hex hlv

theorem foldl_destroyFiber_state (l : List TaskId) (r : Runtime) :
    ((l.foldl (fun r u => r.destroyFiber p u) r).tasks t).state = (r.tasks t).state := by
  induction l generalizing r with
  | nil => rfl
  | cons u l ih =>
    rw [foldl_cons, ih]
    unfold destroyFiber
    split_ifs
    · exact update_congr Task.state (by rfl) t
    · rfl

theorem owner_end_cancels {e : Env} (hs : step s (.worker 0 e) = some s')
    (hpc : ((s.rt.ps 0).pc = .runEnd ∧ s.rt.shutdownRequested = true) ∨ (s.rt.ps 0).pc = .stopping)
    (ht : t < s.rt.taskCount) (hex : (s.rt.tasks t).executing = false)
    (hlv : (s.rt.tasks t).state.terminal = false) : (s'.rt.tasks t).state = .cancelled := by
  have hcan := cancelAll_cancels ht hex hlv
  simp only [step] at hs
  split_ifs at hs
  obtain ⟨r', hr, rfl⟩ := map_eq_some_iff.mp hs
  unfold workerStep at hr
  rcases hpc with ⟨hpc, hsd⟩ | hpc
  · simp only [hpc, hsd, if_true, some.injEq] at hr
    subst hr
    exact hcan
  · simp only [hpc] at hr
    split_ifs at hr
    cases hr
    rw [← hcan]
    exact foldl_destroyFiber_state _ _

def SpawnsQuietly (s : System) : Action → Prop
  | .owner .spawn => ∀ p, (s.rt.ps p).pc.searching = false
  | _ => True

theorem SpawnsQuietly.of_ne {a : Action} (h : a ≠ .owner .spawn) (s : System) : SpawnsQuietly s a := by
  cases a with
  | owner c =>
    cases c with
    | spawn => exact absurd rfl h
    | run | shutdown => trivial
  | _ => trivial

theorem SpawnsQuietly.admits (s : System) (a : Action) (h : SpawnsQuietly s a) :
    s.Admits QuietSpawn a := by
  rintro l hl rfl
  cases hl.emission with
  | ownerSpawn => exact h

theorem kept_run {n : ℕ} {as : List Action} (hnt : Initial n s)
    (hrun : Trans.run step s as = some s') (hspa : Trans.Meets step SpawnsQuietly s as) :
    Sound s'.rt ∧ Halted s'.rt ∧ Kept s'.rt := by
  refine run_keeps (A := QuietSpawn) (I := fun r => Halted r ∧ Kept r) (fun _ hl => by simp at hl) ?_
    hrun (hspa.imp SpawnsQuietly.admits) hnt.sound ?_
  · intro l r r' ha he h hi
    exact ⟨he.halted ha h.inv h.control h.live hi.1, he.kept h.inv h.live hi.1 hi.2⟩
  · rw [hnt.rt]
    exact ⟨fun _ _ => Or.inl rfl, fun t ht => by simp at ht⟩

/-- **Placement of tasks.** -/
theorem task_placement {n : ℕ} {as : List Action} (hnt : Initial n s)
    (hrun : Trans.run step s as = some s') (hspa : Trans.Meets step SpawnsQuietly s as) :
    (∀ t, (s'.rt.tasks t).state = .runnable → (s'.rt.tasks t).executing = false → s'.rt.OnePlace t ∨
      (s'.rt.shutdownRequested = true ∧ (∀ pl, t ∉ s'.rt.contents pl) ∧
        (s'.rt.cancelAll.tasks t).state = .cancelled ∧
        ∀ e s'', (s'.rt.ps 0).pc = .runEnd ∨ (s'.rt.ps 0).pc = .stopping →
          step s' (.worker 0 e) = some s'' → (s''.rt.tasks t).state = .cancelled)) ∧
    (∀ pl, (s'.rt.contents pl).Nodup) ∧
    (∀ pl pl' t, t ∈ s'.rt.contents pl → t ∈ s'.rt.contents pl' → pl = pl') ∧
    (∀ p q t, (s'.rt.ps p).pc.executes t = true → (s'.rt.ps q).pc.executes t = true → p = q) ∧
    (∀ t bs s'', (s'.rt.tasks t).state.terminal = true → Trans.run step s' bs = some s'' →
      (s''.rt.tasks t).state = (s'.rt.tasks t).state ∧
      (s''.rt.tasks t).enqueues = (s'.rt.tasks t).enqueues ∧
      ∀ p, (s''.rt.ps p).pc.executes t = false) := by
  obtain ⟨hsou, -, hkp⟩ := kept_run hnt hrun hspa
  have hinv := hsou.inv
  have hhan : ∀ {p t}, (s'.rt.ps p).pc.executes t = true → t ∈ s'.rt.contents (.worker p) := by
    intro p t hex
    show t ∈ (s'.rt.ps p).pc.tasks
    cases hpc : (s'.rt.ps p).pc <;> simp_all [Pc.executes, Pc.tasks]
  refine ⟨fun t hs hex => ?_, hinv.places.nodup, fun _ _ _ h1 h2 => hinv.places.unique h1 h2,
    fun p q t hp hq => ?_, fun t bs s'' ht hbs => ?_⟩
  · by_cases hp : s'.rt.Present t
    · exact Or.inl (hinv.onePlace hp hex)
    · have hsd := (hkp t hs).resolve_left hp
      have hlt := hinv.lt_of_ne_new (t := t) (by simp [hs])
      have hlv : (s'.rt.tasks t).state.terminal = false := by rw [hs]; rfl
      refine Or.inr ⟨hsd, fun pl hpl => hp ?_, cancelAll_cancels hlt hex hlv,
        fun e s'' hpc hst => ?_⟩
      · cases pl with
        | globalRunnable => exact Or.inl hpl
        | runnable p => exact Or.inr ⟨p, Or.inl hpl⟩
        | worker p => exact Or.inr ⟨p, Or.inr hpl⟩
      · exact owner_end_cancels hst (hpc.imp (⟨·, hsd⟩) id) hlt hex hlv
  · have := hinv.places.unique (hhan hp) (hhan hq)
    simpa using this
  · obtain ⟨hsound', hend⟩ := run_keeps_always
      (I := fun r => r.Ended t (s'.rt.tasks t).state (s'.rt.tasks t).enqueues)
      (fun _ _ _ he h hi => he.ended ht h.inv hi) hbs hsou ⟨rfl, rfl⟩
    exact ⟨hend.1, hend.2, hsound'.inv.not_executed (by rw [hend.1, ht])⟩

/-- A schedule of two workers. -/
def ownerSpawnSchedule : List Action :=
  [Action.owner .spawn, .owner .run] ++ List.replicate 2 (Action.worker 1 {}) ++
    List.replicate 8 (Action.worker 0 {}) ++ [Action.call 0 .finish] ++ List.replicate 4 (Action.worker 0 {}) ++
    [Action.owner .spawn] ++ List.replicate 5 (Action.worker 1 {})

/-- The second task of `ownerSpawnSchedule` is runnable and not executing, no shutdown has been
requested, and it is in no queue and in no worker's hands. -/
theorem owner_spawn_dropped : ∃ s : System,
    Trans.run step { rt := { workerCount := 2 } } ownerSpawnSchedule = some s ∧
    (s.rt.tasks 1).state = .runnable ∧ (s.rt.tasks 1).executing = false ∧
    s.rt.shutdownRequested = false ∧ 1 ∉ s.rt.globalRunnable ∧
    ∀ p < s.rt.workerCount, 1 ∉ (s.rt.ps p).runnable ∧ 1 ∉ (s.rt.ps p).pc.tasks := by
  have hvl : (Trans.run step { rt := { workerCount := 2 } } ownerSpawnSchedule).map (fun s =>
      ((s.rt.tasks 1).state, (s.rt.tasks 1).executing, s.rt.shutdownRequested, s.rt.globalRunnable,
        s.rt.workerCount, (s.rt.ps 0).runnable, (s.rt.ps 0).pc, (s.rt.ps 1).runnable,
        (s.rt.ps 1).pc)) =
      some (.runnable, false, false, [], 2, [], .off, [], .top) := by rfl
  obtain ⟨s, hs, heq⟩ := map_eq_some_iff.mp hvl
  simp only [Prod.mk.injEq] at heq
  obtain ⟨h1, h2, h3, h4, h5, h6, h7, h8, h9⟩ := heq
  refine ⟨s, hs, h1, h2, h3, by simp [h4], fun p hp => ?_⟩
  rw [h5] at hp
  have hp : p = 0 ∨ p = 1 := by
    have hp : (p : ℕ) < 2 := hp
    interval_cases p <;> simp
  rcases hp with rfl | rfl
  · simp [h6, h7, Pc.tasks]
  · simp [h8, h9, Pc.tasks]

theorem task_placement_two_tasks : ∃ s : System,
    Trans.run step { rt := { workerCount := 2 } }
      ([Action.owner .spawn, .owner .spawn, .owner .run] ++ List.replicate 6 (Action.worker 1 {})) = some s ∧
    (s.rt.tasks 1).state = .runnable ∧ s.rt.OnePlace 1 := by
  have hvl : (Trans.run step { rt := { workerCount := 2 } }
      ([Action.owner .spawn, .owner .spawn, .owner .run] ++ List.replicate 6 (Action.worker 1 {}))).map (fun s =>
        ((s.rt.tasks 1).state, (s.rt.tasks 1).executing, s.rt.shutdownRequested)) =
      some (.runnable, false, false) := by rfl
  obtain ⟨s, hs, heq⟩ := map_eq_some_iff.mp hvl
  simp only [Prod.mk.injEq] at heq
  obtain ⟨h1, h2, h3⟩ := heq
  have hqui : Trans.Meets step SpawnsQuietly { rt := { workerCount := 2 } }
      ([Action.owner .spawn, .owner .spawn, .owner .run] ++ List.replicate 6 (Action.worker 1 {})) := by
    refine ⟨fun _ => rfl, fun s₁ hs₁ => ⟨?_, fun s₂ _ => ⟨trivial, fun s₃ _ => ?_⟩⟩⟩
    · cases hs₁
      exact fun _ => rfl
    · exact Trans.meets_of_forall (fun a ha _ => .of_ne (by rw [eq_of_mem_replicate ha]; simp) _) s₃
  refine ⟨s, hs, h1, ?_⟩
  rcases (task_placement ⟨by decide, rfl⟩ hs hqui).1 1 h1 h2 with h | h
  · exact h
  · simp [h3] at h

end Veloco.Sched
