import Veloco.Sched.Returns

/-!
# A fiber stays with the worker that created it
-/

namespace Veloco.Sched

open Function Option Sched.Runtime
open Veloco.Total

variable {r r' : Runtime} {p : PId} {t : TaskId} {s s' : System} {l : Label}

variable {k : Task} {x : P} {a : Pc} {n : ℕ} {as : List Action}

def Task.Owned (k : Task) : Prop := ∀ f, k.fiber = some f → k.lastP = some f.owner

def Owned (r : Runtime) : Prop := ∀ t, (r.tasks t).Owned

theorem Owned.update (h : Owned r) (ht : r'.tasks = update r.tasks t k)
    (hk : k.Owned) : Owned r' := by
  intro u
  rw [ht]
  by_cases hu : u = t
  · rw [hu, update_self]
    exact hk
  · rw [update_of_ne hu]
    exact h u

theorem Owned.wake (h : Owned r) (w : TaskId) : Owned (r.wake w) := by
  intro u f hf
  have hsm := r.wake_keeps (fun k => (k.fiber, k.lastP)) (fun _ _ _ _ _ _ => rfl) w u
  rw [Prod.mk.injEq] at hsm
  rw [hsm.2]
  exact h u f (hsm.1 ▸ hf)

theorem Eff.owned (he : Eff l r r') (hi : Inv r) (h : Owned r) : Owned r' := by
  cases he with
  | @start _ p t hpc _ _ =>
    refine h.update rfl fun f hf => ?_
    have hok : pcOk p (r.ps p).pc (r.tasks t) :=
      hi.placed (.worker p) t (by simp [contents, hpc, Pc.tasks])
    rw [hpc] at hok
    -- the task had no fiber or last ran here
    rcases hok.2.2 with hnn | hls
    · rw [show (r.tasks t).fiber = some f from hf] at hnn
      simp at hnn
    · exact hls ▸ h t f hf
  | @create _ p t hpc =>
    refine h.update rfl fun f hf => ?_
    obtain rfl : (⟨p, .ready⟩ : Fiber) = f := some.inj hf
    have hok : pcOk p (r.ps p).pc (r.tasks t) :=
      hi.placed (.worker p) t (by simp [contents, hpc, Pc.tasks])
    rw [hpc] at hok
    exact hok.1.lastP
  | @resume _ p t f hpc hf =>
    refine h.update rfl fun g hg => ?_
    cases hg
    exact h t f hf
  | leave _ _ | fiberYield _ _ | finish _ _ =>
    refine h.update rfl fun g hg => ?_
    obtain ⟨f, hf, rfl⟩ := map_eq_some_iff.mp hg
    exact h _ f hf
  | endFail _ _ | endDone _ _ _ | destroyFiber _ _ => exact h.update rfl fun f hf => by simp at hf
  | spawn _ _ => exact h.update rfl fun f hf => by simp at hf
  | release _ | fire _ _ _ | completeIo _ _ =>
    refine Owned.wake ?_ _
    exact h.update rfl (h _)
  | cancelTask _ _ _ _ =>
    unfold Runtime.cancelTask
    split_ifs
    · exact h
    · exact h.update rfl (h _)
  | _ => first
    | exact h
    | exact h.update rfl (h _)

def Task.Running (k : Task) : Prop := ∃ f, k.fiber = some f ∧ f.state = .running

def Switched (r : Runtime) : Prop := ∀ t, (r.tasks t).Running → ∃ p, (r.ps p).pc = .inTask t

theorem Switched.same (h : Switched r) (ht : ∀ u, (r'.tasks u).Running → (r.tasks u).Running)
    (hpc : ∀ q u, (r.ps q).pc = .inTask u → (r'.tasks u).Running → (r'.ps q).pc = .inTask u) :
    Switched r' := by
  intro u hu
  obtain ⟨q, hq⟩ := h u (ht u hu)
  exact ⟨q, hpc q u hq hu⟩

theorem running_of_update (ht : r'.tasks = update r.tasks t k)
    (hk : k.Running → (r.tasks t).Running) (u : TaskId) (hu : (r'.tasks u).Running) :
    (r.tasks u).Running := by
  rw [ht] at hu
  by_cases hut : u = t
  · rw [hut, update_self] at hu
    exact hut ▸ hk hu
  · rwa [update_of_ne hut] at hu

theorem inTask_of_update (hpc : (r.ps p).pc = a)
    (hps : r'.ps = update r.ps p x) (ha : ∀ u, a ≠ .inTask u) (q : PId) (u : TaskId)
    (hq : (r.ps q).pc = .inTask u) : (r'.ps q).pc = .inTask u := by
  have hqp : q ≠ p := by
    rintro rfl
    exact ha u (hpc.symm.trans hq)
  rwa [hps, update_of_ne hqp]

theorem Switched.leaveFiber {state : FiberState} {point : Point} (h : Switched r)
    (hpc : (r.ps p).pc = .inTask t) (hsta : state ≠ .running) :
    Switched (r.leaveFiber p t state point) := by
  have hnot : ¬ ((r.leaveFiber p t state point).tasks t).Running := by
    rintro ⟨g, hg, hrun⟩
    simp only [Runtime.leaveFiber, Runtime.setPc_tasks, Runtime.setTask_tasks,
      Function.update_self] at hg
    obtain ⟨f, -, rfl⟩ := map_eq_some_iff.mp hg
    exact hsta hrun
  refine h.same (running_of_update rfl fun hk => absurd ?_ hnot) fun q u hq hu => ?_
  · simpa [Runtime.leaveFiber] using hk
  · have hqp : q ≠ p := by
      rintro rfl
      obtain rfl : t = u := Pc.inTask.inj (hpc.symm.trans hq)
      exact hnot hu
    simpa [Runtime.leaveFiber, hqp] using hq

theorem Switched.turn (h : Switched r) (hpc : (r.ps p).pc = a)
    (hps : r'.ps = update r.ps p x) (ha : ∀ u, a ≠ .inTask u)
    (ht : ∀ u, (r'.tasks u).Running → (r.tasks u).Running) : Switched r' :=
  h.same ht fun q u hq _ => inTask_of_update hpc hps ha q u hq

theorem Switched.stay (h : Switched r) (hpc : ∀ q, (r'.ps q).pc = (r.ps q).pc)
    (ht : ∀ u, (r'.tasks u).Running → (r.tasks u).Running) : Switched r' :=
  h.same ht fun q _ hq _ => (hpc q).trans hq

theorem Switched.wake (h : Switched r) (w : TaskId) : Switched (r.wake w) := by
  refine h.stay (fun q => by rw [(r.wake_sameRest w).ps]) fun u => ?_
  rintro ⟨f, hf, hrun⟩
  rw [r.wake_keeps Task.fiber (fun _ _ _ _ _ _ => rfl) w u] at hf
  exact ⟨f, hf, hrun⟩

theorem Eff.switched (he : Eff l r r') (h : Switched r) : Switched r' := by
  cases he with
  | @goto _ p b hg =>
    refine h.turn rfl rfl (fun u hu => ?_) fun _ => id
    have hnil := hg.from_nil
    rw [hu] at hnil
    simp [Pc.tasks] at hnil
  | @regrip _ p b hfr _ _ =>
    refine h.turn rfl rfl (fun u hu => ?_) fun _ => id
    rw [hu] at hfr
    simp [Pc.taken] at hfr
  | @steal _ p o items v t l hpc hv =>
    have hfir : Switched (r.setP v { r.ps v with runnable := l }) :=
      h.stay (setRunnable_pc r v · l) fun _ => id
    exact hfir.turn ((setRunnable_pc r v p l).trans hpc) rfl (by simp) fun _ => id
  | @create _ p t hpc =>
    refine h.turn hpc rfl (by simp) (running_of_update rfl ?_)
    rintro ⟨f, hf, hrun⟩
    cases hf
    simp at hrun
  | @resume _ p t f hpc hf =>
    intro u hu
    by_cases hut : u = t
    · exact ⟨p, by simp [hut]⟩
    · have hold : (r.tasks u).Running := by simpa [hut] using hu
      obtain ⟨q, hq⟩ := h u hold
      exact ⟨q, inTask_of_update hpc rfl (by simp) q u hq⟩
  | leave hpc _ | fiberYield hpc _ | finish hpc _ => exact h.leaveFiber hpc (by simp)
  | endFail hpc _ =>
    exact h.turn hpc rfl (by simp) (running_of_update rfl fun hk => by simp [Task.Running] at hk)
  | endDone hpc _ _ =>
    exact h.turn hpc rfl (by simp) (running_of_update rfl fun hk => by simp [Task.Running] at hk)
  | destroyFiber _ _ =>
    exact h.stay (fun _ => rfl) (running_of_update rfl fun hk => by simp [Task.Running] at hk)
  | spawn _ _ =>
    exact h.stay (fun _ => rfl) (running_of_update rfl fun hk => by simp [Task.Running] at hk)
  | fiberError hpc _ => rcases hpc with hpc | hpc <;> exact h.turn hpc rfl (by simp) fun _ => id
  | release _ | completeIo _ _ =>
    refine Switched.wake ?_ _
    exact h.stay (fun _ => rfl) (running_of_update rfl id)
  | fire _ _ _ =>
    refine Switched.wake ?_ _
    exact h.stay (putHeap_pc _ _ · _) (running_of_update rfl id)
  | fireNone _ _ _ => exact h.stay (putHeap_pc _ _ · _) fun _ => id
  | arm _ _ _ _ _ => exact h.stay (putHeap_pc _ _ · _) (running_of_update rfl id)
  | localize _ _ _ => exact h.stay (setRunnable_pc r _ · _) fun _ => id
  | cancelTask _ _ _ _ =>
    unfold Runtime.cancelTask
    split_ifs
    · exact h
    · exact h.stay (fun _ => rfl) (running_of_update rfl id)
  | ownerPop hpc _ | keepLocal hpc | keepGlobal hpc | drop hpc _ | created hpc | idleEnter hpc _
  | idleAgain hpc _ | idleSkip hpc _ | idleLeave hpc _ | runBegin hpc _ | runReturn hpc
  | shutdownBegin hpc => exact h.turn hpc rfl (by simp) fun _ => id
  | unqueue hpc | pull hpc _ _ | cancelHeld hpc _ _ | start hpc _ _ | endWoken hpc _
  | endYield hpc _ | endParked hpc _ _ => exact h.turn hpc rfl (by simp) (running_of_update rfl id)
  | _ => first
    | exact h
    | exact h.stay (fun _ => rfl) (running_of_update rfl id)

/-! ## Workers that have ended -/

def Released (r : Runtime) : Prop :=
  ∀ p t f, (r.ps p).pc = .exited → (r.tasks t).fiber = some f → f.owner ≠ p

def OldFibers (r r' : Runtime) : Prop :=
  ∀ t f, (r'.tasks t).fiber = some f → ∃ g, (r.tasks t).fiber = some g ∧ f.owner = g.owner

theorem OldFibers.refl (r : Runtime) : OldFibers r r := fun _ f hf => ⟨f, hf, rfl⟩

theorem OldFibers.update (ht : r'.tasks = update r.tasks t k)
    (hk : ∀ f, k.fiber = some f → ∃ g, (r.tasks t).fiber = some g ∧ f.owner = g.owner) :
    OldFibers r r' := by
  intro u f hf
  rw [ht] at hf
  by_cases hu : u = t
  · rw [hu, update_self] at hf
    exact hu ▸ hk f hf
  · rw [update_of_ne hu] at hf
    exact ⟨f, hf, rfl⟩

theorem OldFibers.record (ht : r'.tasks = Function.update r.tasks t k)
    (hk : k.fiber = (r.tasks t).fiber) : OldFibers r r' :=
  .update ht fun f hf => ⟨f, hk ▸ hf, rfl⟩

theorem Released.stay (h : Released r) (hpc : ∀ q, (r'.ps q).pc = .exited → (r.ps q).pc = .exited)
    (ht : OldFibers r r') : Released r' := by
  intro q u f hq hf
  obtain ⟨g, hg, hwn⟩ := ht u f hf
  rw [hwn]
  exact h q u g (hpc q hq) hg

theorem Released.turn (h : Released r) (hps : r'.ps = update r.ps p x)
    (hx : x.pc ≠ .exited) (ht : OldFibers r r') : Released r' := by
  refine h.stay (fun q hq => ?_) ht
  rw [hps] at hq
  by_cases hqp : q = p
  · rw [hqp, update_self] at hq
    exact absurd hq hx
  · rwa [update_of_ne hqp] at hq

theorem Released.wake (h : Released r) (w : TaskId) : Released (r.wake w) := by
  refine h.stay (fun q hq => ?_) fun u f hf => ⟨f, ?_, rfl⟩
  · rwa [(r.wake_sameRest w).ps] at hq
  · rwa [r.wake_keeps Task.fiber (fun _ _ _ _ _ _ => rfl) w u] at hf

theorem Released.goto {b : Pc} (h : Released r) (hown : Owned r) (hg : Goto r p b) :
    Released (r.setPc p b) := by
  by_cases hb : b = .exited
  · subst hb
    intro q u f hq hf
    rw [setPc_tasks] at hf
    by_cases hqp : q = p
    · subst hqp
      -- the worker ends after it has destroyed the fibers of the tasks that last ran on it
      cases hg.outer (Or.inr rfl) with
      | exit _ hnn =>
        intro hwn
        have hls := hown u f hf
        rw [hwn] at hls
        rw [hnn u hls] at hf
        simp at hf
    · rw [setPc_ps, update_of_ne hqp] at hq
      exact h q u f hq hf
  · exact h.turn rfl hb (.refl r)

theorem Released.create (h : Released r) (hpc : (r.ps p).pc = .createFiber t) :
    Released ((r.setTask t { r.tasks t with fiber := some ⟨p, .ready⟩ }).setPc p (.resume t)) := by
  intro q u f hq hf
  have hqp : q ≠ p := by
    rintro rfl
    simp at hq
  have hq : (r.ps q).pc = .exited := by simpa [hqp] using hq
  by_cases hu : u = t
  · obtain rfl : (⟨p, .ready⟩ : Fiber) = f := by simpa [hu] using hf
    exact Ne.symm hqp
  · exact h q u f hq (by simpa [hu] using hf)

theorem Eff.released (he : Eff l r r') (hown : Owned r) (h : Released r) : Released r' := by
  cases he with
  | goto hg => exact h.goto hown hg
  | create hpc => exact h.create hpc
  | @regrip _ p b _ hto _ =>
    refine h.turn rfl (fun hb => ?_) (.refl r)
    rw [show b = .exited from hb] at hto
    simp [Pc.taken] at hto
  | @steal _ p o items v t l hpc hv =>
    have hfir : Released (r.setP v { r.ps v with runnable := l }) :=
      h.stay (fun q hq => (setRunnable_pc r v q l).symm.trans hq) (.refl r)
    exact hfir.turn rfl (by simp) fun _ f hf => ⟨f, hf, rfl⟩
  | @resume _ p t f hpc hf =>
    refine h.turn rfl (by simp) (.update rfl fun g hg => ⟨f, hf, ?_⟩)
    cases hg
    rfl
  | leave _ _ | fiberYield _ _ | finish _ _ =>
    refine h.turn rfl (by simp) (.update rfl fun g hg => ?_)
    obtain ⟨f, hf, rfl⟩ := Option.map_eq_some_iff.mp hg
    exact ⟨f, hf, rfl⟩
  | endFail _ _ | endDone _ _ _ =>
    exact h.turn rfl (by simp) (.update rfl fun f hf => by simp at hf)
  | destroyFiber _ _ | spawn _ _ => exact h.stay (fun _ => id) (.update rfl fun f hf => by simp at hf)
  | release _ | completeIo _ _ =>
    refine Released.wake ?_ _
    exact h.stay (fun _ => id) (.record rfl rfl)
  | fire _ _ _ =>
    refine Released.wake ?_ _
    exact h.stay (fun q hq => (putHeap_pc _ _ q _).symm.trans hq) (.record rfl rfl)
  | fireNone _ _ _ => exact h.stay (fun q hq => (putHeap_pc _ _ q _).symm.trans hq) (.refl r)
  | arm _ _ _ _ _ => exact h.stay (fun q hq => (putHeap_pc _ _ q _).symm.trans hq) (.record rfl rfl)
  | localize _ _ _ => exact h.stay (fun q hq => (setRunnable_pc r _ q _).symm.trans hq) (.refl r)
  | cancelTask _ _ _ _ =>
    unfold Runtime.cancelTask
    split_ifs
    · exact h
    · exact h.stay (fun _ => id) (.record rfl rfl)
  | ownerPop _ _ | keepLocal _ | keepGlobal _ | drop _ _ | created _ | fiberError _ _ | idleEnter _ _
  | idleAgain _ _ | idleSkip _ _ | idleLeave _ _ | runBegin _ _ | runReturn _ | shutdownBegin _ =>
    exact h.turn rfl (by simp) (.refl r)
  | unqueue _ | pull _ _ _ | cancelHeld _ _ _ | start _ _ _ | endWoken _ _ | endYield _ _
  | endParked _ _ _ => exact h.turn rfl (by simp) (.record rfl rfl)
  | _ => first
    | exact h
    | exact h.stay (fun _ => id) (.record rfl rfl)

structure Affine (r : Runtime) : Prop where
  owned : Owned r
  switched : Switched r
  released : Released r

theorem Eff.affine (he : Eff l r r') (hs : Sound r) (h : Affine r) : Affine r' :=
  ⟨he.owned hs.inv h.owned, he.switched h.switched, he.released h.owned h.released⟩

theorem affine_run (hnt : Initial n s)
    (hrun : Trans.run step s as = some s') : Sound s'.rt ∧ Affine s'.rt := by
  refine run_keeps_always (fun _ _ _ he hs h => he.affine hs h) hrun hnt.sound ?_
  rw [hnt.rt]
  exact ⟨fun _ _ hf => by simp at hf, fun _ hk => by simp [Task.Running] at hk,
    fun _ _ _ hpc => by simp at hpc⟩

theorem Affine.not_running {f : Fiber} (h : Affine r) (hi : Inv r) (hf : (r.tasks t).fiber = some f)
    (hls : (r.tasks t).lastP = some p) (hpc : ∀ u, (r.ps p).pc ≠ .inTask u) :
    f.state ≠ .running := by
  intro hrun
  obtain ⟨q, hq⟩ := h.switched t ⟨f, hf, hrun⟩
  have hok : pcOk q (r.ps q).pc (r.tasks t) :=
    hi.placed (.worker q) t (by simp [contents, hq, Pc.tasks])
  rw [hq] at hok
  have hqp : some q = some p := hok.1.lastP.symm.trans hls
  exact hpc t (some.inj hqp ▸ hq)

def Runtime.liveFibers (r : Runtime) (p : PId) : ℕ :=
  count (Finset.range r.taskCount) fun t => (r.tasks t).fiber.any fun f => f.owner = p

/-- **Fiber affinity.** -/
theorem fiber_affinity {n : ℕ} {as : List Action} (hnt : Initial n s)
    (hrun : Trans.run step s as = some s') :
    (∀ p, ∀ t ∈ (s'.rt.ps p).runnable, (s'.rt.tasks t).fiber = none) ∧
    (∀ t f, (s'.rt.tasks t).fiber = some f → (s'.rt.tasks t).lastP = some f.owner) ∧
    (∀ p t f, (s'.rt.ps p).pc = .resume t → (s'.rt.tasks t).fiber = some f → f.owner = p) ∧
    (∀ p t status f, (s'.rt.ps p).pc = .returned t status → (s'.rt.tasks t).fiber = some f →
      f.owner = p ∧ f.state ≠ .running) ∧
    (∀ p t f, (s'.rt.ps p).pc = .off ∨ (s'.rt.ps p).pc = .stopping →
      (s'.rt.tasks t).fiber = some f → (s'.rt.tasks t).lastP = some p →
      f.owner = p ∧ f.state ≠ .running) ∧
    ∀ p, (s'.rt.ps p).pc = .exited → s'.rt.liveFibers p = 0 := by
  obtain ⟨hsou, haff⟩ := affine_run hnt hrun
  have hinv := hsou.inv
  have hwn : ∀ {p t f}, (s'.rt.tasks t).fiber = some f → (s'.rt.tasks t).lastP = some p →
      f.owner = p := fun hf hls => some.inj ((haff.owned _ _ hf).symm.trans hls)
  refine ⟨fun p t ht => (hinv.placed (.runnable p) t ht).2.2, haff.owned, fun p t f hpc hf => ?_,
    fun p t status f hpc hf => ?_, fun p t f hpc hf hls => ?_, fun p hpc => ?_⟩
  · have hok : pcOk p (s'.rt.ps p).pc (s'.rt.tasks t) :=
      hinv.placed (.worker p) t (by simp [contents, hpc, Pc.tasks])
    rw [hpc] at hok
    exact hwn hf hok.1.lastP
  · have hok : pcOk p (s'.rt.ps p).pc (s'.rt.tasks t) :=
      hinv.placed (.worker p) t (by simp [contents, hpc, Pc.tasks])
    rw [hpc] at hok
    exact ⟨hwn hf hok.1.lastP, haff.not_running hinv hf hok.1.lastP (by simp [hpc])⟩
  · refine ⟨hwn hf hls, haff.not_running hinv hf hls fun u => ?_⟩
    rcases hpc with hpc | hpc <;> simp [hpc]
  · refine count_eq_zero.mpr fun t _ => ?_
    cases hf : (s'.rt.tasks t).fiber with
    | none => rfl
    | some f => simpa using haff.released p t f hpc hf

theorem fiber_affinity_two_workers : ∃ s : System,
    Trans.run step { rt := { workerCount := 2 } } ([Action.owner .spawn, .owner .run] ++
      List.replicate 9 (Action.worker 1 {}) ++ [Action.call 1 .yield] ++ List.replicate 9 (Action.worker 1 {})) =
        some s ∧
    (s.rt.ps 1).pc = .resume 0 ∧ ∀ f, (s.rt.tasks 0).fiber = some f → f.owner = 1 := by
  have hvl : (Trans.run step { rt := { workerCount := 2 } } ([Action.owner .spawn, .owner .run] ++
      List.replicate 9 (Action.worker 1 {}) ++ [Action.call 1 .yield] ++
      List.replicate 9 (Action.worker 1 {}))).map (fun s => (s.rt.ps 1).pc) = some (.resume 0) := by rfl
  obtain ⟨s, hs, hpc⟩ := map_eq_some_iff.mp hvl
  exact ⟨s, hs, hpc, fun f hf => (fiber_affinity ⟨by decide, rfl⟩ hs).2.2.1 1 0 f hpc hf⟩

end Veloco.Sched
