import Veloco.Sched.Reach

/-!
# Sleeping tasks and their timers
-/

namespace Veloco.Sched

open Function List Sched.Runtime
open Veloco.TimerHeap (Heap Added Removed)

variable {r r' : Runtime} {p : PId} {t : TaskId} {tm : TimerId} {s s' : System}

variable {l : Label} {k : Task} {w : TaskId} {g : Heap TimerId}

def Task.arming (k : Task) : Option TimerId :=
  match k.point with
  | .leaving (.timer tm) | .parked (.timer tm) | .armTask tm _ | .armP tm _ => some tm
  | _ => none

def FreshArm (r : Runtime) (l : Label) : Prop :=
  ∀ t tm, l = .arm t tm → ∀ u, (r.tasks u).arming = some tm → (r.tasks u).state.terminal = true

def Alone (r : Runtime) : Prop :=
  ∀ t u tm, (r.tasks t).arming = some tm → (r.tasks u).arming = some tm →
    (r.tasks t).state.terminal = false → (r.tasks u).state.terminal = false → t = u

def Arms (l : Label) (r r' : Runtime) : Prop :=
  ∀ u tm, (r'.tasks u).arming = some tm → (r.tasks u).arming = some tm ∨ l = .arm u tm

theorem arms_of_update (ht : r'.tasks = update r.tasks t k)
    (hk : k.arming = (r.tasks t).arming ∨ k.arming = none) : Arms l r r' := by
  intro u tm hu
  left
  rw [ht] at hu
  by_cases hut : u = t
  · rw [hut, update_self] at hu
    rcases hk with hk | hk
    · rw [hut, ← hk, hu]
    · simp [hk] at hu
  · rwa [update_of_ne hut] at hu

theorem wake_arming (r : Runtime) (w u : TaskId) :
    ((r.wake w).tasks u).arming = (r.tasks u).arming := by
  by_cases hu : u = w
  · subst hu
    unfold wake enqueueGlobal
    split_ifs <;> simp [Task.arming]
  · rw [wake_tasks_ne r hu]

theorem arms_wake (h : Arms l r r') : Arms l r (r'.wake w) :=
  fun u tm hu => h u tm (wake_arming r' w u ▸ hu)

theorem resumePoint_arming (k : Task) (f : Option Fiber) :
    ({ k with fiber := f, point := k.resumePoint } : Task).arming = k.arming ∨
      ({ k with fiber := f, point := k.resumePoint } : Task).arming = none := by
  unfold Task.resumePoint
  split
  · next tm h => exact Or.inl (by simp [Task.arming, h])
  · exact Or.inr rfl

theorem Eff.arms (he : Eff l r r') : Arms l r r' := by
  cases he with
  | resume _ _ => exact arms_of_update rfl (resumePoint_arming _ _)
  | @leave _ _ _ k _ hpt =>
    refine arms_of_update rfl (Or.inl ?_)
    cases k <;> simp [Task.arming, hpt]
  | @arm _ _ t tm _ _ _ _ _ _ _ =>
    intro u tm' hu
    by_cases hut : u = t
    · right
      have hk : some tm = some tm' := by
        rw [← hu, hut]
        simp [putHeap, setP, setTimer, Task.arming]
      rw [hut, Option.some.inj hk]
    · left
      simpa [putHeap, setP, setTimer, hut] using hu
  | release _ | fire _ _ _ | completeIo _ _ =>
    refine arms_wake ?_
    exact arms_of_update rfl (Or.inl rfl)
  | clearTask hpc hpt => exact arms_of_update rfl (Or.inl (by simp [Task.arming, hpt]))
  | cancelTask _ _ _ _ =>
    unfold Runtime.cancelTask
    split_ifs
    · exact fun _ _ => Or.inl
    · exact arms_of_update rfl (Or.inl rfl)
  | spawn _ _ | yield _ _ | parkIo _ _ | clearP _ _ | fiberYield _ _ | finish _ _ =>
    exact arms_of_update rfl (Or.inr rfl)
  | park _ _ _ => exact arms_of_update rfl (Or.inr rfl)
  | _ => first
    | exact fun _ _ => Or.inl
    | exact arms_of_update rfl (Or.inl rfl)

theorem Eff.live_before (he : Eff l r r') (hi : Inv r)
    (h : (r'.tasks t).state.terminal = false) : (r.tasks t).state.terminal = false := by
  by_contra ht
  have ht : (r.tasks t).state.terminal = true := by simpa using ht
  rw [(he.ended ht hi ⟨rfl, rfl⟩).1, ht] at h
  simp at h

theorem Eff.alone (he : Eff l r r') (ha : FreshArm r l) (hi : Inv r) (h : Alone r) :
    Alone r' := by
  intro t u tm ht hu hlt hlu
  have hlt := he.live_before hi hlt
  have hlu := he.live_before hi hlu
  rcases he.arms t tm ht with ht | rfl <;> rcases he.arms u tm hu with hu | hl
  · exact h t u tm ht hu hlt hlu
  · simp [ha u tm hl t ht] at hlt
  · simp [ha t tm rfl u hu] at hlu
  · simpa using hl

def Sleepers (r : Runtime) : Prop :=
  ∀ t, (r.tasks t).state = .sleeping → (r.tasks t).wakePending = false →
    ∃ tm p, r.timers tm = ⟨some t, some p⟩ ∧ (r.node tm).active = true ∧ tm ∈ (r.ps p).timers

theorem Sleepers.stay (h : Sleepers r)
    (hst : ∀ t, (r'.tasks t).state = .sleeping → (r'.tasks t).wakePending = false →
      (r.tasks t).state = .sleeping ∧ (r.tasks t).wakePending = false)
    (hkeep : ∀ t tm p, (r'.tasks t).state = .sleeping → (r'.tasks t).wakePending = false →
      r.timers tm = ⟨some t, some p⟩ → (r.node tm).active = true → tm ∈ (r.ps p).timers →
      r'.timers tm = ⟨some t, some p⟩ ∧ (r'.node tm).active = true ∧ tm ∈ (r'.ps p).timers) :
    Sleepers r' := by
  intro t hs hw
  obtain ⟨hs', hw'⟩ := hst t hs hw
  obtain ⟨tm, p, h1, h2, h3⟩ := h t hs' hw'
  exact ⟨tm, p, hkeep t tm p hs hw h1 h2 h3⟩

theorem wake_sleeping (hs : ((r.wake w).tasks t).state = .sleeping)
    (hw : ((r.wake w).tasks t).wakePending = false) :
    t ≠ w ∧ (r.tasks t).state = .sleeping ∧ (r.tasks t).wakePending = false := by
  by_cases ht : t = w
  · subst ht
    exfalso
    unfold wake enqueueGlobal at hs hw
    split_ifs at hs hw with h1 h2 h3
    all_goals simp_all
  · rw [wake_tasks_ne r ht] at hs hw
    exact ⟨ht, hs, hw⟩

theorem Sleepers.same (h : Sleepers r) (htm : r'.timers = r.timers) (hnd : r'.node = r.node)
    (hps : ∀ q, (r'.ps q).timers = (r.ps q).timers)
    (hst : ∀ t, (r'.tasks t).state = .sleeping → (r'.tasks t).wakePending = false →
      (r.tasks t).state = .sleeping ∧ (r.tasks t).wakePending = false) : Sleepers r' :=
  h.stay hst fun _ tm p _ _ h1 h2 h3 => ⟨htm ▸ h1, hnd ▸ h2, by rw [hps p]; exact h3⟩

theorem sleeping_of_update {u : TaskId} (ht : r'.tasks = update r.tasks u k)
    (hk : k.state = .sleeping → k.wakePending = false →
      (r.tasks u).state = .sleeping ∧ (r.tasks u).wakePending = false) (t : TaskId)
    (hs : (r'.tasks t).state = .sleeping) (hw : (r'.tasks t).wakePending = false) :
    (r.tasks t).state = .sleeping ∧ (r.tasks t).wakePending = false := by
  rw [ht] at hs hw
  by_cases htu : t = u
  · subst htu
    rw [update_self] at hs hw
    exact hk hs hw
  · rw [update_of_ne htu] at hs hw
    exact ⟨hs, hw⟩

theorem Inv.arming_of_timer (hi : Inv r) (htm : (r.timers tm).task = some t)
    (hs : (r.tasks t).state = .sleeping) : (r.tasks t).arming = some tm := by
  obtain ⟨-, -, hin⟩ := ((hi.waits t).timer tm htm).resolve_left (by simp [hs])
  rcases hin with h | h <;> simp [Task.arming, h]

theorem Sleepers.clear {result : Status} (h : Sleepers r) (hi : Inv r) (hal : Alone r)
    (hpc : (r.ps p).pc = .inTask t)
    (hpt : (r.tasks t).point = .armTask tm result ∨ (r.tasks t).point = .armP tm result) (hk : k.state = (r.tasks t).state) {x : Timer}
    (ht : r'.tasks = update r.tasks t k)
    (htm : r'.timers = update r.timers tm x) (hnd : r'.node = r.node)
    (hps : r'.ps = r.ps) : Sleepers r' := by
  have hrun : (r.tasks t).state = .running := by
    have hmem : t ∈ r.contents (.worker p) := by simp [contents, hpc, Pc.tasks]
    have hok : pcOk p (.inTask t) (r.tasks t) := hpc ▸ hi.placed _ t hmem
    obtain ⟨-, -, ⟨hs, -⟩ | ⟨j, hj, -⟩⟩ := hok
    · exact hs
    · rcases hpt with hpt | hpt <;> simp [hpt] at hj
  refine h.stay (sleeping_of_update ht fun hs => ?_) fun u tm' q hs hw h1 h2 h3 => ?_
  · rw [hk, hrun] at hs
    simp at hs
  · have hs' := (sleeping_of_update ht (fun hs => by rw [hk, hrun] at hs; simp at hs) u hs hw).1
    have hne : tm' ≠ tm := by
      rintro rfl
      have hu := hi.arming_of_timer (by rw [h1]) hs'
      have hsl : (r.tasks t).arming = some tm' := by
        rcases hpt with hpt | hpt <;> simp [Task.arming, hpt]
      obtain rfl := hal t u tm' hsl hu (by rw [hrun]; rfl) (by rw [hs']; rfl)
      simp [hrun] at hs'
    rw [htm, update_of_ne hne, hnd, hps]
    exact ⟨h1, h2, h3⟩

theorem Sleepers.disarm (h : Sleepers r) (hrem : Removed (r.heap p) g tm)
    (htm : r'.timers = update r.timers tm ⟨none, none⟩) (hnd : r'.node = g.node)
    (hps : r'.ps = (r.putHeap p g).ps)
    (hst : ∀ t, (r'.tasks t).state = .sleeping → (r'.tasks t).wakePending = false →
      (r.tasks t).state = .sleeping ∧ (r.tasks t).wakePending = false ∧
        (r.timers tm).task ≠ some t) : Sleepers r' := by
  refine h.stay (fun t hs hw => ⟨(hst t hs hw).1, (hst t hs hw).2.1⟩)
    fun t tm' q hs hw h1 h2 h3 => ?_
  have hne : tm' ≠ tm := by
    rintro rfl
    exact (hst t hs hw).2.2 (by rw [h1])
  refine ⟨by rw [htm, update_of_ne hne, h1], by rw [hnd, hrem.active tm' hne]; exact h2, ?_⟩
  rw [hps]
  by_cases hq : q = p
  · subst hq
    have hmem := (mem_cons.mp (hrem.perm.mem_iff.mp h3)).resolve_left hne
    simpa [putHeap] using hmem
  · simpa [putHeap, hq] using h3

theorem Sleepers.arm {d : ℕ} (h : Sleepers r)
    (hts : (r.timers tm).task = none)
    (hadd : Added { r.heap p with
      node := update r.node tm { r.node tm with deadline := d } } g tm)
    (ht : r'.tasks = update r.tasks t k)
    (htm : r'.timers = update r.timers tm ⟨some t, some p⟩) (hnd : r'.node = g.node)
    (hps : r'.ps = (r.putHeap p g).ps) : Sleepers r' := by
  intro u hs hw
  by_cases hu : u = t
  · subst hu
    refine ⟨tm, p, by rw [htm, update_self], by rw [hnd]; exact hadd.isActive, ?_⟩
    rw [hps]
    simpa [putHeap] using hadd.perm.mem_iff.mpr mem_cons_self
  · rw [ht, update_of_ne hu] at hs hw
    obtain ⟨tm', q, h1, h2, h3⟩ := h u hs hw
    have hne : tm' ≠ tm := by
      rintro rfl
      simp [h1] at hts
    refine ⟨tm', q, by rw [htm, update_of_ne hne, h1], ?_, ?_⟩
    · rw [hnd, hadd.active tm' hne]
      simpa [update_of_ne hne] using h2
    · rw [hps]
      by_cases hq : q = p
      · subst hq
        simpa [putHeap] using hadd.perm.mem_iff.mpr (mem_cons_of_mem _ h3)
      · simpa [putHeap, hq] using h3

theorem Eff.sleepers (he : Eff l r r') (hi : Inv r) (ht : Timed r) (hal : Alone r)
    (h : Sleepers r) : Sleepers r' := by
  have hsl : ∀ u, (r.tasks u).state = .sleeping → (r.tasks u).wakePending = false →
      (r.tasks u).state = .sleeping ∧ (r.tasks u).wakePending = false := fun _ h1 h2 => ⟨h1, h2⟩
  cases he with
  | arm hpc hpt _ hts hadd => exact h.arm hts hadd rfl rfl rfl rfl
  | @armFail _ _ _ tm _ _ _ _ hts =>
    refine h.stay (sleeping_of_update rfl (hsl _)) fun u tm' q _ _ h1 h2 h3 => ?_
    have hne : tm' ≠ tm := by
      rintro rfl
      simp [h1] at hts
    refine ⟨(update_of_ne hne _ _).trans h1, ?_, h3⟩
    rw [← h2]
    exact update_congr TimerHeap.Node.active (by rfl) tm'
  | clearTask hpc hpt => exact h.clear hi hal hpc (Or.inl hpt) (by rfl) rfl rfl rfl rfl
  | clearP hpc hpt => exact h.clear hi hal hpc (Or.inr hpt) (by rfl) rfl rfl rfl rfl
  | @fire _ _ _ tm w _ hrem _ hw =>
    refine Sleepers.disarm h (hrem (ht.indexed _)) ?_ ?_ ?_ fun u hs hp => ?_
    · exact (wake_sameRest _ _).timers
    · exact (wake_sameRest _ _).node
    · exact (wake_sameRest _ _).ps
    · obtain ⟨hne, hs, hp⟩ := wake_sleeping hs hp
      rw [setTask_tasks, update_of_ne hne] at hs hp
      refine ⟨hs, hp, ?_⟩
      rw [hw]
      simpa [eq_comm] using hne
  | fireNone hrem _ hnn =>
    exact h.disarm (hrem (ht.indexed _)) rfl rfl rfl fun u hs hp => ⟨hs, hp, by simp [hnn]⟩
  | release _ | completeIo _ _ =>
    refine h.same (wake_sameRest _ _).timers (wake_sameRest _ _).node
      (fun q => by rw [(wake_sameRest _ _).ps]; rfl) fun u hs hp => ?_
    obtain ⟨hne, hs, hp⟩ := wake_sleeping hs hp
    simpa [setWaiters, hne] using And.intro hs hp
  | steal _ _ =>
    exact Sleepers.same (r := r.setP _ _) (h.same rfl rfl (update_congr P.timers (by rfl)) hsl) rfl
      rfl (update_congr P.timers (by rfl)) hsl
  | cancelTask _ _ _ _ =>
    unfold Runtime.cancelTask
    split_ifs
    · exact h
    · exact h.same rfl rfl (fun _ => rfl) (sleeping_of_update rfl (by simp))
  | _ => first
    | exact h
    | exact h.same rfl rfl (fun _ => rfl) hsl
    | exact h.same rfl rfl (update_congr P.timers (by rfl)) hsl
    | exact h.same rfl rfl (fun _ => rfl) (sleeping_of_update rfl (hsl _))
    | exact h.same rfl rfl (update_congr P.timers (by rfl)) (sleeping_of_update rfl (hsl _))
    | exact h.same rfl rfl (fun _ => rfl) (sleeping_of_update rfl (by simp))
    | exact h.same rfl rfl (update_congr P.timers (by rfl)) (sleeping_of_update rfl (by simp))

end Veloco.Sched
