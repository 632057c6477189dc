import Veloco.Sched.Control

/-!
# The end of a run loses no task
-/

namespace Veloco.Sched

open Function List Sched.Runtime

variable {r r' : Runtime} {p : PId} {t : TaskId}

variable {X' : Prop} {x : P} {l : Label} {k : Task}

def Pc.Quiet (pc : Pc) : Prop := pc.searching = false ∧ pc.tasks = []

def QuietSpawn (r : Runtime) (l : Label) : Prop :=
  l = .ownerSpawn → ∀ p, (r.ps p).pc.searching = false

def Halted (r : Runtime) : Prop :=
  r.running = false → r.shutdownRequested = false → r.liveTasks = 0 ∨ ∀ p, (r.ps p).pc.Quiet

theorem Inv.live_of_hands (h : Inv r) (ht : t ∈ (r.ps p).pc.tasks)
    (hs : (r.ps p).pc.searching = false) : t ∈ r.live := by
  refine mem_live.mpr ⟨h.lt_of_mem (.worker p) ht, ?_⟩
  have hok : pcOk p (r.ps p).pc (r.tasks t) := h.placed (.worker p) t ht
  cases hpc : (r.ps p).pc with
  | createFiber | resume =>
    rw [hpc] at hok
    rw [hok.2.1]
    rfl
  | inTask =>
    rw [hpc] at hok
    rcases hok.2.2 with ⟨hr, -⟩ | ⟨j, -, hj⟩
    · rw [hr]
      rfl
    · rw [hj.state]
      cases j <;> rfl
  | returned =>
    rw [hpc] at hok
    rcases hok.2 with ⟨hr, -⟩ | ⟨-, -, j, -, hj⟩
    · rw [hr]
      rfl
    · rw [hj.state]
      cases j <;> rfl
  | _ => simp [hpc, Pc.tasks, Pc.searching] at ht hs

theorem Live.pos_of_mem (h : Live r) (ht : t ∈ r.live) : r.liveTasks ≠ 0 := by
  rw [h]
  exact Finset.card_ne_zero_of_mem ht

theorem Live.quiet (h : Live r) (hi : Inv r) (hl : r.liveTasks = 0)
    (hs : (r.ps p).pc.searching = false) : (r.ps p).pc.Quiet := by
  refine ⟨hs, eq_nil_iff_forall_not_mem.mpr fun t ht => ?_⟩
  exact h.pos_of_mem (hi.live_of_hands ht hs) hl

theorem Control.quiet_of_deadlocked (h : Control r) (hd : r.deadlocked = true) (p : PId) :
    (r.ps p).pc.Quiet := by
  have hall : r.idleWorkers = r.workerCount := by
    unfold deadlocked at hd
    simp only [Bool.and_eq_true, decide_eq_true_eq] at hd
    exact hd.1.1.1.1.1
  by_cases hp : p < r.workerCount
  · have hcr := h.idleWorkers
    rw [hall] at hcr
    have heq : (Finset.range r.workerCount).filter (fun q => (r.ps q).idle = true) =
        Finset.range r.workerCount :=
      Finset.eq_of_subset_of_card_le (Finset.filter_subset _ _) (by simpa using hcr)
    have hdl : (r.ps p).idle = true := by
      have hmem : p ∈ Finset.range r.workerCount := Finset.mem_range.mpr hp
      rw [← heq] at hmem
      exact (Finset.mem_filter.mp hmem).2
    rw [h.idle p hdl]
    exact ⟨rfl, rfl⟩
  · rw [h.off p (Nat.le_of_not_lt hp)]
    exact ⟨rfl, rfl⟩

def HaltedUnless (X : Prop) (r : Runtime) : Prop :=
  r.running = false → X ∨ r.liveTasks = 0 ∨ ∀ p, (r.ps p).pc.Quiet

theorem halted_iff : Halted r ↔ HaltedUnless (r.shutdownRequested = true) r := by
  unfold Halted HaltedUnless
  cases r.shutdownRequested <;> simp

section HaltedUnless

variable {X : Prop}

theorem HaltedUnless.imp (h : HaltedUnless X r) (hX : X → X') : HaltedUnless X' r :=
  fun hr => (h hr).imp_left hX

theorem HaltedUnless.same (h : HaltedUnless X r)
    (hpc : ∀ q, (r'.ps q).pc = (r.ps q).pc) (hr : r'.running = r.running)
    (hl : r.liveTasks = 0 → r'.liveTasks = 0) : HaltedUnless X r' := by
  intro h1
  rcases h (hr ▸ h1) with h' | h' | h'
  · exact .inl h'
  · exact .inr (.inl (hl h'))
  · exact .inr (.inr fun q => by rw [hpc q]; exact h' q)

theorem HaltedUnless.busy (h : HaltedUnless X r)
    (hps : r'.ps = update r.ps p x) (hr : r'.running = r.running)
    (hl : r.liveTasks = 0 → r'.liveTasks = 0)
    (hb : (r.ps p).pc.Quiet → x.pc.Quiet ∨ r.running = true) : HaltedUnless X r' := by
  intro h1
  rcases h (hr ▸ h1) with h' | h' | h'
  · exact .inl h'
  · exact .inr (.inl (hl h'))
  · refine .inr (.inr fun q => ?_)
    by_cases hq : q = p
    · rw [hq, hps, update_self]
      rcases hb (h' p) with hx | hx
      · exact hx
      · rw [← hr, h1] at hx
        simp at hx
    · rw [hps, update_of_ne hq]
      exact h' q

theorem HaltedUnless.wake (h : HaltedUnless X r) (t : TaskId) : HaltedUnless X (r.wake t) := by
  have hw := r.wake_sameRest t
  exact h.same (fun q => by rw [hw.ps]) hw.running fun hl => hw.liveTasks.trans hl

theorem HaltedUnless.spawn (h : HaltedUnless X r) (hi : Inv r)
    (hl : Live r) (ha : QuietSpawn r l) (hsrc : l = .ownerSpawn ∨ ∃ p t, (r.ps p).pc = .inTask t)
    (hps : r'.ps = r.ps) (hr : r'.running = r.running) : HaltedUnless X r' := by
  intro h1
  rw [hr] at h1
  rw [hps]
  rcases h h1 with hx | hnn | hquiet
  · exact .inl hx
  · right
    right
    rcases hsrc with hown | ⟨q, u, hq⟩
    · exact fun p => hl.quiet hi hnn (ha hown p)
    · have hlv := hi.live_of_hands (p := q) (t := u) (by simp [hq, Pc.tasks])
        (by simp [hq, Pc.searching])
      exact absurd hnn (hl.pos_of_mem hlv)
  · exact .inr (.inr hquiet)

theorem Eff.haltedUnless (he : Eff l r r') (ha : QuietSpawn r l) (hi : Inv r)
    (hc : Control r) (hl : Live r)
    (hreq : r' = r.requestShutdown → X ∨ r.running = false) (h : HaltedUnless X r) :
    HaltedUnless X r' := by
  have hsub : r.liveTasks = 0 → r.liveTasks - 1 = 0 := fun h0 => by rw [h0]
  cases he with
  | @goto _ _ b hg =>
    refine h.busy rfl rfl id fun hq => ?_
    by_cases hb : b.searching = true
    · rcases hg.searching hb with hs | hs
      · simp [hq.1] at hs
      · exact .inr hs
    · exact .inl ⟨by simpa using hb, hg.to_nil⟩
  | steal hpc hv =>
    refine HaltedUnless.busy (r := r.setP _ _) (h.same (setRunnable_pc r _ · _) rfl id) rfl rfl id
      fun hq => ?_
    rw [setRunnable_pc, hpc] at hq
    simp [Pc.Quiet, Pc.searching] at hq
  | @regrip _ p b hfr _ _ =>
    refine h.busy rfl rfl id fun hq => ?_
    have hq := hq.1
    cases hpc : (r.ps p).pc <;> simp [hpc, Pc.taken, Pc.searching] at hfr hq
  | localize _ _ _ => exact h.same (setRunnable_pc r _ · _) rfl id
  | fiberError hpc _ =>
    refine h.busy rfl rfl id fun hq => ?_
    rcases hpc with hpc | hpc <;> simp [hpc, Pc.Quiet, Pc.tasks] at hq
  | ownerPop hpc _ | pull hpc _ _ | drop hpc _ | unqueue hpc | keepLocal hpc | keepGlobal hpc
  | created hpc | create hpc | start hpc _ _ | resume hpc _ | leave hpc _ | fiberYield hpc _
  | finish hpc _ | endWoken hpc _ | endYield hpc _ | endParked hpc _ _ =>
    refine h.busy rfl rfl id fun hq => ?_
    simp [hpc, Pc.Quiet, Pc.tasks, Pc.searching] at hq
  | cancelHeld hpc _ _ | endFail hpc _ | endDone hpc _ _ =>
    refine h.busy rfl rfl hsub fun hq => ?_
    simp [hpc, Pc.Quiet, Pc.tasks, Pc.searching] at hq
  | spawn hsd hsrc => exact h.spawn hi hl ha hsrc rfl rfl
  | arm _ _ _ _ _ => exact h.same (putHeap_pc _ _ · _) rfl id
  | release _ =>
    refine HaltedUnless.wake ?_ _
    exact h.same (fun _ => rfl) rfl id
  | fire _ _ _ =>
    refine HaltedUnless.wake ?_ _
    exact h.same (putHeap_pc _ _ · _) rfl id
  | fireNone _ _ _ => exact h.same (putHeap_pc _ _ · _) rfl id
  | completeIo _ _ =>
    refine HaltedUnless.wake ?_ _
    exact h.same (fun _ => rfl) rfl id
  | idleEnter _ _ | idleAgain _ _ | idleSkip _ _ | idleLeave _ _ =>
    exact h.busy rfl rfl id fun _ => .inl ⟨rfl, rfl⟩
  | stop hsp =>
    intro _
    exact .inr (hsp.imp And.left fun hd => hc.quiet_of_deadlocked hd.1)
  | runBegin _ _ => exact fun h1 => by simp [setPc, setP] at h1
  | runReturn _ => exact h.busy rfl rfl id fun _ => .inl ⟨rfl, rfl⟩
  | requestShutdown =>
    intro _
    rcases hreq rfl with hx | hrun
    · exact .inl hx
    · exact h hrun
  | shutdownBegin hpc =>
    have hrun := hc.outside (by rw [hpc]; rfl)
    exact h.busy (p := 0) rfl hrun.symm id fun _ => .inl ⟨rfl, rfl⟩
  | cancelTask _ _ _ _ =>
    unfold Runtime.cancelTask
    split_ifs
    · exact h
    · exact h.same (fun _ => rfl) rfl hsub
  | _ => exact h.same (fun _ => rfl) rfl id

end HaltedUnless

theorem Eff.shutdownRequested (he : Eff l r r') (h : r.shutdownRequested = true) :
    r'.shutdownRequested = true := by
  cases he with
  | release _ | fire _ _ _ | completeIo _ _ => exact (wake_sameRest _ _).shutdownRequested.trans h
  | requestShutdown => rfl
  | cancelTask _ _ _ _ =>
    unfold Runtime.cancelTask
    split_ifs <;> exact h
  | _ => exact h

theorem Eff.halted (he : Eff l r r') (ha : QuietSpawn r l) (hi : Inv r)
    (hc : Control r) (hl : Live r) (h : Halted r) : Halted r' := by
  refine halted_iff.mpr (he.haltedUnless ha hi hc hl ?_ ((halted_iff.mp h).imp he.shutdownRequested))
  rintro rfl
  exact .inl rfl

/-! ## No runnable task is lost -/

def Runtime.Present (r : Runtime) (t : TaskId) : Prop :=
  t ∈ r.globalRunnable ∨ ∃ p, t ∈ (r.ps p).runnable ∨ t ∈ (r.ps p).pc.tasks

def KeptUnless (X : Prop) (r : Runtime) : Prop :=
  ∀ t, (r.tasks t).state = .runnable → r.Present t ∨ X

def Kept (r : Runtime) : Prop :=
  ∀ t, (r.tasks t).state = .runnable → r.Present t ∨ r.shutdownRequested = true

section KeptUnless

variable {X : Prop}

theorem KeptUnless.imp (h : KeptUnless X r) (hX : X → X') : KeptUnless X' r :=
  fun t ht => (h t ht).imp_right hX

theorem KeptUnless.carry (h : KeptUnless X r) (hps : r'.ps = update r.ps p x)
    (hin : ∀ u, u ∈ r.globalRunnable ∨ u ∈ (r.ps p).runnable ∨ u ∈ (r.ps p).pc.tasks →
      (r'.tasks u).state = .runnable → ¬ X →
      u ∈ r'.globalRunnable ∨ u ∈ x.runnable ∨ u ∈ x.pc.tasks)
    (hst : ∀ u, (r'.tasks u).state = .runnable → (r.tasks u).state = .runnable ∨
      u ∈ r'.globalRunnable ∨ u ∈ x.runnable ∨ u ∈ x.pc.tasks) : KeptUnless X r' := by
  intro u hu
  by_cases hs : X
  · exact .inr hs
  left
  have hsl : r'.ps p = x := by rw [hps, update_self]
  have hput : u ∈ r'.globalRunnable ∨ u ∈ x.runnable ∨ u ∈ x.pc.tasks → r'.Present u := by
    rintro (hg | hx)
    · exact .inl hg
    · exact .inr ⟨p, hsl ▸ hx⟩
  have hin := fun hu' => hput (hin u hu' hu hs)
  rcases hst u hu with hold | hnew
  · rcases (h u hold).resolve_right hs with hg | ⟨q, hq⟩
    · exact hin (.inl hg)
    · by_cases hqp : q = p
      · subst hqp
        exact hin (.inr hq)
      · refine .inr ⟨q, ?_⟩
        rw [hps, update_of_ne hqp]
        exact hq
  · exact hput hnew

theorem KeptUnless.stay (h : KeptUnless X r) (hg : ∀ u ∈ r.globalRunnable, u ∈ r'.globalRunnable)
    (hrun : ∀ q, (r'.ps q).runnable = (r.ps q).runnable)
    (hpc : ∀ q, (r'.ps q).pc = (r.ps q).pc)
    (hst : ∀ u, (r'.tasks u).state = .runnable → (r.tasks u).state = .runnable ∨ r'.Present u) :
    KeptUnless X r' := by
  intro u hu
  rcases hst u hu with hold | hnew
  · refine (h u hold).imp_left ?_
    rintro (hm | ⟨q, hq⟩)
    · exact .inl (hg u hm)
    · refine .inr ⟨q, ?_⟩
      rw [hrun q, hpc q]
      exact hq
  · exact .inl hnew

theorem KeptUnless.wake {w : TaskId} (h : KeptUnless X r)
    (hq : (r.tasks w).executing = false → (r.tasks w).state = .waiting ∨
      (r.tasks w).state = .sleeping → (r.tasks w).queued = false) : KeptUnless X (r.wake w) := by
  by_cases hs : (r.tasks w).state = .waiting ∨ (r.tasks w).state = .sleeping
  · by_cases hex : (r.tasks w).executing = true
    · rw [wake_of_executing hs hex]
      refine h.stay (fun _ => id) (fun _ => rfl) (fun _ => rfl) fun u hu => ?_
      left
      rw [← hu]
      exact (update_congr Task.state (by rfl) u).symm
    · have hex : (r.tasks w).executing = false := by simpa using hex
      rw [wake_of_parked hs hex (hq hex hs)]
      refine h.stay (fun u hu => ?_) (fun _ => rfl) (fun _ => rfl) fun u hu => ?_
      · exact mem_append_left _ hu
      · by_cases huw : u = w
        · right
          left
          rw [huw]
          exact mem_append_right _ (mem_singleton_self w)
        · left
          simpa [huw] using hu
  · rw [not_or] at hs
    rw [wake_of_not_waiting hs.1 hs.2]
    exact h

theorem Inv.unqueued_of_waiting (hi : Inv r) (hex : (r.tasks t).executing = false)
    (hs : (r.tasks t).state = .waiting ∨ (r.tasks t).state = .sleeping) :
    (r.tasks t).queued = false :=
  (hi.nowhere t (hi.absent_of_waiting hex hs)).queued

theorem KeptUnless.turn (h : KeptUnless X r) (hps : r'.ps = update r.ps p x)
    (hx : x.runnable = (r.ps p).runnable) (hg : r'.globalRunnable = r.globalRunnable)
    (hin : ∀ u ∈ (r.ps p).pc.tasks, (r'.tasks u).state = .runnable → ¬ X →
      u ∈ x.pc.tasks)
    (hst : ∀ u, (r'.tasks u).state = .runnable → (r.tasks u).state = .runnable ∨ u ∈ x.pc.tasks) :
    KeptUnless X r' := by
  refine h.carry hps (fun u hu hs hr => ?_) fun u hs => (hst u hs).imp id (.inr ∘ Or.inr)
  rw [hg, hx]
  rcases hu with hu | hu | hu
  · exact .inl hu
  · exact .inr (.inl hu)
  · exact .inr (.inr (hin u hu hs hr))

theorem runnable_of_update {f : TaskId → Task} {u : TaskId}
    (hs : (update f t k u).state = .runnable) :
    (f u).state = .runnable ∨ u = t ∧ k.state = .runnable := by
  by_cases hu : u = t
  · subst hu
    rw [update_self] at hs
    exact .inr ⟨rfl, hs⟩
  · rw [update_of_ne hu] at hs
    exact .inl hs

theorem KeptUnless.letGo (h : KeptUnless X r) (hps : r'.ps = update r.ps p x)
    (hx : x.runnable = (r.ps p).runnable) (hg : r'.globalRunnable = r.globalRunnable)
    (hpc : (r.ps p).pc.tasks = [t])
    (ht : r'.tasks = update r.tasks t k) (hk : k.state ≠ .runnable) : KeptUnless X r' := by
  refine h.turn hps hx hg (fun u hu hs _ => ?_) fun u hs => ?_
  · rw [hpc, mem_singleton] at hu
    rw [hu, ht, update_self] at hs
    exact absurd hs hk
  · rw [ht] at hs
    exact (runnable_of_update hs).imp id fun hu => absurd hu.2 hk

theorem KeptUnless.hold (h : KeptUnless X r) (hps : r'.ps = update r.ps p x)
    (hx : x.runnable = (r.ps p).runnable) (hg : r'.globalRunnable = r.globalRunnable)
    (hpc : (r.ps p).pc.tasks = [t])
    (ht : r'.tasks = update r.tasks t k) (hxt : x.pc.tasks = [t]) : KeptUnless X r' := by
  refine h.turn hps hx hg (fun u hu _ _ => by rw [hxt, ← hpc]; exact hu) fun u hs => ?_
  rw [ht] at hs
  exact (runnable_of_update hs).imp id fun hu => by rw [hxt, hu.1]; exact mem_singleton_self t

theorem KeptUnless.inTask (h : KeptUnless X r) (hpc : (r.ps p).pc = .inTask t)
    (hg : r'.globalRunnable = r.globalRunnable)
    (hrun : ∀ q, (r'.ps q).runnable = (r.ps q).runnable) (hpcs : ∀ q, (r'.ps q).pc = (r.ps q).pc)
    (ht : r'.tasks = update r.tasks t k) : KeptUnless X r' := by
  refine h.stay (fun u hu => hg ▸ hu) hrun hpcs fun u hs => ?_
  rw [ht] at hs
  refine (runnable_of_update hs).imp id fun hu => .inr ⟨p, Or.inr ?_⟩
  rw [hpcs, hpc, hu.1]
  exact mem_singleton_self t

theorem Eff.keptUnless (he : Eff l r r') (hi : Inv r) (hl : Live r)
    (hh : HaltedUnless X r) (h : KeptUnless X r) : KeptUnless X r' := by
  cases he with
  | goto hg =>
    refine h.turn rfl rfl rfl (fun u hu _ _ => ?_) fun u hs => .inl hs
    simp [hg.from_nil] at hu
  | ownerPop hpc hd =>
    refine h.carry rfl (fun u hu _ _ => ?_) fun u hs => .inl hs
    simpa [hpc, hd, Pc.tasks] using hu
  | unqueue hpc => exact h.hold rfl rfl rfl (congrArg Pc.tasks hpc) rfl rfl
  | rotate hg =>
    refine h.stay (fun u hu => ?_) (fun _ => rfl) (fun _ => rfl) fun u hs => .inl hs
    simpa [hg, or_comm] using hu
  | pull hpc hg _ =>
    refine h.carry rfl (fun u hu _ _ => ?_) fun u hs => ?_
    · simp only [hpc, hg, Pc.tasks, mem_cons, not_mem_nil, or_false] at hu ⊢
      tauto
    · exact (runnable_of_update hs).imp id fun hu => by simp [hu.1, Pc.tasks]
  | localize _ hg _ =>
    refine h.carry rfl (fun u hu _ _ => ?_) fun u hs => .inl hs
    simp only [hg, mem_cons, mem_append, not_mem_nil, or_false] at hu ⊢
    tauto
  | @steal _ p o items v t l hpc hv =>
    refine fun u hu => (h u hu).imp_left ?_
    rintro (hg | ⟨q, hq | hq⟩)
    · exact .inl hg
    · by_cases hqv : q = v
      · rw [hqv, hv, mem_cons] at hq
        rcases hq with rfl | hq
        · exact .inr ⟨p, Or.inr (by simp [Pc.tasks])⟩
        · exact .inr ⟨v, Or.inl (by by_cases hvp : v = p <;> simp [hvp, hq])⟩
      · exact .inr ⟨q, Or.inl (by by_cases hqp : q = p <;> simp_all)⟩
    · refine .inr ⟨q, Or.inr ?_⟩
      by_cases hqp : q = p
      · rw [hqp, hpc] at hq
        simpa [hqp, Pc.tasks] using Or.inl hq
      · by_cases hqv : q = v <;> simp_all
  | regrip _ _ ht =>
    exact h.turn rfl rfl rfl (fun u hu _ _ => by rw [ht]; exact hu) fun u hs => .inl hs
  | keepLocal hpc | keepGlobal hpc =>
    refine h.carry rfl (fun u hu _ _ => ?_) fun u hs => .inl hs
    simp only [hpc, Pc.tasks, setP_globalRunnable, setPc_globalRunnable,
      pushGlobal_globalRunnable, mem_cons, mem_append, not_mem_nil,
      or_false] at hu ⊢
    tauto
  | @drop _ p _ hpc hd =>
    refine h.turn rfl rfl rfl (fun u hu hs hX => ?_) fun u hs => .inl hs
    obtain rfl : u = _ := by simpa [hpc, Pc.tasks] using hu
    have hs : (r.tasks u).state = .runnable := hs
    rcases (hh (hd.resolve_left (not_not_intro hs))).resolve_left hX with hnn | hquiet
    · have hlt := hi.lt_of_mem (.worker _) hu
      exact absurd hnn (hl.pos_of_mem (mem_live.mpr ⟨hlt, by rw [hs]; rfl⟩))
    · have hq := (hquiet p).1
      simp [hpc, Pc.searching] at hq
  | cancelHeld hpc _ _ => exact h.letGo rfl rfl rfl (congrArg Pc.tasks hpc) rfl (by simp)
  | start hpc hs _ => exact h.hold rfl rfl rfl (congrArg Pc.tasks hpc) rfl rfl
  | created hpc =>
    refine h.turn rfl rfl rfl (fun u hu _ _ => ?_) fun u hs => .inl hs
    simpa [hpc, Pc.tasks] using hu
  | create hpc => exact h.hold rfl rfl rfl (congrArg Pc.tasks hpc) rfl rfl
  | fiberError hpc _ =>
    refine h.turn rfl rfl rfl (fun u hu _ _ => ?_) fun u hs => .inl hs
    rcases hpc with hpc | hpc <;> simpa [hpc, Pc.tasks] using hu
  | resume hpc _ | leave hpc _ | fiberYield hpc _ | finish hpc _ =>
    exact h.hold rfl rfl rfl (congrArg Pc.tasks hpc) rfl rfl
  | endFail hpc _ | endDone hpc _ _ =>
    exact h.letGo rfl rfl rfl (congrArg Pc.tasks hpc) rfl (by simp)
  | endParked hpc _ hs =>
    refine h.letGo rfl rfl rfl (congrArg Pc.tasks hpc) rfl ?_
    rcases hs with hs | hs <;> simp [hs]
  | endWoken hpc _ | endYield hpc _ =>
    refine h.carry rfl (fun u hu _ _ => ?_) fun u hs => ?_
    · simp only [hpc, Pc.tasks, pushGlobal_globalRunnable, endTask,
        setPc_globalRunnable, setTask_globalRunnable, mem_append] at hu ⊢
      tauto
    · exact (runnable_of_update hs).imp id fun hu => by simp [hu.1]
  | spawn _ _ =>
    refine h.stay (fun u hu => mem_append_left _ hu) (fun _ => rfl) (fun _ => rfl)
      fun u hs => ?_
    exact (runnable_of_update hs).imp id fun hu => .inl (by simp [hu.1])
  | yield hpc _ | parkIo hpc _ | armFail hpc _ _ _ | clearTask hpc _ | clearP hpc _ =>
    exact h.inTask hpc rfl (fun _ => rfl) (fun _ => rfl) rfl
  | park hpc _ _ => exact h.inTask hpc rfl (fun _ => rfl) (fun _ => rfl) rfl
  | arm hpc _ _ _ _ =>
    exact h.inTask hpc rfl (update_congr P.runnable (by rfl)) (update_congr P.pc (by rfl)) rfl
  | release _ =>
    refine KeptUnless.wake ?_ ?_
    · exact h.stay (fun _ => id) (fun _ => rfl) (fun _ => rfl) fun u hs =>
        Or.inl ((update_congr Task.state (by rfl) u).symm.trans hs)
    · simpa [setWaiters] using hi.unqueued_of_waiting
  | fire _ _ _ =>
    refine KeptUnless.wake ?_ ?_
    · exact h.stay (fun _ => id) (update_congr P.runnable (by rfl)) (update_congr P.pc (by rfl))
        fun u hs => .inl ((update_congr Task.state (by rfl) u).symm.trans hs)
    · simpa using hi.unqueued_of_waiting
  | fireNone _ _ _ =>
    exact h.stay (fun _ => id) (update_congr P.runnable (by rfl)) (update_congr P.pc (by rfl))
      fun u hs => .inl hs
  | completeIo _ _ =>
    refine KeptUnless.wake ?_ ?_
    · exact h.stay (fun _ => id) (fun _ => rfl) (fun _ => rfl) fun u hs =>
        Or.inl ((update_congr Task.state (by rfl) u).symm.trans hs)
    · simpa using hi.unqueued_of_waiting
  | idleEnter hpc _ | idleAgain hpc _ | idleSkip hpc _ | idleLeave hpc _ | runBegin hpc _
  | runReturn hpc | shutdownBegin hpc =>
    refine h.turn rfl rfl rfl (fun u hu _ _ => ?_) fun u hs => .inl hs
    simp [hpc, Pc.tasks] at hu
  | stop _ => exact h
  | requestShutdown => exact h
  | cancelTask hlt hex hlv _ =>
    unfold Runtime.cancelTask
    split_ifs
    · exact h
    · refine h.stay (fun _ => id) (fun _ => rfl) (fun _ => rfl) fun u hs => .inl ?_
      exact (runnable_of_update hs).resolve_right (by simp)
  | destroyFiber _ _ =>
    exact h.stay (fun _ => id) (fun _ => rfl) (fun _ => rfl) fun u hs =>
      Or.inl ((update_congr Task.state (by rfl) u).symm.trans hs)

end KeptUnless

theorem Eff.kept (he : Eff l r r') (hi : Inv r) (hl : Live r) (hh : Halted r)
    (h : Kept r) : Kept r' := by
  have hkp : KeptUnless (r.shutdownRequested = true) r := h
  exact (he.keptUnless hi hl (halted_iff.mp hh) hkp).imp he.shutdownRequested

end Veloco.Sched
