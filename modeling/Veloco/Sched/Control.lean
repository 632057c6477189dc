import Veloco.Sched.KeepCalls
import Veloco.Sched.Timers

/-!
# Workers, the run and the number of live tasks
-/

namespace Veloco.Sched

open Function List Sched.Runtime

variable {r r' : Runtime} {p : PId} {t : TaskId}

/-! ## Positions of the workers -/

structure Control (r : Runtime) : Prop where
  pos : 0 < r.workerCount
  off : ∀ p, r.workerCount ≤ p → (r.ps p).pc = .off
  stopping : ∀ p, (r.ps p).pc = .stopping → p = 0
  idle : ∀ p, (r.ps p).idle = true → (r.ps p).pc = .idlePoll
  idleWorkers :
    r.idleWorkers ≤ ((Finset.range r.workerCount).filter fun p => (r.ps p).idle = true).card
  outside : (r.ps 0).pc.outside = true → r.running = false

theorem Control.lt (h : Control r) (hpc : (r.ps p).pc ≠ .off) : p < r.workerCount := by
  by_contra hp
  exact hpc (h.off p (Nat.le_of_not_lt hp))

theorem Control.same (h : Control r) (hpc : ∀ q, (r'.ps q).pc = (r.ps q).pc)
    (hdl : ∀ q, (r'.ps q).idle = (r.ps q).idle) (hw : r'.workerCount = r.workerCount)
    (hi : r'.idleWorkers = r.idleWorkers) (hr : r.running = false → r'.running = false) :
    Control r' where
  pos := hw ▸ h.pos
  off q hq := (hpc q).trans (h.off q (hw ▸ hq))
  stopping q hq := h.stopping q ((hpc q).symm.trans hq)
  idle q hq := (hpc q).trans (h.idle q ((hdl q).symm.trans hq))
  idleWorkers := by
    simp only [hi, hw, hdl]
    exact h.idleWorkers
  outside ho := hr (h.outside (hpc 0 ▸ ho))

theorem Control.change {x : P} (h : Control r) (hps : r'.ps = update r.ps p x)
    (hlt : p < r.workerCount) (hx : x.idle = true → x.pc = .idlePoll)
    (hst : x.pc = .stopping → p = 0) (hw : r'.workerCount = r.workerCount)
    (hi : r'.idleWorkers ≤
      ((Finset.range r'.workerCount).filter fun q => (r'.ps q).idle = true).card)
    (hout : (r'.ps 0).pc.outside = true → r'.running = false) : Control r' := by
  have hsm : ∀ q, q ≠ p → r'.ps q = r.ps q := fun q hq => by rw [hps, update_of_ne hq]
  have hsl : r'.ps p = x := by rw [hps, update_self]
  refine ⟨hw ▸ h.pos, fun q hq => ?_, fun q hq => ?_, fun q hq => ?_, hi, hout⟩
  · have hqp : q ≠ p := fun he => absurd hlt (Nat.not_lt.mpr (by rw [← he, ← hw]; exact hq))
    rw [hsm q hqp]
    exact h.off q (hw ▸ hq)
  · by_cases hqp : q = p
    · rw [hqp, hsl] at hq
      exact hqp.trans (hst hq)
    · exact h.stopping q (hsm q hqp ▸ hq)
  · by_cases hqp : q = p
    · rw [hqp, hsl] at hq ⊢
      exact hx hq
    · rw [hsm q hqp] at hq ⊢
      exact h.idle q hq

theorem Control.move {x : P} (h : Control r) (hps : r'.ps = update r.ps p x)
    (hdl : x.idle = (r.ps p).idle) (hlt : p < r.workerCount)
    (hawake : (r.ps p).pc = .idlePoll → (r.ps p).idle = false) (hst : x.pc ≠ .stopping)
    (hout : x.pc.outside = true → (r.ps p).pc.outside = true ∨ r.running = false)
    (hw : r'.workerCount = r.workerCount) (hi : r'.idleWorkers = r.idleWorkers)
    (hr : r'.running = r.running) : Control r' := by
  refine h.change hps hlt (fun hx => ?_) (fun hx => absurd hx hst) hw ?_ fun ho => ?_
  · rw [hdl] at hx
    simp [hawake (h.idle p hx)] at hx
  · have hidle' : ∀ q, (r'.ps q).idle = (r.ps q).idle := fun q => by
      rw [hps]
      exact update_congr P.idle hdl q
    simp only [hi, hw, hidle']
    exact h.idleWorkers
  · rw [hr]
    by_cases hp : 0 = p
    · rw [hps, hp, update_self] at ho
      rcases hout ho with hp' | hf
      · exact h.outside (hp ▸ hp')
      · exact hf
    · rw [hps, update_of_ne hp] at ho
      exact h.outside ho

theorem Control.turn {x : P} {a : Pc} (h : Control r) (hpc : (r.ps p).pc = a)
    (hps : r'.ps = update r.ps p x) (hdl : x.idle = (r.ps p).idle)
    (ha : a ≠ .off ∧ a ≠ .idlePoll) (hb : x.pc ≠ .stopping ∧ x.pc.outside = false)
    (hw : r'.workerCount = r.workerCount) (hi : r'.idleWorkers = r.idleWorkers)
    (hr : r'.running = r.running) : Control r' :=
  h.move hps hdl (h.lt (hpc ▸ ha.1)) (fun hi => absurd (hpc.symm.trans hi) ha.2) hb.1
    (by simp [hb.2]) hw hi hr

theorem Control.wake (h : Control r) (t : TaskId) : Control (r.wake t) := by
  have hw := r.wake_sameRest t
  exact h.same (fun q => by rw [hw.ps]) (fun q => by rw [hw.ps]) hw.workerCount hw.idleWorkers
    fun hr => hw.running.trans hr

theorem setRunnable_pc (r : Runtime) (v q : PId) (l : List TaskId) :
    ((r.setP v { r.ps v with runnable := l }).ps q).pc = (r.ps q).pc :=
  update_congr P.pc (by rfl) q

theorem Control.setRunnable (h : Control r) (v : PId) (l : List TaskId) :
    Control (r.setP v { r.ps v with runnable := l }) :=
  h.same (setRunnable_pc r v · l) (update_congr P.idle rfl) rfl rfl id

theorem Control.putHeap (h : Control r) (q : PId) (g : TimerHeap.Heap TimerId) :
    Control (r.putHeap q g) :=
  h.same (update_congr P.pc (by rfl)) (update_congr P.idle (by rfl)) rfl rfl id

theorem Control.keep_outside {x : P} (h : Control r)
    (hps : r'.ps = update r.ps p x) (hr : r'.running = r.running)
    (hx : x.pc.outside = false) : (r'.ps 0).pc.outside = true → r'.running = false := by
  intro ho
  rw [hr]
  by_cases hp : 0 = p
  · rw [hps, hp, update_self, hx] at ho
    simp at ho
  · rw [hps, update_of_ne hp] at ho
    exact h.outside ho

theorem Control.idleEnter (h : Control r) (hpc : (r.ps p).pc = .idle)
    (hdl : (r.ps p).idle = false) :
    Control { r.setP p { r.ps p with idle := true, pc := .idlePoll } with
      idleWorkers := r.idleWorkers + 1 } := by
  have hlt : p < r.workerCount := h.lt (by simp [hpc])
  refine h.change rfl hlt (fun _ => rfl) (by simp) rfl ?_ (h.keep_outside rfl rfl rfl)
  have hsub : insert p ((Finset.range r.workerCount).filter fun q => (r.ps q).idle = true) ⊆
      (Finset.range r.workerCount).filter fun q =>
        (update r.ps p { r.ps p with idle := true, pc := .idlePoll } q).idle = true := by
    intro q hq
    by_cases hqp : q = p
    · simp [hqp, hlt]
    · simpa [hqp] using hq
  calc r.idleWorkers + 1
      ≤ ((Finset.range r.workerCount).filter fun q => (r.ps q).idle = true).card + 1 :=
        Nat.add_le_add_right h.idleWorkers 1
    _ = (insert p ((Finset.range r.workerCount).filter fun q => (r.ps q).idle = true)).card := by
        rw [Finset.card_insert_of_notMem (by simp [hdl])]
    _ ≤ _ := Finset.card_le_card hsub

theorem Control.idleLeave (h : Control r) (hpc : (r.ps p).pc = .idlePoll)
    (hdl : (r.ps p).idle = true) :
    Control { r.setP p { r.ps p with idle := false, pc := .top } with
      idleWorkers := r.idleWorkers - 1 } := by
  have hlt : p < r.workerCount := h.lt (by simp [hpc])
  refine h.change rfl hlt (by simp) (by simp) rfl ?_ (h.keep_outside rfl rfl rfl)
  have hsub : ((Finset.range r.workerCount).filter fun q => (r.ps q).idle = true).erase p ⊆
      (Finset.range r.workerCount).filter fun q =>
        (update r.ps p { r.ps p with idle := false, pc := .top } q).idle = true := by
    intro q hq
    obtain ⟨hqp, hq⟩ := Finset.mem_erase.mp hq
    simpa [hqp] using hq
  calc r.idleWorkers - 1
      ≤ ((Finset.range r.workerCount).filter fun q => (r.ps q).idle = true).card - 1 :=
        Nat.sub_le_sub_right h.idleWorkers 1
    _ = (((Finset.range r.workerCount).filter fun q => (r.ps q).idle = true).erase p).card := by
        rw [Finset.card_erase_of_mem (by simp [hlt, hdl])]
    _ ≤ _ := Finset.card_le_card hsub

theorem Eff.control {l : Label} (he : Eff l r r') (h : Control r) : Control r' := by
  cases he with
  | goto hg =>
    exact h.move rfl rfl hg.lt (fun hi => absurd hi hg.from_awake) hg.to_plain.2 hg.outside rfl rfl rfl
  | runReturn hpc =>
    exact h.move rfl rfl (h.lt (by simp [hpc])) (by simp [hpc]) (by simp) (by simp [hpc, Pc.outside])
      rfl rfl rfl
  | steal hpc hv =>
    exact (h.setRunnable _ _).turn ((setRunnable_pc r _ _ _).trans hpc) rfl rfl (by simp)
      (by simp [Pc.outside]) rfl rfl rfl
  | ownerPop hpc _ => exact h.turn hpc rfl rfl (by simp) (by simp [Pc.outside]) rfl rfl rfl
  | pull hpc _ _ => exact h.turn hpc rfl rfl (by simp) (by simp [Pc.outside]) rfl rfl rfl
  | drop hpc _ => exact h.turn hpc rfl rfl (by simp) (by simp [Pc.outside]) rfl rfl rfl
  | unqueue hpc | keepLocal hpc | keepGlobal hpc | created hpc | create hpc =>
    exact h.turn hpc rfl rfl (by simp) (by simp [Pc.outside]) rfl rfl rfl
  | cancelHeld hpc _ _ | start hpc _ _ | resume hpc _ =>
    exact h.turn hpc rfl rfl (by simp) (by simp [Pc.outside]) rfl rfl rfl
  | leave hpc _ | fiberYield hpc _ | finish hpc _ | endFail hpc _ | endDone hpc _ _ =>
    exact h.turn hpc rfl rfl (by simp) (by simp [Pc.outside]) rfl rfl rfl
  | endWoken hpc _ | endYield hpc _ | endParked hpc _ _ =>
    exact h.turn hpc rfl rfl (by simp) (by simp [Pc.outside]) rfl rfl rfl
  | @regrip _ p b hfr hto _ =>
    refine h.move rfl rfl (h.lt fun hoff => by simp [hoff, Pc.taken] at hfr)
      (fun hi => by simp [hi, Pc.taken] at hfr) (fun hi => ?_) (fun ho => ?_) rfl rfl rfl
    · have hi : b = .stopping := hi
      simp [hi, Pc.taken] at hto
    · have ho : b.outside = true := ho
      cases b <;> simp [Pc.taken, Pc.outside] at hto ho
  | fiberError hpc _ =>
    rcases hpc with hpc | hpc <;>
      exact h.turn hpc rfl rfl (by simp) (by simp [Pc.outside]) rfl rfl rfl
  | release _ =>
    refine Control.wake ?_ _
    exact h.same (fun _ => rfl) (fun _ => rfl) rfl rfl id
  | fire _ _ _ =>
    refine Control.wake ?_ _
    exact (h.putHeap _ _).same (fun _ => rfl) (fun _ => rfl) rfl rfl id
  | completeIo _ _ =>
    refine Control.wake ?_ _
    exact h.same (fun _ => rfl) (fun _ => rfl) rfl rfl id
  | fireNone _ _ _ => exact (h.putHeap _ _).same (fun _ => rfl) (fun _ => rfl) rfl rfl id
  | arm _ _ _ _ _ => exact (h.putHeap _ _).same (fun _ => rfl) (fun _ => rfl) rfl rfl id
  | idleEnter hpc hdl => exact h.idleEnter hpc hdl
  | idleAgain hpc hdl => simp [h.idle _ hdl] at hpc
  | idleSkip hpc hdl =>
    exact h.move rfl rfl (h.lt (by simp [hpc])) (fun _ => hdl) (by simp) (by simp [Pc.outside])
      rfl rfl rfl
  | idleLeave hpc hdl => exact h.idleLeave hpc hdl
  | runBegin hpc hlt =>
    refine h.change (p := 0) rfl hlt (fun hi => ?_) (by simp) rfl (Nat.zero_le _) (by simp [Pc.outside])
    simp [h.idle 0 hi] at hpc
  | shutdownBegin hpc =>
    refine h.change (p := 0) rfl h.pos (fun hi => ?_) (fun _ => rfl) rfl ?_ (fun _ => rfl)
    · simp [h.idle 0 hi] at hpc
    · have hdl : ∀ q, (r.shutdownBegin.ps q).idle = (r.ps q).idle := update_congr P.idle (by rfl)
      simp only [hdl]
      exact h.idleWorkers
  | cancelTask _ _ _ _ =>
    unfold Runtime.cancelTask
    split_ifs
    · exact h
    · exact h.same (fun _ => rfl) (fun _ => rfl) rfl rfl id
  | localize _ _ _ => exact (h.setRunnable _ _).same (fun _ => rfl) (fun _ => rfl) rfl rfl id
  | _ => exact h.same (fun _ => rfl) (fun _ => rfl) rfl rfl (fun hr => by first | rfl | exact hr)

def Runtime.live (r : Runtime) : Finset TaskId :=
  (Finset.range r.taskCount).filter fun t => (r.tasks t).state.terminal = false

def Live (r : Runtime) : Prop := r.liveTasks = r.live.card

theorem Runtime.mem_live : t ∈ r.live ↔ t < r.taskCount ∧ (r.tasks t).state.terminal = false := by
  simp [live]

theorem Live.same (h : Live r) (hc : r'.taskCount = r.taskCount) (hl : r'.liveTasks = r.liveTasks)
    (ht : ∀ u, (r'.tasks u).state.terminal = (r.tasks u).state.terminal) : Live r' := by
  have hset : r'.live = r.live := by
    ext u
    rw [mem_live, mem_live, hc, ht]
  unfold Live
  rw [hl, hset]
  exact h

theorem Live.record {k : Task} (h : Live r) (hc : r'.taskCount = r.taskCount)
    (hl : r'.liveTasks = r.liveTasks) (ht : r'.tasks = update r.tasks t k)
    (hk : k.state.terminal = (r.tasks t).state.terminal) : Live r' :=
  h.same hc hl fun u => by
    rw [ht]
    exact update_congr (fun x : Task => x.state.terminal) hk u

theorem Live.finish {k : Task} (h : Live r) (hlt : t < r.taskCount)
    (hlv : (r.tasks t).state.terminal = false) (hc : r'.taskCount = r.taskCount)
    (hl : r'.liveTasks = r.liveTasks - 1) (ht : r'.tasks = update r.tasks t k)
    (hk : k.state.terminal = true) : Live r' := by
  have hset : r'.live = r.live.erase t := by
    ext u
    rw [Finset.mem_erase, mem_live, mem_live, hc, ht]
    by_cases hu : u = t <;> simp [hu, hk]
  unfold Live
  rw [hl, hset, Finset.card_erase_of_mem (mem_live.mpr ⟨hlt, hlv⟩), h]

theorem Runtime.wake_terminal (r : Runtime) (w u : TaskId) :
    ((r.wake w).tasks u).state.terminal = (r.tasks u).state.terminal := by
  by_cases hu : u = w
  · subst hu
    unfold wake enqueueGlobal
    split_ifs with h1 h2 h3
    · rfl
    · simp
    all_goals
      rw [← not_or, not_not] at h1
      rcases h1 with h1 | h1 <;> simp [h1, TaskState.terminal]
  · rw [wake_tasks_ne r hu]

theorem Live.wake (h : Live r) (w : TaskId) : Live (r.wake w) :=
  h.same (r.wake_sameRest w).taskCount (r.wake_sameRest w).liveTasks (r.wake_terminal w)

theorem Live.spawn {k : Task} (h : Live r) (hk : k.state.terminal = false)
    (hc : r'.taskCount = r.taskCount + 1) (hl : r'.liveTasks = r.liveTasks + 1)
    (ht : r'.tasks = update r.tasks r.taskCount k) : Live r' := by
  have hset : r'.live = insert r.taskCount r.live := by
    ext u
    rw [Finset.mem_insert, mem_live, mem_live, hc, ht]
    by_cases hu : u = r.taskCount
    · simp [hu, hk]
    · have hlt : u < r.taskCount + 1 ↔ u < r.taskCount :=
        ⟨fun h' => (Nat.lt_succ_iff_lt_or_eq.mp h').resolve_right hu, Nat.lt_succ_of_lt⟩
      simp [hu, hlt]
  unfold Live
  rw [hl, hset, Finset.card_insert_of_notMem (by simp [mem_live]), h]

theorem Eff.live {l : Label} (he : Eff l r r') (hi : Inv r) (h : Live r) : Live r' := by
  have hmem : ∀ {q u}, u ∈ (r.ps q).pc.tasks → u < r.taskCount := fun hu => hi.lt_of_mem (.worker _) hu
  have hbd : ∀ {q u}, (r.ps q).pc = .inTask u → (r.tasks u).point = .body →
      (r.tasks u).state.terminal = false := fun hpc hpt => by
    rw [(hi.inBody hpc hpt).2.2.1]
    rfl
  cases he with
  | cancelHeld hpc hs _ =>
    exact h.finish (hmem (by rw [hpc]; exact mem_singleton_self _)) (by rw [hs]; rfl) rfl rfl rfl
      rfl
  | endFail hpc hs =>
    exact h.finish (hmem (by rw [hpc]; exact mem_singleton_self _)) (by rw [hs]; rfl) rfl rfl rfl
      rfl
  | endDone hpc hs _ =>
    exact h.finish (hmem (by rw [hpc]; exact mem_singleton_self _)) (by rw [hs]; rfl) rfl rfl rfl
      rfl
  | cancelTask hlt hex hlv _ =>
    unfold Runtime.cancelTask
    rw [if_neg (by simp [hlv, hex])]
    exact h.finish hlt hlv rfl rfl rfl rfl
  | spawn _ _ => exact h.spawn rfl rfl rfl rfl
  | start hpc hs _ => exact h.record rfl rfl rfl (by rw [hs]; rfl)
  | endWoken hpc hw =>
    refine h.record rfl rfl rfl ?_
    rcases (hi.waits _).pending hw with hs | hs <;> rw [hs] <;> rfl
  | yield hpc hpt => exact h.record rfl rfl rfl (hbd hpc hpt).symm
  | park hpc hpt _ => exact h.record rfl rfl rfl (hbd hpc hpt).symm
  | parkIo hpc hpt => exact h.record rfl rfl rfl (hbd hpc hpt).symm
  | arm hpc hpt _ _ _ => exact h.record rfl rfl rfl (hbd hpc hpt).symm
  | release _ | completeIo _ _ | fire _ _ _ =>
    refine Live.wake ?_ _
    exact h.record rfl rfl rfl rfl
  | _ => first
    | exact h.same rfl rfl (fun _ => rfl)
    | exact h.record rfl rfl rfl rfl

end Veloco.Sched
