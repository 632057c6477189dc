import Veloco.Total
import Veloco.Sched.Reach

/-!
# What the counters of a Runtime count
-/

namespace Veloco.Sched

open Function
open Veloco.TimerHeap (Heap Added Removed)
open Veloco.Total

variable {r r' : Runtime} {p : PId} {t : TaskId} {s s' : System}

structure TimersCounted (r : Runtime) : Prop where
  total : r.timerCount = ∑ p ∈ Finset.range r.workerCount, (r.ps p).timers.length
  beyond : ∀ p, r.workerCount ≤ p → (r.ps p).timers = []

theorem TimersCounted.same (h : TimersCounted r) (hps : ∀ q, (r'.ps q).timers = (r.ps q).timers)
    (hw : r'.workerCount = r.workerCount) (hc : r'.timerCount = r.timerCount) :
    TimersCounted r' where
  total := by
    simp only [hw, hc, hps]
    exact h.total
  beyond q hq := (hps q).trans (h.beyond q (hw ▸ hq))

theorem TimersCounted.wake (h : TimersCounted r) (w : TaskId) : TimersCounted (r.wake w) := by
  have hw := r.wake_sameRest w
  exact h.same (fun q => by rw [hw.ps]) hw.workerCount hw.timerCount

theorem TimersCounted.change {l : List TimerId} (h : TimersCounted r) (hp : p < r.workerCount)
    (hsl : (r'.ps p).timers = l) (hps : ∀ q, q ≠ p → (r'.ps q).timers = (r.ps q).timers)
    (hw : r'.workerCount = r.workerCount)
    (hc : r'.timerCount + (r.ps p).timers.length = r.timerCount + l.length) : TimersCounted r' := by
  refine ⟨?_, fun q hq => ?_⟩
  · have hsum : ∑ q ∈ Finset.range r.workerCount, (r'.ps q).timers.length + (r.ps p).timers.length =
        ∑ q ∈ Finset.range r.workerCount, (r.ps q).timers.length + (r'.ps p).timers.length :=
      sum_change (Finset.mem_range.mpr hp) fun q hq => congrArg List.length (hps q hq)
    have htot := h.total
    rw [hsl] at hsum
    rw [hw]
    omega
  · have hqp : q ≠ p := fun he => absurd hp (Nat.not_lt.mpr (he ▸ hw ▸ hq))
    rw [hps q hqp]
    exact h.beyond q (hw ▸ hq)

theorem TimersCounted.disarm {g : Heap TimerId} {tm : TimerId} (h : TimersCounted r)
    (hr : Removed (r.heap p) g tm) (hmem : tm ∈ (r.ps p).timers) :
    TimersCounted (r.disarm p g tm) := by
  have hp : p < r.workerCount := by
    by_contra hp
    rw [h.beyond p (Nat.le_of_not_lt hp)] at hmem
    simp at hmem
  have hlen : (r.ps p).timers.length = g.items.length + 1 := hr.perm.length_eq
  have hpos : (r.ps p).timers.length ≤ r.timerCount := by
    rw [h.total]
    exact Finset.single_le_sum (f := fun q => (r.ps q).timers.length) (fun _ _ => Nat.zero_le _)
      (Finset.mem_range.mpr hp)
  refine h.change (l := g.items) hp (by simp [Runtime.disarm, Runtime.putHeap, Runtime.setTimer])
    (fun q hq => ?_) rfl ?_
  · simp [Runtime.disarm, Runtime.putHeap, Runtime.setTimer, hq]
  · show r.timerCount - 1 + (r.ps p).timers.length = r.timerCount + g.items.length
    omega

theorem Eff.timersCounted {l : Label} (he : Eff l r r') (ht : Timed r) (hc : Control r)
    (h : TimersCounted r) : TimersCounted r' := by
  cases he with
  | @arm _ p t tm d g hpc _ _ _ hadd =>
    have hlen : g.items.length = (r.ps p).timers.length + 1 := hadd.perm.length_eq
    have hp : p < r.workerCount := hc.lt (by simp [hpc])
    refine h.change (l := g.items) hp (by simp [Runtime.putHeap, Runtime.setTimer]) (fun q hq => ?_)
      rfl ?_
    · simp [Runtime.putHeap, Runtime.setTimer, hq]
    · show r.timerCount + 1 + (r.ps p).timers.length = r.timerCount + g.items.length
      omega
  | fire hrem hmem _ =>
    refine TimersCounted.wake ?_ _
    exact (h.disarm (hrem (ht.indexed _)) hmem).same (fun _ => rfl) rfl rfl
  | fireNone hrem hmem _ => exact h.disarm (hrem (ht.indexed _)) hmem
  | release _ | completeIo _ _ =>
    refine TimersCounted.wake ?_ _
    exact h.same (fun _ => rfl) rfl rfl
  | steal _ _ =>
    refine TimersCounted.same (r := r.setP _ _) ?_ (update_congr P.timers (by rfl)) rfl rfl
    exact h.same (update_congr P.timers (by rfl)) rfl rfl
  | cancelTask _ _ _ _ =>
    unfold Runtime.cancelTask
    split_ifs
    · exact h
    · exact h.same (fun _ => rfl) rfl rfl
  | _ => first
    | exact h.same (fun _ => rfl) rfl rfl
    | exact h.same (update_congr P.timers (by rfl)) rfl rfl

def Runtime.ioWaiters (r : Runtime) : ℕ :=
  count (Finset.range r.taskCount) fun t => (r.tasks t).waitingForIo

def IoCounted (r : Runtime) : Prop := r.ioWaiting = r.ioWaiters

theorem IoCounted.same (h : IoCounted r) (hc : r'.taskCount = r.taskCount)
    (hio : r'.ioWaiting = r.ioWaiting)
    (ht : ∀ u, (r'.tasks u).waitingForIo = (r.tasks u).waitingForIo) : IoCounted r' := by
  unfold IoCounted Runtime.ioWaiters
  rw [hio, hc, count_congr ht]
  exact h

theorem IoCounted.record {k : Task} (h : IoCounted r) (hc : r'.taskCount = r.taskCount)
    (hio : r'.ioWaiting = r.ioWaiting) (ht : r'.tasks = update r.tasks t k)
    (hk : k.waitingForIo = (r.tasks t).waitingForIo) : IoCounted r' :=
  h.same hc hio fun u => by
    rw [ht]
    exact update_congr Task.waitingForIo hk u

theorem Runtime.wake_keeps {γ : Type*} (g : Task → γ)
    (hg : ∀ (k : Task) (state : TaskState) (queued pending : Bool) (wakes enqueues : ℕ),
      g { k with
        state := state
        queued := queued
        wakePending := pending
        wakes := wakes
        enqueues := enqueues } = g k)
    (r : Runtime) (w u : TaskId) : g ((r.wake w).tasks u) = g (r.tasks u) := by
  unfold Runtime.wake Runtime.enqueueGlobal
  split_ifs
  · rfl
  · exact update_congr g (hg (r.tasks w) _ _ _ _ _) u
  · exact update_congr g (hg (r.tasks w) _ _ _ _ _) u
  · refine (update_congr g ?_ u).trans (update_congr g (hg (r.tasks w) _ _ _ _ _) u)
    exact hg _ _ _ _ _ _

theorem IoCounted.wake (h : IoCounted r) (w : TaskId) : IoCounted (r.wake w) :=
  h.same (r.wake_sameRest w).taskCount (r.wake_sameRest w).ioWaiting
    (r.wake_keeps Task.waitingForIo (fun _ _ _ _ _ _ => rfl) w)

theorem IoCounted.change {k : Task} (h : IoCounted r) (hlt : t < r.taskCount)
    (hc : r'.taskCount = r.taskCount) (ht : r'.tasks = update r.tasks t k)
    (hio : r'.ioWaiting + (r.tasks t).waitingForIo.toNat = r.ioWaiting + k.waitingForIo.toNat) :
    IoCounted r' := by
  have hcnt : r'.ioWaiters + (r.tasks t).waitingForIo.toNat =
      r.ioWaiters + (r'.tasks t).waitingForIo.toNat := by
    unfold Runtime.ioWaiters
    rw [hc]
    refine count_change (p := fun u => (r.tasks u).waitingForIo) (Finset.mem_range.mpr hlt) ?_
    intro u hu
    rw [ht, update_of_ne hu]
  have hsl : r'.tasks t = k := by rw [ht, update_self]
  rw [hsl] at hcnt
  unfold IoCounted at h ⊢
  omega

theorem IoCounted.pos (h : IoCounted r) (hlt : t < r.taskCount)
    (hio : (r.tasks t).waitingForIo = true) : r.ioWaiting ≠ 0 := by
  rw [h]
  exact count_pos (Finset.mem_range.mpr hlt) hio

theorem Inv.not_waitingForIo (hi : Inv r) (hpc : (r.ps p).pc = .inTask t)
    (hpt : (r.tasks t).point = .body) : (r.tasks t).waitingForIo = false := by
  have hs := (hi.inBody hpc hpt).2.2.1
  exact ((hi.waits t).unlinked (by simp [hs]) (by simp [hs]) (by simp [hs])).2.2.1

theorem IoCounted.cancelTask (h : IoCounted r) (hlt : t < r.taskCount) :
    IoCounted (r.cancelTask t) := by
  unfold Runtime.cancelTask
  split_ifs
  · exact h
  · refine h.change hlt rfl rfl ?_
    -- the guard `io_waiting != 0` holds when the task waits, so the flag is cleared
    cases hio : (r.tasks t).waitingForIo with
    | false => simp
    | true =>
      have hpos := h.pos hlt hio
      simp [hpos]
      omega

theorem Eff.ioCounted {l : Label} (he : Eff l r r') (hi : Inv r) (h : IoCounted r) :
    IoCounted r' := by
  cases he with
  | @parkIo _ p t _ hpc hpt =>
    have hlt := hi.lt_of_mem (t := t) (.worker p) (by simp [Runtime.contents, hpc, Pc.tasks])
    refine h.change hlt rfl rfl ?_
    simp [hi.not_waitingForIo hpc hpt]
  | @completeIo _ t _ hs hio =>
    have hlt := hi.lt_of_ne_new (t := t) (by simp [hs])
    have hpos := h.pos hlt hio
    refine IoCounted.wake ?_ _
    refine h.change hlt rfl rfl ?_
    show r.ioWaiting - 1 + _ = _
    simp only [hio, Bool.toNat_true, Bool.toNat_false]
    omega
  | cancelTask hlt _ _ _ => exact h.cancelTask hlt
  | spawn _ _ =>
    show r.ioWaiting = count (Finset.range (r.taskCount + 1)) _
    rw [Finset.range_add_one, count_insert (p := fun u => (r.tasks u).waitingForIo) (by simp)]
    · exact h
    · intro u hu
      have hne : u ≠ r.taskCount := Nat.ne_of_lt (Finset.mem_range.mp hu)
      simp [hne]
    · simp
  | release _ | fire _ _ _ =>
    refine IoCounted.wake ?_ _
    exact h.record rfl rfl rfl rfl
  | _ => first
    | exact h.same rfl rfl (fun _ => rfl)
    | exact h.record rfl rfl rfl rfl

/-! ## `active_workers` -/

def Pc.executing : Pc → Bool
  | .createFiber _ | .resume _ | .inTask _ | .returned _ _ => true
  | _ => false

theorem Pc.executing_of_nil {pc : Pc} (h : pc.tasks = []) : pc.executing = false := by
  cases pc <;> simp [Pc.tasks, Pc.executing] at h ⊢

theorem Pc.executing_of_taken {pc : Pc} (h : pc.taken = true) : pc.executing = false := by
  cases pc <;> simp [Pc.taken, Pc.executing] at h ⊢

def Runtime.executors (r : Runtime) : ℕ :=
  count (Finset.range r.workerCount) fun p => (r.ps p).pc.executing

def ActiveCounted (r : Runtime) : Prop := r.activeWorkers = r.executors

theorem ActiveCounted.same (h : ActiveCounted r)
    (hpc : ∀ q, (r'.ps q).pc.executing = (r.ps q).pc.executing)
    (hw : r'.workerCount = r.workerCount) (ha : r'.activeWorkers = r.activeWorkers) :
    ActiveCounted r' := by
  unfold ActiveCounted Runtime.executors
  rw [ha, hw, count_congr hpc]
  exact h

theorem ActiveCounted.turn {x : P} (h : ActiveCounted r) (hps : r'.ps = update r.ps p x)
    (hx : x.pc.executing = (r.ps p).pc.executing) (hw : r'.workerCount = r.workerCount)
    (ha : r'.activeWorkers = r.activeWorkers) : ActiveCounted r' :=
  h.same (fun q => by rw [hps]; exact update_congr (fun y : P => y.pc.executing) hx q) hw ha

theorem ActiveCounted.change {x : P} (h : ActiveCounted r) (hp : p < r.workerCount)
    (hps : r'.ps = update r.ps p x) (hw : r'.workerCount = r.workerCount)
    (ha : r'.activeWorkers + (r.ps p).pc.executing.toNat =
      r.activeWorkers + x.pc.executing.toNat) : ActiveCounted r' := by
  have hcnt : r'.executors + (r.ps p).pc.executing.toNat =
      r.executors + (r'.ps p).pc.executing.toNat := by
    unfold Runtime.executors
    rw [hw]
    refine count_change (p := fun q => (r.ps q).pc.executing) (Finset.mem_range.mpr hp) ?_
    intro q hq
    rw [hps, update_of_ne hq]
  have hsl : r'.ps p = x := by rw [hps, update_self]
  rw [hsl] at hcnt
  unfold ActiveCounted at h ⊢
  omega

theorem ActiveCounted.wake (h : ActiveCounted r) (w : TaskId) : ActiveCounted (r.wake w) := by
  have hw := r.wake_sameRest w
  exact h.same (fun q => by rw [hw.ps]) hw.workerCount hw.activeWorkers

theorem ActiveCounted.endTask {status : Status} {x : P} (h : ActiveCounted r) (hc : Control r)
    (hpc : (r.ps p).pc = .returned t status) (hps : r'.ps = update r.ps p x)
    (hx : x.pc = .top) (hw : r'.workerCount = r.workerCount)
    (ha : r'.activeWorkers = r.activeWorkers - 1) : ActiveCounted r' := by
  have hp : p < r.workerCount := hc.lt (by simp [hpc])
  have hpos : r.activeWorkers ≠ 0 := by
    rw [h]
    exact count_pos (Finset.mem_range.mpr hp) (by rw [hpc]; rfl)
  refine h.change hp hps hw ?_
  rw [ha, hpc, hx]
  show r.activeWorkers - 1 + 1 = r.activeWorkers + 0
  omega

theorem Eff.activeCounted {l : Label} (he : Eff l r r') (hc : Control r) (h : ActiveCounted r) :
    ActiveCounted r' := by
  cases he with
  | goto hg =>
    refine h.turn rfl ?_ rfl rfl
    rw [Pc.executing_of_nil hg.from_nil]
    exact Pc.executing_of_nil hg.to_nil
  | regrip hfr hto _ =>
    refine h.turn rfl ?_ rfl rfl
    rw [Pc.executing_of_taken hfr]
    exact Pc.executing_of_taken hto
  | start hpc _ _ =>
    refine h.change (hc.lt (by simp [hpc])) rfl rfl ?_
    rw [hpc]
    rfl
  | endFail hpc _ => exact h.endTask hc hpc rfl rfl rfl rfl
  | endDone hpc _ _ => exact h.endTask hc hpc rfl rfl rfl rfl
  | endWoken hpc _ | endYield hpc _ => exact h.endTask hc hpc rfl rfl rfl rfl
  | endParked hpc _ _ => exact h.endTask hc hpc rfl rfl rfl rfl
  | fiberError hpc _ =>
    refine h.turn rfl ?_ rfl rfl
    rcases hpc with hpc | hpc <;> rw [hpc] <;> rfl
  | steal hpc _ =>
    refine ActiveCounted.turn (r := r.setP _ _) ?_ rfl ?_ rfl rfl
    · exact h.same (fun q => by rw [setRunnable_pc]) rfl rfl
    · rw [setRunnable_pc, hpc]
      rfl
  | localize _ _ _ => exact h.same (fun q => congrArg Pc.executing (setRunnable_pc r _ q _)) rfl rfl
  | arm _ _ _ _ _ | fireNone _ _ _ =>
    exact h.same (fun q => congrArg Pc.executing (putHeap_pc _ _ q _)) rfl rfl
  | fire _ _ _ =>
    refine ActiveCounted.wake ?_ _
    exact h.same (fun q => congrArg Pc.executing (putHeap_pc _ _ q _)) rfl rfl
  | release _ | completeIo _ _ =>
    refine ActiveCounted.wake ?_ _
    exact h.same (fun _ => rfl) rfl rfl
  | cancelTask _ _ _ _ =>
    unfold Runtime.cancelTask
    split_ifs
    · exact h
    · exact h.same (fun _ => rfl) rfl rfl
  | ownerPop hpc _ | unqueue hpc | pull hpc _ _ | keepLocal hpc | keepGlobal hpc | drop hpc _
  | cancelHeld hpc _ _ | created hpc | create hpc | resume hpc _ | leave hpc _ | fiberYield hpc _
  | finish hpc _ | idleEnter hpc _ | idleAgain hpc _ | idleSkip hpc _ | idleLeave hpc _
  | runBegin hpc _ | runReturn hpc | shutdownBegin hpc =>
    refine h.turn rfl ?_ rfl rfl
    rw [hpc]
    rfl
  | _ => exact h.same (fun _ => rfl) rfl rfl

def Accounted (r : Runtime) : Prop := r.spawned = r.completed + r.cancelled + r.liveTasks

theorem Accounted.wake (h : Accounted r) (w : TaskId) : Accounted (r.wake w) := by
  have hw := r.wake_sameRest w
  unfold Accounted
  rw [hw.spawned, hw.completed, hw.cancelled, hw.liveTasks]
  exact h

theorem Accounted.finish (h : Accounted r) (hl : Live r) (hlt : t < r.taskCount)
    (hlv : (r.tasks t).state.terminal = false) (hs : r'.spawned = r.spawned)
    (hd : r'.liveTasks = r.liveTasks - 1)
    (he : r'.completed + r'.cancelled = r.completed + r.cancelled + 1) : Accounted r' := by
  have hpos := hl.pos_of_mem (Runtime.mem_live.mpr ⟨hlt, hlv⟩)
  unfold Accounted at h ⊢
  omega

theorem Eff.accounted {l : Label} (he : Eff l r r') (hi : Inv r) (hl : Live r) (h : Accounted r) :
    Accounted r' := by
  have hmem : ∀ {q u}, u ∈ (r.ps q).pc.tasks → u < r.taskCount := fun hu => hi.lt_of_mem (.worker _) hu
  cases he with
  | cancelHeld hpc hs _ | endFail hpc hs =>
    refine h.finish hl (hmem (by rw [hpc]; exact List.mem_singleton_self _)) (by rw [hs]; rfl) rfl rfl ?_
    exact (Nat.add_assoc _ _ _).symm
  | endDone hpc hs _ =>
    refine h.finish hl (hmem (by rw [hpc]; exact List.mem_singleton_self _)) (by rw [hs]; rfl) rfl rfl ?_
    exact Nat.add_right_comm _ _ _
  | cancelTask hlt hex hlv _ =>
    unfold Runtime.cancelTask
    rw [if_neg (by simp [hlv, hex])]
    exact h.finish hl hlt hlv rfl rfl (Nat.add_assoc _ _ _).symm
  | spawn _ _ => exact congrArg (· + 1) h
  | release _ | fire _ _ _ | completeIo _ _ =>
    refine Accounted.wake ?_ _
    exact h
  | _ => exact h

structure Counted (r : Runtime) : Prop where
  timers : TimersCounted r
  io : IoCounted r
  active : ActiveCounted r
  accounts : Accounted r

theorem Eff.counted {l : Label} (he : Eff l r r') (hs : Sound r) (h : Counted r) : Counted r' where
  timers := he.timersCounted hs.timed hs.control h.timers
  io := he.ioCounted hs.inv h.io
  active := he.activeCounted hs.control h.active
  accounts := he.accounted hs.inv hs.live h.accounts

theorem Initial.counted {n : ℕ} (h : Initial n s) : Counted s.rt := by
  rw [h.rt]
  refine ⟨⟨?_, fun _ _ => rfl⟩, ?_, ?_, rfl⟩
  · simp
  · exact (count_eq_zero.mpr (by simp)).symm
  · exact (count_eq_zero.mpr fun _ _ => rfl).symm

theorem counted_run {n : ℕ} {as : List Action} (hnt : Initial n s)
    (hrun : Trans.run step s as = some s') : Sound s'.rt ∧ Counted s'.rt :=
  run_keeps_always (fun _ _ _ he hs h => he.counted hs h) hrun hnt.sound hnt.counted

/-- **The counters of a Runtime are exact.** -/
theorem counters_exact {n : ℕ} {as : List Action} (hnt : Initial n s)
    (hrun : Trans.run step s as = some s') :
    s'.rt.activeWorkers = count (Finset.range s'.rt.workerCount) (fun p => (s'.rt.ps p).pc.executing) ∧
      s'.rt.activeWorkers ≤ s'.rt.workerCount ∧
      s'.rt.ioWaiting = count (Finset.range s'.rt.taskCount) (fun t => (s'.rt.tasks t).waitingForIo) ∧
      s'.rt.timerCount = ∑ p ∈ Finset.range s'.rt.workerCount, (s'.rt.ps p).timers.length := by
  obtain ⟨-, hctd⟩ := counted_run hnt hrun
  refine ⟨hctd.active, ?_, hctd.io, hctd.timers.total⟩
  rw [hctd.active]
  exact (Finset.card_filter_le _ _).trans_eq (Finset.card_range _)

def twoWorkers : List Action :=
  [Action.owner .spawn, .owner .spawn, .owner .run] ++ List.replicate 8 (Action.worker 1 {}) ++
    List.replicate 11 (Action.worker 0 {})

theorem counters_exact_two : ∃ s : System, Trans.run step { rt := { workerCount := 2 } } twoWorkers =
    some s ∧ s.rt.activeWorkers = 2 ∧ s.rt.activeWorkers ≤ s.rt.workerCount := by
  have hvl : (Trans.run step { rt := { workerCount := 2 } } twoWorkers).map
      (fun s => s.rt.activeWorkers) = some 2 := by rfl
  obtain ⟨s, hs, heq⟩ := Option.map_eq_some_iff.mp hvl
  exact ⟨s, hs, heq, (counters_exact ⟨by decide, rfl⟩ hs).2.1⟩

/-- **An armed timer is in the heap of one worker**, at the index it names. -/
theorem timers_placed {n : ℕ} {as : List Action} (hnt : Initial n s)
    (hrun : Trans.run step s as = some s') (tm : TimerId) :
    ((s'.rt.node tm).active = true ↔ ∃ p < s'.rt.workerCount, tm ∈ (s'.rt.ps p).timers) ∧
      (∀ p q i j, (s'.rt.ps p).timers[i]? = some tm → (s'.rt.ps q).timers[j]? = some tm →
        p = q ∧ i = j ∧ (s'.rt.node tm).heapIndex = i) ∧
      ∀ w, (s'.rt.timers tm).task = some w → (s'.rt.node tm).active = true := by
  obtain ⟨hsou, hctd⟩ := counted_run hnt hrun
  have htim := hsou.timed
  refine ⟨⟨fun hact => ?_, fun ⟨p, _, hm⟩ => htim.active_of_mem hm⟩,
    fun p q i j hi hj => ?_, htim.armed tm⟩
  · obtain ⟨p, hp⟩ := htim.inHeap tm hact
    refine ⟨p, ?_, hp⟩
    by_contra hge
    rw [hctd.timers.beyond p (Nat.le_of_not_lt hge)] at hp
    cases hp
  · have hind := (htim.indexed p i tm hi).2
    exact ⟨htim.only p q tm (List.mem_of_getElem? hi) (List.mem_of_getElem? hj),
      hind.symm.trans (htim.indexed q j tm hj).2, hind⟩

def armedTimer : List Action :=
  [Action.owner .spawn, .owner .run] ++ List.replicate 8 (Action.worker 0 {}) ++
    [Action.call 0 (.timerArm 0 10 0 true)]

theorem timers_placed_armed : ∃ s : System, Trans.run step { rt := { workerCount := 1 } } armedTimer =
    some s ∧ (s.rt.ps 0).timers[0]? = some 0 ∧ (s.rt.node 0).heapIndex = 0 := by
  have hvl : (Trans.run step { rt := { workerCount := 1 } } armedTimer).map
      (fun s => (s.rt.ps 0).timers[0]?) = some (some 0) := by decide +kernel
  obtain ⟨s, hs, hfir⟩ := Option.map_eq_some_iff.mp hvl
  obtain ⟨-, hind, -⟩ := timers_placed ⟨by decide, rfl⟩ hs 0
  exact ⟨s, hs, hfir, (hind 0 0 0 0 hfir hfir).2.2⟩

end Veloco.Sched
