import Veloco.Sched.Affinity
import Veloco.Sched.GlobalFifo
import Veloco.Sched.Objects

/-!
# A Runtime with one worker is first in, first out
-/

namespace Veloco.Sched

open Function List Option Sched.Runtime Sched.System

variable {r r₁ r' : Runtime} {p : PId} {t : TaskId} {s s₁ s' : System}

variable {e : Env} {a : Action} {as : List Action}

abbrev Enqueues (r r' : Runtime) : Prop := OnlyEnqueues (fun _ => True) r r'

theorem Enqueues.spawn (hi : Inv r) (h : r.spawn = some r') : Enqueues r r' := by
  unfold Runtime.spawn at h
  split_ifs at h
  cases h
  have hfre : (r.tasks r.taskCount).enqueues = 0 := by rw [hi.fresh _ (Nat.le_refl _)]
  have hnew : Enqueues r { r.setTask r.taskCount { state := .runnable } with
      taskCount := r.taskCount + 1 } := .of_same rfl (fun _ _ => rfl) rfl (same_enqueues hfre.symm) (same_ps r)
  have hps := hnew.enqueueGlobal r.taskCount
  exact { hps with }

theorem Enqueues.park (s : System) (q : WaitQueue) (t : TaskId) :
    Enqueues s.rt (s.park q t).1.rt := by
  unfold System.park Runtime.park
  split_ifs
  · exact .refl s.rt
  · exact .of_same rfl (fun _ hk => absurd trivial hk) rfl (same_enqueues rfl) (same_ps s.rt)

theorem Enqueues.waitPop {q : WaitQueue} {w : TaskId} (h : r.waitPop q = some (w, r')) :
    Enqueues r (r'.wake w) := by
  unfold Runtime.waitPop at h
  split at h
  · cases h
  · cases h
    refine .wake ?_ _
    exact .of_same rfl (fun _ hk => absurd trivial hk) rfl (same_enqueues rfl) (same_ps r)

theorem Enqueues.releaseAll (q : WaitQueue) (f : Wait → Wait) (n : ℕ) (s : System) :
    Enqueues s.rt (System.releaseAll q f n s).rt := by
  induction n generalizing s with
  | zero => exact .refl s.rt
  | succ n ih =>
    unfold System.releaseAll
    split
    · exact .refl s.rt
    · next w r hpop => exact (Enqueues.waitPop hpop).trans (ih (s.release w r (f (s.wait w))))

theorem Enqueues.timerArm (r : Runtime) (p : PId) (t : TaskId) (tm : TimerId) (delay now : ℕ)
    (ok : Bool) : Enqueues r (r.timerArm p t tm delay now ok).1 := by
  unfold Runtime.timerArm
  split_ifs
  · exact .refl r
  · exact .refl r
  · dsimp only
    have harm : Enqueues r { (r.setTask t { r.tasks t with state := .sleeping, timerResult := .ok }).setTimer
        tm ⟨some t, some p⟩ with
      node := update r.node tm { r.node tm with deadline := now + delay } } :=
      .of_same rfl (fun _ _ => rfl) rfl (same_enqueues rfl) (same_ps r)
    split
    · refine harm.trans ?_
      exact .of_same rfl (fun _ _ => rfl) rfl (same_enqueues rfl) (onward_update rfl (.inl rfl))
    · refine harm.trans ?_
      exact .of_same rfl (fun _ _ => rfl) rfl (same_enqueues rfl) (same_ps _)

theorem Enqueues.channelSend (s : System) (c : ℕ) (t : TaskId) (value : Value) :
    Enqueues s.rt (s.channelSend c t value).1.rt := by
  have hpr := Enqueues.park s (.senders c) t
  unfold System.channelSend
  split
  · exact .refl s.rt
  · split
    · next w r hpop =>
      dsimp only
      split <;> exact .waitPop hpop
    · split
      · exact .refl s.rt
      · generalize s.park (.senders c) t = x at hpr
        obtain ⟨s₁, status⟩ := x
        cases status with
        | none => exact hpr
        | some status => exact hpr

theorem Enqueues.channelReceive (s : System) (c : ℕ) (t : TaskId) (out : Cell) :
    Enqueues s.rt (s.channelReceive c t out).1.rt := by
  have hpr := Enqueues.park s (.receivers c) t
  unfold System.channelReceive
  split
  · dsimp only
    split
    · next w r hpop => exact .waitPop hpop
    · exact .refl s.rt
  · split
    · next w r hpop => exact .waitPop hpop
    · split
      · exact .refl s.rt
      · generalize s.park (.receivers c) t = x at hpr
        obtain ⟨s₁, status⟩ := x
        cases status with
        | none => exact hpr
        | some status => exact hpr

theorem Enqueues.call (hi : Inv s.rt) (hpc : (s.rt.ps p).pc = .inTask t) (c : Call) :
    Enqueues s.rt (s.call p t c).1.rt := by
  cases c with
  | spawn =>
    unfold System.call
    dsimp only
    split
    · next r hr => exact .spawn hi hr
    · exact .refl s.rt
  | yield =>
    show Enqueues s.rt (s.rt.yieldTask t)
    unfold yieldTask
    split_ifs
    · exact .refl s.rt
    · exact .setTask (.refl s.rt) rfl
  | join target =>
    show Enqueues s.rt (s.rt.join t target).1
    unfold Runtime.join
    split_ifs
    all_goals try exact .refl s.rt
    exact .of_same rfl (fun _ hk => absurd trivial hk) rfl (same_enqueues rfl) (same_ps s.rt)
  | mutexLock m =>
    show Enqueues s.rt (s.mutexLock m t).1.rt
    unfold mutexLock
    split
    · exact .refl s.rt
    · split_ifs
      · exact .refl s.rt
      · exact .park s _ t
  | mutexUnlock m =>
    show Enqueues s.rt (s.mutexUnlock m t).1.rt
    unfold mutexUnlock
    split_ifs
    · exact .refl s.rt
    · split
      · exact .refl s.rt
      · next w r hpop => exact .waitPop hpop
  | semaphoreWait i =>
    show Enqueues s.rt (s.semaphoreWait i t).1.rt
    unfold semaphoreWait
    split_ifs
    · exact .refl s.rt
    · exact .park s _ t
  | waitGroupWait g =>
    show Enqueues s.rt (s.waitGroupWait g t).1.rt
    unfold waitGroupWait
    split_ifs
    · exact .refl s.rt
    · exact .park s _ t
  | channelSend c value => exact .channelSend s c t value
  | channelReceive c out => exact .channelReceive s c t out
  | timerArm tm delay now ok => exact .timerArm s.rt p t tm delay now ok
  | parkForIo io =>
    show Enqueues s.rt (s.rt.parkForIo p t io).1
    unfold parkForIo
    split_ifs
    · exact .of_same rfl (fun _ _ => rfl) rfl (same_enqueues rfl) (same_ps s.rt)
    · exact .refl s.rt
  | fiberYield => exact (OnlyEnqueues.execute hpc rfl).2.2.2 _ _
  | finish => exact (OnlyEnqueues.execute hpc rfl).2.2.2 _ _

theorem Enqueues.freeCall (s : System) (c : FreeCall) : Enqueues s.rt (s.freeCall c).1.rt := by
  cases c with
  | semaphorePost i =>
    show Enqueues s.rt (s.semaphorePost i).1.rt
    unfold semaphorePost
    split
    · next w r hpop => exact .waitPop hpop
    · split_ifs <;> exact .refl s.rt
  | waitGroupAdd g delta =>
    show Enqueues s.rt (s.waitGroupAdd g delta).1.rt
    unfold waitGroupAdd
    dsimp only
    split
    · exact .refl s.rt
    · generalize (if delta < 0 then s.count g - ((-(delta + 1)).toNat + 1)
        else s.count g + delta.toNat) = n
      split
      · exact .releaseAll _ _ _ { s with count := update s.count g n }
      · exact .refl s.rt
  | channelClose c =>
    show Enqueues s.rt (s.channelClose c).1.rt
    unfold channelClose
    split_ifs
    · exact .refl s.rt
    · exact (Enqueues.releaseAll _ _ _ (s.setChannel c _)).trans (Enqueues.releaseAll _ _ _ _)
  | timerCancel tm =>
    show Enqueues s.rt (s.rt.timerCancel tm).1
    unfold timerCancel
    split
    · split_ifs
      · exact (OnlyEnqueues.putHeap s.rt _ _).trans (.fireTimer _ _ _ _)
      · exact .refl s.rt
    · exact .refl s.rt
  | completeIo t =>
    show Enqueues s.rt (s.rt.completeIo t).1
    unfold completeIo
    split_ifs
    · exact .refl s.rt
    · refine .wake ?_ t
      exact .of_same rfl (fun _ _ => rfl) rfl (same_enqueues rfl) (same_ps s.rt)
  | requestShutdown => exact .of_same rfl (fun _ _ => rfl) rfl (fun _ => rfl) (same_ps s.rt)

theorem Enqueues.ownerCall {c : OwnerCall} (hi : Inv s.rt) (h : s.ownerCall c = some s') :
    Enqueues s.rt s'.rt := by
  cases c with
  | spawn =>
    obtain ⟨r, hr, rfl⟩ := map_eq_some_iff.mp h
    exact .spawn hi hr
  | run =>
    obtain ⟨r, hr, rfl⟩ := map_eq_some_iff.mp h
    unfold runBegin at hr
    split_ifs at hr
    cases hr
    exact .of_same rfl (fun _ _ => rfl) rfl (fun _ => rfl) (onward_update rfl (.inr ⟨rfl, Or.inl rfl⟩))
  | shutdown =>
    cases h
    exact .of_same rfl (fun _ _ => rfl) rfl (fun _ => rfl) (onward_update rfl (.inr ⟨rfl, Or.inl rfl⟩))

def RanBelow (r : Runtime) : Prop := ∀ u q, (r.tasks u).lastP = some q → q < r.workerCount

theorem RanBelow.update {k : Task} (h : RanBelow r) (hw : r'.workerCount = r.workerCount)
    (ht : r'.tasks = update r.tasks t k) (hk : ∀ q, k.lastP = some q → q < r.workerCount) :
    RanBelow r' := by
  intro u q hq
  rw [hw]
  rw [ht] at hq
  by_cases hu : u = t
  · rw [hu, update_self] at hq
    exact hk q hq
  · rw [update_of_ne hu] at hq
    exact h u q hq

theorem RanBelow.wake (h : RanBelow r) (w : TaskId) : RanBelow (r.wake w) := by
  intro u q hq
  rw [(r.wake_sameRest w).workerCount]
  rw [r.wake_keeps Task.lastP (fun _ _ _ _ _ _ => rfl) w u] at hq
  exact h u q hq

theorem Eff.ranBelow {l : Label} (he : Eff l r r') (hc : Control r) (h : RanBelow r) : RanBelow r' := by
  cases he with
  | @start _ p t hpc _ _ =>
    refine h.update rfl rfl fun q hq => ?_
    obtain rfl : p = q := some.inj hq
    exact hc.lt (by simp [hpc])
  | spawn _ _ => exact h.update rfl rfl fun q hq => by simp at hq
  | release _ | fire _ _ _ | completeIo _ _ =>
    refine RanBelow.wake ?_ _
    exact h.update rfl rfl (h _)
  | cancelTask _ _ _ _ =>
    unfold Runtime.cancelTask
    split_ifs
    · exact h
    · exact h.update rfl rfl (h _)
  | _ => first
    | exact h
    | exact h.update rfl rfl (h _)

structure Single (r : Runtime) : Prop where
  sound : Sound r
  affine : Affine r
  ranBelow : RanBelow r
  workerCount : r.workerCount = 1
  runnable : ∀ p, (r.ps p).runnable = []
  fetches : ∀ p, (r.ps p).pc.fetches = true → ∃ t, (r.ps p).pc = .execute t

structure Dispatches (t : TaskId) (r r' : Runtime) : Prop where
  workerCount : r'.workerCount = r.workerCount
  queue : r.globalRunnable = t :: r'.globalRunnable
  enqueues : ∀ u, (r'.tasks u).enqueues = (r.tasks u).enqueues
  runnable : ∀ p, (r'.ps p).runnable = (r.ps p).runnable
  pc : (r.ps 0).pc = .takeGlobal ∧ (r'.ps 0).pc = .execute t
  others : ∀ p, p ≠ 0 → (r'.ps p).pc = (r.ps p).pc

theorem Single.initial {n : ℕ} (hn : n = 1) : Single { workerCount := n } where
  sound := Sound.initial (by omega)
  affine := ⟨fun _ _ hf => by simp at hf, fun _ hk => by simp [Task.Running] at hk,
    fun _ _ _ hpc => by simp at hpc⟩
  ranBelow := fun _ _ hq => by simp at hq
  workerCount := hn
  runnable := fun _ => rfl
  fetches := fun _ hf => by simp [Pc.fetches] at hf

theorem Single.eligible (h : Single r) (u : TaskId) : r.eligible 0 u = true := by
  unfold Runtime.eligible
  cases hf : (r.tasks u).fiber with
  | none => rfl
  | some f =>
    have hls := h.affine.owned u f hf
    have hlt := h.ranBelow u f.owner hls
    rw [h.workerCount] at hlt
    rw [hls, Nat.lt_one_iff.mp hlt]
    simp

theorem Single.takeGlobal (h : Single r) (hpc : (r.ps 0).pc = .takeGlobal)
    (hste : r.workerStep 0 e = some r') : Enqueues r r' ∨ ∃ t, Dispatches t r r' := by
  have hel : ∀ u, (!(r.tasks u).fiber.isSome || decide ((r.tasks u).lastP = some 0)) = true := h.eligible
  unfold Runtime.workerStep at hste
  simp only [hpc, Runtime.takeGlobal, h.workerCount, Nat.lt_irrefl, if_false, gt_iff_lt] at hste
  cases hg : r.globalRunnable with
  | nil =>
    rw [hg] at hste
    simp only [List.length_nil, pullFirst, Option.some.injEq] at hste
    subst hste
    refine .inl (.goto (.of_same rfl (fun _ _ => rfl) ?_ (fun _ => rfl) (onward_update rfl (.inl rfl))) rfl rfl)
    exact hg.symm
  | cons t l =>
    rw [hg] at hste
    simp only [List.length_cons, pullFirst, hel, if_true, Option.some.injEq] at hste
    subst hste
    refine .inr ⟨t, rfl, hg, same_enqueues rfl, fun p => ?_, ⟨hpc, by simp⟩, fun p hp => ?_⟩
    · by_cases hp : p = 0
      · simp [hp]
      · simp [hp]
    · simp [hp]

theorem Single.workerStep (h : Single r) (hste : r.workerStep 0 e = some r') :
    Enqueues r r' ∨ ∃ t, Dispatches t r r' := by
  have hfet := h.fetches 0
  cases hlk : (r.ps 0).pc.looks with
  | false => exact .inl (OnlyEnqueues.workerStep (fun _ => trivial) hlk hste)
  | true =>
    cases hpc : (r.ps 0).pc with
    | takeGlobal => exact h.takeGlobal hpc hste
    | ownerPop =>
      unfold Runtime.workerStep at hste
      rw [hpc, h.runnable 0] at hste
      cases hste
      exact .inl (.goto (.refl r) rfl rfl)
    | stealNext offset =>
      cases offset with
      | zero => simp [hpc, Pc.fetches] at hfet
      | succ offset =>
        unfold Runtime.workerStep at hste
        rw [hpc] at hste
        dsimp only at hste
        rw [h.workerCount, if_neg (by omega)] at hste
        cases hste
        exact .inl (.goto (.refl r) rfl rfl)
    | unqueue | stealBatch | stolen => simp [hpc, Pc.fetches] at hfet
    | _ => simp [hpc, Pc.looks] at hlk

theorem Single.step (h : Single s.rt) (hs : step s a = some s') :
    Enqueues s.rt s'.rt ∨ ∃ t, Dispatches t s.rt s'.rt := by
  unfold Sched.step at hs
  cases a with
  | worker p e =>
    dsimp only at hs
    split_ifs at hs with hp
    rw [h.workerCount] at hp
    obtain rfl : p = 0 := Nat.lt_one_iff.mp hp
    obtain ⟨r, hr, rfl⟩ := map_eq_some_iff.mp hs
    exact h.workerStep hr
  | call p c =>
    dsimp only at hs
    split at hs
    · next t hpc =>
      split_ifs at hs
      cases hs
      exact .inl (.call h.sound.inv hpc c)
    · cases hs
  | free c =>
    dsimp only at hs
    split_ifs at hs
    cases hs
    exact .inl (.freeCall s c)
  | owner c =>
    dsimp only at hs
    split_ifs at hs
    exact .inl (.ownerCall h.sound.inv hs)

theorem Single.next (h : Single s.rt) (hs : Sched.step s a = some s') : Single s'.rt := by
  obtain ⟨hsou, haff, hran⟩ := step_keeps (A := fun _ _ => True)
    (I := fun r => Affine r ∧ RanBelow r) (fun _ => trivial)
    (fun _ _ _ _ he hr hi => ⟨he.affine hr hi.1, he.ranBelow hr.control hi.2⟩) hs (fun _ _ => trivial)
    h.sound ⟨h.affine, h.ranBelow⟩
  rcases h.step hs with henq | ⟨t, hd⟩
  · refine ⟨hsou, haff, hran, henq.workerCount.trans h.workerCount,
      fun p => (henq.runnable h.workerCount p).trans (h.runnable p), fun p hf => ?_⟩
    rcases henq.pc p with heq | ⟨hno, -⟩
    · rw [heq] at hf ⊢
      exact h.fetches p hf
    · rw [hno] at hf
      cases hf
  · refine ⟨hsou, haff, hran, hd.workerCount.trans h.workerCount,
      fun p => (hd.runnable p).trans (h.runnable p), fun p hf => ?_⟩
    by_cases hp : p = 0
    · exact ⟨t, hp ▸ hd.pc.2⟩
    · rw [hd.others p hp] at hf ⊢
      exact h.fetches p hf

/-! ## The order of dispatches -/

def System.dispatched (s s' : System) : List TaskId :=
  match (s.rt.ps 0).pc, (s'.rt.ps 0).pc with
  | .execute _, _ => []
  | _, .execute t => [t]
  | _, _ => []

def System.enqueued (s s' : System) : List TaskId :=
  s'.rt.globalRunnable.drop s.rt.globalRunnable.length

def trace (emit : System → System → List TaskId) : System → List Action → List TaskId
  | _, [] => []
  | s, a :: as =>
    match step s a with
    | none => []
    | some s' => emit s s' ++ trace emit s' as

theorem trace_append (emit : System → System → List TaskId) (bs : List Action)
    (hrun : Trans.run step s as = some s') :
    trace emit s (as ++ bs) = trace emit s as ++ trace emit s' bs := by
  induction as generalizing s with
  | nil =>
    cases hrun
    rfl
  | cons a as ih =>
    obtain ⟨s₁, hs, hrs⟩ := bind_eq_some_iff.mp hrun
    simp only [cons_append, trace, hs]
    rw [ih hrs, append_assoc]

theorem trace_single {emit : System → System → List TaskId} (hs : step s a = some s') :
    trace emit s [a] = emit s s' := by
  simp [trace, hs]

theorem dispatched_of_onward (h : (s.rt.ps 0).pc.Onward (s'.rt.ps 0).pc) : s.dispatched s' = [] := by
  unfold dispatched
  rcases h with heq | ⟨hf, -⟩
  · rw [heq]
    cases (s.rt.ps 0).pc <;> rfl
  · cases hpc : (s'.rt.ps 0).pc with
    | execute t =>
      rw [hpc] at hf
      cases hf
    | _ => cases (s.rt.ps 0).pc <;> rfl

structure FifoRun (s : System) (as : List Action) (s' : System) : Prop where
  single : Single s'.rt
  queue : trace System.dispatched s as ++ s'.rt.globalRunnable =
    s.rt.globalRunnable ++ trace System.enqueued s as
  enqueues : ∀ t, (s'.rt.tasks t).enqueues =
    (s.rt.tasks t).enqueues + (trace System.enqueued s as).count t
  last : ∀ u ∈ (s'.rt.ps 0).pc.tasks, (trace System.dispatched s as = [] ∧ u ∈ (s.rt.ps 0).pc.tasks) ∨
    (trace System.dispatched s as).getLast? = some u

theorem Single.inOrder_step (h : Single s.rt) (hs : Sched.step s a = some s') : FifoRun s [a] s' := by
  refine ⟨h.next hs, ?_, ?_, ?_⟩ <;> simp only [trace_single hs]
  all_goals rcases h.step hs with henq | ⟨t, hd⟩
  · obtain ⟨l, hg, -⟩ := henq.appends h.workerCount
    rw [dispatched_of_onward (henq.pc 0), enqueued, hg, drop_left, nil_append]
  · rw [dispatched, hd.pc.1, hd.pc.2, enqueued, hd.queue]
    simp
  · obtain ⟨l, hg, hcnt⟩ := henq.appends h.workerCount
    rw [enqueued, hg, drop_left]
    exact hcnt
  · intro u
    rw [hd.enqueues, enqueued, hd.queue, drop_of_length_le (by simp)]
    rfl
  · intro u hu
    refine .inl ⟨dispatched_of_onward (henq.pc 0), ?_⟩
    rcases henq.pc 0 with heq | ⟨-, hnil | htas⟩
    · rwa [← heq]
    · simp [hnil] at hu
    · rwa [← htas]
  · intro u hu
    rw [hd.pc.2] at hu
    obtain rfl : u = t := mem_singleton.mp hu
    rw [dispatched, hd.pc.1, hd.pc.2]
    exact .inr rfl

theorem FifoRun.trans {bs : List Action} (hrun : Trans.run step s as = some s₁) (h : FifoRun s as s₁)
    (h' : FifoRun s₁ bs s') : FifoRun s (as ++ bs) s' := by
  refine ⟨h'.single, ?_, fun u => ?_, fun u hu => ?_⟩ <;> rw [trace_append _ bs hrun]
  · rw [trace_append _ bs hrun, append_assoc, h'.queue, ← append_assoc, h.queue, append_assoc]
  · rw [h'.enqueues, h.enqueues, count_append, Nat.add_assoc]
  · rcases h'.last u hu with ⟨hnil, hu⟩ | hls
    · rw [hnil, append_nil]
      exact h.last u hu
    · rw [List.getLast?_append, hls]
      exact .inr rfl

theorem Single.inOrder (h : Single s.rt) (hrun : Trans.run Sched.step s as = some s') :
    FifoRun s as s' := by
  induction as generalizing s with
  | nil =>
    cases hrun
    exact ⟨h, by simp [trace], fun _ => rfl, fun _ hu => .inl ⟨rfl, hu⟩⟩
  | cons a as ih =>
    obtain ⟨s₁, hs, hrs⟩ := bind_eq_some_iff.mp hrun
    have hone : Trans.run Sched.step s [a] = some s₁ := by rw [Trans.run_cons, hs]; rfl
    exact (h.inOrder_step hs).trans hone (ih (h.next hs) hrs)

theorem Single.until_dispatched {front : List TaskId} (h : Single s.rt)
    (hrun : Trans.run Sched.step s as = some s') (hq : s.rt.globalRunnable = front ++ [t])
    (ht : t ∈ trace System.dispatched s as) :
    front.Nodup ∧ t ∉ front ∧ ∃ rest, trace System.dispatched s as = front ++ t :: rest := by
  have hnod : (front ++ [t]).Nodup := hq ▸ h.sound.inv.places.nodup .globalRunnable
  obtain ⟨hfro, -, hdis⟩ := nodup_append.mp hnod
  have hnot : t ∉ front := fun hmem => hdis t hmem t (mem_singleton_self t) rfl
  refine ⟨hfro, hnot, ?_⟩
  have hque := (h.inOrder hrun).queue
  rw [hq] at hque
  have hD : trace System.dispatched s as <+: (front ++ [t]) ++ trace System.enqueued s as := ⟨_, hque⟩
  rcases prefix_or_prefix_of_prefix hD (prefix_append _ _) with hle | ⟨rest, hrs⟩
  · rcases prefix_concat_iff.mp hle with heq | hle
    · exact ⟨[], heq⟩
    · exact absurd (hle.subset ht) hnot
  · exact ⟨rest, by rw [← hrs, append_assoc, singleton_append]⟩

theorem Single.spawnsQuietly (h : Single s.rt)
    (hrun : Trans.run Sched.step s as = some s') : Trans.Meets Sched.step SpawnsQuietly s as := by
  induction as generalizing s with
  | nil => trivial
  | cons a as ih =>
    obtain ⟨s₁, hs, hrs⟩ := bind_eq_some_iff.mp hrun
    refine ⟨?_, fun s₂ hs₂ => ?_⟩
    · by_cases ha : a = .owner .spawn
      · subst ha
        intro p
        have hoff : (s.rt.ps p).pc = .off := by
          rcases Nat.eq_zero_or_pos p with rfl | hp
          · by_contra hpc
            simp [Sched.step, hpc] at hs
          · exact h.sound.control.off p (h.workerCount ▸ hp)
        rw [hoff]
        rfl
      · exact .of_ne ha s
    · obtain rfl : s₁ = s₂ := some.inj (hs.symm.trans hs₂)
      exact ih (h.next hs) hrs

theorem Single.requeued (h : Single s.rt) (hpc : (s.rt.ps 0).pc = .returned t .ok)
    (hst : (s.rt.tasks t).state = .runnable) (hs : Sched.step s (.worker 0 e) = some s') :
    s'.rt.globalRunnable = s.rt.globalRunnable ++ [t] ∧ (s'.rt.ps 0).pc = .top := by
  have hok := h.sound.inv.returned hpc
  obtain ⟨⟨f, hf, hss⟩, j, -, hj⟩ : (∃ f, (s.rt.tasks t).fiber = some f ∧ f.state = .suspended) ∧
      ∃ j, (s.rt.tasks t).point = .parked j ∧ (s.rt.tasks t).Parks j := by
    rcases hok.2 with ⟨hrun, -⟩ | ⟨-, hfib, hpr⟩
    · simp [hst] at hrun
    · exact ⟨hfib, hpr⟩
  have hw : (s.rt.tasks t).wakePending = false := Bool.eq_false_iff.mpr fun hw => hj.wakePending hw hst
  have hts := returnedTask_tasks s.rt t
  have hdn : (s.rt.returnedTask t).fiberDone t = false := by
    rw [returnedTask_fiberDone, Runtime.fiberDone, hf]
    simp [hss]
  have hlt : 0 < s.rt.workerCount := h.sound.control.pos
  simp only [Sched.step, hlt, if_true, Runtime.workerStep, hpc, Option.map_some, Option.some.injEq] at hs
  subst hs
  rw [executeEnd_eq, if_neg (by simp), if_neg (by simp [hdn]), Runtime.settleReturned_runnable
    (by rw [hts]; exact hw) (by rw [hts]; exact hst) (by rw [hts]; exact hok.1.queued)
    (by rw [hts]; simp [hf])]
  unfold Runtime.stopIfDone Runtime.stopRun
  split_ifs
  all_goals exact ⟨rfl, by simp⟩

/-- **One worker is first in, first out.** -/
theorem single_worker_fifo {as : List Action} (hnt : Initial 1 s)
    (hrun : Trans.run step s as = some s') :
    trace System.dispatched s as <+: trace System.enqueued s as ∧
    (∀ t, (trace System.enqueued s as).count t = (s'.rt.tasks t).enqueues) ∧
    (∀ p, (s'.rt.ps p).runnable = []) ∧
    (∀ front t bs s'', s'.rt.globalRunnable = front ++ [t] → Trans.run step s' bs = some s'' →
      t ∈ trace System.dispatched s' bs →
      front.Nodup ∧ t ∉ front ∧ ∃ rest, trace System.dispatched s' bs = front ++ t :: rest) ∧
    ∀ t e s₁ bs s₂, (s'.rt.ps 0).pc = .returned t .ok → (s'.rt.tasks t).state = .runnable →
      step s' (.worker 0 e) = some s₁ → s₁.rt.shutdownRequested = false →
      Trans.run step s₁ bs = some s₂ → t ∈ trace System.dispatched s₁ bs →
      ∃ before gap rest, trace System.dispatched s (as ++ .worker 0 e :: bs) =
          before ++ t :: (gap ++ t :: rest) ∧ t ∉ gap ∧
        ∀ u, u ≠ t → (s₁.rt.tasks u).state = .runnable → gap.count u = 1 := by
  have hini : Single s.rt := hnt.rt ▸ Single.initial rfl
  have hord := hini.inOrder hrun
  have hque := hord.queue
  have hnq := hord.enqueues
  rw [hnt.rt] at hque hnq
  refine ⟨⟨_, hque⟩, fun t => ?_, hord.single.runnable,
    fun front t bs s'' hq hbs ht => hord.single.until_dispatched hbs hq ht, ?_⟩
  · rw [hnq t]
    exact (Nat.zero_add _).symm
  intro t e s₁ bs s₂ hpc hst hs hsd hbs ht
  have hsin := hord.single.next hs
  obtain ⟨hq, htop⟩ := hord.single.requeued hpc hst hs
  obtain ⟨hnod, hnot, rest, hrs⟩ := hsin.until_dispatched hbs hq ht
  have hone : Trans.run step s (as ++ [.worker 0 e]) = some s₁ := by
    rw [Trans.run_append, hrun, bind_some, Trans.run_cons, hs]
    rfl
  -- the task that yields is the last one dispatched
  have hls : (trace System.dispatched s as).getLast? = some t := by
    have hmem : t ∈ (s'.rt.ps 0).pc.tasks := by rw [hpc]; exact mem_singleton_self t
    rcases hord.last t hmem with ⟨-, hin⟩ | hls
    · rw [hnt.rt] at hin
      simp [Pc.tasks] at hin
    · exact hls
  obtain ⟨before, hbef⟩ := List.getLast?_eq_some_iff.mp hls
  have hnn : System.dispatched s' s₁ = [] := by rw [System.dispatched, hpc, htop]
  refine ⟨before, s'.rt.globalRunnable, rest, ?_, hnot, fun u hu hrn => ?_⟩
  · have hall := trace_append System.dispatched bs hone
    rw [append_assoc, singleton_append] at hall
    rw [hall, trace_append _ _ hrun, trace_single hs, hnn, hrs, hbef]
    simp
  · -- with one worker and no shutdown a runnable task is in the global queue
    refine count_eq_one_of_mem hnod ?_
    obtain ⟨-, -, hkp⟩ := kept_run hnt hone (hini.spawnsQuietly hone)
    rcases (hkp u hrn).resolve_right (by simp [hsd]) with hg | ⟨p, hd | hhan⟩
    · rw [hq] at hg
      exact (mem_append.mp hg).resolve_right fun h => hu (mem_singleton.mp h)
    · simp [hsin.runnable p] at hd
    · rcases Nat.eq_zero_or_pos p with rfl | hp
      · simp [htop, Pc.tasks] at hhan
      · simp [hsin.sound.control.off p (hsin.workerCount ▸ hp), Pc.tasks] at hhan

def firstYields : List Action :=
  [.owner .spawn, .owner .spawn, .owner .run] ++ List.replicate 8 (.worker 0 {}) ++ [.call 0 .yield, .worker 0 {}]

def secondEnds : List Action :=
  List.replicate 8 (.worker 0 {}) ++ [.call 0 .finish] ++ List.replicate 6 (.worker 0 {})

theorem single_worker_fifo_yield : ∃ before gap rest,
    trace System.dispatched { rt := { workerCount := 1 } } (firstYields ++ .worker 0 {} :: secondEnds) =
      before ++ 0 :: (gap ++ 0 :: rest) ∧ List.count 1 gap = 1 := by
  have hvl : ((Trans.run step { rt := { workerCount := 1 } } firstYields).bind fun s =>
      (step s (.worker 0 {})).bind fun s₁ => (Trans.run step s₁ secondEnds).map fun s₂ =>
        (s, s₁, s₂)).map (fun x => ((x.1.rt.ps 0).pc, (x.1.rt.tasks 0).state, x.2.1.rt.shutdownRequested,
          (x.2.1.rt.tasks 1).state, trace System.dispatched x.2.1 secondEnds)) =
      some (.returned 0 .ok, .runnable, false, .runnable, [1, 0]) := by rfl
  obtain ⟨⟨s, s₁, s₂⟩, hx, heq⟩ := map_eq_some_iff.mp hvl
  obtain ⟨s, hrun, hx⟩ := bind_eq_some_iff.mp hx
  obtain ⟨s₁, hs, hx⟩ := bind_eq_some_iff.mp hx
  obtain ⟨s₂, hbs, hx⟩ := map_eq_some_iff.mp hx
  obtain ⟨rfl, rfl, rfl⟩ := hx
  simp only [Prod.mk.injEq] at heq
  obtain ⟨hpc, hst, hsd, hone, htra⟩ := heq
  obtain ⟨-, -, -, -, hgap⟩ := single_worker_fifo ⟨by decide, rfl⟩ hrun
  have haga : 0 ∈ trace System.dispatched s₁ secondEnds := by
    rw [htra]
    decide
  obtain ⟨before, gap, rest, hall, -, hcnt⟩ := hgap 0 {} s₁ _ s₂ hpc hst hs hsd hbs haga
  exact ⟨before, gap, rest, hall, hcnt 1 (by decide) hone⟩

end Veloco.Sched
