import Veloco.Sched.Reach

/-!
# What a step leaves alone at a sync object
-/

namespace Veloco.Sched

open Function List Option Sched.Runtime
open Veloco.Placement

variable {r r' : Runtime} {p : PId} {t w : TaskId} {s s' : System} {q k : WaitQueue}

/-! ## Steps that only enqueue -/

section OnlyEnqueues

variable {K : WaitQueue → Prop} {r₁ : Runtime}

def Pc.fetches : Pc → Bool
  | .unqueue _ | .stealNext 0 | .stealBatch _ _ | .stolen _ | .execute _ => true
  | _ => false

def Pc.Onward (b c : Pc) : Prop := c = b ∨ c.fetches = false ∧ (c.tasks = [] ∨ c.tasks = b.tasks)

/-- A step that takes no task out of a queue: it may enqueue tasks, release waiters of the queues in `K`,
and move the workers on. -/
structure OnlyEnqueues (K : WaitQueue → Prop) (r r' : Runtime) : Prop where
  workerCount : r'.workerCount = r.workerCount
  queue : r.globalRunnable <+: r'.globalRunnable
  waiters : ∀ q, ¬ K q → r'.waiters q = r.waiters q
  pc : ∀ p, (r.ps p).pc.Onward (r'.ps p).pc
  appends : r.workerCount = 1 → ∃ l, r'.globalRunnable = r.globalRunnable ++ l ∧
    ∀ t, (r'.tasks t).enqueues = (r.tasks t).enqueues + l.count t
  runnable : r.workerCount = 1 → ∀ p, (r'.ps p).runnable = (r.ps p).runnable

theorem Pc.Onward.trans {a b c : Pc} (hab : a.Onward b) (hbc : b.Onward c) : a.Onward c := by
  rcases hbc with rfl | ⟨hc, hnil | heq⟩
  · exact hab
  · exact Or.inr ⟨hc, Or.inl hnil⟩
  · rw [Pc.Onward, heq]
    rcases hab with rfl | ⟨-, htas⟩
    · exact Or.inr ⟨hc, Or.inr rfl⟩
    · exact Or.inr ⟨hc, htas⟩

theorem OnlyEnqueues.of_same (hw : r'.workerCount = r.workerCount)
    (hq : ∀ q, ¬ K q → r'.waiters q = r.waiters q) (hg : r'.globalRunnable = r.globalRunnable)
    (ht : ∀ u, (r'.tasks u).enqueues = (r.tasks u).enqueues)
    (hps : ∀ q, (r'.ps q).runnable = (r.ps q).runnable ∧ (r.ps q).pc.Onward (r'.ps q).pc) :
    OnlyEnqueues K r r' where
  workerCount := hw
  queue := hg ▸ prefix_rfl
  waiters := hq
  pc := fun q => (hps q).2
  appends := fun _ => ⟨[], by rw [hg, append_nil], ht⟩
  runnable := fun _ q => (hps q).1

theorem same_ps (r : Runtime) (q : PId) :
    (r.ps q).runnable = (r.ps q).runnable ∧ (r.ps q).pc.Onward (r.ps q).pc := ⟨rfl, Or.inl rfl⟩

theorem same_enqueues {k : Task} (hk : k.enqueues = (r.tasks t).enqueues) (u : TaskId) :
    (update r.tasks t k u).enqueues = (r.tasks u).enqueues := by
  by_cases hu : u = t
  · rw [hu, update_self, hk]
  · rw [update_of_ne hu]

theorem onward_update {x : P} (hx : x.runnable = (r.ps p).runnable) (hpc : (r.ps p).pc.Onward x.pc)
    (q : PId) : (update r.ps p x q).runnable = (r.ps q).runnable ∧
      (r.ps q).pc.Onward (update r.ps p x q).pc := by
  by_cases hq : q = p
  · rw [hq, update_self]
    exact ⟨hx, hpc⟩
  · rw [update_of_ne hq]
    exact same_ps r q

theorem OnlyEnqueues.refl (r : Runtime) : OnlyEnqueues K r r :=
  .of_same rfl (fun _ _ => rfl) rfl (fun _ => rfl) (same_ps r)

theorem OnlyEnqueues.trans (h : OnlyEnqueues K r r₁) (h' : OnlyEnqueues K r₁ r') : OnlyEnqueues K r r' where
  workerCount := h'.workerCount.trans h.workerCount
  queue := h.queue.trans h'.queue
  waiters := fun q hq => (h'.waiters q hq).trans (h.waiters q hq)
  pc := fun q => (h.pc q).trans (h'.pc q)
  appends := by
    intro hw
    obtain ⟨l, hg, ht⟩ := h.appends hw
    obtain ⟨l', hg', ht'⟩ := h'.appends (h.workerCount.trans hw)
    refine ⟨l ++ l', by rw [hg', hg, append_assoc], fun u => ?_⟩
    rw [ht', ht, count_append, Nat.add_assoc]
  runnable := fun hw q => (h'.runnable (h.workerCount.trans hw) q).trans (h.runnable hw q)

theorem OnlyEnqueues.push {k : Task} (hw : r'.workerCount = r.workerCount) (hq : r'.waiters = r.waiters)
    (hg : r'.globalRunnable = r.globalRunnable ++ [t]) (ht : r'.tasks = update r.tasks t k)
    (hk : k.enqueues = (r.tasks t).enqueues + 1) (hps : r'.ps = r.ps) : OnlyEnqueues K r r' where
  workerCount := hw
  queue := hg ▸ prefix_append _ _
  waiters := fun q _ => by rw [hq]
  pc := fun q => Or.inl (by rw [hps])
  appends := by
    refine fun _ => ⟨[t], hg, fun u => ?_⟩
    rw [ht]
    by_cases hu : u = t
    · rw [hu, update_self, hk, count_singleton_self]
    · rw [update_of_ne hu, count_singleton, if_neg (by simpa using Ne.symm hu), Nat.add_zero]
  runnable := fun _ q => by rw [hps]

theorem OnlyEnqueues.setTask {k : Task} (h : OnlyEnqueues K r r₁)
    (hk : k.enqueues = (r₁.tasks t).enqueues) : OnlyEnqueues K r (r₁.setTask t k) :=
  h.trans (.of_same rfl (fun _ _ => rfl) rfl (same_enqueues hk) (same_ps r₁))

theorem OnlyEnqueues.setPc {b : Pc} (h : OnlyEnqueues K r r₁) (hb : (r₁.ps p).pc.Onward b) :
    OnlyEnqueues K r (r₁.setPc p b) :=
  h.trans (.of_same rfl (fun _ _ => rfl) rfl (fun _ => rfl) (onward_update rfl hb))

theorem OnlyEnqueues.goto {b : Pc} (h : OnlyEnqueues K r r₁) (hb : b.fetches = false) (hnil : b.tasks = []) :
    OnlyEnqueues K r (r₁.setPc p b) :=
  h.setPc (Or.inr ⟨hb, Or.inl hnil⟩)

theorem OnlyEnqueues.foldl {f : Runtime → TaskId → Runtime} (hf : ∀ r u, OnlyEnqueues K r (f r u))
    (l : List TaskId) (r : Runtime) : OnlyEnqueues K r (l.foldl f r) := by
  induction l generalizing r with
  | nil => exact .refl r
  | cons u l ih => exact (hf r u).trans (ih (f r u))

theorem OnlyEnqueues.enqueueGlobal (h : OnlyEnqueues K r r₁) (t : TaskId) :
    OnlyEnqueues K r (r₁.enqueueGlobal t) := by
  unfold Runtime.enqueueGlobal
  split_ifs
  · exact h
  · exact h.trans (.push rfl rfl rfl rfl rfl rfl)

theorem OnlyEnqueues.enqueueLocal (r : Runtime) (p : PId) (t : TaskId) :
    OnlyEnqueues K r (r.enqueueLocal p t) := by
  unfold Runtime.enqueueLocal
  split_ifs with _ hlocal
  · exact .refl r
  · exact .push rfl rfl rfl rfl rfl rfl
  · have hmn : r.workerCount ≠ 1 := fun hw => hlocal (Or.inl hw)
    unfold ownerPush
    dsimp only
    split_ifs
    · refine ⟨rfl, prefix_rfl, fun _ _ => rfl, fun q => Or.inl ?_, fun hw => absurd hw hmn, fun hw => absurd hw hmn⟩
      by_cases hq : q = p <;> simp [hq]
    · exact .push rfl rfl rfl rfl rfl rfl

theorem OnlyEnqueues.wake (h : OnlyEnqueues K r r₁) (t : TaskId) : OnlyEnqueues K r (r₁.wake t) := by
  unfold Runtime.wake
  split_ifs
  · exact h
  · exact .setTask h rfl
  · refine .enqueueGlobal ?_ t
    exact .setTask h rfl

end OnlyEnqueues

/-! ## The worker -/

section Worker

variable {K : WaitQueue → Prop} {r₁ : Runtime}

theorem OnlyEnqueues.stopRun (h : OnlyEnqueues K r r₁) (status : Status) :
    OnlyEnqueues K r (r₁.stopRun status) := by
  unfold Runtime.stopRun
  split_ifs
  · exact { h with }
  · exact h

theorem OnlyEnqueues.stopIfDone (h : OnlyEnqueues K r r₁) : OnlyEnqueues K r r₁.stopIfDone := by
  unfold Runtime.stopIfDone
  split_ifs
  · exact h.stopRun .ok
  · exact h

theorem OnlyEnqueues.fireTimer (r : Runtime) (tm : TimerId) (result : Status) (event : TimerEvent) :
    OnlyEnqueues K r (r.fireTimer tm result event) := by
  have hcle : OnlyEnqueues K r { r.setTimer tm ⟨none, none⟩ with timerCount := r.timerCount - 1 } :=
    .of_same rfl (fun _ _ => rfl) rfl (fun _ => rfl) (same_ps r)
  unfold Runtime.fireTimer
  dsimp only
  split
  · exact hcle
  · refine .wake ?_ _
    exact .setTask hcle rfl

theorem OnlyEnqueues.putHeap (r : Runtime) (p : PId) (h : TimerHeap.Heap TimerId) : OnlyEnqueues K r (r.putHeap p h) :=
  .of_same rfl (fun _ _ => rfl) rfl (fun _ => rfl) (onward_update rfl (Or.inl rfl))

theorem OnlyEnqueues.expireLoop (p : PId) (now n : ℕ) (r : Runtime) :
    OnlyEnqueues K r (expireLoop p now n r) := by
  induction n generalizing r with
  | zero => exact .refl r
  | succ n ih =>
    unfold Runtime.expireLoop
    split
    · exact .refl r
    · split_ifs
      · split
        · exact .refl r
        · exact ((OnlyEnqueues.putHeap r p _).trans (.fireTimer _ _ _ _)).trans (ih _)
      · exact .refl r

theorem OnlyEnqueues.cancelReturned (r : Runtime) (t : TaskId) : OnlyEnqueues K r (r.cancelReturned t) :=
  .of_same rfl (fun _ _ => rfl) rfl (same_enqueues rfl) (same_ps r)

theorem OnlyEnqueues.complete (r : Runtime) (hK : K (.joiners t)) : OnlyEnqueues K r (r.complete t) := by
  have hjoi : ∀ (r : Runtime) w, OnlyEnqueues K r (r.releaseJoiner w) := by
    intro r w
    refine .wake ?_ w
    exact .setTask (.refl r) rfl
  have hunl : OnlyEnqueues K r (r.setWaiters (.joiners t) []) := by
    refine .of_same rfl (fun q hq => ?_) rfl (fun _ => rfl) (same_ps r)
    exact update_of_ne (fun h => hq (by rw [h]; exact hK)) _ _
  have hlp := hunl.trans (.foldl hjoi (r.waiters (.joiners t)) _)
  exact { hlp with }

theorem OnlyEnqueues.settleReturned (r : Runtime) (p : PId) (t : TaskId) :
    OnlyEnqueues K r (r.settleReturned p t) := by
  have hend : ∀ r₁ : Runtime, OnlyEnqueues K r r₁ → OnlyEnqueues K r
      (if (r₁.tasks t).state = .runnable then r₁.enqueueLocal p t
        else if (r₁.tasks t).state = .running then r₁.cancelReturned t else r₁) := by
    intro r₁ h
    split_ifs
    · exact h.trans (.enqueueLocal r₁ p t)
    · exact h.trans (.cancelReturned r₁ t)
    · exact h
  refine hend _ ?_
  split_ifs
  · exact .setTask (.refl r) rfl
  · exact .setTask (.refl r) rfl
  · exact .refl r

theorem OnlyEnqueues.executeEnd (r : Runtime) (p : PId) (hK : K (.joiners t)) (status : Status) :
    OnlyEnqueues K r (r.executeEnd p t status) := by
  have hbk : OnlyEnqueues K r (r.returnedTask t) := .of_same rfl (fun _ _ => rfl) rfl (same_enqueues rfl) (same_ps r)
  have hbra : OnlyEnqueues K r (if status ≠ .ok then (r.returnedTask t).cancelReturned t
      else if (r.returnedTask t).fiberDone t then (r.returnedTask t).completeReturned t
      else (r.returnedTask t).settleReturned p t) := by
    split_ifs
    · exact hbk.trans (.cancelReturned _ t)
    · have hdn : OnlyEnqueues K r ((r.returnedTask t).setTask t
          { (r.returnedTask t).tasks t with state := .done }) := .setTask hbk rfl
      exact .setTask (hdn.trans (.complete _ hK)) rfl
    · exact hbk.trans (.settleReturned _ p t)
  rw [executeEnd_eq]
  exact hbra.stopIfDone.goto rfl rfl

theorem OnlyEnqueues.idleBegin (r : Runtime) (p : PId) : OnlyEnqueues K r (r.idleBegin p) := by
  have hdl : OnlyEnqueues K r
      { r.setP p { r.ps p with idle := true } with idleWorkers := r.idleWorkers + 1 } :=
    .of_same rfl (fun _ _ => rfl) rfl (fun _ => rfl) (onward_update rfl (Or.inl rfl))
  unfold Runtime.idleBegin
  dsimp only
  split_ifs
  · exact .goto (.refl r) rfl rfl
  · exact .goto (.stopRun (.refl r) _) rfl rfl
  · exact .goto (.refl r) rfl rfl
  · exact .goto (.stopRun hdl _) rfl rfl
  · exact .goto hdl rfl rfl

theorem OnlyEnqueues.cancelAll (r : Runtime) : OnlyEnqueues K r r.cancelAll := by
  refine .foldl (fun r u => ?_) _ r
  unfold cancelTask
  split_ifs
  · exact .refl r
  · exact .of_same rfl (fun _ _ => rfl) rfl (same_enqueues rfl) (same_ps r)

theorem OnlyEnqueues.destroyOwnedFibers (r : Runtime) (p : PId) :
    OnlyEnqueues K r (r.destroyOwnedFibers p) := by
  refine .foldl (fun r u => ?_) _ r
  unfold destroyFiber
  split_ifs
  · exact .setTask (.refl r) rfl
  · exact .refl r

theorem OnlyEnqueues.execute {b : Pc} (hpc : (r.ps p).pc = b) (hb : b.tasks = [t]) :
    (b = .execute t → OnlyEnqueues K r (r.executeBegin p t)) ∧
    (∀ ok, OnlyEnqueues K r (r.createFiber p t ok)) ∧ OnlyEnqueues K r (r.resumeFiber p t) ∧
    ∀ state point, OnlyEnqueues K r (r.leaveFiber p t state point) := by
  have hsy : ∀ {c : Pc}, c.fetches = false → c.tasks = [t] → (r.ps p).pc.Onward c := fun hc ht =>
    Or.inr ⟨hc, Or.inr (by rw [ht, hpc, hb])⟩
  refine ⟨fun _ => ?_, fun ok => ?_, ?_, fun state point => ?_⟩
  · unfold executeBegin
    split_ifs
    · exact .goto (.refl r) rfl rfl
    · exact .of_same rfl (fun _ _ => rfl) rfl (same_enqueues rfl) (onward_update rfl (Or.inr ⟨rfl, Or.inl rfl⟩))
    · exact .of_same rfl (fun _ _ => rfl) rfl (same_enqueues rfl) (onward_update rfl (hsy rfl rfl))
  · unfold createFiber
    split_ifs
    · exact .setPc (.refl r) (hsy rfl rfl)
    · exact .of_same rfl (fun _ _ => rfl) rfl (same_enqueues rfl) (onward_update rfl (hsy rfl rfl))
    · exact .setPc (.refl r) (hsy rfl rfl)
  · unfold resumeFiber
    split
    · exact .setPc (.refl r) (hsy rfl rfl)
    · split_ifs
      · exact .setPc (.refl r) (hsy rfl rfl)
      · exact .of_same rfl (fun _ _ => rfl) rfl (same_enqueues rfl) (onward_update rfl (hsy rfl rfl))
  · exact .of_same rfl (fun _ _ => rfl) rfl (same_enqueues rfl) (onward_update rfl (hsy rfl rfl))

def Pc.looks : Pc → Bool
  | .ownerPop | .unqueue _ | .takeGlobal | .stealNext _ | .stealBatch _ _ | .stolen _ => true
  | _ => false

theorem OnlyEnqueues.workerStep {e : Env} (hK : ∀ u, K (.joiners u)) (hlk : (r.ps p).pc.looks = false)
    (h : r.workerStep p e = some r') : OnlyEnqueues K r r' := by
  unfold Runtime.workerStep at h
  cases hpc : (r.ps p).pc with
  | off =>
    rw [hpc] at h
    dsimp only at h
    split_ifs at h
    · cases h
      exact .goto (.destroyOwnedFibers r p) rfl rfl
    · cases h
      exact .goto (.refl r) rfl rfl
    · cases h
      exact .refl r
  | top =>
    rw [hpc] at h
    dsimp only at h
    split_ifs at h
    all_goals
      cases h
      exact .goto (.refl r) rfl rfl
  | expire =>
    rw [hpc] at h
    cases h
    exact .goto (.expireLoop p e.now _ r) rfl rfl
  | ownerPop | unqueue | takeGlobal | stealNext | stealBatch | stolen => simp [hpc, Pc.looks] at hlk
  | execute u =>
    rw [hpc] at h
    cases h
    exact (OnlyEnqueues.execute hpc rfl).1 rfl
  | cancelled =>
    rw [hpc] at h
    cases h
    exact .goto (.stopIfDone (.refl r)) rfl rfl
  | createFiber u =>
    rw [hpc] at h
    cases h
    exact (OnlyEnqueues.execute hpc rfl).2.1 _
  | resume u =>
    rw [hpc] at h
    cases h
    exact (OnlyEnqueues.execute hpc rfl).2.2.1
  | inTask u =>
    rw [hpc] at h
    dsimp only at h
    unfold taskStep at h
    split at h
    · cases h
      exact (OnlyEnqueues.execute hpc rfl).2.2.2 _ _
    · cases h
      exact .of_same rfl (fun _ _ => rfl) rfl (same_enqueues rfl) (same_ps r)
    · cases h
      exact .of_same rfl (fun _ _ => rfl) rfl (same_enqueues rfl) (same_ps r)
    · cases h
  | returned u status =>
    rw [hpc] at h
    cases h
    exact .executeEnd r p (hK u) status
  | idle =>
    rw [hpc] at h
    cases h
    exact .idleBegin r p
  | idlePoll =>
    rw [hpc] at h
    cases h
    unfold idleEnd
    split_ifs
    · exact .of_same rfl (fun _ _ => rfl) rfl (fun _ => rfl) (onward_update rfl (Or.inr ⟨rfl, Or.inl rfl⟩))
    · exact .goto (.refl r) rfl rfl
  | runWait =>
    rw [hpc] at h
    dsimp only at h
    split_ifs at h
    cases h
    exact .goto (.refl r) rfl rfl
  | runEnd =>
    rw [hpc] at h
    cases h
    split_ifs
    · exact .goto (.cancelAll r) rfl rfl
    · exact .goto (.refl r) rfl rfl
  | stopping =>
    rw [hpc] at h
    dsimp only at h
    split_ifs at h
    cases h
    exact .goto ((OnlyEnqueues.cancelAll r).trans (.destroyOwnedFibers _ 0)) rfl rfl
  | exited =>
    rw [hpc] at h
    cases h
  | pollIo =>
    rw [hpc] at h
    cases h
    exact .goto (.refl r) rfl rfl

theorem pushAnywhere_waiters (r : Runtime) (p : PId) (t : TaskId) :
    ((r.ownerPush p t).getD (r.pushGlobal t)).waiters = r.waiters := by
  unfold ownerPush
  split_ifs <;> rfl

theorem keepStolen_waiters (p : PId) (items : List TaskId) (r : Runtime) :
    (r.keepStolen p items).waiters = r.waiters := by
  unfold keepStolen
  induction items generalizing r with
  | nil => rfl
  | cons t items ih => rw [foldl_cons, ih, pushAnywhere_waiters]

theorem takeGlobal_waiters (r : Runtime) (p : PId) : (r.takeGlobal p).2.waiters = r.waiters := by
  unfold takeGlobal
  dsimp only
  split <;> rfl

theorem workerStep_waiters {e : Env} (hq : ∀ u, q ≠ .joiners u) (h : r.workerStep p e = some r') :
    r'.waiters q = r.waiters q := by
  by_cases hlk : (r.ps p).pc.looks = false
  · have hst : OnlyEnqueues (fun q => ∃ u, q = .joiners u) r r' := .workerStep (fun u => ⟨u, rfl⟩) hlk h
    exact hst.waiters q fun ⟨u, hu⟩ => hq u hu
  unfold workerStep at h
  cases hpc : (r.ps p).pc with
  | ownerPop =>
    rw [hpc] at h
    dsimp only at h
    split at h
    · cases h
      rfl
    · cases h
      rfl
  | takeGlobal =>
    rw [hpc] at h
    have hsm := congrFun (takeGlobal_waiters r p) q
    dsimp only at h
    generalize r.takeGlobal p = x at h hsm
    obtain ⟨first, r₁⟩ := x
    cases first with
    | some u =>
      cases h
      exact hsm
    | none =>
      cases h
      exact hsm
  | stealNext offset =>
    rw [hpc] at h
    dsimp only at h
    split_ifs at h
    · cases h
      rfl
    · cases h
      rfl
  | stealBatch offset items =>
    rw [hpc] at h
    dsimp only at h
    split at h
    · split_ifs at h
      · cases h
        rfl
      · cases h
        rfl
      · cases h
        rfl
    · cases h
      rfl
  | stolen items =>
    rw [hpc] at h
    dsimp only at h
    split at h
    · cases h
    · cases h
      exact congrFun (keepStolen_waiters _ _ r) q
  | unqueue u =>
    rw [hpc] at h
    cases h
    rfl
  | _ => simp [hpc, Pc.looks] at hlk

end Worker

theorem Inv.not_waiting (h : Inv r) (hpc : (r.ps p).pc = .inTask t) (hpt : (r.tasks t).point = .body)
    (q : WaitQueue) : t ∉ r.waiters q := by
  obtain ⟨-, -, hs, -⟩ := h.inBody hpc hpt
  exact ((h.waits t).unlinked (by simp [hs]) (by simp [hs]) (by simp [hs])).1 q

theorem park_spec (q : WaitQueue) (t : TaskId) (s : System) :
    s.park q t = (s, some .invalidState) ∨ ∃ s', s.park q t = (s', none) ∧ s'.channel = s.channel ∧
      s'.rt.waiters = update s.rt.waiters q (s.rt.waiters q ++ [t]) ∧
      s'.wait = update s.wait t { s.wait t with result := .ok } := by
  unfold System.park park
  split_ifs
  · exact Or.inl rfl
  · exact Or.inr ⟨_, rfl, rfl, rfl, rfl⟩

theorem waitPop_eq_none : r.waitPop q = none ↔ r.waiters q = [] := by
  unfold waitPop
  split <;> simp_all

theorem waitPop_eq_some (h : r.waitPop q = some (w, r')) :
    ∃ rest, r.waiters q = w :: rest ∧ r'.waiters = update r.waiters q rest := by
  unfold waitPop at h
  split at h
  · cases h
  · next v rest hq =>
    cases h
    exact ⟨rest, hq, rfl⟩

theorem release_waiters (s : System) (w : TaskId) (r : Runtime) (x : Wait) :
    (s.release w r x).rt.waiters = r.waiters := (wake_sameRest r w).waiters

theorem exclusive_shrink {waiters : WaitQueue → List TaskId} {l : List TaskId}
    (h : Exclusive waiters) (hl : l.Sublist (waiters q)) : Exclusive (update waiters q l) := by
  refine h.reshuffle (nodup_singleton q) (fun k hk => ?_) ?_
  · apply update_of_ne
    rintro rfl
    exact hk (mem_singleton_self k)
  · simp only [flatMap_cons, flatMap_nil, append_nil, update_self]
    exact hl.subperm

structure ReleasedAll (q : WaitQueue) (f : Wait → Wait) (s s' : System) : Prop where
  waiters : s'.rt.waiters = update s.rt.waiters q []
  wait : ∀ t, s'.wait t = if t ∈ s.rt.waiters q then f (s.wait t) else s.wait t
  causes : ∀ t, (s'.rt.tasks t).causes = (s.rt.tasks t).causes + if t ∈ s.rt.waiters q then 1 else 0
  owner : s'.mutexOwner = s.mutexOwner
  permits : s'.permits = s.permits
  count : s'.count = s.count
  channel : s'.channel = s.channel

theorem waitPop_causes (h : r.waitPop q = some (w, r')) (t : TaskId) :
    (r'.tasks t).causes = (r.tasks t).causes + if t = w then 1 else 0 := by
  unfold Runtime.waitPop at h
  split at h
  · cases h
  · next v rest hq =>
    obtain ⟨rfl, rfl⟩ := Prod.mk.inj (Option.some.inj h)
    show (Function.update r.tasks v _ t).causes = _
    by_cases htv : t = v
    · subst htv
      rw [Function.update_self, if_pos rfl]
    · rw [Function.update_of_ne htv, if_neg htv]
      rfl

theorem wake_causes (r : Runtime) (w t : TaskId) :
    ((r.wake w).tasks t).causes = (r.tasks t).causes := by
  by_cases htw : t = w
  · subst htw
    unfold wake enqueueGlobal
    split_ifs <;> simp
  · rw [wake_tasks_ne r htw]

theorem releaseAll_spec (f : Wait → Wait) (l : List TaskId) (s : System)
    (hex : Exclusive s.rt.waiters) (hl : s.rt.waiters q = l) :
    ReleasedAll q f s (System.releaseAll q f l.length s) := by
  induction l generalizing s with
  | nil =>
    refine ⟨?_, fun t => ?_, fun t => ?_, rfl, rfl, rfl, rfl⟩
    · show s.rt.waiters = _
      rw [← hl, update_eq_self]
    · rw [hl]
      rfl
    · rw [hl]
      rfl
  | cons w l ih =>
    obtain ⟨r, hpop⟩ : ∃ r, s.rt.waitPop q = some (w, r) := by
      unfold waitPop
      rw [hl]
      exact ⟨_, rfl⟩
    obtain ⟨rest, hw, hr⟩ := waitPop_eq_some hpop
    obtain ⟨-, rfl⟩ := List.cons.inj (hl.symm.trans hw)
    have hnx : (s.release w r (f (s.wait w))).rt.waiters = update s.rt.waiters q l := by
      rw [release_waiters, hr]
    have hnod := hex.nodup q
    rw [hl] at hnod
    obtain ⟨hout, -⟩ := nodup_cons.mp hnod
    have hque : (s.release w r (f (s.wait w))).rt.waiters q = l := by rw [hnx, update_self]
    have hrs := ih (s.release w r (f (s.wait w)))
      (by rw [hnx]; exact exclusive_shrink hex (hl ▸ sublist_cons_self w l)) hque
    have hrou : System.releaseAll q f (w :: l).length s =
        System.releaseAll q f l.length (s.release w r (f (s.wait w))) := by
      rw [length_cons]
      conv_lhs => unfold System.releaseAll
      rw [hpop]
    rw [hrou]
    refine ⟨?_, fun t => ?_, fun t => ?_, hrs.owner, hrs.permits, hrs.count, hrs.channel⟩
    · rw [hrs.waiters, hnx, update_idem]
    · rw [hrs.wait, hque, hl]
      by_cases htw : t = w
      · subst htw
        rw [if_neg hout, if_pos mem_cons_self]
        exact update_self _ _ _
      · have hsm : (s.release w r (f (s.wait w))).wait t = s.wait t := update_of_ne htw _ _
        rw [hsm]
        simp [htw]
    · have hcau : ((s.release w r (f (s.wait w))).rt.tasks t).causes =
          (s.rt.tasks t).causes + if t = w then 1 else 0 :=
        (wake_causes r w t).trans (waitPop_causes hpop t)
      rw [hrs.causes, hque, hl, hcau]
      by_cases htw : t = w
      · subst htw
        simp [hout]
      · simp [htw]

theorem releaseAll_exclusive (f : Wait → Wait) (s : System) (hex : Exclusive s.rt.waiters) :
    Exclusive (System.releaseAll q f (s.rt.waiters q).length s).rt.waiters := by
  rw [(releaseAll_spec f _ s hex rfl).waiters]
  exact exclusive_shrink hex (nil_sublist _)

/-! ## Steps elsewhere -/

def System.SameData (s s' : System) : WaitQueue → Prop
  | .mutex m => s'.mutexOwner m = s.mutexOwner m
  | .semaphore i => s'.permits i = s.permits i
  | .waitGroup g => s'.count g = s.count g
  | .senders c | .receivers c => s'.channel c = s.channel c
  | .joiners _ => True

structure SameAt (q : WaitQueue) (s s' : System) : Prop where
  data : s.SameData s' q
  waiters : s'.rt.waiters q = s.rt.waiters q
  wait : ∀ t ∈ s.rt.waiters q, s'.wait t = s.wait t

theorem System.SameData.of_eq (hown : s'.mutexOwner = s.mutexOwner) (hper : s'.permits = s.permits)
    (hcnt : s'.count = s.count) (hch : s'.channel = s.channel) : s.SameData s' q := by
  cases q with
  | mutex m => exact congrFun hown m
  | semaphore i => exact congrFun hper i
  | waitGroup g => exact congrFun hcnt g
  | senders c | receivers c => exact congrFun hch c
  | joiners u => trivial

theorem System.SameData.trans {s'' : System} (h : s.SameData s' q) (h' : s'.SameData s'' q) :
    s.SameData s'' q := by
  cases q with
  | joiners u => trivial
  | _ => exact Eq.trans h' h

theorem System.SameData.owner {m : ℕ} {x : Option TaskId} (hq : q ≠ .mutex m) :
    s.SameData { s with mutexOwner := update s.mutexOwner m x } q := by
  cases q with
  | mutex m' => exact update_of_ne (by simpa using hq) _ _
  | joiners u => trivial
  | _ => exact rfl

theorem System.SameData.permits {i n : ℕ} (hq : q ≠ .semaphore i) :
    s.SameData { s with permits := update s.permits i n } q := by
  cases q with
  | semaphore i' => exact update_of_ne (by simpa using hq) _ _
  | joiners u => trivial
  | _ => exact rfl

theorem System.SameData.count {g n : ℕ} (hq : q ≠ .waitGroup g) :
    s.SameData { s with count := update s.count g n } q := by
  cases q with
  | waitGroup g' => exact update_of_ne (by simpa using hq) _ _
  | joiners u => trivial
  | _ => exact rfl

theorem park_sameData (q k : WaitQueue) (t : TaskId) (s : System) : s.SameData (s.park q t).1 k := by
  unfold System.park
  split <;> exact .of_eq rfl rfl rfl rfl

theorem SameAt.refl (q : WaitQueue) (s : System) : SameAt q s s :=
  ⟨.of_eq rfl rfl rfl rfl, rfl, fun _ _ => rfl⟩

theorem SameAt.trans {s'' : System} (h : SameAt q s s') (h' : SameAt q s' s'') : SameAt q s s'' where
  data := h.data.trans h'.data
  waiters := h'.waiters.trans h.waiters
  wait t ht := (h'.wait t (h.waiters ▸ ht)).trans (h.wait t ht)

theorem SameAt.of_data (h : s.SameData s' q) (hrt : s'.rt = s.rt) (hwt : s'.wait = s.wait) :
    SameAt q s s' :=
  ⟨h, by rw [hrt], fun _ _ => by rw [hwt]⟩

theorem SameAt.of_rt (h : r.waiters q = s.rt.waiters q) : SameAt q s { s with rt := r } :=
  ⟨.of_eq rfl rfl rfl rfl, h, fun _ _ => rfl⟩

theorem SameAt.setChannel {c : ℕ} (hq : q ≠ .senders c ∧ q ≠ .receivers c) (x : Channel) (s : System) :
    SameAt q s (s.setChannel c x) := by
  refine .of_data ?_ rfl rfl
  cases q with
  | senders c' => exact update_of_ne (by simpa using hq.1) _ _
  | receivers c' => exact update_of_ne (by simpa using hq.2) _ _
  | joiners u => trivial
  | _ => exact rfl

theorem SameAt.store (q : WaitQueue) (s : System) (cell : Cell) (value : Value) :
    SameAt q s (s.store cell value) := .of_data (.of_eq rfl rfl rfl rfl) rfl rfl

theorem SameAt.setWait (ht : t ∉ s.rt.waiters q) (x : Wait) : SameAt q s (s.setWait t x) := by
  refine ⟨.of_eq rfl rfl rfl rfl, rfl, fun u hu => update_of_ne ?_ _ _⟩
  rintro rfl
  exact ht hu

theorem SameAt.park (hk : q ≠ k) (ht : t ∉ s.rt.waiters q) : SameAt q s (s.park k t).1 := by
  unfold System.park Runtime.park
  split_ifs
  · exact .refl q s
  · refine ⟨.of_eq rfl rfl rfl rfl, update_of_ne hk _ _, fun u hu => ?_⟩
    apply update_of_ne
    rintro rfl
    exact ht hu

theorem SameAt.parkWith (hk : q ≠ k) (ht : t ∉ s.rt.waiters q) (f : System → Wait) :
    SameAt q s (match s.park k t with
      | (s', none) => (s'.setWait t (f s'), none)
      | (s', status) => (s', status)).1 := by
  have hpr := SameAt.park hk ht
  generalize s.park k t = x at hpr ⊢
  obtain ⟨s', status⟩ := x
  cases status with
  | none => exact hpr.trans (.setWait (hpr.waiters ▸ ht) _)
  | some status => exact hpr

theorem SameAt.release {x : Wait} (hex : Exclusive s.rt.waiters) (hk : q ≠ k)
    (hpop : s.rt.waitPop k = some (w, r)) : SameAt q s (s.release w r x) := by
  obtain ⟨rest, hw, hr⟩ := waitPop_eq_some hpop
  refine ⟨.of_eq rfl rfl rfl rfl, ?_, fun u hu => ?_⟩
  · rw [release_waiters, hr, update_of_ne hk]
  · apply update_of_ne
    rintro rfl
    exact hk (hex.unique hu (hw ▸ mem_cons_self))

theorem SameAt.releaseAll (hk : q ≠ k) (f : Wait → Wait) (s : System)
    (hex : Exclusive s.rt.waiters) :
    SameAt q s (System.releaseAll k f (s.rt.waiters k).length s) := by
  have hall := releaseAll_spec f _ s hex (rfl : s.rt.waiters k = _)
  refine ⟨.of_eq hall.owner hall.permits hall.count hall.channel, ?_, fun t ht => ?_⟩
  · rw [hall.waiters, update_of_ne hk]
  · rw [hall.wait]
    apply if_neg
    intro hmem
    exact hk (hex.unique ht hmem)

def Call.touches (q : WaitQueue) : Call → Bool
  | .join u => q = .joiners u
  | .mutexLock m | .mutexUnlock m => q = .mutex m
  | .semaphoreWait i => q = .semaphore i
  | .waitGroupWait g => q = .waitGroup g
  | .channelSend c _ | .channelReceive c _ => q = .senders c ∨ q = .receivers c
  | _ => false

def FreeCall.touches (q : WaitQueue) : FreeCall → Bool
  | .semaphorePost i => q = .semaphore i
  | .waitGroupAdd g _ => q = .waitGroup g
  | .channelClose c => q = .senders c ∨ q = .receivers c
  | _ => false

def Action.touches (q : WaitQueue) : Action → Bool
  | .call _ c => c.touches q
  | .free c => c.touches q
  | _ => false

theorem sameAt_send {c : ℕ} (hq : q ≠ .senders c ∧ q ≠ .receivers c) (hex : Exclusive s.rt.waiters)
    (ht : t ∉ s.rt.waiters q) (value : Value) : SameAt q s (s.channelSend c t value).1 := by
  unfold System.channelSend
  split
  · exact .refl q s
  · split
    · next w r hpop =>
      dsimp only
      split
      · next cell _ => exact (SameAt.store q s cell value).trans (.release hex hq.2 hpop)
      · exact .release hex hq.2 hpop
    · split
      · exact .setChannel hq _ s
      · exact .parkWith hq.1 ht _

theorem sameAt_receive {c : ℕ} (hq : q ≠ .senders c ∧ q ≠ .receivers c) (hex : Exclusive s.rt.waiters)
    (ht : t ∉ s.rt.waiters q) (out : Cell) : SameAt q s (s.channelReceive c t out).1 := by
  have hpp : SameAt q s ((s.store out (s.channel c).pop.1).setChannel c (s.channel c).pop.2) :=
    (SameAt.store q s _ _).trans (.setChannel hq _ _)
  unfold System.channelReceive
  split
  · dsimp only
    split
    · next w r hpop =>
      have hpus := fun x => SameAt.setChannel hq x
        ((s.store out (s.channel c).pop.1).setChannel c (s.channel c).pop.2)
      exact (hpp.trans (hpus _)).trans (.release hex hq.1 hpop)
    · exact hpp
  · split
    · next w r hpop => exact (SameAt.store q s out _).trans (.release hex hq.1 hpop)
    · split
      · exact .refl q s
      · exact .parkWith hq.2 ht _

theorem sameAt_close {c : ℕ} (hq : q ≠ .senders c ∧ q ≠ .receivers c) (hex : Exclusive s.rt.waiters) :
    SameAt q s (s.channelClose c).1 := by
  unfold System.channelClose
  split
  · exact .refl q s
  · have hclo := SameAt.setChannel hq { s.channel c with closed := true } s
    have hsen := SameAt.releaseAll hq.1 (fun w => { w with value := 0, result := .closed })
      (s.setChannel c { s.channel c with closed := true }) hex
    refine (hclo.trans hsen).trans (.releaseAll hq.2 _ _ ?_)
    exact releaseAll_exclusive _ (s.setChannel c { s.channel c with closed := true }) hex

theorem sameAt_call (h : Inv s.rt) (hpc : (s.rt.ps p).pc = .inTask t)
    (hpt : (s.rt.tasks t).point = .body) {call : Call} (hcl : call.touches q = false) :
    SameAt q s (s.call p t call).1 := by
  have ht : t ∉ s.rt.waiters q := h.not_waiting hpc hpt q
  cases call with
  | spawn =>
    unfold System.call spawn enqueueGlobal
    dsimp only
    split_ifs
    · exact .refl q s
    · exact .of_rt rfl
    · exact .of_rt rfl
  | yield =>
    unfold System.call yieldTask
    dsimp only
    split_ifs
    · exact .refl q s
    · exact .of_rt rfl
  | join target =>
    unfold System.call Runtime.join
    dsimp only
    split_ifs
    · exact .refl q s
    · exact .refl q s
    · exact .refl q s
    · exact .of_rt (update_of_ne (of_decide_eq_false hcl) _ _)
  | mutexLock m =>
    have hq : q ≠ .mutex m := of_decide_eq_false hcl
    unfold System.call System.mutexLock
    dsimp only
    split
    · exact .of_data (.owner hq) rfl rfl
    · split_ifs
      · exact .refl q s
      · exact .park hq ht
  | mutexUnlock m =>
    have hq : q ≠ .mutex m := of_decide_eq_false hcl
    unfold System.call System.mutexUnlock
    dsimp only
    split_ifs
    · exact .refl q s
    · split
      · exact .of_data (.owner hq) rfl rfl
      · next w r hpop =>
        have hown : SameAt q s { s with mutexOwner := update s.mutexOwner m (some w) } :=
          .of_data (.owner hq) rfl rfl
        exact hown.trans (.release h.queues hq hpop)
  | semaphoreWait i =>
    have hq : q ≠ .semaphore i := of_decide_eq_false hcl
    unfold System.call System.semaphoreWait
    dsimp only
    split_ifs
    · exact .of_data (.permits hq) rfl rfl
    · exact .park hq ht
  | waitGroupWait g =>
    have hq : q ≠ .waitGroup g := of_decide_eq_false hcl
    unfold System.call System.waitGroupWait
    dsimp only
    split_ifs
    · exact .refl q s
    · exact .park hq ht
  | channelSend c value =>
    exact sameAt_send (not_or.mp (of_decide_eq_false hcl)) h.queues ht value
  | channelReceive c out =>
    exact sameAt_receive (not_or.mp (of_decide_eq_false hcl)) h.queues ht out
  | timerArm tm delay now ok =>
    unfold System.call timerArm
    dsimp only
    split_ifs
    · exact .refl q s
    · exact .refl q s
    · split <;> exact .of_rt rfl
  | parkForIo io =>
    unfold System.call parkForIo
    dsimp only
    split_ifs
    · exact .of_rt rfl
    · exact .refl q s
  | fiberYield => exact .of_rt rfl
  | finish => exact .of_rt rfl

theorem sameAt_freeCall (h : Inv s.rt) {call : FreeCall} (hcl : call.touches q = false) :
    SameAt q s (s.freeCall call).1 := by
  cases call with
  | semaphorePost i =>
    have hq : q ≠ .semaphore i := of_decide_eq_false hcl
    unfold System.freeCall System.semaphorePost
    dsimp only
    split
    · next hpop => exact .release h.queues hq hpop
    · split_ifs
      · exact .refl q s
      · exact .of_data (.permits hq) rfl rfl
  | waitGroupAdd g delta =>
    have hq : q ≠ .waitGroup g := of_decide_eq_false hcl
    unfold System.freeCall System.waitGroupAdd
    dsimp only
    generalize (if delta < 0 then s.count g - ((-(delta + 1)).toNat + 1)
      else s.count g + delta.toNat) = n
    have hcnt : SameAt q s { s with count := update s.count g n } := .of_data (.count hq) rfl rfl
    split
    · exact .refl q s
    · split
      · exact hcnt.trans (SameAt.releaseAll hq _ { s with count := update s.count g n } h.queues)
      · exact hcnt
  | channelClose c => exact sameAt_close (not_or.mp (of_decide_eq_false hcl)) h.queues
  | timerCancel tm =>
    unfold System.freeCall timerCancel
    dsimp only
    split
    · split_ifs
      · refine .of_rt ?_
        unfold fireTimer
        dsimp only
        split
        · rfl
        · exact congrFun (wake_sameRest _ _).waiters q
      · exact .refl q s
    · exact .refl q s
  | completeIo t =>
    unfold System.freeCall completeIo
    dsimp only
    split_ifs
    · exact .refl q s
    · exact .of_rt (congrFun (wake_sameRest _ _).waiters q)
    · exact .of_rt (congrFun (wake_sameRest _ _).waiters q)
  | requestShutdown => exact .of_rt rfl

theorem step_cases {a : Action} (hst : step s a = some s') : (∃ p e, a = .worker p e) ∨
    (∃ p t c, a = .call p c ∧ (s.rt.ps p).pc = .inTask t ∧ (s.rt.tasks t).point = .body ∧
      s' = (s.call p t c).1) ∨
    (∃ c, a = .free c ∧ s' = (s.freeCall c).1) ∨
    (∃ c, a = .owner c) := by
  unfold step at hst
  cases a with
  | worker p e => exact Or.inl ⟨p, e, rfl⟩
  | call p c =>
    dsimp only at hst
    split at hst
    · next t hpc =>
      split_ifs at hst with hpt
      exact Or.inr (Or.inl ⟨p, t, c, rfl, hpc, hpt, (some.inj hst).symm⟩)
    · cases hst
  | free c =>
    dsimp only at hst
    split_ifs at hst
    exact Or.inr (Or.inr (Or.inl ⟨c, rfl, (some.inj hst).symm⟩))
  | owner c => exact Or.inr (Or.inr (Or.inr ⟨c, rfl⟩))

theorem sameAt_step {a : Action} (h : Inv s.rt) (hq : ∀ u, q ≠ .joiners u) (ha : a.touches q = false)
    (hst : step s a = some s') : SameAt q s s' := by
  unfold step at hst
  cases a with
  | worker p e =>
    dsimp only at hst
    split_ifs at hst
    obtain ⟨r, hr, rfl⟩ := map_eq_some_iff.mp hst
    exact .of_rt (workerStep_waiters hq hr)
  | call p call =>
    dsimp only at hst
    split at hst
    · next t hpc =>
      split_ifs at hst with hpt
      cases hst
      exact sameAt_call h hpc hpt ha
    · cases hst
  | free call =>
    dsimp only at hst
    split_ifs at hst
    cases hst
    exact sameAt_freeCall h ha
  | owner call =>
    dsimp only at hst
    split_ifs at hst
    cases call with
    | spawn =>
      obtain ⟨r, hr, rfl⟩ := map_eq_some_iff.mp hst
      unfold spawn enqueueGlobal at hr
      dsimp only at hr
      split_ifs at hr
      · cases hr
        exact .of_rt rfl
      · cases hr
        exact .of_rt rfl
    | run =>
      obtain ⟨r, hr, rfl⟩ := map_eq_some_iff.mp hst
      unfold runBegin at hr
      split_ifs at hr
      cases hr
      exact .of_rt rfl
    | shutdown =>
      cases hst
      exact .of_rt rfl

end Veloco.Sched
