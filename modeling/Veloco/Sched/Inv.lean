import Veloco.Sched.Effect

/-!
# Where a task is and what it waits for
-/

namespace Veloco.Sched

open Function Sched.Runtime
open Veloco.Placement

variable {p : PId} {k k' : Task} {t : TaskId} {r r' : Runtime} {j : Park}
variable {w : WaitQueue → List TaskId} {T : TimerId → Timer} {a : Place}

def Park.state : Park → TaskState
  | .yield => .runnable
  | .wait _ | .io => .waiting
  | .timer _ => .sleeping
  | .bare => .running

def Task.AtRest (k : Task) : Prop := k.point = .body ∨ ∃ j, k.point = .parked j

/-- Its code is at the park `j`. -/
def Task.In (k : Task) (j : Park) : Prop := k.point = .leaving j ∨ k.point = .parked j

structure Task.Resting (k : Task) : Prop where
  executing : k.executing = false
  wakePending : k.wakePending = false
  state : k.state = .runnable ∨ k.state = .cancelled
  atRest : k.AtRest

structure Task.Active (k : Task) (p : PId) : Prop where
  executing : k.executing = true
  queued : k.queued = false
  lastP : k.lastP = some p

structure Task.Parks (k : Task) (j : Park) : Prop where
  state : k.state = j.state
  wakePending : k.wakePending = true → k.state ≠ .runnable
  ne : j ≠ .bare

structure Task.Nowhere (k : Task) : Prop where
  executing : k.executing = false
  queued : k.queued = false
  wakePending : k.wakePending = false
  state : k.state ≠ .running
  parked : k.state = .waiting ∨ k.state = .sleeping → ∃ j, k.point = .parked j ∧ j.state = k.state

def pcOk (p : PId) : Pc → Task → Prop
  | .unqueue _, k | .stealBatch _ _, k | .stolen _, k =>
    k.Resting ∧ k.queued = true ∧ k.fiber = none
  | .execute _, k => k.Resting ∧ k.queued = false ∧ (k.fiber = none ∨ k.lastP = some p)
  | .createFiber _, k | .resume _, k =>
    k.Active p ∧ k.state = .running ∧ k.wakePending = false ∧ k.AtRest
  | .inTask _, k =>
    k.Active p ∧ (∃ f, k.fiber = some f) ∧
      ((k.state = .running ∧ k.wakePending = false ∧
          (k.point = .body ∨ ∃ tm res, k.point = .armTask tm res ∨ k.point = .armP tm res)) ∨
        ∃ j, k.point = .leaving j ∧ k.Parks j)
  | .returned _ status, k =>
    k.Active p ∧
      ((k.state = .running ∧ k.wakePending = false) ∨
        (status = .ok ∧ (∃ f, k.fiber = some f ∧ f.state = .suspended) ∧
          ∃ j, k.point = .parked j ∧ k.Parks j))
  | _, _ => True

def Runtime.placeOk (r : Runtime) : Place → Task → Prop
  | .globalRunnable, k => k.Resting ∧ k.queued = true
  | .runnable _, k => k.Resting ∧ k.queued = true ∧ k.fiber = none
  | .worker p, k => pcOk p (r.ps p).pc k

def Task.Asleep (k : Task) (j : Park) : Prop :=
  k.state = .cancelled ∨ (k.state = j.state ∧ k.wakePending = false ∧ k.In j)

structure WaitOk (waiters : WaitQueue → List TaskId) (timers : TimerId → Timer) (t : TaskId)
    (k : Task) : Prop where
  linked : ∀ q, t ∈ waiters q → k.Asleep (.wait q)
  timer : ∀ tm, (timers tm).task = some t → k.Asleep (.timer tm)
  io : k.waitingForIo = true → k.Asleep .io
  waiting : k.state = .waiting → k.wakePending = false → (∃ q, t ∈ waiters q) ∨ k.waitingForIo = true
  pending : k.wakePending = true → k.state = .waiting ∨ k.state = .sleeping
  causes : k.state ≠ .cancelled → k.causes = k.wakes + k.wakePending.toNat
  enqueues : k.state ≠ .new → k.enqueues = k.wakes + k.yields + 1

structure Inv (r : Runtime) : Prop where
  places : Exclusive r.contents
  queues : Exclusive r.waiters
  placed : ∀ pl, ∀ t ∈ r.contents pl, r.placeOk pl (r.tasks t)
  nowhere : ∀ t, Absent r.contents t → (r.tasks t).Nowhere
  waits : ∀ t, WaitOk r.waiters r.timers t (r.tasks t)
  fresh : ∀ t, r.taskCount ≤ t → r.tasks t = {}
  made : ∀ t, t < r.taskCount → (r.tasks t).state ≠ .new

/-! ## Reading the invariant -/

theorem pcOk.state_ne_new {pc : Pc} (h : pcOk p pc k) (ht : t ∈ pc.tasks) : k.state ≠ .new := by
  cases pc with
  | unqueue | stealBatch | stolen | execute => rcases h.1.state with hs | hs <;> simp [hs]
  | createFiber | resume => simp [h.2.1]
  | inTask =>
    rcases h.2.2 with hs | ⟨j, -, hj⟩
    · simp [hs.1]
    · rw [hj.state]
      cases j <;> simp [Park.state]
  | returned =>
    rcases h.2 with hs | ⟨-, -, j, -, hj⟩
    · simp [hs.1]
    · rw [hj.state]
      cases j <;> simp [Park.state]
  | _ => simp [Pc.tasks] at ht

theorem Runtime.placeOk_state_ne_new {pl : Place}
    (hp : r.placeOk pl k) (ht : t ∈ r.contents pl) : k.state ≠ .new := by
  cases pl with
  | globalRunnable => rcases hp.1.state with hs | hs <;> simp [hs]
  | runnable p => rcases hp.1.state with hs | hs <;> simp [hs]
  | worker p => exact pcOk.state_ne_new hp ht

theorem Inv.state_ne_new (h : Inv r) (pl : Place)
    (ht : t ∈ r.contents pl) : (r.tasks t).state ≠ .new :=
  placeOk_state_ne_new (h.placed pl t ht) ht

theorem Inv.lt_of_mem (h : Inv r) (pl : Place) (ht : t ∈ r.contents pl) : t < r.taskCount := by
  by_contra hlt
  exact h.state_ne_new pl ht (by rw [h.fresh t (Nat.le_of_not_lt hlt)])

theorem Task.Asleep.state_eq (h : k.Asleep j) :
    k.state = .cancelled ∨ k.state = j.state := h.imp id (·.1)

theorem WaitOk.unlinked (h : WaitOk w T t k) (hw : k.state ≠ .waiting) (hs : k.state ≠ .sleeping)
    (hc : k.state ≠ .cancelled) :
    (∀ q, t ∉ w q) ∧ (∀ tm, (T tm).task ≠ some t) ∧ k.waitingForIo = false ∧
      k.wakePending = false := by
  refine ⟨fun q hq => ?_, fun tm htm => ?_, ?_, ?_⟩
  · rcases (h.linked q hq).state_eq with hk | hk
    · exact hc hk
    · exact hw hk
  · rcases (h.timer tm htm).state_eq with hk | hk
    · exact hc hk
    · exact hs hk
  · by_contra hio
    rcases (h.io (by simpa using hio)).state_eq with hk | hk
    · exact hc hk
    · exact hw hk
  · by_contra hp
    rcases h.pending (by simpa using hp) with hk | hk
    · exact hw hk
    · exact hs hk

theorem WaitOk.unlinked_of_pending (h : WaitOk w T t k) (hp : k.wakePending = true) :
    (∀ q, t ∉ w q) ∧ (∀ tm, (T tm).task ≠ some t) ∧ k.waitingForIo = false := by
  have hno : ∀ j, ¬ k.Asleep j := by
    rintro j (hk | ⟨-, hk, -⟩)
    · rcases h.pending hp with hs | hs <;> simp [hk] at hs
    · simp [hp] at hk
  refine ⟨fun q hq => hno _ (h.linked q hq), fun tm htm => hno _ (h.timer tm htm), ?_⟩
  by_contra hio
  exact hno _ (h.io (by simpa using hio))

theorem WaitOk.only (h : WaitOk w T t k) (hj : k.Asleep j) (hc : k.state ≠ .cancelled) :
    (∀ q, t ∈ w q → j = .wait q) ∧ (∀ tm, (T tm).task = some t → j = .timer tm) ∧
      (k.waitingForIo = true → j = .io) := by
  have hnq : ∀ i, k.Asleep i → j = i := by
    intro i hi
    obtain ⟨-, -, hj⟩ := hj.resolve_left hc
    obtain ⟨-, -, hi⟩ := hi.resolve_left hc
    rcases hj with hj | hj <;> rcases hi with hi | hi <;> rw [hj] at hi <;> cases hi <;> rfl
  exact ⟨fun q hq => hnq _ (h.linked q hq), fun tm htm => hnq _ (h.timer tm htm),
    fun hio => hnq _ (h.io hio)⟩

theorem WaitOk.of_unlinked (hl : ∀ q, t ∉ w q) (ht : ∀ tm, (T tm).task ≠ some t) (hio : k.waitingForIo = false)
    (hp : k.wakePending = false) (hw : k.state ≠ .waiting)
    (hc : k.state ≠ .cancelled → k.causes = k.wakes)
    (he : k.state ≠ .new → k.enqueues = k.wakes + k.yields + 1) : WaitOk w T t k where
  linked q hq := absurd hq (hl q)
  timer tm htm := absurd htm (ht tm)
  io h := by simp [hio] at h
  waiting h := absurd h hw
  pending h := by simp [hp] at h
  causes h := by simp [hc h, hp]
  enqueues := he

def Task.waitFields (k : Task) : TaskState × Bool × Point × Bool × ℕ × ℕ × ℕ × ℕ :=
  (k.state, k.wakePending, k.point, k.waitingForIo, k.causes, k.wakes, k.yields, k.enqueues)

theorem WaitOk.same (h : WaitOk w T t k) (hk : k'.waitFields = k.waitFields) : WaitOk w T t k' := by
  simp only [Task.waitFields, Prod.mk.injEq] at hk
  obtain ⟨h1, h2, h3, h4, h5, h6, h7, h8⟩ := hk
  obtain ⟨a, b, c, d, e, f, g⟩ := h
  constructor <;> simp only [Task.Asleep, Task.In, h1, h2, h3, h4, h5, h6, h7, h8] <;> assumption

theorem WaitOk.parked (h : WaitOk w T t k) (hpt : k.point = .leaving j) (hpt' : k'.point = .parked j)
    (hk : ({ k' with point := k.point } : Task).waitFields = k.waitFields) : WaitOk w T t k' := by
  have hin : ∀ i, k.Asleep i → k'.Asleep i := by
    simp only [Task.waitFields, Prod.mk.injEq] at hk
    rintro i (hc | ⟨hs, hw, hi⟩)
    · exact Or.inl (hk.1.trans hc)
    · refine Or.inr ⟨hk.1.trans hs, hk.2.1.trans hw, Or.inr ?_⟩
      rcases hi with hi | hi
      · rw [hpt', ← Point.leaving.inj (hpt.symm.trans hi)]
      · rw [hpt] at hi
        cases hi
  simp only [Task.waitFields, Prod.mk.injEq] at hk
  obtain ⟨h1, h2, -, h4, h5, h6, h7, h8⟩ := hk
  refine ⟨fun q hq => hin _ (h.linked q hq), fun tm htm => hin _ (h.timer tm htm),
    fun hio => hin _ (h.io (h4 ▸ hio)), ?_, ?_, ?_, ?_⟩
  · rw [h1, h2, h4]
    exact h.waiting
  · rw [h1, h2]
    exact h.pending
  · rw [h1, h2, h5, h6]
    exact h.causes
  · rw [h1, h6, h7, h8]
    exact h.enqueues

def Task.waitCounts (k : Task) : Bool × Bool × ℕ × ℕ × ℕ × ℕ :=
  (k.wakePending, k.waitingForIo, k.causes, k.wakes, k.yields, k.enqueues)

theorem WaitOk.restate (h : WaitOk w T t k) (hs : k.state = .runnable ∨ k.state = .running)
    (hs' : k'.state ≠ .waiting) (hk : k'.waitCounts = k.waitCounts) : WaitOk w T t k' := by
  have hne : k.state ≠ .waiting ∧ k.state ≠ .sleeping ∧ k.state ≠ .cancelled ∧ k.state ≠ .new := by
    rcases hs with hs | hs <;> simp [hs]
  obtain ⟨hl, ht, hio, hp⟩ := h.unlinked hne.1 hne.2.1 hne.2.2.1
  have hc := h.causes hne.2.2.1
  have he := h.enqueues hne.2.2.2
  simp only [Task.waitCounts, Prod.mk.injEq] at hk
  obtain ⟨h1, h2, h3, h4, h5, h6⟩ := hk
  rw [hp, Bool.toNat_false, Nat.add_zero] at hc
  refine WaitOk.of_unlinked hl ht (h2.trans hio) (h1.trans hp) hs' ?_ ?_
  · intro _
    rw [h3, h4, hc]
  · intro _
    rw [h4, h5, h6, he]

theorem WaitOk.congr {w' : WaitQueue → List TaskId} {T' : TimerId → Timer} (h : WaitOk w T t k) (hl : ∀ q, t ∈ w' q ↔ t ∈ w q)
    (ht : ∀ tm, (T' tm).task = some t → (T tm).task = some t) : WaitOk w' T' t k where
  linked q hq := h.linked q ((hl q).mp hq)
  timer tm htm := h.timer tm (ht tm htm)
  io := h.io
  waiting hs hp := (h.waiting hs hp).imp (fun ⟨q, hq⟩ => ⟨q, (hl q).mpr hq⟩) id
  pending := h.pending
  causes := h.causes
  enqueues := h.enqueues

theorem Inv.one (h : Inv r) (htas : r'.tasks = update r.tasks t k)
    (hplac : Exclusive r'.contents) (hque : Exclusive r'.waiters)
    (hmem : ∀ u, u ≠ t → ∀ pl, u ∈ r'.contents pl ↔ u ∈ r.contents pl)
    (hpc : ∀ u, u ≠ t → ∀ p, u ∈ (r.ps p).pc.tasks → pcOk p (r.ps p).pc (r.tasks u) →
      pcOk p (r'.ps p).pc (r.tasks u))
    (hln : ∀ u, u ≠ t → ∀ q, u ∈ r'.waiters q ↔ u ∈ r.waiters q)
    (htim : ∀ u, u ≠ t → ∀ tm, (r'.timers tm).task = some u → (r.timers tm).task = some u)
    (hpla : ∀ pl, t ∈ r'.contents pl → r'.placeOk pl k)
    (hnow : Absent r'.contents t → k.Nowhere) (hwt : WaitOk r'.waiters r'.timers t k)
    (hmd : k.state ≠ .new) (hlt : t < r'.taskCount) (hcnt : r.taskCount ≤ r'.taskCount)
    (hgr : ∀ u, u ≠ t → u < r'.taskCount → u < r.taskCount) : Inv r' := by
  have hsl : r'.tasks t = k := by rw [htas, update_self]
  have hne : ∀ u, u ≠ t → r'.tasks u = r.tasks u := fun u hu => by rw [htas, update_of_ne hu]
  refine ⟨hplac, hque, ?_, ?_, ?_, ?_, ?_⟩
  · intro pl u hu
    by_cases hut : u = t
    · subst hut
      rw [hsl]
      exact hpla pl hu
    · rw [hne u hut]
      have hu' := (hmem u hut pl).mp hu
      have hok := h.placed pl u hu'
      cases pl with
      | globalRunnable => exact hok
      | runnable p => exact hok
      | worker p => exact hpc u hut p hu' hok
  · intro u hu
    by_cases hut : u = t
    · subst hut
      rw [hsl]
      exact hnow hu
    · rw [hne u hut]
      exact h.nowhere u fun pl hpl => hu pl ((hmem u hut pl).mpr hpl)
  · intro u
    by_cases hut : u = t
    · subst hut
      rw [hsl]
      exact hwt
    · rw [hne u hut]
      exact (h.waits u).congr (hln u hut) (htim u hut)
  · intro u hu
    rw [hne u (Nat.ne_of_gt (Nat.lt_of_lt_of_le hlt hu))]
    exact h.fresh u (hcnt.trans hu)
  · intro u hu
    by_cases hut : u = t
    · subst hut
      rwa [hsl]
    · rw [hne u hut]
      exact h.made u (hgr u hut hu)

structure Runtime.SameWaits (r r' : Runtime) : Prop where
  waiters : r'.waiters = r.waiters
  timers : r'.timers = r.timers
  taskCount : r'.taskCount = r.taskCount

theorem Inv.same (h : Inv r) (hc : r'.contents = r.contents)
    (htas : r'.tasks = r.tasks) (hw : r'.waiters = r.waiters)
    (htim : ∀ u tm, (r'.timers tm).task = some u → (r.timers tm).task = some u)
    (hn : r'.taskCount = r.taskCount)
    (hpc : ∀ u p, u ∈ (r.ps p).pc.tasks → pcOk p (r.ps p).pc (r.tasks u) →
      pcOk p (r'.ps p).pc (r.tasks u)) : Inv r' := by
  refine ⟨hc ▸ h.places, hw ▸ h.queues, ?_, ?_, ?_, ?_, ?_⟩
  · intro pl u hu
    rw [hc] at hu
    rw [htas]
    have hok := h.placed pl u hu
    cases pl with
    | globalRunnable => exact hok
    | runnable p => exact hok
    | worker p => exact hpc u p hu hok
  · rw [hc, htas]
    exact h.nowhere
  · intro u
    rw [htas]
    exact (h.waits u).congr (fun q => by rw [hw]) (htim u)
  · rw [hn, htas]
    exact h.fresh
  · rw [hn, htas]
    exact h.made

theorem Inv.relocated {old new : Option Place} (h : Inv r)
    (hold : ∀ pl, t ∈ r.contents pl → old = some pl)
    (hc : r'.contents = relocate r.contents t old new)
    (htas : r'.tasks = update r.tasks t k) (hs : r.SameWaits r')
    (hpc : ∀ u, u ≠ t → ∀ p, u ∈ (r.ps p).pc.tasks → pcOk p (r.ps p).pc (r.tasks u) →
      pcOk p (r'.ps p).pc (r.tasks u))
    (hpla : ∀ pl, new = some pl → r'.placeOk pl k) (hnow : new = none → k.Nowhere)
    (hwt : WaitOk r.waiters r.timers t k) (hmd : k.state ≠ .new) (hlt : t < r.taskCount) :
    Inv r' := by
  refine h.one htas (hc ▸ h.places.relocate hold) (hs.waiters ▸ h.queues) ?_ hpc ?_ ?_ ?_ ?_ ?_
    hmd (hs.taskCount ▸ hlt) (hs.taskCount ▸ le_refl _) (fun _ _ => by rw [hs.taskCount]; exact id)
  · intro u hu pl
    rw [hc, mem_relocate_of_ne hu]
  · intro u _ q
    rw [hs.waiters]
  · intro u _ tm
    rw [hs.timers]
    exact id
  · intro pl hpl
    rw [hc, mem_relocate_self h.places hold] at hpl
    exact hpla pl hpl
  · intro habs
    cases new with
    | none => exact hnow rfl
    | some pl =>
      refine absurd ?_ (habs pl)
      rw [hc, mem_relocate_self h.places hold]
  · rw [hs.waiters, hs.timers]
    exact hwt

theorem Inv.move (h : Inv r) {b : Place}
    (ht : t ∈ r.contents a) (hc : r'.contents = relocate r.contents t (some a) (some b))
    (htas : r'.tasks = update r.tasks t k) (hs : r.SameWaits r')
    (hpc : ∀ u, u ≠ t → ∀ p, u ∈ (r.ps p).pc.tasks → pcOk p (r.ps p).pc (r.tasks u) →
      pcOk p (r'.ps p).pc (r.tasks u))
    (hpla : r'.placeOk b k) (hwt : WaitOk r.waiters r.timers t k) : Inv r' := by
  have hold : ∀ pl, t ∈ r.contents pl → some a = some pl :=
    fun pl hpl => congrArg some (h.places.unique ht hpl)
  have hb : t ∈ r'.contents b := by rw [hc, mem_relocate_self h.places hold]
  refine h.relocated hold hc htas hs hpc ?_ (by simp) hwt
    (placeOk_state_ne_new hpla hb) (h.lt_of_mem a ht)
  intro pl hpl
  rwa [← Option.some.inj hpl]

theorem Inv.leave (h : Inv r)
    (ht : t ∈ r.contents a) (hc : r'.contents = relocate r.contents t (some a) none)
    (htas : r'.tasks = update r.tasks t k) (hs : r.SameWaits r')
    (hpc : ∀ u, u ≠ t → ∀ p, u ∈ (r.ps p).pc.tasks → pcOk p (r.ps p).pc (r.tasks u) →
      pcOk p (r'.ps p).pc (r.tasks u))
    (hnow : k.Nowhere) (hwt : WaitOk r.waiters r.timers t k) (hmd : k.state ≠ .new) :
    Inv r' :=
  h.relocated (fun pl hpl => congrArg some (h.places.unique ht hpl)) hc htas hs hpc (by simp)
    (fun _ => hnow) hwt hmd (h.lt_of_mem a ht)

theorem Inv.record (h : Inv r)
    (hc : r'.contents = r.contents) (htas : r'.tasks = update r.tasks t k)
    (hs : r.SameWaits r')
    (hpc : ∀ u, u ≠ t → ∀ p, u ∈ (r.ps p).pc.tasks → pcOk p (r.ps p).pc (r.tasks u) →
      pcOk p (r'.ps p).pc (r.tasks u))
    (hpla : ∀ pl, t ∈ r.contents pl → r.placeOk pl (r.tasks t) → r'.placeOk pl k)
    (hnow : (r.tasks t).Nowhere → k.Nowhere) (hwt : WaitOk r.waiters r.timers t k)
    (hmd : k.state ≠ .new) (hlt : t < r.taskCount) : Inv r' := by
  refine h.one htas (hc ▸ h.places) (hs.waiters ▸ h.queues) ?_ hpc ?_ ?_ ?_ ?_ ?_ hmd
    (hs.taskCount ▸ hlt) (hs.taskCount ▸ le_refl _) (fun _ _ => by rw [hs.taskCount]; exact id)
  · intro u _ pl
    rw [hc]
  · intro u _ q
    rw [hs.waiters]
  · intro u _ tm
    rw [hs.timers]
    exact id
  · intro pl hpl
    rw [hc] at hpl
    exact hpla pl hpl (h.placed pl t hpl)
  · intro habs
    rw [hc] at habs
    exact hnow (h.nowhere t habs)
  · rw [hs.waiters, hs.timers]
    exact hwt

theorem Inv.hold {b : Pc} (h : Inv r) (hpc : (r.ps p).pc.tasks = [t]) (hb : b.tasks = [t])
    (hps : r'.ps = update r.ps p { r.ps p with pc := b })
    (hg : r'.globalRunnable = r.globalRunnable)
    (htas : r'.tasks = update r.tasks t k) (hs : r.SameWaits r')
    (hok : pcOk p (r.ps p).pc (r.tasks t) → pcOk p b k)
    (hwt : WaitOk r.waiters r.timers t k) : Inv r' := by
  have ht : t ∈ r.contents (.worker p) := by simp [contents, hpc]
  have hpcs : (r'.ps p).pc = b := by rw [hps, update_self]
  have hc : r'.contents = r.contents := by
    funext pl
    cases pl with
    | globalRunnable => exact hg
    | runnable q => by_cases hq : q = p <;> simp [contents, hps, hq]
    | worker q => by_cases hq : q = p <;> simp [contents, hps, hq, hb, hpc]
  have hbk : pcOk p b k := hok (h.placed _ t ht)
  refine h.one htas (hc ▸ h.places) (hs.waiters ▸ h.queues) ?_ ?_ ?_ ?_ ?_ ?_ ?_
    (hbk.state_ne_new (t := t) (by simp [hb])) (hs.taskCount ▸ h.lt_of_mem _ ht)
    (hs.taskCount ▸ le_refl _) (fun _ _ => by rw [hs.taskCount]; exact id)
  · intro u _ pl
    rw [hc]
  · intro u hut q hu
    by_cases hq : q = p
    · subst hq
      rw [hpc, List.mem_singleton] at hu
      exact absurd hu hut
    · rw [hps, update_of_ne hq]
      exact id
  · intro u _ q
    rw [hs.waiters]
  · intro u _ tm
    rw [hs.timers]
    exact id
  · intro pl hpl
    rw [hc] at hpl
    obtain rfl := h.places.unique ht hpl
    show pcOk p (r'.ps p).pc k
    rw [hpcs]
    exact hbk
  · intro habs
    rw [hc] at habs
    exact absurd ht (habs _)
  · rw [hs.waiters, hs.timers]
    exact hwt

end Veloco.Sched
