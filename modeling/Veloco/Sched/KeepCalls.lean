import Veloco.Sched.Keep

/-!
# Calls, wakers and shutdown keep the scheduler's invariant
-/

namespace Veloco.Sched

open Function Sched.Runtime
open Veloco.Placement

variable {r : Runtime} {p : PId} {t : TaskId}

variable {k k' : Task} {r' r₁ : Runtime} {j : Park} {q : WaitQueue} {tm : TimerId}
variable {hp : TimerHeap.Heap TimerId} {result : Status} {pl : Place} {w : TaskId}

theorem Inv.in_hands (h : Inv r) (hpc : (r.ps p).pc = .inTask t)
    (hk : pcOk p (.inTask t) k) (pl : Place) (hpl : t ∈ r.contents pl) : r.placeOk pl k := by
  have hmem : t ∈ r.contents (.worker p) := by simp [contents, hpc, Pc.tasks]
  obtain rfl := h.places.unique hmem hpl
  show pcOk p (r.ps p).pc k
  rwa [hpc]

theorem not_absent (hpc : (r.ps p).pc = .inTask t) : ¬ Absent r.contents t := by
  intro habs
  exact habs (.worker p) (by simp [contents, hpc, Pc.tasks])

theorem Inv.lt_of_inTask (h : Inv r) (hpc : (r.ps p).pc = .inTask t) : t < r.taskCount :=
  h.lt_of_mem (.worker p) (by simp [contents, hpc, Pc.tasks])

theorem Inv.yield (h : Inv r) (hpc : (r.ps p).pc = .inTask t) (hpt : (r.tasks t).point = .body) :
    Inv (r.setTask t { r.tasks t with state := .runnable, point := .leaving .yield }) := by
  obtain ⟨⟨h1, h2, h3⟩, hf, hs, hw⟩ := h.inBody hpc hpt
  refine h.record rfl rfl ⟨rfl, rfl, rfl⟩ (fun _ _ _ _ => id) ?_ ?_
    ((h.waits t).restate (Or.inr hs) (by simp) rfl) (by simp) (h.lt_of_inTask hpc)
  · intro pl hpl _
    have hok : pcOk p (.inTask t) { r.tasks t with state := .runnable, point := .leaving .yield } :=
      ⟨⟨h1, h2, h3⟩, hf, Or.inr ⟨.yield, rfl, ⟨rfl, by simp [hw], by simp⟩⟩⟩
    exact h.in_hands hpc hok pl hpl
  · intro hn
    simp [hn.executing] at h1

theorem Inv.parks (h : Inv r) (hpc : (r.ps p).pc = .inTask t)
    (hpt : (r.tasks t).point = .body) (hc : r'.contents = r.contents)
    (hpcs : ∀ q, (r'.ps q).pc = (r.ps q).pc)
    (htas : r'.tasks = update r.tasks t k) (hn : r'.taskCount = r.taskCount)
    (hque : Exclusive r'.waiters)
    (hln : ∀ u, u ≠ t → ∀ q, u ∈ r'.waiters q ↔ u ∈ r.waiters q)
    (htim : ∀ u, u ≠ t → ∀ tm, (r'.timers tm).task = some u → (r.timers tm).task = some u)
    (hk : k.point = .leaving j ∧ k.state = j.state ∧ j.state ≠ .running)
    (hsm : k.executing = (r.tasks t).executing ∧ k.queued = (r.tasks t).queued ∧
      k.lastP = (r.tasks t).lastP ∧ k.fiber = (r.tasks t).fiber ∧
      k.wakePending = (r.tasks t).wakePending)
    (hwt : WaitOk r'.waiters r'.timers t k) : Inv r' := by
  obtain ⟨⟨h1, h2, h3⟩, ⟨f, hf⟩, hs, hw⟩ := h.inBody hpc hpt
  obtain ⟨e1, e2, e3, e4, e5⟩ := hsm
  have hmd : k.state ≠ .new := by
    rw [hk.2.1]
    cases j <;> simp [Park.state]
  refine h.one htas (hc ▸ h.places) hque (fun u _ pl => by rw [hc]) ?_ hln htim ?_ ?_ hwt
    hmd (hn ▸ h.lt_of_inTask hpc) (hn ▸ le_refl _) (fun _ _ => by rw [hn]; exact id)
  · intro u _ q _ hok
    rwa [hpcs q]
  · intro pl hpl
    rw [hc] at hpl
    have hok : r.placeOk pl k := h.in_hands hpc
      ⟨⟨e1.trans h1, e2.trans h2, e3.trans h3⟩, ⟨f, e4.trans hf⟩,
        Or.inr ⟨j, hk.1, ⟨hk.2.1, by simp [e5, hw], fun hj => hk.2.2 (by simp [hj, Park.state])⟩⟩⟩
      pl hpl
    cases pl with
    | globalRunnable => exact hok
    | runnable q => exact hok
    | worker q =>
      show pcOk q (r'.ps q).pc k
      rw [hpcs q]
      exact hok
  · intro habs
    rw [hc] at habs
    exact absurd habs (not_absent hpc)

theorem Inv.unlinked_inBody (h : Inv r) (hpc : (r.ps p).pc = .inTask t)
    (hpt : (r.tasks t).point = .body) :
    (∀ q, t ∉ r.waiters q) ∧ (∀ tm, (r.timers tm).task ≠ some t) ∧
      (r.tasks t).waitingForIo = false ∧ (r.tasks t).wakePending = false ∧
      (r.tasks t).causes = (r.tasks t).wakes ∧
      (r.tasks t).enqueues = (r.tasks t).wakes + (r.tasks t).yields + 1 := by
  obtain ⟨-, -, hs, hw⟩ := h.inBody hpc hpt
  obtain ⟨hl, ht, hio, -⟩ := (h.waits t).unlinked (by simp [hs]) (by simp [hs]) (by simp [hs])
  have hc := (h.waits t).causes (by simp [hs])
  rw [hw] at hc
  exact ⟨hl, ht, hio, hw, hc, (h.waits t).enqueues (by simp [hs])⟩

theorem Inv.park {x : Option TaskId} (h : Inv r) (hpc : (r.ps p).pc = .inTask t)
    (hpt : (r.tasks t).point = .body) :
    Inv ((r.setTask t { r.tasks t with
      state := .waiting, waitingOn := x, point := .leaving (.wait q) }).waitPush q t) := by
  obtain ⟨hl, ht, hio, hw, hcs, he⟩ := h.unlinked_inBody hpc hpt
  have hq : update r.waiters q (r.waiters q ++ [t]) =
      relocate r.waiters t none (some q) := (relocate_enter _ _ _).symm
  have hold : ∀ q', t ∈ r.waiters q' → none = some q' := fun q' hq' => absurd hq' (hl q')
  refine h.parks (j := .wait q) hpc hpt rfl (fun _ => rfl) rfl rfl ?_ ?_ (fun _ _ _ => id)
    ⟨rfl, rfl, by simp [Park.state]⟩ ⟨rfl, rfl, rfl, rfl, rfl⟩ ?_
  · show Exclusive (update r.waiters q (r.waiters q ++ [t]))
    rw [hq]
    exact h.queues.relocate hold
  · intro u hu q'
    show u ∈ update r.waiters q (r.waiters q ++ [t]) q' ↔ _
    rw [hq, mem_relocate_of_ne hu]
  · show WaitOk (update r.waiters q (r.waiters q ++ [t])) r.timers t _
    rw [hq]
    refine ⟨?_, fun tm htm => absurd htm (ht tm), ?_, ?_, ?_, ?_, fun _ => he⟩
    · intro q' hq'
      rw [mem_relocate_self h.queues hold] at hq'
      cases hq'
      exact Or.inr ⟨rfl, hw, Or.inl rfl⟩
    · intro hio'
      simp [hio] at hio'
    · intro _ _
      exact Or.inl ⟨q, (mem_relocate_self h.queues hold q).mpr rfl⟩
    · intro hp
      simp [hw] at hp
    · intro _
      simp [hw, hcs]

theorem Inv.parkIo {io : IoId} (h : Inv r) (hpc : (r.ps p).pc = .inTask t)
    (hpt : (r.tasks t).point = .body) :
    Inv { r.setTask t { r.tasks t with
        waitingForIo := true, state := .waiting, point := .leaving .io } with
      ioDriver := some io
      ioWaiting := r.ioWaiting + 1 } := by
  obtain ⟨hl, ht, hio, hw, hcs, he⟩ := h.unlinked_inBody hpc hpt
  refine h.parks (j := .io) hpc hpt rfl (fun _ => rfl) rfl rfl h.queues (fun _ _ _ => Iff.rfl)
    (fun _ _ _ => id) ⟨rfl, rfl, by simp [Park.state]⟩ ⟨rfl, rfl, rfl, rfl, rfl⟩ ?_
  refine ⟨fun q hq => absurd hq (hl q), fun tm htm => absurd htm (ht tm), ?_, ?_, ?_, ?_,
    fun _ => he⟩
  · intro _
    exact Or.inr ⟨rfl, hw, Or.inl rfl⟩
  · intro _ _
    exact Or.inr rfl
  · intro hp
    simp [hw] at hp
  · intro _
    simp [hw, hcs]

theorem contents_putHeap (r : Runtime) (p : PId) (h : TimerHeap.Heap TimerId) :
    (r.putHeap p h).contents = r.contents := by
  funext pl
  cases pl with
  | globalRunnable => rfl
  | runnable q => by_cases hq : q = p <;> simp [contents, putHeap, hq]
  | worker q => by_cases hq : q = p <;> simp [contents, putHeap, hq]

theorem putHeap_pc (r : Runtime) (p q : PId) (h : TimerHeap.Heap TimerId) :
    ((r.putHeap p h).ps q).pc = (r.ps q).pc := by
  by_cases hq : q = p <;> simp [putHeap, hq]

theorem Inv.arm (h : Inv r) (hpc : (r.ps p).pc = .inTask t) (hpt : (r.tasks t).point = .body) :
    Inv { ((r.setTask t { r.tasks t with
        state := .sleeping
        timerResult := .ok
        point := .leaving (.timer tm)
        timerEvent := none }).setTimer tm ⟨some t, some p⟩).putHeap p hp with
      timerCount := r.timerCount + 1 } := by
  obtain ⟨hl, ht, hio, hw, hcs, he⟩ := h.unlinked_inBody hpc hpt
  refine h.parks (j := .timer tm) hpc hpt (contents_putHeap r p hp) (fun q => putHeap_pc r p q hp)
    rfl rfl h.queues (fun _ _ _ => Iff.rfl) ?_ ⟨rfl, rfl, by simp [Park.state]⟩
    ⟨rfl, rfl, rfl, rfl, rfl⟩ ?_
  · intro u hu tm' htm'
    by_cases hq : tm' = tm
    · simp [putHeap, setTimer, setP, hq] at htm'
      exact absurd htm'.symm hu
    · simpa [putHeap, setTimer, setP, setTask, hq] using htm'
  · refine ⟨fun q hq => absurd hq (hl q), ?_, ?_, ?_, ?_, ?_, fun _ => he⟩
    · intro tm' htm'
      by_cases hq : tm' = tm
      · subst hq
        exact Or.inr ⟨rfl, hw, Or.inl rfl⟩
      · refine absurd ?_ (ht tm')
        simpa [putHeap, setTimer, setP, setTask, hq] using htm'
    · intro hio'
      simp [hio] at hio'
    · intro hs
      simp at hs
    · intro hp
      simp [hw] at hp
    · intro _
      simp [hw, hcs]

theorem Inv.writeTimer (h : Inv r) (hpc : (r.ps p).pc = .inTask t)
    (hs : (r.tasks t).state = .running) (hc : r'.contents = r.contents) (hps : r'.ps = r.ps)
    (htas : r'.tasks = update r.tasks t k) (hn : r'.taskCount = r.taskCount)
    (hw : r'.waiters = r.waiters)
    (htim : ∀ u tm, (r'.timers tm).task = some u → (r.timers tm).task = some u)
    (hok : pcOk p (.inTask t) k) (hks : k.state = .running)
    (hkc : k.waitCounts = (r.tasks t).waitCounts) : Inv r' := by
  have hwt : WaitOk r.waiters r.timers t k := (h.waits t).restate (Or.inr hs) (by simp [hks]) hkc
  refine h.one htas (hc ▸ h.places) (hw ▸ h.queues) (fun u _ pl => by rw [hc]) ?_
    (fun u _ q => by rw [hw]) (fun u _ => htim u) ?_ ?_ ?_ (by simp [hks])
    (hn ▸ h.lt_of_inTask hpc) (hn ▸ le_refl _) (fun _ _ => by rw [hn]; exact id)
  · intro u _ q _ hq
    rwa [hps]
  · intro pl hpl
    rw [hc] at hpl
    have hok' := h.in_hands hpc hok pl hpl
    cases pl with
    | globalRunnable => exact hok'
    | runnable q => exact hok'
    | worker q =>
      show pcOk q (r'.ps q).pc k
      rw [hps]
      exact hok'
  · intro habs
    rw [hc] at habs
    exact absurd habs (not_absent hpc)
  · exact hwt.congr (fun q => by rw [hw]) (htim t)

theorem Inv.armFail {n : TimerId → TimerHeap.Node} (h : Inv r)
    (hpc : (r.ps p).pc = .inTask t) (hpt : (r.tasks t).point = .body) :
    Inv { (r.setTask t { r.tasks t with timerResult := .ok }).setTimer tm ⟨none, none⟩ with
      node := n } := by
  obtain ⟨⟨h1, h2, h3⟩, hf, hs, hw⟩ := h.inBody hpc hpt
  refine h.writeTimer hpc hs rfl rfl rfl rfl rfl ?_
    ⟨⟨h1, h2, h3⟩, hf, Or.inl ⟨hs, hw, Or.inl hpt⟩⟩ hs rfl
  intro u tm' htm'
  by_cases hq : tm' = tm
  · simp [setTimer, hq] at htm'
  · simpa [setTimer, setTask, hq] using htm'

theorem Inv.inTail {pt : Point} (h : Inv r) (hpc : (r.ps p).pc = .inTask t)
    (hpt : (r.tasks t).point = pt) (hne : ∀ j, pt ≠ .leaving j) :
    (r.tasks t).Active p ∧ (∃ f, (r.tasks t).fiber = some f) ∧ (r.tasks t).state = .running ∧
      (r.tasks t).wakePending = false := by
  have hmem : t ∈ r.contents (.worker p) := by simp [contents, hpc, Pc.tasks]
  have hok : pcOk p (.inTask t) (r.tasks t) := hpc ▸ h.placed _ t hmem
  obtain ⟨ha, hf, ⟨hs, hw, -⟩ | ⟨j, hj, -⟩⟩ := hok
  · exact ⟨ha, hf, hs, hw⟩
  · exact absurd (hpt.symm.trans hj) (hne j)

theorem Inv.clearTask (h : Inv r)
    (hpc : (r.ps p).pc = .inTask t) (hpt : (r.tasks t).point = .armTask tm result) :
    Inv ((r.clearTimerTask tm).setTask t { r.tasks t with point := .armP tm result }) := by
  obtain ⟨⟨h1, h2, h3⟩, hf, hs, hw⟩ := h.inTail hpc hpt (by simp)
  refine h.writeTimer hpc hs rfl rfl rfl rfl rfl ?_
    ⟨⟨h1, h2, h3⟩, hf, Or.inl ⟨hs, hw, Or.inr ⟨tm, result, Or.inr rfl⟩⟩⟩ hs rfl
  intro u tm' htm'
  by_cases hq : tm' = tm
  · simp [clearTimerTask, setTimer, setTask, hq] at htm'
  · simpa [clearTimerTask, setTimer, setTask, hq] using htm'

theorem Inv.clearP (h : Inv r)
    (hpc : (r.ps p).pc = .inTask t) (hpt : (r.tasks t).point = .armP tm result) :
    Inv ((r.clearTimerP tm).setTask t { r.tasks t with point := .body }) := by
  obtain ⟨⟨h1, h2, h3⟩, hf, hs, hw⟩ := h.inTail hpc hpt (by simp)
  refine h.writeTimer hpc hs rfl rfl rfl rfl rfl ?_
    ⟨⟨h1, h2, h3⟩, hf, Or.inl ⟨hs, hw, Or.inl rfl⟩⟩ hs rfl
  intro u tm' htm'
  by_cases hq : tm' = tm
  · subst hq
    simpa [clearTimerP, setTimer, setTask] using htm'
  · simpa [clearTimerP, setTimer, setTask, hq] using htm'

/-! ## Wakers -/

def Task.placeFields (k : Task) :
    TaskState × Bool × Option Fiber × Option PId × Bool × Bool × Point :=
  (k.state, k.queued, k.fiber, k.lastP, k.executing, k.wakePending, k.point)

theorem Task.Resting.same (h : k.Resting) (hk : k'.placeFields = k.placeFields) : k'.Resting := by
  simp only [Task.placeFields, Prod.mk.injEq] at hk
  obtain ⟨e1, -, -, -, e5, e6, e7⟩ := hk
  exact ⟨e5.trans h.executing, e6.trans h.wakePending, by rw [e1]; exact h.state,
    by unfold Task.AtRest; rw [e7]; exact h.atRest⟩

theorem Task.Nowhere.same (h : k.Nowhere) (hk : k'.placeFields = k.placeFields) : k'.Nowhere := by
  simp only [Task.placeFields, Prod.mk.injEq] at hk
  obtain ⟨e1, e2, -, -, e5, e6, e7⟩ := hk
  exact ⟨e5.trans h.executing, e2.trans h.queued, e6.trans h.wakePending, by rw [e1]; exact h.state,
    by rw [e1, e7]; exact h.parked⟩

theorem pcOk_same {pc : Pc} (h : pcOk p pc k) (hk : k'.placeFields = k.placeFields) :
    pcOk p pc k' := by
  have hrs : k.Resting → k'.Resting := fun hr => hr.same hk
  simp only [Task.placeFields, Prod.mk.injEq] at hk
  obtain ⟨e1, e2, e3, e4, e5, e6, e7⟩ := hk
  have hact : ∀ {q}, k.Active q → k'.Active q := fun ha =>
    ⟨e5.trans ha.executing, e2.trans ha.queued, e4.trans ha.lastP⟩
  have hpr : ∀ {j}, k.Parks j → k'.Parks j := fun hj =>
    ⟨e1.trans hj.state, by rw [e1, e6]; exact hj.wakePending, hj.ne⟩
  cases pc with
  | unqueue | stealBatch | stolen | execute =>
    simp only [pcOk, e2, e3, e4] at h ⊢
    exact ⟨hrs h.1, h.2⟩
  | createFiber | resume =>
    simp only [pcOk, e1, e6, Task.AtRest, e7] at h ⊢
    exact ⟨hact h.1, h.2⟩
  | inTask =>
    simp only [pcOk, e1, e3, e6, e7] at h ⊢
    exact ⟨hact h.1, h.2.1, h.2.2.imp id (.imp fun j => .imp id hpr)⟩
  | returned =>
    simp only [pcOk, e1, e3, e6, e7] at h ⊢
    exact ⟨hact h.1, h.2.imp id (.imp id (.imp id (.imp fun j => .imp id hpr)))⟩
  | _ => trivial

theorem placeOk_same (h : r.placeOk pl k)
    (hk : k'.placeFields = k.placeFields) : r.placeOk pl k' := by
  have hk' := hk
  simp only [Task.placeFields, Prod.mk.injEq] at hk'
  cases pl with
  | globalRunnable => exact ⟨h.1.same hk, hk'.2.1.trans h.2⟩
  | runnable q => exact ⟨h.1.same hk, hk'.2.1.trans h.2.1, hk'.2.2.1.trans h.2.2⟩
  | worker q => exact pcOk_same h hk

theorem Inv.resting (h : Inv r) (hpl : t ∈ r.contents pl)
    (hex : (r.tasks t).executing = false) : (r.tasks t).Resting := by
  have hok := h.placed pl t hpl
  cases pl with
  | globalRunnable => exact hok.1
  | runnable q => exact hok.1
  | worker q =>
    have hok : pcOk q (r.ps q).pc (r.tasks t) := hok
    have hpl : t ∈ (r.ps q).pc.tasks := hpl
    cases hpc : (r.ps q).pc with
    | unqueue | stealBatch | stolen | execute =>
      rw [hpc] at hok
      exact hok.1
    | createFiber | resume | inTask | returned =>
      rw [hpc] at hok
      simp [hok.1.executing] at hex
    | _ => simp [hpc, Pc.tasks] at hpl

theorem Inv.executing (h : Inv r) (hex : (r.tasks t).executing = true) :
    ∃ q, (r.ps q).pc.executes t = true ∧ (r.tasks t).Active q := by
  by_cases habs : Absent r.contents t
  · simp [(h.nowhere t habs).executing] at hex
  · obtain ⟨pl, hpl⟩ : ∃ pl, t ∈ r.contents pl := by simpa [Absent] using habs
    have hok := h.placed pl t hpl
    cases pl with
    | globalRunnable => simp [hok.1.executing] at hex
    | runnable q => simp [hok.1.executing] at hex
    | worker q =>
      have hok : pcOk q (r.ps q).pc (r.tasks t) := hok
      have hpl : t ∈ (r.ps q).pc.tasks := hpl
      refine ⟨q, ?_⟩
      cases hpc : (r.ps q).pc with
      | unqueue | stealBatch | stolen | execute =>
        rw [hpc] at hok
        simp [hok.1.executing] at hex
      | createFiber | resume | inTask | returned =>
        rw [hpc] at hok hpl
        refine ⟨?_, hok.1⟩
        simpa [Pc.executes, Pc.tasks, eq_comm] using hpl
      | _ => simp [hpc, Pc.tasks] at hpl

theorem Inv.not_pending (h : Inv r) (hex : (r.tasks t).executing = false) :
    (r.tasks t).wakePending = false := by
  by_cases habs : Absent r.contents t
  · exact (h.nowhere t habs).wakePending
  · obtain ⟨pl, hpl⟩ : ∃ pl, t ∈ r.contents pl := by simpa [Absent] using habs
    exact (h.resting hpl hex).wakePending

theorem Inv.absent_of_waiting (h : Inv r) (hex : (r.tasks t).executing = false)
    (hs : (r.tasks t).state = .waiting ∨ (r.tasks t).state = .sleeping) :
    Absent r.contents t := by
  intro pl hpl
  rcases (h.resting hpl hex).state with hk | hk <;> simp [hk] at hs

theorem Inv.lt_of_ne_new (h : Inv r) (hs : (r.tasks t).state ≠ .new) : t < r.taskCount := by
  by_contra hlt
  exact hs (by rw [h.fresh t (Nat.le_of_not_lt hlt)])

theorem Inv.pcOk_pending (h : Inv r) (hpl : t ∈ r.contents pl) (hex : (r.tasks t).executing = true)
    (hs : (r.tasks t).state = .waiting ∨ (r.tasks t).state = .sleeping) :
    r.placeOk pl { r.tasks t with wakePending := true } := by
  have hne : (r.tasks t).state ≠ .running ∧ (r.tasks t).state ≠ .runnable := by
    rcases hs with hs | hs <;> simp [hs]
  have hnr : ¬ (r.tasks t).Resting := fun hr => by simp [hr.executing] at hex
  have hok := h.placed pl t hpl
  cases pl with
  | globalRunnable => exact absurd hok.1 hnr
  | runnable q => exact absurd hok.1 hnr
  | worker q =>
    have hok : pcOk q (r.ps q).pc (r.tasks t) := hok
    show pcOk q (r.ps q).pc _
    cases hpc : (r.ps q).pc with
    | unqueue | stealBatch | stolen | execute =>
      rw [hpc] at hok
      exact absurd hok.1 hnr
    | createFiber | resume =>
      rw [hpc] at hok
      exact absurd hok.2.1 hne.1
    | inTask =>
      rw [hpc] at hok
      obtain ⟨⟨h1, h2, h3⟩, hf, ⟨hr, -⟩ | ⟨j, hj, hp⟩⟩ := hok
      · exact absurd hr hne.1
      · exact ⟨⟨h1, h2, h3⟩, hf, Or.inr ⟨j, hj, ⟨hp.state, fun _ => hne.2, hp.ne⟩⟩⟩
    | returned =>
      rw [hpc] at hok
      obtain ⟨⟨h1, h2, h3⟩, ⟨hr, -⟩ | ⟨hst, hf, j, hj, hp⟩⟩ := hok
      · exact absurd hr hne.1
      · exact ⟨⟨h1, h2, h3⟩, Or.inr ⟨hst, hf, j, hj, ⟨hp.state, fun _ => hne.2, hp.ne⟩⟩⟩
    | _ => trivial

structure TakenOut (r r₁ : Runtime) (w : TaskId) (k : Task) : Prop where
  contents : r₁.contents = r.contents
  pcs : ∀ q, (r₁.ps q).pc = (r.ps q).pc
  tasks : r₁.tasks = update r.tasks w k
  taskCount : r₁.taskCount = r.taskCount
  queues : Exclusive r₁.waiters
  link : ∀ u, u ≠ w → ∀ q, u ∈ r₁.waiters q ↔ u ∈ r.waiters q
  timer : ∀ u, u ≠ w → ∀ tm, (r₁.timers tm).task = some u → (r.timers tm).task = some u
  fields : k.placeFields = (r.tasks w).placeFields
  counts : (k.causes, k.wakes, k.yields, k.enqueues) =
    ((r.tasks w).causes + 1, (r.tasks w).wakes, (r.tasks w).yields, (r.tasks w).enqueues)
  free : (r.tasks w).state ≠ .cancelled → (∀ q, w ∉ r₁.waiters q) ∧
    (∀ tm, (r₁.timers tm).task ≠ some w) ∧ k.waitingForIo = false

theorem Inv.takenOut_record (h : Inv r)
    (hu : TakenOut r r₁ w k) (hw : w < r.taskCount) (hc : r'.contents = r₁.contents)
    (hps : r'.ps = r₁.ps) (htas : r'.tasks = update r₁.tasks w k')
    (hs : r₁.SameWaits r')
    (hpla : ∀ pl, w ∈ r.contents pl → r.placeOk pl k')
    (hnw : (r.tasks w).Nowhere → k'.Nowhere)
    (hwt : WaitOk r₁.waiters r₁.timers w k') (hmd : k'.state ≠ .new) : Inv r' := by
  have hn : r'.taskCount = r.taskCount := hs.taskCount.trans hu.taskCount
  refine h.one (by rw [htas, hu.tasks, update_idem]) ?_ (hs.waiters ▸ hu.queues) ?_ ?_ ?_
    ?_ ?_ ?_ ?_ hmd (hn ▸ hw) (hn ▸ le_refl _) (fun _ _ => by rw [hn]; exact id)
  · rw [hc, hu.contents]
    exact h.places
  · intro u _ pl
    rw [hc, hu.contents]
  · intro u _ q _ hok
    rwa [hps, hu.pcs]
  · intro u huw q
    rw [hs.waiters, hu.link u huw]
  · intro u huw tm
    rw [hs.timers]
    exact hu.timer u huw tm
  · intro pl hpl
    rw [hc, hu.contents] at hpl
    have hok := hpla pl hpl
    cases pl with
    | globalRunnable => exact hok
    | runnable q => exact hok
    | worker q =>
      show pcOk q (r'.ps q).pc k'
      rw [hps, hu.pcs]
      exact hok
  · intro habs
    rw [hc, hu.contents] at habs
    exact hnw (h.nowhere w habs)
  · rw [hs.waiters, hs.timers]
    exact hwt

theorem Inv.wake_one (h : Inv r)
    (hasl : (r.tasks w).Asleep j) (hj : j.state = .waiting ∨ j.state = .sleeping)
    (hu : TakenOut r r₁ w k) : Inv (r₁.wake w) := by
  have hsl : r₁.tasks w = k := by rw [hu.tasks, update_self]
  have hcou := hu.counts
  simp only [Prod.mk.injEq] at hcou
  obtain ⟨c1, c2, c3, c4⟩ := hcou
  have hfie := hu.fields
  simp only [Task.placeFields, Prod.mk.injEq] at hfie
  obtain ⟨e1, e2, e3, e4, e5, e6, e7⟩ := hfie
  have hnew : (r.tasks w).state ≠ .new := by
    rcases hasl.state_eq with hs | hs
    · simp [hs]
    · rcases hj with hj | hj <;> simp [hs, hj]
  have hlt := h.lt_of_ne_new hnew
  have he := (h.waits w).enqueues hnew
  rcases hasl with hcan | ⟨hs, hwp, hin⟩
  · -- cancelled meanwhile: the wake does nothing
    have hkc : k.state = .cancelled := e1.trans hcan
    have hkp : k.wakePending = false := by
      rw [e6]
      by_contra hp
      rcases (h.waits w).pending (by simpa using hp) with hs | hs <;> simp [hcan] at hs
    rw [wake_of_not_waiting (by simp [hsl, hkc]) (by simp [hsl, hkc])]
    have hsm : r₁.tasks = update r₁.tasks w k := by rw [← hsl, update_eq_self]
    refine h.takenOut_record hu hlt rfl rfl hsm ⟨rfl, rfl, rfl⟩ ?_
      (fun hn => hn.same hu.fields) ?_ (by simp [hkc])
    · intro pl hpl
      exact placeOk_same (h.placed pl w hpl) hu.fields
    · refine ⟨fun _ _ => Or.inl hkc, fun _ _ => Or.inl hkc, fun _ => Or.inl hkc, ?_, ?_, ?_, ?_⟩
      · simp [hkc]
      · simp [hkp]
      · simp [hkc]
      · intro _
        rw [c2, c3, c4, he]
  · have hst : (r.tasks w).state = .waiting ∨ (r.tasks w).state = .sleeping := hs ▸ hj
    have hcan : (r.tasks w).state ≠ .cancelled := by rcases hst with hst | hst <;> simp [hst]
    obtain ⟨hl, ht, hio⟩ := hu.free hcan
    have hcau := (h.waits w).causes hcan
    rw [hwp, Bool.toNat_false, Nat.add_zero] at hcau
    have hks : (r₁.tasks w).state = .waiting ∨ (r₁.tasks w).state = .sleeping := by
      rw [hsl, e1]
      exact hst
    by_cases hex : (r.tasks w).executing = true
    · -- its fiber has not returned yet: the wake is deferred
      rw [wake_of_executing hks (by rw [hsl, e5, hex]), hsl]
      refine h.takenOut_record hu hlt rfl rfl rfl ⟨rfl, rfl, rfl⟩ ?_ ?_ ?_ (by rwa [← e1] at hnew)
      · intro pl hpl
        refine placeOk_same (h.pcOk_pending hpl hex hst) ?_
        simp [Task.placeFields, e1, e2, e3, e4, e5, e7]
      · intro hn
        simp [hn.executing] at hex
      · refine ⟨fun q hq => absurd hq (hl q), fun tm htm => absurd htm (ht tm), ?_, ?_, ?_, ?_, ?_⟩
        · intro hio'
          simp [hio] at hio'
        · simp
        · intro _
          rw [hsl] at hks
          exact hks
        · intro _
          simp [c1, c2, hcau]
        · intro _
          show k.enqueues = k.wakes + k.yields + 1
          rw [c2, c3, c4, he]
    · -- it is parked: it becomes runnable and enters the global queue
      have hex : (r.tasks w).executing = false := by simpa using hex
      have habs := h.absent_of_waiting hex hst
      have hnow := h.nowhere w habs
      obtain ⟨i, hi, -⟩ := hnow.parked hst
      rw [wake_of_parked hks (by rw [hsl, e5, hex]) (by rw [hsl, e2, hnow.queued]), hsl]
      have hold : ∀ pl, w ∈ r.contents pl → none = some pl := fun pl hpl => absurd hpl (habs pl)
      have hc : ((r₁.setTask w { k with
          state := .runnable
          wakes := k.wakes + 1
          queued := true
          enqueues := k.enqueues + 1 }).pushGlobal w).contents =
          relocate r.contents w none (some .globalRunnable) := by
        rw [pushGlobal, contents_global, contents_setTask, relocate_enter, ← hu.contents]
        rfl
      refine h.one (by rw [pushGlobal_tasks, setTask_tasks, hu.tasks,
        update_idem]) (hc ▸ h.places.relocate hold) hu.queues ?_ ?_ hu.link hu.timer ?_ ?_ ?_
        (by simp) (hu.taskCount ▸ hlt) (le_of_eq hu.taskCount.symm)
        (fun u _ hlt' => hu.taskCount ▸ hlt')
      · intro u huw pl
        rw [hc, mem_relocate_of_ne huw]
      · intro u _ q _ hok
        rwa [pushGlobal_ps, setTask_ps, hu.pcs]
      · intro pl hpl
        rw [hc, mem_relocate_self h.places hold] at hpl
        cases hpl
        exact ⟨⟨e5.trans hex, e6.trans hwp, Or.inl rfl, Or.inr ⟨i, e7.trans hi⟩⟩, rfl⟩
      · intro hno
        refine absurd ?_ (hno .globalRunnable)
        rw [hc, mem_relocate_self h.places hold]
      · refine WaitOk.of_unlinked hl ht hio (e6.trans hwp) (by simp) ?_ ?_
        · intro _
          show k.causes = k.wakes + 1
          rw [c1, c2, hcau]
        · intro _
          show k.enqueues + 1 = k.wakes + 1 + k.yields + 1
          rw [c2, c3, c4]
          omega

theorem Inv.release {l : List TaskId} {x : Option TaskId} (h : Inv r) (hq : r.waiters q = w :: l) :
    Inv (((r.setTask w { r.tasks w with
      causes := (r.tasks w).causes + 1, waitingOn := x }).setWaiters q l).wake w) := by
  have hmem : w ∈ r.waiters q := by simp [hq]
  have hold : ∀ q', w ∈ r.waiters q' → some q = some q' :=
    fun q' hq' => congrArg some (h.queues.unique hmem hq')
  have hw : update r.waiters q l = relocate r.waiters w (some q) none := by
    rw [relocate_leave, hq, List.erase_cons_head]
  have hasl := (h.waits w).linked q hmem
  refine h.wake_one hasl (Or.inl rfl) ⟨rfl, fun _ => rfl, rfl, rfl, ?_, ?_, fun _ _ _ => id,
    rfl, rfl, ?_⟩
  · show Exclusive (update r.waiters q l)
    rw [hw]
    exact h.queues.relocate hold
  · intro u hu q'
    show u ∈ update r.waiters q l q' ↔ _
    rw [hw, mem_relocate_of_ne hu]
  · intro hc
    obtain ⟨-, h2, h3⟩ := (h.waits w).only hasl hc
    refine ⟨fun q' hq' => ?_, fun tm htm => ?_, ?_⟩
    · have hq' : w ∈ update r.waiters q l q' := hq'
      rw [hw, mem_relocate_self h.queues hold] at hq'
      cases hq'
    · cases h2 tm htm
    · by_contra hio
      cases h3 (by simpa using hio)

theorem disarm_timers_task {tm' : TimerId} {u : TaskId}
    (htm : ((r.disarm p hp tm).timers tm').task = some u) :
    tm' ≠ tm ∧ (r.timers tm').task = some u := by
  by_cases hq : tm' = tm
  · simp [disarm, setTimer, hq] at htm
  · refine ⟨hq, ?_⟩
    simpa [disarm, setTimer, putHeap, setP, hq] using htm

theorem Inv.fire {res : Status} {event : TimerEvent} (h : Inv r) (htm : (r.timers tm).task = some w) :
    Inv (((r.disarm p hp tm).setTask w { r.tasks w with
      timerResult := res
      timerEvent := some event
      causes := (r.tasks w).causes + 1 }).wake w) := by
  have hasl := (h.waits w).timer tm htm
  refine h.wake_one hasl (Or.inr rfl) ⟨contents_putHeap r p hp, fun q => putHeap_pc r p q hp, rfl,
    rfl, h.queues, fun _ _ _ => Iff.rfl, fun u _ tm' htm' => (disarm_timers_task htm').2, rfl, rfl,
    ?_⟩
  intro hc
  obtain ⟨h1, h2, h3⟩ := (h.waits w).only hasl hc
  refine ⟨fun q hq => ?_, fun tm' htm' => ?_, ?_⟩
  · cases h1 q hq
  · obtain ⟨hne, htm'⟩ := disarm_timers_task htm'
    exact hne (Park.timer.inj (h2 tm' htm')).symm
  · by_contra hio
    cases h3 (by simpa using hio)

theorem Inv.fireNone (h : Inv r) : Inv (r.disarm p hp tm) := by
  refine h.same (contents_putHeap r p hp) rfl rfl (fun u tm' htm' => (disarm_timers_task htm').2)
    rfl ?_
  intro u q _ hok
  rwa [show ((r.disarm p hp tm).ps q).pc = (r.ps q).pc from putHeap_pc r p q hp]

theorem Inv.completeIo {io : Option IoId} (h : Inv r) (hio : (r.tasks t).waitingForIo = true) :
    Inv ({ r.setTask t { r.tasks t with
        waitingForIo := false, causes := (r.tasks t).causes + 1 } with
      ioWaiting := r.ioWaiting - 1
      ioDriver := io }.wake t) := by
  have hasl := (h.waits t).io hio
  refine h.wake_one hasl (Or.inl rfl) ⟨rfl, fun _ => rfl, rfl, rfl, h.queues,
    fun _ _ _ => Iff.rfl, fun _ _ _ => id, rfl, rfl, ?_⟩
  intro hc
  obtain ⟨h1, h2, -⟩ := (h.waits t).only hasl hc
  refine ⟨fun q hq => ?_, fun tm htm => ?_, rfl⟩
  · cases h1 q hq
  · cases h2 tm htm

theorem Inv.spawn (h : Inv r) :
    Inv { r.setTask r.taskCount { state := .runnable, queued := true, enqueues := 1 } with
      taskCount := r.taskCount + 1
      globalRunnable := r.globalRunnable ++ [r.taskCount]
      liveTasks := r.liveTasks + 1
      spawned := r.spawned + 1 } := by
  have hfre := h.fresh r.taskCount (le_refl _)
  have hold : ∀ pl, r.taskCount ∈ r.contents pl → none = some pl :=
    fun pl hpl => absurd (h.lt_of_mem pl hpl) (Nat.lt_irrefl _)
  have hwt := h.waits r.taskCount
  rw [hfre] at hwt
  obtain ⟨hl, ht, -, -⟩ := hwt.unlinked (by simp) (by simp) (by simp)
  have hc : ({ r.setTask r.taskCount { state := .runnable, queued := true, enqueues := 1 } with
      taskCount := r.taskCount + 1
      globalRunnable := r.globalRunnable ++ [r.taskCount]
      liveTasks := r.liveTasks + 1
      spawned := r.spawned + 1 } : Runtime).contents =
      relocate r.contents r.taskCount none (some .globalRunnable) := by
    rw [relocate_enter]
    exact contents_global r (r.globalRunnable ++ [r.taskCount])
  refine h.one rfl (hc ▸ h.places.relocate hold) h.queues ?_ (fun _ _ _ _ => id)
    (fun _ _ _ => Iff.rfl) (fun _ _ _ => id) ?_ ?_ ?_ (by simp) (Nat.lt_succ_self _) (Nat.le_succ _)
    (fun u hu hlt => Nat.lt_of_le_of_ne (Nat.le_of_lt_succ hlt) hu)
  · intro u hu pl
    rw [hc, mem_relocate_of_ne hu]
  · intro pl hpl
    rw [hc, mem_relocate_self h.places hold] at hpl
    cases hpl
    exact ⟨⟨rfl, rfl, Or.inl rfl, Or.inl rfl⟩, rfl⟩
  · intro habs
    refine absurd ?_ (habs .globalRunnable)
    rw [hc, mem_relocate_self h.places hold]
  · exact WaitOk.of_unlinked hl ht rfl rfl (by simp) (fun _ => rfl) (fun _ => rfl)

theorem Inv.strip (h : Inv r) (hex : (r.tasks t).executing = false)
    (hc : r'.contents = r.contents) (hps : r'.ps = r.ps)
    (htas : r'.tasks = update r.tasks t k) (hs : r.SameWaits r')
    (hk : k.executing = false ∧ k.queued = (r.tasks t).queued ∧
      k.wakePending = (r.tasks t).wakePending ∧ k.point = (r.tasks t).point ∧
      k.lastP = (r.tasks t).lastP ∧ (k.fiber = none ∨ k.fiber = (r.tasks t).fiber) ∧
      (k.state = .cancelled ∨ k.state = (r.tasks t).state))
    (hwt : WaitOk r.waiters r.timers t k) (hlt : t < r.taskCount) : Inv r' := by
  obtain ⟨e1, e2, e3, e4, e5, e6, e7⟩ := hk
  have hrs : (r.tasks t).Resting → k.Resting := fun hr => by
    refine ⟨e1, e3.trans hr.wakePending, ?_, by unfold Task.AtRest; rw [e4]; exact hr.atRest⟩
    rcases e7 with e7 | e7
    · exact Or.inr e7
    · rw [e7]
      exact hr.state
  have hfib : (r.tasks t).fiber = none → k.fiber = none := fun hf => by
    rcases e6 with e6 | e6
    · exact e6
    · exact e6.trans hf
  have hmd : k.state ≠ .new := by
    rcases e7 with e7 | e7
    · simp [e7]
    · rw [e7]
      exact h.made t hlt
  refine h.record hc htas hs (fun u _ q _ => by rw [hps]; exact id) ?_ ?_ hwt hmd hlt
  · intro pl hpl hok
    cases pl with
    | globalRunnable => exact ⟨hrs hok.1, e2.trans hok.2⟩
    | runnable q => exact ⟨hrs hok.1, e2.trans hok.2.1, hfib hok.2.2⟩
    | worker q =>
      have hok : pcOk q (r.ps q).pc (r.tasks t) := hok
      show pcOk q (r'.ps q).pc k
      rw [hps]
      cases hpc : (r.ps q).pc with
      | unqueue | stealBatch | stolen =>
        rw [hpc] at hok
        exact ⟨hrs hok.1, e2.trans hok.2.1, hfib hok.2.2⟩
      | execute =>
        rw [hpc] at hok
        exact ⟨hrs hok.1, e2.trans hok.2.1, hok.2.2.imp hfib e5.trans⟩
      | createFiber | resume | inTask | returned =>
        rw [hpc] at hok
        simp [hok.1.executing] at hex
      | _ => trivial
  · intro hn
    refine ⟨e1, e2.trans hn.queued, e3.trans hn.wakePending, ?_, ?_⟩
    · rcases e7 with e7 | e7
      · simp [e7]
      · rw [e7]
        exact hn.state
    · rw [e4]
      rcases e7 with e7 | e7
      · simp [e7]
      · rw [e7]
        exact hn.parked

theorem Inv.cancelTask (h : Inv r) (hlt : t < r.taskCount)
    (hex : (r.tasks t).executing = false) (hlv : (r.tasks t).state.terminal = false) :
    Inv (r.cancelTask t) := by
  have hp := h.not_pending hex
  have he := (h.waits t).enqueues (h.made t hlt)
  unfold Runtime.cancelTask
  rw [if_neg (by simp [hlv, hex])]
  refine h.strip hex rfl rfl rfl ⟨rfl, rfl, rfl⟩
    ⟨hex, rfl, rfl, rfl, rfl, Or.inr rfl, Or.inl rfl⟩ ?_ hlt
  exact ⟨fun _ _ => Or.inl rfl, fun _ _ => Or.inl rfl, fun _ => Or.inl rfl, by simp, by simp [hp],
    by simp, fun _ => he⟩

theorem Inv.destroyFiber (h : Inv r) (hlt : t < r.taskCount) (hex : (r.tasks t).executing = false) :
    Inv (r.setTask t { r.tasks t with fiber := none }) :=
  h.strip hex rfl rfl rfl ⟨rfl, rfl, rfl⟩
    ⟨hex, rfl, rfl, rfl, rfl, Or.inl rfl, Or.inr rfl⟩ ((h.waits t).same rfl) hlt

theorem Inv.setIdle {x : P} (h : Inv r) (hfr : (r.ps p).pc.tasks = [])
    (hps : r'.ps = update r.ps p x) (hto : x.pc.tasks = [])
    (hd : x.runnable = (r.ps p).runnable) (hg : r'.globalRunnable = r.globalRunnable)
    (htas : r'.tasks = r.tasks) (hs : r.SameWaits r') : Inv r' := by
  have hc : r'.contents = r.contents := by
    funext pl
    cases pl with
    | globalRunnable => exact hg
    | runnable q => by_cases hq : q = p <;> simp [contents, hps, hq, hd]
    | worker q => by_cases hq : q = p <;> simp [contents, hps, hq, hfr, hto]
  refine h.same hc htas hs.waiters (fun u tm => by rw [hs.timers]; exact id) hs.taskCount ?_
  intro u q hu hok
  by_cases hq : q = p
  · subst hq
    simp [hfr] at hu
  · rwa [hps, update_of_ne hq]

theorem Eff.inv {l : Label} {r : Runtime} (he : Eff l r r') (h : Inv r) : Inv r' := by
  cases he with
  | goto hg => exact h.goto hg.from_nil hg.to_nil
  | runReturn hpc => exact h.goto (congrArg Pc.tasks hpc) rfl
  | ownerPop hpc hd => exact h.ownerPop hpc hd
  | unqueue hpc => exact h.unqueue hpc
  | rotate hg => exact h.rotate hg
  | pull hpc hg hf => exact h.pull hpc hg hf
  | localize _ hg hf => exact h.localize hg hf
  | steal hpc hv => exact h.steal hpc hv
  | regrip hfr hto ht => exact h.regrip hfr hto ht
  | keepLocal hpc => exact h.keepLocal hpc
  | keepGlobal hpc => exact h.keepGlobal hpc
  | drop hpc _ => exact h.drop hpc
  | cancelHeld hpc hs _ => exact h.cancelHeld hpc hs
  | start hpc hs _ => exact h.start hpc hs
  | created hpc => exact h.created hpc
  | create hpc => exact h.create hpc
  | fiberError hpc _ => exact h.fiberError hpc
  | resume hpc _ => exact h.resume hpc
  | leave hpc hpt => exact h.leaveFiber hpc hpt
  | fiberYield hpc hpt => exact h.leaveBody hpc hpt
  | finish hpc hpt => exact h.leaveBody hpc hpt
  | endFail hpc hs => exact h.endTerminal hpc hs rfl rfl rfl rfl ⟨rfl, rfl, rfl⟩
  | endDone hpc hs _ => exact h.endTerminal hpc hs rfl rfl rfl rfl ⟨rfl, rfl, rfl⟩
  | endWoken hpc hw => exact h.endWoken hpc hw
  | endYield hpc hs => exact h.endYield hpc hs
  | endParked hpc hw hs => exact h.endParked hpc hw hs
  | spawn _ _ => exact h.spawn
  | yield hpc hpt => exact h.yield hpc hpt
  | park hpc hpt _ => exact h.park hpc hpt
  | parkIo hpc hpt => exact h.parkIo hpc hpt
  | arm hpc hpt _ _ _ => exact h.arm hpc hpt
  | armFail hpc hpt _ _ => exact h.armFail hpc hpt
  | clearTask hpc hpt => exact h.clearTask hpc hpt
  | clearP hpc hpt => exact h.clearP hpc hpt
  | release hq => exact h.release hq
  | fire _ _ htm => exact h.fire htm
  | fireNone _ _ _ => exact h.fireNone
  | completeIo _ hio => exact h.completeIo hio
  | idleEnter hpc _ => exact h.setIdle (congrArg Pc.tasks hpc) rfl rfl rfl rfl rfl ⟨rfl, rfl, rfl⟩
  | idleAgain hpc _ => exact h.setIdle (congrArg Pc.tasks hpc) rfl rfl rfl rfl rfl ⟨rfl, rfl, rfl⟩
  | idleSkip hpc _ => exact h.setIdle (congrArg Pc.tasks hpc) rfl rfl rfl rfl rfl ⟨rfl, rfl, rfl⟩
  | idleLeave hpc _ => exact h.setIdle (congrArg Pc.tasks hpc) rfl rfl rfl rfl rfl ⟨rfl, rfl, rfl⟩
  | stop _ => exact h.same rfl rfl rfl (fun _ _ => id) rfl (fun _ _ _ => id)
  | runBegin hpc _ => exact h.setIdle (congrArg Pc.tasks hpc) rfl rfl rfl rfl rfl ⟨rfl, rfl, rfl⟩
  | requestShutdown => exact h.same rfl rfl rfl (fun _ _ => id) rfl (fun _ _ _ => id)
  | shutdownBegin hpc => exact h.setIdle (congrArg Pc.tasks hpc) rfl rfl rfl rfl rfl ⟨rfl, rfl, rfl⟩
  | cancelTask hlt hex hlv _ => exact h.cancelTask hlt hex hlv
  | destroyFiber hlt hex => exact h.destroyFiber hlt hex

end Veloco.Sched
