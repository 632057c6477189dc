import Veloco.Sched.Inv

/-!
# Every effect keeps the scheduler's invariant
-/

namespace Veloco.Sched

open Function List Sched.Runtime
open Veloco.Placement

variable {r' : Runtime} {b : Pc} {l : List TaskId} {k : Task} {u : TaskId} {status : Status}
variable {j : Park}

@[simp] theorem contents_setTask (r : Runtime) (t : TaskId) (k : Task) :
    (r.setTask t k).contents = r.contents := rfl

theorem contents_setP (r : Runtime) (p : PId) (x : P) :
    (r.setP p x).contents =
      update (update r.contents (.runnable p) x.runnable) (.worker p) x.pc.tasks := by
  funext pl
  cases pl with
  | globalRunnable => rfl
  | runnable q => by_cases hq : q = p <;> simp [contents, setP, hq]
  | worker q => by_cases hq : q = p <;> simp [contents, setP, hq]

theorem contents_setPc (r : Runtime) (p : PId) (b : Pc) :
    (r.setPc p b).contents = update r.contents (.worker p) b.tasks := by
  rw [setPc, contents_setP]
  congr 1
  exact update_eq_self (Place.runnable p) r.contents

theorem contents_setRunnable (r : Runtime) (p : PId) (l : List TaskId) :
    (r.setP p { r.ps p with runnable := l }).contents = update r.contents (.runnable p) l := by
  rw [contents_setP]
  refine (update_eq_iff).mpr ⟨?_, fun _ _ => rfl⟩
  simp [contents]

theorem contents_global (r : Runtime) (g : List TaskId) :
    ({ r with globalRunnable := g } : Runtime).contents = update r.contents .globalRunnable g := by
  funext pl
  cases pl <;> simp [contents]

variable {r : Runtime} {p : PId} {t : TaskId}

theorem hands_frame {x : P} (hps : r'.ps = update r.ps p x)
    (hnl : ∀ u ∈ (r.ps p).pc.tasks, u = t) (u : TaskId) (hu : u ≠ t) (q : PId)
    (hmem : u ∈ (r.ps q).pc.tasks) (hok : pcOk q (r.ps q).pc (r.tasks u)) :
    pcOk q (r'.ps q).pc (r.tasks u) := by
  by_cases hq : q = p
  · subst hq
    exact absurd (hnl u hmem) hu
  · rwa [hps, update_of_ne hq]

theorem Inv.goto (h : Inv r) (hfr : (r.ps p).pc.tasks = []) (hto : b.tasks = []) :
    Inv (r.setPc p b) := by
  refine h.same ?_ rfl rfl (fun _ _ => id) rfl ?_
  · rw [contents_setPc, hto, ← hfr]
    exact update_eq_self (Place.worker p) r.contents
  · intro u q hu hok
    by_cases hq : q = p
    · subst hq
      simp [hfr] at hu
    · simpa [hq] using hok

theorem Inv.ownerPop (h : Inv r) (hpc : (r.ps p).pc = .ownerPop)
    (hd : (r.ps p).runnable = l ++ [t]) :
    Inv (r.setP p { r.ps p with runnable := l, pc := .unqueue t }) := by
  have hc : r.contents (.runnable p) = l ++ [t] := hd
  have hmem : t ∈ r.contents (.runnable p) := by simp [hc]
  have hl : t ∉ l := by
    have := h.places.nodup (.runnable p)
    rw [hc, nodup_append] at this
    exact fun hl => this.2.2 t hl t (mem_singleton_self t) rfl
  refine h.move hmem (b := .worker p) ?_ (update_eq_self _ _).symm ⟨rfl, rfl, rfl⟩
    (hands_frame rfl (by simp [hpc, Pc.tasks])) ?_ (h.waits t)
  · rw [contents_setP, relocate_move _ _ (by simp), hc, erase_append_right _ hl]
    simp [contents, hpc, Pc.tasks]
  · simpa [placeOk, pcOk] using h.placed _ t hmem

theorem Inv.unqueue (h : Inv r) (hpc : (r.ps p).pc = .unqueue t) :
    Inv ((r.setTask t { r.tasks t with queued := false }).setPc p (.execute t)) := by
  refine h.hold (by simp [hpc, Pc.tasks]) rfl rfl rfl rfl ⟨rfl, rfl, rfl⟩ ?_ ((h.waits t).same rfl)
  rw [hpc]
  rintro ⟨⟨h1, h2, h3, h4⟩, -, hf⟩
  exact ⟨⟨h1, h2, h3, h4⟩, rfl, Or.inl hf⟩

theorem Inv.rotate (h : Inv r) (hg : r.globalRunnable = t :: l) :
    Inv { r with globalRunnable := l ++ [t] } := by
  have hc : r.contents .globalRunnable = t :: l := hg
  have hmem : t ∈ r.contents .globalRunnable := by simp [hc]
  refine h.move hmem (b := .globalRunnable) ?_ (update_eq_self _ _).symm ⟨rfl, rfl, rfl⟩
    (fun _ _ _ _ => id) (h.placed _ t hmem) (h.waits t)
  rw [contents_global, relocate_rotate, hc, erase_cons_head]

theorem Inv.pull (h : Inv r) (hpc : (r.ps p).pc = .takeGlobal) (hg : r.globalRunnable = t :: l)
    (hf : (r.tasks t).fiber = none ∨ (r.tasks t).lastP = some p) :
    Inv { (r.setTask t { r.tasks t with queued := false }).setPc p (.execute t) with
      globalRunnable := l } := by
  have hc : r.contents .globalRunnable = t :: l := hg
  have hmem : t ∈ r.contents .globalRunnable := by simp [hc]
  refine h.move hmem (b := .worker p) ?_ rfl ⟨rfl, rfl, rfl⟩
    (hands_frame rfl (by simp [hpc, Pc.tasks])) ?_ ((h.waits t).same rfl)
  · rw [contents_global, contents_setPc, contents_setTask, relocate_move _ _ (by simp), hc,
      erase_cons_head, update_comm (by simp)]
    simp [contents, hpc, Pc.tasks]
  · obtain ⟨⟨h1, h2, h3, h4⟩, -⟩ := h.placed _ t hmem
    show pcOk p ((r.setPc p (.execute t)).ps p).pc _
    rw [setPc_ps, update_self]
    exact ⟨⟨h1, h2, h3, h4⟩, rfl, hf⟩

theorem Inv.localize (h : Inv r) (hg : r.globalRunnable = t :: l) (hf : (r.tasks t).fiber = none) :
    Inv { r.setP p { r.ps p with runnable := (r.ps p).runnable ++ [t] } with
      globalRunnable := l } := by
  have hc : r.contents .globalRunnable = t :: l := hg
  have hmem : t ∈ r.contents .globalRunnable := by simp [hc]
  refine h.move hmem (b := .runnable p) ?_ (update_eq_self _ _).symm ⟨rfl, rfl, rfl⟩ ?_
    ⟨(h.placed _ t hmem).1, (h.placed _ t hmem).2, hf⟩ (h.waits t)
  · rw [contents_global, contents_setRunnable, relocate_move _ _ (by simp), hc,
      erase_cons_head, update_comm (by simp)]
    rfl
  · intro u _ q _ hok
    by_cases hq : q = p
    · subst hq
      simpa using hok
    · simpa [hq] using hok

theorem Inv.steal {o : ℕ} {items : List TaskId} {v : PId} (h : Inv r)
    (hpc : (r.ps p).pc = .stealBatch o items) (hv : (r.ps v).runnable = t :: l) :
    Inv ((r.setP v { r.ps v with runnable := l }).setPc p (.stealBatch o (items ++ [t]))) := by
  have hc : r.contents (.runnable v) = t :: l := hv
  have hmem : t ∈ r.contents (.runnable v) := by simp [hc]
  refine h.move hmem (b := .worker p) ?_ (update_eq_self _ _).symm ⟨rfl, rfl, rfl⟩ ?_ ?_
    (h.waits t)
  · rw [contents_setPc, contents_setRunnable, relocate_move _ _ (by simp), hc,
      erase_cons_head]
    simp [contents, hpc, Pc.tasks]
  · intro u _ q _ hok
    by_cases hq : q = p
    · subst hq
      rw [hpc] at hok
      simpa [pcOk] using hok
    · by_cases hqv : q = v
      · subst hqv
        simpa [hq] using hok
      · simpa [hq, hqv] using hok
  · simpa [placeOk, pcOk] using h.placed _ t hmem

theorem pcOk_of_taken {c : Pc} (hb : b.taken = true) (hc : c.taken = true)
    (h : pcOk p b k) : pcOk p c k := by
  cases b <;> cases c <;> simp_all [Pc.taken, pcOk]

theorem Inv.regrip (h : Inv r) (hfr : (r.ps p).pc.taken = true) (hto : b.taken = true)
    (ht : b.tasks = (r.ps p).pc.tasks) : Inv (r.setPc p b) := by
  refine h.same ?_ rfl rfl (fun _ _ => id) rfl ?_
  · rw [contents_setPc, ht]
    exact update_eq_self (Place.worker p) r.contents
  · intro u q _ hok
    by_cases hq : q = p
    · subst hq
      simpa using pcOk_of_taken hfr hto hok
    · simpa [hq] using hok

theorem Inv.keepLocal (h : Inv r) (hpc : (r.ps p).pc = .stolen (u :: t :: l)) :
    Inv (r.setP p { r.ps p with
      runnable := (r.ps p).runnable ++ [t], pc := .stolen (u :: l) }) := by
  have hc : r.contents (.worker p) = u :: t :: l := by simp [contents, hpc, Pc.tasks]
  have hmem : t ∈ r.contents (.worker p) := by simp [hc]
  have hut : u ≠ t := by
    have := h.places.nodup (.worker p)
    rw [hc] at this
    simp at this
    exact this.1.1
  have hok := h.placed _ t hmem
  refine h.move hmem (b := .runnable p) ?_ (update_eq_self _ _).symm ⟨rfl, rfl, rfl⟩ ?_ ?_
    (h.waits t)
  · rw [contents_setP, relocate_move _ _ (by simp), hc, update_comm (by simp)]
    simp [contents, Pc.tasks, hut]
  · intro w _ q _ hw
    by_cases hq : q = p
    · subst hq
      rw [hpc] at hw
      simpa [pcOk] using hw
    · simpa [hq] using hw
  · simpa [placeOk, hpc, pcOk] using hok

theorem Inv.keepGlobal (h : Inv r) (hpc : (r.ps p).pc = .stolen (u :: t :: l)) :
    Inv ((r.pushGlobal t).setPc p (.stolen (u :: l))) := by
  have hc : r.contents (.worker p) = u :: t :: l := by simp [contents, hpc, Pc.tasks]
  have hmem : t ∈ r.contents (.worker p) := by simp [hc]
  have hut : u ≠ t := by
    have := h.places.nodup (.worker p)
    rw [hc] at this
    simp at this
    exact this.1.1
  have hok := h.placed _ t hmem
  refine h.move hmem (b := .globalRunnable) ?_ (update_eq_self _ _).symm ⟨rfl, rfl, rfl⟩
    ?_ ?_ (h.waits t)
  · rw [contents_setPc, pushGlobal, contents_global, relocate_move _ _ (by simp), hc,
      update_comm (by simp)]
    simp [contents, Pc.tasks, hut]
  · intro w _ q _ hw
    by_cases hq : q = p
    · subst hq
      rw [hpc] at hw
      simpa [pcOk] using hw
    · simpa [hq] using hw
  · simp only [placeOk, hpc, pcOk] at hok ⊢
    exact ⟨hok.1, hok.2.1⟩

/-! ## Executing a task -/

theorem contents_letGo (hpc : (r.ps p).pc.tasks = [t]) (hb : b.tasks = []) :
    (r.setPc p b).contents = relocate r.contents t (some (.worker p)) none := by
  rw [contents_setPc, relocate_leave, hb, contents, hpc, erase_cons_head]

theorem contents_requeue (hpc : (r.ps p).pc.tasks = [t]) (hb : b.tasks = []) :
    ((r.setPc p b).pushGlobal t).contents =
      relocate r.contents t (some (.worker p)) (some .globalRunnable) := by
  have hc : r.contents (.worker p) = [t] := hpc
  rw [pushGlobal, contents_global, contents_setPc, relocate_move _ _ (by simp), hb, hc,
    erase_cons_head]
  rfl

theorem Inv.letGo (h : Inv r) (hpc : (r.ps p).pc.tasks = [t])
    (hb : b.tasks = []) (hc : r'.contents = (r.setPc p b).contents)
    (hps : r'.ps = update r.ps p { r.ps p with pc := b })
    (htas : r'.tasks = update r.tasks t k) (hs : r.SameWaits r')
    (hk : pcOk p (r.ps p).pc (r.tasks t) → k.Nowhere) (hwt : WaitOk r.waiters r.timers t k)
    (hmd : k.state ≠ .new) : Inv r' := by
  have hmem : t ∈ r.contents (.worker p) := by simp [contents, hpc]
  exact h.leave hmem (hc.trans (contents_letGo hpc hb)) htas hs
    (hands_frame hps (by simp [hpc])) (hk (h.placed _ t hmem)) hwt hmd

theorem Inv.requeue (h : Inv r) (hpc : (r.ps p).pc.tasks = [t])
    (hb : b.tasks = []) (hc : r'.contents = ((r.setPc p b).pushGlobal t).contents)
    (hps : r'.ps = update r.ps p { r.ps p with pc := b })
    (htas : r'.tasks = update r.tasks t k) (hs : r.SameWaits r')
    (hk : pcOk p (r.ps p).pc (r.tasks t) → k.Resting ∧ k.queued = true)
    (hwt : WaitOk r.waiters r.timers t k) : Inv r' := by
  have hmem : t ∈ r.contents (.worker p) := by simp [contents, hpc]
  exact h.move hmem (hc.trans (contents_requeue hpc hb)) htas hs
    (hands_frame hps (by simp [hpc])) (hk (h.placed _ t hmem)) hwt

theorem Inv.drop (h : Inv r) (hpc : (r.ps p).pc = .execute t) : Inv (r.setPc p .top) := by
  refine h.letGo (t := t) (by simp [hpc, Pc.tasks]) rfl rfl rfl (update_eq_self _ _).symm
    ⟨rfl, rfl, rfl⟩ ?_ (h.waits t)
    (h.state_ne_new (.worker p) (by simp [contents, hpc, Pc.tasks]))
  rw [hpc]
  rintro ⟨hr, hq, -⟩
  refine ⟨hr.executing, hq, hr.wakePending, ?_, ?_⟩ <;> rcases hr.state with hs | hs <;> simp [hs]

theorem Inv.cancelHeld (h : Inv r) (hpc : (r.ps p).pc = .execute t)
    (hs : (r.tasks t).state = .runnable) :
    Inv { (r.setTask t { r.tasks t with state := .cancelled }).setPc p .cancelled with
      liveTasks := r.liveTasks - 1
      cancelled := r.cancelled + 1 } := by
  refine h.letGo (t := t) (by simp [hpc, Pc.tasks]) rfl rfl rfl rfl ⟨rfl, rfl, rfl⟩ ?_
    ((h.waits t).restate (Or.inl hs) (by simp) rfl) (by simp)
  rw [hpc]
  rintro ⟨hr, hq, -⟩
  exact ⟨hr.executing, hq, hr.wakePending, by simp, by simp⟩

theorem Inv.start (h : Inv r) (hpc : (r.ps p).pc = .execute t)
    (hs : (r.tasks t).state = .runnable) :
    Inv { (r.setTask t { r.tasks t with
        executing := true, lastP := some p, state := .running }).setPc p (.createFiber t) with
      activeWorkers := r.activeWorkers + 1 } := by
  refine h.hold (by simp [hpc, Pc.tasks]) rfl rfl rfl rfl ⟨rfl, rfl, rfl⟩ ?_
    ((h.waits t).restate (Or.inl hs) (by simp) rfl)
  rw [hpc]
  rintro ⟨hr, hq, -⟩
  exact ⟨⟨rfl, hq, rfl⟩, rfl, hr.wakePending, hr.atRest⟩

theorem Inv.created (h : Inv r) (hpc : (r.ps p).pc = .createFiber t) :
    Inv (r.setPc p (.resume t)) := by
  refine h.hold (t := t) (by simp [hpc, Pc.tasks]) rfl rfl rfl (update_eq_self _ _).symm
    ⟨rfl, rfl, rfl⟩ ?_ (h.waits t)
  rw [hpc]
  exact id

theorem Inv.create (h : Inv r) (hpc : (r.ps p).pc = .createFiber t) :
    Inv ((r.setTask t { r.tasks t with fiber := some ⟨p, .ready⟩ }).setPc p (.resume t)) := by
  refine h.hold (by simp [hpc, Pc.tasks]) rfl rfl rfl rfl ⟨rfl, rfl, rfl⟩ ?_
    ((h.waits t).same rfl)
  rw [hpc]
  rintro ⟨⟨h1, h2, h3⟩, hs, hw, hr⟩
  exact ⟨⟨h1, h2, h3⟩, hs, hw, hr⟩

theorem Inv.fiberError (h : Inv r) (hpc : (r.ps p).pc = .createFiber t ∨ (r.ps p).pc = .resume t) :
    Inv (r.setPc p (.returned t status)) := by
  refine h.hold (t := t) (by rcases hpc with hpc | hpc <;> simp [hpc, Pc.tasks]) rfl rfl rfl
    (update_eq_self _ _).symm ⟨rfl, rfl, rfl⟩ ?_ (h.waits t)
  rcases hpc with hpc | hpc <;>
  · rw [hpc]
    rintro ⟨ha, hs, hw, -⟩
    exact ⟨ha, Or.inl ⟨hs, hw⟩⟩

theorem resumePoint_cases (k : Task) :
    k.resumePoint = .body ∨ ∃ tm, k.point = .parked (.timer tm) ∧
      k.resumePoint = .armTask tm k.timerResult := by
  unfold Task.resumePoint
  split
  · next tm h => exact Or.inr ⟨tm, h, rfl⟩
  · exact Or.inl rfl

theorem Inv.resume {f : Fiber} (h : Inv r) (hpc : (r.ps p).pc = .resume t) :
    Inv ((r.setTask t { r.tasks t with
      fiber := some { f with state := .running }
      point := (r.tasks t).resumePoint }).setPc p (.inTask t)) := by
  have hmem : t ∈ r.contents (.worker p) := by simp [contents, hpc, Pc.tasks]
  have hok : pcOk p (.resume t) (r.tasks t) := hpc ▸ h.placed _ t hmem
  obtain ⟨⟨h1, h2, h3⟩, hs, hw, -⟩ := hok
  refine h.hold (by simp [hpc, Pc.tasks]) rfl rfl rfl rfl ⟨rfl, rfl, rfl⟩ ?_
    ((h.waits t).restate (Or.inr hs) (by simp [hs]) rfl)
  intro _
  refine ⟨⟨h1, h2, h3⟩, ⟨_, rfl⟩, Or.inl ⟨hs, hw, ?_⟩⟩
  rcases resumePoint_cases (r.tasks t) with hp | ⟨tm, -, hp⟩
  · exact Or.inl hp
  · exact Or.inr ⟨tm, _, Or.inl hp⟩

theorem Inv.inBody (h : Inv r) (hpc : (r.ps p).pc = .inTask t) (hpt : (r.tasks t).point = .body) :
    (r.tasks t).Active p ∧ (∃ f, (r.tasks t).fiber = some f) ∧ (r.tasks t).state = .running ∧
      (r.tasks t).wakePending = false := by
  have hmem : t ∈ r.contents (.worker p) := by simp [contents, hpc, Pc.tasks]
  have hok : pcOk p (.inTask t) (r.tasks t) := hpc ▸ h.placed _ t hmem
  obtain ⟨ha, hf, ⟨hs, hw, -⟩ | ⟨j, hj, -⟩⟩ := hok
  · exact ⟨ha, hf, hs, hw⟩
  · rw [hpt] at hj
    cases hj

theorem Inv.leaveFiber (h : Inv r) (hpc : (r.ps p).pc = .inTask t)
    (hpt : (r.tasks t).point = .leaving j) : Inv (r.leaveFiber p t .suspended (.parked j)) := by
  refine h.hold (by simp [hpc, Pc.tasks]) rfl rfl rfl rfl ⟨rfl, rfl, rfl⟩ ?_
    ((h.waits t).parked hpt rfl rfl)
  rw [hpc]
  rintro ⟨⟨h1, h2, h3⟩, ⟨f, hf⟩, ⟨-, -, hb | ⟨tm, res, hb | hb⟩⟩ | ⟨i, hi, hj⟩⟩
  · simp [hpt] at hb
  · simp [hpt] at hb
  · simp [hpt] at hb
  · obtain rfl : j = i := Point.leaving.inj (hpt.symm.trans hi)
    refine ⟨⟨h1, h2, h3⟩, Or.inr ⟨rfl, ⟨{ f with state := .suspended }, ?_, rfl⟩, j, rfl, ?_⟩⟩
    · simp [hf]
    · exact ⟨hj.state, hj.wakePending, hj.ne⟩

theorem Inv.leaveBody {fs : FiberState} {pt : Point} (h : Inv r) (hpc : (r.ps p).pc = .inTask t)
    (hpt : (r.tasks t).point = .body) : Inv (r.leaveFiber p t fs pt) := by
  obtain ⟨⟨h1, h2, h3⟩, -, hs, hw⟩ := h.inBody hpc hpt
  refine h.hold (by simp [hpc, Pc.tasks]) rfl rfl rfl rfl ⟨rfl, rfl, rfl⟩ ?_
    ((h.waits t).restate (Or.inr hs) (by simp [hs]) rfl)
  intro _
  exact ⟨⟨h1, h2, h3⟩, Or.inl ⟨hs, hw⟩⟩

theorem Inv.returned (h : Inv r) (hpc : (r.ps p).pc = .returned t status) :
    pcOk p (.returned t status) (r.tasks t) := by
  have hmem : t ∈ r.contents (.worker p) := by simp [contents, hpc, Pc.tasks]
  exact hpc ▸ h.placed _ t hmem

theorem Task.Parks.ne_running (h : k.Parks j) : k.state ≠ .running := by
  rw [h.state]
  have := h.ne
  cases j <;> simp_all [Park.state]

theorem Inv.endTerminal {s : TaskState} (h : Inv r)
    (hpc : (r.ps p).pc = .returned t status) (hs : (r.tasks t).state = .running)
    (htr : s.terminal = true) (hc : r'.contents = (r.setPc p .top).contents)
    (hps : r'.ps = update r.ps p { r.ps p with pc := .top })
    (htas : r'.tasks = update r.tasks t { r.tasks t with
      executing := false, state := s, fiber := none }) (hw : r.SameWaits r') : Inv r' := by
  have hne : s ≠ .running ∧ s ≠ .waiting ∧ s ≠ .sleeping ∧ s ≠ .new := by
    cases s <;> simp [TaskState.terminal] at htr ⊢
  refine h.letGo (by simp [hpc, Pc.tasks]) rfl hc hps htas hw ?_
    ((h.waits t).restate (Or.inr hs) hne.2.1 rfl) hne.2.2.2
  rw [hpc]
  rintro ⟨ha, ⟨-, hw⟩ | ⟨-, -, j, -, hj⟩⟩
  · exact ⟨rfl, ha.queued, hw, hne.1, by simp [hne]⟩
  · exact absurd hs hj.ne_running

theorem Inv.endWoken (h : Inv r) (hpc : (r.ps p).pc = .returned t .ok)
    (hw : (r.tasks t).wakePending = true) :
    Inv ((r.endTask p t { r.tasks t with
      executing := false
      wakePending := false
      state := .runnable
      wakes := (r.tasks t).wakes + 1
      queued := true
      enqueues := (r.tasks t).enqueues + 1 }).pushGlobal t) := by
  obtain ⟨hl, ht, hio⟩ := (h.waits t).unlinked_of_pending hw
  have hst : (r.tasks t).state ≠ .cancelled ∧ (r.tasks t).state ≠ .new := by
    rcases (h.waits t).pending hw with hs | hs <;> simp [hs]
  have hc := (h.waits t).causes hst.1
  have he := (h.waits t).enqueues hst.2
  refine h.requeue (by simp [hpc, Pc.tasks]) rfl rfl rfl rfl ⟨rfl, rfl, rfl⟩ ?_
    (WaitOk.of_unlinked hl ht hio rfl (by simp) ?_ ?_)
  · rw [hpc]
    rintro ⟨-, ⟨-, hw'⟩ | ⟨-, -, j, hj, -⟩⟩
    · simp [hw] at hw'
    · exact ⟨⟨rfl, rfl, Or.inl rfl, Or.inr ⟨j, hj⟩⟩, rfl⟩
  · intro _
    simpa [hw] using hc
  · intro _
    show (r.tasks t).enqueues + 1 = (r.tasks t).wakes + 1 + (r.tasks t).yields + 1
    omega

theorem Inv.endYield (h : Inv r) (hpc : (r.ps p).pc = .returned t .ok)
    (hs : (r.tasks t).state = .runnable) :
    Inv ((r.endTask p t { r.tasks t with
      executing := false
      yields := (r.tasks t).yields + 1
      queued := true
      enqueues := (r.tasks t).enqueues + 1 }).pushGlobal t) := by
  obtain ⟨hl, ht, hio, hp⟩ := (h.waits t).unlinked (by simp [hs]) (by simp [hs]) (by simp [hs])
  have hc := (h.waits t).causes (by simp [hs])
  have he := (h.waits t).enqueues (by simp [hs])
  refine h.requeue (by simp [hpc, Pc.tasks]) rfl rfl rfl rfl ⟨rfl, rfl, rfl⟩ ?_
    (WaitOk.of_unlinked hl ht hio hp (by simp [hs]) ?_ ?_)
  · rw [hpc]
    rintro ⟨-, ⟨hs', -⟩ | ⟨-, -, j, hj, -⟩⟩
    · simp [hs] at hs'
    · exact ⟨⟨rfl, hp, Or.inl hs, Or.inr ⟨j, hj⟩⟩, rfl⟩
  · intro _
    simpa [hp] using hc
  · intro _
    show (r.tasks t).enqueues + 1 = (r.tasks t).wakes + ((r.tasks t).yields + 1) + 1
    omega

theorem Inv.endParked (h : Inv r) (hpc : (r.ps p).pc = .returned t .ok)
    (hw : (r.tasks t).wakePending = false)
    (hs : (r.tasks t).state = .waiting ∨ (r.tasks t).state = .sleeping) :
    Inv (r.endTask p t { r.tasks t with executing := false }) := by
  have hne : (r.tasks t).state ≠ .running := by rcases hs with hs | hs <;> simp [hs]
  refine h.letGo (by simp [hpc, Pc.tasks]) rfl rfl rfl rfl ⟨rfl, rfl, rfl⟩ ?_ ((h.waits t).same rfl)
    (by rcases hs with hs | hs <;> simp [hs])
  rw [hpc]
  rintro ⟨ha, ⟨hs', -⟩ | ⟨-, -, j, hj, hp⟩⟩
  · exact absurd hs' hne
  · exact ⟨rfl, ha.queued, hw, hne, fun _ => ⟨j, hj, hp.state.symm⟩⟩

end Veloco.Sched
