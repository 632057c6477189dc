import Veloco.TimerHeap.Order
import Veloco.Sched.Counters

/-!
# The expiry pass (`vl_timers_expire`)
-/

namespace Veloco.TimerHeap

open List

variable {ι : Type} [DecidableEq ι] {h g : Heap ι} {removed : List ι} {now n : ℕ}

def Heap.popDue (now : ℕ) : ℕ → Heap ι → List ι × Heap ι
  | 0, h => ([], h)
  | n + 1, h =>
    match h.peek with
    | none => ([], h)
    | some first =>
      if (h.node first).deadline ≤ now then
        match h.pop with
        | none => ([], h)
        | some (x, g) => (x :: (Heap.popDue now n g).1, (Heap.popDue now n g).2)
      else ([], h)

structure Expired (now : ℕ) (h : Heap ι) (removed : List ι) (g : Heap ι) : Prop where
  perm : h.items.Perm (removed ++ g.items)
  due : ∀ x ∈ removed, (h.node x).deadline ≤ now
  later : ∀ x ∈ g.items, now < (h.node x).deadline
  sorted : removed.Pairwise fun x y => (h.node x).deadline ≤ (h.node y).deadline
  indexed : g.Indexed
  ordered : g.Ordered
  inactive : ∀ x ∈ removed, (g.node x).active = false
  deadline : ∀ x, (g.node x).deadline = (h.node x).deadline
  frame : ∀ x, x ∉ h.items → g.node x = h.node x

omit [DecidableEq ι] in
theorem Expired.nil (hi : h.Indexed) (ho : h.Ordered)
    (hlat : ∀ x ∈ h.items, now < (h.node x).deadline) : Expired now h [] h :=
  ⟨.refl _, by simp, hlat, .nil, hi, ho, by simp, fun _ => rfl, fun _ _ => rfl⟩

omit [DecidableEq ι] in
theorem Expired.cons {k : Heap ι} {x : ι} (hi : h.Indexed) (ho : h.Ordered)
    (hpk : h.peek = some x) (hdue : (h.node x).deadline ≤ now) (hr : Removed h k x)
    (he : Expired now k removed g) : Expired now h (x :: removed) g := by
  have hmem : ∀ y ∈ k.items, y ∈ h.items := fun y hy => hr.perm.mem_iff.mpr (mem_cons_of_mem x hy)
  have hrs : ∀ y ∈ removed, y ∈ k.items := fun y hy => he.perm.mem_iff.mpr (mem_append_left _ hy)
  have hout : x ∉ k.items := (nodup_cons.mp (hr.perm.nodup_iff.mp hi.nodup)).1
  refine ⟨?_, ?_, ?_, ?_, he.indexed, he.ordered, ?_, ?_, ?_⟩
  · exact hr.perm.trans (he.perm.cons x)
  · intro y hy
    rcases mem_cons.mp hy with rfl | hy
    · exact hdue
    · rw [← hr.deadline y]
      exact he.due y hy
  · intro y hy
    rw [← hr.deadline y]
    exact he.later y hy
  · -- the root is at or before everything that is popped later
    refine pairwise_cons.mpr ⟨fun y hy => ho.le_of_peek hpk y (hmem y (hrs y hy)), ?_⟩
    refine he.sorted.imp fun {y z} hyz => ?_
    rwa [hr.deadline y, hr.deadline z] at hyz
  · intro y hy
    rcases mem_cons.mp hy with rfl | hy
    · rw [he.frame y hout]
      exact hr.inactive
    · exact he.inactive y hy
  · exact fun y => (he.deadline y).trans (hr.deadline y)
  · intro y hy
    rw [he.frame y fun hk => hy (hmem y hk), hr.frame y hy]

theorem Heap.popDue_expired (now n : ℕ) (h : Heap ι) (hi : h.Indexed) (ho : h.Ordered)
    (hn : h.items.length ≤ n) : Expired now h (h.popDue now n).1 (h.popDue now n).2 := by
  induction n generalizing h with
  | zero =>
    have hnil : h.items = [] := eq_nil_of_length_eq_zero (Nat.le_zero.mp hn)
    exact .nil hi ho (by simp [hnil])
  | succ n ih =>
    unfold Heap.popDue
    cases hpk : h.peek with
    | none =>
      have hnil : h.items = [] := by simpa [Heap.peek] using hpk
      exact .nil hi ho (by simp [hnil])
    | some first =>
      have hle := ho.le_of_peek hpk
      dsimp only
      split_ifs with hdue
      · cases hpop : h.pop with
        | none =>
          have hfst := h.pop_fst
          rw [hpop, hpk] at hfst
          exact absurd hfst (by simp)
        | some r =>
          obtain ⟨x, k⟩ := r
          obtain ⟨hx, hr⟩ := Heap.pop_spec hi hpop
          obtain rfl : first = x := Option.some.inj (hpk.symm.trans hx)
          have hlen := hr.perm.length_eq
          rw [length_cons] at hlen
          exact .cons hi ho hpk hdue hr (ih k hr.indexed (Heap.ordered_pop ho hpop) (by omega))
      · exact .nil hi ho fun x hx => (not_le.mp hdue).trans_le (hle x hx)

theorem Heap.popDue_stable (now : ℕ) (n m : ℕ) (h : Heap ι) (hi : h.Indexed)
    (hn : h.items.length ≤ n) (hm : n ≤ m) : h.popDue now m = h.popDue now n := by
  induction n generalizing h m with
  | zero =>
    have hnil : h.items = [] := eq_nil_of_length_eq_zero (Nat.le_zero.mp hn)
    cases m with
    | zero => rfl
    | succ m => simp [Heap.popDue, Heap.peek, hnil]
  | succ n ih =>
    obtain ⟨m, rfl⟩ : ∃ k, m = k + 1 := ⟨m - 1, by omega⟩
    unfold Heap.popDue
    cases h.peek with
    | none => rfl
    | some first =>
      dsimp only
      cases hpop : h.pop with
      | none => rfl
      | some r =>
        obtain ⟨x, k⟩ := r
        obtain ⟨-, hr⟩ := Heap.pop_spec hi hpop
        have hlen := hr.perm.length_eq
        rw [length_cons] at hlen
        dsimp only
        rw [ih m k hr.indexed (by omega) (by omega)]

end Veloco.TimerHeap

namespace Veloco.Sched

open Veloco.TimerHeap (Heap Expired)

variable {r : Runtime} {p : PId} {tm : TimerId} {g : Heap TimerId}

/-! ## Popping and waking do not interfere -/

theorem fireTimer_node (r : Runtime) (tm : TimerId) (result : Status) (event : TimerEvent) :
    (r.fireTimer tm result event).node = r.node := by
  unfold Runtime.fireTimer
  dsimp only
  cases (r.timers tm).task with
  | none => rfl
  | some t => exact (Runtime.wake_sameRest _ t).node

theorem fireTimer_heap (r : Runtime) (tm : TimerId) (result : Status) (event : TimerEvent) (p : PId) :
    (r.fireTimer tm result event).heap p = r.heap p := by
  unfold Runtime.heap
  rw [fireTimer_ps, fireTimer_node]

theorem putHeap_heap (r : Runtime) (p : PId) (g : Heap TimerId) : (r.putHeap p g).heap p = g := by
  simp [Runtime.heap, Runtime.putHeap]

theorem putHeap_putHeap (r : Runtime) (p : PId) (g k : Heap TimerId) :
    (r.putHeap p g).putHeap p k = r.putHeap p k := by
  simp [Runtime.putHeap, Runtime.setP]

theorem putHeap_self (r : Runtime) (p : PId) : r.putHeap p (r.heap p) = r := by
  simp [Runtime.putHeap, Runtime.setP, Runtime.heap]

theorem putHeap_enqueueGlobal (r : Runtime) (t : TaskId) (p : PId) (g : Heap TimerId) :
    (r.enqueueGlobal t).putHeap p g = (r.putHeap p g).enqueueGlobal t :=
  apply_ite (fun r : Runtime => r.putHeap p g) _ _ _

theorem putHeap_wake (r : Runtime) (t : TaskId) (p : PId) (g : Heap TimerId) :
    (r.wake t).putHeap p g = (r.putHeap p g).wake t := by
  unfold Runtime.wake
  rw [apply_ite (fun r : Runtime => r.putHeap p g), apply_ite (fun r : Runtime => r.putHeap p g),
    putHeap_enqueueGlobal]
  rfl

theorem putHeap_fireTimer (r : Runtime) (tm : TimerId) (result : Status) (event : TimerEvent)
    (p : PId) (g : Heap TimerId) :
    (r.fireTimer tm result event).putHeap p g = (r.putHeap p g).fireTimer tm result event := by
  have htim : (r.putHeap p g).timers = r.timers := rfl
  unfold Runtime.fireTimer
  rw [htim]
  cases (r.timers tm).task with
  | none => rfl
  | some t => exact putHeap_wake _ t p g

theorem expireLoop_eq (now n : ℕ) (r : Runtime) (p : PId) :
    Runtime.expireLoop p now n r = ((r.heap p).popDue now n).1.foldl
      (fun r tm => r.fireTimer tm .ok .expired) (r.putHeap p ((r.heap p).popDue now n).2) := by
  induction n generalizing r with
  | zero => exact (putHeap_self r p).symm
  | succ n ih =>
    unfold Runtime.expireLoop Heap.popDue
    cases (r.heap p).peek with
    | none => exact (putHeap_self r p).symm
    | some first =>
      dsimp only
      show (if (r.node first).deadline ≤ now then _ else _) = _
      by_cases hdue : (r.node first).deadline ≤ now
      · have hdue' : ((r.heap p).node first).deadline ≤ now := hdue
        rw [if_pos hdue, if_pos hdue']
        cases (r.heap p).pop with
        | none => exact (putHeap_self r p).symm
        | some q =>
          obtain ⟨tm, g⟩ := q
          dsimp only
          rw [ih, fireTimer_heap, putHeap_heap, putHeap_fireTimer, putHeap_putHeap, List.foldl_cons]
      · have hdue' : ¬ ((r.heap p).node first).deadline ≤ now := hdue
        rw [if_neg hdue, if_neg hdue']
        exact (putHeap_self r p).symm

def Runtime.wakeExpired (r : Runtime) (t : TaskId) : Runtime :=
  (r.setTask t { r.tasks t with
    timerResult := .ok
    timerEvent := some .expired
    causes := (r.tasks t).causes + 1 }).wake t

def Runtime.withTimers (r : Runtime) (timers : TimerId → Timer) (timerCount : ℕ) : Runtime :=
  { r with timers := timers, timerCount := timerCount }

theorem fireTimer_expired (r : Runtime) (tm : TimerId) :
    r.fireTimer tm .ok .expired = (r.timers tm).task.toList.foldl Runtime.wakeExpired
      (r.withTimers (Function.update r.timers tm ⟨none, none⟩) (r.timerCount - 1)) := by
  unfold Runtime.fireTimer
  cases (r.timers tm).task <;> rfl

theorem withTimers_wakeExpired (r : Runtime) (t : TaskId) (timers : TimerId → Timer) (n : ℕ) :
    (r.wakeExpired t).withTimers timers n = (r.withTimers timers n).wakeExpired t := by
  have henq : ∀ r : Runtime, (r.enqueueGlobal t).withTimers timers n =
      (r.withTimers timers n).enqueueGlobal t := fun r =>
    apply_ite (fun r : Runtime => r.withTimers timers n) _ _ _
  unfold Runtime.wakeExpired Runtime.wake
  rw [apply_ite (fun r : Runtime => r.withTimers timers n),
    apply_ite (fun r : Runtime => r.withTimers timers n), henq]
  rfl

theorem withTimers_foldl (ts : List TaskId) (r : Runtime) (timers : TimerId → Timer) (n : ℕ) :
    (ts.foldl Runtime.wakeExpired r).withTimers timers n =
      ts.foldl Runtime.wakeExpired (r.withTimers timers n) := by
  induction ts generalizing r with
  | nil => rfl
  | cons t ts ih => rw [List.foldl_cons, ih, withTimers_wakeExpired, List.foldl_cons]

theorem foldl_wakeExpired_rest (ts : List TaskId) (r : Runtime) :
    r.SameRest (ts.foldl Runtime.wakeExpired r) := by
  induction ts generalizing r with
  | nil => constructor <;> rfl
  | cons t ts ih =>
    have hset : r.SameRest (r.setTask t { r.tasks t with
        timerResult := .ok
        timerEvent := some .expired
        causes := (r.tasks t).causes + 1 }) := by
      constructor <;> rfl
    exact (hset.trans (Runtime.wake_sameRest _ t)).trans (ih (r.wakeExpired t))

theorem foldl_fireTimer (removed : List TimerId) (hnd : removed.Nodup) (r : Runtime) :
    removed.foldl (fun r tm => r.fireTimer tm .ok .expired) r =
      (removed.filterMap fun tm => (r.timers tm).task).foldl Runtime.wakeExpired
        (r.withTimers (fun tm => if tm ∈ removed then ⟨none, none⟩ else r.timers tm)
          (r.timerCount - removed.length)) := by
  induction removed generalizing r with
  | nil => rfl
  | cons tm rest ih =>
    obtain ⟨hout, hnd⟩ := List.nodup_cons.mp hnd
    have hkp := foldl_wakeExpired_rest (r.timers tm).task.toList
      (r.withTimers (Function.update r.timers tm ⟨none, none⟩) (r.timerCount - 1))
    have htas : (rest.filterMap fun x => (Function.update r.timers tm ⟨none, none⟩ x).task) =
        rest.filterMap fun x => (r.timers x).task := by
      refine List.filterMap_congr fun x hx => ?_
      have hne : x ≠ tm := fun he => hout (he ▸ hx)
      rw [Function.update_of_ne hne]
    have htim : (fun x => if x ∈ rest then (⟨none, none⟩ : Timer)
          else Function.update r.timers tm ⟨none, none⟩ x) =
        fun x => if x ∈ tm :: rest then ⟨none, none⟩ else r.timers x := by
      funext x
      by_cases hx : x = tm
      · simp [hx]
      · simp [hx]
    have hcnt : r.timerCount - 1 - rest.length = r.timerCount - (tm :: rest).length := by
      rw [List.length_cons]
      omega
    have hspl : ((tm :: rest).filterMap fun x => (r.timers x).task) =
        (r.timers tm).task.toList ++ rest.filterMap fun x => (r.timers x).task := by
      cases hts : (r.timers tm).task <;> simp [hts]
    rw [List.foldl_cons, fireTimer_expired, ih hnd, hkp.timers, hkp.timerCount, withTimers_foldl,
      hspl, List.foldl_append, ← htim, ← hcnt, ← htas]
    rfl

theorem foldl_wakeExpired_task (ts : List TaskId) (r : Runtime) (t : TaskId) :
    ((ts.foldl Runtime.wakeExpired r).tasks t).causes = (r.tasks t).causes + ts.count t ∧
      (t ∈ ts → ((ts.foldl Runtime.wakeExpired r).tasks t).timerResult = .ok) ∧
      (t ∉ ts → (ts.foldl Runtime.wakeExpired r).tasks t = r.tasks t) := by
  induction ts generalizing r with
  | nil => simp
  | cons u ts ih =>
    obtain ⟨hcau, hres, hsm⟩ := ih (r.wakeExpired u)
    rw [List.foldl_cons]
    by_cases hut : t = u
    · subst hut
      have hone : ((r.wakeExpired t).tasks t).causes = (r.tasks t).causes + 1 := by
        unfold Runtime.wakeExpired
        rw [Runtime.wake_keeps Task.causes fun _ _ _ _ _ _ => rfl]
        simp
      have hok : ((r.wakeExpired t).tasks t).timerResult = .ok := by
        unfold Runtime.wakeExpired
        rw [Runtime.wake_keeps Task.timerResult fun _ _ _ _ _ _ => rfl]
        simp
      refine ⟨?_, fun _ => ?_, fun hnot => absurd List.mem_cons_self hnot⟩
      · rw [hcau, hone, List.count_cons_self]
        omega
      · by_cases hmem : t ∈ ts
        · exact hres hmem
        · rw [hsm hmem, hok]
    · have hoth : (r.wakeExpired u).tasks t = r.tasks t := by
        unfold Runtime.wakeExpired
        rw [Runtime.wake_tasks_ne _ hut]
        simp [hut]
      rw [hoth] at hcau hsm
      refine ⟨?_, fun hmem => hres ((List.mem_cons.mp hmem).resolve_left hut), fun hnot => ?_⟩
      · rw [hcau, List.count_cons_of_ne (Ne.symm hut)]
      · exact hsm fun hmem => hnot (List.mem_cons_of_mem u hmem)

theorem length_le_timerCount (h : TimersCounted r) (p : PId) : (r.ps p).timers.length ≤ r.timerCount := by
  by_cases hp : p < r.workerCount
  · rw [h.total]
    exact Finset.single_le_sum (f := fun q => (r.ps q).timers.length) (fun _ _ => Nat.zero_le _)
      (Finset.mem_range.mpr hp)
  · rw [h.beyond p (Nat.le_of_not_lt hp)]
    exact Nat.zero_le _

/-- **The expiry pass.** -/
theorem timersExpire_exact (hi : (r.heap p).Indexed) (ho : (r.heap p).Ordered) (now : ℕ) :
    (∀ n, (r.ps p).timers.length ≤ n → Runtime.expireLoop p now n r = r.timersExpire p now) ∧
    ∃ removed, Expired now (r.heap p) removed ((r.timersExpire p now).heap p) ∧
      r.timersExpire p now =
        (removed.filterMap fun tm => (r.timers tm).task).foldl Runtime.wakeExpired
          ((r.putHeap p ((r.timersExpire p now).heap p)).withTimers
            (fun tm => if tm ∈ removed then ⟨none, none⟩ else r.timers tm)
            (r.timerCount - removed.length)) ∧
      (r.timersExpire p now).timerCount = r.timerCount - removed.length ∧
      (removed.length ≤ r.timerCount →
        (r.timersExpire p now).timerCount + removed.length = r.timerCount) ∧
      (∀ k s s' as, Initial k s → Trans.run step s as = some s' → s'.rt = r →
        removed.length ≤ r.timerCount) ∧
      (∀ tm ∈ removed, ∀ t, (r.timers tm).task = some t →
        ((r.timersExpire p now).tasks t).timerResult = .ok) ∧
      ∀ t, ((r.timersExpire p now).tasks t).causes =
        (r.tasks t).causes + (removed.filterMap fun tm => (r.timers tm).task).count t := by
  refine ⟨fun n hn => ?_, ?_⟩
  · unfold Runtime.timersExpire
    rw [expireLoop_eq, expireLoop_eq,
      (r.heap p).popDue_stable now (r.ps p).timers.length n hi le_rfl hn]
  have hexp := (r.heap p).popDue_expired now (r.ps p).timers.length hi ho le_rfl
  cases hpop : (r.heap p).popDue now (r.ps p).timers.length with
  | mk removed g =>
  rw [hpop] at hexp
  dsimp only at hexp
  have hnd : removed.Nodup := (List.nodup_append.mp (hexp.perm.nodup_iff.mp hi.nodup)).1
  have heq : r.timersExpire p now =
      (removed.filterMap fun tm => (r.timers tm).task).foldl Runtime.wakeExpired
        ((r.putHeap p g).withTimers (fun tm => if tm ∈ removed then ⟨none, none⟩ else r.timers tm)
          (r.timerCount - removed.length)) := by
    unfold Runtime.timersExpire
    rw [expireLoop_eq, hpop]
    exact foldl_fireTimer removed hnd (r.putHeap p g)
  have hkp := foldl_wakeExpired_rest (removed.filterMap fun tm => (r.timers tm).task)
    ((r.putHeap p g).withTimers (fun tm => if tm ∈ removed then ⟨none, none⟩ else r.timers tm)
      (r.timerCount - removed.length))
  have hhp : (r.timersExpire p now).heap p = g := by
    rw [heq]
    unfold Runtime.heap
    rw [hkp.ps, hkp.node]
    exact putHeap_heap r p g
  have hcnt : (r.timersExpire p now).timerCount = r.timerCount - removed.length := by
    rw [heq]
    exact hkp.timerCount
  refine ⟨removed, hhp ▸ hexp, hhp ▸ heq, hcnt, fun hle => ?_, ?_, ?_, ?_⟩
  · rw [hcnt]
    exact Nat.sub_add_cancel hle
  · rintro k s s' as hnt hrun rfl
    have htot := length_le_timerCount (counted_run hnt hrun).2.timers p
    have hlen := hexp.perm.length_eq
    rw [List.length_append] at hlen
    have hite : (s'.rt.heap p).items.length = (s'.rt.ps p).timers.length := rfl
    omega
  · intro tm htm t ht
    rw [heq]
    exact (foldl_wakeExpired_task _ _ t).2.1 (List.mem_filterMap.mpr ⟨tm, htm, ht⟩)
  · intro t
    rw [heq]
    exact (foldl_wakeExpired_task _ _ t).1

def fourSleepers : Runtime where
  workerCount := 1
  tasks := fun _ => { state := .sleeping }
  taskCount := 4
  ps := fun _ => { timers := [0, 1, 2, 3], timersCapacity := 16 }
  timers := fun tm => ⟨some tm, some 0⟩
  node := fun tm => ⟨[10, 10, 30, 20].getD tm 0, tm, true⟩
  timerCount := 4

theorem timersExpire_exact_fourSleepers :
    ((fourSleepers.timersExpire 0 20).ps 0).timers = [2] ∧
      ∃ removed, Expired 20 (fourSleepers.heap 0) removed ((fourSleepers.timersExpire 0 20).heap 0) ∧
        (fourSleepers.timersExpire 0 20).timerCount = 4 - removed.length := by
  have hi : (fourSleepers.heap 0).Indexed := by
    intro i tm htm
    have hlt : i < 4 := (List.getElem?_eq_some_iff.mp htm).1
    interval_cases i <;> cases htm <;> exact ⟨rfl, rfl⟩
  have ho : (fourSleepers.heap 0).Ordered := by
    intro i hpos hlt
    have hlt : i < 4 := hlt
    interval_cases i <;> decide
  obtain ⟨-, removed, hexp, -, hcnt, -⟩ := timersExpire_exact hi ho 20
  exact ⟨by decide +kernel, removed, hexp, hcnt⟩

end Veloco.Sched
