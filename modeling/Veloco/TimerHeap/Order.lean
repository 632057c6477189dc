import Veloco.BinaryHeap
import Veloco.TimerHeap
import Veloco.Trans

/-!
# The timer heap is a binary heap
-/

namespace Veloco.TimerHeap

open List Option
open Veloco.BinaryHeap

variable {ι : Type} [DecidableEq ι] {h g : Heap ι} {x : ι} {index i : ℕ}

def Heap.Ordered (h : Heap ι) : Prop := BinaryHeap.Ordered h.deadlineAt h.items.length

omit [DecidableEq ι] in
theorem Heap.deadlineAt_eq (hx : h.items[i]? = some x) : h.deadlineAt i = (h.node x).deadline := by
  rw [Heap.deadlineAt, hx]

omit [DecidableEq ι] in
theorem Heap.deadlineAt_congr (htm : g.items[i]? = h.items[i]?)
    (hnd : ∀ x, (g.node x).deadline = (h.node x).deadline) : g.deadlineAt i = h.deadlineAt i := by
  unfold Heap.deadlineAt
  rw [htm]
  cases h.items[i]? with
  | none => rfl
  | some x => exact hnd x

omit [DecidableEq ι] in
theorem Heap.Ordered.le_of_peek (ho : h.Ordered) (hx : h.peek = some x) :
    ∀ y ∈ h.items, (h.node x).deadline ≤ (h.node y).deadline := by
  intro y hy
  obtain ⟨i, hi⟩ := mem_iff_getElem?.mp hy
  have hlt := (List.getElem?_eq_some_iff.mp hi).1
  have hrt := ho.root_le i hlt
  rwa [Heap.deadlineAt_eq hx, Heap.deadlineAt_eq hi] at hrt

theorem Heap.pop_fst (h : Heap ι) : h.pop.map Prod.fst = h.peek := by
  unfold Heap.pop Heap.peek
  cases h.items[0]? <;> rfl

theorem Heap.deadlineAt_swap {l r : ℕ} (hl : l < h.items.length) (hr : r < h.items.length) :
    (h.swap l r).deadlineAt = exchange h.deadlineAt l r := by
  have hsm := (h.sifted_swap l r).deadline
  have hite : (h.swap l r).items = (h.items.set l h.items[r]).set r h.items[l] := by
    unfold Heap.swap
    rw [List.getElem?_eq_getElem hl, List.getElem?_eq_getElem hr]
    rfl
  have hget : ∀ i y, (h.swap l r).items[i]? = some y →
      (h.swap l r).deadlineAt i = (h.node y).deadline := by
    intro i y hy
    rw [Heap.deadlineAt_eq hy, hsm y]
  funext i
  by_cases hir : i = r
  · subst hir
    rw [exchange_right, hget i h.items[l] (by rw [hite]; simp [hr]),
      Heap.deadlineAt_eq (List.getElem?_eq_getElem hl)]
  by_cases hil : i = l
  · subst hil
    rw [exchange_left, hget i h.items[r] (by rw [hite]; simp [hl, Ne.symm hir]),
      Heap.deadlineAt_eq (List.getElem?_eq_getElem hr)]
  · rw [exchange_of_ne hil hir]
    exact Heap.deadlineAt_congr (by rw [hite]; simp [Ne.symm hir, Ne.symm hil]) hsm

theorem Heap.ordered_up (hind : index < h.items.length)
    (hup : UpTo h.deadlineAt h.items.length index) : (h.up index).Ordered := by
  fun_induction Heap.up h index with
  | case1 h => exact hup.ordered (Or.inl rfl)
  | case2 h index _ parent hle => exact hup.ordered (Or.inr hle)
  | case3 h index hpos parent hgt ih =>
    have hpar : parent < index := parent_lt (Nat.pos_of_ne_zero hpos)
    have hst := hup.step (Nat.pos_of_ne_zero hpos) hind (not_le.mp hgt)
    apply ih
    · rw [Heap.length_swap]
      omega
    · rw [Heap.length_swap, Heap.deadlineAt_swap (by omega) hind]
      exact hst

omit [DecidableEq ι] in
theorem Heap.smallest_spec (h : Heap ι) (index : ℕ) :
    (h.smallest index = index ∧
      ∀ i, 0 < i → i < h.items.length → parent i = index → h.deadlineAt index ≤ h.deadlineAt i) ∨
    (parent (h.smallest index) = index ∧ h.deadlineAt (h.smallest index) < h.deadlineAt index ∧
      ∀ i, 0 < i → i < h.items.length → parent i = index →
        h.deadlineAt (h.smallest index) ≤ h.deadlineAt i) := by
  have hchi : ∀ P : ℕ → Prop, (index * 2 + 1 < h.items.length → P (index * 2 + 1)) →
      (index * 2 + 1 + 1 < h.items.length → P (index * 2 + 1 + 1)) →
      ∀ i, 0 < i → i < h.items.length → parent i = index → P i := by
    intro P hlf hrig i hi hlt hpar
    rcases child_eq hi hpar with rfl | rfl
    · rw [Nat.mul_comm] at hlt ⊢
      exact hlf hlt
    · rw [Nat.mul_comm] at hlt ⊢
      exact hrig hlt
  have hl : parent (index * 2 + 1) = index := by unfold parent; omega
  have hr : parent (index * 2 + 1 + 1) = index := by unfold parent; omega
  unfold Heap.smallest
  dsimp only
  split_ifs with hlf hrig hrig
  · exact Or.inr ⟨hr, hrig.2.trans hlf.2, hchi _ (fun _ => hrig.2.le) fun _ => le_rfl⟩
  · exact Or.inr ⟨hl, hlf.2, hchi _ (fun _ => le_rfl) fun hlt =>
      not_lt.mp fun hbad => hrig ⟨hlt, hbad⟩⟩
  · refine Or.inr ⟨hr, hrig.2, hchi _ (fun hlt => ?_) fun _ => le_rfl⟩
    exact hrig.2.le.trans (not_lt.mp fun hbad => hlf ⟨hlt, hbad⟩)
  · exact Or.inl ⟨rfl, hchi _ (fun hlt => not_lt.mp fun hbad => hlf ⟨hlt, hbad⟩) fun hlt =>
      not_lt.mp fun hbad => hrig ⟨hlt, hbad⟩⟩

theorem Heap.ordered_down (hdw : DownFrom h.deadlineAt h.items.length index) :
    (h.down index).Ordered := by
  fun_induction Heap.down h index with
  | case1 h index hsl =>
    rcases h.smallest_spec index with ⟨-, hlea⟩ | ⟨hpar, hlt, -⟩
    · exact hdw.ordered hlea
    · rw [hsl] at hlt
      exact absurd hlt (lt_irrefl _)
  | case2 h index hne ih =>
    obtain ⟨hgt, hlen⟩ := h.smallest_lt hne
    rcases h.smallest_spec index with ⟨hsl, -⟩ | ⟨hpar, hlt, hlea⟩
    · exact absurd hsl hne
    · have hst := hdw.step (by omega) hlen hpar hlt hlea
      apply ih
      rw [Heap.length_swap, Heap.deadlineAt_swap (by omega) hlen]
      exact hst

theorem Heap.ordered_push (ho : h.Ordered) (x : ι) (ok : Bool) : (h.push x ok).2.Ordered := by
  unfold Heap.push
  split_ifs with hact
  · exact ho
  cases hg : h.grow ok with
  | none => exact ho
  | some g =>
    obtain ⟨hite, hnd⟩ := Heap.grow_eq_some hg
    dsimp only
    apply Heap.ordered_up
    · simp
    · dsimp only
      rw [length_append, length_singleton, hite]
      refine ho.upTo_last fun i hi => ?_
      apply Heap.deadlineAt_congr
      · exact List.getElem?_append_left hi
      · intro y
        by_cases hyx : y = x
        · simp [hyx, hnd]
        · simp [hyx, hnd]

theorem Heap.cut_spec (h : Heap ι) (x : ι) (hlt : index < h.items.length) :
    (∃ last, (h.cut x index).items = (h.items.set index last).dropLast) ∧
      (h.cut x index).capacity = h.capacity ∧
      ∀ y, ((h.cut x index).node y).deadline = (h.node y).deadline := by
  have hls : h.items[h.items.length - 1]? = some h.items[h.items.length - 1] :=
    List.getElem?_eq_getElem (by omega)
  unfold Heap.cut
  dsimp only
  split_ifs with hend
  · refine ⟨⟨h.items[h.items.length - 1], ?_⟩, rfl, fun y => ?_⟩
    · subst hend
      dsimp only
      rw [set_getElem_self]
    · by_cases hyx : y = x <;> simp [hyx]
  · rw [hls]
    refine ⟨⟨h.items[h.items.length - 1], rfl⟩, rfl, fun y => ?_⟩
    simp only [Heap.setIndex, Function.update_apply]
    split_ifs <;> simp_all

theorem Heap.length_cut (h : Heap ι) (x : ι) (hlt : index < h.items.length) :
    (h.cut x index).items.length = h.items.length - 1 := by
  obtain ⟨⟨last, hite⟩, -, -⟩ := h.cut_spec x hlt
  rw [hite, length_dropLast, length_set]

theorem Heap.deadlineAt_cut (h : Heap ι) (x : ι) (hlt : index < h.items.length)
    (hi : i < h.items.length - 1) (hne : i ≠ index) :
    (h.cut x index).deadlineAt i = h.deadlineAt i := by
  obtain ⟨⟨last, hite⟩, -, hdea⟩ := h.cut_spec x hlt
  refine Heap.deadlineAt_congr ?_ hdea
  rw [hite, List.getElem?_dropLast, length_set, if_pos hi, List.getElem?_set_ne (Ne.symm hne)]

theorem Heap.ordered_pop (ho : h.Ordered) (hp : h.pop = some (x, g)) : g.Ordered := by
  unfold Heap.pop at hp
  split at hp
  · exact absurd hp (by simp)
  next y hy =>
    obtain ⟨rfl, rfl⟩ : y = x ∧ _ = g := by simpa using hp
    have hlt := (List.getElem?_eq_some_iff.mp hy).1
    have hlen := h.length_cut y hlt
    have hpre : BinaryHeap.Ordered h.deadlineAt (h.items.length - 1) :=
      ho.congr (by omega) fun _ _ => rfl
    split_ifs with hone
    · intro i hi hin
      omega
    · apply Heap.ordered_down
      rw [hlen]
      exact hpre.downFrom_write (fun i hi hne => h.deadlineAt_cut y hlt hi hne)
        fun hpos => absurd hpos (lt_irrefl 0)

theorem Heap.ordered_remove (ho : h.Ordered) (x : ι) : (h.remove x).Ordered := by
  unfold Heap.remove
  dsimp only
  generalize (h.node x).heapIndex = index
  split_ifs with hout hend hup
  · exact ho
  all_goals
    have hlt : index < h.items.length := by omega
    have hlen := h.length_cut x hlt
    have hpre : BinaryHeap.Ordered h.deadlineAt (h.items.length - 1) :=
      ho.congr (by omega) fun _ _ => rfl
  · -- the last item leaves
    unfold Heap.Ordered
    rw [hlen]
    exact hpre.congr le_rfl fun i hi => h.deadlineAt_cut x hlt hi (by omega)
  · apply Heap.ordered_up (by omega)
    rw [hlen]
    exact hpre.upTo_write (fun i hi hne => h.deadlineAt_cut x hlt hi hne)
      (Nat.pos_of_ne_zero hup.1) hup.2
  · apply Heap.ordered_down
    rw [hlen]
    refine hpre.downFrom_write (fun i hi hne => h.deadlineAt_cut x hlt hi hne) fun hpos => ?_
    exact not_lt.mp fun hbad => hup ⟨hpos.ne', hbad⟩

omit [DecidableEq ι] in
theorem Heap.grow_room {ok : Bool} (hlen : h.items.length ≤ h.capacity)
    (hcap : h.capacity ≤ Word.sizeMax / 8) (hg : h.grow ok = some g) :
    h.items.length < g.capacity ∧ g.capacity ≤ Word.sizeMax / 8 := by
  have hmax : Word.sizeMax / 8 * 8 < Word.modulus := by decide
  unfold Heap.grow at hg
  dsimp only at hg
  split_ifs at hg with hfu hzr hbad hbad
  · cases hg
    have hsix : 16 ≤ Word.sizeMax / 8 := by decide
    exact ⟨by dsimp only; omega, hsix⟩
  · cases hg
    have hdou : h.capacity * 2 % Word.modulus = h.capacity * 2 := Nat.mod_eq_of_lt (by omega)
    dsimp only
    rw [hdou] at hbad ⊢
    omega
  · cases hg
    omega

theorem Heap.push_capacity {ok : Bool} (hlen : h.items.length ≤ h.capacity)
    (hcap : h.capacity ≤ Word.sizeMax / 8) (hok : (h.push x ok).1 = .ok) :
    h.items.length < (h.push x ok).2.capacity ∧ (h.push x ok).2.capacity ≤ Word.sizeMax / 8 := by
  unfold Heap.push at hok ⊢
  split_ifs at hok ⊢ with hact
  cases hg : h.grow ok with
  | none => simp [hg] at hok
  | some g =>
    have hrm := Heap.grow_room hlen hcap hg
    dsimp only
    rw [(Heap.sifted_up _ _).capacity]
    exact hrm

theorem Heap.pop_capacity (hp : h.pop = some (x, g)) : g.capacity = h.capacity := by
  unfold Heap.pop at hp
  split at hp
  · exact absurd hp (by simp)
  next y hy =>
    obtain ⟨rfl, rfl⟩ : y = x ∧ _ = g := by simpa using hp
    obtain ⟨-, hcut, -⟩ := h.cut_spec y (List.getElem?_eq_some_iff.mp hy).1
    split_ifs
    · exact hcut
    · exact (Heap.sifted_down _ 0).capacity.trans hcut

theorem Heap.remove_capacity (h : Heap ι) (x : ι) : (h.remove x).capacity = h.capacity := by
  unfold Heap.remove
  dsimp only
  generalize (h.node x).heapIndex = index
  by_cases hout : (h.node x).active = false ∨ index ≥ h.items.length
  · rw [if_pos hout]
  rw [if_neg hout]
  have hlt : index < h.items.length := by omega
  obtain ⟨-, hcut, -⟩ := h.cut_spec x hlt
  split_ifs
  · exact hcut
  · exact (Heap.sifted_up _ index).capacity.trans hcut
  · exact (Heap.sifted_down _ index).capacity.trans hcut

structure Heap.WellFormed (h : Heap ι) : Prop where
  indexed : h.Indexed
  ordered : h.Ordered
  length : h.items.length ≤ h.capacity
  capacity : h.capacity ≤ Word.sizeMax / 8

namespace Heap.WellFormed

omit [DecidableEq ι] in
theorem not_mem (hw : h.WellFormed) (hx : (h.node x).active = false) : x ∉ h.items := by
  intro hmem
  obtain ⟨i, hi⟩ := mem_iff_getElem?.mp hmem
  exact absurd (hw.indexed i x hi).1 (by simp [hx])

theorem push (hw : h.WellFormed) (x : ι) (ok : Bool) : (h.push x ok).2.WellFormed := by
  rcases h.push_spec x ok with ⟨-, hsm⟩ | ⟨hok, hadd⟩
  · rw [hsm]
    exact hw
  have hdl : (h.node x).active = false := by
    by_contra hact
    rw [Bool.not_eq_false] at hact
    simp [Heap.push, hact] at hok
  obtain ⟨hlen, hcap⟩ := Heap.push_capacity hw.length hw.capacity hok
  refine ⟨hadd.indexed hw.indexed (hw.not_mem hdl), Heap.ordered_push hw.ordered x ok, ?_, hcap⟩
  rw [hadd.perm.length_eq, length_cons]
  omega

theorem pop (hw : h.WellFormed) (hp : h.pop = some (x, g)) : g.WellFormed := by
  obtain ⟨-, hrem⟩ := Heap.pop_spec hw.indexed hp
  have hcap := Heap.pop_capacity hp
  have hlen := hrem.perm.length_eq
  have hrm := hw.length
  rw [length_cons] at hlen
  exact ⟨hrem.indexed, Heap.ordered_pop hw.ordered hp, by omega, hcap ▸ hw.capacity⟩

theorem remove (hw : h.WellFormed) (hx : x ∈ h.items) : (h.remove x).WellFormed := by
  have hrem := Heap.remove_spec hw.indexed hx
  have hcap := h.remove_capacity x
  have hlen := hrem.perm.length_eq
  have hrm := hw.length
  rw [length_cons] at hlen
  exact ⟨hrem.indexed, Heap.ordered_remove hw.ordered x, by omega, hcap ▸ hw.capacity⟩

omit [DecidableEq ι] in
theorem others (hw : h.WellFormed) {node : ι → Node} (hsm : ∀ x ∈ h.items, node x = h.node x) :
    ({ h with node := node } : Heap ι).WellFormed := by
  refine ⟨fun i x hx => ?_, ?_, hw.length, hw.capacity⟩
  · show (node x).active = true ∧ (node x).heapIndex = i
    rw [hsm x (mem_of_getElem? hx)]
    exact hw.indexed i x hx
  · refine hw.ordered.congr le_rfl fun i hi => ?_
    have hget := List.getElem?_eq_getElem hi
    rw [Heap.deadlineAt_eq (h := h) hget, Heap.deadlineAt_eq (h := { h with node := node }) hget]
    exact congrArg Node.deadline (hsm _ (getElem_mem hi))

end Heap.WellFormed

structure Timers (ι : Type) where
  heap : Heap ι
  held : List ι

inductive HeapOp (ι : Type) where
  | push (x : ι) (reallocOk : Bool)
  | pop
  | remove (x : ι)
  | others (node : ι → Node)

def Timers.step (w : Timers ι) : HeapOp ι → Option (Timers ι)
  | .push x reallocOk =>
    let (status, heap) := w.heap.push x reallocOk
    some ⟨heap, if status = .ok then x :: w.held else w.held⟩
  | .pop =>
    match w.heap.pop with
    | none => some w
    | some (x, heap) => some ⟨heap, w.held.erase x⟩
  | .remove x =>
    if x ∈ w.heap.items ∨ (w.heap.node x).active = false then
      some ⟨w.heap.remove x, w.held.erase x⟩
    else none
  | .others node =>
    if w.heap.items.all fun x => node x == w.heap.node x then
      some ⟨{ w.heap with node := node }, w.held⟩
    else none

structure Timers.Ok (w : Timers ι) : Prop where
  wellFormed : w.heap.WellFormed
  perm : w.heap.items.Perm w.held

theorem Timers.Ok.step {w v : Timers ι} {op : HeapOp ι} (hw : w.Ok) (hst : w.step op = some v) :
    v.Ok := by
  obtain ⟨hwf, hpr⟩ := hw
  cases op with
  | push x ok =>
    simp only [Timers.step, Option.some.injEq] at hst
    subst hst
    refine ⟨hwf.push x ok, ?_⟩
    rcases w.heap.push_spec x ok with ⟨hfl, hsm⟩ | ⟨hok, hadd⟩
    · dsimp only
      rw [if_neg hfl, hsm]
      exact hpr
    · dsimp only
      rw [if_pos hok]
      exact hadd.perm.trans (hpr.cons x)
  | pop =>
    simp only [Timers.step] at hst
    cases hp : w.heap.pop with
    | none =>
      rw [hp] at hst
      cases hst
      exact ⟨hwf, hpr⟩
    | some r =>
      obtain ⟨x, g⟩ := r
      rw [hp] at hst
      cases hst
      obtain ⟨-, hrem⟩ := Heap.pop_spec hwf.indexed hp
      have hera := (hpr.symm.trans hrem.perm).erase x
      rw [List.erase_cons_head] at hera
      exact ⟨hwf.pop hp, hera.symm⟩
  | remove x =>
    simp only [Timers.step, Option.ite_none_right_eq_some, Option.some.injEq] at hst
    obtain ⟨hx, rfl⟩ := hst
    by_cases hmem : x ∈ w.heap.items
    · have hrem := Heap.remove_spec hwf.indexed hmem
      have hera := (hpr.symm.trans hrem.perm).erase x
      rw [List.erase_cons_head] at hera
      exact ⟨hwf.remove hmem, hera.symm⟩
    · -- an inactive node is left alone
      have hdl := hx.resolve_left hmem
      have hsm : w.heap.remove x = w.heap := by
        unfold Heap.remove
        dsimp only
        rw [if_pos (Or.inl hdl)]
      rw [hsm, List.erase_of_not_mem fun h => hmem (hpr.mem_iff.mpr h)]
      exact ⟨hwf, hpr⟩
  | others node =>
    simp only [Timers.step, List.all_eq_true, beq_iff_eq, Option.ite_none_right_eq_some,
      Option.some.injEq] at hst
    obtain ⟨hsm, rfl⟩ := hst
    exact ⟨hwf.others hsm, hpr⟩

/-- **The representation of the timer heap.** -/
theorem heap_represents {h : Heap ι} {w : Timers ι} {ops : List (HeapOp ι)} (hemp : h.items = [])
    (hcap : h.capacity ≤ Word.sizeMax / 8) (hrun : Trans.run Timers.step ⟨h, []⟩ ops = some w) :
    w.heap.items.Nodup ∧
      (∀ i x, w.heap.items[i]? = some x →
        (w.heap.node x).active = true ∧ (w.heap.node x).heapIndex = i) ∧
      (∀ i x y, 0 < i → w.heap.items[(i - 1) / 2]? = some x → w.heap.items[i]? = some y →
        (w.heap.node x).deadline ≤ (w.heap.node y).deadline) ∧
      (∀ x, x ∈ w.heap.items ↔ x ∈ w.held) ∧
      (∀ i < w.heap.items.length, i * 2 + 2 < Word.modulus) ∧
      (w.heap.peek = none ↔ w.held = []) ∧
      (∀ x, w.heap.peek = some x →
        x ∈ w.held ∧ ∀ y ∈ w.held, (w.heap.node x).deadline ≤ (w.heap.node y).deadline) ∧
      (w.heap.pop.map Prod.fst = w.heap.peek) ∧
      ∀ x ok, (w.heap.push x ok).1 ≠ .ok → (w.heap.push x ok).2 = w.heap := by
  have hsta : (⟨h, []⟩ : Timers ι).Ok := by
    refine ⟨⟨?_, ?_, ?_, hcap⟩, by simp [hemp]⟩
    · intro i x hx
      simp [hemp] at hx
    · intro i hi hlt
      simp [hemp] at hlt
    · simp [hemp]
  obtain ⟨hwf, hpr⟩ : w.Ok :=
    Trans.run_invariant (I := Timers.Ok) (fun _ _ _ hst hw => hw.step hst) hrun hsta
  have hmem : ∀ x, x ∈ w.heap.items ↔ x ∈ w.held := fun x => hpr.mem_iff
  refine ⟨hwf.indexed.nodup, hwf.indexed, ?_, hmem, ?_, ?_, ?_, ?_, ?_⟩
  · intro i x y hi hx hy
    have hlt := (List.getElem?_eq_some_iff.mp hy).1
    have hle := hwf.ordered i hi hlt
    rwa [parent, Heap.deadlineAt_eq hx, Heap.deadlineAt_eq hy] at hle
  · intro i hi
    have hlen := hwf.length
    have hcap := hwf.capacity
    have hmax : Word.sizeMax / 8 * 2 + 2 < Word.modulus := by decide
    omega
  · rw [Heap.peek, List.getElem?_eq_none_iff, Nat.le_zero, hpr.length_eq, length_eq_zero_iff]
  · intro x hx
    refine ⟨(hmem x).mp (mem_of_getElem? hx), fun y hy => ?_⟩
    exact hwf.ordered.le_of_peek hx y ((hmem y).mpr hy)
  · exact w.heap.pop_fst
  · intro x ok hfl
    rcases w.heap.push_spec x ok with ⟨-, hsm⟩ | ⟨hok, -⟩
    · exact hsm
    · exact absurd hok hfl

def fiveTimers : List (HeapOp ℕ) :=
  [.push 0 true, .push 1 true, .push 2 true, .push 3 true, .push 4 true, .remove 1, .remove 1, .pop,
    .push 1 true]

theorem heap_represents_fiveTimers :
    ∃ w, Trans.run Timers.step ⟨⟨[], 0, fun x => ⟨[30, 10, 40, 20, 10].getD x 0, 0, false⟩⟩, []⟩
        fiveTimers = some w ∧
      w.heap.items = [1, 3, 2, 0] ∧ (∀ x, x ∈ w.heap.items ↔ x ∈ w.held) := by
  have hrun : (Trans.run Timers.step
      ⟨⟨[], 0, fun x => ⟨[30, 10, 40, 20, 10].getD x 0, 0, false⟩⟩, []⟩ fiveTimers).map
      (fun w => w.heap.items) = some [1, 3, 2, 0] := by
    decide +kernel
  obtain ⟨w, hw, hite⟩ := map_eq_some_iff.mp hrun
  exact ⟨w, hw, hite, (heap_represents rfl (Nat.zero_le _) hw).2.2.2.1⟩

end Veloco.TimerHeap
