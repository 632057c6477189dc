import Veloco.Common
import Veloco.Word
import Mathlib.Data.List.Perm.Basic

/-!
# The per-P binary timer heap (`src/time/timer_heap.c`)
-/

namespace Veloco.TimerHeap

open Function List

variable {ι : Type} [DecidableEq ι]

structure Node where
  deadline : ℕ
  heapIndex : ℕ
  active : Bool
  deriving DecidableEq, Repr

structure Heap (ι : Type) where
  items : List ι
  capacity : ℕ
  node : ι → Node

/-- `items[i]->deadline_ns`. -/
def Heap.deadlineAt (h : Heap ι) (i : ℕ) : ℕ :=
  match h.items[i]? with
  | some x => (h.node x).deadline
  | none => 0

/-- The write `x->heap_index = i`. -/
def Heap.setIndex (h : Heap ι) (x : ι) (i : ℕ) : Heap ι :=
  { h with node := update h.node x { h.node x with heapIndex := i } }

def Heap.swap (h : Heap ι) (left right : ℕ) : Heap ι :=
  match h.items[left]?, h.items[right]? with
  | some a, some b =>
    (({ h with items := (h.items.set left b).set right a }).setIndex b left).setIndex a right
  | _, _ => h

theorem Heap.length_swap (h : Heap ι) (l r : ℕ) : (h.swap l r).items.length = h.items.length := by
  unfold Heap.swap
  split <;> simp [Heap.setIndex]

def Heap.up (h : Heap ι) (index : ℕ) : Heap ι :=
  if index = 0 then h
  else
    let parent := (index - 1) / 2
    if h.deadlineAt parent ≤ h.deadlineAt index then h
    else (h.swap parent index).up parent
termination_by index
decreasing_by omega

def Heap.smallest (h : Heap ι) (index : ℕ) : ℕ :=
  let left := index * 2 + 1
  let right := left + 1
  let smallest :=
    if left < h.items.length ∧ h.deadlineAt left < h.deadlineAt index then left else index
  if right < h.items.length ∧ h.deadlineAt right < h.deadlineAt smallest then right else smallest

omit [DecidableEq ι] in
theorem Heap.smallest_lt (h : Heap ι) {index : ℕ} (hne : h.smallest index ≠ index) :
    index < h.smallest index ∧ h.smallest index < h.items.length := by
  revert hne
  unfold Heap.smallest
  dsimp only
  split_ifs <;> omega

def Heap.down (h : Heap ι) (index : ℕ) : Heap ι :=
  if h.smallest index = index then h
  else (h.swap index (h.smallest index)).down (h.smallest index)
termination_by h.items.length - index
decreasing_by
  rw [Heap.length_swap]
  have := h.smallest_lt ‹_›
  omega

def Heap.grow (h : Heap ι) (reallocOk : Bool) : Option (Heap ι) :=
  if h.items.length = h.capacity then
    let capacity := if h.capacity = 0 then 16 else h.capacity * 2 % Word.modulus
    if capacity < h.capacity ∨ capacity > Word.sizeMax / 8 ∨ reallocOk = false then none
    else some { h with capacity := capacity }
  else some h

def Heap.push (h : Heap ι) (x : ι) (reallocOk : Bool) : Status × Heap ι :=
  if (h.node x).active then (.invalidArgument, h)
  else
    match h.grow reallocOk with
    | none => (.outOfMemory, h)
    | some g =>
      let length := g.items.length
      (.ok, ({ g with
        items := g.items ++ [x]
        node := update g.node x { g.node x with active := true, heapIndex := length } }).up length)

def Heap.peek (h : Heap ι) : Option ι := h.items[0]?

def Heap.cut (h : Heap ι) (x : ι) (index : ℕ) : Heap ι :=
  let h' := { h with node := update h.node x { h.node x with active := false } }
  let length := h.items.length - 1
  if index = length then { h' with items := h.items.dropLast }
  else
    match h.items[length]? with
    | some last => ({ h' with items := (h.items.set index last).dropLast }).setIndex last index
    | none => h'

def Heap.pop (h : Heap ι) : Option (ι × Heap ι) :=
  match h.items[0]? with
  | none => none
  | some x => some (x, if h.items.length = 1 then h.cut x 0 else (h.cut x 0).down 0)

def Heap.remove (h : Heap ι) (x : ι) : Heap ι :=
  let index := (h.node x).heapIndex
  if (h.node x).active = false ∨ index ≥ h.items.length then h
  else
    let g := h.cut x index
    if index = g.items.length then g
    else if index ≠ 0 ∧ g.deadlineAt index < g.deadlineAt ((index - 1) / 2) then g.up index
    else g.down index

/-! ## Items and indices -/

def Heap.Indexed (h : Heap ι) : Prop :=
  ∀ i x, h.items[i]? = some x → (h.node x).active = true ∧ (h.node x).heapIndex = i

omit [DecidableEq ι] in
theorem Heap.Indexed.nodup {h : Heap ι} (hi : h.Indexed) : h.items.Nodup := by
  rw [nodup_iff_getElem?_ne_getElem?]
  intro i j hij hj heq
  have hx := List.getElem?_eq_getElem hj
  have h1 := (hi j _ hx).2
  have h2 := (hi i _ (heq.trans hx)).2
  omega

structure Sifted (h h' : Heap ι) : Prop where
  perm : h'.items.Perm h.items
  indexed : h.Indexed → h'.Indexed
  frame : ∀ x, x ∉ h.items → h'.node x = h.node x
  deadline : ∀ x, (h'.node x).deadline = (h.node x).deadline
  active : ∀ x, (h'.node x).active = (h.node x).active
  capacity : h'.capacity = h.capacity

omit [DecidableEq ι] in
theorem Sifted.refl (h : Heap ι) : Sifted h h :=
  ⟨.refl _, id, fun _ _ => rfl, fun _ => rfl, fun _ => rfl, rfl⟩

omit [DecidableEq ι] in
theorem Sifted.trans {h g k : Heap ι} (hg : Sifted h g) (gk : Sifted g k) : Sifted h k where
  perm := gk.perm.trans hg.perm
  indexed hi := gk.indexed (hg.indexed hi)
  frame x hx := (gk.frame x (fun hm => hx (hg.perm.mem_iff.mp hm))).trans (hg.frame x hx)
  deadline x := (gk.deadline x).trans (hg.deadline x)
  active x := (gk.active x).trans (hg.active x)
  capacity := gk.capacity.trans hg.capacity

theorem Heap.sifted_swap (h : Heap ι) (l r : ℕ) : Sifted h (h.swap l r) := by
  unfold Heap.swap
  split
  next a b ha hb =>
    obtain ⟨hl, rfl⟩ := List.getElem?_eq_some_iff.mp ha
    obtain ⟨hr, rfl⟩ := List.getElem?_eq_some_iff.mp hb
    have hfra : ∀ x, x ≠ h.items[l] → x ≠ h.items[r] →
        update (update h.node h.items[r] { h.node h.items[r] with heapIndex := l }) h.items[l]
          { update h.node h.items[r] { h.node h.items[r] with heapIndex := l }
              h.items[l] with heapIndex := r } x = h.node x := by
      intro x hxl hxr
      rw [update_of_ne hxl, update_of_ne hxr]
    refine ⟨set_set_perm hl hr, ?_, ?_, ?_, ?_, rfl⟩
    · intro hi i x hx
      have hnd := hi.nodup
      simp only [Heap.setIndex, List.getElem?_set, length_set] at hx ⊢
      split_ifs at hx with hir hil
      · subst hir
        cases hx
        rw [update_self]
        refine ⟨?_, rfl⟩
        by_cases hab : h.items[l] = h.items[r]
        · rw [hab, update_self]
          exact (hi _ _ hb).1
        · rw [update_of_ne hab]
          exact (hi _ _ ha).1
      · subst hil
        cases hx
        have hne : h.items[r] ≠ h.items[l] := fun he => hir (hnd.getElem_inj_iff.mp he)
        rw [update_of_ne hne, update_self]
        exact ⟨(hi _ _ hb).1, rfl⟩
      · obtain ⟨hlt, rfl⟩ := List.getElem?_eq_some_iff.mp hx
        rw [hfra _ (fun he => hil (hnd.getElem_inj_iff.mp he).symm)
          (fun he => hir (hnd.getElem_inj_iff.mp he).symm)]
        exact hi i _ (List.getElem?_eq_getElem hlt)
    · intro x hx
      exact hfra x (fun he => hx (he ▸ getElem_mem hl)) (fun he => hx (he ▸ getElem_mem hr))
    · intro x
      simp only [Heap.setIndex, update_apply]
      split_ifs <;> simp_all
    · intro x
      simp only [Heap.setIndex, update_apply]
      split_ifs <;> simp_all
  next => exact Sifted.refl h

theorem Heap.sifted_up (h : Heap ι) (index : ℕ) : Sifted h (h.up index) := by
  fun_induction Heap.up h index with
  | case1 h => exact Sifted.refl h
  | case2 h index h0 parent hle => exact Sifted.refl h
  | case3 h index h0 parent hle ih => exact (h.sifted_swap parent index).trans ih

theorem Heap.sifted_down (h : Heap ι) (index : ℕ) : Sifted h (h.down index) := by
  fun_induction Heap.down h index with
  | case1 h index hs => exact Sifted.refl h
  | case2 h index hs ih => exact (h.sifted_swap index (h.smallest index)).trans ih

/-! ## An item enters or leaves -/

structure Removed (h h' : Heap ι) (x : ι) : Prop where
  perm : h.items.Perm (x :: h'.items)
  indexed : h'.Indexed
  inactive : (h'.node x).active = false
  frame : ∀ y, y ∉ h.items → h'.node y = h.node y
  active : ∀ y, y ≠ x → (h'.node y).active = (h.node y).active
  deadline : ∀ y, (h'.node y).deadline = (h.node y).deadline

omit [DecidableEq ι] in
theorem Removed.sift {h g k : Heap ι} {x : ι} (hr : Removed h g x) (hs : Sifted g k) :
    Removed h k x where
  perm := hr.perm.trans (hs.perm.symm.cons x)
  indexed := hs.indexed hr.indexed
  inactive := (hs.active x).trans hr.inactive
  frame y hy := by
    rw [hs.frame y (fun hm => hy (hr.perm.mem_iff.mpr (mem_cons_of_mem x hm))), hr.frame y hy]
  active y hy := (hs.active y).trans (hr.active y hy)
  deadline y := (hs.deadline y).trans (hr.deadline y)

omit [DecidableEq ι] in
theorem cons_set_perm {l : List ι} {i : ℕ} {x : ι} (y : ι) (hx : l[i]? = some x) :
    (x :: l.set i y).Perm (y :: l) := by
  induction l generalizing i with
  | nil => simp at hx
  | cons a l ih =>
    cases i with
    | zero =>
      obtain rfl : a = x := by simpa using hx
      exact List.Perm.swap y a l
    | succ i =>
      have h1 := ih (i := i) (by simpa using hx)
      calc (x :: (a :: l).set (i + 1) y).Perm (a :: x :: l.set i y) := List.Perm.swap a x _
        _ |>.Perm (a :: y :: l) := h1.cons a
        _ |>.Perm (y :: a :: l) := List.Perm.swap y a l

theorem Heap.removed_cut {h : Heap ι} {x : ι} {index : ℕ} (hi : h.Indexed)
    (hx : h.items[index]? = some x) : Removed h (h.cut x index) x := by
  obtain ⟨hlt, hget⟩ := List.getElem?_eq_some_iff.mp hx
  have hne : h.items ≠ [] := ne_nil_of_length_pos (by omega)
  have hpos : h.items.length - 1 < h.items.length := by omega
  set last := h.items[h.items.length - 1] with hlast
  have hlast? : h.items[h.items.length - 1]? = some last := List.getElem?_eq_getElem hpos
  have hspl : h.items = h.items.dropLast ++ [last] := by
    rw [hlast, ← getLast_eq_getElem hne]
    exact (dropLast_concat_getLast hne).symm
  have hmem : x ∈ h.items := mem_of_getElem? hx
  -- an item at another position is another node
  have hoth : ∀ {i y}, h.items[i]? = some y → i ≠ index → y ≠ x := by
    rintro i y hy hii rfl
    exact hii ((hi _ _ hy).2.symm.trans (hi _ _ hx).2)
  unfold Heap.cut
  dsimp only
  split_ifs with hend
  · have hxl : x = last := Option.some.inj (by rw [← hx, ← hlast?, hend])
    refine ⟨?_, ?_, ?_, ?_, ?_, ?_⟩
    · conv_lhs => rw [hspl, ← hxl]
      exact perm_append_singleton x _
    · intro i y hy
      rw [List.getElem?_dropLast] at hy
      split_ifs at hy with hil
      have hyx := hoth hy (by omega)
      simpa only [update_of_ne hyx] using hi i y hy
    · simp
    · intro y hy
      have hyx : y ≠ x := fun he => hy (he ▸ hmem)
      simp [update_of_ne hyx]
    · intro y hyx
      simp [update_of_ne hyx]
    · intro y
      by_cases hyx : y = x <;> simp [hyx]
  · rw [hlast?]
    have hlx : last ≠ x := hoth hlast? (fun he => hend he.symm)
    have hilt : index < h.items.length - 1 := by omega
    have hdrop : (h.items.set index last).dropLast = h.items.dropLast.set index last := by
      rw [dropLast_eq_take, dropLast_eq_take, length_set, take_set]
    refine ⟨?_, ?_, ?_, ?_, ?_, ?_⟩
    · have hx' : h.items.dropLast[index]? = some x := by
        rw [List.getElem?_dropLast, if_pos hilt, hx]
      show h.items.Perm (x :: (h.items.set index last).dropLast)
      rw [hdrop]
      conv_lhs => rw [hspl]
      exact (perm_append_singleton last _).trans (cons_set_perm last hx').symm
    · intro i y hy
      simp only [Heap.setIndex, List.getElem?_dropLast, length_set, List.getElem?_set] at hy ⊢
      split_ifs at hy with hil hii
      · cases hy
        simp [update_of_ne hlx, (hi _ _ hlast?).1, hii]
      · have hyx := hoth hy (Ne.symm hii)
        have hyl : y ≠ last := by
          rintro rfl
          have h1 := (hi _ _ hy).2
          have h2 := (hi _ _ hlast?).2
          omega
        simpa only [update_of_ne hyl, update_of_ne hyx] using hi i y hy
    · simp [Heap.setIndex, update_of_ne hlx.symm]
    · intro y hy
      have hyl : y ≠ last := fun he => hy (he ▸ mem_of_getElem? hlast?)
      have hyx : y ≠ x := fun he => hy (he ▸ hmem)
      simp [Heap.setIndex, update_of_ne hyl, update_of_ne hyx]
    · intro y hyx
      by_cases hyl : y = last <;> simp [Heap.setIndex, hyl, hyx, hlx]
    · intro y
      by_cases hyl : y = last <;> by_cases hyx : y = x <;>
        simp [Heap.setIndex, hyl, hyx, hlx, hlx.symm]

theorem Heap.pop_spec {h h' : Heap ι} {x : ι} (hi : h.Indexed) (hp : h.pop = some (x, h')) :
    h.peek = some x ∧ Removed h h' x := by
  unfold Heap.pop at hp
  split at hp
  · simp at hp
  · next y hy =>
    obtain ⟨rfl, rfl⟩ : y = x ∧ _ = h' := by simpa using hp
    refine ⟨hy, ?_⟩
    have hc := removed_cut hi hy
    split_ifs
    · exact hc
    · exact hc.sift (Heap.sifted_down _ 0)

theorem Heap.remove_spec {h : Heap ι} {x : ι} (hi : h.Indexed) (hx : x ∈ h.items) :
    Removed h (h.remove x) x := by
  obtain ⟨i, hget⟩ := mem_iff_getElem?.mp hx
  obtain ⟨hact, rfl⟩ := hi i x hget
  have hlt := (List.getElem?_eq_some_iff.mp hget).1
  have hc := removed_cut hi hget
  unfold Heap.remove
  dsimp only
  rw [if_neg (by simpa [hact] using hlt)]
  split_ifs
  · exact hc
  · exact hc.sift (Heap.sifted_up _ _)
  · exact hc.sift (Heap.sifted_down _ _)

structure Added (h h' : Heap ι) (x : ι) : Prop where
  perm : h'.items.Perm (x :: h.items)
  indexed : h.Indexed → x ∉ h.items → h'.Indexed
  isActive : (h'.node x).active = true
  frame : ∀ y, y ≠ x → y ∉ h.items → h'.node y = h.node y
  active : ∀ y, y ≠ x → (h'.node y).active = (h.node y).active
  deadline : ∀ y, (h'.node y).deadline = (h.node y).deadline

omit [DecidableEq ι] in
theorem Heap.grow_eq_some {h g : Heap ι} {ok : Bool} (hg : h.grow ok = some g) :
    g.items = h.items ∧ g.node = h.node := by
  unfold Heap.grow at hg
  dsimp only at hg
  split_ifs at hg <;> (cases hg; exact ⟨rfl, rfl⟩)

theorem Heap.push_spec (h : Heap ι) (x : ι) (ok : Bool) :
    ((h.push x ok).1 ≠ .ok ∧ (h.push x ok).2 = h) ∨
    ((h.push x ok).1 = .ok ∧ Added h (h.push x ok).2 x) := by
  unfold Heap.push
  split_ifs with hact
  · exact Or.inl ⟨by simp, rfl⟩
  · cases hg : h.grow ok with
    | none => exact Or.inl ⟨by simp, rfl⟩
    | some g =>
      obtain ⟨hite, hnode⟩ := grow_eq_some hg
      refine Or.inr ⟨rfl, ?_⟩
      dsimp only
      rw [hite, hnode]
      set k : Heap ι := ⟨h.items ++ [x], g.capacity, update h.node x
        { h.node x with active := true, heapIndex := h.items.length }⟩ with hk
      have hs := k.sifted_up h.items.length
      have hkx : k.node x = { h.node x with active := true, heapIndex := h.items.length } :=
        update_self _ _ _
      have hky : ∀ y, y ≠ x → k.node y = h.node y := fun y hy => update_of_ne hy _ _
      refine ⟨hs.perm.trans (perm_append_singleton x _), ?_, ?_, ?_, ?_, ?_⟩
      · intro hi hx
        refine hs.indexed fun i y hy => ?_
        have hy' : (h.items ++ [x])[i]? = some y := hy
        rw [List.getElem?_append] at hy'
        split_ifs at hy' with hil
        · rw [hky y (fun he => hx (he ▸ mem_of_getElem? hy'))]
          exact hi i y hy'
        · obtain ⟨h0, rfl⟩ : i - h.items.length = 0 ∧ x = y := by
            rw [List.getElem?_singleton] at hy'
            split_ifs at hy' with h0
            exact ⟨h0, Option.some.inj hy'⟩
          rw [hkx]
          exact ⟨rfl, by dsimp only; omega⟩
      · rw [hs.active x, hkx]
      · intro y hyx hy
        rw [hs.frame y (by simp [hk, hy, hyx]), hky y hyx]
      · intro y hyx
        rw [hs.active y, hky y hyx]
      · intro y
        rw [hs.deadline y]
        by_cases hyx : y = x
        · rw [hyx, hkx]
        · rw [hky y hyx]

end Veloco.TimerHeap
