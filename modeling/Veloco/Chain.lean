import Mathlib.Data.List.Basic

/-!
# Null-terminated linked lists
-/

namespace Veloco.Chain

open List

variable {α : Type*} {next next' : α → α} {null : α}

variable {l : List α} {head x : α} {n : ℕ}

def Links (next : α → α) (null : α) : α → List α → Prop
  | head, [] => head = null
  | head, x :: l => head = x ∧ x ≠ null ∧ Links next null (next x) l

def walk [DecidableEq α] (next : α → α) (null : α) : ℕ → α → List α
  | 0, _ => []
  | n + 1, head => if head = null then [] else head :: walk next null n (next head)

theorem Links.congr : ∀ {l : List α} {head : α}, Links next null head l →
    (∀ x ∈ l, next' x = next x) → Links next' null head l
  | [], _, h, _ => h
  | x :: l, _, ⟨hx, hne, h⟩, hl => by
    refine ⟨hx, hne, ?_⟩
    rw [hl x mem_cons_self]
    exact h.congr fun y hy => hl y (mem_cons_of_mem x hy)

theorem Links.push (h : Links next null head l) (hx : x ≠ null)
    (hlink : next' x = head) (hl : ∀ y ∈ l, next' y = next y) : Links next' null x (x :: l) := by
  refine ⟨rfl, hx, ?_⟩
  rw [hlink]
  exact h.congr hl

theorem Links.pop (h : Links next null head l) (hhead : head ≠ null) :
    ∃ l', l = head :: l' ∧ Links next null (next head) l' := by
  cases l with
  | nil => exact absurd h hhead
  | cons x l =>
    obtain ⟨rfl, -, h⟩ := h
    exact ⟨l, rfl, h⟩

theorem Links.eq_nil_iff (h : Links next null head l) :
    l = [] ↔ head = null := by
  cases l with
  | nil => exact ⟨fun _ => h, fun _ => rfl⟩
  | cons x l =>
    obtain ⟨rfl, hne, -⟩ := h
    simp [hne]

theorem Links.next_mem (h : Links next null head l) (hx : x ∈ l) :
    next x ∈ l.tail ∨ next x = null := by
  induction l generalizing head with
  | nil => simp at hx
  | cons y l ih =>
    obtain ⟨-, -, hl⟩ := h
    show next x ∈ l ∨ next x = null
    rcases mem_cons.mp hx with rfl | hx
    · cases l with
      | nil => exact .inr hl
      | cons z l => exact .inl (hl.1 ▸ mem_cons_self)
    · rcases ih hl hx with htail | hnull
      · exact .inl (mem_of_mem_tail htail)
      · exact .inr hnull

theorem Links.walk_eq_take [DecidableEq α] : ∀ {l : List α} {head : α} {n : ℕ},
    Links next null head l → walk next null n head = l.take n
  | _, _, 0, _ => take_zero.symm
  | [], head, n + 1, h => by
    have hnull : head = null := h
    rw [walk, if_pos hnull, take_nil]
  | x :: l, _, n + 1, ⟨hx, hne, h⟩ => by
    subst hx
    rw [walk, if_neg hne, h.walk_eq_take, take_succ_cons]

theorem Links.walk_eq [DecidableEq α]
    (h : Links next null head l) (hn : l.length ≤ n) : walk next null n head = l := by
  rw [h.walk_eq_take, take_of_length_le hn]

end Veloco.Chain
