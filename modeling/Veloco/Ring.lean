import Mathlib.Data.List.Basic
import Mathlib.Tactic

/-!
# Queues in a ring of slots
-/

namespace Veloco.Ring

open Function List

variable {α : Type*} {buffer : ℕ → α} {capacity head length : ℕ}

theorem mod_ne_of_lt {i j c : ℕ} (hij : i < j) (hc : j < i + c) : i % c ≠ j % c := by
  intro h
  have hd : c ∣ j - i := (Nat.modEq_iff_dvd' hij.le).mp h
  have := Nat.le_of_dvd (by omega) hd
  omega

def contents (buffer : ℕ → α) (capacity head length : ℕ) : List α :=
  (List.range length).map fun i => buffer ((head + i) % capacity)

theorem contents_ne_nil (h : length ≠ 0) : contents buffer capacity head length ≠ [] := by
  intro hnil
  apply h
  simpa [contents] using hnil

theorem contents_push (h : length < capacity) (x : α) :
    contents (update buffer ((head + length) % capacity) x) capacity head (length + 1) =
      contents buffer capacity head length ++ [x] := by
  unfold contents
  rw [range_succ, map_append, map_singleton, update_self]
  refine congrArg (· ++ [x]) (map_congr_left fun i hi => ?_)
  have hlt := mem_range.mp hi
  apply update_of_ne
  exact mod_ne_of_lt (by omega) (by omega)

theorem contents_pop (h : head < capacity) :
    contents buffer capacity head (length + 1) =
      buffer head :: contents buffer capacity ((head + 1) % capacity) length := by
  unfold contents
  rw [range_succ_eq_map, map_cons, map_map, Nat.add_zero, Nat.mod_eq_of_lt h]
  refine congrArg (buffer head :: ·) (map_congr_left fun i _ => ?_)
  show buffer ((head + (i + 1)) % capacity) = buffer (((head + 1) % capacity + i) % capacity)
  rw [Nat.mod_add_mod, Nat.add_assoc, Nat.add_comm 1 i]

end Veloco.Ring
