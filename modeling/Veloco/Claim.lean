import Mathlib.Data.List.Basic

/-!
# Exclusive claims in a table
-/

namespace Veloco.Claim

variable {κ η : Type*} {table table' : κ → ℕ} {held held' : η → Prop} {key : η → κ}
  {token : η → ℕ} {x : η}

structure Exact (table : κ → ℕ) (held : η → Prop) (key : η → κ) (token : η → ℕ) : Prop where
  token_ne : ∀ x, held x → token x ≠ 0
  entered : ∀ x, held x → table (key x) = token x
  unique : ∀ x y, held x → held y → key x = key y → x = y
  holder : ∀ k, table k ≠ 0 → ∃ x, held x ∧ key x = k

namespace Exact

theorem empty : Exact (fun _ : κ => 0) (fun _ : η => False) key token :=
  ⟨fun _ h => h.elim, fun _ h => h.elim, fun _ _ h => h.elim, fun _ h => absurd rfl h⟩

theorem congr (h : Exact table held key token) (ht : ∀ k, table' k = table k)
    (hh : ∀ x, held' x ↔ held x) : Exact table' held' key token := by
  obtain rfl : table' = table := funext ht
  obtain rfl : held' = held := funext fun x => propext (hh x)
  exact h

theorem acquire [DecidableEq κ] (h : Exact table held key token) (hfree : table (key x) = 0)
    (hx : token x ≠ 0) (ht : ∀ k, table' k = if k = key x then token x else table k)
    (hh : ∀ y, held' y ↔ held y ∨ y = x) : Exact table' held' key token := by
  have hne : ∀ y, held y → key y ≠ key x := by
    intro y hy heq
    have hentry := h.entered y hy
    rw [heq, hfree] at hentry
    exact h.token_ne y hy hentry.symm
  constructor
  case token_ne =>
    intro y hy
    rcases (hh y).mp hy with hy | rfl
    · exact h.token_ne y hy
    · exact hx
  case entered =>
    intro y hy
    rcases (hh y).mp hy with hy | rfl
    · rw [ht, if_neg (hne y hy)]
      exact h.entered y hy
    · rw [ht, if_pos rfl]
  case unique =>
    intro y z hy hz heq
    rcases (hh y).mp hy with hy | rfl
    · rcases (hh z).mp hz with hz | rfl
      · exact h.unique y z hy hz heq
      · exact absurd heq (hne y hy)
    · rcases (hh z).mp hz with hz | rfl
      · exact absurd heq.symm (hne z hz)
      · rfl
  case holder =>
    intro k hk
    rw [ht] at hk
    by_cases hkx : k = key x
    · exact ⟨x, (hh x).mpr (Or.inr rfl), hkx.symm⟩
    · rw [if_neg hkx] at hk
      obtain ⟨y, hy, rfl⟩ := h.holder k hk
      exact ⟨y, (hh y).mpr (Or.inl hy), rfl⟩

theorem release [DecidableEq κ] (h : Exact table held key token) (hx : held x)
    (ht : ∀ k, table' k = if k = key x then 0 else table k)
    (hh : ∀ y, held' y ↔ held y ∧ y ≠ x) : Exact table' held' key token := by
  have hne : ∀ y, held' y → key y ≠ key x := by
    intro y hy heq
    obtain ⟨hy, hyx⟩ := (hh y).mp hy
    exact hyx (h.unique y x hy hx heq)
  constructor
  case token_ne => exact fun y hy => h.token_ne y ((hh y).mp hy).1
  case entered =>
    intro y hy
    rw [ht, if_neg (hne y hy)]
    exact h.entered y ((hh y).mp hy).1
  case unique => exact fun y z hy hz => h.unique y z ((hh y).mp hy).1 ((hh z).mp hz).1
  case holder =>
    intro k hk
    rw [ht] at hk
    by_cases hkx : k = key x
    · exact absurd (if_pos hkx) hk
    · rw [if_neg hkx] at hk
      obtain ⟨y, hy, rfl⟩ := h.holder k hk
      refine ⟨y, (hh y).mpr ⟨hy, ?_⟩, rfl⟩
      rintro rfl
      exact hkx rfl

theorem table_eq (h : Exact table held key token) (h' : Exact table' held' key token) {k : κ}
    (hh : ∀ x, key x = k → (held' x ↔ held x)) : table' k = table k := by
  by_cases hk : table k = 0
  · by_contra hne
    obtain ⟨x, hx, hkey⟩ := h'.holder k (fun h0 => hne (h0.trans hk.symm))
    have hheld := (hh x hkey).mp hx
    have hentry := h.entered x hheld
    rw [hkey, hk] at hentry
    exact h.token_ne x hheld hentry.symm
  · obtain ⟨x, hx, hkey⟩ := h.holder k hk
    have hentry := h.entered x hx
    have hentry' := h'.entered x ((hh x hkey).mpr hx)
    rw [hkey] at hentry hentry'
    exact hentry'.trans hentry.symm

end Exact

end Veloco.Claim
