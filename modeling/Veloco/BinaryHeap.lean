import Mathlib.Tactic

/-!
# The order of a binary heap in an array
-/

namespace Veloco.BinaryHeap

variable {α : Type*} [LinearOrder α] {key key' : ℕ → α} {n i j c : ℕ}

def parent (i : ℕ) : ℕ := (i - 1) / 2

theorem parent_lt (hi : 0 < i) : parent i < i := by
  unfold parent
  omega

theorem child_eq (hi : 0 < i) (h : parent i = j) : i = 2 * j + 1 ∨ i = 2 * j + 2 := by
  unfold parent at h
  omega

def Ordered (key : ℕ → α) (n : ℕ) : Prop := ∀ i, 0 < i → i < n → key (parent i) ≤ key i

theorem Ordered.congr {m : ℕ} (h : Ordered key n) (hm : m ≤ n) (hsm : ∀ i, i < m → key' i = key i) :
    Ordered key' m := by
  intro i hi hlt
  have hpar := parent_lt hi
  rw [hsm i hlt, hsm (parent i) (by omega)]
  exact h i hi (by omega)

theorem Ordered.root_le (h : Ordered key n) : ∀ i, i < n → key 0 ≤ key i := by
  intro i
  induction i using Nat.strong_induction_on with
  | _ i ih =>
    intro hi
    by_cases hzr : i = 0
    · rw [hzr]
    · have hpar := parent_lt (Nat.pos_of_ne_zero hzr)
      have hrt : key 0 ≤ key (parent i) := ih (parent i) hpar (by omega)
      exact hrt.trans (h i (by omega) hi)

def exchange (key : ℕ → α) (a b : ℕ) : ℕ → α := fun i =>
  if i = a then key b else if i = b then key a else key i

omit [LinearOrder α] in
@[simp] theorem exchange_left (key : ℕ → α) (a b : ℕ) : exchange key a b a = key b := if_pos rfl

omit [LinearOrder α] in
@[simp] theorem exchange_right (key : ℕ → α) (a b : ℕ) : exchange key a b b = key a := by
  unfold exchange
  by_cases hba : b = a
  · rw [if_pos hba, hba]
  · rw [if_neg hba, if_pos rfl]

omit [LinearOrder α] in
theorem exchange_of_ne {a b : ℕ} (ha : i ≠ a) (hb : i ≠ b) : exchange key a b i = key i := by
  unfold exchange
  rw [if_neg ha, if_neg hb]

structure UpTo (key : ℕ → α) (n j : ℕ) : Prop where
  pairs : ∀ i, 0 < i → i < n → i ≠ j → key (parent i) ≤ key i
  below : 0 < j → ∀ i, 0 < i → i < n → parent i = j → key (parent j) ≤ key i

theorem Ordered.upTo_last (h : Ordered key n) (hsm : ∀ i, i < n → key' i = key i) :
    UpTo key' (n + 1) n where
  pairs := by
    intro i hi hlt hne
    have hpar := parent_lt hi
    rw [hsm i (by omega), hsm (parent i) (by omega)]
    exact h i hi (by omega)
  below := by
    intro _ i hi hlt hpar
    have := parent_lt hi
    omega

theorem UpTo.ordered (h : UpTo key n j) (hj : j = 0 ∨ key (parent j) ≤ key j) : Ordered key n := by
  intro i hi hlt
  by_cases hij : i = j
  · subst hij
    exact hj.resolve_left hi.ne'
  · exact h.pairs i hi hlt hij

theorem UpTo.step (h : UpTo key n j) (hj : 0 < j) (hjn : j < n) (hlt : key j < key (parent j)) :
    UpTo (exchange key (parent j) j) n (parent j) := by
  have hpar := parent_lt hj
  constructor
  · intro i hi hin hne
    by_cases hij : i = j
    · -- the pair of the exchange
      subst hij
      rw [exchange_left, exchange_right]
      exact hlt.le
    rw [exchange_of_ne hne hij]
    by_cases hpi : parent i = j
    · rw [hpi, exchange_right]
      exact h.below hj i hi hin hpi
    by_cases hpp : parent i = parent j
    · -- the other child of the same parent
      have hold := h.pairs i hi hin hij
      rw [hpp] at hold ⊢
      rw [exchange_left]
      exact hlt.le.trans hold
    · rw [exchange_of_ne hpp hpi]
      exact h.pairs i hi hin hij
  · intro hpos i hi hin hpi
    have hgrand := parent_lt hpos
    rw [exchange_of_ne hgrand.ne (by omega)]
    have habove : key (parent (parent j)) ≤ key (parent j) :=
      h.pairs (parent j) hpos (by omega) hpar.ne
    by_cases hij : i = j
    · subst hij
      rwa [exchange_right]
    · have hii := parent_lt hi
      rw [exchange_of_ne (by omega) hij]
      have hold := h.pairs i hi hin hij
      rw [hpi] at hold
      exact habove.trans hold

structure DownFrom (key : ℕ → α) (n j : ℕ) : Prop where
  pairs : ∀ i, 0 < i → i < n → parent i ≠ j → key (parent i) ≤ key i
  below : 0 < j → ∀ i, 0 < i → i < n → parent i = j → key (parent j) ≤ key i

theorem DownFrom.ordered (h : DownFrom key n j)
    (hj : ∀ i, 0 < i → i < n → parent i = j → key j ≤ key i) : Ordered key n := by
  intro i hi hlt
  by_cases hpi : parent i = j
  · rw [hpi]
    exact hj i hi hlt hpi
  · exact h.pairs i hi hlt hpi

theorem DownFrom.step (h : DownFrom key n j) (hc : 0 < c) (hcn : c < n) (hcj : parent c = j)
    (hlt : key c < key j) (hmin : ∀ i, 0 < i → i < n → parent i = j → key c ≤ key i) :
    DownFrom (exchange key j c) n c := by
  have hjc : j < c := hcj ▸ parent_lt hc
  constructor
  · intro i hi hin hpi
    by_cases hij : i = j
    · -- the key that came up is not below the parent of `j`
      subst hij
      have hpar := parent_lt hi
      rw [exchange_left, exchange_of_ne hpar.ne hpi]
      exact h.below hi c hc hcn hcj
    by_cases hic : i = c
    · subst hic
      rw [hcj, exchange_left, exchange_right]
      exact hlt.le
    rw [exchange_of_ne hij hic]
    by_cases hpj : parent i = j
    · rw [hpj, exchange_left]
      exact hmin i hi hin hpj
    · rw [exchange_of_ne hpj hpi]
      exact h.pairs i hi hin hpj
  · intro _ i hi hin hpi
    have hci := parent_lt hi
    have hold := h.pairs i hi hin (by omega)
    rw [hcj, exchange_left, exchange_of_ne (by omega) (by omega), ← hpi]
    exact hold

section Write

variable (h : Ordered key n) (hsm : ∀ i, i < n → i ≠ j → key' i = key i)
include h hsm

theorem Ordered.below_write (hpos : 0 < j) (hi : 0 < i) (hin : i < n) (hpi : parent i = j) :
    key' (parent j) ≤ key' i := by
  have hji := parent_lt hi
  have hpar := parent_lt hpos
  rw [hsm i hin (by omega), hsm (parent j) (by omega) hpar.ne]
  have hmid := h i hi hin
  rw [hpi] at hmid
  exact (h j hpos (by omega)).trans hmid

theorem Ordered.upTo_write (hpos : 0 < j) (hlt : key' j < key' (parent j)) : UpTo key' n j where
  pairs := by
    intro i hi hin hij
    by_cases hpi : parent i = j
    · rw [hpi]
      exact hlt.le.trans (h.below_write hsm hpos hi hin hpi)
    · have hpar := parent_lt hi
      rw [hsm i hin hij, hsm (parent i) (by omega) hpi]
      exact h i hi hin
  below := fun hpos i hi hin hpi => h.below_write hsm hpos hi hin hpi

theorem Ordered.downFrom_write (hle : 0 < j → key' (parent j) ≤ key' j) : DownFrom key' n j where
  pairs := by
    intro i hi hin hpi
    by_cases hij : i = j
    · subst hij
      exact hle hi
    · have hpar := parent_lt hi
      rw [hsm i hin hij, hsm (parent i) (by omega) hpi]
      exact h i hi hin
  below := fun hpos i hi hin hpi => h.below_write hsm hpos hi hin hpi

end Write

end Veloco.BinaryHeap
