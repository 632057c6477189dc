import Mathlib.Tactic

/-!
# A byte memory
-/

namespace Veloco.Bytes

open List

variable {a n b k : ℕ} {m' : Memory}

abbrev Memory := ℕ → UInt8

def Apart (a n b k : ℕ) : Prop := a + n ≤ b ∨ b + k ≤ a

instance (a n b k : ℕ) : Decidable (Apart a n b k) :=
  inferInstanceAs (Decidable (_ ∨ _))

theorem Apart.symm (h : Apart a n b k) : Apart b k a n := Or.symm h

theorem Apart.within {a' n' b' k' : ℕ} (h : Apart a n b k) (ha : a ≤ a')
    (hn : a' + n' ≤ a + n) (hb : b ≤ b') (hk : b' + k' ≤ b + k) : Apart a' n' b' k' := by
  unfold Apart at h ⊢
  omega

theorem Apart.not_mem {x : ℕ} (h : Apart a n b k) (hx : a ≤ x ∧ x < a + n) :
    ¬ (b ≤ x ∧ x < b + k) := by
  unfold Apart at h
  omega

theorem sum_le_of_apart {m : ℕ} {l : List (ℕ × ℕ)}
    (hapa : l.Pairwise fun r t => Apart r.1 r.2 t.1 t.2) (hin : ∀ r ∈ l, r.1 + r.2 ≤ m) :
    (l.map Prod.snd).sum ≤ m := by
  -- the addresses of the ranges
  have hset : ∃ F : Finset ℕ, F.card = (l.map Prod.snd).sum ∧
      ∀ y ∈ F, ∃ r ∈ l, r.1 ≤ y ∧ y < r.1 + r.2 := by
    clear hin
    induction l with
    | nil => exact ⟨∅, rfl, fun y hy => absurd hy (Finset.notMem_empty y)⟩
    | cons r l ih =>
      obtain ⟨hr, hl⟩ := pairwise_cons.mp hapa
      obtain ⟨F, hcard, hF⟩ := ih hl
      have hdis : Disjoint (Finset.Ico r.1 (r.1 + r.2)) F := by
        rw [Finset.disjoint_left]
        intro y hy hyF
        obtain ⟨t, ht, hyt⟩ := hF y hyF
        exact (hr t ht).not_mem (Finset.mem_Ico.mp hy) hyt
      refine ⟨Finset.Ico r.1 (r.1 + r.2) ∪ F, ?_, fun y hy => ?_⟩
      · rw [Finset.card_union_of_disjoint hdis, hcard, Nat.card_Ico, map_cons, sum_cons]
        omega
      · rcases Finset.mem_union.mp hy with hy | hy
        · exact ⟨r, mem_cons_self, Finset.mem_Ico.mp hy⟩
        · obtain ⟨t, ht, hyt⟩ := hF y hy
          exact ⟨t, mem_cons_of_mem r ht, hyt⟩
  obtain ⟨F, hcard, hF⟩ := hset
  have hsub : F ⊆ Finset.range m := by
    intro y hy
    obtain ⟨r, hr, -, hlt⟩ := hF y hy
    have hle := hin r hr
    exact Finset.mem_range.mpr (by omega)
  have hle := Finset.card_le_card hsub
  rw [hcard, Finset.card_range] at hle
  exact hle

/-! ## Reading and writing -/

def load (m : Memory) (a : ℕ) : ℕ → ℕ
  | 0 => 0
  | n + 1 => (m a).toNat + 256 * load m (a + 1) n

def store (m : Memory) (a n v : ℕ) : Memory := fun x =>
  if a ≤ x ∧ x < a + n then UInt8.ofNat (v / 256 ^ (x - a)) else m x

/-- `memset`. -/
def fill (m : Memory) (a n : ℕ) (v : UInt8) : Memory := fun x =>
  if a ≤ x ∧ x < a + n then v else m x

/-- `memcpy`. -/
def copy (m : Memory) (dst src n : ℕ) : Memory := fun x =>
  if dst ≤ x ∧ x < dst + n then m (src + (x - dst)) else m x

def Keeps (m m' : Memory) (a n : ℕ) : Prop := ∀ x, ¬ (a ≤ x ∧ x < a + n) → m' x = m x

theorem keeps_store (m : Memory) (a n v : ℕ) : Keeps m (store m a n v) a n := by
  intro x hx
  simp only [store, if_neg hx]

theorem keeps_fill (m : Memory) (a n : ℕ) (v : UInt8) : Keeps m (fill m a n v) a n := by
  intro x hx
  simp only [fill, if_neg hx]

theorem keeps_copy (m : Memory) (dst src n : ℕ) : Keeps m (copy m dst src n) dst n := by
  intro x hx
  simp only [copy, if_neg hx]

theorem Keeps.trans {m m'' : Memory} (h : Keeps m m' a n) (h' : Keeps m' m'' a n) :
    Keeps m m'' a n :=
  fun x hx => (h' x hx).trans (h x hx)

theorem Keeps.widen {m : Memory} (h : Keeps m m' a n) (hb : b ≤ a)
    (hk : a + n ≤ b + k) : Keeps m m' b k := by
  intro x hx
  refine h x fun hin => hx ⟨hb.trans hin.1, lt_of_lt_of_le hin.2 hk⟩

theorem load_congr {m : Memory} :
    ∀ {n a : ℕ}, (∀ x, a ≤ x → x < a + n → m' x = m x) → load m' a n = load m a n
  | 0, _, _ => rfl
  | n + 1, a, h => by
    have hrest : load m' (a + 1) n = load m (a + 1) n :=
      load_congr fun x hx hlt => h x (by omega) (by omega)
    rw [load, load, hrest, h a le_rfl (by omega)]

theorem Keeps.load {m : Memory} (h : Keeps m m' a n) (hd : Apart a n b k) :
    load m' b k = load m b k :=
  load_congr fun x hx hlt => h x (hd.symm.not_mem ⟨hx, hlt⟩)

theorem load_store (m : Memory) : ∀ (n a v : ℕ), load (store m a n v) a n = v % 256 ^ n
  | 0, a, v => by simp [load, Nat.mod_one]
  | n + 1, a, v => by
    -- the bytes above the first are those of `v / 256`
    have hrest : load (store m a (n + 1) v) (a + 1) n = load (store m (a + 1) n (v / 256)) (a + 1) n := by
      refine load_congr fun x hx hlt => ?_
      have hexp : x - a = (x - (a + 1)) + 1 := by omega
      simp only [store]
      rw [if_pos (by omega), if_pos (by omega), hexp, pow_succ', Nat.div_div_eq_div_mul]
    have hfir : (store m a (n + 1) v a).toNat = v % 256 := by simp [store]
    rw [load, hrest, load_store m n, hfir, pow_succ', Nat.mod_mul]

theorem load_store_word (m : Memory) (a : ℕ) {v : ℕ} (hv : v < 2 ^ 64) :
    load (store m a 8 v) a 8 = v := by
  rw [load_store, Nat.mod_eq_of_lt]
  exact hv

end Veloco.Bytes
