import Mathlib.Tactic

/-!
# Every item has its place
-/

namespace Veloco.Ledger

open Function List

variable {ι κ : Type*}

structure Located (S : ι → Prop) (loc : ι → κ) (c : κ → List ι) : Prop where
  nodup : ∀ k, (c k).Nodup
  mem : ∀ k x, x ∈ c k ↔ S x ∧ loc x = k

namespace Located

variable {S T : ι → Prop} {loc : ι → κ} {c : κ → List ι} {x : ι} {k : κ}

theorem congr (h : Located S loc c) (hST : ∀ x, T x ↔ S x) : Located T loc c :=
  ⟨h.nodup, fun k x => by rw [h.mem, hST]⟩

end Located

section Moves

variable [DecidableEq κ]

namespace Located

variable {S T : ι → Prop} {loc : ι → κ} {c : κ → List ι} {k : κ}

theorem extend (h : Located S loc c) {loc' : ι → κ} {new : List ι} (hnew : new.Nodup)
    (hempty : c k = []) (hT : ∀ x, T x ↔ x ∈ new ∨ S x)
    (hloc : ∀ x ∈ new, loc' x = k) (hsm : ∀ x, S x → loc' x = loc x) :
    Located T loc' (update c k new) := by
  have hnn : ∀ x, S x → loc x ≠ k := by
    intro x hx heq
    have hmem := (h.mem k x).mpr ⟨hx, heq⟩
    simp [hempty] at hmem
  refine ⟨fun q => ?_, fun q x => ?_⟩
  · by_cases hq : q = k
    · rw [hq, update_self]
      exact hnew
    · rw [update_of_ne hq]
      exact h.nodup q
  · by_cases hq : q = k
    · rw [hq, update_self, hT]
      refine ⟨fun hx => ⟨Or.inl hx, hloc x hx⟩, ?_⟩
      rintro ⟨hx | hx, heq⟩
      · exact hx
      · exact (hnn x hx ((hsm x hx).symm.trans heq)).elim
    · rw [update_of_ne hq, h.mem, hT]
      constructor
      · rintro ⟨hx, heq⟩
        exact ⟨Or.inr hx, (hsm x hx).trans heq⟩
      · rintro ⟨hx | hx, heq⟩
        · exact (hq (heq.symm.trans (hloc x hx))).elim
        · exact ⟨hx, (hsm x hx).symm.trans heq⟩

theorem discard (h : Located S loc c) (hT : ∀ x, T x ↔ S x ∧ loc x ≠ k) :
    Located T loc (update c k []) := by
  refine ⟨fun q => ?_, fun q x => ?_⟩
  · by_cases hq : q = k
    · rw [hq, update_self]
      exact nodup_nil
    · rw [update_of_ne hq]
      exact h.nodup q
  · by_cases hq : q = k
    · rw [hq, update_self, hT]
      simp
    · rw [update_of_ne hq, h.mem, hT]
      constructor
      · rintro ⟨hx, heq⟩
        exact ⟨⟨hx, fun hk => hq (heq.symm.trans hk)⟩, heq⟩
      · rintro ⟨⟨hx, -⟩, heq⟩
        exact ⟨hx, heq⟩

end Located

variable [DecidableEq ι]

def bring (c : κ → List ι) (x : ι) (k : κ) : κ → List ι := fun q =>
  if q = k then x :: c q else (c q).erase x

@[simp] theorem bring_self (c : κ → List ι) (x : ι) (k : κ) : bring c x k k = x :: c k := by
  simp [bring]

theorem bring_of_ne (c : κ → List ι) (x : ι) {k q : κ} (hq : q ≠ k) :
    bring c x k q = (c q).erase x := by
  simp [bring, hq]

theorem bring_pop {c : κ → List ι} {x : ι} {l : List ι} {k q : κ} (hq : q ≠ k)
    (hc : c q = x :: l) : bring c x k q = l := by
  rw [bring_of_ne c x hq, hc, erase_cons_head]

namespace Located

variable {S : ι → Prop} {loc : ι → κ} {c : κ → List ι} {x : ι} {k : κ}

theorem bring_other (h : Located S loc c) {q : κ} (hq : q ≠ k) (hold : q ≠ loc x) :
    bring c x k q = c q := by
  rw [bring_of_ne c x hq, erase_of_not_mem]
  exact fun hx => hold ((h.mem q x).mp hx).2.symm

theorem move (h : Located S loc c) (hx : S x) (hk : loc x ≠ k) :
    Located S (update loc x k) (bring c x k) := by
  have hnot : x ∉ c k := fun hx => hk ((h.mem k x).mp hx).2
  refine ⟨fun q => ?_, fun q y => ?_⟩
  · by_cases hq : q = k
    · subst hq
      rw [bring_self]
      exact nodup_cons.mpr ⟨hnot, h.nodup q⟩
    · rw [bring_of_ne c x hq]
      exact (h.nodup q).erase x
  · by_cases hy : y = x
    · subst hy
      rw [update_self]
      by_cases hq : q = k
      · simp [hq, hx]
      · rw [bring_of_ne c y hq]
        simp [(h.nodup q).not_mem_erase, Ne.symm hq]
    · rw [update_of_ne hy, ← h.mem q y]
      by_cases hq : q = k
      · simp [hq, hy]
      · rw [bring_of_ne c x hq, mem_erase_of_ne hy]

end Located

end Moves

def tally (l : List ι) (loc : ι → κ) (p : κ → Bool) : ℕ := l.countP fun x => p (loc x)

theorem tally_congr {l : List ι} {loc loc' : ι → κ} {p : κ → Bool}
    (h : ∀ x ∈ l, loc' x = loc x) : tally l loc' p = tally l loc p :=
  countP_congr fun x hx => by simp [h x hx]

theorem tally_le (l : List ι) (loc : ι → κ) (p : κ → Bool) : tally l loc p ≤ l.length :=
  countP_le_length

theorem tally_pos {l : List ι} {loc : ι → κ} {p : κ → Bool} {x : ι} (hx : x ∈ l)
    (hp : p (loc x) = true) : 0 < tally l loc p :=
  countP_pos_iff.mpr ⟨x, hx, hp⟩

theorem tally_lt {l : List ι} {loc : ι → κ} {p : κ → Bool} {x : ι} (hx : x ∈ l)
    (hp : p (loc x) = false) : tally l loc p < l.length := by
  refine lt_of_le_of_ne (tally_le l loc p) fun heq => ?_
  have hall := countP_eq_length.mp heq x hx
  simp [hp] at hall

theorem tally_move [DecidableEq ι] {l : List ι} (hl : l.Nodup) (loc : ι → κ) (p : κ → Bool) {x : ι} (hx : x ∈ l)
    (k : κ) : tally l (update loc x k) p + (p (loc x)).toNat =
      tally l loc p + (p k).toNat := by
  induction l with
  | nil => simp at hx
  | cons y l ih =>
    obtain ⟨hy, hl⟩ := nodup_cons.mp hl
    have hcn : ∀ f : ι → κ, tally (y :: l) f p = tally l f p + (p (f y)).toNat := by
      intro f
      cases hp : p (f y) <;> simp [tally, hp]
    rw [hcn, hcn]
    rcases mem_cons.mp hx with rfl | hx
    · have hrs : tally l (update loc x k) p = tally l loc p :=
        tally_congr fun z hz => update_of_ne (fun heq : z = x => hy (heq ▸ hz)) k loc
      rw [hrs, update_self]
      omega
    · have hne : y ≠ x := fun heq => hy (heq ▸ hx)
      have ih := ih hl hx
      rw [update_of_ne hne]
      omega

theorem tally_add {l : List ι} {loc : ι → κ} {p q r : κ → Bool}
    (h : ∀ x ∈ l, (p (loc x)).toNat + (q (loc x)).toNat + (r (loc x)).toNat = 1) :
    tally l loc p + tally l loc q + tally l loc r = l.length := by
  induction l with
  | nil => rfl
  | cons y l ih =>
    have ih := ih fun x hx => h x (mem_cons_of_mem y hx)
    have hy := h y mem_cons_self
    have hcn : ∀ f : κ → Bool, tally (y :: l) loc f = tally l loc f + (f (loc y)).toNat := by
      intro f
      cases hp : f (loc y) <;> simp [tally, hp]
    rw [hcn, hcn, hcn, length_cons]
    omega

theorem forall_of_tally_eq {l : List ι} {loc : ι → κ} {p : κ → Bool}
    (h : tally l loc p = l.length) : ∀ x ∈ l, p (loc x) = true :=
  countP_eq_length.mp h

end Veloco.Ledger
