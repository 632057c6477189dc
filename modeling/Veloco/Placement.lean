import Mathlib.Data.List.Lattice
import Mathlib.Data.List.Perm.Subperm
import Mathlib.Tactic

/-!
# Items that are in at most one place
-/

namespace Veloco.Placement

open Function List

variable {κ ι : Type*}

variable {c c' : κ → List ι} {ks : List κ} {x : ι} {old : Option κ}

structure Exclusive (c : κ → List ι) : Prop where
  nodup : ∀ k, (c k).Nodup
  unique : ∀ {x k l}, x ∈ c k → x ∈ c l → k = l

def Absent (c : κ → List ι) (x : ι) : Prop := ∀ k, x ∉ c k

theorem Exclusive.flatMap_nodup (h : Exclusive c)
    (hks : ks.Nodup) : (ks.flatMap c).Nodup := by
  rw [nodup_flatMap]
  refine ⟨fun k _ => h.nodup k, hks.imp ?_⟩
  intro k l hkl x hk hl
  exact hkl (h.unique hk hl)

theorem Exclusive.extend (h : Exclusive c) {new : List ι}
    (hks : ks.Nodup) (hnew : new.Nodup) (habs : ∀ x ∈ new, Absent c x)
    (hout : ∀ k, k ∉ ks → c' k = c k) (hsub : (ks.flatMap c').Subperm (new ++ ks.flatMap c)) :
    Exclusive c' := by
  have hnd : (new ++ ks.flatMap c).Nodup := by
    rw [nodup_append]
    refine ⟨hnew, h.flatMap_nodup hks, ?_⟩
    rintro x hx y hy rfl
    obtain ⟨k, -, hk⟩ := mem_flatMap.mp hy
    exact habs x hx k hk
  have hnd' : (ks.flatMap c').Nodup := by
    obtain ⟨l, hl, hs⟩ := hsub
    exact hl.nodup_iff.mp (hs.nodup hnd)
  rw [nodup_flatMap] at hnd'
  -- an item of a touched place is not in an untouched one
  have hcross : ∀ {x k l}, k ∈ ks → l ∉ ks → x ∈ c' k → x ∈ c' l → False := by
    intro x k l hk hl hxk hxl
    rw [hout l hl] at hxl
    have hx : x ∈ new ++ ks.flatMap c := hsub.subset (mem_flatMap.mpr ⟨k, hk, hxk⟩)
    rcases mem_append.mp hx with hx | hx
    · exact habs x hx l hxl
    · obtain ⟨m, hm, hxm⟩ := mem_flatMap.mp hx
      exact hl (h.unique hxm hxl ▸ hm)
  refine ⟨fun k => ?_, fun {x k l} hk hl => ?_⟩
  · by_cases hk : k ∈ ks
    · exact hnd'.1 k hk
    · rw [hout k hk]
      exact h.nodup k
  · by_cases hkk : k ∈ ks <;> by_cases hll : l ∈ ks
    · by_contra hne
      have hsymm : Std.Symm (Function.onFun List.Disjoint c') := ⟨fun _ _ hd => List.Disjoint.symm hd⟩
      exact hnd'.2.forall hkk hll hne hk hl
    · exact (hcross hkk hll hk hl).elim
    · exact (hcross hll hkk hl hk).elim
    · rw [hout k hkk] at hk
      rw [hout l hll] at hl
      exact h.unique hk hl

theorem Exclusive.reshuffle (h : Exclusive c) (hks : ks.Nodup)
    (hout : ∀ k, k ∉ ks → c' k = c k) (hsub : (ks.flatMap c').Subperm (ks.flatMap c)) :
    Exclusive c' := by
  refine h.extend hks nodup_nil ?_ hout hsub
  simp

theorem exists_mem_iff {new : List ι}
    (hout : ∀ k, k ∉ ks → c' k = c k) (hperm : (ks.flatMap c').Perm (new ++ ks.flatMap c)) (x : ι) :
    (∃ k, x ∈ c' k) ↔ x ∈ new ∨ ∃ k, x ∈ c k := by
  have hmem : x ∈ ks.flatMap c' ↔ x ∈ new ∨ x ∈ ks.flatMap c := by
    rw [hperm.mem_iff, mem_append]
  simp only [mem_flatMap] at hmem
  constructor
  · rintro ⟨k, hk⟩
    by_cases hkk : k ∈ ks
    · rcases hmem.mp ⟨k, hkk, hk⟩ with hx | ⟨l, -, hl⟩
      · exact Or.inl hx
      · exact Or.inr ⟨l, hl⟩
    · exact Or.inr ⟨k, by rw [← hout k hkk]; exact hk⟩
  · rintro (hx | ⟨k, hk⟩)
    · obtain ⟨l, -, hl⟩ := hmem.mpr (Or.inl hx)
      exact ⟨l, hl⟩
    · by_cases hkk : k ∈ ks
      · obtain ⟨l, -, hl⟩ := hmem.mpr (Or.inr ⟨k, hkk, hk⟩)
        exact ⟨l, hl⟩
      · exact ⟨k, by rw [hout k hkk]; exact hk⟩

section Relocate

variable [DecidableEq κ] [DecidableEq ι]

def relocate (c : κ → List ι) (x : ι) (old new : Option κ) : κ → List ι := fun k =>
  (if old = some k then (c k).erase x else c k) ++ (if new = some k then [x] else [])

theorem mem_relocate_of_ne {y : ι} {new : Option κ} (hne : y ≠ x) (k : κ) :
    y ∈ relocate c x old new k ↔ y ∈ c k := by
  unfold relocate
  split_ifs <;> simp [hne, mem_erase_of_ne hne]

theorem mem_relocate_self {new : Option κ} (h : Exclusive c)
    (hold : ∀ k, x ∈ c k → old = some k) (k : κ) :
    x ∈ relocate c x old new k ↔ new = some k := by
  have hout : x ∉ if old = some k then (c k).erase x else c k := by
    split_ifs with hk
    · exact (h.nodup k).not_mem_erase
    · exact fun hx => hk (hold k hx)
  unfold relocate
  rw [mem_append]
  split_ifs at hout ⊢ <;> simp_all

theorem Exclusive.relocate {new : Option κ} (h : Exclusive c)
    (hold : ∀ k, x ∈ c k → old = some k) : Exclusive (relocate c x old new) := by
  refine ⟨fun k => ?_, fun {y k l} hk hl => ?_⟩
  · have hleft : (if old = some k then (c k).erase x else c k).Nodup ∧
        x ∉ if old = some k then (c k).erase x else c k := by
      split_ifs with hk
      · exact ⟨(h.nodup k).erase x, (h.nodup k).not_mem_erase⟩
      · exact ⟨h.nodup k, fun hx => hk (hold k hx)⟩
    unfold Placement.relocate
    rw [nodup_append]
    refine ⟨hleft.1, by split_ifs <;> simp, ?_⟩
    rintro y hy z hz rfl
    split_ifs at hz
    · exact hleft.2 (mem_singleton.mp hz ▸ hy)
    · simp at hz
  · by_cases hy : y = x
    · subst hy
      rw [mem_relocate_self h hold] at hk hl
      exact Option.some.inj (hk.symm.trans hl)
    · rw [mem_relocate_of_ne hy] at hk hl
      exact h.unique hk hl

theorem relocate_leave (c : κ → List ι) (x : ι) (a : κ) :
    relocate c x (some a) none = update c a ((c a).erase x) := by
  funext k
  by_cases hk : k = a
  · simp [Placement.relocate, hk]
  · simp [Placement.relocate, hk, Ne.symm hk]

theorem relocate_enter (c : κ → List ι) (x : ι) (b : κ) :
    relocate c x none (some b) = update c b (c b ++ [x]) := by
  funext k
  by_cases hk : k = b
  · simp [Placement.relocate, hk]
  · simp [Placement.relocate, hk, Ne.symm hk]

theorem relocate_move (c : κ → List ι) (x : ι) {a b : κ} (hab : a ≠ b) :
    relocate c x (some a) (some b) =
      update (update c a ((c a).erase x)) b (c b ++ [x]) := by
  funext k
  by_cases hkb : k = b
  · simp [Placement.relocate, hkb, hab]
  · by_cases hka : k = a
    · simp [Placement.relocate, hka, hab, hab.symm]
    · simp [Placement.relocate, hka, hkb, Ne.symm hka, Ne.symm hkb]

theorem relocate_rotate (c : κ → List ι) (x : ι) (a : κ) :
    relocate c x (some a) (some a) = update c a ((c a).erase x ++ [x]) := by
  funext k
  by_cases hk : k = a
  · simp [Placement.relocate, hk]
  · simp [Placement.relocate, hk, Ne.symm hk]

end Relocate

end Veloco.Placement
