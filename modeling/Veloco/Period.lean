import Veloco.Trans
import Mathlib.Order.Basic

/-!
# Stamps that identify periods
-/

namespace Veloco.Period

variable {σ ι α : Type*} [Preorder α] {step : σ → ι → Option σ} {isOpen : σ → Prop} {stamp : σ → α}

inductive Turn (isOpen : σ → Prop) (stamp : σ → α) (s t : σ) : Prop where
  | same (isOpen : isOpen t ↔ isOpen s) (stamp : stamp t = stamp s)
  | opens (before : ¬ isOpen s) (after : isOpen t) (stamp : stamp s < stamp t)
  | closes (before : isOpen s) (after : ¬ isOpen t) (stamp : stamp s ≤ stamp t)

theorem Turn.le {s t : σ} (h : Turn isOpen stamp s t) : stamp s ≤ stamp t := by
  cases h with
  | same _ hstamp => exact hstamp.ge
  | opens _ _ hstamp => exact hstamp.le
  | closes _ _ hstamp => exact hstamp

theorem Turn.stamp_eq {s t : σ} (h : Turn isOpen stamp s t) (hs : isOpen s) (ht : isOpen t) :
    stamp t = stamp s := by
  cases h with
  | same _ hstamp => exact hstamp
  | opens hbef _ _ => exact absurd hs hbef
  | closes _ haft _ => exact absurd ht haft

section Runs

variable {inv : σ → Prop} {as bs : List ι} {s t u : σ}

structure Turns (step : σ → ι → Option σ) (inv : σ → Prop) (isOpen : σ → Prop) (stamp : σ → α) :
    Prop where
  keeps : ∀ s a t, step s a = some t → inv s → inv t
  turn : ∀ s a t, step s a = some t → inv s → Turn isOpen stamp s t

theorem Turns.run_le (h : Turns step inv isOpen stamp) (hs : inv s)
    (hrun : Trans.run step s as = some t) : stamp s ≤ stamp t := by
  have hend : inv t ∧ stamp s ≤ stamp t := by
    refine Trans.run_invariant (I := fun u => inv u ∧ stamp s ≤ stamp u) (fun u a v hst hu => ?_) hrun
      ⟨hs, le_rfl⟩
    exact ⟨h.keeps u a v hst hu.1, hu.2.trans (h.turn u a v hst hu.1).le⟩
  exact hend.2

theorem Turns.run_lt (h : Turns step inv isOpen stamp) (hs : inv s) (hclo : ¬ isOpen s)
    (hrun : Trans.run step s as = some t) (hopen : isOpen t) : stamp s < stamp t := by
  -- until it is opened the stamp may stay, from then on it is larger
  have hend : inv t ∧ stamp s ≤ stamp t ∧ (isOpen t → stamp s < stamp t) := by
    refine Trans.run_invariant (I := fun u => inv u ∧ stamp s ≤ stamp u ∧ (isOpen u → stamp s < stamp u))
      (fun u a v hst hu => ?_) hrun ⟨hs, le_rfl, fun ho => absurd ho hclo⟩
    obtain ⟨hinv, hle, hlt⟩ := hu
    have hturn := h.turn u a v hst hinv
    refine ⟨h.keeps u a v hst hinv, hle.trans hturn.le, fun hv => ?_⟩
    cases hturn with
    | same hiff hstamp =>
      rw [hstamp]
      exact hlt (hiff.mp hv)
    | opens _ _ hstamp => exact hle.trans_lt hstamp
    | closes _ haft _ => exact absurd hv haft
  exact hend.2.2 hopen

theorem Turns.run_ne (h : Turns step inv isOpen stamp) (hs : inv s)
    (hrun : Trans.run step s as = some t) (hrun' : Trans.run step t bs = some u)
    (hclo : ¬ isOpen t) (hopen : isOpen u) : stamp u ≠ stamp s := by
  have ht : inv t := Trans.run_invariant (fun s a t hst hi => h.keeps s a t hst hi) hrun hs
  have hlt : stamp s < stamp u := (h.run_le hs hrun).trans_lt (h.run_lt ht hclo hrun' hopen)
  exact fun heq => lt_irrefl (stamp s) (heq ▸ hlt)

end Runs

end Veloco.Period
