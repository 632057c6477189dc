import Mathlib.Data.List.Basic
import Mathlib.Data.List.Induction

/-!
# Runs of a partial step function
-/

namespace Veloco.Trans

open List Option

variable {σ ι : Type*} (step : σ → ι → Option σ)

variable {C D : σ → ι → Prop} {as bs : List ι} {s t : σ}

def run : σ → List ι → Option σ
  | s, [] => some s
  | s, a :: as => (step s a).bind fun t => run t as

def Meets (C : σ → ι → Prop) : σ → List ι → Prop
  | _, [] => True
  | s, a :: as => C s a ∧ ∀ t, step s a = some t → Meets C t as

def checks (c : σ → ι → Bool) : σ → List ι → Bool
  | _, [] => true
  | s, a :: as => c s a && (step s a).all fun t => checks c t as

variable {step}

@[simp] theorem run_nil (s : σ) : run step s [] = some s := rfl

theorem run_cons (s : σ) (a : ι) (as : List ι) :
    run step s (a :: as) = (step s a).bind fun t => run step t as := rfl

theorem run_append (s : σ) (as bs : List ι) :
    run step s (as ++ bs) = (run step s as).bind fun t => run step t bs := by
  induction as generalizing s with
  | nil => rfl
  | cons a as ih =>
    simp only [cons_append, run_cons]
    cases step s a with
    | none => rfl
    | some t => exact ih t

theorem Meets.imp (hCD : ∀ s a, C s a → D s a) :
    ∀ {as : List ι} {s : σ}, Meets step C s as → Meets step D s as
  | [], _, _ => trivial
  | a :: _, s, h => ⟨hCD s a h.1, fun t ht => (h.2 t ht).imp hCD⟩

theorem Meets.and : ∀ {as : List ι} {s : σ}, Meets step C s as →
    Meets step D s as → Meets step (fun s a => C s a ∧ D s a) s as
  | [], _, _, _ => trivial
  | _ :: _, _, hC, hD => ⟨⟨hC.1, hD.1⟩, fun t ht => (hC.2 t ht).and (hD.2 t ht)⟩

theorem meets_of_forall :
    ∀ {as : List ι}, (∀ a ∈ as, ∀ s, C s a) → ∀ s, Meets step C s as
  | [], _, _ => trivial
  | a :: _, h, s => ⟨h a mem_cons_self s,
      fun t _ => meets_of_forall (fun b hb => h b (mem_cons_of_mem a hb)) t⟩

theorem meets_of_checks {c : σ → ι → Bool} (hc : ∀ s a, c s a = true → C s a) :
    ∀ {as : List ι} {s : σ}, checks step c s as = true → Meets step C s as
  | [], _, _ => trivial
  | a :: _, s, h => by
    simp only [checks, Bool.and_eq_true] at h
    refine ⟨hc s a h.1, fun t ht => meets_of_checks hc ?_⟩
    rw [ht] at h
    exact h.2

theorem Meets.of_append :
    ∀ {as bs : List ι} {s : σ}, Meets step C s (as ++ bs) →
      Meets step C s as ∧ ∀ t, run step s as = some t → Meets step C t bs
  | [], _, s, h => ⟨trivial, fun t ht => some.inj ht ▸ h⟩
  | a :: as, _, s, h => by
    refine ⟨⟨h.1, fun t ht => (h.2 t ht).of_append.1⟩, fun u hu => ?_⟩
    obtain ⟨t, ht, hrest⟩ := bind_eq_some_iff.mp hu
    exact (h.2 t ht).of_append.2 u hrest

theorem Meets.append :
    ∀ {as bs : List ι} {s : σ}, Meets step C s as →
      (∀ t, run step s as = some t → Meets step C t bs) → Meets step C s (as ++ bs)
  | [], _, s, _, hb => hb s rfl
  | _ :: _, _, _, h, hb => ⟨h.1, fun t ht => (h.2 t ht).append fun u hu => hb u (by
      rw [run_cons, ht]
      exact hu)⟩

theorem run_invariant {I : σ → Prop} (hstep : ∀ s a t, step s a = some t → I s → I t) :
    ∀ {as : List ι} {s t : σ}, run step s as = some t → I s → I t
  | [], s, t, h, hs => by
    simp only [run_nil, some.injEq] at h
    exact h ▸ hs
  | a :: as, s, t, h, hs => by
    rw [run_cons, bind_eq_some_iff] at h
    obtain ⟨u, hu, h⟩ := h
    exact run_invariant hstep h (hstep s a u hu hs)

theorem run_invariant_of_meets {I : σ → Prop}
    (hstep : ∀ s a t, step s a = some t → C s a → I s → I t) :
    ∀ {as : List ι} {s t : σ}, run step s as = some t → Meets step C s as → I s → I t
  | [], s, t, h, _, hs => by
    simp only [run_nil, some.injEq] at h
    exact h ▸ hs
  | a :: as, s, t, h, hc, hs => by
    rw [run_cons, bind_eq_some_iff] at h
    obtain ⟨u, hu, h⟩ := h
    exact run_invariant_of_meets hstep h (hc.2 u hu) (hstep s a u hu hc.1 hs)

theorem run_history {I : List ι → σ → Prop} (h0 : I [] s)
    (hstep : ∀ as s a t, step s a = some t → I as s → I (as ++ [a]) t)
    (hrun : run step s as = some t) : I as t := by
  induction as using List.reverseRecOn generalizing t with
  | nil =>
    obtain rfl : s = t := some.inj hrun
    exact h0
  | append_singleton as a ih =>
    rw [run_append, bind_eq_some_iff] at hrun
    obtain ⟨u, hu, ha⟩ := hrun
    rw [run_cons, bind_eq_some_iff] at ha
    obtain ⟨t', ht', heq⟩ := ha
    obtain rfl : t' = t := some.inj heq
    exact hstep as u a t' ht' (ih hu)

end Veloco.Trans
