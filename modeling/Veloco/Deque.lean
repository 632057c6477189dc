import Mathlib.Data.List.Perm.Subperm
import Mathlib.Tactic

/-!
# Sequential histories of a work-stealing deque
-/

namespace Veloco.Deque

open List

variable {ε : Type*}

inductive Event (ε : Type*) where
  | push (e : ε)
  | steal (e : ε)
  | pop (e : ε)

inductive Replay : List (Event ε) → List ε → Prop where
  | nil : Replay [] []
  | push {h l} (e : ε) : Replay h l → Replay (h ++ [.push e]) (l ++ [e])
  | steal {h l} (e : ε) : Replay h (e :: l) → Replay (h ++ [.steal e]) l
  | pop {h l} (e : ε) : Replay h (l ++ [e]) → Replay (h ++ [.pop e]) l

def Event.pushed : Event ε → Option ε
  | .push e => some e
  | _ => none

def Event.taken : Event ε → Option ε
  | .push _ => none
  | .steal e => some e
  | .pop e => some e

def pushes (h : List (Event ε)) : List ε := h.filterMap Event.pushed

def takes (h : List (Event ε)) : List ε := h.filterMap Event.taken

@[simp] theorem pushes_push (h : List (Event ε)) (e : ε) :
    pushes (h ++ [.push e]) = pushes h ++ [e] := by simp [pushes, Event.pushed]

@[simp] theorem pushes_steal (h : List (Event ε)) (e : ε) :
    pushes (h ++ [.steal e]) = pushes h := by simp [pushes, Event.pushed]

@[simp] theorem pushes_pop (h : List (Event ε)) (e : ε) :
    pushes (h ++ [.pop e]) = pushes h := by simp [pushes, Event.pushed]

@[simp] theorem takes_push (h : List (Event ε)) (e : ε) :
    takes (h ++ [.push e]) = takes h := by simp [takes, Event.taken]

@[simp] theorem takes_steal (h : List (Event ε)) (e : ε) :
    takes (h ++ [.steal e]) = takes h ++ [e] := by simp [takes, Event.taken]

@[simp] theorem takes_pop (h : List (Event ε)) (e : ε) :
    takes (h ++ [.pop e]) = takes h ++ [e] := by simp [takes, Event.taken]

theorem Replay.perm {h : List (Event ε)} {l : List ε} (hr : Replay h l) :
    (takes h ++ l).Perm (pushes h) := by
  induction hr with
  | nil => exact List.Perm.nil
  | push e _ ih =>
    rw [takes_push, pushes_push, ← append_assoc]
    exact ih.append_right _
  | steal e _ ih =>
    rw [takes_steal, pushes_steal, append_assoc]
    exact ih
  | @pop h l e _ ih =>
    rw [takes_pop, pushes_pop, append_assoc]
    have hcomm : ([e] ++ l).Perm (l ++ [e]) := perm_append_comm
    exact (hcomm.append_left _).trans ih

theorem Replay.sublist {h : List (Event ε)} {l : List ε} (hr : Replay h l) :
    l.Sublist (pushes h) := by
  induction hr with
  | nil => exact List.Sublist.slnil
  | push e _ ih =>
    rw [pushes_push]
    exact ih.append_right _
  | steal e _ ih =>
    rw [pushes_steal]
    exact (sublist_cons_self _ _).trans ih
  | pop e _ ih =>
    rw [pushes_pop]
    exact (sublist_append_left _ _).trans ih

theorem Replay.eq_filter [DecidableEq ε] {h : List (Event ε)} {l : List ε} (hr : Replay h l)
    (hnd : (pushes h).Nodup) : l = (pushes h).filter fun e => e ∉ takes h := by
  have hp := hr.perm
  have hnd' : (takes h ++ l).Nodup := hp.nodup_iff.mpr hnd
  have hdis := (nodup_append.mp hnd').2.2
  have hl : l = l.filter fun e => e ∉ takes h := by
    rw [eq_comm, filter_eq_self]
    intro e he
    simp only [decide_eq_true_eq]
    exact fun ht => hdis e ht e he rfl
  rw [hl]
  refine List.Sublist.eq_of_length_le ((hr.sublist).filter _) ?_
  -- both sides list the untaken pushes once
  have hc := (hp.filter fun e => e ∉ takes h).length_eq
  rw [filter_append] at hc
  have h0 : (takes h).filter (fun e => e ∉ takes h) = [] := by
    rw [filter_eq_nil_iff]
    intro e he
    simp [he]
  rw [h0, nil_append] at hc
  exact hc.ge

end Veloco.Deque
