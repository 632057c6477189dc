import Veloco.Sched.Objects

/-!
# What the steps of the system do to a channel
-/

namespace Veloco.Sched

open Function
open Veloco.Placement

variable {r r' : Runtime} {p : PId} {t w : TaskId} {s s' : System} {q : WaitQueue} {c : ℕ}

structure SameChannel (c : ℕ) (s s' : System) : Prop where
  channel : s'.channel c = s.channel c
  senders : s'.rt.waiters (.senders c) = s.rt.waiters (.senders c)
  receivers : s'.rt.waiters (.receivers c) = s.rt.waiters (.receivers c)
  wait : ∀ t, t ∈ s.rt.waiters (.senders c) ∨ t ∈ s.rt.waiters (.receivers c) → s'.wait t = s.wait t

theorem SameChannel.refl (c : ℕ) (s : System) : SameChannel c s s := ⟨rfl, rfl, rfl, fun _ _ => rfl⟩

theorem SameChannel.of_sameAt (hs : SameAt (.senders c) s s') (hr : SameAt (.receivers c) s s') :
    SameChannel c s s' :=
  ⟨hs.data, hs.waiters, hr.waiters, fun t ht => ht.elim (hs.wait t) (hr.wait t)⟩

def Call.on (c : ℕ) : Call → Bool
  | .channelSend c' _ | .channelReceive c' _ => c' = c
  | _ => false

def FreeCall.on (c : ℕ) : FreeCall → Bool
  | .channelClose c' => c' = c
  | _ => false

def Action.on (c : ℕ) : Action → Bool
  | .call _ k => k.on c
  | .free k => k.on c
  | _ => false

theorem Action.touches_of_on {a : Action} (ha : a.on c = false) :
    a.touches (.senders c) = false ∧ a.touches (.receivers c) = false := by
  cases a with
  | call p call =>
    cases call with
    | channelSend c' value | channelReceive c' out =>
      have hne : c ≠ c' := Ne.symm (of_decide_eq_false ha)
      simp [Action.touches, Call.touches, hne]
    | _ => simp [Action.touches, Call.touches]
  | free call =>
    cases call with
    | channelClose c' =>
      have hne : c ≠ c' := Ne.symm (of_decide_eq_false ha)
      simp [Action.touches, FreeCall.touches, hne]
    | _ => simp [Action.touches, FreeCall.touches]
  | worker | owner => exact ⟨rfl, rfl⟩

theorem sameChannel_step {a : Action} (h : Inv s.rt) (ha : a.on c = false)
    (hst : step s a = some s') : SameChannel c s s' := by
  obtain ⟨hs, hr⟩ := Action.touches_of_on ha
  apply SameChannel.of_sameAt
  · exact sameAt_step h (by simp) hs hst
  · exact sameAt_step h (by simp) hr hst

inductive Sends (s : System) (c : ℕ) (t : TaskId) (value : Value) : System → Option Status → Prop
  | closed (hclo : (s.channel c).closed = true) : Sends s c t value s (some .closed)
  | handed {s' : System} {w : TaskId} {rest : List TaskId} (hpn : (s.channel c).closed = false)
      (hq : s.rt.waiters (.receivers c) = w :: rest) (hch : s'.channel = s.channel)
      (hws : s'.rt.waiters = update s.rt.waiters (.receivers c) rest)
      (hwt : s'.wait = update s.wait w { s.wait w with output := none, result := .ok })
      (hmem : ∀ cell, (s.wait w).output = some cell → s'.memory = update s.memory cell value) :
      Sends s c t value s' (some .ok)
  | pushed (hpn : (s.channel c).closed = false) (hq : s.rt.waiters (.receivers c) = [])
      (hrm : (s.channel c).length < (s.channel c).capacity) :
      Sends s c t value (s.setChannel c ((s.channel c).push value)) (some .ok)
  | parked {s' : System} (hpn : (s.channel c).closed = false) (hq : s.rt.waiters (.receivers c) = [])
      (hfl : (s.channel c).capacity ≤ (s.channel c).length) (hch : s'.channel = s.channel)
      (hws : s'.rt.waiters = update s.rt.waiters (.senders c) (s.rt.waiters (.senders c) ++ [t]))
      (hwt : s'.wait = update s.wait t { s.wait t with value := value, result := .ok }) :
      Sends s c t value s' none
  | refused (hfl : (s.channel c).capacity ≤ (s.channel c).length) :
      Sends s c t value s (some .invalidState)

inductive Receives (s : System) (c : ℕ) (t : TaskId) (out : Cell) : System → Option Status → Prop
  | popped (hsm : (s.channel c).length ≠ 0) (hq : s.rt.waiters (.senders c) = []) :
      Receives s c t out ((s.store out (s.channel c).pop.1).setChannel c (s.channel c).pop.2) (some .ok)
  | refilled {s' : System} {w : TaskId} {rest : List TaskId} (hsm : (s.channel c).length ≠ 0)
      (hq : s.rt.waiters (.senders c) = w :: rest)
      (hch : s'.channel = update s.channel c ((s.channel c).pop.2.push (s.wait w).value))
      (hws : s'.rt.waiters = update s.rt.waiters (.senders c) rest)
      (hwt : s'.wait = update s.wait w { s.wait w with value := 0, result := .ok })
      (hmem : s'.memory = update s.memory out (s.channel c).pop.1) :
      Receives s c t out s' (some .ok)
  | direct {s' : System} {w : TaskId} {rest : List TaskId} (hemp : (s.channel c).length = 0)
      (hq : s.rt.waiters (.senders c) = w :: rest)
      (hch : s'.channel = s.channel)
      (hws : s'.rt.waiters = update s.rt.waiters (.senders c) rest)
      (hwt : s'.wait = update s.wait w { s.wait w with value := 0, result := .ok })
      (hmem : s'.memory = update s.memory out (s.wait w).value) :
      Receives s c t out s' (some .ok)
  | closed (hemp : (s.channel c).length = 0) (hq : s.rt.waiters (.senders c) = [])
      (hclo : (s.channel c).closed = true) : Receives s c t out s (some .closed)
  | parked {s' : System} (hemp : (s.channel c).length = 0) (hq : s.rt.waiters (.senders c) = [])
      (hpn : (s.channel c).closed = false) (hch : s'.channel = s.channel)
      (hws : s'.rt.waiters = update s.rt.waiters (.receivers c)
        (s.rt.waiters (.receivers c) ++ [t]))
      (hwt : s'.wait = update s.wait t { s.wait t with output := some out, result := .ok }) :
      Receives s c t out s' none
  | refused (hemp : (s.channel c).length = 0) (hpn : (s.channel c).closed = false) :
      Receives s c t out s (some .invalidState)

inductive Closes (s : System) (c : ℕ) : System → Prop
  | again (hclo : (s.channel c).closed = true) : Closes s c s
  | now {s' : System} (hpn : (s.channel c).closed = false)
      (hch : s'.channel = update s.channel c { s.channel c with closed := true })
      (hsen : s'.rt.waiters (.senders c) = []) (hrec : s'.rt.waiters (.receivers c) = [])
      (hwt : ∀ t, t ∈ s.rt.waiters (.senders c) ∨ t ∈ s.rt.waiters (.receivers c) →
        (s'.wait t).result = .closed) : Closes s c s'

theorem send_cases (s : System) (c : ℕ) (t : TaskId) (value : Value) :
    Sends s c t value (s.channelSend c t value).1 (s.channelSend c t value).2 := by
  unfold System.channelSend
  cases hclo : (s.channel c).closed with
  | true =>
    rw [if_pos rfl]
    exact .closed hclo
  | false =>
    rw [if_neg Bool.false_ne_true]
    cases hpop : s.rt.waitPop (.receivers c) with
    | some x =>
      obtain ⟨w, r⟩ := x
      obtain ⟨rest, hw, hr⟩ := waitPop_eq_some hpop
      dsimp only
      cases hout : (s.wait w).output with
      | some cell =>
        refine .handed hclo hw rfl ((release_waiters _ _ _ _).trans hr) ?_ fun cell' hcl => ?_
        · exact congrArg (update s.wait w ·) rfl
        · obtain rfl := Option.some.inj (hout.symm.trans hcl)
          rfl
      | none =>
        refine .handed hclo hw rfl ((release_waiters _ _ _ _).trans hr) rfl fun cell' hcl => ?_
        rw [hout] at hcl
        cases hcl
    | none =>
      have hq := waitPop_eq_none.mp hpop
      dsimp only
      by_cases hrm : (s.channel c).length < (s.channel c).capacity
      · rw [if_pos hrm]
        exact .pushed hclo hq hrm
      · rw [if_neg hrm]
        obtain hpr | ⟨s', hpr, hch, hws, hwt⟩ := park_spec (.senders c) t s
        · rw [hpr]
          exact .refused (not_lt.mp hrm)
        · rw [hpr]
          refine .parked hclo hq (not_lt.mp hrm) hch hws ?_
          show update s'.wait t _ = _
          rw [hwt, update_self, update_idem]

theorem receive_cases (s : System) (c : ℕ) (t : TaskId) (out : Cell) :
    Receives s c t out (s.channelReceive c t out).1 (s.channelReceive c t out).2 := by
  unfold System.channelReceive
  by_cases hsm : (s.channel c).length ≠ 0
  · rw [if_pos hsm]
    dsimp only
    cases hpop : ((s.store out (s.channel c).pop.1).setChannel c (s.channel c).pop.2).rt.waitPop
        (.senders c) with
    | some x =>
      obtain ⟨w, r⟩ := x
      obtain ⟨rest, hw, hr⟩ := waitPop_eq_some hpop
      refine .refilled hsm hw ?_ ((release_waiters _ _ _ _).trans hr) rfl rfl
      show update (update s.channel c (s.channel c).pop.2) c
        (Channel.push (update s.channel c (s.channel c).pop.2 c) (s.wait w).value) = _
      rw [update_idem, update_self]
    | none => exact .popped hsm (waitPop_eq_none.mp hpop)
  · rw [if_neg hsm]
    have hemp := not_not.mp hsm
    cases hpop : s.rt.waitPop (.senders c) with
    | some x =>
      obtain ⟨w, r⟩ := x
      obtain ⟨rest, hw, hr⟩ := waitPop_eq_some hpop
      exact .direct hemp hw rfl ((release_waiters _ _ _ _).trans hr) rfl rfl
    | none =>
      have hq := waitPop_eq_none.mp hpop
      dsimp only
      cases hclo : (s.channel c).closed with
      | true =>
        rw [if_pos rfl]
        exact .closed hemp hq hclo
      | false =>
        rw [if_neg Bool.false_ne_true]
        obtain hpr | ⟨s', hpr, hch, hws, hwt⟩ := park_spec (.receivers c) t s
        · rw [hpr]
          exact .refused hemp hclo
        · rw [hpr]
          refine .parked hemp hq hclo hch hws ?_
          show update s'.wait t _ = _
          rw [hwt, update_self, update_idem]

theorem close_cases (s : System) (c : ℕ) (hex : Exclusive s.rt.waiters) :
    Closes s c (s.channelClose c).1 := by
  unfold System.channelClose
  cases hclo : (s.channel c).closed with
  | true =>
    rw [if_pos rfl]
    exact .again hclo
  | false =>
    rw [if_neg Bool.false_ne_true]
    dsimp only
    generalize hs₁ : s.setChannel c { s.channel c with closed := true } = s₁
    have hex₁ : Exclusive s₁.rt.waiters := by
      rw [← hs₁]
      exact hex
    -- the senders, then the receivers
    have hex₂ := releaseAll_exclusive (q := .senders c)
      (fun w => { w with value := 0, result := .closed }) s₁ hex₁
    have hall₁ := releaseAll_spec (fun w => { w with value := 0, result := .closed }) _ s₁ hex₁
      (rfl : s₁.rt.waiters (.senders c) = _)
    generalize System.releaseAll (.senders c) _ _ s₁ = s₂ at hex₂ hall₁ ⊢
    have hall₂ := releaseAll_spec (fun w => { w with output := none, result := .closed }) _ s₂ hex₂
      (rfl : s₂.rt.waiters (.receivers c) = _)
    have hrec : s₂.rt.waiters (.receivers c) = s.rt.waiters (.receivers c) := by
      rw [hall₁.waiters, ← hs₁]
      exact update_of_ne (by simp) _ _
    refine .now hclo ?_ ?_ ?_ fun t ht => ?_
    · rw [hall₂.channel, hall₁.channel, ← hs₁]
      rfl
    · rw [hall₂.waiters, update_of_ne (by simp), hall₁.waiters, update_self]
    · rw [hall₂.waiters, update_self]
    · rw [hall₂.wait, hrec]
      split_ifs with hr
      · rfl
      · rw [hall₁.wait, if_pos]
        rw [← hs₁]
        exact ht.resolve_right hr

theorem channel_cases {a : Action} (h : Inv s.rt) (hst : step s a = some s') :
    (a.on c = false ∧ SameChannel c s s') ∨
    (∃ p t value, a = .call p (.channelSend c value) ∧ (s.rt.ps p).pc = .inTask t ∧
      (s.rt.tasks t).point = .body ∧ s' = (s.channelSend c t value).1 ∧
      Sends s c t value s' (s.channelSend c t value).2) ∨
    (∃ p t out, a = .call p (.channelReceive c out) ∧ (s.rt.ps p).pc = .inTask t ∧
      (s.rt.tasks t).point = .body ∧ s' = (s.channelReceive c t out).1 ∧
      Receives s c t out s' (s.channelReceive c t out).2) ∨
    (a = .free (.channelClose c) ∧ Closes s c s') := by
  cases ha : a.on c with
  | false => exact Or.inl ⟨rfl, sameChannel_step h ha hst⟩
  | true =>
    right
    obtain ⟨p, e, rfl⟩ | ⟨p, t, call, rfl, hpc, hpt, rfl⟩ | ⟨call, rfl, rfl⟩ | ⟨call, rfl⟩ :=
      step_cases hst
    · cases ha
    · cases call with
      | channelSend c' value =>
        obtain rfl : c' = c := of_decide_eq_true ha
        exact Or.inl ⟨p, t, value, rfl, hpc, hpt, rfl, send_cases s c' t value⟩
      | channelReceive c' out =>
        obtain rfl : c' = c := of_decide_eq_true ha
        exact Or.inr (Or.inl ⟨p, t, out, rfl, hpc, hpt, rfl, receive_cases s c' t out⟩)
      | _ => cases ha
    · cases call with
      | channelClose c' =>
        obtain rfl : c' = c := of_decide_eq_true ha
        exact Or.inr (Or.inr ⟨rfl, close_cases s c' h.queues⟩)
      | _ => cases ha
    · cases ha

end Veloco.Sched
