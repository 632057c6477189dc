import Veloco.Ring
import Veloco.Sched.ChannelCalls

/-!
# A channel never strands a task (`src/sync/channel.c`)
-/

namespace Veloco.Sched

open Function List

variable {p : PId} {t w : TaskId} {s s' : System} {c : ℕ}

variable {status : Option Status} {value : Value} {out : Cell} {a : Action} {n capacity : ℕ}

/-! ## The invariant -/

structure Channel.Ok (ch : Channel) (senders receivers : List TaskId) : Prop where
  length_le : ch.length ≤ ch.capacity
  head_lt : 0 < ch.capacity → ch.head < ch.capacity
  receiving : receivers ≠ [] → ch.length = 0 ∧ senders = []
  sending : senders ≠ [] → ch.length = ch.capacity ∧ receivers = []
  closed : ch.closed = true → senders = [] ∧ receivers = []

section Invariant

variable {ch : Channel} {senders receivers rest : List TaskId}

theorem Channel.Ok.no_sender (h : ch.Ok senders receivers) (hrm : ch.length < ch.capacity) :
    senders = [] := by
  by_contra hne
  have hfl := (h.sending hne).1
  omega

theorem Channel.Ok.no_receiver (h : ch.Ok senders receivers) (hsm : ch.length ≠ 0) :
    receivers = [] := by
  by_contra hne
  exact hsm (h.receiving hne).1

theorem Channel.Ok.capacity_pos (h : ch.Ok senders receivers) (hsm : ch.length ≠ 0) :
    0 < ch.capacity := by
  have hle := h.length_le
  omega

theorem Channel.Ok.tail_receivers (h : ch.Ok senders (w :: rest)) (hpn : ch.closed = false) :
    ch.Ok senders rest := by
  obtain ⟨hemp, rfl⟩ := h.receiving (cons_ne_nil _ _)
  refine ⟨h.length_le, h.head_lt, fun _ => ⟨hemp, rfl⟩, fun hne => absurd rfl hne, ?_⟩
  rw [hpn]
  exact fun hf => absurd hf Bool.false_ne_true

theorem Channel.Ok.push (h : ch.Ok senders []) (hrm : ch.length < ch.capacity) (value : Value) :
    (ch.push value).Ok senders [] := by
  obtain rfl := h.no_sender hrm
  exact ⟨hrm, h.head_lt, fun hne => absurd rfl hne, fun hne => absurd rfl hne, fun _ => ⟨rfl, rfl⟩⟩

theorem Channel.Ok.park_sender (h : ch.Ok senders []) (hpn : ch.closed = false)
    (hfl : ch.capacity ≤ ch.length) : ch.Ok (senders ++ [t]) [] := by
  refine ⟨h.length_le, h.head_lt, fun hne => absurd rfl hne,
    fun _ => ⟨Nat.le_antisymm h.length_le hfl, rfl⟩, ?_⟩
  rw [hpn]
  exact fun hf => absurd hf Bool.false_ne_true

theorem Channel.Ok.pop (h : ch.Ok [] receivers) (hsm : ch.length ≠ 0) :
    ch.pop.2.Ok [] receivers := by
  obtain rfl := h.no_receiver hsm
  refine ⟨?_, fun hpos => Nat.mod_lt _ hpos, fun hne => absurd rfl hne, fun hne => absurd rfl hne,
    fun _ => ⟨rfl, rfl⟩⟩
  have hle := h.length_le
  show ch.length - 1 ≤ ch.capacity
  omega

theorem Channel.Ok.refill (h : ch.Ok (w :: rest) receivers) (hsm : ch.length ≠ 0) (value : Value) :
    (ch.pop.2.push value).Ok rest receivers := by
  obtain rfl := h.no_receiver hsm
  obtain ⟨hfl, -⟩ := h.sending (cons_ne_nil _ _)
  have hlen : (ch.pop.2.push value).length = ch.capacity := by
    show ch.length - 1 + 1 = ch.capacity
    omega
  refine ⟨hlen.le, fun hpos => Nat.mod_lt _ hpos, fun hne => absurd rfl hne,
    fun _ => ⟨hlen, rfl⟩, fun hclo => ?_⟩
  exact absurd (h.closed hclo).1 (cons_ne_nil _ _)

theorem Channel.Ok.tail_senders (h : ch.Ok (w :: rest) receivers) : ch.Ok rest receivers := by
  obtain ⟨hfl, rfl⟩ := h.sending (cons_ne_nil _ _)
  refine ⟨h.length_le, h.head_lt, fun hne => absurd rfl hne, fun _ => ⟨hfl, rfl⟩, fun hclo => ?_⟩
  exact absurd (h.closed hclo).1 (cons_ne_nil _ _)

theorem Channel.Ok.park_receiver (h : ch.Ok [] receivers) (hpn : ch.closed = false)
    (hemp : ch.length = 0) : ch.Ok [] (receivers ++ [t]) := by
  refine ⟨h.length_le, h.head_lt, fun _ => ⟨hemp, rfl⟩, fun hne => absurd rfl hne, ?_⟩
  rw [hpn]
  exact fun hf => absurd hf Bool.false_ne_true

theorem Channel.Ok.close (h : ch.Ok senders receivers) :
    ({ ch with closed := true } : Channel).Ok [] [] :=
  ⟨h.length_le, h.head_lt, fun hne => absurd rfl hne, fun hne => absurd rfl hne, fun _ => ⟨rfl, rfl⟩⟩

end Invariant

def ChannelOk (s : System) (c : ℕ) : Prop :=
  (s.channel c).Ok (s.rt.waiters (.senders c)) (s.rt.waiters (.receivers c))

theorem ChannelOk.same (h : ChannelOk s c) (hsa : SameChannel c s s') : ChannelOk s' c := by
  unfold ChannelOk
  rw [hsa.channel, hsa.senders, hsa.receivers]
  exact h

theorem ChannelOk.send (h : ChannelOk s c) (hs : Sends s c t value s' status) : ChannelOk s' c := by
  unfold ChannelOk at h ⊢
  cases hs with
  | closed | refused => exact h
  | handed hpn hq hch hws hwt hmem =>
    rw [hch, hws, update_self, update_of_ne (by simp)]
    rw [hq] at h
    exact h.tail_receivers hpn
  | pushed hpn hq hrm =>
    have hps : (s.setChannel c ((s.channel c).push value)).channel c = (s.channel c).push value :=
      update_self _ _ _
    rw [hps]
    show ((s.channel c).push value).Ok (s.rt.waiters (.senders c)) (s.rt.waiters (.receivers c))
    rw [hq] at h ⊢
    exact h.push hrm value
  | parked hpn hq hfl hch hws hwt =>
    rw [hch, hws, update_self, update_of_ne (by simp)]
    rw [hq] at h ⊢
    exact h.park_sender hpn hfl

theorem ChannelOk.receive (h : ChannelOk s c)
    (hr : Receives s c t out s' status) : ChannelOk s' c := by
  unfold ChannelOk at h ⊢
  cases hr with
  | closed | refused => exact h
  | popped hsm hq =>
    have hpop : ((s.store out (s.channel c).pop.1).setChannel c (s.channel c).pop.2).channel c =
        (s.channel c).pop.2 := update_self _ _ _
    rw [hpop]
    show (s.channel c).pop.2.Ok (s.rt.waiters (.senders c)) (s.rt.waiters (.receivers c))
    rw [hq] at h ⊢
    exact h.pop hsm
  | refilled hsm hq hch hws hwt hmem =>
    rw [hch, hws, update_self, update_self, update_of_ne (by simp)]
    rw [hq] at h
    exact h.refill hsm _
  | direct hemp hq hch hws hwt hmem =>
    rw [hch, hws, update_self, update_of_ne (by simp)]
    rw [hq] at h
    exact h.tail_senders
  | parked hemp hq hpn hch hws hwt =>
    rw [hch, hws, update_self, update_of_ne (by simp)]
    rw [hq] at h ⊢
    exact h.park_receiver hpn hemp

theorem ChannelOk.close (h : ChannelOk s c) (hc : Closes s c s') : ChannelOk s' c := by
  unfold ChannelOk at h ⊢
  cases hc with
  | again => exact h
  | now hpn hch hsen hrec hwt =>
    rw [hch, hsen, hrec, update_self]
    exact Channel.Ok.close h

theorem channelOk_step (hinv : Inv s.rt) (hst : step s a = some s')
    (h : ChannelOk s c) : ChannelOk s' c := by
  obtain ⟨-, hsa⟩ | ⟨p, t, value, -, -, -, -, hs⟩ | ⟨p, t, out, -, -, -, -, hr⟩ | ⟨-, hc⟩ :=
    channel_cases (c := c) hinv hst
  · exact h.same hsa
  · exact h.send hs
  · exact h.receive hr
  · exact h.close hc

inductive RingCall where
  | push (value : Value)
  | pop
  deriving DecidableEq, Repr

def Channel.ring : Channel → List RingCall → Option Channel
  | ch, [] => some ch
  | ch, .push value :: calls =>
    if ch.capacity ≠ 0 ∧ ch.length < ch.capacity then (ch.push value).ring calls else none
  | ch, .pop :: calls => if ch.capacity ≠ 0 ∧ ch.length ≠ 0 then ch.pop.2.ring calls else none

def System.ringCalls (s : System) (c : ℕ) : Action → List RingCall
  | .call _ (.channelSend c' value) =>
    if c' = c ∧ (s.channel c).closed = false ∧ s.rt.waiters (.receivers c) = [] ∧
        (s.channel c).length < (s.channel c).capacity then [.push value]
    else []
  | .call _ (.channelReceive c' _) =>
    if c' = c ∧ (s.channel c).length ≠ 0 then
      match s.rt.waiters (.senders c) with
      | [] => [.pop]
      | w :: _ => [.pop, .push (s.wait w).value]
    else []
  | _ => []

theorem Channel.ring_push {ch : Channel} (hrm : ch.length < ch.capacity) :
    ch.ring [.push value] = some (ch.push value) :=
  if_pos ⟨Nat.ne_of_gt (Nat.zero_lt_of_lt hrm), hrm⟩

theorem ringCalls_of_not_on (ha : a.on c = false) : s.ringCalls c a = [] := by
  cases a with
  | call p call =>
    cases call with
    | channelSend c' value => exact if_neg fun h => of_decide_eq_false ha h.1
    | channelReceive c' out => exact if_neg fun h => of_decide_eq_false ha h.1
    | _ => rfl
  | _ => rfl

theorem ring_send (hs : Sends s c t value s' status) :
    ∃ ring, (s.channel c).ring (s.ringCalls c (.call p (.channelSend c value))) = some ring ∧
      s'.channel c = ring := by
  unfold System.ringCalls
  dsimp only
  cases hs with
  | closed hclo =>
    rw [if_neg fun h => by simp [hclo] at h]
    exact ⟨_, rfl, rfl⟩
  | handed hpn hq hch =>
    rw [if_neg fun h => by simp [hq] at h]
    exact ⟨_, rfl, congrFun hch c⟩
  | pushed hpn hq hrm =>
    rw [if_pos ⟨rfl, hpn, hq, hrm⟩]
    exact ⟨_, Channel.ring_push hrm, update_self _ _ _⟩
  | parked hpn hq hfl hch =>
    rw [if_neg fun h => absurd h.2.2.2 (not_lt.mpr hfl)]
    exact ⟨_, rfl, congrFun hch c⟩
  | refused hfl =>
    rw [if_neg fun h => absurd h.2.2.2 (not_lt.mpr hfl)]
    exact ⟨_, rfl, rfl⟩

theorem ring_receive (h : ChannelOk s c) (hr : Receives s c t out s' status) :
    ∃ ring, (s.channel c).ring (s.ringCalls c (.call p (.channelReceive c out))) = some ring ∧
      s'.channel c = ring := by
  have hle := h.length_le
  unfold System.ringCalls
  dsimp only
  cases hr with
  | popped hsm hq =>
    rw [if_pos ⟨rfl, hsm⟩, hq]
    refine ⟨_, ?_, update_self _ _ _⟩
    exact if_pos ⟨Nat.ne_of_gt (h.capacity_pos hsm), hsm⟩
  | refilled hsm hq hch =>
    rw [if_pos ⟨rfl, hsm⟩, hq]
    refine ⟨_, ?_, (congrFun hch c).trans (update_self _ _ _)⟩
    unfold Channel.ring
    rw [if_pos ⟨Nat.ne_of_gt (h.capacity_pos hsm), hsm⟩]
    apply Channel.ring_push
    show (s.channel c).length - 1 < (s.channel c).capacity
    omega
  | direct hemp hq hch =>
    rw [if_neg fun h => h.2 hemp]
    exact ⟨_, rfl, congrFun hch c⟩
  | closed hemp | refused hemp =>
    rw [if_neg fun h => h.2 hemp]
    exact ⟨_, rfl, rfl⟩
  | parked hemp hq hpn hch =>
    rw [if_neg fun h => h.2 hemp]
    exact ⟨_, rfl, congrFun hch c⟩

theorem ring_step (hinv : Inv s.rt) (hst : step s a = some s') (h : ChannelOk s c) :
    ∃ ring, (s.channel c).ring (s.ringCalls c a) = some ring ∧
      s'.channel c = { ring with closed := (s'.channel c).closed } := by
  obtain ⟨ha, hsa⟩ | ⟨p, t, value, rfl, -, -, -, hs⟩ | ⟨p, t, out, rfl, -, -, -, hr⟩ | ⟨rfl, hc⟩ :=
    channel_cases (c := c) hinv hst
  · rw [ringCalls_of_not_on ha]
    exact ⟨_, rfl, by rw [hsa.channel]⟩
  · obtain ⟨ring, hrn, rfl⟩ := ring_send hs
    exact ⟨_, hrn, rfl⟩
  · obtain ⟨ring, hrn, rfl⟩ := ring_receive h hr
    exact ⟨_, hrn, rfl⟩
  · refine ⟨s.channel c, rfl, ?_⟩
    cases hc with
    | again => rfl
    | now hpn hch => rw [hch, update_self]

theorem channelOk_initial (hnt : Initial n s)
    (hch : s.channel c = { capacity := capacity }) : ChannelOk s c := by
  unfold ChannelOk
  rw [hch, hnt.rt]
  exact ⟨Nat.zero_le _, id, fun hne => absurd rfl hne, fun hne => absurd rfl hne, fun _ => ⟨rfl, rfl⟩⟩

/-- **A channel never strands a task.** -/
theorem channelOk_of_run {n capacity : ℕ} {as : List Action} (hnt : Initial n s)
    (hch : s.channel c = { capacity := capacity }) (hrun : Trans.run step s as = some s') :
    ChannelOk s' c ∧ ∀ a s'', step s' a = some s'' →
      ∃ ring, (s'.channel c).ring (s'.ringCalls c a) = some ring ∧
        s''.channel c = { ring with closed := (s''.channel c).closed } := by
  have hsou : Sound s'.rt ∧ ChannelOk s' c := by
    refine Trans.run_invariant (I := fun s => Sound s.rt ∧ ChannelOk s c) (fun s a t hs h => ?_) hrun
      ⟨hnt.sound, channelOk_initial hnt hch⟩
    exact ⟨sound_step hs h.1, channelOk_step h.1.inv hs h.2⟩
  exact ⟨hsou.2, fun a s'' hst => ring_step hsou.1.inv hst hsou.2⟩

def fillSchedule : List Action :=
  [Action.owner .spawn, .owner .run] ++ List.replicate 8 (Action.worker 0 {}) ++
    [Action.call 0 (.channelSend 0 5), .call 0 (.channelSend 0 6)]

theorem channelOk_of_run_full : ∃ s,
    Trans.run step { rt := { workerCount := 1 }, channel := fun _ => { capacity := 1 } }
      fillSchedule = some s ∧
    s.rt.waiters (.senders 0) = [0] ∧ (s.channel 0).length = 1 ∧ ChannelOk s 0 := by
  have hvl : (Trans.run step { rt := { workerCount := 1 }, channel := fun _ => { capacity := 1 } }
      fillSchedule).map (fun s => (s.rt.waiters (.senders 0), (s.channel 0).length)) =
      some ([0], 1) := by rfl
  obtain ⟨s, hs, heq⟩ := Option.map_eq_some_iff.mp hvl
  obtain ⟨hsen, hlen⟩ := Prod.mk.inj heq
  have hnt : Initial 1 { rt := { workerCount := 1 }, channel := fun _ => { capacity := 1 } } :=
    ⟨by decide, rfl⟩
  exact ⟨s, hs, hsen, hlen, (channelOk_of_run hnt rfl hs).1⟩

end Veloco.Sched
