import Veloco.Calls
import Veloco.Sched.Channel

/-!
# Values leave a channel in the order in which they enter it
-/

namespace Veloco.Sched

open Function List Option
open Veloco.Calls Veloco.Placement

structure ChannelLog where
  sends : List (Entry TaskId Value Status) := []
  receives : List (Entry TaskId Cell (Status × Value)) := []

def sendGives (value : Value) (status : Status) : Option Value :=
  if status = .ok then some value else none

def receiveGives (_ : Cell) (answer : Status × Value) : Option Value :=
  if answer.1 = .ok then some answer.2 else none

namespace ChannelLog

variable (log : ChannelLog)

def accepted : List Value := outcomes sendGives log.sends

def received : List Value := outcomes receiveGives log.receives

def start (s : System) (c : ℕ) : Action → ChannelLog
  | .call p (.channelSend c' value) =>
    match (s.rt.ps p).pc with
    | .inTask t =>
      if c' = c then
        { log with sends := log.sends ++ [⟨t, value, (s.channelSend c t value).2⟩] }
      else log
    | _ => log
  | .call p (.channelReceive c' out) =>
    match (s.rt.ps p).pc with
    | .inTask t =>
      if c' = c then
        { log with receives := log.receives ++ [⟨t, out, (s.channelReceive c t out).2.map fun status =>
          (status, (s.channelReceive c t out).1.memory out)⟩] }
      else log
    | _ => log
  | _ => log

def settle (s : System) (c : ℕ) : ChannelLog where
  sends := Calls.settle (s.rt.waiters (.senders c)) (fun t _ => (s.wait t).result) log.sends
  receives := Calls.settle (s.rt.waiters (.receivers c))
    (fun t out => ((s.wait t).result, s.memory out)) log.receives

end ChannelLog

def logStep (c : ℕ) (x : System × ChannelLog) (a : Action) : Option (System × ChannelLog) :=
  (step x.1 a).map fun s => (s, (x.2.start x.1 c a).settle s c)

def Channel.contents (ch : Channel) : List Value :=
  Ring.contents ch.buffer ch.capacity ch.head ch.length

/-! ## The invariant -/

structure Fifo (s : System) (c : ℕ) (log : ChannelLog) : Prop where
  senders : s.rt.waiters (.senders c) = (pending log.sends).map Entry.caller
  values : ∀ e ∈ pending log.sends, (s.wait e.caller).value = e.arg
  receivers : s.rt.waiters (.receivers c) = (pending log.receives).map Entry.caller
  outputs : ∀ e ∈ pending log.receives, (s.wait e.caller).output = some e.arg
  sendOrder : InOrder sendGives log.sends
  receiveOrder : InOrder receiveGives log.receives
  fifo : log.received ++ (s.channel c).contents = log.accepted
  ended : (∃ e ∈ log.receives, ∃ v, e.answer = some (.closed, v)) →
    (s.channel c).closed = true ∧ (s.channel c).length = 0

section Ring

variable {ch : Channel}

theorem Channel.contents_nil (h : ch.length = 0) : ch.contents = [] := by
  unfold Channel.contents
  rw [h]
  rfl

theorem Channel.contents_push (h : ch.length < ch.capacity) (value : Value) :
    (ch.push value).contents = ch.contents ++ [value] := Ring.contents_push h value

theorem Channel.contents_pop (hsm : ch.length ≠ 0) (hhd : ch.head < ch.capacity) :
    ch.contents = ch.pop.1 :: ch.pop.2.contents := by
  obtain ⟨n, hn⟩ := Nat.exists_eq_succ_of_ne_zero hsm
  show Ring.contents ch.buffer ch.capacity ch.head ch.length =
    ch.buffer ch.head :: Ring.contents ch.buffer ch.capacity ((ch.head + 1) % ch.capacity) (ch.length - 1)
  rw [hn]
  exact Ring.contents_pop hhd

end Ring

section Steps

variable {p : PId} {t w : TaskId} {s s' : System} {c : ℕ} {log : ChannelLog}

theorem ChannelLog.settle_eq {sends : List (Entry TaskId Value Status)}
    {receives : List (Entry TaskId Cell (Status × Value))}
    (hsen : s.rt.waiters (.senders c) = (pending sends).map Entry.caller)
    (hrec : s.rt.waiters (.receivers c) = (pending receives).map Entry.caller) :
    (⟨sends, receives⟩ : ChannelLog).settle s c = ⟨sends, receives⟩ := by
  unfold ChannelLog.settle
  rw [settle_waiting hsen, settle_waiting hrec]

theorem Fifo.same (h : Fifo s c log) (hsa : SameChannel c s s') :
    log.settle s' c = log ∧ Fifo s' c log := by
  have hsen := hsa.senders.trans h.senders
  have hrec := hsa.receivers.trans h.receivers
  refine ⟨ChannelLog.settle_eq hsen hrec, ?_⟩
  · refine ⟨hsen, fun e he => ?_, hrec, fun e he => ?_, h.sendOrder, h.receiveOrder, ?_, ?_⟩
    · rw [hsa.wait _ (Or.inl (h.senders ▸ mem_map_of_mem he))]
      exact h.values e he
    · rw [hsa.wait _ (Or.inr (h.receivers ▸ mem_map_of_mem he))]
      exact h.outputs e he
    · rw [hsa.channel]
      exact h.fifo
    · rw [hsa.channel]
      exact h.ended

theorem Fifo.not_ended (h : Fifo s c log) (hpn : (s.channel c).closed = false) :
    ¬ ∃ e ∈ log.receives, ∃ v, e.answer = some (.closed, v) := by
  intro hend
  rw [(h.ended hend).1] at hpn
  cases hpn

structure Goes (s : System) (c : ℕ) (log log' : ChannelLog) : Prop where
  inv : Fifo s c log'
  accepted : log.accepted <+: log'.accepted

theorem Goes.of_append {e : Entry TaskId Value Status} {log' : ChannelLog} (h : Fifo s c log')
    (hsn : log'.sends = log.sends ++ [e]) : Goes s c log log' := by
  refine ⟨h, ?_⟩
  unfold ChannelLog.accepted
  rw [hsn, outcomes_append]
  exact prefix_append _ _

theorem Goes.of_same {log' : ChannelLog} (h : Fifo s c log') (hsn : log'.sends = log.sends) :
    Goes s c log log' := by
  refine ⟨h, ?_⟩
  unfold ChannelLog.accepted
  rw [hsn]

theorem Fifo.send_nothing {value : Value} {status : Status} (h : Fifo s c log) (hsta : status ≠ .ok) :
    Goes s c log (({ log with sends := log.sends ++ [⟨t, value, some status⟩] } : ChannelLog).settle s c) := by
  have hpen : pending (log.sends ++ [⟨t, value, some status⟩]) = pending log.sends :=
    pending_append_answered (some_ne_none status)
  have hgiv : Entry.outcome sendGives (⟨t, value, some status⟩ : Entry TaskId Value Status) = none :=
    if_neg hsta
  have hsen : s.rt.waiters (.senders c) =
      (pending (log.sends ++ [⟨t, value, some status⟩])).map Entry.caller := by
    rw [hpen]
    exact h.senders
  rw [ChannelLog.settle_eq hsen h.receivers]
  refine .of_append ⟨hsen, ?_, h.receivers, h.outputs, h.sendOrder.append fun _ => hgiv,
    h.receiveOrder, ?_, h.ended⟩ rfl
  · rw [hpen]
    exact h.values
  · unfold ChannelLog.accepted
    rw [outcomes_append, hgiv]
    exact h.fifo.trans (append_nil _).symm

theorem Fifo.send {value : Value} {status : Option Status} (h : Fifo s c log) (hok : ChannelOk s c)
    (hex : Exclusive s.rt.waiters) (ht : ∀ q, t ∉ s.rt.waiters q)
    (hs : Sends s c t value s' status) :
    Goes s' c log (({ log with sends := log.sends ++ [⟨t, value, status⟩] } : ChannelLog).settle s' c) := by
  have hgiv : Entry.outcome sendGives (⟨t, value, some .ok⟩ : Entry TaskId Value Status) = some value :=
    rfl
  cases hs with
  | closed => exact h.send_nothing (by decide)
  | refused => exact h.send_nothing (by decide)
  | pushed hpn hq hrm =>
    have hnn := pending_eq_nil h.senders (hok.no_sender hrm)
    have hpen : pending (log.sends ++ [⟨t, value, some .ok⟩]) = pending log.sends :=
      pending_append_answered (some_ne_none _)
    have hch : (s.setChannel c ((s.channel c).push value)).channel c = (s.channel c).push value :=
      update_self _ _ _
    have hsen : (s.setChannel c ((s.channel c).push value)).rt.waiters (.senders c) =
        (pending (log.sends ++ [⟨t, value, some .ok⟩])).map Entry.caller := by
      rw [hpen]
      exact h.senders
    rw [ChannelLog.settle_eq hsen h.receivers]
    refine .of_append ⟨hsen, ?_, h.receivers, h.outputs, h.sendOrder.append fun hne => absurd hnn hne,
      h.receiveOrder, ?_, fun hend => absurd hend (h.not_ended hpn)⟩ rfl
    · rw [hpen]
      exact h.values
    · rw [hch, Channel.contents_push hrm]
      unfold ChannelLog.accepted
      rw [outcomes_append, hgiv, ← append_assoc]
      exact congrArg (· ++ [value]) h.fifo
  | parked hpn hq hfl hch hws hwt =>
    have hnn := pending_eq_nil h.receivers hq
    have hpen : pending (log.sends ++ [⟨t, value, none⟩]) = pending log.sends ++ [⟨t, value, none⟩] :=
      pending_append_waiting rfl
    have hsen : s'.rt.waiters (.senders c) =
        (pending (log.sends ++ [⟨t, value, none⟩])).map Entry.caller := by
      rw [hws, update_self, hpen, map_append, ← h.senders]
      rfl
    have hrec : s'.rt.waiters (.receivers c) = (pending log.receives).map Entry.caller := by
      rw [hws, update_of_ne (by simp)]
      exact h.receivers
    rw [ChannelLog.settle_eq hsen hrec]
    refine .of_append ⟨hsen, fun e he => ?_, hrec, ?_, h.sendOrder.append fun _ => rfl,
      h.receiveOrder, ?_, ?_⟩ rfl
    · rw [hwt]
      rw [hpen] at he
      rcases mem_append.mp he with hold | hnew
      · have hne : e.caller ≠ t := by
          rintro rfl
          exact ht (.senders c) (h.senders ▸ mem_map_of_mem hold)
        rw [update_of_ne hne]
        exact h.values e hold
      · obtain rfl := mem_singleton.mp hnew
        rw [update_self]
    · show ∀ e ∈ pending log.receives, _
      rw [hnn]
      exact fun e he => absurd he not_mem_nil
    · rw [hch]
      unfold ChannelLog.accepted
      rw [outcomes_append]
      exact h.fifo.trans (append_nil _).symm
    · rw [hch]
      exact h.ended
  | handed hpn hq hch hws hwt hmem =>
    rename_i w rest
    obtain ⟨hemp, hnoS⟩ := hok.receiving (by rw [hq]; exact cons_ne_nil _ _)
    have hnn := pending_eq_nil h.senders hnoS
    have hpen : pending (log.sends ++ [⟨t, value, some .ok⟩]) = pending log.sends :=
      pending_append_answered (some_ne_none _)
    have hsen : s'.rt.waiters (.senders c) =
        (pending (log.sends ++ [⟨t, value, some .ok⟩])).map Entry.caller := by
      rw [hws, update_of_ne (by simp), hpen]
      exact h.senders
    -- the first receive that waits gets the value
    have hnod := hex.nodup (.receivers c)
    rw [hq] at hnod
    obtain ⟨e, others, hpending', rfl, rfl, hset⟩ :=
      settle_queue (hq.symm.trans h.receivers) hnod h.receiveOrder
    have hrec : s'.rt.waiters (.receivers c) = others.map Entry.caller := by rw [hws, update_self]
    have hmm : s'.memory e.arg = value := by
      rw [hmem e.arg (h.outputs e (hpending' ▸ mem_cons_self)), update_self]
    have hres : (s'.wait e.caller).result = .ok := by rw [hwt, update_self]
    obtain ⟨hoth, hout, hord⟩ := hset fun t out => ((s'.wait t).result, s'.memory out)
    have hlog : ({ log with sends := log.sends ++ [⟨t, value, some .ok⟩] } : ChannelLog).settle s' c =
        ⟨log.sends ++ [⟨t, value, some .ok⟩], Calls.settle (others.map Entry.caller)
          (fun t out => ((s'.wait t).result, s'.memory out)) log.receives⟩ := by
      unfold ChannelLog.settle
      dsimp only
      rw [settle_waiting hsen, hrec]
    rw [hlog]
    refine .of_append ⟨hsen, ?_, by rw [hoth, hrec], ?_,
      h.sendOrder.append fun hne => absurd hnn hne, hord, ?_, ?_⟩ rfl
    · rw [hpen, hnn]
      exact fun e' he' => absurd he' not_mem_nil
    · dsimp only
      rw [hoth, hwt]
      intro e' he'
      have hne : e'.caller ≠ e.caller := by
        intro heq
        exact (nodup_cons.mp hnod).1 (heq ▸ mem_map_of_mem he')
      rw [update_of_ne hne]
      exact h.outputs e' (hpending' ▸ mem_cons_of_mem _ he')
    · rw [hch, Channel.contents_nil hemp, append_nil]
      have hff := h.fifo
      rw [Channel.contents_nil hemp, append_nil] at hff
      unfold ChannelLog.received ChannelLog.accepted at hff ⊢
      rw [hout, outcomes_append, hgiv, hff, hres, hmm]
      rfl
    · rintro ⟨e', he', v, hv⟩
      dsimp only at he'
      rcases mem_settle he' with hold | ⟨e'', hwai, hlf, rfl⟩
      · exact absurd ⟨e', hold, v, hv⟩ (h.not_ended hpn)
      · rw [hpending'] at hwai
        rcases mem_cons.mp hwai with rfl | hth
        · rw [hres] at hv
          cases hv
        · exact absurd (mem_map_of_mem hth) hlf

theorem Fifo.receive_nothing {out : Cell} {status : Status} {v : Value} (h : Fifo s c log)
    (hsta : status ≠ .ok)
    (hclo : status = .closed → (s.channel c).closed = true ∧ (s.channel c).length = 0) :
    Goes s c log (({ log with receives := log.receives ++ [⟨t, out, some (status, v)⟩] } :
      ChannelLog).settle s c) := by
  have hpen : pending (log.receives ++ [⟨t, out, some (status, v)⟩]) = pending log.receives :=
    pending_append_answered (some_ne_none _)
  have hgiv : Entry.outcome receiveGives
      (⟨t, out, some (status, v)⟩ : Entry TaskId Cell (Status × Value)) = none := if_neg hsta
  have hrec : s.rt.waiters (.receivers c) =
      (pending (log.receives ++ [⟨t, out, some (status, v)⟩])).map Entry.caller := by
    rw [hpen]
    exact h.receivers
  rw [ChannelLog.settle_eq h.senders hrec]
  refine .of_same ⟨h.senders, h.values, hrec, ?_, h.sendOrder,
    h.receiveOrder.append fun _ => hgiv, ?_, ?_⟩ rfl
  · rw [hpen]
    exact h.outputs
  · unfold ChannelLog.received
    rw [outcomes_append, hgiv]
    exact (congrArg (· ++ _) (append_nil _)).trans h.fifo
  · rintro ⟨e, he, v', hv'⟩
    rcases mem_append.mp he with hold | hnew
    · exact h.ended ⟨e, hold, v', hv'⟩
    · obtain rfl := mem_singleton.mp hnew
      exact hclo (Prod.mk.inj (some.inj hv')).1

theorem Fifo.answer_sender {rest : List TaskId} (h : Fifo s c log) (hex : Exclusive s.rt.waiters)
    (hq : s.rt.waiters (.senders c) = w :: rest)
    (hwt : s'.wait = update s.wait w { s.wait w with value := 0, result := .ok }) :
    ∃ sends, Calls.settle rest (fun t _ => (s'.wait t).result) log.sends = sends ∧
      rest = (pending sends).map Entry.caller ∧
      (∀ e ∈ pending sends, (s'.wait e.caller).value = e.arg) ∧ InOrder sendGives sends ∧
      outcomes sendGives sends = log.accepted ++ [(s.wait w).value] := by
  have hnod := hex.nodup (.senders c)
  rw [hq] at hnod
  obtain ⟨e, others, hpen, rfl, rfl, hset⟩ :=
    settle_queue (hq.symm.trans h.senders) hnod h.sendOrder
  obtain ⟨hoth, hout, hord⟩ := hset fun t _ => (s'.wait t).result
  have hres : (s'.wait e.caller).result = .ok := by rw [hwt, update_self]
  refine ⟨_, rfl, by rw [hoth], ?_, hord, ?_⟩
  · rw [hoth, hwt]
    intro e' he'
    have hne : e'.caller ≠ e.caller := by
      intro heq
      exact (nodup_cons.mp hnod).1 (heq ▸ mem_map_of_mem he')
    rw [update_of_ne hne]
    exact h.values e' (hpen ▸ mem_cons_of_mem _ he')
  · rw [hout, hres, h.values e (hpen ▸ mem_cons_self)]
    rfl

theorem Fifo.receive_ok {out : Cell} {v : Value} {sends : List (Entry TaskId Value Status)}
    (h : Fifo s c log) (hno : s.rt.waiters (.receivers c) = []) (hno' : s'.rt.waiters (.receivers c) = [])
    (hmm : s'.memory out = v)
    (hsn : Calls.settle (s'.rt.waiters (.senders c)) (fun t _ => (s'.wait t).result) log.sends = sends)
    (hsen : s'.rt.waiters (.senders c) = (pending sends).map Entry.caller)
    (hval : ∀ e ∈ pending sends, (s'.wait e.caller).value = e.arg) (hord : InOrder sendGives sends)
    (hgr : log.accepted <+: outcomes sendGives sends)
    (hff : log.received ++ [v] ++ (s'.channel c).contents = outcomes sendGives sends)
    (hnot : ¬ ∃ e ∈ log.receives, ∃ v, e.answer = some (.closed, v)) :
    Goes s' c log (({ log with receives := log.receives ++ [⟨t, out, some (.ok, s'.memory out)⟩] } :
      ChannelLog).settle s' c) := by
  have hnn := pending_eq_nil h.receivers hno
  have hpen : pending (log.receives ++ [⟨t, out, some (.ok, v)⟩]) = [] := by
    rw [pending_append_answered (some_ne_none _), hnn]
  have hrec : s'.rt.waiters (.receivers c) =
      (pending (log.receives ++ [⟨t, out, some (.ok, v)⟩])).map Entry.caller := by
    rw [hno', hpen]
    rfl
  have hlog : (⟨log.sends, log.receives ++ [⟨t, out, some (.ok, v)⟩]⟩ : ChannelLog).settle s' c =
      ⟨sends, log.receives ++ [⟨t, out, some (.ok, v)⟩]⟩ := by
    unfold ChannelLog.settle
    dsimp only
    rw [settle_waiting hrec, hsn]
  rw [hmm, hlog]
  refine ⟨⟨hsen, hval, hrec, ?_, hord, h.receiveOrder.append fun hne => absurd hnn hne,
    ?_, ?_⟩, hgr⟩
  · rw [hpen]
    exact fun e he => absurd he not_mem_nil
  · unfold ChannelLog.received ChannelLog.accepted
    rw [outcomes_append]
    exact hff
  · rintro ⟨e, he, v', hv'⟩
    rcases mem_append.mp he with hold | hnew
    · exact absurd ⟨e, hold, v', hv'⟩ hnot
    · obtain rfl := mem_singleton.mp hnew
      cases hv'

theorem Fifo.receive {out : Cell} {status : Option Status} (h : Fifo s c log) (hok : ChannelOk s c)
    (hex : Exclusive s.rt.waiters) (ht : ∀ q, t ∉ s.rt.waiters q)
    (hr : Receives s c t out s' status) :
    Goes s' c log (({ log with receives := log.receives ++
      [⟨t, out, status.map fun status => (status, s'.memory out)⟩] } : ChannelLog).settle s' c) := by
  cases hr with
  | closed hemp hq hclo => exact h.receive_nothing (by decide) fun _ => ⟨hclo, hemp⟩
  | refused hemp hpn => exact h.receive_nothing (by decide) fun hf => by cases hf
  | popped hsm hq =>
    have hno := hok.no_receiver hsm
    have hch : ((s.store out (s.channel c).pop.1).setChannel c (s.channel c).pop.2).channel c =
        (s.channel c).pop.2 := update_self _ _ _
    refine h.receive_ok hno hno (update_self _ _ _) (settle_waiting h.senders) h.senders
      h.values h.sendOrder prefix_rfl ?_ fun hend => hsm (h.ended hend).2
    have hff := h.fifo
    rw [Channel.contents_pop hsm (hok.head_lt (hok.capacity_pos hsm))] at hff
    rw [hch, append_assoc]
    exact hff
  | refilled hsm hq hch hws hwt hmem =>
    rename_i w rest
    have hno := hok.no_receiver hsm
    have hno' : s'.rt.waiters (.receivers c) = [] := by rw [hws, update_of_ne (by simp), hno]
    have hrs : s'.rt.waiters (.senders c) = rest := by rw [hws, update_self]
    obtain ⟨sends, hsn, hsen, hval, hord, hacc⟩ := h.answer_sender hex hq hwt
    have hmm : s'.memory out = (s.channel c).pop.1 := by rw [hmem, update_self]
    refine h.receive_ok hno hno' hmm (by rw [hrs]; exact hsn) (by rw [hrs]; exact hsen)
      hval hord (hacc ▸ prefix_append _ _) ?_ fun hend => hsm (h.ended hend).2
    have hff := h.fifo
    rw [Channel.contents_pop hsm (hok.head_lt (hok.capacity_pos hsm))] at hff
    have hle := hok.length_le
    have hrm : (s.channel c).pop.2.length < (s.channel c).pop.2.capacity := by
      show (s.channel c).length - 1 < (s.channel c).capacity
      omega
    rw [hacc, hch, update_self, Channel.contents_push hrm, ← hff]
    simp only [append_assoc, cons_append, nil_append]
  | direct hemp hq hch hws hwt hmem =>
    rename_i w rest
    have hne : s.rt.waiters (.senders c) ≠ [] := by
      rw [hq]
      exact cons_ne_nil _ _
    have hno := (hok.sending hne).2
    have hno' : s'.rt.waiters (.receivers c) = [] := by rw [hws, update_of_ne (by simp), hno]
    have hrs : s'.rt.waiters (.senders c) = rest := by rw [hws, update_self]
    obtain ⟨sends, hsn, hsen, hval, hord, hacc⟩ := h.answer_sender hex hq hwt
    have hmm : s'.memory out = (s.wait w).value := by rw [hmem, update_self]
    refine h.receive_ok hno hno' hmm (by rw [hrs]; exact hsn) (by rw [hrs]; exact hsen)
      hval hord (hacc ▸ prefix_append _ _) ?_
      fun hend => hne (hok.closed (h.ended hend).1).1
    have hff := h.fifo
    rw [Channel.contents_nil hemp, append_nil] at hff
    rw [hacc, hch, Channel.contents_nil hemp, append_nil, hff]
  | parked hemp hq hpn hch hws hwt =>
    have hnn := pending_eq_nil h.senders hq
    have hpen : pending (log.receives ++ [⟨t, out, none⟩]) =
        pending log.receives ++ [⟨t, out, none⟩] := pending_append_waiting rfl
    have hrec : s'.rt.waiters (.receivers c) =
        (pending (log.receives ++ [⟨t, out, none⟩])).map Entry.caller := by
      rw [hws, update_self, hpen, map_append, ← h.receivers]
      rfl
    have hsen : s'.rt.waiters (.senders c) = (pending log.sends).map Entry.caller := by
      rw [hws, update_of_ne (by simp)]
      exact h.senders
    rw [map_none, ChannelLog.settle_eq hsen hrec]
    refine .of_same ⟨hsen, ?_, hrec, fun e he => ?_, h.sendOrder,
      h.receiveOrder.append fun _ => rfl, ?_, ?_⟩ rfl
    · show ∀ e ∈ pending log.sends, _
      rw [hnn]
      exact fun e he => absurd he not_mem_nil
    · rw [hwt]
      rw [hpen] at he
      rcases mem_append.mp he with hold | hnew
      · have hne : e.caller ≠ t := by
          rintro rfl
          exact ht (.receivers c) (h.receivers ▸ mem_map_of_mem hold)
        rw [update_of_ne hne]
        exact h.outputs e hold
      · obtain rfl := mem_singleton.mp hnew
        rw [update_self]
    · rw [hch]
      unfold ChannelLog.received
      rw [outcomes_append]
      exact (congrArg (· ++ _) (append_nil _)).trans h.fifo
    · rw [hch]
      rintro ⟨e, he, v, hv⟩
      rcases mem_append.mp he with hold | hnew
      · exact h.ended ⟨e, hold, v, hv⟩
      · obtain rfl := mem_singleton.mp hnew
        cases hv

theorem Fifo.close (h : Fifo s c log) (hok : ChannelOk s c) (hc : Closes s c s') :
    Goes s' c log (log.settle s' c) := by
  cases hc with
  | again =>
    rw [(h.same (.refl c s)).1]
    exact .of_same h rfl
  | now hpn hch hsen hrec hwt =>
    have hsa : s'.channel c = { s.channel c with closed := true } := by rw [hch, update_self]
    have hse : ∀ e ∈ pending log.sends, sendGives e.arg (s'.wait e.caller).result = none := by
      intro e he
      rw [hwt _ (Or.inl (h.senders ▸ mem_map_of_mem he))]
      rfl
    have hgot : ∀ e ∈ pending log.receives,
        receiveGives e.arg ((s'.wait e.caller).result, s'.memory e.arg) = none := by
      intro e he
      rw [hwt _ (Or.inr (h.receivers ▸ mem_map_of_mem he))]
      rfl
    obtain ⟨hpen, hout, hord⟩ := settle_all (fun t _ => (s'.wait t).result) h.sendOrder hse
    obtain ⟨hpending', houtcomes', horder'⟩ :=
      settle_all (fun t out => ((s'.wait t).result, s'.memory out)) h.receiveOrder hgot
    unfold ChannelLog.settle
    rw [hsen, hrec]
    refine ⟨⟨?_, ?_, ?_, ?_, hord, horder', ?_, ?_⟩, ?_⟩
    · dsimp only
      rw [hsen, hpen]
      rfl
    · dsimp only
      rw [hpen]
      exact fun e he => absurd he not_mem_nil
    · dsimp only
      rw [hrec, hpending']
      rfl
    · dsimp only
      rw [hpending']
      exact fun e he => absurd he not_mem_nil
    · unfold ChannelLog.received ChannelLog.accepted
      rw [hout, houtcomes', hsa]
      exact h.fifo
    · rintro ⟨e, he, v, hv⟩
      rw [hsa]
      refine ⟨rfl, ?_⟩
      dsimp only at he
      rcases mem_settle he with hold | ⟨e', hwai, -, rfl⟩
      · exact absurd ⟨e, hold, v, hv⟩ (h.not_ended hpn)
      · -- somebody waited for a value
        apply (hok.receiving ?_).1
        rw [h.receivers]
        exact ne_nil_of_mem (mem_map_of_mem hwai)
    · unfold ChannelLog.accepted
      rw [hout]

theorem ChannelLog.start_of_not_on (log : ChannelLog) (s : System) {a : Action} (ha : a.on c = false) :
    log.start s c a = log := by
  cases a with
  | call p call =>
    cases call with
    | channelSend c' value =>
      unfold ChannelLog.start
      dsimp only
      split
      · exact if_neg (of_decide_eq_false ha)
      · rfl
    | channelReceive c' out =>
      unfold ChannelLog.start
      dsimp only
      split
      · exact if_neg (of_decide_eq_false ha)
      · rfl
    | _ => rfl
  | _ => rfl

theorem Fifo.step {a : Action} (h : Fifo s c log) (hok : ChannelOk s c) (hinv : Inv s.rt)
    (hst : Sched.step s a = some s') : Goes s' c log ((log.start s c a).settle s' c) := by
  obtain ⟨ha, hsa⟩ | ⟨p, t, value, rfl, hpc, hpt, -, hs⟩ | ⟨p, t, out, rfl, hpc, hpt, hs', hr⟩ |
    ⟨rfl, hc⟩ := channel_cases (c := c) hinv hst
  · rw [log.start_of_not_on s ha, (h.same hsa).1]
    exact .of_same (h.same hsa).2 rfl
  · have hsr : log.start s c (.call p (.channelSend c value)) =
        { log with sends := log.sends ++ [⟨t, value, (s.channelSend c t value).2⟩] } := by
      unfold ChannelLog.start
      dsimp only
      rw [hpc]
      exact if_pos rfl
    rw [hsr]
    exact h.send hok hinv.queues (fun q => hinv.not_waiting hpc hpt q) hs
  · have hsr : log.start s c (.call p (.channelReceive c out)) =
        { log with receives := log.receives ++ [⟨t, out, (s.channelReceive c t out).2.map fun status =>
          (status, (s.channelReceive c t out).1.memory out)⟩] } := by
      unfold ChannelLog.start
      dsimp only
      rw [hpc]
      exact if_pos rfl
    rw [hsr, ← hs']
    exact h.receive hok hinv.queues (fun q => hinv.not_waiting hpc hpt q) hr
  · exact h.close hok hc

end Steps

section Runs

variable {s s' s'' : System} {c n capacity : ℕ} {log log' log'' : ChannelLog} {as bs : List Action}

structure Logged (c : ℕ) (x : System × ChannelLog) : Prop where
  sound : Sound x.1.rt
  ok : ChannelOk x.1 c
  fifo : Fifo x.1 c x.2

theorem Logged.initial (hnt : Initial n s) (hch : s.channel c = { capacity := capacity }) :
    Logged c (s, {}) := by
  refine ⟨hnt.sound, channelOk_initial hnt hch, ?_⟩
  have hws : ∀ q, s.rt.waiters q = [] := by
    intro q
    rw [hnt.rt]
  refine ⟨hws _, fun e he => absurd he not_mem_nil, hws _,
    fun e he => absurd he not_mem_nil, List.Pairwise.nil, List.Pairwise.nil, ?_, ?_⟩
  · rw [hch]
    rfl
  · rintro ⟨e, he, -⟩
    exact absurd he not_mem_nil

theorem Logged.step {x y : System × ChannelLog} {a : Action} (hst : logStep c x a = some y)
    (h : Logged c x) : Logged c y ∧ x.2.accepted <+: y.2.accepted := by
  obtain ⟨s', hs, rfl⟩ := map_eq_some_iff.mp hst
  have hgs := h.fifo.step h.ok h.sound.inv hs
  exact ⟨⟨sound_step hs h.sound, channelOk_step h.sound.inv hs h.ok, hgs.inv⟩, hgs.accepted⟩

theorem Logged.run {x y : System × ChannelLog} (hrun : Trans.run (logStep c) x as = some y)
    (h : Logged c x) : Logged c y ∧ x.2.accepted <+: y.2.accepted := by
  refine Trans.run_invariant (I := fun z => Logged c z ∧ x.2.accepted <+: z.2.accepted)
    (fun z a z' hz hI => ?_) hrun ⟨h, prefix_rfl⟩
  obtain ⟨hlg, hgr⟩ := hI.1.step hz
  exact ⟨hlg, hI.2.trans hgr⟩

theorem receive_closed (hok : ChannelOk s c) (hclo : (s.channel c).closed = true) (t : TaskId)
    (out : Cell) :
    ((s.channel c).contents = [] → (s.channelReceive c t out).2 = some .closed) ∧
      ∀ v rest, (s.channel c).contents = v :: rest →
        (s.channelReceive c t out).2 = some .ok ∧ (s.channelReceive c t out).1.memory out = v := by
  have hnn := (hok.closed hclo).1
  have hr := receive_cases s c t out
  generalize s.channelReceive c t out = x at hr ⊢
  obtain ⟨s', status⟩ := x
  cases hr with
  | popped hsm hq =>
    refine ⟨fun hnil => absurd hnil (Ring.contents_ne_nil hsm), fun v rest hcon => ⟨rfl, ?_⟩⟩
    rw [Channel.contents_pop hsm (hok.head_lt (hok.capacity_pos hsm))] at hcon
    exact (update_self _ _ _).trans (List.cons.inj hcon).1
  | refilled hsm hq =>
    rw [hnn] at hq
    cases hq
  | direct hemp hq =>
    rw [hnn] at hq
    cases hq
  | closed hemp =>
    refine ⟨fun _ => rfl, fun v rest hcon => ?_⟩
    rw [Channel.contents_nil hemp] at hcon
    cases hcon
  | parked hemp hq hpn =>
    rw [hclo] at hpn
    cases hpn
  | refused hemp hpn =>
    rw [hclo] at hpn
    cases hpn

/-- **Channel FIFO without loss or duplication.** -/
theorem fifo_of_run (hnt : Initial n s) (hch : s.channel c = { capacity := capacity })
    (hrun : Trans.run (logStep c) (s, {}) as = some (s', log))
    (hlat : Trans.run (logStep c) (s', log) bs = some (s'', log')) :
    log.received <+: log'.accepted ∧
      (∀ e ∈ log.sends, e.answer = some .closed →
        (∀ e' ∈ log.sends, e'.answer = some .ok → e'.arg ≠ e.arg) → e.arg ∉ log.received) ∧
      ((∃ e ∈ log.receives, ∃ v, e.answer = some (.closed, v)) → log.received = log.accepted) ∧
      ((s'.channel c).closed = true → pending log.sends = [] ∧ pending log.receives = [] ∧
        log.received ++ (s'.channel c).contents = log.accepted ∧
        ∀ t out, ((s'.channel c).contents = [] → (s'.channelReceive c t out).2 = some .closed) ∧
          ∀ v rest, (s'.channel c).contents = v :: rest →
            (s'.channelReceive c t out).2 = some .ok ∧
              (s'.channelReceive c t out).1.memory out = v) := by
  obtain ⟨hlg, -⟩ := (Logged.initial hnt hch).run hrun
  obtain ⟨-, hgr⟩ := hlg.run hlat
  have hff := hlg.fifo.fifo
  have hpre : log.received <+: log.accepted := ⟨_, hff⟩
  refine ⟨hpre.trans hgr, fun e he hclo hth hmem => ?_, fun hend => ?_, fun hclo => ?_⟩
  · obtain ⟨e', he', hgiv⟩ := mem_filterMap.mp (hpre.subset hmem)
    unfold Entry.outcome at hgiv
    obtain ⟨status, hsta, hvl⟩ := bind_eq_some_iff.mp hgiv
    unfold sendGives at hvl
    split_ifs at hvl with hok
    exact hth e' he' (hok ▸ hsta) (some.inj hvl)
  · rw [Channel.contents_nil (hlg.fifo.ended hend).2, append_nil] at hff
    exact hff
  · obtain ⟨hsen, hrec⟩ := hlg.ok.closed hclo
    exact ⟨pending_eq_nil hlg.fifo.senders hsen, pending_eq_nil hlg.fifo.receivers hrec,
      hff, fun t out => receive_closed hlg.ok hclo t out⟩

def passSchedule : List Action :=
  [Action.owner .spawn, .owner .spawn, .owner .run] ++ List.replicate 8 (Action.worker 0 {}) ++
    [Action.call 0 (.channelSend 0 5), .call 0 (.channelSend 0 6)] ++ List.replicate 10 (Action.worker 0 {}) ++
    [Action.call 0 (.channelReceive 0 1), .call 0 (.channelReceive 0 2)]

theorem fifo_of_run_pass : ∃ s log,
    Trans.run (logStep 0) ({ rt := { workerCount := 1 }, channel := fun _ => { capacity := 1 } }, {})
      passSchedule = some (s, log) ∧
    log.received = [5, 6] ∧ log.received <+: log.accepted := by
  have hev : (Trans.run (logStep 0)
      ({ rt := { workerCount := 1 }, channel := fun _ => { capacity := 1 } }, {})
      passSchedule).map (fun x => x.2.received) = some [5, 6] := by rfl
  obtain ⟨⟨s, log⟩, hs, heq⟩ := map_eq_some_iff.mp hev
  have hnt : Initial 1 { rt := { workerCount := 1 }, channel := fun _ => { capacity := 1 } } :=
    ⟨by decide, rfl⟩
  exact ⟨s, log, hs, heq, (fifo_of_run hnt rfl hs (Trans.run_nil _)).1⟩

theorem Channel.ring_capacity {ch ring : Channel} {calls : List RingCall}
    (h : ch.ring calls = some ring) : ring.capacity = ch.capacity := by
  induction calls generalizing ch with
  | nil =>
    cases h
    rfl
  | cons call calls ih => cases call <;> (unfold Channel.ring at h; split_ifs at h; exact (ih h :))

theorem Logged.keeps {x y : System × ChannelLog} (hrun : Trans.run (logStep c) x as = some y)
    (h : Logged c x) : (y.1.channel c).capacity = (x.1.channel c).capacity := by
  refine (Trans.run_invariant (I := fun z => Logged c z ∧ (z.1.channel c).capacity =
    (x.1.channel c).capacity) (fun z a z' hz hI => ⟨(hI.1.step hz).1, ?_⟩) hrun ⟨h, rfl⟩).2
  obtain ⟨s', hs, rfl⟩ := map_eq_some_iff.mp hz
  obtain ⟨ring, hrn, heq⟩ := ring_step hI.1.sound.inv hs hI.1.ok
  rw [heq]
  exact (Channel.ring_capacity hrn).trans hI.2

/-- **A channel is a bounded buffer**, with the capacity it was created with. -/
theorem bounded_of_run (hnt : Initial n s) (hch : s.channel c = { capacity := capacity })
    (hrun : Trans.run (logStep c) (s, {}) as = some (s', log)) :
    (s'.channel c).capacity = capacity ∧
      log.accepted.length ≤ log.received.length + capacity ∧
      (s'.rt.waiters (.senders c) ≠ [] → log.accepted.length = log.received.length + capacity) ∧
      (s'.rt.waiters (.receivers c) ≠ [] → log.received = log.accepted) ∧
      (capacity = 0 → log.received = log.accepted) := by
  obtain ⟨hlg, -⟩ := (Logged.initial hnt hch).run hrun
  have hff := hlg.fifo.fifo
  have hlen : log.accepted.length = log.received.length + (s'.channel c).length := by
    rw [← hff, length_append]
    simp [Channel.contents, Ring.contents]
  have hcap : (s'.channel c).capacity = capacity := by
    rw [Logged.keeps hrun (Logged.initial hnt hch), hch]
  have hle : (s'.channel c).length ≤ capacity := hcap ▸ hlg.ok.length_le
  have hnl : (s'.channel c).length = 0 → log.received = log.accepted := fun hz => by
    rwa [Channel.contents_nil hz, append_nil] at hff
  rw [hlen]
  refine ⟨hcap, Nat.add_le_add_left hle _, fun hne => ?_, fun hne => hnl (hlg.ok.receiving hne).1,
    fun hz => hnl (Nat.le_zero.mp (hz ▸ hle))⟩
  rw [(hlg.ok.sending hne).1, hcap]

theorem bounded_of_run_pass : ∃ s log,
    Trans.run (logStep 0) ({ rt := { workerCount := 1 }, channel := fun _ => { capacity := 1 } }, {})
      (passSchedule.take 13) = some (s, log) ∧
    s.rt.waiters (.senders 0) = [0] ∧ log.accepted.length = log.received.length + 1 := by
  have hev : (Trans.run (logStep 0)
      ({ rt := { workerCount := 1 }, channel := fun _ => { capacity := 1 } }, {})
      (passSchedule.take 13)).map (fun x => x.1.rt.waiters (.senders 0)) = some [0] := by rfl
  obtain ⟨⟨s, log⟩, hs, heq⟩ := map_eq_some_iff.mp hev
  obtain ⟨-, -, hfl, -⟩ := bounded_of_run ⟨by decide, rfl⟩ rfl hs
  exact ⟨s, log, hs, heq, hfl (ne_nil_of_mem (heq ▸ mem_singleton_self 0))⟩

end Runs

end Veloco.Sched
