import Veloco.Calls
import Veloco.Sched.Objects

/-!
# The waiting calls on a mutex, a semaphore or a wait group
-/

namespace Veloco.Sched

open List
open Veloco.Calls Veloco.Placement

variable {β : Type} {t w : TaskId} {s s' : System} {q : WaitQueue} {a : Action}

structure Asked where
  task : TaskId
  parked : Bool

def grants (asked : Asked) (status : Status) : Option TaskId :=
  if status = .ok then some asked.task else none

structure ObjectLog (β : Type) where
  waits : List (Entry TaskId Asked Status) := []
  acts : List β := []

namespace ObjectLog

variable (log : ObjectLog β)

def granted : List TaskId := outcomes grants log.waits

def waiting : List TaskId := (pending log.waits).map Entry.caller

def queued : List TaskId := (log.waits.filter fun e => e.arg.parked).map Entry.caller

def handed : List TaskId := outcomes grants (log.waits.filter fun e => e.arg.parked)

end ObjectLog

def Call.waitsAt (q : WaitQueue) : Call → Bool
  | .mutexLock m => q = .mutex m
  | .semaphoreWait i => q = .semaphore i
  | .waitGroupWait g => q = .waitGroup g
  | _ => false

def System.waitCalls (s : System) (q : WaitQueue) : Action → List (Entry TaskId Asked Status)
  | .call p c =>
    match (s.rt.ps p).pc with
    | .inTask t => if c.waitsAt q then [⟨t, ⟨t, (s.call p t c).2.isNone⟩, (s.call p t c).2⟩] else []
    | _ => []
  | _ => []

def ObjectLog.next (log : ObjectLog β) (q : WaitQueue) (act : System → Action → Option β) (s : System)
    (a : Action) (s' : System) : ObjectLog β where
  waits := settle (s'.rt.waiters q) (fun t _ => (s'.wait t).result) (log.waits ++ s.waitCalls q a)
  acts := log.acts ++ (act s a).toList

def objectStep (q : WaitQueue) (act : System → Action → Option β) (x : System × ObjectLog β)
    (a : Action) : Option (System × ObjectLog β) :=
  (step x.1 a).map fun s => (s, x.2.next q act x.1 a s)

inductive Moves (q : WaitQueue) (s : System) (a : Action) (s' : System) : List TaskId → Prop
  | same (hcs : s.waitCalls q a = []) (hw : s'.rt.waiters q = s.rt.waiters q) : Moves q s a s' []
  | granted {t : TaskId} (hcs : s.waitCalls q a = [⟨t, ⟨t, false⟩, some .ok⟩])
      (hw : s'.rt.waiters q = s.rt.waiters q) (hfr : s.rt.waiters q = []) : Moves q s a s' [t]
  | refused {t : TaskId} (hcs : s.waitCalls q a = [⟨t, ⟨t, false⟩, some .invalidState⟩])
      (hw : s'.rt.waiters q = s.rt.waiters q) : Moves q s a s' []
  | parked {t : TaskId} (hcs : s.waitCalls q a = [⟨t, ⟨t, true⟩, none⟩])
      (hw : s'.rt.waiters q = s.rt.waiters q ++ [t]) : Moves q s a s' []
  | popped {w : TaskId} {rest : List TaskId} (hcs : s.waitCalls q a = [])
      (hq : s.rt.waiters q = w :: rest) (hw : s'.rt.waiters q = rest)
      (hok : (s'.wait w).result = .ok) : Moves q s a s' [w]
  | all (hcs : s.waitCalls q a = []) (hw : s'.rt.waiters q = [])
      (hok : ∀ t ∈ s.rt.waiters q, (s'.wait t).result = .ok) : Moves q s a s' (s.rt.waiters q)

theorem waitsAt_touches {c : Call} (h : c.touches q = false) : c.waitsAt q = false := by
  cases c with
  | mutexLock m | semaphoreWait i | waitGroupWait g => exact h
  | _ => rfl

theorem waitCalls_of_not_touches (s : System) (h : a.touches q = false) : s.waitCalls q a = [] := by
  cases a with
  | call p c =>
    unfold System.waitCalls
    dsimp only
    rw [waitsAt_touches h]
    split <;> rfl
  | worker | free | owner => rfl

theorem Moves.of_sameAt (ha : a.touches q = false) (h : SameAt q s s') : Moves q s a s' [] :=
  .same (waitCalls_of_not_touches s ha) h.waiters

theorem waitCalls_call {p : PId} {c : Call} (hpc : (s.rt.ps p).pc = .inTask t)
    (hc : c.waitsAt q = true) :
    s.waitCalls q (.call p c) = [⟨t, ⟨t, (s.call p t c).2.isNone⟩, (s.call p t c).2⟩] := by
  unfold System.waitCalls
  dsimp only
  rw [hpc]
  exact if_pos hc

theorem Moves.of_park {p : PId} {c : Call} (hpc : (s.rt.ps p).pc = .inTask t)
    (hc : c.waitsAt q = true) (hcl : s.call p t c = s.park q t) :
    Moves q s (.call p c) (s.park q t).1 [] := by
  have hcs := waitCalls_call hpc hc
  rw [hcl] at hcs
  obtain hpr | ⟨s', hpr, -, hw, -⟩ := park_spec q t s
  · rw [hpr] at hcs ⊢
    exact .refused hcs rfl
  · rw [hpr] at hcs ⊢
    refine .parked hcs ?_
    rw [hw, Function.update_self]

structure Waits (q : WaitQueue) (s : System) (log : ObjectLog β) : Prop where
  queue : s.rt.waiters q = log.waiting
  order : InOrder grants log.waits
  task : ∀ e ∈ log.waits, e.arg.task = e.caller
  parked : ∀ e ∈ log.waits, e.answer = none → e.arg.parked = true
  handed : ∀ e ∈ log.waits, e.arg.parked = true → e.answer = none ∨ e.answer = some .ok

section Waits

variable {log : ObjectLog β} {act : System → Action → Option β}

theorem grants_ok {e : Entry TaskId Asked Status} (ht : e.arg.task = e.caller) :
    grants e.arg .ok = some e.caller := by
  unfold grants
  rw [if_pos rfl, ht]

theorem Waits.fifo (h : Waits q s log) : log.queued = log.handed ++ s.rt.waiters q := by
  have hord : InOrder grants (log.waits.filter fun e => e.arg.parked) := List.Pairwise.filter _ h.order
  have hser : ∀ e ∈ log.waits.filter (fun e => e.arg.parked),
      e.answer = none ∨ e.outcome grants = some e.caller := by
    intro e he
    obtain ⟨he, hpar⟩ := mem_filter.mp he
    refine (h.handed e he hpar).imp_right fun hok => ?_
    unfold Entry.outcome
    rw [hok]
    exact grants_ok (h.task e he)
  -- who has no answer had to wait
  have hpen : pending (log.waits.filter fun e => e.arg.parked) = pending log.waits := by
    unfold pending
    rw [filter_filter]
    refine filter_congr fun e he => ?_
    cases hnn : e.answer with
    | none => simp [h.parked e he hnn]
    | some status => rfl
  have hall := map_caller_eq hord hser
  rw [hpen] at hall
  rw [h.queue]
  exact hall

theorem next_waits {l : List (Entry TaskId Asked Status)} (hcs : s.waitCalls q a = l) :
    (log.next q act s a s').waits =
      settle (s'.rt.waiters q) (fun t _ => (s'.wait t).result) (log.waits ++ l) := by
  rw [← hcs]
  rfl

theorem Waits.asked {e : Entry TaskId Asked Status} (h : Waits q s log)
    (hcs : s.waitCalls q a = [e])
    (hque : s'.rt.waiters q = (pending (log.waits ++ [e])).map Entry.caller)
    (hfr : s.rt.waiters q ≠ [] → e.outcome grants = none) (hts : e.arg.task = e.caller)
    (hpar : e.answer = none → e.arg.parked = true)
    (hhan : e.arg.parked = true → e.answer = none ∨ e.answer = some .ok) :
    Waits q s' (log.next q act s a s') ∧
      (log.next q act s a s').granted = log.granted ++ (e.outcome grants).toList := by
  have hwai : (log.next q act s a s').waits = log.waits ++ [e] :=
    (next_waits hcs).trans (settle_waiting hque)
  -- what holds of every call holds of the old ones and of `e`
  have hall : ∀ P : Entry TaskId Asked Status → Prop, (∀ x ∈ log.waits, P x) → P e →
      ∀ x ∈ (log.next q act s a s').waits, P x := by
    intro P hold hnew x hx
    rw [hwai] at hx
    rcases mem_append.mp hx with hx | hx
    · exact hold x hx
    · rw [mem_singleton.mp hx]
      exact hnew
  refine ⟨⟨?_, ?_, ?_, ?_, ?_⟩, ?_⟩
  · unfold ObjectLog.waiting
    rw [hwai]
    exact hque
  · rw [hwai]
    refine h.order.append fun hne => hfr fun hnil => ?_
    exact hne (pending_eq_nil h.queue hnil)
  · exact hall _ h.task hts
  · exact hall _ h.parked hpar
  · exact hall _ h.handed hhan
  · unfold ObjectLog.granted
    rw [hwai, outcomes_append]

theorem Waits.settled (h : Waits q s log) (hcs : s.waitCalls q a = [])
    (hok : ∀ t ∈ s.rt.waiters q, t ∉ s'.rt.waiters q → (s'.wait t).result = .ok)
    (hque : s'.rt.waiters q = (log.next q act s a s').waiting)
    (hord : InOrder grants (log.next q act s a s').waits) : Waits q s' (log.next q act s a s') := by
  have hmem : ∀ e ∈ (log.next q act s a s').waits, e ∈ log.waits ∨ ∃ e' ∈ pending log.waits,
      e = { e' with answer := some .ok } := by
    intro e he
    rw [next_waits hcs, append_nil] at he
    refine (mem_settle he).imp_right ?_
    rintro ⟨e', hpen, hout, rfl⟩
    refine ⟨e', hpen, ?_⟩
    rw [hok e'.caller (h.queue ▸ mem_map_of_mem hpen) hout]
  refine ⟨hque, hord, fun e he => ?_, fun e he hnn => ?_, fun e he hpar => ?_⟩
  · rcases hmem e he with he | ⟨e', hpen, rfl⟩
    · exact h.task e he
    · exact h.task e' (mem_filter.mp hpen).1
  · rcases hmem e he with he | ⟨e', -, rfl⟩
    · exact h.parked e he hnn
    · cases hnn
  · rcases hmem e he with he | ⟨e', -, rfl⟩
    · exact h.handed e he hpar
    · exact Or.inr rfl

theorem Waits.move {given : List TaskId} (h : Waits q s log) (act : System → Action → Option β)
    (hex : Exclusive s.rt.waiters) (hm : Moves q s a s' given) :
    Waits q s' (log.next q act s a s') ∧ (log.next q act s a s').granted = log.granted ++ given := by
  cases hm with
  | same hcs hw =>
    have hsm : (log.next q act s a s').waits = log.waits := by
      rw [next_waits hcs, append_nil]
      exact settle_waiting (hw.trans h.queue)
    refine ⟨h.settled hcs (fun t ht hout => absurd (hw ▸ ht) hout) ?_ ?_, ?_⟩
    · unfold ObjectLog.waiting
      rw [hsm]
      exact hw.trans h.queue
    · rw [hsm]
      exact h.order
    · unfold ObjectLog.granted
      rw [hsm, append_nil]
  | granted hcs hw hfr =>
    refine h.asked hcs ?_ (fun hne => absurd hfr hne) rfl (fun hnn => by cases hnn)
      fun hpar => by cases hpar
    rw [pending_append_answered (by simp)]
    exact hw.trans h.queue
  | refused hcs hw =>
    refine h.asked hcs ?_ (fun _ => rfl) rfl (fun hnn => by cases hnn)
      fun hpar => by cases hpar
    rw [pending_append_answered (by simp)]
    exact hw.trans h.queue
  | parked hcs hw =>
    refine h.asked hcs ?_ (fun _ => rfl) rfl (fun _ => rfl) fun _ => Or.inl rfl
    rw [pending_append_waiting rfl, map_append, hw, h.queue]
    rfl
  | popped hcs hq hw hok =>
    rename_i w rest
    have hnod := hex.nodup q
    rw [hq] at hnod
    obtain ⟨e, others, hpen, rfl, hoth, hset⟩ := settle_queue (hq.symm.trans h.queue) hnod h.order
    obtain ⟨hpending', htc, hord⟩ := hset fun t _ => (s'.wait t).result
    have hwai : (log.next q act s a s').waits =
        settle rest (fun t _ => (s'.wait t).result) log.waits := by
      rw [next_waits hcs, append_nil, hw]
    have hts : e.arg.task = e.caller :=
      h.task e (mem_filter.mp (hpen ▸ mem_cons_self : e ∈ pending log.waits)).1
    refine ⟨h.settled hcs (fun t ht hout => ?_) ?_ ?_, ?_⟩
    · rw [hq] at ht
      rcases mem_cons.mp ht with rfl | ht
      · exact hok
      · exact absurd (hw ▸ ht) hout
    · unfold ObjectLog.waiting
      rw [hwai, hpending', hw]
      exact hoth.symm
    · rw [hwai]
      exact hord
    · unfold ObjectLog.granted
      rw [hwai, htc, hok, grants_ok hts]
      rfl
  | all hcs hw hok =>
    have hwai : (log.next q act s a s').waits =
        settle [] (fun t _ => (s'.wait t).result) log.waits := by
      rw [next_waits hcs, append_nil, hw]
    have hnn := pending_settle_all (fun t (_ : Asked) => (s'.wait t).result) log.waits
    refine ⟨h.settled hcs (fun t ht _ => hok t ht) ?_ ?_, ?_⟩
    · unfold ObjectLog.waiting
      rw [hwai, hnn]
      exact hw
    · rw [hwai]
      exact inOrder_of_pending hnn
    · unfold ObjectLog.granted
      rw [hwai, outcomes_settle_all _ h.order, h.queue]
      congr 1
      have hgiv : ∀ e ∈ pending log.waits,
          grants e.arg (s'.wait e.caller).result = some e.caller := by
        intro e he
        rw [hok e.caller (h.queue ▸ mem_map_of_mem he)]
        exact grants_ok (h.task e (mem_filter.mp he).1)
      rw [filterMap_congr hgiv]
      exact congrFun filterMap_eq_map _

theorem Waits.initial {n : ℕ} (hnt : Initial n s) : Waits q s ({} : ObjectLog β) := by
  refine ⟨?_, List.Pairwise.nil, ?_, ?_, ?_⟩
  · rw [hnt.rt]
    rfl
  all_goals
    intro e he
    exact absurd he not_mem_nil

theorem objectStep_run {I : System × ObjectLog β → Prop} {x y : System × ObjectLog β}
    {as : List Action} (hst : ∀ {x y a}, I x → objectStep q act x a = some y →
      I y ∧ x.2.granted <+: y.2.granted)
    (hrun : Trans.run (objectStep q act) x as = some y) (h : I x) :
    I y ∧ x.2.granted <+: y.2.granted := by
  refine Trans.run_invariant (I := fun z => I z ∧ x.2.granted <+: z.2.granted)
    (fun z a z' hz hI => ?_) hrun ⟨h, prefix_rfl⟩
  obtain ⟨hnx, hgr⟩ := hst hI.1 hz
  exact ⟨hnx, hI.2.trans hgr⟩

end Waits

end Veloco.Sched
