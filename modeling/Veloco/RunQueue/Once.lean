import Veloco.RunQueue.Owner

/-!
# Every pushed item is taken exactly once
-/

namespace Veloco.RunQueue

open Function List Option
open Veloco.Word Veloco.Placement

variable {α : Type} {s s' : State α} {live : List (Entry α)}

variable {e : Entry α} {a : Action α} {capacity : ℕ} {calloc : Bool} {s₀ : State α}
variable {as : List (Action α)}

section Thief

variable {i : ℕ}

theorem held_of_thief (hown : s'.ownerHeld = s.ownerHeld)
    (hthi : ∀ j, j ≠ i → s'.thief j = s.thief j) (hpop : s'.popped = s.popped) (k : Holder)
    (hk : k ∉ [Holder.stolen, .thief i]) : held s' k = held s k := by
  cases k with
  | popped => exact hpop
  | stolen => simp at hk
  | owner => exact hown
  | thief j =>
    have hj : j ≠ i := by
      rintro rfl
      simp at hk
    simp only [held, hthi j hj]

theorem thiefOk_idle (s : State α) : ThiefOk s ⟨.idle, none, []⟩ := ⟨fun _ => rfl, rfl⟩

theorem inv_stealReturn_none (h : Inv s live) (i : ℕ) : Inv (stealReturn s i none) live := by
  have hret : stealReturn s i none = { s with
      thief := update s.thief i ⟨.idle, none, []⟩
      stolen := s.stolen ++ (s.thief i).items } := by
    cases hm : (s.thief i).maximum with
    | none => simp [stealReturn, hm, (h.thief i).1 hm]
    | some m => simp [stealReturn, hm]
  rw [hret]
  set s' : State α := { s with
    thief := update s.thief i ⟨.idle, none, []⟩
    stolen := s.stolen ++ (s.thief i).items } with hs'
  have hok : HeldOk s' := by
    refine h.held_give (by simp : [Holder.stolen, .thief i].Nodup) .steal (by simp [Holder.event])
      (held_of_thief rfl (fun j hj => update_of_ne hj _ _) rfl) ?_ rfl
    simp [held, hs']
  refine ⟨h.pow, h.mask, h.capacity, h.top_le, h.room, h.bound, h.length, h.slots, h.replay,
    h.pushes, h.owner, fun j => ?_, hok⟩
  by_cases hj : j = i
  · subst hj
    simp only [hs', update_self]
    exact thiefOk_idle _
  · simp only [hs', update_of_ne hj]
    exact h.thief j

theorem ownerOk_advance (ho : OwnerOk s) (hlt : s.queue.top < s.limit)
    (hq : s'.queue = { s.queue with top := s.queue.top + 1 }) (hwn : s'.owner = s.owner)
    (hpus : s'.pushed = s.pushed) : OwnerOk s' := by
  unfold State.limit at hlt
  unfold OwnerOk at ho ⊢
  rw [hwn, hq, hpus]
  cases hpc : s.owner <;> simp only [hpc] at ho hlt ⊢
  case pushLoadTop => exact ho
  case pushStoreSlot => exact ⟨ho.1, by omega⟩
  case pushStoreBottom => exact ⟨ho.1, by omega, ho.2.2⟩
  case popStoreBottom => exact ho
  case popLoadTop => exact ho
  case popRestoreBottom => omega
  case popLoadSlot => omega
  case popCas => exact ⟨ho.1, by omega, ho.2.2⟩
  case popPublishBottom => omega

theorem inv_stealReturn_some {rest : List (Entry α)} (h : Inv s (e :: rest)) (i : ℕ) :
    Inv (stealReturn { s with
      queue := { s.queue with top := s.queue.top + 1 }
      log := s.log ++ [.steal e] } i (some e)) rest := by
  have hl := h.length
  simp only [length_cons] at hl
  set th : Thief α := s.thief i with hth
  -- the call goes on with one more item, or ends and hands over the items
  have key : ∀ (th' : Thief α) (ret : List (Entry α)), th'.pc = .loadTop ∨ th' = ⟨.idle, none, []⟩ →
      (th'.maximum = none → th'.items = []) →
      (ret ++ th'.items).Perm ([e] ++ (s.stolen ++ th.items)) →
      Inv { s with
        queue := { s.queue with top := s.queue.top + 1 }
        thief := update s.thief i th'
        stolen := ret
        log := s.log ++ [.steal e] } rest := by
    intro th' ret hpc hmax hpr
    set s' : State α := { s with
      queue := { s.queue with top := s.queue.top + 1 }
      thief := update s.thief i th'
      stolen := ret
      log := s.log ++ [.steal e] } with hs'
    have hsl : s'.thief i = th' := update_self _ _ _
    have hoth : ∀ j, j ≠ i → s'.thief j = s.thief j := fun j hj => update_of_ne hj _ _
    refine h.advance rfl rfl rfl (.steal e h.replay) (by simp [hs'])
      (ownerOk_advance h.owner (by omega) rfl rfl rfl) (fun j => ?_) ?_
    · by_cases hj : j = i
      · subst hj
        refine .inr ?_
        rw [hsl]
        refine ⟨hmax, ?_⟩
        rcases hpc with hpc | rfl
        · rw [hpc]
          trivial
        · rfl
      · exact .inl (hoth j hj)
    · refine h.held_take (e := e) (by simp) (by simp : [Holder.stolen, .thief i].Nodup)
        (by simp [Holder.event]) (held_of_thief rfl hoth rfl) ?_ rfl (by simp [hs'])
      simpa [held, hsl, ← hth] using hpr
  have hcm : (s.stolen ++ (th.items ++ [e])).Perm ([e] ++ (s.stolen ++ th.items)) := by
    rw [← append_assoc]
    exact perm_append_comm
  unfold stealReturn
  dsimp only
  cases hm : (s.thief i).maximum with
  | none =>
    have hnil : th.items = [] := (h.thief i).1 hm
    refine key _ _ (.inr rfl) (fun _ => rfl) ?_
    rw [append_nil]
    rw [hnil, nil_append] at hcm
    rw [hnil]
    exact hcm
  | some maximum =>
    simp only
    split_ifs with hlt
    · exact key ⟨.loadTop, some maximum, th.items ++ [e]⟩ _ (.inl rfl) (by simp) hcm
    · refine key _ _ (.inr rfl) (fun _ => rfl) ?_
      rw [append_nil]
      exact hcm

theorem inv_thiefStep (h : Inv s live) (hp : s.pushed.length < modulus)
    (hs : thiefStep s i = some s') : ∃ live', Inv s' live' := by
  have ht := h.thief i
  have htl := h.top_le
  have hbd := h.bound
  obtain ⟨hmax, hpk⟩ := ht
  cases hpc : (s.thief i).pc with
  | idle => simp [thiefStep, hpc] at hs
  | loadTop =>
    simp only [thiefStep, hpc, some.injEq] at hs
    subst hs
    exact ⟨live, h.setThief i _ rfl ⟨hmax, le_rfl⟩⟩
  | loadBottom top =>
    simp only [hpc] at hpk
    simp only [thiefStep, hpc] at hs
    split_ifs at hs with hle
    · cases hs
      exact ⟨live, inv_stealReturn_none h i⟩
    · cases hs
      refine ⟨live, h.setThief i _ rfl ⟨hmax, hpk, fun _ => ?_⟩⟩
      have := h.bottom_le_limit
      omega
  | loadSlot top =>
    simp only [hpc] at hpk
    simp only [thiefStep, hpc, some.injEq] at hs
    subst hs
    exact ⟨live, h.setThief i _ rfl ⟨hmax, hpk.1, fun he => ⟨hpk.2 he, rfl⟩⟩⟩
  | cas top item =>
    simp only [hpc] at hpk
    simp only [thiefStep, hpc] at hs
    split_ifs at hs with he
    · -- `top` did not move since the thief loaded it, so it still names the oldest entry
      obtain ⟨hlt, htm⟩ := hpk.2 he
      obtain ⟨e, rest, rfl, hst⟩ := h.head (by omega)
      rw [htm, ← he, hst, add_of_lt (by omega)] at hs
      simp only [map_some, toList_some, some.injEq] at hs
      subst hs
      exact ⟨rest, inv_stealReturn_some h i⟩
    · cases hs
      exact ⟨live, inv_stealReturn_none h i⟩

end Thief

theorem inv_step (h : Inv s live) (hs : step s a = some s')
    (hp : s'.pushed.length < modulus) : ∃ live', Inv s' live' := by
  cases a with
  | callPush item =>
    cases item with
    | none =>
      cases hs
      exact ⟨live, h⟩
    | some item =>
      simp only [step] at hs
      split at hs
      · rename_i hpc
        cases hs
        exact ⟨live, h.setOwner _ (by simp [State.limit, hpc]) (by simp [State.ownerHeld, hpc]) trivial⟩
      · cases hs
  | callPop =>
    simp only [step] at hs
    split at hs
    · rename_i hpc
      cases hs
      exact ⟨live, h.setOwner _ (by simp [State.limit, hpc]) (by simp [State.ownerHeld, hpc]) trivial⟩
    · cases hs
  | owner => exact inv_ownerStep h hs hp
  | callSteal i =>
    have ht := h.thief i
    simp only [step] at hs
    split at hs
    · rename_i hpc
      simp only [ThiefOk, hpc] at ht
      cases hs
      exact ⟨live, h.setThief i _ (ht.1 ht.2).symm ⟨fun _ => rfl, trivial⟩⟩
    · cases hs
  | callStealBatch i maximum =>
    have ht := h.thief i
    simp only [step] at hs
    split at hs
    · rename_i hpc
      simp only [ThiefOk, hpc] at ht
      split_ifs at hs
      · cases hs
        exact ⟨live, h.setThief i _ (ht.1 ht.2).symm ⟨fun _ => rfl, trivial⟩⟩
      · cases hs
        exact ⟨live, h⟩
    · cases hs
  | thief i =>
    refine inv_thiefStep h ?_ hs
    rwa [← thiefStep_pushed hs]

theorem step_pushed_le (hs : step s a = some s') : s.pushed.length ≤ s'.pushed.length := by
  cases a with
  | callPush item =>
    cases item with
    | none =>
      cases hs
      exact le_rfl
    | some item =>
      simp only [step] at hs
      split at hs
      · cases hs
        exact le_rfl
      · cases hs
  | callPop =>
    simp only [step] at hs
    split at hs
    · cases hs
      exact le_rfl
    · cases hs
  | owner => exact ownerStep_pushed_le hs
  | callSteal i =>
    simp only [step] at hs
    split at hs
    · cases hs
      exact le_rfl
    · cases hs
  | callStealBatch i maximum =>
    simp only [step] at hs
    split at hs
    · split_ifs at hs <;> cases hs <;> exact le_rfl
    · cases hs
  | thief i => exact (thiefStep_pushed hs ▸ le_rfl)

theorem inv_init (h : State.init capacity calloc = some s) : Inv s [] := by
  simp only [State.init, map_eq_some_iff] at h
  obtain ⟨q, hq, rfl⟩ := h
  unfold Queue.init at hq
  split_ifs at hq with hbad hcalloc
  cases hq
  push Not at hbad
  obtain ⟨-, hpow, hcap⟩ := hbad
  rw [ne_eq, Bool.not_eq_false, isPowerOfTwo_iff] at hpow
  have hsz : sizeMax / 8 < modulus := by decide
  refine ⟨hpow, rfl, lt_of_le_of_lt hcap hsz,
    le_rfl, Nat.zero_le _, Nat.zero_le _, rfl, ?_, .nil, rfl, trivial,
    fun i => thiefOk_idle _, ⟨?_, ?_, ?_⟩⟩
  · intro j hj
    simp at hj
  · refine ⟨fun k => ?_, fun {x k l} hk _ => ?_⟩ <;> cases k <;> simp_all [held, State.ownerHeld]
  · intro e
    simp only [Deque.takes, filterMap_nil, not_mem_nil, false_iff, not_exists]
    intro k
    cases k <;> simp [held, State.ownerHeld]
  · intro k e he
    cases k <;> simp [held, State.ownerHeld] at he

theorem inv_run
    (hnt : State.init capacity calloc = some s₀) (hrun : Trans.run step s₀ as = some s)
    (hp : s.pushed.length < modulus) : ∃ live, Inv s live := by
  refine Trans.run_invariant (I := fun s => s.pushed.length < modulus → ∃ live, Inv s live) ?_ hrun
    (fun _ => ⟨[], inv_init hnt⟩) hp
  intro s a t hs hI hp
  obtain ⟨live, h⟩ := hI (lt_of_le_of_lt (step_pushed_le hs) hp)
  exact inv_step h hs hp

theorem Inv.returned_nodup (h : Inv s live) : s.returned.Nodup := by
  have hnd := h.holders.exclusive.flatMap_nodup (by simp : [Holder.popped, .stolen].Nodup)
  simpa [held, State.returned] using hnd

theorem Inv.mem_pushes_of_returned (h : Inv s live) (he : e ∈ s.returned) :
    e ∈ Deque.takes s.log ∧ e ∈ s.pushes := by
  have ht : e ∈ Deque.takes s.log := by
    rw [h.holders.taken]
    rcases mem_append.mp he with he | he
    · exact ⟨.popped, he⟩
    · exact ⟨.stolen, he⟩
  refine ⟨ht, ?_⟩
  rw [← h.pushes]
  exact h.replay.perm.subset (mem_append_left _ ht)

theorem Inv.takes_of_quiescent (h : Inv s live) (hq : Quiescent s) (e : Entry α) :
    e ∈ Deque.takes s.log ↔ e ∈ s.returned := by
  rw [h.holders.taken, State.returned, mem_append]
  constructor
  · rintro ⟨k, hk⟩
    cases k with
    | popped => exact Or.inl hk
    | stolen => exact Or.inr hk
    | owner =>
      have hdl := hq.1
      simp only [held, State.ownerHeld] at hk
      split at hk <;> simp_all
    | thief i =>
      have hdl := hq.2 i
      have hok := h.thief i
      simp only [ThiefOk] at hok
      split at hdl
      · rename_i hpc
        simp only [hpc] at hok
        rw [held, hok.1 hok.2] at hk
        simp at hk
      · exact hdl.elim
  · rintro (he | he)
    · exact ⟨.popped, he⟩
    · exact ⟨.stolen, he⟩

theorem limit_of_quiescent (hq : Quiescent s) : s.limit = s.queue.bottom := by
  have hdl := hq.1
  unfold State.limit
  split at hdl
  · rename_i hpc
    rw [hpc]
  · exact hdl.elim

theorem Inv.window_of_quiescent (h : Inv s live) (hq : Quiescent s) :
    s.queue.window = live.map some := by
  have hlim := limit_of_quiescent hq
  have hl := h.length
  unfold Queue.window
  refine ext_getElem (by simp; omega) fun j h1 h2 => ?_
  simp only [length_map] at h2
  simp [h.slots j h2]

/-- **Exactly once.** -/
theorem run_queue_exactly_once {capacity : ℕ} {calloc : Bool} {s₀ : State α} {as : List (Action α)}
    (hnt : State.init capacity calloc = some s₀) (hrun : Trans.run step s₀ as = some s)
    (hps : s.pushed.length < 2 ^ 64) :
    (s.returned.map Entry.serial).Nodup ∧
    (∀ e ∈ s.returned, s.pushed[e.serial]? = some e.item) ∧
    (∃ live, Deque.Replay s.log live ∧ Deque.pushes s.log = s.pushes ∧
      (∀ e ∈ s.popped, .pop e ∈ s.log) ∧ (∀ e ∈ s.stolen, .steal e ∈ s.log)) ∧
    (Quiescent s → s.queue.top ≤ s.queue.bottom ∧
      s.queue.window =
        (s.pushes.filter fun e => e.serial ∉ s.returned.map Entry.serial).map some) := by
  obtain ⟨live, h⟩ := inv_run hnt hrun hps
  have hinj : ∀ x ∈ s.pushes, ∀ y ∈ s.pushes, x.serial = y.serial → x = y :=
    inj_on_of_nodup_map (pushes_serial s ▸ nodup_range)
  refine ⟨?_, fun e he => mem_pushes.mp (h.mem_pushes_of_returned he).2,
    ⟨live, h.replay, h.pushes, h.holders.origin .popped, h.holders.origin .stolen⟩, fun hq => ?_⟩
  · refine h.returned_nodup.map_on fun x hx y hy hxy => ?_
    exact hinj x (h.mem_pushes_of_returned hx).2 y (h.mem_pushes_of_returned hy).2 hxy
  · rw [h.window_of_quiescent hq]
    refine ⟨limit_of_quiescent hq ▸ h.top_le, ?_⟩
    classical
    rw [h.replay.eq_filter (h.pushes ▸ pushes_nodup s), h.pushes]
    congr 1
    refine filter_congr fun e he => ?_
    rw [decide_eq_decide, h.takes_of_quiescent hq, not_iff_not]
    -- serial numbers identify pushes
    constructor
    · exact fun hr => mem_map_of_mem hr
    · intro hr
      obtain ⟨x, hx, hxe⟩ := mem_map.mp hr
      exact hinj x (h.mem_pushes_of_returned hx).2 e he hxe ▸ hx

/-- A thief steals the first of two items while the owner pushes the second. -/
def twoItems : List (Action ℕ) :=
  [.callPush (some 7)] ++ List.replicate 4 .owner ++
    [.callSteal 0, .thief 0, .thief 0, .callPush (some 8)] ++ List.replicate 4 .owner ++
    [.thief 0, .thief 0]

theorem run_queue_exactly_once_twoItems : ∃ s₀ s : State ℕ, State.init 2 true = some s₀ ∧
    Trans.run step s₀ twoItems = some s ∧ s.stolen = [⟨0, 7⟩] ∧ s.pushed = [7, 8] ∧
      (s.returned.map Entry.serial).Nodup := by
  obtain ⟨s₀, hnt⟩ : ∃ s₀ : State ℕ, State.init 2 true = some s₀ := ⟨_, rfl⟩
  have hrun : ((State.init 2 true).bind fun s₀ : State ℕ => Trans.run step s₀ twoItems).map
      (fun s => (s.stolen, s.pushed)) = some ([⟨0, 7⟩], [7, 8]) := by decide +kernel
  rw [hnt, map_eq_some_iff] at hrun
  obtain ⟨s, hs, heq⟩ := hrun
  simp only [Prod.mk.injEq] at heq
  refine ⟨s₀, s, hnt, hs, heq.1, heq.2, (run_queue_exactly_once hnt hs ?_).1⟩
  rw [heq.2]
  decide

end Veloco.RunQueue
