import Veloco.Placement
import Veloco.Ring
import Veloco.RunQueue.Model

/-!
# The invariant of the work-stealing deque
-/

namespace Veloco.RunQueue

open Function List
open Veloco.Word Veloco.Placement

variable {α : Type} {s : State α} {live : List (Entry α)}

variable {e : Entry α} {s' : State α} {ks : List Holder}

/-! ## Definitions -/

def State.limit (s : State α) : ℕ :=
  match s.owner with
  | .popLoadTop bottom => bottom + 1
  | .popRestoreBottom top => top
  | .popLoadSlot bottom top => if top < bottom then bottom else bottom + 1
  | .popCas top _ => top + 1
  | .popPublishBottom top _ => top + 1
  | _ => s.queue.bottom

def State.ownerHeld (s : State α) : List (Entry α) :=
  match s.owner with
  | .popLoadSlot bottom top => if top < bottom then (s.queue.slot bottom).toList else []
  | .popPublishBottom _ item => item.toList
  | _ => []

def OwnerOk (s : State α) : Prop :=
  let q := s.queue
  match s.owner with
  | .idle | .pushLoadBottom _ | .popLoadBottom => True
  | .pushLoadTop _ bottom => bottom = q.bottom
  | .pushStoreSlot _ bottom => bottom = q.bottom ∧ bottom < q.top + q.capacity
  | .pushStoreBottom item bottom =>
    bottom = q.bottom ∧ bottom < q.top + q.capacity ∧ q.slot bottom = some ⟨s.pushed.length, item⟩
  | .popStoreBottom bottom => q.bottom = bottom + 1
  | .popLoadTop bottom => q.bottom = bottom
  | .popRestoreBottom top => q.top = top ∧ q.bottom + 1 = top
  | .popLoadSlot bottom top => q.bottom = bottom ∧ top ≤ bottom ∧ top ≤ q.top
  | .popCas top item => q.bottom = top ∧ top ≤ q.top ∧ item = q.slot top
  | .popPublishBottom top _ => q.bottom = top ∧ q.top = top + 1

def ThiefOk (s : State α) (th : Thief α) : Prop :=
  (th.maximum = none → th.items = []) ∧
  match th.pc with
  | .idle => th.maximum = none
  | .loadTop => True
  | .loadBottom top => top ≤ s.queue.top
  | .loadSlot top => top ≤ s.queue.top ∧ (s.queue.top = top → top < s.limit)
  | .cas top item =>
    top ≤ s.queue.top ∧ (s.queue.top = top → top < s.limit ∧ item = s.queue.slot top)

inductive Holder where
  | popped
  | stolen
  | owner
  | thief (i : ℕ)
  deriving DecidableEq

def held (s : State α) : Holder → List (Entry α)
  | .popped => s.popped
  | .stolen => s.stolen
  | .owner => s.ownerHeld
  | .thief i => (s.thief i).items

def Holder.event : Holder → Entry α → Deque.Event (Entry α)
  | .popped | .owner => .pop
  | .stolen | .thief _ => .steal

structure HeldOk (s : State α) : Prop where
  exclusive : Exclusive (held s)
  taken : ∀ e, e ∈ Deque.takes s.log ↔ ∃ k, e ∈ held s k
  origin : ∀ k, ∀ e ∈ held s k, k.event e ∈ s.log

structure Inv (s : State α) (live : List (Entry α)) : Prop where
  pow : ∃ k, s.queue.capacity = 2 ^ k
  mask : s.queue.mask = s.queue.capacity - 1
  capacity : s.queue.capacity < modulus
  top_le : s.queue.top ≤ s.limit
  room : s.limit ≤ s.queue.top + s.queue.capacity
  bound : s.limit ≤ s.pushed.length
  length : s.queue.top + live.length = s.limit
  slots : ∀ j (hj : j < live.length), s.queue.slot (s.queue.top + j) = some live[j]
  replay : Deque.Replay s.log live
  pushes : Deque.pushes s.log = s.pushes
  owner : OwnerOk s
  thief : ∀ i, ThiefOk s (s.thief i)
  holders : HeldOk s

theorem pushes_serial (s : State α) : s.pushes.map Entry.serial = List.range s.pushed.length := by
  unfold State.pushes
  rw [map_map]
  exact zipIdx_map_snd 0 s.pushed |>.trans (by rw [range_eq_range'])

theorem pushes_nodup (s : State α) : s.pushes.Nodup :=
  List.Nodup.of_map Entry.serial (pushes_serial s ▸ nodup_range)

theorem mem_pushes : e ∈ s.pushes ↔ s.pushed[e.serial]? = some e.item := by
  unfold State.pushes
  simp only [mem_map, Prod.exists, mk_mem_zipIdx_iff_getElem?]
  constructor
  · rintro ⟨x, n, h, rfl⟩
    exact h
  · intro h
    exact ⟨e.item, e.serial, h, rfl⟩

theorem pushes_concat (s s' : State α) (item : α) (h : s'.pushed = s.pushed ++ [item]) :
    s'.pushes = s.pushes ++ [⟨s.pushed.length, item⟩] := by
  unfold State.pushes
  rw [h, zipIdx_append, map_append]
  simp

theorem Inv.land (h : Inv s live) (i : ℕ) : i &&& s.queue.mask = i % s.queue.capacity := by
  obtain ⟨k, hk⟩ := h.pow
  rw [h.mask, hk, Nat.and_two_pow_sub_one_eq_mod]

theorem slot_storeSlot_self (q : Queue α) (i : ℕ) (e : Entry α) :
    (q.storeSlot i e).slot i = some e := by
  simp [Queue.slot, Queue.storeSlot]

theorem Inv.slot_storeSlot_ne (h : Inv s live) {i j : ℕ} (e : Entry α) (hij : i < j)
    (hc : j < i + s.queue.capacity) : (s.queue.storeSlot j e).slot i = s.queue.slot i := by
  have hne : i &&& s.queue.mask ≠ j &&& s.queue.mask := by
    rw [h.land, h.land]
    exact Ring.mod_ne_of_lt hij hc
  simp [Queue.slot, Queue.storeSlot, update_of_ne hne]

theorem Inv.head (h : Inv s live) (hlt : s.queue.top < s.limit) :
    ∃ e rest, live = e :: rest ∧ s.queue.slot s.queue.top = some e := by
  have hl := h.length
  cases live with
  | nil => simp at hl; omega
  | cons e rest => exact ⟨e, rest, rfl, h.slots 0 (Nat.succ_pos _)⟩

theorem Inv.last (h : Inv s live) {b : ℕ} (hb : s.limit = b + 1) (hlt : s.queue.top ≤ b) :
    ∃ e rest, live = rest ++ [e] ∧ s.queue.slot b = some e := by
  have hl := h.length
  have hne : live ≠ [] := by
    rintro rfl
    simp at hl
    omega
  refine ⟨live.getLast hne, live.dropLast, (dropLast_append_getLast hne).symm, ?_⟩
  have hj : live.length - 1 < live.length := by
    have := length_pos_iff.mpr hne
    omega
  have hs := h.slots (live.length - 1) hj
  rw [show s.queue.top + (live.length - 1) = b by omega] at hs
  rw [hs, getLast_eq_getElem]

theorem Inv.bottom_le_limit (h : Inv s live) : s.queue.bottom ≤ s.limit := by
  have ho := h.owner
  unfold OwnerOk at ho
  unfold State.limit
  cases hpc : s.owner <;> simp only [hpc] at ho ⊢ <;> (try split_ifs) <;> omega

theorem Inv.absent (h : Inv s live) (he : e ∈ live) : Absent (held s) e := by
  intro k hk
  have ht : e ∈ Deque.takes s.log := (h.holders.taken e).mpr ⟨k, hk⟩
  have hnd : (Deque.takes s.log ++ live).Nodup :=
    h.replay.perm.nodup_iff.mpr (h.pushes ▸ pushes_nodup s)
  exact (nodup_append.mp hnd).2.2 e ht e he rfl

theorem HeldOk.congr (h : HeldOk s) (hhl : ∀ k, held s' k = held s k)
    (hlog : s'.log = s.log) : HeldOk s' := by
  have hh : held s' = held s := funext hhl
  refine ⟨?_, ?_, ?_⟩
  · rw [hh]; exact h.exclusive
  · rw [hh, hlog]; exact h.taken
  · rw [hh, hlog]; exact h.origin

theorem ThiefOk.mono {th : Thief α} (h : ThiefOk s th) (htop : s.queue.top ≤ s'.queue.top)
    (hkeep : s'.queue.top = s.queue.top → s.queue.top < s.limit →
      s.queue.top < s'.limit ∧ s'.queue.slot s.queue.top = s.queue.slot s.queue.top) :
    ThiefOk s' th := by
  unfold ThiefOk at h ⊢
  refine ⟨h.1, ?_⟩
  replace h := h.2
  split at h
  · exact h
  · trivial
  · exact h.trans htop
  · rename_i top _
    refine ⟨h.1.trans htop, fun he => ?_⟩
    have he' : s.queue.top = top := by omega
    have hk := hkeep (by omega) (by have := h.2 he'; omega)
    omega
  · rename_i top item _
    refine ⟨h.1.trans htop, fun he => ?_⟩
    have he' : s.queue.top = top := by omega
    obtain ⟨hlt, htm⟩ := h.2 he'
    obtain ⟨hlt', hsl⟩ := hkeep (by omega) (by omega)
    rw [he'] at hlt' hsl
    exact ⟨hlt', htm.trans hsl.symm⟩

theorem Inv.setOwner (h : Inv s live) (pc : OwnerPc α)
    (hlim : State.limit { s with owner := pc } = s.limit)
    (hhl : State.ownerHeld { s with owner := pc } = s.ownerHeld)
    (hok : OwnerOk { s with owner := pc }) : Inv { s with owner := pc } live := by
  refine ⟨h.pow, h.mask, h.capacity, ?_, ?_, ?_, ?_, h.slots, h.replay, h.pushes, hok, ?_, ?_⟩
  · rw [hlim]; exact h.top_le
  · rw [hlim]; exact h.room
  · rw [hlim]; exact h.bound
  · rw [hlim]; exact h.length
  · intro i
    exact (h.thief i).mono le_rfl fun _ hlt => ⟨by rw [hlim]; exact hlt, rfl⟩
  · refine h.holders.congr (fun k => ?_) rfl
    cases k with
    | popped => rfl
    | stolen => rfl
    | owner => exact hhl
    | thief i => rfl

theorem Inv.setThief (h : Inv s live) (i : ℕ) (th : Thief α)
    (hite : th.items = (s.thief i).items) (hok : ThiefOk s th) :
    Inv { s with thief := update s.thief i th } live := by
  refine ⟨h.pow, h.mask, h.capacity, h.top_le, h.room, h.bound, h.length, h.slots, h.replay,
    h.pushes, h.owner, ?_, ?_⟩
  · intro j
    show ThiefOk s (update s.thief i th j)
    by_cases hj : j = i
    · subst hj
      rw [update_self]
      exact hok
    · rw [update_of_ne hj]
      exact h.thief j
  · refine h.holders.congr (fun k => ?_) rfl
    cases k with
    | popped => rfl
    | stolen => rfl
    | owner => rfl
    | thief j =>
      by_cases hj : j = i
      · subst hj
        simp [held, hite]
      · simp [held, update_of_ne hj]

theorem Inv.advance {rest : List (Entry α)} (h : Inv s (e :: rest))
    (hq : s'.queue = { s.queue with top := s.queue.top + 1 }) (hlim : s'.limit = s.limit)
    (hpus : s'.pushed = s.pushed) (hrep : Deque.Replay s'.log rest)
    (hps : Deque.pushes s'.log = Deque.pushes s.log) (hok : OwnerOk s')
    (hthi : ∀ i, s'.thief i = s.thief i ∨ ThiefOk s' (s'.thief i))
    (hhl : HeldOk s') : Inv s' rest := by
  have hl := h.length
  have hrm := h.room
  rw [length_cons] at hl
  refine ⟨?_, ?_, ?_, ?_, ?_, ?_, ?_, ?_, hrep, ?_, hok, fun i => ?_, hhl⟩
  · rw [hq]; exact h.pow
  · rw [hq]; exact h.mask
  · rw [hq]; exact h.capacity
  · rw [hq, hlim]
    show s.queue.top + 1 ≤ s.limit
    omega
  · rw [hq, hlim]
    show s.limit ≤ s.queue.top + 1 + s.queue.capacity
    omega
  · rw [hlim, hpus]; exact h.bound
  · rw [hq, hlim]
    show s.queue.top + 1 + rest.length = s.limit
    omega
  · intro j hj
    have := h.slots (j + 1) (by simpa using hj)
    rw [hq]
    show s.queue.slot (s.queue.top + 1 + j) = some rest[j]
    rw [show s.queue.top + 1 + j = s.queue.top + (j + 1) by omega, this]
    rfl
  · rw [hps, h.pushes]
    simp only [State.pushes, hpus]
  · rcases hthi i with hi | hi
    · rw [hi]
      -- its expected value is the old `top`
      refine (h.thief i).mono (by rw [hq]; exact Nat.le_succ _) fun he _ => ?_
      rw [hq] at he
      exact absurd he (Nat.succ_ne_self _)
    · exact hi

theorem Inv.held_take (h : Inv s live) (he : e ∈ live) (hks : ks.Nodup) {ev : Entry α → Deque.Event (Entry α)}
    (hev : ∀ k ∈ ks, k.event = ev) (hout : ∀ k, k ∉ ks → held s' k = held s k)
    (hpr : (ks.flatMap (held s')).Perm ([e] ++ ks.flatMap (held s)))
    (hlog : s'.log = s.log ++ [ev e]) (htak : Deque.takes s'.log = Deque.takes s.log ++ [e]) :
    HeldOk s' := by
  refine ⟨?_, fun x => ?_, fun k x hx => ?_⟩
  · refine h.holders.exclusive.extend hks (nodup_singleton e) ?_ hout hpr.subperm
    intro x hx
    rw [mem_singleton.mp hx]
    exact h.absent he
  · rw [htak, mem_append, h.holders.taken, exists_mem_iff hout hpr, or_comm]
  · rw [hlog]
    by_cases hk : k ∈ ks
    · have hm := hpr.subset (mem_flatMap.mpr ⟨k, hk, hx⟩)
      rcases mem_append.mp hm with hm | hm
      · rw [mem_singleton.mp hm, hev k hk]
        simp
      · obtain ⟨l, hl, hxl⟩ := mem_flatMap.mp hm
        rw [hev k hk, ← hev l hl]
        exact mem_append_left _ (h.holders.origin l x hxl)
    · rw [hout k hk] at hx
      exact mem_append_left _ (h.holders.origin k x hx)

theorem Inv.held_give (h : Inv s live) (hks : ks.Nodup)
    (ev : Entry α → Deque.Event (Entry α)) (hev : ∀ k ∈ ks, k.event = ev)
    (hout : ∀ k, k ∉ ks → held s' k = held s k)
    (hpr : (ks.flatMap (held s')).Perm (ks.flatMap (held s)))
    (hlog : s'.log = s.log) : HeldOk s' := by
  refine ⟨h.holders.exclusive.reshuffle hks hout hpr.subperm, fun x => ?_, fun k x hx => ?_⟩
  · have hperm' : (ks.flatMap (held s')).Perm ([] ++ ks.flatMap (held s)) := hpr
    rw [hlog, h.holders.taken, exists_mem_iff hout hperm']
    simp
  · rw [hlog]
    by_cases hk : k ∈ ks
    · obtain ⟨l, hl, hxl⟩ := mem_flatMap.mp (hpr.subset (mem_flatMap.mpr ⟨k, hk, hx⟩))
      rw [hev k hk, ← hev l hl]
      exact h.holders.origin l x hxl
    · rw [hout k hk] at hx
      exact h.holders.origin k x hx

end Veloco.RunQueue
