import Veloco.RunQueue.Inv

/-!
# The accesses of push and pop keep the invariant
-/

namespace Veloco.RunQueue

open List Option
open Veloco.Word Veloco.Placement

variable {α : Type} {s s' : State α} {live : List (Entry α)}

theorem Inv.keep (h : Inv s live)
    (hcap : s'.queue.capacity = s.queue.capacity) (hms : s'.queue.mask = s.queue.mask)
    (htop : s'.queue.top = s.queue.top) (hlim : s'.limit = s.limit)
    (hsl : ∀ i, s.queue.top ≤ i → i < s.limit → s'.queue.slot i = s.queue.slot i)
    (hpushed : s'.pushed = s.pushed) (hlog : s'.log = s.log) (hthief : s'.thief = s.thief)
    (hhl : ∀ k, held s' k = held s k) (hok : OwnerOk s') : Inv s' live := by
  refine ⟨hcap ▸ h.pow, ?_, hcap ▸ h.capacity, ?_, ?_, ?_, ?_, ?_, hlog ▸ h.replay, ?_, hok, ?_,
    h.holders.congr hhl hlog⟩
  · rw [hms, hcap]; exact h.mask
  · rw [htop, hlim]; exact h.top_le
  · rw [htop, hlim, hcap]; exact h.room
  · rw [hlim, hpushed]; exact h.bound
  · rw [htop, hlim]; exact h.length
  · intro j hj
    have hl := h.length
    rw [htop, hsl _ (by omega) (by omega)]
    exact h.slots j hj
  · rw [hlog, h.pushes]
    simp only [State.pushes, hpushed]
  · intro i
    rw [hthief]
    refine (h.thief i).mono htop.ge fun _ hlt => ⟨by rw [hlim]; exact hlt, ?_⟩
    exact hsl _ le_rfl hlt

section Push

variable {item : α} {b : ℕ}

theorem inv_pushLoadTop (h : Inv s live) (hp : s.pushed.length < modulus)
    (hpc : s.owner = .pushLoadTop item b) (hs : ownerStep s = some s') : Inv s' live := by
  have ho := h.owner
  simp only [OwnerOk, hpc] at ho
  have hlim : s.limit = s.queue.bottom := by simp only [State.limit, hpc]
  have htop := h.top_le
  have hb := h.bound
  simp only [ownerStep, hpc] at hs
  rw [sub_of_le (by omega) (by omega)] at hs
  split_ifs at hs with hfl
  · cases hs
    exact h.setOwner _ (by simp [State.limit, hpc]) (by simp [State.ownerHeld, hpc]) trivial
  · cases hs
    refine h.setOwner _ (by simp [State.limit, hpc]) (by simp [State.ownerHeld, hpc]) ⟨ho, ?_⟩
    show b < s.queue.top + s.queue.capacity
    omega

theorem inv_pushStoreSlot (h : Inv s live) (hpc : s.owner = .pushStoreSlot item b)
    (hs : ownerStep s = some s') : Inv s' live := by
  have ho := h.owner
  simp only [OwnerOk, hpc] at ho
  obtain ⟨hb, hrm⟩ := ho
  have hlim : s.limit = s.queue.bottom := by simp only [State.limit, hpc]
  simp only [ownerStep, hpc, some.injEq] at hs
  subst hs
  refine h.keep rfl rfl rfl (by rw [hlim]; rfl) ?_ rfl rfl rfl ?_ ⟨hb, hrm, ?_⟩
  · -- the live indices are below `bottom` and less than a capacity away
    intro i hi hlt
    exact h.slot_storeSlot_ne _ (by omega) (by omega)
  · intro k
    cases k <;> simp [held, State.ownerHeld, hpc]
  · exact slot_storeSlot_self _ _ _

theorem inv_pushStoreBottom (h : Inv s live) (hpc : s.owner = .pushStoreBottom item b)
    (hs : ownerStep s = some s') (hp : s'.pushed.length < modulus) :
    Inv s' (live ++ [⟨s.pushed.length, item⟩]) := by
  have ho := h.owner
  simp only [OwnerOk, hpc] at ho
  obtain ⟨hb, hrm, hsl⟩ := ho
  have hlim : s.limit = s.queue.bottom := by simp only [State.limit, hpc]
  have htop := h.top_le
  have hbd := h.bound
  have hl := h.length
  simp only [ownerStep, hpc, some.injEq] at hs
  have hpl : s'.pushed.length = s.pushed.length + 1 := by rw [← hs]; simp
  have hadd : add b 1 = b + 1 := add_of_lt (by omega)
  have hlim' : s'.limit = s.limit + 1 := by
    rw [← hs, hlim, ← hb]
    exact hadd
  have htop' : s'.queue.top = s.queue.top := by rw [← hs]
  have hcap' : s'.queue.capacity = s.queue.capacity := by rw [← hs]
  have hslots' : s'.queue.slot = s.queue.slot := by rw [← hs]; rfl
  have hthief' : s'.thief = s.thief := by rw [← hs]
  have hhl : ∀ k, held s' k = held s k := by
    intro k
    subst hs
    cases k <;> simp [held, State.ownerHeld, hpc]
  refine ⟨hcap' ▸ h.pow, ?_, hcap' ▸ h.capacity, by omega, by omega, by omega, ?_, ?_, ?_, ?_, ?_,
    ?_, ?_⟩
  · rw [hcap', ← h.mask, ← hs]
  · rw [length_append, length_singleton]
    omega
  · intro j hj
    rw [htop', hslots']
    by_cases hjl : j < live.length
    · rw [getElem_append_left hjl]
      exact h.slots j hjl
    · have hje : j = live.length := by simp at hj; omega
      subst hje
      rw [show s.queue.top + live.length = b by omega, hsl]
      simp
  · rw [← hs]
    exact .push _ h.replay
  · rw [pushes_concat s s' item (by rw [← hs]), ← h.pushes, ← hs]
    simp
  · rw [← hs]
    trivial
  · intro i
    rw [hthief']
    refine (h.thief i).mono htop'.ge fun _ hlt => ⟨by omega, by rw [hslots']⟩
  · have hh : held s' = held s := funext hhl
    refine ⟨?_, ?_, ?_⟩
    · rw [hh]; exact h.holders.exclusive
    · rw [hh, ← hs]
      simpa using h.holders.taken
    · rw [hh, ← hs]
      exact fun k e he => mem_append_left _ (h.holders.origin k e he)

end Push

section Pop

variable {b t : ℕ} {item : Option (Entry α)}

theorem inv_popLoadBottom (h : Inv s live) (hp : s.pushed.length < modulus)
    (hpc : s.owner = .popLoadBottom) (hs : ownerStep s = some s') : Inv s' live := by
  have hlim : s.limit = s.queue.bottom := by simp only [State.limit, hpc]
  have hbd := h.bound
  simp only [ownerStep, hpc] at hs
  split_ifs at hs with h0
  · cases hs
    exact h.setOwner _ (by simp [State.limit, hpc]) (by simp [State.ownerHeld, hpc]) trivial
  · cases hs
    refine h.setOwner _ (by simp [State.limit, hpc]) (by simp [State.ownerHeld, hpc]) ?_
    show s.queue.bottom = sub s.queue.bottom 1 + 1
    rw [sub_of_le (by omega) (by omega)]
    omega

theorem inv_popStoreBottom (h : Inv s live) (hpc : s.owner = .popStoreBottom b)
    (hs : ownerStep s = some s') : Inv s' live := by
  have ho := h.owner
  simp only [OwnerOk, hpc] at ho
  have hlim : s.limit = s.queue.bottom := by simp only [State.limit, hpc]
  simp only [ownerStep, hpc, some.injEq] at hs
  subst hs
  refine h.keep rfl rfl rfl ?_ (fun _ _ _ => rfl) rfl rfl rfl ?_ rfl
  · rw [hlim, ho]
    rfl
  · intro k
    cases k <;> simp [held, State.ownerHeld, hpc]

theorem inv_popRestoreBottom (h : Inv s live) (hpc : s.owner = .popRestoreBottom t)
    (hs : ownerStep s = some s') : Inv s' live := by
  have hlim : s.limit = t := by simp only [State.limit, hpc]
  simp only [ownerStep, hpc, some.injEq] at hs
  subst hs
  refine h.keep rfl rfl rfl ?_ (fun _ _ _ => rfl) rfl rfl rfl ?_ trivial
  · rw [hlim]
    rfl
  · intro k
    cases k <;> simp [held, State.ownerHeld, hpc]

theorem inv_popLoadTop (h : Inv s live) (hpc : s.owner = .popLoadTop b)
    (hs : ownerStep s = some s') : ∃ live', Inv s' live' := by
  have ho := h.owner
  simp only [OwnerOk, hpc] at ho
  have hlim : s.limit = b + 1 := by simp only [State.limit, hpc]
  have htop := h.top_le
  have hl := h.length
  simp only [ownerStep, hpc] at hs
  split_ifs at hs with hgt hlt
  · cases hs
    refine ⟨live, h.setOwner _ ?_ (by simp [State.ownerHeld, hpc]) ⟨rfl, ?_⟩⟩
    · rw [hlim]
      show s.queue.top = b + 1
      omega
    · show s.queue.bottom + 1 = s.queue.top
      omega
  · obtain ⟨e, rest, rfl, hsl⟩ := h.last hlim hlt.le
    rw [hsl] at hs
    simp only [map_some, toList_some, some.injEq] at hs
    subst hs
    simp only [length_append, length_singleton] at hl
    set s' : State α := { s with owner := .popLoadSlot b s.queue.top, log := s.log ++ [.pop e] }
      with hs'
    have hlim' : s'.limit = b := by simp [State.limit, hs', hlt]
    have hhl : held s' .owner = [e] := by
      simp [held, State.ownerHeld, hs', hlt, hsl]
    have hnn : held s .owner = [] := by simp [held, State.ownerHeld, hpc]
    have hok : HeldOk s' :=
      h.held_take (e := e) (by simp) (nodup_singleton Holder.owner) (by simp [Holder.event])
        (fun k hk => by cases k <;> simp_all [held]) (by simp [hhl, hnn]) rfl (by simp [hs'])
    have hrm := h.room
    have hbd := h.bound
    refine ⟨rest, h.pow, h.mask, h.capacity, ?_, ?_, ?_, ?_, ?_, .pop e h.replay, ?_,
      ⟨ho, hlt.le, le_rfl⟩, ?_, hok⟩
    · rw [hlim']; exact hlt.le
    · rw [hlim']
      show b ≤ s.queue.top + s.queue.capacity
      omega
    · rw [hlim']
      show b ≤ s.pushed.length
      omega
    · rw [hlim']
      show s.queue.top + rest.length = b
      omega
    · intro j hj
      have := h.slots j (by simp; omega)
      rwa [getElem_append_left hj] at this
    · simpa [hs', State.pushes] using h.pushes
    · intro i
      exact (h.thief i).mono le_rfl fun _ _ => ⟨by rw [hlim']; exact hlt, rfl⟩
  · cases hs
    refine ⟨live, h.setOwner _ ?_ ?_ ⟨ho, by omega, le_rfl⟩⟩
    · simp [State.limit, hpc, hlt]
    · simp [State.ownerHeld, hpc, hlt]

theorem Inv.popReturn (h : Inv s live) {b : ℕ} (hb : b = s.limit) :
    Inv { s with
      queue := { s.queue with bottom := b }
      owner := .idle
      popped := s.popped ++ s.ownerHeld } live := by
  subst hb
  set s' : State α := { s with
    queue := { s.queue with bottom := s.limit }
    owner := .idle
    popped := s.popped ++ s.ownerHeld } with hs'
  have hok : HeldOk s' := by
    refine h.held_give (by simp : [Holder.popped, .owner].Nodup) .pop (by simp [Holder.event]) ?_ ?_ rfl
    · intro k hk
      cases k <;> simp_all [held]
    · show (s.popped ++ s.ownerHeld ++ ([] ++ [])).Perm (s.popped ++ (s.ownerHeld ++ []))
      simp
  exact ⟨h.pow, h.mask, h.capacity, h.top_le, h.room, h.bound, h.length, h.slots, h.replay,
    h.pushes, trivial, fun i => (h.thief i).mono le_rfl fun _ hlt => ⟨hlt, rfl⟩, hok⟩

theorem inv_popLoadSlot (h : Inv s live) (hpc : s.owner = .popLoadSlot b t)
    (hs : ownerStep s = some s') : Inv s' live := by
  have ho := h.owner
  simp only [OwnerOk, hpc] at ho
  obtain ⟨hb, hle, htop⟩ := ho
  simp only [ownerStep, hpc] at hs
  split_ifs at hs with heq
  · subst heq
    have hlim : s.limit = t + 1 := by simp [State.limit, hpc]
    cases hs
    exact h.setOwner _ (by rw [hlim]; rfl) (by simp [State.ownerHeld, hpc]) ⟨hb, htop, rfl⟩
  · have hlt : t < b := by omega
    have hlim : s.limit = b := by simp [State.limit, hpc, hlt]
    have hown : s.ownerHeld = (s.queue.slot b).toList := by simp [State.ownerHeld, hpc, hlt]
    cases hs
    rw [← hown]
    exact h.popReturn (hb.trans hlim.symm)

theorem inv_popCas (h : Inv s live) (hp : s.pushed.length < modulus)
    (hpc : s.owner = .popCas t item) (hs : ownerStep s = some s') : ∃ live', Inv s' live' := by
  have ho := h.owner
  simp only [OwnerOk, hpc] at ho
  obtain ⟨hb, htop, htm⟩ := ho
  have hlim : s.limit = t + 1 := by simp [State.limit, hpc]
  have htl := h.top_le
  have hbd := h.bound
  simp only [ownerStep, hpc] at hs
  split_ifs at hs with heq
  · -- one element is left and the owner wins it
    obtain ⟨e, rest, rfl, hsl⟩ := h.head (by omega)
    have hl := h.length
    have hrs : rest = [] := by
      rw [← length_eq_zero_iff]
      simp only [length_cons] at hl
      omega
    subst hrs
    rw [htm, ← heq, hsl, add_of_lt (by omega)] at hs
    simp only [map_some, toList_some, some.injEq] at hs
    subst hs
    refine ⟨[], h.advance (by simp) (by rw [hlim, ← heq]; rfl) rfl (.pop e h.replay) (by simp)
      ⟨by simp [heq, hb], rfl⟩ (fun i => .inl rfl) ?_⟩
    exact h.held_take (e := e) (by simp) (nodup_singleton Holder.owner)
      (by simp [Holder.event]) (fun k hk => by cases k <;> simp_all [held])
      (by simp [held, State.ownerHeld, hpc]) rfl (by simp)
  · cases hs
    refine ⟨live, h.setOwner _ (by rw [hlim]; rfl) (by simp [State.ownerHeld, hpc]) ⟨hb, ?_⟩⟩
    show s.queue.top = t + 1
    omega

theorem inv_popPublishBottom (h : Inv s live) (hp : s.pushed.length < modulus)
    (hpc : s.owner = .popPublishBottom t item) (hs : ownerStep s = some s') : Inv s' live := by
  have hlim : s.limit = t + 1 := by simp [State.limit, hpc]
  have hbd := h.bound
  have hown : s.ownerHeld = item.toList := by simp [State.ownerHeld, hpc]
  simp only [ownerStep, hpc, some.injEq] at hs
  rw [add_of_lt (by omega), ← hown] at hs
  subst hs
  exact h.popReturn hlim.symm

end Pop

theorem ownerStep_pushed_le (hs : ownerStep s = some s') :
    s.pushed.length ≤ s'.pushed.length := by
  unfold ownerStep at hs
  dsimp only at hs
  split at hs <;> (try split_ifs at hs) <;> simp at hs <;> subst hs <;> simp

theorem inv_ownerStep (h : Inv s live) (hs : ownerStep s = some s')
    (hp : s'.pushed.length < modulus) : ∃ live', Inv s' live' := by
  have hp' : s.pushed.length < modulus := lt_of_le_of_lt (ownerStep_pushed_le hs) hp
  cases hpc : s.owner with
  | idle => simp [ownerStep, hpc] at hs
  | pushLoadBottom item =>
    simp only [ownerStep, hpc, some.injEq] at hs
    subst hs
    exact ⟨live, h.setOwner _ (by simp [State.limit, hpc]) (by simp [State.ownerHeld, hpc]) rfl⟩
  | pushLoadTop item b => exact ⟨live, inv_pushLoadTop h hp' hpc hs⟩
  | pushStoreSlot item b => exact ⟨live, inv_pushStoreSlot h hpc hs⟩
  | pushStoreBottom item b => exact ⟨_, inv_pushStoreBottom h hpc hs hp⟩
  | popLoadBottom => exact ⟨live, inv_popLoadBottom h hp' hpc hs⟩
  | popStoreBottom b => exact ⟨live, inv_popStoreBottom h hpc hs⟩
  | popLoadTop b => exact inv_popLoadTop h hpc hs
  | popRestoreBottom t => exact ⟨live, inv_popRestoreBottom h hpc hs⟩
  | popLoadSlot b t => exact ⟨live, inv_popLoadSlot h hpc hs⟩
  | popCas t item => exact inv_popCas h hp' hpc hs
  | popPublishBottom t item => exact ⟨live, inv_popPublishBottom h hp' hpc hs⟩

end Veloco.RunQueue
