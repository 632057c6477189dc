import Veloco.Memory.Frame

/-!
# A slot changes its place
-/

namespace Veloco.Memory

open Function List
open Veloco.Bytes Veloco.Word Veloco.Chain Veloco.Ledger

variable {M : Platform} {s s' : State} {loc loc' : ℕ → Place} {c : Place → List ℕ}
  {a b i j k l n u v w : ℕ} {old new : Place}

structure Moves (M : Platform) (s s' : State) (a u : ℕ) (old new : Place) : Prop where
  same : SameLayout s s'
  pop : s.HasList old → s.head old = u ∧ s'.head old = s.link u
  push : s.HasList new → s'.head new = u ∧ s'.link u = s.head new
  head : ∀ q, s.HasList q → q ≠ old → q ≠ new → s'.head q = s.head q
  link : ∀ v, s.IsSlot M v → v ≠ u → s'.link v = s.link v
  binCount : ∀ b, (s'.bins b).count + (if old = .bin b then 1 else 0) =
    (s.bins b).count + (if new = .bin b then 1 else 0)
  centralFreeCount : (s'.spans a).centralFreeCount + old.isCentral.toNat =
    (s.spans a).centralFreeCount + new.isCentral.toNat
  cachedCount : (s'.spans a).cachedCount + old.isCached.toNat =
    (s.spans a).cachedCount + new.isCached.toNat
  activeCount : (s'.spans a).activeCount + old.isAllocated.toNat =
    (s.spans a).activeCount + new.isAllocated.toNat
  freeCount : (s'.spans a).freeCount + new.isAllocated.toNat =
    (s.spans a).freeCount + old.isAllocated.toNat
  others : ∀ b ∈ s.allSpans, b ≠ a → s'.spans b = s.spans b

theorem SameObjects.hasList (h : SameObjects s s') (pl : Place) : s'.HasList pl ↔ s.HasList pl := by
  cases pl with
  | central a => simp only [State.HasList, h.allSpans]
  | bin b => rfl
  | allocated => rfl

theorem Lists.move (hL : Layout M s) (hS : Lists M s loc c) (ha : a ∈ s.allSpans)
    (hi : i < (s.spans a).objectCount) (hold : loc (s.slot M a i) = old) (hne : old ≠ new)
    (hft : new.Fits a (s.spans a).classIndex) (hm : Moves M s s' a (s.slot M a i) old new) :
    Lists M s' (update loc (s.slot M a i) new) (bring c (s.slot M a i) new) := by
  have hu : s.IsSlot M (s.slot M a i) := ⟨a, ha, i, hi, rfl⟩
  have hpos : s.slot M a i ≠ 0 := Nat.ne_of_gt (hL.slot_bounds ha hi).1
  have hln : ∀ q, ∀ v ∈ c q, v ≠ s.slot M a i → s'.link v = s.link v := fun q v hv hvu =>
    hm.link v ((hS.located.mem q v).mp hv).1 hvu
  have hnot : ∀ q, q ≠ old → ∀ v ∈ c q, v ≠ s.slot M a i := by
    rintro q hq v hv rfl
    exact hq (((hS.located.mem q _).mp hv).2.symm.trans hold)
  -- what the move does to the slots of one span
  have htal : ∀ b ∈ s.allSpans, ∀ p : Place → Bool,
      tally (s'.slots M b) (update loc (s.slot M a i) new) p +
          (if b = a then (p old).toNat else 0) =
        tally (s.slots M b) loc p + (if b = a then (p new).toNat else 0) := by
    intro b hb p
    rw [hm.same.slots M hb]
    by_cases hba : b = a
    · subst hba
      rw [if_pos rfl, if_pos rfl, ← hold]
      exact tally_move (hL.nodup_slots ha) loc p (State.mem_slots.mpr ⟨i, hi, rfl⟩) new
    · rw [if_neg hba, if_neg hba, tally_congr]
      intro v hv
      obtain ⟨j, hj, rfl⟩ := State.mem_slots.mp hv
      refine update_of_ne (fun heq => hba ?_) _ _
      exact (hL.slot_inj hb hj ha hi heq).1
  constructor
  case located => exact (hS.located.move hu (by rw [hold]; exact hne)).congr (hm.same.isSlot M)
  case fits =>
    intro b hb j hj
    rw [hm.same.allSpans] at hb
    rw [(hm.same.spans b hb).objectCount] at hj
    rw [hm.same.slot M hb, (hm.same.spans b hb).classIndex]
    by_cases heq : s.slot M b j = s.slot M a i
    · obtain ⟨rfl, rfl⟩ := hL.slot_inj hb hj ha hi heq
      rw [update_self]
      exact hft
    · rw [update_of_ne heq]
      exact hS.fits b hb j hj
  case links =>
    intro q hq
    rw [hm.same.hasList] at hq
    by_cases hqn : q = new
    · subst hqn
      obtain ⟨hhe, hbc⟩ := hm.push hq
      rw [bring_self, hhe]
      exact (hS.links q hq).push hpos hbc fun v hv => hln q v hv (hnot q hne.symm v hv)
    · by_cases hqo : q = old
      · subst hqo
        obtain ⟨hhe, hhead'⟩ := hm.pop hq
        obtain ⟨t, hct, ht⟩ := (hS.links q hq).pop (by rw [hhe]; exact hpos)
        rw [hhe] at hct ht
        have hnd := hS.located.nodup q
        rw [hct, nodup_cons] at hnd
        rw [bring_pop hqn hct, hhead']
        refine ht.congr fun v hv => hln q v ?_ fun heq => hnd.1 (heq ▸ hv)
        rw [hct]
        exact mem_cons_of_mem _ hv
      · rw [hS.located.bring_other hqn (by rw [hold]; exact hqo), hm.head q hq hqo hqn]
        exact (hS.links q hq).congr fun v hv => hln q v hv (hnot q hqo v hv)
  case binCount =>
    intro b
    have hcnt := hm.binCount b
    have hlen := hS.binCount b
    by_cases hbn : Place.bin b = new
    · rw [if_pos hbn.symm, if_neg (by rw [← hbn] at hne; exact hne)] at hcnt
      rw [← hbn, bring_self, length_cons]
      omega
    · rw [if_neg (Ne.symm hbn)] at hcnt
      by_cases hbo : Place.bin b = old
      · rw [if_pos hbo.symm] at hcnt
        have hmem : s.slot M a i ∈ c (.bin b) :=
          (hS.located.mem _ _).mpr ⟨hu, hold.trans hbo.symm⟩
        have hpos := length_pos_of_mem hmem
        rw [bring_of_ne c _ hbn, length_erase_of_mem hmem]
        omega
      · rw [if_neg (Ne.symm hbo)] at hcnt
        rw [hS.located.bring_other hbn (by rw [hold]; exact hbo)]
        omega
  case centralFreeCount =>
    intro b hb
    rw [hm.same.allSpans] at hb
    have ht := htal b hb Place.isCentral
    have hcnt := hS.centralFreeCount b hb
    by_cases hba : b = a
    · subst hba
      have hmc := hm.centralFreeCount
      simp only [if_true] at ht
      omega
    · rw [hm.others b hb hba]
      simp only [if_neg hba] at ht
      omega
  case cachedCount =>
    intro b hb
    rw [hm.same.allSpans] at hb
    have ht := htal b hb Place.isCached
    have hcnt := hS.cachedCount b hb
    by_cases hba : b = a
    · subst hba
      have hmc := hm.cachedCount
      simp only [if_true] at ht
      omega
    · rw [hm.others b hb hba]
      simp only [if_neg hba] at ht
      omega
  case activeCount =>
    intro b hb
    rw [hm.same.allSpans] at hb
    have ht := htal b hb Place.isAllocated
    have hcnt := hS.activeCount b hb
    by_cases hba : b = a
    · subst hba
      have hmc := hm.activeCount
      simp only [if_true] at ht
      omega
    · rw [hm.others b hb hba]
      simp only [if_neg hba] at ht
      omega
  case freeCount =>
    intro b hb
    rw [hm.same.allSpans] at hb
    by_cases hba : b = a
    · subst hba
      have h₁ := hm.freeCount
      have h₂ := hm.centralFreeCount
      have h₃ := hm.cachedCount
      have h₄ := hS.freeCount b hb
      have hkin : ∀ pl : Place,
          pl.isCentral.toNat + pl.isCached.toNat + pl.isAllocated.toNat = 1 := by
        intro pl
        cases pl <;> rfl
      have h₅ := hkin old
      have h₆ := hkin new
      omega
    · rw [hm.others b hb hba]
      exact hS.freeCount b hb

theorem Lists.frame (hS : Lists M s loc c) (hsm : SameObjects s s') (hbs : s'.bins = s.bins)
    (hspa : ∀ a ∈ s.allSpans, s'.spans a = s.spans a)
    (hln : ∀ u, s.IsSlot M u → loc u ≠ .allocated → s'.link u = s.link u) :
    Lists M s' loc c := by
  constructor
  case located => exact hS.located.congr (hsm.isSlot M)
  case fits =>
    intro a ha i hi
    rw [hsm.allSpans] at ha
    rw [hspa a ha] at hi ⊢
    rw [hsm.slot M ha]
    exact hS.fits a ha i hi
  case links =>
    intro q hq
    rw [hsm.hasList] at hq
    have hhe : s'.head q = s.head q := by
      cases q with
      | central a => simp only [State.head, hspa a hq]
      | bin b => simp only [State.head, hbs]
      | allocated => rfl
    rw [hhe]
    refine (hS.links q hq).congr fun u hu => ?_
    obtain ⟨hsl, hpl⟩ := (hS.located.mem q u).mp hu
    refine hln u hsl ?_
    rw [hpl]
    rintro rfl
    exact hq
  case binCount =>
    intro b
    rw [hbs]
    exact hS.binCount b
  all_goals
    intro a ha
    rw [hsm.allSpans] at ha
    rw [hspa a ha]
  case centralFreeCount =>
    rw [hsm.slots M ha]
    exact hS.centralFreeCount a ha
  case cachedCount =>
    rw [hsm.slots M ha]
    exact hS.cachedCount a ha
  case activeCount =>
    rw [hsm.slots M ha]
    exact hS.activeCount a ha
  case freeCount => exact hS.freeCount a ha

def Header.core (hd : Header) : Header := { hd with requestedSize := 0, prefixCanary := 0 }

theorem SlotHeaderOk.of_core {sp sp' : Span} {pl pl' : Place} {hd hd' : Header}
    (h : SlotHeaderOk a sp pl hd) (hcr : hd'.core = hd.core) (hl : sp.Like sp')
    (hpl : pl' = .allocated ↔ pl = .allocated) : SlotHeaderOk a sp' pl' hd' where
  magic := (congrArg Header.magic hcr).trans h.magic
  kind := (congrArg Header.kind hcr).trans h.kind
  capacity := (congrArg Header.capacity hcr).trans (h.capacity.trans hl.capacity.symm)
  ownerP := (congrArg Header.ownerP hcr).trans (h.ownerP.trans hl.ownerP.symm)
  span := (congrArg Header.span hcr).trans h.span
  state := by
    have hsta := congrArg Header.state hcr
    simp only [Header.core] at hsta
    rw [hsta, h.state, hpl]

theorem Headers.frame (hH : Headers M s loc) (hsm : SameObjects s s')
    (hcr : ∀ l n, Cell s l n → (s'.headers l).core = (s.headers l).core)
    (hloc : ∀ u, s.IsSlot M u → (loc' u = .allocated ↔ loc u = .allocated)) :
    Headers M s' loc' where
  slot := by
    intro a ha i hi
    rw [hsm.allSpans] at ha
    rw [(hsm.spans a ha).objectCount] at hi
    rw [hsm.slot M ha, hsm.cellAt ha]
    exact (hH.slot a ha i hi).of_core (hcr _ _ (Cell.slot ha hi)) (hsm.spans a ha)
      (hloc _ ⟨a, ha, i, hi, rfl⟩)
  magic := by
    intro h hh
    rw [hsm.largeAllocations] at hh
    exact (congrArg Header.magic (hcr h _ (Cell.large hh))).trans (hH.magic h hh)
  state := by
    intro h hh
    rw [hsm.largeAllocations] at hh
    exact (congrArg Header.state (hcr h _ (Cell.large hh))).trans (hH.state h hh)

theorem Headers.set (hL : Layout M s) (hH : Headers M s loc) (hsm : SameObjects s s')
    (ha : a ∈ s.allSpans) (hi : i < (s.spans a).objectCount)
    (hcr : ∀ l n, Cell s l n → l ≠ s.cellAt a i → (s'.headers l).core = (s.headers l).core)
    (hsf : SlotHeaderOk a (s.spans a) new (s'.headers (s.cellAt a i))) :
    Headers M s' (update loc (s.slot M a i) new) where
  slot := by
    intro b hb j hj
    rw [hsm.allSpans] at hb
    rw [(hsm.spans b hb).objectCount] at hj
    rw [hsm.slot M hb, hsm.cellAt hb]
    by_cases heq : s.slot M b j = s.slot M a i
    · obtain ⟨rfl, rfl⟩ := hL.slot_inj hb hj ha hi heq
      rw [update_self]
      exact hsf.of_core rfl (hsm.spans b hb) Iff.rfl
    · have hne : s.cellAt b j ≠ s.cellAt a i := fun h => heq (by simp only [State.slot, h])
      rw [update_of_ne heq]
      exact (hH.slot b hb j hj).of_core (hcr _ _ (Cell.slot hb hj) hne) (hsm.spans b hb) Iff.rfl
  magic := by
    intro h hh
    rw [hsm.largeAllocations] at hh
    have hne := (hL.cellAt_ne_large ha hi hh).symm
    exact (congrArg Header.magic (hcr h _ (Cell.large hh) hne)).trans (hH.magic h hh)
  state := by
    intro h hh
    rw [hsm.largeAllocations] at hh
    have hne := (hL.cellAt_ne_large ha hi hh).symm
    exact (congrArg Header.state (hcr h _ (Cell.large hh) hne)).trans (hH.state h hh)

/-! ## Blocks -/

theorem Live.cell (hL : Layout M s) (hH : Headers M s loc) (hV : Live M s loc) {b : Block}
    (hb : b ∈ s.live) : ∃ n, Cell s (b.ptr - M.headerSize) n ∧ M.headerSize ≤ b.ptr ∧
      b.ptr + (s.headers (b.ptr - M.headerSize)).capacity + M.suffixSize ≤
        b.ptr - M.headerSize + n ∧ 16 ∣ b.ptr := by
  rcases (hV.mem b.ptr).mp (mem_map_of_mem hb) with ⟨⟨a, ha, i, hi, hu⟩, -⟩ | ⟨h, hh, hu⟩
  · have hbd := hL.slot_bounds ha hi
    have hhd := hH.slot a ha i hi
    have hle : M.headerSize ≤ s.slot M a i := Nat.le_add_left _ _
    rw [hu, State.slot_sub, hhd.capacity]
    exact ⟨_, Cell.slot ha hi, hle, hbd.2.1, hbd.2.2.2.2⟩
  · have hok := hL.larges h hh
    have hft := hok.fits
    have hbase := (hL.mapped.base _ hok.region).2
    have hhdr := M.headerSize_cases
    have hali : 16 ∣ h := hL.aligned.trans hbase
    rw [hu, Nat.add_sub_cancel]
    exact ⟨_, Cell.large hh, by omega, by omega, by omega⟩

theorem BlockOk.keeps {m m' : Memory} {b : Block} {hd : Header} (hok : BlockOk M m b hd)
    (hm : Keeps m m' w k) (hap : Apart w k (b.ptr + b.size) M.suffixSize) :
    BlockOk M m' b hd := by
  refine { hok with suffixCanary := fun hdeb => ?_ }
  have hsuf : M.suffixSize = 8 := by simp [Platform.suffixSize, hdeb]
  rw [← hok.suffixCanary hdeb]
  rw [hsuf] at hap
  exact hm.load hap

theorem Live.block_keeps (hL : Layout M s) (hH : Headers M s loc) (hV : Live M s loc)
    {m : Memory} {b : Block} {hd : Header} (hc : Cell s l n) (hlo : l ≤ w) (hhi : w + k ≤ l + n)
    (hm : Keeps s.bytes m w k) (hb : b ∈ s.live) (hne : b.ptr ≠ l + M.headerSize)
    (hhd : hd = s.headers (b.ptr - M.headerSize)) : BlockOk M m b hd := by
  obtain ⟨n', hc', hle, hfit, -⟩ := hV.cell hL hH hb
  have hsz := (hV.block b hb).size_le
  have hne' : l ≠ b.ptr - M.headerSize := by omega
  subst hhd
  exact (hV.block b hb).keeps hm ((hL.cells_apart hc hc' hne').within hlo hhi (by omega) (by omega))

structure SameClients (s s' : State) : Prop where
  live : s'.live = s.live
  aborted : s'.aborted = s.aborted
  released : s'.released = s.released
  activeObjects : s'.stats.activeObjects = s.stats.activeObjects
  activeBytes : s'.stats.activeBytes = s.stats.activeBytes

theorem Live.frame (hV : Live M s loc) (hsm : SameObjects s s') (hcl : SameClients s s')
    (hblo : ∀ b ∈ s.live, BlockOk M s'.bytes b (s'.headers (b.ptr - M.headerSize)))
    (hloc : ∀ u, s.IsSlot M u → (loc' u = .allocated ↔ loc u = .allocated)) :
    Live M s' loc' where
  nodup := by rw [hcl.live]; exact hV.nodup
  mem := by
    intro u
    rw [hcl.live, hV.mem, hsm.largeAllocations, hsm.isSlot M]
    refine or_congr (and_congr_right fun hu => (hloc u hu).symm) Iff.rfl
  block := by rw [hcl.live]; exact hblo
  activeObjects := by rw [hcl.activeObjects, hcl.live]; exact hV.activeObjects
  activeBytes := by rw [hcl.activeBytes, hcl.live]; exact hV.activeBytes
  activeBytes_lt := by rw [hcl.activeBytes]; exact hV.activeBytes_lt

theorem Live.ptr_ne (hL : Layout M s) (hV : Live M s loc) (ha : a ∈ s.allSpans)
    (hi : i < (s.spans a).objectCount) (hfr : loc (s.slot M a i) ≠ .allocated) {b : Block}
    (hb : b ∈ s.live) : b.ptr ≠ s.slot M a i := by
  intro heq
  rcases (hV.mem b.ptr).mp (mem_map_of_mem hb) with ⟨-, hal⟩ | ⟨h, hh, hu⟩
  · exact hfr (heq ▸ hal)
  · exact hL.cellAt_ne_large ha hi hh (Nat.add_right_cancel (heq.symm.trans hu))

structure SameAccounts (s s' : State) : Prop where
  live : s'.live = s.live
  activeObjects : s'.stats.activeObjects = s.stats.activeObjects
  activeBytes : s'.stats.activeBytes = s.stats.activeBytes

theorem SameAccounts.refl (s : State) : SameAccounts s s := ⟨rfl, rfl, rfl⟩

theorem SameAccounts.trans {t : State} (h : SameAccounts s s') (h' : SameAccounts s' t) :
    SameAccounts s t :=
  ⟨h'.live.trans h.live, h'.activeObjects.trans h.activeObjects, h'.activeBytes.trans h.activeBytes⟩

def Good (M : Platform) (s : State) : Prop := ∃ loc c, Inv M s loc c

structure Quiet (M : Platform) (s s' : State) : Prop where
  good : Good M s'
  layout : SameLayout s s'
  accounts : SameAccounts s s'

theorem Quiet.refl (h : Good M s) : Quiet M s s := ⟨h, SameLayout.refl s, SameAccounts.refl s⟩

theorem Quiet.trans {t : State} (h : Quiet M s s') (h' : Quiet M s' t) : Quiet M s t :=
  ⟨h'.good, h.layout.trans h'.layout, h.accounts.trans h'.accounts⟩

theorem Inv.moveFree (h : Inv M s loc c) (ha : a ∈ s.allSpans)
    (hi : i < (s.spans a).objectCount) (hold : loc (s.slot M a i) = old) (hne : old ≠ new)
    (hof : old ≠ .allocated) (hnf : new ≠ .allocated)
    (hft : new.Fits a (s.spans a).classIndex) (hm : Moves M s s' a (s.slot M a i) old new)
    (hhds : ∀ l n, Cell s l n → s'.headers l = s.headers l)
    (hbyt : Keeps s.bytes s'.bytes (s.slot M a i) 8) (hcl : SameClients s s') :
    Inv M s' (update loc (s.slot M a i) new) (bring c (s.slot M a i) new) := by
  have hbd := h.layout.slot_bounds ha hi
  have hal : ∀ u, s.IsSlot M u →
      (update loc (s.slot M a i) new u = .allocated ↔ loc u = .allocated) := by
    intro u _
    by_cases hu : u = s.slot M a i
    · rw [hu, update_self, hold]
      exact ⟨fun h => absurd h hnf, fun h => absurd h hof⟩
    · rw [update_of_ne hu]
  constructor
  case layout => exact h.layout.same hm.same
  case lists => exact h.lists.move h.layout ha hi hold hne hft hm
  case headers =>
    exact h.headers.frame hm.same.toSameObjects (fun l n hc => by rw [hhds l n hc]) hal
  case live =>
    refine h.live.frame hm.same.toSameObjects hcl (fun b hb => ?_) hal
    have hptr := h.live.ptr_ne h.layout ha hi (by rw [hold]; exact hof) hb
    obtain ⟨n, hc, -⟩ := h.live.cell h.layout h.headers hb
    refine h.live.block_keeps h.layout h.headers (Cell.slot ha hi) ?_ hbd.2.2.1 hbyt hb hptr
      (hhds _ _ hc)
    exact Nat.le_add_right _ _
  case aborted => exact hcl.aborted.trans h.aborted
  case released => rw [hcl.released]; exact h.released

structure Shifts (M : Platform) (s s' : State) (loc : ℕ → Place) (c : Place → List ℕ) (a i : ℕ)
    (old new : Place) : Prop where
  mem : a ∈ s.allSpans
  index : i < (s.spans a).objectCount
  place : loc (s.slot M a i) = old
  inv : Inv M s' (update loc (s.slot M a i) new) (bring c (s.slot M a i) new)
  layout : SameLayout s s'
  accounts : SameAccounts s s'

theorem Shifts.quiet (h : Shifts M s s' loc c a i old new) : Quiet M s s' :=
  ⟨⟨_, _, h.inv⟩, h.layout, h.accounts⟩

end Veloco.Memory
