import Veloco.Memory.Create

/-!
# Writes into one object
-/

namespace Veloco.Memory

open Function
open Veloco.Bytes Veloco.Word Veloco.Chain Veloco.Ledger

variable {M : Platform} {s s' t : State} {loc loc' : ℕ → Place} {c c' : Place → List ℕ}
  {a i k l m n u w : ℕ}

structure Touches (M : Platform) (s s' : State) (l n : ℕ) : Prop where
  same : SameLayout s s'
  headers : ∀ l' n', Cell s l' n' → l' ≠ l → s'.headers l' = s.headers l'
  spans : ∀ a ∈ s.allSpans, s'.spans a = s.spans a
  bins : s'.bins = s.bins
  bytes : Keeps s.bytes s'.bytes (l + M.headerSize) (n - M.headerSize)
  aborted : s'.aborted = s.aborted
  released : s'.released = s.released

theorem Touches.trans (h : Touches M s s' l n) (h' : Touches M s' t l n) :
    Touches M s t l n where
  same := h.same.trans h'.same
  headers := by
    intro l' n' hc hne
    rw [h'.headers l' n' (h.same.cell hc) hne, h.headers l' n' hc hne]
  spans := by
    intro a ha
    rw [h'.spans a (by rw [h.same.allSpans]; exact ha), h.spans a ha]
  bins := h'.bins.trans h.bins
  bytes := h.bytes.trans h'.bytes
  aborted := h'.aborted.trans h.aborted
  released := h'.released.trans h.released

theorem Touches.accounts (M : Platform) (s : State) (stats : Stats) (live : List Block)
    (l n : ℕ) : Touches M s { s with stats := stats, live := live } l n where
  same := ⟨⟨rfl, rfl, rfl, fun _ _ => Span.Like.refl _, fun _ _ => Header.Like.refl _⟩, rfl, rfl,
    rfl, rfl⟩
  headers := fun _ _ _ _ => rfl
  spans := fun _ _ => rfl
  bins := rfl
  bytes := fun _ _ => rfl
  aborted := rfl
  released := rfl

theorem Touches.overwrite (hL : Layout M s) (hc : Cell s l n) (hlo : l + M.headerSize ≤ w)
    (hhi : w + k ≤ l + n) {bytes : Memory} (hb : Keeps s.bytes bytes w k) :
    Touches M s (s.overwrite M w k bytes) l n where
  same := hL.sameLayout_overwrite hc hlo hhi bytes
  headers := fun _ _ hc' _ => hL.overwrite_header hc hlo hhi bytes hc'
  spans := fun _ ha => hL.overwrite_span hc hlo hhi bytes ha
  bins := rfl
  bytes := hb.widen hlo (by omega)
  aborted := rfl
  released := rfl

theorem Touches.setHeader {hd : Header} (n : ℕ)
    (hlk : l ∈ s.largeAllocations → (s.headers l).Like hd) :
    Touches M s (s.setHeader l hd) l n where
  same := by
    refine ⟨⟨rfl, rfl, rfl, fun _ _ => Span.Like.refl _, fun h hh => ?_⟩, rfl, rfl, rfl, rfl⟩
    by_cases heq : h = l
    · subst heq
      rw [State.setHeader_headers, update_self]
      exact hlk hh
    · rw [State.setHeader_headers, update_of_ne heq]
      exact Header.Like.refl _
  headers := fun l' _ _ hne => update_of_ne hne _ _
  spans := fun _ _ => rfl
  bins := rfl
  bytes := fun _ _ => rfl
  aborted := rfl
  released := rfl

section Prepare

variable (hL : Layout M s) (hc : Cell s l n)
  (hfit : M.headerSize + (s.headers l).requestedSize + M.suffixSize ≤ n)

include hL hc hfit

theorem touches_debugPrepare :
    Touches M s (debugPrepare M l (l + M.headerSize) s) l n := by
  unfold debugPrepare
  by_cases hdeb : M.debug = true
  · have hsuf : M.suffixSize = 8 := by simp [Platform.suffixSize, hdeb]
    rw [if_pos hdeb]
    have hset : Touches M s
        (s.setHeader l { s.headers l with prefixCanary := debugCanary }) l n :=
      Touches.setHeader n fun _ => ⟨rfl, rfl, rfl, rfl⟩
    refine hset.trans (Touches.overwrite (hL.same hset.same) (hset.same.cell hc) ?_ ?_
      (keeps_store _ _ _ _))
    · omega
    · omega
  · rw [if_neg hdeb]
    exact Touches.accounts M s s.stats s.live l n

theorem debugPrepare_header :
    (debugPrepare M l (l + M.headerSize) s).headers l =
      { s.headers l with
        prefixCanary := if M.debug then debugCanary else (s.headers l).prefixCanary } := by
  unfold debugPrepare
  by_cases hdeb : M.debug = true
  · have hsuf : M.suffixSize = 8 := by simp [Platform.suffixSize, hdeb]
    have hset : Touches M s
        (s.setHeader l { s.headers l with prefixCanary := debugCanary }) l n :=
      Touches.setHeader n fun _ => ⟨rfl, rfl, rfl, rfl⟩
    rw [if_pos hdeb, if_pos hdeb]
    refine ((hL.same hset.same).overwrite_header (hset.same.cell hc) ?_ ?_ _
      (hset.same.cell hc)).trans (update_self _ _ _)
    · omega
    · omega
  · rw [if_neg hdeb, if_neg hdeb]

end Prepare

theorem debugPrepare_canary (M : Platform) (l user : ℕ) (s : State) (hdeb : M.debug = true) :
    load (debugPrepare M l user s).bytes (user + (s.headers l).requestedSize) 8 =
      debugCanary := by
  unfold debugPrepare
  rw [if_pos hdeb]
  exact load_store_word _ _ (by decide)

theorem debugPrepare_accounts (M : Platform) (l user : ℕ) (s : State) :
    (debugPrepare M l user s).live = s.live ∧ (debugPrepare M l user s).stats = s.stats := by
  unfold debugPrepare
  split_ifs <;> exact ⟨rfl, rfl⟩

structure Prepared (M : Platform) (s s' : State) (l n : ℕ) (hd : Header) : Prop where
  touches : Touches M s s' l n
  core : (s'.headers l).core = hd.core
  block : 0 < hd.requestedSize → hd.requestedSize ≤ hd.capacity →
    BlockOk M s'.bytes ⟨l + M.headerSize, hd.requestedSize⟩ (s'.headers l)

theorem Layout.prepared (hL : Layout M s) (hc : Cell s l n) (hd : Header)
    (hlk : l ∈ s.largeAllocations → (s.headers l).Like hd)
    (hrm : M.headerSize + hd.requestedSize + M.suffixSize ≤ n) (stats : Stats) :
    Prepared M s (debugPrepare M l (l + M.headerSize)
      { s.setHeader l hd with stats := stats }) l n hd := by
  have htou : Touches M s { s.setHeader l hd with stats := stats } l n :=
    (Touches.setHeader n hlk).trans (Touches.accounts M _ stats s.live l n)
  have hL' := hL.same htou.same
  have hc' := htou.same.cell hc
  have hsl : ({ s.setHeader l hd with stats := stats } : State).headers l = hd :=
    update_self _ _ _
  have hhdr := debugPrepare_header hL' hc' (by rw [hsl]; exact hrm)
  have hcan := debugPrepare_canary M l (l + M.headerSize)
    { s.setHeader l hd with stats := stats }
  rw [hsl] at hhdr hcan
  constructor
  case touches => exact htou.trans (touches_debugPrepare hL' hc' (by rw [hsl]; exact hrm))
  case core => rw [hhdr]; rfl
  case block =>
    intro hpos hcap
    rw [hhdr]
    exact ⟨hpos, rfl, hcap, fun hdeb => if_pos hdeb, hcan⟩

theorem touches_poison (hL : Layout M s) (hc : Cell s l n) (hfit : M.headerSize + k ≤ n) :
    Touches M s (poison M (l + M.headerSize) k s) l n := by
  unfold poison
  split_ifs
  · exact Touches.overwrite hL hc le_rfl (by omega) (keeps_fill _ _ _ _)
  · exact Touches.accounts M s s.stats s.live l n

section Rules

variable (hL : Layout M s) (hc : Cell s l n)

include hL hc

theorem Touches.lists (ht : Touches M s s' l n) (hS : Lists M s loc c)
    (hnot : ∀ u, s.IsSlot M u → loc u ≠ .allocated → u ≠ l + M.headerSize) :
    Lists M s' loc c := by
  have hft := hL.header_fits hc
  refine hS.frame ht.same.toSameObjects ht.bins ht.spans fun u hu hfr => ?_
  exact hL.load_slot hc (Nat.le_add_right _ _) (by omega) ht.bytes hu (hnot u hu hfr)

theorem Live.touch (hH : Headers M s loc) (hV : Live M s loc)
    (hhds : ∀ l' n', Cell s l' n' → l' ≠ l → s'.headers l' = s.headers l')
    (hbyt : Keeps s.bytes s'.bytes (l + M.headerSize) (n - M.headerSize))
    (hold : ∀ b ∈ s'.live, b.ptr ≠ l + M.headerSize → b ∈ s.live)
    (hnew : ∀ b ∈ s'.live, b.ptr = l + M.headerSize → BlockOk M s'.bytes b (s'.headers l))
    (hnod : (s'.live.map Block.ptr).Nodup)
    (hmem : ∀ u, u ∈ s'.live.map Block.ptr ↔ (s'.IsSlot M u ∧ loc' u = .allocated) ∨
      ∃ h ∈ s'.largeAllocations, u = h + M.headerSize)
    (hobj : s'.stats.activeObjects = s'.live.length)
    (hsum : s'.stats.activeBytes = (s'.live.map Block.size).sum)
    (hlt : s'.stats.activeBytes < modulus) : Live M s' loc' where
  nodup := hnod
  mem := hmem
  block := by
    intro b hb
    by_cases hptr : b.ptr = l + M.headerSize
    · have hok := hnew b hb hptr
      rw [hptr, Nat.add_sub_cancel]
      exact hok
    · have hb' := hold b hb hptr
      have hft := hL.header_fits hc
      obtain ⟨n', hc', hle, -⟩ := hV.cell hL hH hb'
      refine hV.block_keeps hL hH hc (Nat.le_add_right _ _) (by omega) hbyt hb' hptr ?_
      exact hhds _ _ hc' (by omega)
  activeObjects := hobj
  activeBytes := hsum
  activeBytes_lt := hlt

end Rules

theorem Inv.touch (h : Inv M s loc c) (hc : Cell s l n)
    (hhl : l + M.headerSize ∈ s.live.map Block.ptr) (ht : Touches M s s' l n)
    (hcr : (s'.headers l).core = (s.headers l).core)
    (hold : ∀ b ∈ s'.live, b.ptr ≠ l + M.headerSize → b ∈ s.live)
    (hnew : ∀ b ∈ s'.live, b.ptr = l + M.headerSize → BlockOk M s'.bytes b (s'.headers l))
    (hpr : (s'.live.map Block.ptr).Perm (s.live.map Block.ptr))
    (hobj : s'.stats.activeObjects = s.stats.activeObjects)
    (hsum : s'.stats.activeBytes = (s'.live.map Block.size).sum)
    (hlt : s'.stats.activeBytes < modulus) : Inv M s' loc c := by
  have hL := h.layout
  have hsm := ht.same.toSameObjects
  constructor
  case layout => exact hL.same ht.same
  case lists =>
    refine ht.lists hL hc h.lists fun u hu hfr heq => hfr ?_
    subst heq
    rcases (h.live.mem _).mp hhl with ⟨-, hal⟩ | ⟨h', hh', hu'⟩
    · exact hal
    · obtain ⟨b, hb, j, hj, hst⟩ := hu
      exact absurd (Nat.add_right_cancel (hst.symm.trans hu')) (hL.cellAt_ne_large hb hj hh')
  case headers =>
    refine h.headers.frame hsm (fun l' n' hc' => ?_) fun _ _ => Iff.rfl
    by_cases heq : l' = l
    · rw [heq]
      exact hcr
    · rw [ht.headers l' n' hc' heq]
  case live =>
    refine h.live.touch hL hc h.headers ht.headers ht.bytes hold hnew ?_ ?_ ?_ hsum hlt
    · exact hpr.nodup_iff.mpr h.live.nodup
    · intro u
      rw [hpr.mem_iff, h.live.mem, hsm.largeAllocations, hsm.isSlot M]
    · have hlen := hpr.length_eq
      rw [List.length_map, List.length_map] at hlen
      rw [hobj, h.live.activeObjects, hlen]
  case aborted => exact ht.aborted.trans h.aborted
  case released => rw [ht.released]; exact h.released

theorem Inv.change {new : Place} (h : Inv M s loc c) (ha : a ∈ s.allSpans)
    (hi : i < (s.spans a).objectCount) (hsm : SameLayout s s')
    (hlists : Lists M s' (update loc (s.slot M a i) new) c')
    (hhds : ∀ l n, Cell s l n → l ≠ s.cellAt a i → s'.headers l = s.headers l)
    (hsl : SlotHeaderOk a (s.spans a) new (s'.headers (s.cellAt a i)))
    (hbyt : Keeps s.bytes s'.bytes (s.slot M a i) ((s.spans a).objectStride - M.headerSize))
    (hold : ∀ b ∈ s'.live, b.ptr ≠ s.slot M a i → b ∈ s.live)
    (hnew : ∀ b ∈ s'.live, b.ptr = s.slot M a i →
      BlockOk M s'.bytes b (s'.headers (s.cellAt a i)))
    (hnod : (s'.live.map Block.ptr).Nodup)
    (hpt : ∀ v, v ∈ s'.live.map Block.ptr ↔
      if v = s.slot M a i then new = .allocated else v ∈ s.live.map Block.ptr)
    (hobj : s'.stats.activeObjects = s'.live.length)
    (hsum : s'.stats.activeBytes = (s'.live.map Block.size).sum)
    (hlt : s'.stats.activeBytes < modulus) (habo : s'.aborted = s.aborted)
    (hrel : s'.released = s.released) :
    Inv M s' (update loc (s.slot M a i) new) c' := by
  have hL := h.layout
  constructor
  case layout => exact hL.same hsm
  case lists => exact hlists
  case headers =>
    refine h.headers.set hL hsm.toSameObjects ha hi (fun l n hc hne => ?_) hsl
    rw [hhds l n hc hne]
  case live =>
    refine h.live.touch hL (Cell.slot ha hi) h.headers hhds hbyt hold hnew hnod ?_
      hobj hsum hlt
    intro v
    rw [hpt, hsm.largeAllocations, hsm.isSlot M]
    by_cases hv : v = s.slot M a i
    · subst hv
      rw [if_pos rfl, update_self]
      refine ⟨fun hal => Or.inl ⟨⟨a, ha, i, hi, rfl⟩, hal⟩, ?_⟩
      rintro (⟨-, hal⟩ | ⟨h', hh', hu⟩)
      · exact hal
      · exact absurd (Nat.add_right_cancel hu) (hL.cellAt_ne_large ha hi hh')
    · rw [if_neg hv, update_of_ne hv, h.live.mem]
  case aborted => exact habo.trans h.aborted
  case released => rw [hrel]; exact h.released

end Veloco.Memory
