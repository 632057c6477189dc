import Veloco.Memory.Mapping

/-!
# A new span
-/

namespace Veloco.Memory

open Function List State
open Veloco.Bytes Veloco.Word Veloco.Chain Veloco.Ledger

variable {M : Platform} {s t t' : State} {loc : ℕ → Place} {c : Place → List ℕ}
  {a b i k l m n p u : ℕ}

structure Filled (M : Platform) (t t' : State) (a n : ℕ) : Prop where
  same : SameLayout t t'
  bins : t'.bins = t.bins
  stats : t'.stats = t.stats
  live : t'.live = t.live
  aborted : t'.aborted = t.aborted
  released : t'.released = t.released
  others : ∀ b ∈ t.allSpans, b ≠ a → t'.spans b = t.spans b
  span : t'.spans a = { t.spans a with centralFree := (t'.spans a).centralFree }
  header : ∀ l m, Cell t l m → (∀ j < n, l ≠ t.cellAt a j) → t'.headers l = t.headers l
  written : ∀ j < n, SlotHeaderOk a (t.spans a) (.central a) (t'.headers (t.cellAt a j))
  links : Links t'.link 0 (t'.spans a).centralFree (((List.range n).reverse).map (t.slot M a))
  bytes : Keeps t.bytes t'.bytes a (t.spans a).mappingSize

theorem freshHeader_ok (hd : Header) (a : ℕ) (sp : Span) :
    SlotHeaderOk a sp (.central a) (freshHeader hd a sp) :=
  ⟨rfl, rfl, rfl, rfl, rfl, by simp [freshHeader]⟩

theorem Layout.sameLayout_setHeader (hL : Layout M t) (ha : a ∈ t.allSpans)
    (hi : i < (t.spans a).objectCount) (hd : Header) :
    SameLayout t (t.setHeader (t.cellAt a i) hd) where
  initialized := rfl
  pageSize := rfl
  mapped := rfl
  allSpans := rfl
  largeAllocations := rfl
  central := rfl
  liveSpans := rfl
  spans := fun _ _ => Span.Like.refl _
  larges := by
    intro h hh
    have hne : h ≠ t.cellAt a i := (hL.cellAt_ne_large ha hi hh).symm
    rw [setHeader_headers, update_of_ne hne]
    exact Header.Like.refl _

theorem Filled.zero (h : (t.spans a).centralFree = 0) : Filled M t t a 0 where
  same := SameLayout.refl t
  bins := rfl
  stats := rfl
  live := rfl
  aborted := rfl
  released := rfl
  others := fun _ _ _ => rfl
  span := rfl
  header := fun _ _ _ _ => rfl
  written := fun j hj => absurd hj (Nat.not_lt_zero j)
  links := h
  bytes := fun _ _ => rfl

theorem Filled.succ (hL : Layout M t) (ha : a ∈ t.allSpans)
    (hn : n < (t.spans a).objectCount) (hF : Filled M t t' a n) :
    Filled M t (initObject M a n t') a (n + 1) := by
  have hL' := hL.same hF.same
  have ha' : a ∈ t'.allSpans := by rw [hF.same.allSpans]; exact ha
  have hlk := hF.same.spans a ha
  have hn' : n < (t'.spans a).objectCount := by rw [hlk.objectCount]; exact hn
  have hce : t'.cellAt a n = t.cellAt a n := hF.same.cellAt ha n
  have hslot : t'.slot M a n = t.slot M a n := hF.same.slot M ha n
  -- first the header is written, then the link, then the span
  obtain ⟨t₁, ht₁⟩ : ∃ t₁, t₁ = t'.setHeader (t'.cellAt a n)
      (freshHeader (t'.headers (t'.cellAt a n)) a (t'.spans a)) := ⟨_, rfl⟩
  have hsm₁ : SameLayout t' t₁ := by rw [ht₁]; exact hL'.sameLayout_setHeader ha' hn' _
  have hL₁ := hL'.same hsm₁
  have hspa₁ : t₁.spans = t'.spans := by rw [ht₁]; rfl
  have ha₁ : a ∈ t₁.allSpans := by rw [hsm₁.allSpans]; exact ha'
  have hn₁ : n < (t₁.spans a).objectCount := by rw [hspa₁]; exact hn'
  have hsl₁ : t₁.slot M a n = t'.slot M a n := hsm₁.slot M ha' n
  have hste : initObject M a n t' =
      (t₁.setLink M (t₁.slot M a n) (t'.spans a).centralFree).setSpan a
        { t'.spans a with centralFree := t₁.slot M a n } := by
    have hsn := hL₁.setLink_span ha₁ hn₁ (t'.spans a).centralFree ha₁
    rw [hspa₁] at hsn
    have hbs : (t'.spans a).mappingBase = a := (hL'.spans a ha').base
    have hhea : (t'.spans a).mappingBase + t'.pageSize + n * (t'.spans a).objectStride =
        t'.cellAt a n := by rw [hbs]; rfl
    have hunf : initObject M a n t' =
        (t₁.setLink M (t₁.slot M a n) (t'.spans a).centralFree).setSpan a
          { (t₁.setLink M (t₁.slot M a n) (t'.spans a).centralFree).spans a with
            centralFree := t₁.slot M a n } := by
      rw [hsl₁, ht₁, slot, ← hhea]
      rfl
    rw [hunf, hsn]
  have hoth₁ : ∀ b ∈ t.allSpans, (t₁.setLink M (t₁.slot M a n)
      (t'.spans a).centralFree).spans b = t'.spans b := by
    intro b hb
    have hb₁ : b ∈ t₁.allSpans := by rw [hsm₁.allSpans, hF.same.allSpans]; exact hb
    rw [hL₁.setLink_span ha₁ hn₁ _ hb₁, hspa₁]
  have hhdr₁ : ∀ l m, Cell t l m → (t₁.setLink M (t₁.slot M a n)
      (t'.spans a).centralFree).headers l = t₁.headers l := by
    intro l m hc
    exact hL₁.setLink_header ha₁ hn₁ _ (hsm₁.cell (hF.same.cell hc))
  have hsm₂ := hL₁.sameLayout_overwrite (Cell.slot ha₁ hn₁) le_rfl (hL₁.slot_bounds ha₁ hn₁).2.2.1
    (store t₁.bytes (t₁.slot M a n) 8 (t'.spans a).centralFree)
  -- the head of the list so far is a 64-bit value
  have hhd : (t'.spans a).centralFree < 2 ^ 64 := by
    by_cases h0 : (t'.spans a).centralFree = 0
    · rw [h0]
      norm_num
    · obtain ⟨rest, hrs, -⟩ := hF.links.pop h0
      have hmem : (t'.spans a).centralFree ∈ ((List.range n).reverse).map (t.slot M a) := by
        rw [hrs]
        exact mem_cons_self
      obtain ⟨j, hj, hu⟩ := mem_map.mp hmem
      have hjn : j < n := by simpa using hj
      rw [← hu]
      exact (hL.slot_bounds ha (by omega)).2.2.2.1
  have hkeep : Keeps t₁.bytes (store t₁.bytes (t₁.slot M a n) 8 (t'.spans a).centralFree)
      (t₁.slot M a n) 8 := keeps_store _ _ _ _
  have hbyt₁ : t₁.bytes = t'.bytes := by rw [ht₁]; rfl
  rw [hste]
  constructor
  case same =>
    refine hF.same.trans (hsm₁.trans ⟨⟨rfl, rfl, rfl, fun b hb => ?_, hsm₂.larges⟩, rfl, rfl,
      rfl, rfl⟩)
    by_cases hba : b = a
    · subst hba
      rw [setSpan_spans, update_self, hspa₁]
      exact ⟨rfl, rfl, rfl, rfl, rfl, rfl, rfl⟩
    · rw [setSpan_spans, update_of_ne hba]
      exact hsm₂.spans b hb
  case bins => rw [← hF.bins, ht₁]; rfl
  case stats => rw [← hF.stats, ht₁]; rfl
  case live => rw [← hF.live, ht₁]; rfl
  case aborted => rw [← hF.aborted, ht₁]; rfl
  case released => rw [← hF.released, ht₁]; rfl
  case others =>
    intro b hb hba
    rw [setSpan_spans, update_of_ne hba, hoth₁ b hb, hF.others b hb hba]
  case span => rw [State.setSpan_spans, update_self, hF.span]
  case header =>
    intro l m hc hl
    have hlt := fun j (hj : j < n) => hl j (Nat.lt_succ_of_lt hj)
    have hne : l ≠ t'.cellAt a n := by rw [hce]; exact hl n (Nat.lt_succ_self n)
    rw [setSpan_headers, hhdr₁ l m hc, ht₁, setHeader_headers, update_of_ne hne]
    exact hF.header l m hc hlt
  case written =>
    intro j hj
    have hjc : j < (t.spans a).objectCount := by omega
    rw [setSpan_headers, hhdr₁ _ _ (Cell.slot ha hjc), ht₁, setHeader_headers]
    by_cases hjn : j = n
    · subst hjn
      rw [← hce, update_self]
      exact (freshHeader_ok _ a (t'.spans a)).of_core rfl
        ⟨hlk.mappingBase.symm, hlk.mappingSize.symm, hlk.classIndex.symm,
          hlk.capacity.symm, hlk.objectStride.symm, hlk.objectCount.symm,
          hlk.ownerP.symm⟩ Iff.rfl
    · have hne : t.cellAt a j ≠ t'.cellAt a n := by
        rw [hce]
        exact fun heq => hjn (hL.cellAt_inj ha hjc ha hn heq).2
      rw [update_of_ne hne]
      exact hF.written j (by omega)
  case links =>
    have hsn : ((t₁.setLink M (t₁.slot M a n) (t'.spans a).centralFree).setSpan a
        { t'.spans a with centralFree := t₁.slot M a n }).spans a =
          { t'.spans a with centralFree := t₁.slot M a n } := by
      rw [setSpan_spans, update_self]
    rw [hsn, range_succ, reverse_append, reverse_singleton, singleton_append,
      map_cons, ← hslot, ← hsl₁]
    refine hF.links.push ?_ ?_ ?_
    · exact Nat.ne_of_gt (hL₁.slot_bounds ha₁ hn₁).1
    · exact setLink_link M t₁ _ hhd
    · intro v hv
      obtain ⟨j, hj, rfl⟩ := mem_map.mp hv
      have hjn : j < n := by simpa using hj
      have hjc : j < (t.spans a).objectCount := by omega
      have hv₁ : t₁.IsSlot M (t.slot M a j) := by
        rw [hsm₁.isSlot, hF.same.isSlot]
        exact ⟨a, ha, j, hjc, rfl⟩
      have hne : t.slot M a j ≠ t₁.slot M a n := by
        rw [hsl₁, hslot]
        intro heq
        exact Nat.ne_of_lt hjn (hL.slot_inj ha hjc ha hn heq).2
      have hln := hL₁.setLink_link_of_ne ha₁ hn₁ (t'.spans a).centralFree hv₁ hne
      have hsm : t₁.link (t.slot M a j) = t'.link (t.slot M a j) := by
        rw [link, link, hbyt₁]
      exact hln.trans hsm
  case bytes =>
    have hin := hL₁.slot_inside ha₁ hn₁
    have hbd := hL₁.slot_bounds ha₁ hn₁
    have hsz : (t₁.spans a).mappingSize = (t.spans a).mappingSize := by
      rw [hspa₁, hlk.mappingSize]
    have hge : a ≤ t₁.slot M a n := by unfold State.slot; omega
    refine hF.bytes.trans ?_
    rw [← hbyt₁, ← hsz]
    exact hkeep.widen hge (by omega)

theorem filled_initObjects (hL : Layout M t) (ha : a ∈ t.allSpans)
    (hhd : (t.spans a).centralFree = 0) :
    ∀ n ≤ (t.spans a).objectCount, Filled M t (initObjects M a n t) a n
  | 0, _ => Filled.zero hhd
  | n + 1, hn => (filled_initObjects hL ha hhd n (Nat.le_of_succ_le hn)).succ hL ha hn

/-! ## The new span -/

def State.adopt (s : State) (a : ℕ) (sp : Span) : State :=
  { s.setSpan a sp with
    allSpans := a :: s.allSpans
    central := update s.central sp.classIndex (a :: s.central sp.classIndex)
    liveSpans := a :: s.liveSpans }

section Adopt

variable (h : Inv M s loc c) {sp : Span} (hsp : SpanOk M s.pageSize s.mapped a sp)
  (hsn : a ∉ s.allSpans) (hlar : a ∉ s.largeAllocations)

include h hsp hsn hlar

theorem Inv.layout_adopt : Layout M (s.adopt a sp) := by
  have hL := h.layout
  have hne : ∀ b ∈ s.allSpans, b ≠ a := fun b hb heq => hsn (heq ▸ hb)
  refine { hL with spans := ?_, larges := ?_, nodup := ?_, nodup_central := ?_, mem_central := ?_,
                   liveSpans := ?_ }
  · intro b hb
    simp only [adopt, setSpan_spans]
    rcases mem_cons.mp hb with rfl | hb
    · rw [update_self]
      exact hsp
    · rw [update_of_ne (hne b hb)]
      exact hL.spans b hb
  · exact hL.larges
  · have hnot : a ∉ s.allSpans ++ s.largeAllocations := by
      simp [hsn, hlar]
    exact nodup_cons.mpr ⟨hnot, hL.nodup⟩
  · intro k
    by_cases hk : k = sp.classIndex
    · subst hk
      simp only [adopt, update_self]
      exact nodup_cons.mpr ⟨fun hmem => hsn ((hL.mem_central _ _).mp hmem).1, hL.nodup_central _⟩
    · simp only [adopt, update_of_ne hk]
      exact hL.nodup_central k
  · intro k b
    simp only [adopt, setSpan_spans, mem_cons]
    by_cases hba : b = a
    · subst hba
      have hnot : ∀ k, b ∉ s.central k := fun k hmem => hsn ((hL.mem_central k b).mp hmem).1
      rw [update_self]
      by_cases hk : k = sp.classIndex
      · simp [hk]
      · simp [update_of_ne hk, hnot k, Ne.symm hk]
    · rw [update_of_ne hba]
      by_cases hk : k = sp.classIndex
      · subst hk
        rw [update_self, mem_cons, hL.mem_central]
        simp [hba]
      · rw [update_of_ne hk, hL.mem_central]
        simp [hba]
  · exact congrArg (a :: ·) hL.liveSpans

theorem Inv.adopt_apart (hc : Cell s l m) : Apart a sp.mappingSize l m := by
  obtain ⟨o, k, hreg, ho, hle, hend⟩ := h.layout.cell_inside hc
  have hne : a ≠ o := by
    rintro rfl
    rcases mem_append.mp ho with ho | ho
    · exact hsn ho
    · exact hlar ho
  exact (h.layout.owners_apart hsp.region hreg hne).within le_rfl le_rfl hle hend

end Adopt

section Create

variable (sp : Span) (hsn : a ∉ s.allSpans)

include hsn

theorem adopt_spans_of_mem (hb : b ∈ s.allSpans) : (s.adopt a sp).spans b = s.spans b := by
  have hne : b ≠ a := fun heq => hsn (heq ▸ hb)
  simp only [adopt, setSpan_spans, update_of_ne hne]

theorem adopt_cellAt (hb : b ∈ s.allSpans) : (s.adopt a sp).cellAt b i = s.cellAt b i := by
  simp only [cellAt, adopt_spans_of_mem sp hsn hb]
  rfl

theorem adopt_cell (hc : Cell s l m) : Cell (s.adopt a sp) l m := by
  cases hc with
  | @slot b i hb hi =>
    have hsm := adopt_spans_of_mem sp hsn hb
    rw [← adopt_cellAt sp hsn hb, ← hsm]
    exact Cell.slot (mem_cons_of_mem _ hb) (by rw [hsm]; exact hi)
  | large hh => exact Cell.large hh

end Create

structure Created (M : Platform) (s f : State) (a : ℕ) (new : List ℕ) : Prop where
  layout : Layout M f
  fresh : a ∉ s.allSpans
  mem : ∀ b, b ∈ f.allSpans ↔ b = a ∨ b ∈ s.allSpans
  pageSize : f.pageSize = s.pageSize
  largeAllocations : f.largeAllocations = s.largeAllocations
  others : ∀ b ∈ s.allSpans, f.spans b = s.spans b
  centralFreeCount : (f.spans a).centralFreeCount = (f.spans a).objectCount
  freeCount : (f.spans a).freeCount = (f.spans a).objectCount
  cachedCount : (f.spans a).cachedCount = 0
  activeCount : (f.spans a).activeCount = 0
  perm : new.Perm (f.slots M a)
  links : Links f.link 0 (f.spans a).centralFree new
  written : ∀ i < (f.spans a).objectCount,
    SlotHeaderOk a (f.spans a) (.central a) (f.headers (f.cellAt a i))
  header : ∀ l m, Cell s l m → f.headers l = s.headers l
  load : ∀ l m, Cell s l m → ∀ w k, l ≤ w → w + k ≤ l + m → load f.bytes w k = load s.bytes w k
  bins : f.bins = s.bins
  clients : SameClients s f

def withCentral (loc : ℕ → Place) (a : ℕ) (new : List ℕ) : ℕ → Place := fun u =>
  if u ∈ new then .central a else loc u

namespace Created

variable {f : State} {new : List ℕ}

theorem cellAt (hC : Created M s f a new) (hb : b ∈ s.allSpans) (i : ℕ) :
    f.cellAt b i = s.cellAt b i := by
  unfold State.cellAt
  rw [hC.pageSize, hC.others b hb]

theorem slot (hC : Created M s f a new) (hb : b ∈ s.allSpans) (i : ℕ) :
    f.slot M b i = s.slot M b i := by
  unfold State.slot
  rw [hC.cellAt hb]

theorem slots (hC : Created M s f a new) (hb : b ∈ s.allSpans) :
    f.slots M b = s.slots M b := by
  unfold State.slots
  rw [hC.others b hb]
  exact map_congr_left fun i _ => hC.slot hb i

theorem not_isSlot (hC : Created M s f a new) : ∀ u ∈ new, ¬ s.IsSlot M u := by
  rintro u hu ⟨b, hb, i, hi, rfl⟩
  obtain ⟨j, hj, heq⟩ := State.mem_slots.mp (hC.perm.mem_iff.mp hu)
  rw [← hC.others b hb] at hi
  rw [← hC.slot hb] at heq
  have hab := (hC.layout.slot_inj ((hC.mem b).mpr (.inr hb)) hi ((hC.mem a).mpr (.inl rfl)) hj
    heq).1
  exact hC.fresh (hab ▸ hb)

theorem isSlot (hC : Created M s f a new) (u : ℕ) :
    f.IsSlot M u ↔ u ∈ new ∨ s.IsSlot M u := by
  rw [hC.perm.mem_iff, mem_slots]
  constructor
  · rintro ⟨b, hb, i, hi, rfl⟩
    rcases (hC.mem b).mp hb with rfl | hb
    · exact .inl ⟨i, hi, rfl⟩
    · rw [hC.others b hb] at hi
      exact .inr ⟨b, hb, i, hi, hC.slot hb i⟩
  · rintro (⟨i, hi, rfl⟩ | ⟨b, hb, i, hi, rfl⟩)
    · exact ⟨a, (hC.mem a).mpr (.inl rfl), i, hi, rfl⟩
    · refine ⟨b, (hC.mem b).mpr (.inr hb), i, ?_, (hC.slot hb i).symm⟩
      rw [hC.others b hb]
      exact hi

theorem withCentral_new (loc : ℕ → Place) : ∀ u ∈ new, withCentral loc a new u = .central a := by
  intro u hu
  simp only [withCentral, if_pos hu]

theorem withCentral_old (hC : Created M s f a new) (loc : ℕ → Place) (hu : s.IsSlot M u) :
    withCentral loc a new u = loc u := by
  have hnot : u ∉ new := fun hmem => hC.not_isSlot u hmem hu
  simp only [withCentral, if_neg hnot]

theorem withCentral_slot (hC : Created M s f a new) (loc : ℕ → Place)
    (hi : i < (f.spans a).objectCount) : withCentral loc a new (f.slot M a i) = .central a :=
  withCentral_new loc _ (hC.perm.mem_iff.mpr (State.mem_slots.mpr ⟨i, hi, rfl⟩))

theorem tally_new (hC : Created M s f a new) (loc : ℕ → Place) (q : Place → Bool) :
    tally (f.slots M a) (withCentral loc a new) q =
      if q (.central a) then (f.spans a).objectCount else 0 := by
  have hloc : ∀ u ∈ f.slots M a, withCentral loc a new u = .central a := fun u hu =>
    withCentral_new loc u (hC.perm.mem_iff.mpr hu)
  unfold tally
  split_ifs with hq
  · rw [← length_slots M, countP_eq_length]
    intro u hu
    rw [hloc u hu]
    exact hq
  · rw [countP_eq_zero]
    intro u hu
    rw [hloc u hu]
    exact hq

theorem tally_old (hC : Created M s f a new) (loc : ℕ → Place) (hb : b ∈ s.allSpans)
    (q : Place → Bool) :
    tally (f.slots M b) (withCentral loc a new) q = tally (s.slots M b) loc q := by
  rw [hC.slots hb]
  refine tally_congr fun u hu => hC.withCentral_old loc ?_
  obtain ⟨i, hi, rfl⟩ := State.mem_slots.mp hu
  exact ⟨b, hb, i, hi, rfl⟩

theorem lists (hC : Created M s f a new) (hS : Lists M s loc c) :
    Lists M f (withCentral loc a new) (update c (.central a) new) := by
  have hemp : c (.central a) = [] := by
    rw [eq_nil_iff_forall_not_mem]
    intro u hu
    obtain ⟨⟨b, hb, i, hi, rfl⟩, hloc⟩ := (hS.located.mem _ _).mp hu
    have hfit := hS.fits b hb i hi
    rw [hloc] at hfit
    obtain rfl : a = b := hfit
    exact hC.fresh hb
  constructor
  case located =>
    have hnd : new.Nodup :=
      hC.perm.nodup_iff.mpr (hC.layout.nodup_slots ((hC.mem a).mpr (.inl rfl)))
    exact hS.located.extend hnd hemp hC.isSlot (withCentral_new loc)
      fun u hu => hC.withCentral_old loc hu
  case fits =>
    intro b hb i hi
    rcases (hC.mem b).mp hb with rfl | hb
    · rw [hC.withCentral_slot loc hi]
      exact rfl
    · rw [hC.others b hb] at hi ⊢
      rw [hC.slot hb, hC.withCentral_old loc ⟨b, hb, i, hi, rfl⟩]
      exact hS.fits b hb i hi
  case links =>
    intro q hq
    by_cases hqa : q = .central a
    · subst hqa
      rw [update_self]
      exact hC.links
    · rw [update_of_ne hqa]
      have hqs : s.HasList q := by
        cases q with
        | central b =>
          have hba : b ≠ a := fun heq => hqa (congrArg Place.central heq)
          exact ((hC.mem b).mp hq).resolve_left hba
        | bin b => exact trivial
        | allocated => exact hq
      have hhd : f.head q = s.head q := by
        cases q with
        | central b => simp only [State.head, hC.others b hqs]
        | bin b => simp only [State.head, hC.bins]
        | allocated => rfl
      rw [hhd]
      refine (hS.links q hqs).congr fun u hu => ?_
      obtain ⟨b, hb, i, hi, rfl⟩ := ((hS.located.mem q u).mp hu).1
      have hL := hC.layout
      have hbd := hL.slot_bounds ((hC.mem b).mpr (.inr hb)) (by rw [hC.others b hb]; exact hi)
      rw [hC.slot hb, hC.cellAt hb, hC.others b hb] at hbd
      exact hC.load _ _ (Cell.slot hb hi) _ _ (Nat.le_add_right _ _) hbd.2.2.1
  case binCount =>
    intro b
    rw [update_of_ne (by simp), hC.bins]
    exact hS.binCount b
  all_goals
    intro b hb
    rcases (hC.mem b).mp hb with rfl | hb
  case centralFreeCount.inl =>
    rw [hC.tally_new loc, hC.centralFreeCount]
    rfl
  case centralFreeCount.inr =>
    rw [hC.tally_old loc hb, hC.others b hb]
    exact hS.centralFreeCount b hb
  case cachedCount.inl =>
    rw [hC.tally_new loc, hC.cachedCount]
    rfl
  case cachedCount.inr =>
    rw [hC.tally_old loc hb, hC.others b hb]
    exact hS.cachedCount b hb
  case activeCount.inl =>
    rw [hC.tally_new loc, hC.activeCount]
    rfl
  case activeCount.inr =>
    rw [hC.tally_old loc hb, hC.others b hb]
    exact hS.activeCount b hb
  case freeCount.inl => rw [hC.freeCount, hC.centralFreeCount, hC.cachedCount]; rfl
  case freeCount.inr =>
    rw [hC.others b hb]
    exact hS.freeCount b hb

theorem headers (hC : Created M s f a new) (hH : Headers M s loc) :
    Headers M f (withCentral loc a new) where
  slot := by
    intro b hb i hi
    rcases (hC.mem b).mp hb with rfl | hb
    · rw [hC.withCentral_slot loc hi]
      exact hC.written i hi
    · rw [hC.others b hb] at hi ⊢
      rw [hC.slot hb, hC.withCentral_old loc ⟨b, hb, i, hi, rfl⟩, hC.cellAt hb,
        hC.header _ _ (Cell.slot hb hi)]
      exact hH.slot b hb i hi
  magic := by
    intro l hl
    rw [hC.largeAllocations] at hl
    rw [hC.header l _ (Cell.large hl)]
    exact hH.magic l hl
  state := by
    intro l hl
    rw [hC.largeAllocations] at hl
    rw [hC.header l _ (Cell.large hl)]
    exact hH.state l hl

theorem live (hC : Created M s f a new) (hL : Layout M s) (hH : Headers M s loc)
    (hV : Live M s loc) : Live M f (withCentral loc a new) where
  nodup := by rw [hC.clients.live]; exact hV.nodup
  mem := by
    intro u
    rw [hC.clients.live, hV.mem, hC.isSlot, hC.largeAllocations]
    refine or_congr ⟨fun hu => ⟨Or.inr hu.1, ?_⟩, ?_⟩ Iff.rfl
    · rw [hC.withCentral_old loc hu.1]
      exact hu.2
    · rintro ⟨hu | hu, hal⟩
      · rw [withCentral_new loc u hu] at hal
        simp at hal
      · rw [hC.withCentral_old loc hu] at hal
        exact ⟨hu, hal⟩
  block := by
    intro b hb
    rw [hC.clients.live] at hb
    obtain ⟨m, hc, hle, hfit, -⟩ := hV.cell hL hH hb
    have hok := hV.block b hb
    have hsz := hok.size_le
    rw [hC.header _ _ hc]
    refine { hok with suffixCanary := fun hdeb => ?_ }
    have hsuf : M.suffixSize = 8 := by simp [Platform.suffixSize, hdeb]
    rw [← hok.suffixCanary hdeb]
    exact hC.load _ _ hc _ _ (by omega) (by omega)
  activeObjects := by rw [hC.clients.activeObjects, hC.clients.live]; exact hV.activeObjects
  activeBytes := by rw [hC.clients.activeBytes, hC.clients.live]; exact hV.activeBytes
  activeBytes_lt := by rw [hC.clients.activeBytes]; exact hV.activeBytes_lt

end Created

theorem Inv.create {f : State} {new : List ℕ} (h : Inv M s loc c) (hC : Created M s f a new) :
    Inv M f (withCentral loc a new) (update c (.central a) new) where
  layout := hC.layout
  lists := hC.lists h.lists
  headers := hC.headers h.headers
  live := hC.live h.layout h.headers h.live
  aborted := hC.clients.aborted.trans h.aborted
  released := by rw [hC.clients.released]; exact h.released

theorem Filled.created (h : Inv M s loc c) {sp : Span}
    (hsp : SpanOk M s.pageSize s.mapped a sp) (hsn : a ∉ s.allSpans)
    (hlar : a ∉ s.largeAllocations) (hcac : sp.cachedCount = 0) (hact : sp.activeCount = 0)
    (hF : Filled M (s.adopt a sp) t' a sp.objectCount) :
    Created M s (t'.setSpan a { t'.spans a with
      centralFreeCount := sp.objectCount, freeCount := sp.objectCount }) a
      (((List.range sp.objectCount).reverse).map ((s.adopt a sp).slot M a)) := by
  have hLt : Layout M (s.adopt a sp) := h.layout_adopt hsp hsn hlar
  have hat : a ∈ (s.adopt a sp).allSpans := mem_cons_self
  have htsp : (s.adopt a sp).spans a = sp := by
    simp only [adopt, setSpan_spans, update_self]
  have hspan' : t'.spans a = { sp with centralFree := (t'.spans a).centralFree } := by
    have heq := hF.span
    rwa [htsp] at heq
  have hoth : ∀ b ∈ s.allSpans, t'.spans b = s.spans b := by
    intro b hb
    have hba : b ≠ a := fun heq => hsn (heq ▸ hb)
    rw [hF.others b (mem_cons_of_mem _ hb) hba, adopt_spans_of_mem sp hsn hb]
  obtain ⟨f, hf⟩ : ∃ f, f = t'.setSpan a { t'.spans a with
      centralFreeCount := sp.objectCount, freeCount := sp.objectCount } := ⟨_, rfl⟩
  have hfa : f.spans a = { sp with
      centralFree := (t'.spans a).centralFree
      centralFreeCount := sp.objectCount
      freeCount := sp.objectCount } := by
    rw [hf, setSpan_spans, update_self, hspan']
  have hfb : ∀ b ∈ s.allSpans, f.spans b = s.spans b := by
    intro b hb
    have hba : b ≠ a := fun heq => hsn (heq ▸ hb)
    rw [hf, setSpan_spans, update_of_ne hba, hoth b hb]
  have hsame' : SameLayout t' f := by
    rw [hf]
    refine ⟨⟨rfl, rfl, rfl, fun b _ => ?_, fun _ _ => Header.Like.refl _⟩, rfl, rfl, rfl, rfl⟩
    by_cases hba : b = a
    · subst hba
      simp only [setSpan_spans, update_self]
      exact ⟨rfl, rfl, rfl, rfl, rfl, rfl, rfl⟩
    · simp only [setSpan_spans, update_of_ne hba]
      exact Span.Like.refl _
  have hsm : SameLayout (s.adopt a sp) f := hF.same.trans hsame'
  rw [← hf]
  constructor
  case layout => exact hLt.same hsm
  case fresh => exact hsn
  case mem =>
    intro b
    rw [hsm.allSpans]
    exact mem_cons
  case pageSize => exact hsm.pageSize
  case largeAllocations => exact hsm.largeAllocations
  case others => exact hfb
  case centralFreeCount => rw [hfa]
  case freeCount => rw [hfa]
  case cachedCount => rw [hfa]; exact hcac
  case activeCount => rw [hfa]; exact hact
  case perm =>
    rw [hsm.slots M hat, slots, htsp]
    exact (reverse_perm _).map _
  case links =>
    rw [hfa]
    refine hF.links.congr fun u _ => ?_
    rw [hf]
    rfl
  case written =>
    intro i hi
    rw [hfa] at hi
    have hok := hF.written i hi
    rw [hsm.cellAt hat, hf]
    refine hok.of_core rfl ?_ Iff.rfl
    rw [← hf]
    exact hsm.spans a hat
  case header =>
    intro l m hc
    have hne : ∀ j < sp.objectCount, l ≠ (s.adopt a sp).cellAt a j := by
      rintro j hj rfl
      have hjt : j < ((s.adopt a sp).spans a).objectCount := by rw [htsp]; exact hj
      -- the cell of the new span would lie in an old mapping
      have hin := hLt.slot_inside hat hjt
      have hap := h.adopt_apart hsp hsn hlar hc
      have hst := hLt.stride_bounds hat
      have hhdr := M.headerSize_cases
      have hfit := h.layout.header_fits hc
      rw [htsp] at hin hst
      unfold Apart at hap
      omega
    have hold := hF.header l m (adopt_cell sp hsn hc) hne
    rw [hf]
    exact hold
  case load =>
    intro l m hc w k hlo hhi
    have hkeep := hF.bytes
    rw [htsp] at hkeep
    have hld := hkeep.load ((h.adopt_apart hsp hsn hlar hc).within le_rfl le_rfl hlo hhi)
    rw [hf]
    exact hld
  case bins => rw [hf]; exact hF.bins
  case clients =>
    rw [hf]
    exact ⟨hF.live, hF.aborted, hF.released, congrArg Stats.activeObjects hF.stats,
      congrArg Stats.activeBytes hF.stats⟩

theorem initObjects_lists (M : Platform) (a : ℕ) (s : State) (all live : List ℕ)
    (central : ℕ → List ℕ) : ∀ n, initObjects M a n { s with
      allSpans := all, central := central, liveSpans := live } =
    { initObjects M a n s with allSpans := all, central := central, liveSpans := live }
  | 0 => rfl
  | n + 1 => by
    rw [initObjects, initObjects_lists M a s all live central n]
    rfl

theorem initObjects_same (M : Platform) (a : ℕ) (s : State) : ∀ n,
    (initObjects M a n s).allSpans = s.allSpans ∧ (initObjects M a n s).central = s.central ∧
      (initObjects M a n s).liveSpans = s.liveSpans
  | 0 => ⟨rfl, rfl, rfl⟩
  | n + 1 => initObjects_same M a s n

theorem initObjects_adopt (M : Platform) (a n : ℕ) (s : State) (sp : Span) (count : ℕ) :
    let t := initObjects M a n (s.setSpan a sp)
    let t' := t.setSpan a { t.spans a with centralFreeCount := count, freeCount := count }
    let u := initObjects M a n (s.adopt a sp)
    { t' with
      allSpans := a :: t'.allSpans
      central := update t'.central sp.classIndex (a :: t'.central sp.classIndex)
      liveSpans := a :: t'.liveSpans } =
      u.setSpan a { u.spans a with centralFreeCount := count, freeCount := count } := by
  obtain ⟨hall, hcen, hlv⟩ := initObjects_same M a (s.setSpan a sp) n
  dsimp only
  have hu : initObjects M a n (s.adopt a sp) = { initObjects M a n (s.setSpan a sp) with
      allSpans := a :: (initObjects M a n (s.setSpan a sp)).allSpans
      central := update (initObjects M a n (s.setSpan a sp)).central sp.classIndex
        (a :: (initObjects M a n (s.setSpan a sp)).central sp.classIndex)
      liveSpans := a :: (initObjects M a n (s.setSpan a sp)).liveSpans } := by
    rw [hall, hcen, hlv]
    exact initObjects_lists M a (s.setSpan a sp) _ _ _ n
  rw [hu]
  rfl

theorem Layout.fresh_not_mem (hL : Layout M s) (hf : s.Fresh a n) (hn : 0 < n) :
    a ∉ s.allSpans ∧ a ∉ s.largeAllocations := by
  have hnot : ∀ m, ⟨a, m⟩ ∉ s.mapped := by
    intro m hm
    have hap := hf.2.2.2 _ hm
    have hsz := (hL.mapped.size _ hm).1
    unfold Apart at hap
    dsimp only at hap hsz
    omega
  exact ⟨fun ha => hnot _ (hL.spans a ha).region, fun ha => hnot _ (hL.larges a ha).region⟩

theorem le_pages_mul (area : ℕ) {page : ℕ} (hp : 0 < page) :
    area ≤ (area + page - 1) / page * page := by
  have hdiv := Nat.div_add_mod (area + page - 1) page
  have hmod := Nat.mod_lt (area + page - 1) hp
  rw [Nat.mul_comm] at hdiv
  omega

theorem memoryCurrentP_lt (x : Env) : memoryCurrentP x < memoryMaxP := by
  unfold memoryCurrentP memoryMaxP
  split_ifs <;> omega

theorem spanCreate_cases (hL : Layout M s) (x : Env) (hk : k < sizeClassCount) :
    (∃ e, spanCreate M x k s = (.error e, s)) ∨
      ∃ a m, s.Fresh a m ∧ s.pageSize ≤ m ∧ let sp := newSpan M x k a m s.pageSize
        let t := initObjects M a sp.objectCount ((s.addMapping M a m).adopt a sp)
        spanCreate M x k s = (.ok a, t.setSpan a { t.spans a with
          centralFreeCount := sp.objectCount, freeCount := sp.objectCount }) := by
  have hpag : 0 < s.pageSize := lt_of_lt_of_le (by decide) hL.holdsSpan
  have hst := spanObjectStride_bounds M hk
  have har : spanObjectStride M (sizeClassCapacity k) ≤
      spanObjectArea (spanObjectStride M (sizeClassCapacity k)) := by
    unfold spanObjectArea
    split_ifs <;> omega
  have hpages := le_pages_mul (spanObjectArea (spanObjectStride M (sizeClassCapacity k))) hpag
  unfold spanCreate
  rw [if_neg (not_le.mpr hk)]
  dsimp only
  generalize hop : (spanObjectArea (spanObjectStride M (sizeClassCapacity k)) +
    s.pageSize - 1) / s.pageSize = objectPages at hpages ⊢
  by_cases hbad : objectPages = 0 ∨ objectPages = sizeMax
  · rw [if_pos hbad]
    exact .inl ⟨_, rfl⟩
  rw [if_neg hbad]
  rcases pageHeapAcquire_cases M x (objectPages + 1) s with hnn | ⟨a, -, hf, hso⟩
  · rw [hnn]
    exact .inl ⟨_, rfl⟩
  · rw [hso]
    right
    have hsz : (objectPages + 1) * s.pageSize = objectPages * s.pageSize + s.pageSize :=
      Nat.succ_mul _ _
    have hcnt : (newSpan M x k a ((objectPages + 1) * s.pageSize) s.pageSize).objectCount ≠
        0 := by
      simp only [newSpan]
      rw [hsz, Nat.add_sub_cancel]
      have hhdr := M.headerSize_cases
      exact Nat.ne_of_gt (Nat.div_pos (by omega) (by omega))
    refine ⟨a, (objectPages + 1) * s.pageSize, hf, by omega, ?_⟩
    have hpg : (s.addMapping M a ((objectPages + 1) * s.pageSize)).pageSize = s.pageSize := rfl
    dsimp only
    rw [hpg, if_neg hcnt]
    exact congrArg _ (initObjects_adopt M a _ _ _ _)

theorem Inv.spanCreate_created (h : Inv M s loc c) (x : Env) (hk : k < sizeClassCount) :
    (∃ e, spanCreate M x k s = (.error e, s)) ∨
      ∃ a m t new, s.Fresh a m ∧ Inv M (s.addMapping M a m) loc c ∧
        Created M (s.addMapping M a m) t a new ∧ (t.spans a).classIndex = k ∧
        (t.spans a).ownerP = memoryCurrentP x ∧ spanCreate M x k s = (.ok a, t) := by
  rcases spanCreate_cases h.layout x hk with ⟨e, heq⟩ | ⟨a, m, hf, hm, heq⟩
  · exact .inl ⟨e, heq⟩
  · right
    dsimp only at heq
    have hpag : 0 < s.pageSize := lt_of_lt_of_le (by decide) h.layout.holdsSpan
    have hI := h.addMapping hf (by omega)
    obtain ⟨hsn, hlar⟩ := h.layout.fresh_not_mem hf (by omega)
    have hst := spanObjectStride_bounds M hk
    have hsp : SpanOk M s.pageSize (s.addMapping M a m).mapped a
        (newSpan M x k a m s.pageSize) := by
      refine ⟨rfl, mem_cons_self, hk, rfl, rfl, ?_, memoryCurrentP_lt x⟩
      have hdiv := Nat.div_mul_le_self (m - s.pageSize) (spanObjectStride M (sizeClassCapacity k))
      simp only [newSpan]
      omega
    have hsl : ((s.addMapping M a m).adopt a (newSpan M x k a m s.pageSize)).spans a =
        newSpan M x k a m s.pageSize := by
      simp only [adopt, setSpan_spans, update_self]
    have hfl := filled_initObjects (hI.layout_adopt hsp hsn hlar) mem_cons_self
      (by rw [hsl]; rfl) (newSpan M x k a m s.pageSize).objectCount (by rw [hsl])
    have hlk := hfl.same.spans a mem_cons_self
    rw [hsl] at hlk
    refine ⟨a, m, _, _, hf, hI, hfl.created hI hsp hsn hlar rfl rfl, ?_, ?_, heq⟩
    · simp only [setSpan_spans, update_self]
      exact hlk.classIndex
    · simp only [setSpan_spans, update_self]
      exact hlk.ownerP

theorem Inv.spanCreate (h : Inv M s loc c) (x : Env) (hk : k < sizeClassCount) :
    Good M (spanCreate M x k s).2 ∧ SameAccounts s (spanCreate M x k s).2 ∧
      (spanCreate M x k s).2.bins = s.bins ∧
      ∀ a, (spanCreate M x k s).1 = .ok a → a ∈ (spanCreate M x k s).2.allSpans ∧
        ((spanCreate M x k s).2.spans a).classIndex = k := by
  rcases h.spanCreate_created x hk with ⟨e, heq⟩ | ⟨a, m, t, new, -, hI, hC, hcla, -, heq⟩
  · rw [heq]
    exact ⟨⟨loc, c, h⟩, SameAccounts.refl s, rfl, fun a ha => nomatch ha⟩
  · rw [heq]
    have hcl := hC.clients
    refine ⟨⟨_, _, hI.create hC⟩, ⟨hcl.live, hcl.activeObjects, hcl.activeBytes⟩, hC.bins, ?_⟩
    rintro b ⟨rfl⟩
    exact ⟨(hC.mem a).mpr (.inl rfl), hcla⟩

end Veloco.Memory
