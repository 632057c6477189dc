import Veloco.Memory.Move

/-!
# Free slots between central lists, caches and remote queues
-/

namespace Veloco.Memory

open Function List State
open Veloco.Bytes Veloco.Word Veloco.Chain Veloco.Ledger

variable {M : Platform} {s s' : State} {loc : ℕ → Place} {c : Place → List ℕ}
  {a i k p u v : ℕ} {b b' : Bin} {pl : Place}

theorem Lists.head_slot (hS : Lists M s loc c) (hpl : s.HasList pl) (hhd : s.head pl ≠ 0) :
    ∃ a ∈ s.allSpans, ∃ i < (s.spans a).objectCount,
      s.head pl = s.slot M a i ∧ loc (s.slot M a i) = pl := by
  obtain ⟨t, hct, -⟩ := (hS.links pl hpl).pop hhd
  have hmem : s.head pl ∈ c pl := by
    rw [hct]
    exact mem_cons_self
  obtain ⟨⟨a, ha, i, hi, hu⟩, hloc⟩ := (hS.located.mem pl _).mp hmem
  exact ⟨a, ha, i, hi, hu, hu ▸ hloc⟩

theorem Lists.head_lt (hL : Layout M s) (hS : Lists M s loc c) (hpl : s.HasList pl) :
    s.head pl < 2 ^ 64 := by
  by_cases hhd : s.head pl = 0
  · rw [hhd]
    norm_num
  · obtain ⟨a, ha, i, hi, hu, -⟩ := hS.head_slot hpl hhd
    rw [hu]
    exact (hL.slot_bounds ha hi).2.2.2.1

theorem Lists.push_lt (hL : Layout M s) (hS : Lists M s loc c) (hu : s.IsSlot M u)
    (hne : loc u ≠ pl) : (c pl).length + 1 < modulus := by
  have hlen := hL.length_lt (hS.located.move hu hne) pl
  rwa [bring_self, length_cons] at hlen

theorem Lists.length_pos (hS : Lists M s loc c) (hu : s.IsSlot M u) :
    0 < (c (loc u)).length :=
  length_pos_of_mem ((hS.located.mem _ _).mpr ⟨hu, rfl⟩)

theorem Lists.binCount_sub (hL : Layout M s) (hS : Lists M s loc c) (hu : s.IsSlot M u)
    (hloc : loc u = .bin b) : sub (s.bins b).count 1 + 1 = (s.bins b).count := by
  have hpos := hS.length_pos hu
  rw [hloc, ← hS.binCount] at hpos
  refine sub_one_add_one hpos ?_
  rw [hS.binCount]
  exact hL.length_lt hS.located _

theorem Lists.binCount_add (hL : Layout M s) (hS : Lists M s loc c) (hu : s.IsSlot M u)
    (hne : loc u ≠ .bin b) : add (s.bins b).count 1 = (s.bins b).count + 1 := by
  refine add_of_lt ?_
  rw [hS.binCount]
  exact hS.push_lt hL hu hne

section Counters

variable (hL : Layout M s) (ha : a ∈ s.allSpans) (hi : i < (s.spans a).objectCount)
  (loc : ℕ → Place) {q : Place → Bool}

include hL ha hi

theorem Layout.tally_sub (hq : q (loc (s.slot M a i)) = true) :
    sub (tally (s.slots M a) loc q) 1 + 1 = tally (s.slots M a) loc q := by
  refine sub_one_add_one (tally_pos (State.mem_slots.mpr ⟨i, hi, rfl⟩) hq) ?_
  have hle := tally_le (s.slots M a) loc q
  have hlt := hL.objectCount_lt ha
  rw [length_slots] at hle
  omega

theorem Layout.tally_add (hq : q (loc (s.slot M a i)) = false) :
    add (tally (s.slots M a) loc q) 1 = tally (s.slots M a) loc q + 1 := by
  have hlt := tally_lt (State.mem_slots.mpr ⟨i, hi, rfl⟩) hq
  have hlt' := hL.objectCount_lt ha
  rw [length_slots] at hlt
  exact add_of_lt (by omega)

end Counters

section SetLink

variable (hL : Layout M s) (ha : a ∈ s.allSpans) (hi : i < (s.spans a).objectCount) (v : ℕ)

include hL ha hi

theorem Layout.setLink_header {l n : ℕ} (hc : Cell s l n) :
    (s.setLink M (s.slot M a i) v).headers l = s.headers l :=
  hL.overwrite_header (Cell.slot ha hi) le_rfl (hL.slot_bounds ha hi).2.2.1 _ hc

theorem Layout.setLink_span {b : ℕ} (hb : b ∈ s.allSpans) :
    (s.setLink M (s.slot M a i) v).spans b = s.spans b :=
  hL.overwrite_span (Cell.slot ha hi) le_rfl (hL.slot_bounds ha hi).2.2.1 _ hb

theorem Layout.setLink_link_of_ne {w : ℕ} (hw : s.IsSlot M w) (hne : w ≠ s.slot M a i) :
    (s.setLink M (s.slot M a i) v).link w = s.link w :=
  hL.load_slot (Cell.slot ha hi) (Nat.le_add_right _ _) (hL.slot_bounds ha hi).2.2.1
    (keeps_store _ _ _ _) hw hne

end SetLink

theorem setLink_link (M : Platform) (s : State) (u : ℕ) (hv : v < 2 ^ 64) :
    (s.setLink M u v).link u = v :=
  load_store_word _ _ hv

def State.relink (M : Platform) (s : State) (u v : ℕ) (bins : Bin → Cache) (a : ℕ) (sp : Span) :
    State :=
  { s.setLink M u v with
    bins := bins
    spans := update (s.setLink M u v).spans a sp }

theorem Lists.relink (hL : Layout M s) (hS : Lists M s loc c) (ha : a ∈ s.allSpans)
    (hi : i < (s.spans a).objectCount) {old new : Place} {bins : Bin → Cache} {sp : Span}
    (hnl : s.HasList new) (hlk : (s.spans a).Like sp)
    (hpop : s.HasList old → s.head old = s.slot M a i ∧ (s.relink M (s.slot M a i)
      (s.head new) bins a sp).head old = s.link (s.slot M a i))
    (hps : (s.relink M (s.slot M a i) (s.head new) bins a sp).head new = s.slot M a i)
    (hbin : ∀ b, Place.bin b ≠ old → Place.bin b ≠ new → bins b = s.bins b)
    (hcen : Place.central a ≠ old → Place.central a ≠ new →
      sp.centralFree = (s.spans a).centralFree)
    (hbn : ∀ b, (bins b).count + (if old = .bin b then 1 else 0) =
      (s.bins b).count + (if new = .bin b then 1 else 0))
    (hcn : sp.centralFreeCount + old.isCentral.toNat =
      (s.spans a).centralFreeCount + new.isCentral.toNat)
    (hcc : sp.cachedCount + old.isCached.toNat = (s.spans a).cachedCount + new.isCached.toNat)
    (hact : sp.activeCount + old.isAllocated.toNat =
      (s.spans a).activeCount + new.isAllocated.toNat)
    (hfr : sp.freeCount + new.isAllocated.toNat = (s.spans a).freeCount + old.isAllocated.toNat) :
    Moves M s (s.relink M (s.slot M a i) (s.head new) bins a sp) a (s.slot M a i)
      old new := by
  have hsp : ∀ d ∈ s.allSpans, d ≠ a →
      (s.relink M (s.slot M a i) (s.head new) bins a sp).spans d = s.spans d := by
    intro d hd hda
    simp only [State.relink]
    rw [update_of_ne hda]
    exact hL.setLink_span ha hi _ hd
  have hsl : (s.relink M (s.slot M a i) (s.head new) bins a sp).spans a = sp := by
    simp only [State.relink, update_self]
  constructor
  case same =>
    have hbs := hL.sameLayout_overwrite (Cell.slot ha hi) le_rfl (hL.slot_bounds ha hi).2.2.1
      (store s.bytes (s.slot M a i) 8 (s.head new))
    refine ⟨⟨rfl, rfl, rfl, fun d hd => ?_, hbs.larges⟩, rfl, rfl, rfl, rfl⟩
    by_cases hda : d = a
    · subst hda
      rw [hsl]
      exact hlk
    · rw [hsp d hd hda]
      exact Span.Like.refl _
  case pop => exact hpop
  case push => exact fun _ => ⟨hps, setLink_link M s _ (hS.head_lt hL hnl)⟩
  case head =>
    intro q hq hqo hqn
    cases q with
    | central d =>
      by_cases hda : d = a
      · subst hda
        exact (congrArg Span.centralFree hsl).trans (hcen hqo hqn)
      · exact congrArg Span.centralFree (hsp d hq hda)
    | bin d => exact congrArg Cache.head (hbin d hqo hqn)
    | allocated => rfl
  case link => exact fun w hw hwu => hL.setLink_link_of_ne ha hi (s.head new) hw hwu
  case binCount => exact hbn
  case centralFreeCount => rw [hsl]; exact hcn
  case cachedCount => rw [hsl]; exact hcc
  case activeCount => rw [hsl]; exact hact
  case freeCount => rw [hsl]; exact hfr
  case others => exact hsp

theorem Inv.relink (h : Inv M s loc c) (ha : a ∈ s.allSpans)
    (hi : i < (s.spans a).objectCount) {old new : Place} {bins : Bin → Cache} {sp : Span}
    (hold : loc (s.slot M a i) = old) (hne : old ≠ new) (hol : s.HasList old)
    (hnl : s.HasList new) (hft : new.Fits a (s.spans a).classIndex)
    (hm : Moves M s (s.relink M (s.slot M a i) (s.head new) bins a sp) a
      (s.slot M a i) old new) :
    Shifts M s (s.relink M (s.slot M a i) (s.head new) bins a sp) loc c a i old new := by
  have hof : old ≠ .allocated := by
    rintro rfl
    exact hol
  have hnf : new ≠ .allocated := by
    rintro rfl
    exact hnl
  refine ⟨ha, hi, hold, h.moveFree ha hi hold hne hof hnf hft hm (fun l n hc => ?_)
    (keeps_store _ _ _ _) ⟨rfl, rfl, rfl, rfl, rfl⟩, hm.same, ⟨rfl, rfl, rfl⟩⟩
  exact h.layout.setLink_header ha hi (s.head new) hc

theorem Inv.remoteToCache_shifts (h : Inv M s loc c) (hhd : (s.bins (.remote p k)).head ≠ 0) :
    ∃ a i, Shifts M s (binPush M (.cache p k) (s.bins (.remote p k)).head
      (binPop (.remote p k) s)) loc c a i (.bin (.remote p k)) (.bin (.cache p k)) := by
  have hL := h.layout
  have hS := h.lists
  have hls : s.HasList (.bin (.remote p k)) := trivial
  obtain ⟨a, ha, i, hi, hu, hloc⟩ := hS.head_slot hls hhd
  have hst : s.IsSlot M (s.slot M a i) := ⟨a, ha, i, hi, rfl⟩
  simp only [State.head] at hu
  have hsub := hS.binCount_sub hL hst hloc
  have hadd : add (s.bins (.cache p k)).count 1 = (s.bins (.cache p k)).count + 1 :=
    hS.binCount_add hL hst (by rw [hloc]; simp)
  have hfit := hS.fits a ha i hi
  rw [hloc] at hfit
  have hsta : binPush M (.cache p k) (s.bins (.remote p k)).head (binPop (.remote p k) s) =
      s.relink M (s.slot M a i) (s.head (.bin (.cache p k)))
        (update (update s.bins (.remote p k)
            ⟨s.link (s.slot M a i), sub (s.bins (.remote p k)).count 1⟩) (.cache p k)
          ⟨s.slot M a i, (s.bins (.cache p k)).count + 1⟩) a (s.spans a) := by
    have hsp := hL.setLink_span ha hi (s.bins (.cache p k)).head ha
    simp only [State.relink, State.head]
    conv_rhs => rw [← hsp, update_eq_self]
    simp [binPush, binPop, State.setBin, State.setLink, State.overwrite, hu, hadd]
  rw [hsta]
  refine ⟨a, i, h.relink ha hi hloc (by simp) hls trivial hfit (hS.relink hL ha hi trivial
    (Span.Like.refl _) (fun _ => ⟨hu, ?_⟩) ?_ ?_ ?_ ?_ ?_ ?_ rfl rfl)⟩
  · simp [State.relink, State.head]
  · simp [State.relink, State.head]
  · intro b hb hb'
    simp only [ne_eq, Place.bin.injEq] at hb hb'
    simp [hb, hb']
  · exact fun _ _ => rfl
  · intro b
    by_cases hb : b = .remote p k
    · subst hb
      simpa using hsub
    · by_cases hb' : b = .cache p k
      · subst hb'
        simp
      · simp [hb, hb', Ne.symm hb, Ne.symm hb']
  · rfl
  · rfl

theorem Inv.remoteToCache (h : Inv M s loc c) (hhd : (s.bins (.remote p k)).head ≠ 0) :
    Quiet M s (binPush M (.cache p k) (s.bins (.remote p k)).head
      (binPop (.remote p k) s)) := by
  obtain ⟨a, i, hshi⟩ := h.remoteToCache_shifts hhd
  exact hshi.quiet

theorem Inv.centralToCache_shifts (h : Inv M s loc c) (ha : a ∈ s.allSpans)
    (hk : (s.spans a).classIndex = k) (hp : p < memoryMaxP) (hhd : (s.spans a).centralFree ≠ 0) :
    ∃ i, Shifts M s (binPush M (.cache p k) (spanTakeCentral a s).1
      (spanTakeCentral a s).2) loc c a i (.central a) (.bin (.cache p k)) := by
  have hL := h.layout
  have hS := h.lists
  have hls : s.HasList (.central a) := ha
  obtain ⟨d, hd, i, hi, hu, hloc⟩ := hS.head_slot hls hhd
  have hfit := hS.fits d hd i hi
  rw [hloc] at hfit
  obtain rfl : a = d := hfit
  have hst : s.IsSlot M (s.slot M a i) := ⟨a, ha, i, hi, rfl⟩
  simp only [State.head] at hu
  have hadd : add (s.bins (.cache p k)).count 1 = (s.bins (.cache p k)).count + 1 :=
    hS.binCount_add hL hst (by rw [hloc]; simp)
  have hcen := hL.tally_sub ha hi loc (q := Place.isCentral) (by rw [hloc]; rfl)
  have hcac := hL.tally_add ha hi loc (q := Place.isCached) (by rw [hloc]; rfl)
  rw [← hS.centralFreeCount a ha] at hcen
  rw [← hS.cachedCount a ha] at hcac
  have hbs : a ≠ 0 := Nat.ne_of_gt (hL.mapped.base _ (hL.spans a ha).region).1
  have hsta : binPush M (.cache p k) (spanTakeCentral a s).1 (spanTakeCentral a s).2 =
      s.relink M (s.slot M a i) (s.head (.bin (.cache p k)))
        (update s.bins (.cache p k) ⟨s.slot M a i, (s.bins (.cache p k)).count + 1⟩) a
        { s.spans a with
          centralFree := s.link (s.slot M a i)
          centralFreeCount := sub (s.spans a).centralFreeCount 1
          cachedCount := (s.spans a).cachedCount + 1 } := by
    have hap := hL.write_apart_span (Cell.slot ha hi) (w := s.slot M a i)
      (Nat.le_add_right _ _) (hL.slot_bounds ha hi).2.2.1 ha
    rw [spanTakeCentral, if_neg (by rw [not_or]; exact ⟨hbs, hhd⟩)]
    simp only [State.relink, binPush, State.setBin, State.setLink, State.setSpan, State.overwrite,
      State.head, hu, hadd, hcac]
    congr 1
    funext e
    by_cases he : e = a
    · subst he
      simp [hap]
    · simp [update_of_ne he]
  rw [hsta]
  refine ⟨i, h.relink ha hi hloc (by simp) hls trivial ⟨hk.symm, hp⟩ (hS.relink hL ha hi trivial
    ⟨rfl, rfl, rfl, rfl, rfl, rfl, rfl⟩ (fun _ => ⟨hu, ?_⟩) ?_ ?_ ?_ ?_ ?_ ?_ rfl rfl)⟩
  · simp [State.relink, State.head]
  · simp [State.relink, State.head]
  · intro b _ hb
    simp only [ne_eq, Place.bin.injEq] at hb
    simp [hb]
  · exact fun hne => absurd rfl hne
  · intro b
    by_cases hb : b = .cache p k
    · subst hb
      simp
    · simp [hb, Ne.symm hb]
  · simpa [Place.isCentral] using hcen
  · simp [Place.isCached]

theorem Inv.centralToCache (h : Inv M s loc c) (ha : a ∈ s.allSpans)
    (hk : (s.spans a).classIndex = k) (hp : p < memoryMaxP) (hhd : (s.spans a).centralFree ≠ 0) :
    Quiet M s (binPush M (.cache p k) (spanTakeCentral a s).1 (spanTakeCentral a s).2) := by
  obtain ⟨i, hshi⟩ := h.centralToCache_shifts ha hk hp hhd
  exact hshi.quiet

theorem Inv.cacheToCentral (h : Inv M s loc c) (hhd : (s.bins b).head ≠ 0) :
    ∃ a i, (s.headers ((s.bins b).head - M.headerSize)).span = a ∧
      Shifts M s (spanMoveToCentral M a (s.bins b).head (binPop b s)) loc c a i (.bin b)
        (.central a) := by
  have hL := h.layout
  have hS := h.lists
  have hls : s.HasList (.bin b) := trivial
  obtain ⟨a, ha, i, hi, hu, hloc⟩ := hS.head_slot hls hhd
  have hst : s.IsSlot M (s.slot M a i) := ⟨a, ha, i, hi, rfl⟩
  simp only [State.head] at hu
  have hsub := hS.binCount_sub hL hst hloc
  have hcen := hL.tally_add ha hi loc (q := Place.isCentral) (by rw [hloc]; rfl)
  have hcac := hL.tally_sub ha hi loc (q := Place.isCached) (by rw [hloc]; rfl)
  rw [← hS.centralFreeCount a ha] at hcen
  rw [← hS.cachedCount a ha] at hcac
  have hbs : a ≠ 0 := Nat.ne_of_gt (hL.mapped.base _ (hL.spans a ha).region).1
  have hsta : spanMoveToCentral M a (s.bins b).head (binPop b s) =
      s.relink M (s.slot M a i) (s.head (.central a))
        (update s.bins b ⟨s.link (s.slot M a i), sub (s.bins b).count 1⟩) a
        { s.spans a with
          centralFree := s.slot M a i
          centralFreeCount := (s.spans a).centralFreeCount + 1
          cachedCount := sub (s.spans a).cachedCount 1 } := by
    have hsp := hL.setLink_span ha hi (s.spans a).centralFree ha
    simp only [State.setLink, State.overwrite] at hsp
    rw [hu] at hhd
    rw [spanMoveToCentral, if_neg (by rw [not_or, hu]; exact ⟨hbs, hhd⟩)]
    simp only [State.relink, binPop, State.setBin, State.setLink, State.setSpan, State.overwrite,
      State.head, hu, hsp, hcen]
    rw [if_pos (by omega)]
  refine ⟨a, i, ?_, ?_⟩
  · rw [hu, State.slot_sub]
    exact (h.headers.slot a ha i hi).span
  rw [hsta]
  refine h.relink ha hi hloc (by simp) hls ha rfl (hS.relink hL ha hi ha
    ⟨rfl, rfl, rfl, rfl, rfl, rfl, rfl⟩ (fun _ => ⟨hu, ?_⟩) ?_ ?_ ?_ ?_ ?_ ?_ rfl rfl)
  · simp [State.relink, State.head]
  · simp [State.relink, State.head]
  · intro d hd _
    simp only [ne_eq, Place.bin.injEq] at hd
    simp [hd]
  · exact fun _ hne => absurd rfl hne
  · intro d
    by_cases hd : d = b
    · subst hd
      simpa using hsub
    · simp [hd, Ne.symm hd]
  · simp [Place.isCentral]
  · simpa [Place.isCached] using hcac

@[simp] theorem binPush_head (M : Platform) (b : Bin) (u : ℕ) (s : State) :
    ((binPush M b u s).bins b).head = u := by
  simp [binPush, setBin]

theorem quiet_refillRemote (p k : ℕ) : ∀ (n count : ℕ) (s : State), Good M s →
    Quiet M s (refillRemote M p k n count s).2
  | 0, _, _, h => .refl h
  | n + 1, count, s, h => by
    rw [refillRemote]
    by_cases hhd : (s.bins (.remote p k)).head = 0
    · rw [if_pos hhd]
      exact .refl h
    · rw [if_neg hhd]
      obtain ⟨loc, c, hI⟩ := h
      have hone := hI.remoteToCache hhd
      exact hone.trans (quiet_refillRemote p k n (count + 1) _ hone.good)

theorem refillRemote_head (p k : ℕ) : ∀ (n count : ℕ) (s : State),
    (count ≠ 0 → (s.bins (.cache p k)).head ≠ 0) → (refillRemote M p k n count s).1 ≠ 0 →
      ((refillRemote M p k n count s).2.bins (.cache p k)).head ≠ 0
  | 0, _, _, h => h
  | n + 1, count, s, h => by
    rw [refillRemote]
    by_cases hhd : (s.bins (.remote p k)).head = 0
    · rw [if_pos hhd]
      exact h
    · rw [if_neg hhd]
      refine refillRemote_head p k n (count + 1) _ fun _ => ?_
      rwa [binPush_head]

theorem refillRemote_stats (M : Platform) (p k : ℕ) : ∀ (n count : ℕ) (s : State),
    (refillRemote M p k n count s).2.stats = s.stats
  | 0, _, _ => rfl
  | n + 1, count, s => by
    rw [refillRemote]
    split_ifs
    · rfl
    · exact refillRemote_stats M p k n _ _

theorem quiet_refillCentral (hp : p < memoryMaxP) : ∀ (n count : ℕ) (s : State), Good M s →
    a ∈ s.allSpans → (s.spans a).classIndex = k →
      Quiet M s (refillCentral M p k a n count s).2
  | 0, _, _, h, _, _ => .refl h
  | n + 1, count, s, h, ha, hk => by
    rw [refillCentral]
    by_cases hhd : (s.spans a).centralFree = 0
    · rw [if_pos hhd]
      exact .refl h
    · rw [if_neg hhd]
      obtain ⟨loc, c, hI⟩ := h
      have hone := hI.centralToCache ha hk hp hhd
      refine hone.trans (quiet_refillCentral hp n (count + 1) _ hone.good ?_ ?_)
      · rw [hone.layout.allSpans]
        exact ha
      · rw [(hone.layout.spans a ha).classIndex]
        exact hk

theorem refillCentral_head (p k a : ℕ) : ∀ (n count : ℕ) (s : State), a ≠ 0 →
    (count ≠ 0 → (s.bins (.cache p k)).head ≠ 0) → (refillCentral M p k a n count s).1 ≠ 0 →
      ((refillCentral M p k a n count s).2.bins (.cache p k)).head ≠ 0
  | 0, _, _, _, h => h
  | n + 1, count, s, ha, h => by
    rw [refillCentral]
    by_cases hhd : (s.spans a).centralFree = 0
    · rw [if_pos hhd]
      exact h
    · rw [if_neg hhd]
      refine refillCentral_head p k a n (count + 1)
        (binPush M (.cache p k) (spanTakeCentral a s).1 (spanTakeCentral a s).2) ha fun _ => ?_
      have hfst : (spanTakeCentral a s).1 = (s.spans a).centralFree := by
        rw [spanTakeCentral, if_neg (by rw [not_or]; exact ⟨ha, hhd⟩)]
      rwa [binPush_head, hfst]

end Veloco.Memory
