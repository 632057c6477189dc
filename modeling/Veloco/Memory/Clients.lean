import Veloco.Memory.Free

/-!
# Every run of the clients
-/

namespace Veloco.Memory

open List State
open Veloco.Bytes Veloco.Word Veloco.Chain Veloco.Ledger

variable {M : Platform} {s s' : State} {loc : ℕ → Place} {c : Place → List ℕ}
  {a count i k l n ptr size : ℕ} {b : Block}

def Ready (M : Platform) (s : State) : Prop := s = State.initial ∨ Good M s

theorem good_init (hpg : spanSize ≤ M.pageSize) (hpow : isPowerOfTwo M.pageSize = true) :
    Good M { State.initial with initialized := true, pageSize := M.pageSize } := by
  refine ⟨fun _ => .allocated, fun _ => [], ?_⟩
  have hnot : ∀ u, ¬ ({ State.initial with
      initialized := true, pageSize := M.pageSize } : State).IsSlot M u := by
    rintro u ⟨a, ha, -⟩
    exact absurd ha not_mem_nil
  constructor
  case layout =>
    exact {
      initialized := rfl
      pageSize := rfl
      holdsSpan := hpg
      aligned := dvd_pageSize hpow hpg
      mapped := ⟨List.Pairwise.nil, fun _ hr => absurd hr not_mem_nil,
        fun _ hr => absurd hr not_mem_nil⟩
      spans := fun _ ha => absurd ha not_mem_nil
      larges := fun _ hl => absurd hl not_mem_nil
      nodup := nodup_nil
      nodup_central := fun _ => nodup_nil
      mem_central := by simp [State.initial]
      liveSpans := rfl }
  case lists =>
    refine ⟨⟨fun _ => nodup_nil, fun pl u => ?_⟩, fun _ ha => absurd ha not_mem_nil,
      fun pl hpl => ?_, fun _ => rfl, ?_, ?_, ?_, ?_⟩
    · exact ⟨fun hu => absurd hu not_mem_nil, fun hu => absurd hu.1 (hnot u)⟩
    · cases pl with
      | central a => exact absurd hpl not_mem_nil
      | bin b => exact rfl
      | allocated => exact absurd hpl id
    all_goals exact fun _ ha => absurd ha not_mem_nil
  case headers =>
    exact ⟨fun _ ha => absurd ha not_mem_nil, fun _ hl => absurd hl not_mem_nil,
      fun _ hl => absurd hl not_mem_nil⟩
  case live =>
    refine ⟨nodup_nil, fun u => ?_, fun _ hb => absurd hb not_mem_nil, rfl, rfl,
      Nat.zero_lt_of_lt (by decide : 0 < modulus)⟩
    refine ⟨fun hu => absurd hu not_mem_nil, ?_⟩
    rintro (⟨hu, -⟩ | ⟨h, hh, -⟩)
    · exact absurd hu (hnot u)
    · exact absurd hh not_mem_nil
  case aborted => rfl
  case released => exact fun _ hr => absurd hr not_mem_nil

/-! ## One call -/

theorem requestSize_pos (size : ℕ) : 0 < requestSize size := by
  unfold requestSize
  split_ifs <;> omega

theorem requestSize_lt (hsz : size < modulus) : requestSize size < modulus := by
  have hmod : modulus = 18446744073709551616 := rfl
  unfold requestSize
  split_ifs <;> omega

theorem malloc_cases (hpg : spanSize ≤ M.pageSize) (h : Ready M s) (x : Env) (size : ℕ) :
    s = State.initial ∧ malloc M x size s = (0, s) ∨
      ∃ t, Good M t ∧
        (t = s ∨ s = State.initial ∧
          t = { State.initial with initialized := true, pageSize := M.pageSize }) ∧
        malloc M x size s = mallocLocked M x (requestSize size) t := by
  unfold malloc
  rcases h with rfl | h
  · by_cases hpow : isPowerOfTwo M.pageSize = true
    · have hnt : memoryEnsureInitialized M State.initial =
          (.ok, { State.initial with initialized := true, pageSize := M.pageSize }) := by
        simp [memoryEnsureInitialized, allocatorInit, initial, hpow]
      rw [hnt]
      exact .inr ⟨_, good_init hpg hpow, Or.inr ⟨rfl, rfl⟩, rfl⟩
    · have hnt : memoryEnsureInitialized M State.initial = (.system, State.initial) := by
        simp [memoryEnsureInitialized, allocatorInit, initial, hpow]
      rw [hnt]
      exact .inl ⟨rfl, rfl⟩
  · have hnt : memoryEnsureInitialized M s = (.ok, s) := by
      obtain ⟨loc, c, hI⟩ := h
      rw [memoryEnsureInitialized, if_pos hI.layout.initialized]
    rw [hnt]
    exact .inr ⟨s, h, Or.inl rfl, rfl⟩

theorem malloc_spec (hpg : spanSize ≤ M.pageSize) (h : Ready M s) (x : Env)
    (hsz : size < modulus) :
    (malloc M x size s).2.live = s.live ∧
      ((malloc M x size s).1 = 0 ∧ Ready M (malloc M x size s).2 ∨
        (malloc M x size s).1 ≠ 0 ∧ Good M ((malloc M x size s).2.withLive
          (⟨(malloc M x size s).1, requestSize size⟩ :: s.live))) := by
  rcases malloc_cases hpg h x size with ⟨rfl, heq⟩ | ⟨t, ht, hsta, heq⟩
  · rw [heq]
    exact ⟨rfl, Or.inl ⟨rfl, Or.inl rfl⟩⟩
  · have hlv : t.live = s.live := by
      rcases hsta with rfl | ⟨rfl, rfl⟩ <;> rfl
    rw [heq, ← hlv]
    obtain ⟨hsm, hfl | hok⟩ :=
      mallocLocked_spec ht x (requestSize_pos size) (requestSize_lt hsz)
    · exact ⟨hsm, Or.inl ⟨hfl.1, Or.inr hfl.2⟩⟩
    · exact ⟨hsm, Or.inr hok⟩

theorem mul_lt_of_accepted (h : ¬ (count ≠ 0 ∧ size > sizeMax / count)) : count * size < modulus := by
  have hmod : sizeMax < modulus := by decide
  by_cases hcnt : count = 0
  · rw [hcnt, Nat.zero_mul]
    decide
  · have hle : size ≤ sizeMax / count := by
      by_contra hlt
      exact h ⟨hcnt, not_le.mp hlt⟩
    rw [Nat.le_div_iff_mul_le (Nat.pos_of_ne_zero hcnt), Nat.mul_comm] at hle
    omega

theorem Ready.calloc (hpg : spanSize ≤ M.pageSize) (h : Ready M s) (x : Env) :
    Ready M ((calloc M x count size s).2.gain (calloc M x count size s).1
      (count * size)) := by
  unfold Memory.calloc
  split_ifs with hvr
  · exact h
  obtain ⟨-, hres⟩ := malloc_spec hpg h x (mul_lt_of_accepted hvr)
  have hlv := (malloc_spec hpg h x (mul_lt_of_accepted hvr)).1
  cases hr : malloc M x (count * size) s with
  | mk ptr t =>
    rw [hr] at hres hlv
    rcases hres with ⟨hzr, hrdy⟩ | ⟨hne, hgd⟩
    · subst hzr
      exact hrdy
    · cases ptr with
      | zero => exact absurd rfl hne
      | succ ptr =>
        dsimp only at hlv hgd ⊢
        obtain ⟨loc, c, hI⟩ := hgd
        have hle : count * size ≤ requestSize (count * size) := by
          unfold requestSize
          split_ifs <;> omega
        have hwri := hI.write (w := ptr + 1) (k := count * size) mem_cons_self le_rfl
          (Nat.add_le_add_left hle _) (keeps_fill t.bytes (ptr + 1) (count * size) 0)
        rw [gain, if_neg (Nat.succ_ne_zero ptr)]
        refine .inr ⟨loc, c, ?_⟩
        simp only [overwrite, withLive] at hwri ⊢
        rw [hlv]
        exact hwri

theorem Ready.ptr_ne (h : Ready M s) (hb : b ∈ s.live) : b.ptr ≠ 0 := by
  rcases h with rfl | ⟨loc, c, hI⟩
  · exact absurd hb not_mem_nil
  · obtain ⟨n, -, hle, -⟩ := hI.live.cell hI.layout hI.headers hb
    have hhdr := M.headerSize_cases
    omega

theorem Ready.free_null (h : Ready M s) (x : Env) : (free M x 0 s).drop 0 = s := by
  have hfr : free M x 0 s = s := if_pos (.inl rfl)
  have hall : s.live.filter (fun b => b.ptr != 0) = s.live :=
    filter_eq_self.mpr fun b hb => by simpa using h.ptr_ne hb
  rw [hfr]
  simp only [State.drop, hall]

theorem Good.free (h : Good M s) (x : Env) (hb : b ∈ s.live) :
    Good M ((free M x b.ptr s).drop b.ptr) := by
  obtain ⟨hlv, hgd⟩ := free_spec h x hb
  unfold State.drop
  rw [hlv]
  exact hgd

theorem reallocCopy_good (hpg : spanSize ≤ M.pageSize) (h : Good M s) (x : Env)
    (hsz : size < modulus) {t : State} {copySize : ℕ} (src : ℕ)
    (hr : malloc M x size s = (ptr + 1, t)) (hle : copySize ≤ requestSize size) :
    Good M ((t.withLive (⟨ptr + 1, requestSize size⟩ :: s.live)).overwrite M (ptr + 1) copySize
      (copy t.bytes (ptr + 1) src copySize)) := by
  have hres := (malloc_spec hpg (.inr h) x hsz).2
  rw [hr] at hres
  rcases hres with ⟨hzr, -⟩ | ⟨-, loc, c, hI⟩
  · exact absurd hzr (Nat.succ_ne_zero ptr)
  · exact ⟨loc, c, hI.write (w := ptr + 1) (k := copySize) mem_cons_self le_rfl
      (Nat.add_le_add_left hle _) (keeps_copy t.bytes (ptr + 1) src copySize)⟩

theorem reallocMove_spec (hpg : spanSize ≤ M.pageSize) (h : Good M s) (x : Env)
    (hb : b ∈ s.live) (hpos : 0 < size) (hsz : size < modulus) :
    (reallocMove M x b.ptr size s).1 = 0 ∧ Good M (reallocMove M x b.ptr size s).2 ∨
      (reallocMove M x b.ptr size s).1 ≠ 0 ∧
        Good M (((reallocMove M x b.ptr size s).2.drop b.ptr).gain
          (reallocMove M x b.ptr size s).1 size) := by
  obtain ⟨hlv, hres⟩ := malloc_spec hpg (.inr h) x hsz
  have hreq : requestSize size = size := if_neg (Nat.ne_of_gt hpos)
  unfold reallocMove
  dsimp only
  cases hr : malloc M x size s with
  | mk ptr t =>
    rw [hr] at hres hlv
    dsimp only at hres hlv
    rcases hres with ⟨rfl, hrdy⟩ | ⟨hne, hgd⟩
    · -- the old block is still there, so the allocator was initialised
      rcases hrdy with rfl | hgd
      · rw [← hlv] at hb
        exact absurd hb not_mem_nil
      · exact .inl ⟨rfl, hgd⟩
    · cases ptr with
      | zero => exact absurd rfl hne
      | succ ptr =>
        right
        dsimp only
        refine ⟨hne, ?_⟩
        generalize hcp : (if (s.headers (b.ptr - M.headerSize)).requestedSize < size then
          (s.headers (b.ptr - M.headerSize)).requestedSize else size) = copySize
        have hle : copySize ≤ requestSize size := by
          rw [hreq, ← hcp]
          split_ifs <;> omega
        -- the copy goes into the new block, and then the old one is freed
        have hwri := reallocCopy_good hpg h x hsz b.ptr hr hle
        have hne' : b.ptr ≠ ptr + 1 := by
          obtain ⟨loc, c, hI⟩ := hgd
          have hnd := hI.live.nodup
          simp only [withLive, map_cons, nodup_cons] at hnd
          intro heq
          exact hnd.1 (heq ▸ mem_map_of_mem hb)
        have hfr := (free_spec hwri x (b := b) (mem_cons_of_mem _ hb)).2
        have hcm : ∀ L, Memory.free M x b.ptr (((t.withLive L).overwrite M (ptr + 1)
            copySize (copy t.bytes (ptr + 1) b.ptr copySize))) =
            (Memory.free M x b.ptr (t.overwrite M (ptr + 1) copySize
              (copy t.bytes (ptr + 1) b.ptr copySize))).withLive L := fun L =>
          free_withLive M x (t.overwrite M (ptr + 1) copySize
            (copy t.bytes (ptr + 1) b.ptr copySize)) L b.ptr
        have hlive' : (Memory.free M x b.ptr (t.overwrite M (ptr + 1) copySize
            (copy t.bytes (ptr + 1) b.ptr copySize))).live = s.live := by
          have hsl := congrArg State.live (hcm t.live)
          exact hsl.trans hlv
        rw [State.gain, if_neg (Nat.succ_ne_zero ptr), State.drop, hlive']
        have hkeep : List.filter (fun e => e.ptr != b.ptr) (⟨ptr + 1, requestSize size⟩ :: s.live) =
            ⟨ptr + 1, requestSize size⟩ :: s.live.filter fun e => e.ptr != b.ptr :=
          filter_cons_of_pos (by simpa using hne'.symm)
        rw [hcm] at hfr
        rw [← hkeep]
        exact hfr

theorem Good.realloc_eq (h : Good M s) (x : Env) (hb : b ∈ s.live) (hpos : 0 < size) :
    realloc M x b.ptr size s =
      if size ≤ (s.headers (b.ptr - M.headerSize)).capacity then reallocInPlace M b.ptr size s
      else reallocMove M x b.ptr size s := by
  have hnl : b.ptr ≠ 0 := Ready.ptr_ne (.inr h) hb
  obtain ⟨loc, c, hI⟩ := h
  obtain ⟨hmag, hstat, hval, -, -⟩ := hI.validate hb
  have hnt : s.initialized ≠ false := by
    rw [hI.layout.initialized]
    simp
  unfold Memory.realloc
  rw [if_neg hnl, if_neg (Nat.ne_of_gt hpos), if_neg hnt]
  dsimp only
  rw [if_neg (not_or.mpr ⟨not_not.mpr hmag, not_not.mpr hstat⟩), hval]

theorem realloc_spec (hpg : spanSize ≤ M.pageSize) (h : Good M s) (x : Env)
    (hb : b ∈ s.live) (hpos : 0 < size) (hsz : size < modulus) :
    (realloc M x b.ptr size s).1 = 0 ∧ Good M (realloc M x b.ptr size s).2 ∨
      (realloc M x b.ptr size s).1 ≠ 0 ∧
        Good M (((realloc M x b.ptr size s).2.drop b.ptr).gain
          (realloc M x b.ptr size s).1 size) := by
  have hnl : b.ptr ≠ 0 := Ready.ptr_ne (.inr h) hb
  have hreq : requestSize size = size := if_neg (Nat.ne_of_gt hpos)
  rw [h.realloc_eq x hb hpos]
  split_ifs with hft
  · rcases reallocInPlace_spec h hb hpos hft hsz with hfl | ⟨hptr, hlv, hgd⟩
    · rw [hfl]
      exact .inl ⟨rfl, h⟩
    · right
      rw [hptr]
      refine ⟨hnl, ?_⟩
      rw [State.gain, if_neg hnl, State.drop, hlv, hreq]
      exact hgd
  · exact reallocMove_spec hpg h x hb hpos hsz

theorem realloc_live (hpg : spanSize ≤ M.pageSize) (h : Good M s) (hb : b ∈ s.live)
    (x : Env) (hsz : size < modulus) : (realloc M x b.ptr size s).2.live = s.live := by
  have hnl : b.ptr ≠ 0 := Ready.ptr_ne (.inr h) hb
  by_cases hzr : size = 0
  · rw [realloc, if_neg hnl, if_pos hzr]
    exact free_live x b.ptr s
  have hpos := Nat.pos_of_ne_zero hzr
  rw [h.realloc_eq x hb hpos]
  split_ifs with hft
  · rcases reallocInPlace_spec h hb hpos hft hsz with hfl | ⟨-, hlv, -⟩
    · rw [hfl]
    · exact hlv
  · have hmal := (malloc_spec hpg (.inr h) x hsz).1
    unfold reallocMove
    dsimp only
    generalize malloc M x size s = r at hmal ⊢
    obtain ⟨_ | new, t⟩ := r
    · exact hmal
    · exact (free_live x b.ptr _).trans hmal

theorem calloc_live (hpg : spanSize ≤ M.pageSize) (h : Ready M s) (x : Env)
    (count size : ℕ) : (calloc M x count size s).2.live = s.live := by
  unfold calloc
  split_ifs with hvr
  · rfl
  have hlv := (malloc_spec hpg h x (mul_lt_of_accepted hvr)).1
  generalize malloc M x (count * size) s = r at hlv ⊢
  obtain ⟨_ | ptr, t⟩ := r
  · exact hlv
  · exact hlv

theorem State.mem_of_holds (h : s.holds ptr = true) : ∃ b ∈ s.live, b.ptr = ptr := by
  simpa [holds] using h

theorem Ready.good (h : Ready M s) (hb : b ∈ s.live) : Good M s := by
  rcases h with rfl | h
  · exact absurd hb not_mem_nil
  · exact h

theorem Ready.step (hpg : spanSize ≤ M.pageSize) (h : Ready M s) {x : Env} {call : Call}
    (hst : step M s (x, call) = some s') : Ready M s' := by
  have hser : ∀ size < modulus,
      Ready M ((Memory.malloc M x size s).2.gain (Memory.malloc M x size s).1 size) := by
    intro size hsz
    obtain ⟨hlv, ⟨hzr, hrdy⟩ | ⟨hne, hok⟩⟩ := malloc_spec hpg h x hsz
    · rw [gain, if_pos hzr]
      exact hrdy
    · rw [gain, if_neg hne, hlv]
      exact .inr hok
  cases call with
  | malloc size =>
    simp only [Memory.step] at hst
    split_ifs at hst with hsz
    cases hst
    exact hser size hsz
  | calloc count size =>
    simp only [Memory.step] at hst
    split_ifs at hst with hsz
    cases hst
    exact h.calloc hpg x
  | free ptr =>
    simp only [Memory.step] at hst
    split_ifs at hst with hptr
    cases hst
    rcases hptr with rfl | hptr
    · rw [h.free_null]
      exact h
    · obtain ⟨b, hb, rfl⟩ := State.mem_of_holds hptr
      exact .inr ((h.good hb).free x hb)
  | realloc ptr size =>
    simp only [Memory.step] at hst
    split_ifs at hst with hptr hnl hzr hfl
    · -- `vl_realloc(NULL, size)`
      cases hst
      rw [Memory.realloc, if_pos hnl]
      exact hser size hptr.1
    · -- `vl_realloc(ptr, 0)`
      cases hst
      obtain ⟨b, hb, rfl⟩ := State.mem_of_holds (hptr.2.resolve_left hnl)
      rw [Memory.realloc, if_neg hnl, if_pos hzr]
      exact .inr ((h.good hb).free x hb)
    all_goals
      cases hst
      obtain ⟨b, hb, rfl⟩ := State.mem_of_holds (hptr.2.resolve_left hnl)
      have hres := realloc_spec hpg (h.good hb) x hb (Nat.pos_of_ne_zero hzr) hptr.1
    · rcases hres with ⟨-, hok⟩ | ⟨hne, -⟩
      · exact .inr hok
      · exact absurd hfl hne
    · rcases hres with ⟨hz, -⟩ | ⟨-, hok⟩
      · exact absurd hz hfl
      · exact .inr hok
  | write ptr offset value =>
    simp only [Memory.step] at hst
    split_ifs at hst with hptr
    cases hst
    obtain ⟨b, hb, hin⟩ := any_eq_true.mp hptr
    simp only [Bool.and_eq_true, beq_iff_eq, decide_eq_true_eq] at hin
    obtain ⟨loc, c, hI⟩ := h.good hb
    refine .inr ⟨loc, c, hI.write hb ?_ ?_ (keeps_fill _ _ _ _)⟩
    · omega
    · omega

theorem ready_of_run (hpg : spanSize ≤ M.pageSize) {calls : List (Env × Call)}
    (hrun : Trans.run (Memory.step M) State.initial calls = some s) : Ready M s :=
  Trans.run_invariant (fun _ _ _ hst h => h.step hpg hst) hrun (.inl rfl)

structure Conserved (M : Platform) (s : State) (c : Place → List ℕ) : Prop where
  central : ∀ a ∈ s.liveSpans, Links s.link 0 (s.spans a).centralFree (c (.central a))
  bin : ∀ b, Links s.link 0 (s.bins b).head (c (.bin b))
  allocated : ∀ u, u ∈ c .allocated ↔ s.IsSlot M u ∧ u ∈ s.live.map Block.ptr
  once : ∀ a ∈ s.liveSpans, ∀ i < (s.spans a).objectCount, ∃! pl, s.slot M a i ∈ c pl
  nodup : ∀ pl, (c pl).Nodup
  fits : ∀ a ∈ s.liveSpans, ∀ i < (s.spans a).objectCount, ∀ pl, s.slot M a i ∈ c pl →
    pl.Fits a (s.spans a).classIndex
  objectCount : ∀ a ∈ s.liveSpans,
    (s.spans a).objectCount = (s.spans a).activeCount + (s.spans a).freeCount
  freeCount : ∀ a ∈ s.liveSpans,
    (s.spans a).freeCount = (s.spans a).centralFreeCount + (s.spans a).cachedCount
  centralFreeCount : ∀ a ∈ s.liveSpans, (s.spans a).centralFreeCount = (c (.central a)).length
  binCount : ∀ b, (s.bins b).count = (c (.bin b)).length
  allSpans : ∀ a ∈ s.liveSpans, s.allSpans.count a = 1
  centralSpans : ∀ a ∈ s.liveSpans, (s.central (s.spans a).classIndex).count a = 1
  released : ∀ r ∈ s.released, ReleasedOk M r

theorem Inv.conserved (h : Inv M s loc c) : Conserved M s c := by
  have hL := h.layout
  have hS := h.lists
  have hlv : ∀ a, a ∈ s.liveSpans ↔ a ∈ s.allSpans := by
    intro a
    rw [hL.liveSpans]
  have hmem : ∀ a ∈ s.liveSpans, ∀ i < (s.spans a).objectCount, ∀ pl,
      s.slot M a i ∈ c pl ↔ loc (s.slot M a i) = pl := by
    intro a ha i hi pl
    rw [hS.located.mem]
    exact ⟨fun hu => hu.2, fun hu => ⟨⟨a, (hlv a).mp ha, i, hi, rfl⟩, hu⟩⟩
  constructor
  case central => exact fun a ha => hS.links (.central a) ((hlv a).mp ha)
  case bin => exact fun b => hS.links (.bin b) trivial
  case allocated =>
    intro u
    rw [hS.located.mem, h.live.mem]
    refine and_congr_right fun hu => ⟨fun hal => .inl ⟨hu, hal⟩, ?_⟩
    rintro (⟨-, hal⟩ | ⟨l, hl, heq⟩)
    · exact hal
    · obtain ⟨a, ha, i, hi, rfl⟩ := hu
      exact absurd (Nat.add_right_cancel heq) (hL.cellAt_ne_large ha hi hl)
  case once =>
    intro a ha i hi
    exact ⟨_, (hmem a ha i hi _).mpr rfl, fun pl hpl => ((hmem a ha i hi pl).mp hpl).symm⟩
  case nodup => exact hS.located.nodup
  case fits =>
    intro a ha i hi pl hpl
    have hfit := hS.fits a ((hlv a).mp ha) i hi
    rw [(hmem a ha i hi pl).mp hpl] at hfit
    exact hfit
  case objectCount =>
    intro a ha
    have hcou := hS.counts ((hlv a).mp ha)
    have hfr := hS.freeCount a ((hlv a).mp ha)
    omega
  case freeCount => exact fun a ha => hS.freeCount a ((hlv a).mp ha)
  case centralFreeCount => exact fun a ha => hS.length_central hL ((hlv a).mp ha)
  case binCount => exact hS.binCount
  case allSpans =>
    intro a ha
    exact count_eq_one_of_mem (nodup_append.mp hL.nodup).1 ((hlv a).mp ha)
  case centralSpans =>
    intro a ha
    refine count_eq_one_of_mem (hL.nodup_central _) ?_
    exact (hL.mem_central _ a).mpr ⟨(hlv a).mp ha, rfl⟩
  case released => exact h.released

theorem conserved_initial (M : Platform) : Conserved M State.initial fun _ => [] := by
  have hnot : ∀ {α : Sort} {a : ℕ}, a ∈ State.initial.liveSpans → α := fun ha =>
    absurd ha not_mem_nil
  constructor
  case bin => exact fun b => rfl
  case allocated =>
    intro u
    refine ⟨fun hu => absurd hu not_mem_nil, fun hu => absurd hu.2 not_mem_nil⟩
  case nodup => exact fun _ => nodup_nil
  case binCount => exact fun _ => rfl
  case released => exact fun _ hr => absurd hr not_mem_nil
  all_goals exact fun a ha => hnot ha

/-- **Conservation.** -/
theorem conserved_of_run (hpg : spanSize ≤ M.pageSize) {calls : List (Env × Call)}
    (hrun : Trans.run (Memory.step M) State.initial calls = some s) :
    ∃ c, Conserved M s c := by
  rcases ready_of_run hpg hrun with rfl | ⟨loc, c, hI⟩
  · exact ⟨_, conserved_initial M⟩
  · exact ⟨c, hI.conserved⟩

def crossPCalls : List (Env × Call) :=
  [(⟨0, some 65536, fun _ => true⟩, .malloc 30000),
    (⟨1, some 1048576, fun _ => true⟩, .malloc 40000),
    (⟨1, none, fun _ => true⟩, .free 69728), (⟨0, none, fun _ => true⟩, .malloc 32768)]

theorem crossPCalls_live : (Trans.run (Memory.step ⟨true, 4096⟩) State.initial crossPCalls).map
    State.live = some [⟨102608, 32768⟩, ⟨1048672, 40000⟩] := by
  decide +kernel

theorem conserved_crossPCalls : ∃ s c,
    Trans.run (Memory.step ⟨true, 4096⟩) State.initial crossPCalls = some s ∧
      s.live = [⟨102608, 32768⟩, ⟨1048672, 40000⟩] ∧ Conserved ⟨true, 4096⟩ s c := by
  obtain ⟨s, hrun, hlv⟩ := Option.map_eq_some_iff.mp crossPCalls_live
  obtain ⟨c, hc⟩ := conserved_of_run (by decide) hrun
  exact ⟨s, c, hrun, hlv, hc⟩

structure NoOverlap (M : Platform) (s : State) : Prop where
  apart : s.live.Pairwise fun b d => Apart b.ptr b.size d.ptr d.size
  aligned : ∀ b ∈ s.live, 16 ∣ b.ptr
  requested : ∀ b ∈ s.live, (s.headers (b.ptr - M.headerSize)).requestedSize = b.size
  capacity : ∀ b ∈ s.live, b.size ≤ (s.headers (b.ptr - M.headerSize)).capacity
  headers : ∀ b ∈ s.live, ∀ l n, Cell s l n →
    Apart b.ptr (b.size + M.suffixSize) l M.headerSize
  pages : ∀ b ∈ s.live, ∀ a ∈ s.liveSpans, Apart b.ptr (b.size + M.suffixSize) a s.pageSize
  links : ∀ b ∈ s.live, ∀ a ∈ s.liveSpans, ∀ i < (s.spans a).objectCount,
    (s.headers (s.cellAt a i)).state = .free →
      Apart b.ptr (b.size + M.suffixSize) (s.slot M a i) 8

theorem Inv.noOverlap (h : Inv M s loc c) : NoOverlap M s := by
  have hL := h.layout
  constructor
  case apart =>
    refine List.Pairwise.imp_of_mem (fun {b d} hb hd hne => ?_) (pairwise_map.mp h.live.nodup)
    obtain ⟨n, hc, hle, hfit, -⟩ := h.live.cell hL h.headers hb
    obtain ⟨n', hc', hle', hfit', -⟩ := h.live.cell hL h.headers hd
    have hsz := (h.live.block b hb).size_le
    have hsize' := (h.live.block d hd).size_le
    exact (hL.cells_apart hc hc' (by omega)).within (by omega) (by omega) (by omega) (by omega)
  case aligned =>
    intro b hb
    obtain ⟨n, -, -, -, hali⟩ := h.live.cell hL h.headers hb
    exact hali
  case requested => exact fun b hb => (h.live.block b hb).requested
  case capacity => exact fun b hb => (h.live.block b hb).size_le
  case headers =>
    intro b hb l n hc
    obtain ⟨n', hc', hle, hfit, -⟩ := h.live.cell hL h.headers hb
    have hsz := (h.live.block b hb).size_le
    exact hL.write_apart_header hc' (by omega) (by omega) hc
  case pages =>
    intro b hb a ha
    rw [hL.liveSpans] at ha
    obtain ⟨n', hc', hle, hfit, -⟩ := h.live.cell hL h.headers hb
    have hsz := (h.live.block b hb).size_le
    exact (hL.cell_apart_page hc' ha).within (by omega) (by omega) le_rfl le_rfl
  case links =>
    intro b hb a ha i hi hfr
    rw [hL.liveSpans] at ha
    obtain ⟨n', hc', hle, hfit, -⟩ := h.live.cell hL h.headers hb
    have hsz := (h.live.block b hb).size_le
    have hbd := hL.slot_bounds ha hi
    have hne : b.ptr - M.headerSize ≠ s.cellAt a i := by
      intro heq
      have hal := (h.validate hb).2.1
      rw [heq, hfr] at hal
      exact absurd hal (by decide)
    have hslot : s.slot M a i = s.cellAt a i + M.headerSize := rfl
    exact (hL.cells_apart hc' (Cell.slot ha hi) hne).within (by omega) (by omega) (by omega)
      (by omega)

/-- **Allocations never overlap.** -/
theorem noOverlap_of_run (hpg : spanSize ≤ M.pageSize) {calls : List (Env × Call)}
    (hrun : Trans.run (Memory.step M) State.initial calls = some s) : NoOverlap M s := by
  rcases ready_of_run hpg hrun with rfl | ⟨loc, c, hI⟩
  · refine ⟨List.Pairwise.nil, ?_, ?_, ?_, ?_, ?_, ?_⟩
    all_goals exact fun b hb => absurd hb not_mem_nil
  · exact hI.noOverlap

theorem noOverlap_crossPCalls : ∃ s,
    Trans.run (Memory.step ⟨true, 4096⟩) State.initial crossPCalls = some s ∧
      s.live = [⟨102608, 32768⟩, ⟨1048672, 40000⟩] ∧ NoOverlap ⟨true, 4096⟩ s := by
  obtain ⟨s, hrun, hlv⟩ := Option.map_eq_some_iff.mp crossPCalls_live
  exact ⟨s, hrun, hlv, noOverlap_of_run (by decide) hrun⟩

end Veloco.Memory
