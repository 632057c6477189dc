import Veloco.Memory.Spares

/-!
# The bytes of a block survive `vl_realloc`
-/

namespace Veloco.Memory

open List Option State
open Veloco.Bytes Veloco.Word

variable {M : Platform} {x : Env} {s t u : State} {loc : ℕ → Place} {c : Place → List ℕ}
  {k w ptr size : ℕ} {b d e : Block}

theorem Inv.spares_write (h : Inv M s loc c) (hb : b ∈ s.live) (hd : d ∈ s.live)
    (hne : b.ptr ≠ d.ptr) {bytes : Memory} (hlo : d.ptr ≤ w) (hhi : w + k ≤ d.ptr + d.size)
    (hm : Keeps s.bytes bytes w k) : Spares M b s (s.overwrite M w k bytes) := by
  obtain ⟨n, hc, hle, hfit, -⟩ := h.live.cell h.layout h.headers hd
  have hsz := (h.live.block d hd).size_le
  exact h.spares_touch hb hc (by omega)
    (Touches.overwrite h.layout hc (by omega) (by omega) hm)

theorem malloc_write_spares (hpg : spanSize ≤ M.pageSize) (h : Ready M s)
    (hsz : size < modulus) (hr : malloc M x size s = (ptr + 1, t)) (hb : b ∈ s.live)
    {bytes : Memory} (hk : k ≤ requestSize size) (hm : Keeps t.bytes bytes (ptr + 1) k) :
    Spares M b s (t.overwrite M (ptr + 1) k bytes) := by
  have hbef := malloc_spares hpg h x size hb
  obtain ⟨-, hres⟩ := malloc_spec hpg h x hsz
  rw [hr] at hres hbef
  rcases hres with ⟨hzr, -⟩ | ⟨-, loc, c, hI⟩
  · exact absurd hzr (Nat.succ_ne_zero ptr)
  · have hnd := hI.live.nodup
    simp only [withLive, map_cons, nodup_cons] at hnd
    have hne : b.ptr ≠ ptr + 1 := fun heq => hnd.1 (heq ▸ mem_map_of_mem hb)
    have hwri := hI.spares_write (b := b) (d := ⟨ptr + 1, requestSize size⟩) (k := k)
      (mem_cons_of_mem _ hb) mem_cons_self hne le_rfl (Nat.add_le_add_left hk _) hm
    exact hbef.trans ⟨hwri.header, hwri.byte⟩

theorem calloc_spares (hpg : spanSize ≤ M.pageSize) (h : Ready M s) (x : Env)
    (count size : ℕ) (hb : b ∈ s.live) : Spares M b s (calloc M x count size s).2 := by
  unfold calloc
  split_ifs with hvr
  · exact .refl M b s
  have hmal := malloc_spares hpg h x (count * size) hb
  cases hr : malloc M x (count * size) s with
  | mk ptr t =>
    cases ptr with
    | zero =>
      rw [hr] at hmal
      exact hmal
    | succ ptr =>
      refine malloc_write_spares hpg h (mul_lt_of_accepted hvr) hr hb ?_ (keeps_fill _ _ _ _)
      unfold requestSize
      split_ifs <;> omega

structure Carries (M : Platform) (b : Block) (size : ℕ) (s : State) (r : ℕ × State) : Prop where
  spares : ∀ e ∈ s.live, r.1 = 0 ∨ e.ptr ≠ b.ptr → Spares M e s r.2
  data : r.1 ≠ 0 → ∀ j < min b.size size, r.2.bytes (r.1 + j) = s.bytes (b.ptr + j)

theorem carries_null (M : Platform) (b : Block) (size : ℕ) (s : State) :
    Carries M b size s (0, s) :=
  ⟨fun e _ _ => .refl M e s, fun hne => absurd rfl hne⟩

theorem reallocInPlace_data (h : Good M s) (hb : b ∈ s.live)
    (hsz : size ≤ (s.headers (b.ptr - M.headerSize)).capacity) :
    Carries M b size s (reallocInPlace M b.ptr size s) := by
  obtain ⟨loc, c, hI⟩ := h
  obtain ⟨-, -, -, -, hbyt⟩ := hI.validate hb
  have hreq := (hI.live.block b hb).requested
  have hnl : b.ptr ≠ 0 := Ready.ptr_ne (.inr ⟨loc, c, hI⟩) hb
  obtain ⟨n, hc, hle, hfit, -⟩ := hI.live.cell hI.layout hI.headers hb
  have hptr : b.ptr - M.headerSize + M.headerSize = b.ptr := Nat.sub_add_cancel hle
  unfold reallocInPlace
  dsimp only
  rw [if_neg (by omega)]
  by_cases hrm : sub s.stats.activeBytes (s.headers (b.ptr - M.headerSize)).requestedSize >
      sizeMax - size
  · rw [if_pos hrm]
    exact carries_null M b size s
  rw [if_neg hrm]
  have hpr := hI.layout.prepared hc
    { s.headers (b.ptr - M.headerSize) with requestedSize := size }
    (fun _ => ⟨rfl, rfl, rfl, rfl⟩) (by dsimp only; omega)
    { s.stats with activeBytes := add (sub s.stats.activeBytes
        (s.headers (b.ptr - M.headerSize)).requestedSize) size }
  rw [hptr] at hpr
  refine ⟨fun e he hor => ?_, fun _ j hj => ?_⟩
  · have hne : e.ptr ≠ b.ptr := hor.resolve_left hnl
    exact hI.spares_touch he hc (by rw [hptr]; exact hne) hpr.touches
  · -- the canary is behind the new size
    unfold debugPrepare
    dsimp only
    split_ifs
    · refine keeps_store _ _ _ _ _ fun hin => ?_
      rw [setHeader_headers, Function.update_self] at hin
      dsimp only at hin
      omega
    · rfl

theorem reallocMove_data (hpg : spanSize ≤ M.pageSize) (h : Good M s) (x : Env)
    (hb : b ∈ s.live) (hpos : 0 < size) (hsz : size < modulus) :
    Carries M b size s (reallocMove M x b.ptr size s) := by
  have hrdy : Ready M s := .inr h
  have hreq : requestSize size = size := if_neg (Nat.ne_of_gt hpos)
  have hmal := fun e (he : e ∈ s.live) => malloc_spares hpg hrdy x size he
  have hold : (s.headers (b.ptr - M.headerSize)).requestedSize = b.size := by
    obtain ⟨loc, c, hI⟩ := h
    exact (hI.live.block b hb).requested
  unfold reallocMove
  dsimp only
  rw [hold]
  cases hr : malloc M x size s with
  | mk ptr t =>
    rw [hr] at hmal
    cases ptr with
    | zero => exact ⟨fun e he _ => hmal e he, fun hne => absurd rfl hne⟩
    | succ ptr =>
      generalize hcp : (if b.size < size then b.size else size) = copySize
      have hmin : copySize = min b.size size := by
        rw [← hcp]
        split_ifs <;> omega
      have hle : copySize ≤ requestSize size := by omega
      have hgd := reallocCopy_good hpg h x hsz b.ptr hr hle
      have hwri := fun e (he : e ∈ s.live) => malloc_write_spares hpg hrdy hsz hr he hle
        (keeps_copy t.bytes (ptr + 1) b.ptr copySize)
      have hne : b.ptr ≠ ptr + 1 := by
        obtain ⟨loc, c, hI⟩ := hgd
        have hnd := hI.live.nodup
        simp only [overwrite, withLive, map_cons, nodup_cons] at hnd
        exact fun heq => hnd.1 (heq ▸ mem_map_of_mem hb)
      -- the free sees the new block among the others
      have hfr := fun e he hne' => free_spares (e := e) hgd x (b := b)
        (mem_cons_of_mem _ hb) he hne'
      have hcm : free M x b.ptr ((t.withLive (⟨ptr + 1, requestSize size⟩ :: s.live)).overwrite
          M (ptr + 1) copySize (copy t.bytes (ptr + 1) b.ptr copySize)) =
          (free M x b.ptr (t.overwrite M (ptr + 1) copySize
            (copy t.bytes (ptr + 1) b.ptr copySize))).withLive
              (⟨ptr + 1, requestSize size⟩ :: s.live) :=
        free_withLive M x (t.overwrite M (ptr + 1) copySize
          (copy t.bytes (ptr + 1) b.ptr copySize)) _ b.ptr
      rw [hcm] at hfr
      refine ⟨fun e he hor => ?_, fun _ j hj => ?_⟩
      · have hth := hfr e (mem_cons_of_mem _ he) (hor.resolve_left (Nat.succ_ne_zero ptr))
        exact (hwri e he).trans ⟨hth.header, hth.byte⟩
      · have hnew := (hfr ⟨ptr + 1, requestSize size⟩ mem_cons_self hne.symm).byte j
          (by dsimp only; omega)
        refine hnew.trans ?_
        have hcop : copy t.bytes (ptr + 1) b.ptr copySize (ptr + 1 + j) = t.bytes (b.ptr + j) := by
          unfold copy
          rw [if_pos (by omega), Nat.add_sub_cancel_left]
        exact hcop.trans ((hmal b hb).byte j (by omega))

theorem realloc_data (hpg : spanSize ≤ M.pageSize) (h : Good M s) (x : Env)
    (hb : b ∈ s.live) (hpos : 0 < size) (hsz : size < modulus) :
    Carries M b size s (realloc M x b.ptr size s) := by
  rw [h.realloc_eq x hb hpos]
  split_ifs with hft
  · exact reallocInPlace_data h hb hft
  · exact reallocMove_data hpg h x hb hpos hsz

def Call.target : Call → ℕ
  | .malloc _ => 0
  | .calloc _ _ => 0
  | .realloc ptr _ => ptr
  | .free ptr => ptr
  | .write ptr _ _ => ptr

theorem State.mem_gain (hb : b ∈ s.live) (ptr size : ℕ) : b ∈ (s.gain ptr size).live := by
  unfold gain
  split_ifs
  · exact hb
  · exact mem_cons_of_mem _ hb

theorem State.mem_drop (hb : b ∈ s.live) (hne : b.ptr ≠ ptr) : b ∈ (s.drop ptr).live := by
  refine mem_filter.mpr ⟨hb, ?_⟩
  simpa using hne

theorem Spares.gain (h : Spares M b s t) (ptr size : ℕ) : Spares M b s (t.gain ptr size) := by
  unfold State.gain
  split_ifs
  · exact h
  · exact h.of_eq rfl rfl

theorem step_spares (hpg : spanSize ≤ M.pageSize) (h : Ready M s) {call : Call}
    (hst : step M s (x, call) = some t) (hb : b ∈ s.live) (hne : call.target ≠ b.ptr) :
    b ∈ t.live ∧ Spares M b s t := by
  have hgai : ∀ size < modulus,
      b ∈ ((malloc M x size s).2.gain (malloc M x size s).1 size).live ∧
        Spares M b s ((malloc M x size s).2.gain (malloc M x size s).1 size) := by
    intro size hsz
    refine ⟨State.mem_gain ?_ _ _, (malloc_spares hpg h x size hb).gain _ _⟩
    rw [(malloc_spec hpg h x hsz).1]
    exact hb
  have hdro : ∀ d ∈ s.live, d.ptr ≠ b.ptr → b ∈ ((free M x d.ptr s).drop d.ptr).live ∧
      Spares M b s ((free M x d.ptr s).drop d.ptr) := by
    intro d hd hdb
    refine ⟨State.mem_drop ?_ hdb.symm, ?_⟩
    · rw [free_live]
      exact hb
    · exact (free_spares (h.good hb) x hd hb hdb.symm).of_eq rfl rfl
  cases call with
  | malloc size =>
    simp only [Memory.step] at hst
    split_ifs at hst with hsz
    cases hst
    exact hgai size hsz
  | calloc count size =>
    simp only [Memory.step] at hst
    split_ifs at hst with hsz
    cases hst
    refine ⟨State.mem_gain ?_ _ _, (calloc_spares hpg h x count size hb).gain _ _⟩
    rw [calloc_live hpg h x]
    exact hb
  | free ptr =>
    simp only [Memory.step] at hst
    split_ifs at hst with hptr
    cases hst
    rcases hptr with rfl | hptr
    · have hfr : free M x 0 s = s := if_pos (.inl rfl)
      rw [hfr]
      exact ⟨State.mem_drop hb (h.ptr_ne hb), spares_of_eq rfl rfl⟩
    · obtain ⟨d, hd, rfl⟩ := State.mem_of_holds hptr
      exact hdro d hd hne
  | realloc ptr size =>
    simp only [Memory.step] at hst
    split_ifs at hst with hptr hnl hzr hfl
    · cases hst
      rw [realloc, if_pos hnl]
      exact hgai size hptr.1
    · cases hst
      obtain ⟨d, hd, rfl⟩ := State.mem_of_holds (hptr.2.resolve_left hnl)
      rw [realloc, if_neg hnl, if_pos hzr]
      exact hdro d hd hne
    all_goals
      cases hst
      obtain ⟨d, hd, rfl⟩ := State.mem_of_holds (hptr.2.resolve_left hnl)
      have hlv := realloc_live hpg (h.good hb) hd x hptr.1
      have hspa := (realloc_data hpg (h.good hb) x hd (Nat.pos_of_ne_zero hzr) hptr.1).spares b
        hb (.inr (Ne.symm hne))
      have hmem : b ∈ (realloc M x d.ptr size s).2.live := by
        rw [hlv]
        exact hb
    · exact ⟨hmem, hspa⟩
    · have hdr : Spares M b s ((realloc M x d.ptr size s).2.drop d.ptr) :=
        hspa.of_eq rfl rfl
      exact ⟨State.mem_gain (State.mem_drop hmem (Ne.symm hne)) _ _, hdr.gain _ _⟩
  | write ptr offset value =>
    simp only [Memory.step] at hst
    split_ifs at hst with hptr
    cases hst
    obtain ⟨d, hd, hin⟩ := any_eq_true.mp hptr
    simp only [Bool.and_eq_true, beq_iff_eq, decide_eq_true_eq] at hin
    obtain ⟨loc, c, hI⟩ := h.good hb
    have hdb : b.ptr ≠ d.ptr := by
      rw [hin.1]
      exact Ne.symm hne
    exact ⟨hb, hI.spares_write hb hd hdb (by omega) (by omega) (keeps_fill _ _ _ _)⟩

theorem run_spares (hpg : spanSize ≤ M.pageSize) (h : Ready M s) {calls : List (Env × Call)}
    (hrun : Trans.run (Memory.step M) s calls = some t) (hb : b ∈ s.live)
    (hcs : ∀ call ∈ calls, call.2.target ≠ b.ptr) :
    Ready M t ∧ b ∈ t.live ∧ Spares M b s t := by
  have hmee : Trans.Meets (Memory.step M) (fun _ call => call.2.target ≠ b.ptr) s calls :=
    Trans.meets_of_forall (fun call hc _ => hcs call hc) s
  refine Trans.run_invariant_of_meets (I := fun u => Ready M u ∧ b ∈ u.live ∧ Spares M b s u)
    (fun u call v hst hne hI => ?_) hrun hmee ⟨h, hb, Spares.refl M b s⟩
  obtain ⟨hu, hbu, hspa⟩ := hI
  obtain ⟨hbv, hone⟩ := step_spares hpg hu hst hbu hne
  exact ⟨hu.step hpg hst, hbv, hspa.trans hone⟩

/-! ## One call, and one after the other -/

structure Replaced (M : Platform) (b : Block) (size q : ℕ) (s t : State) : Prop where
  live : ⟨q, size⟩ ∈ t.live
  requested : (t.headers (q - M.headerSize)).requestedSize = size
  dead : q ≠ b.ptr → t.holds b.ptr = false
  own : ∀ e ∈ s.live, e ≠ b → e.ptr ≠ q
  data : ∀ j < min b.size size, t.bytes (q + j) = s.bytes (b.ptr + j)

structure Unchanged (M : Platform) (b : Block) (s t : State) : Prop where
  live : b ∈ t.live
  requested : (t.headers (b.ptr - M.headerSize)).requestedSize = b.size
  data : ∀ j < b.size, t.bytes (b.ptr + j) = s.bytes (b.ptr + j)

theorem Spares.unchanged (h : Spares M b s t) (ht : Ready M t) (hb : b ∈ t.live) :
    Unchanged M b s t := by
  obtain ⟨loc, c, hI⟩ := ht.good hb
  exact ⟨hb, (hI.live.block b hb).requested, h.byte⟩

theorem State.holds_of_mem (hb : b ∈ s.live) : s.holds b.ptr = true :=
  any_eq_true.mpr ⟨b, hb, beq_self_eq_true _⟩

theorem step_realloc (h : Ready M s) (x : Env) (hb : b ∈ s.live) (hpos : 0 < size)
    (hsz : size < modulus) :
    Memory.step M s (x, .realloc b.ptr size) =
      some (if (realloc M x b.ptr size s).1 = 0 then (realloc M x b.ptr size s).2
        else ((realloc M x b.ptr size s).2.drop b.ptr).gain (realloc M x b.ptr size s).1
          size) := by
  rw [Memory.step, if_pos ⟨hsz, Or.inr (holds_of_mem hb)⟩]
  dsimp only
  rw [if_neg (h.ptr_ne hb), if_neg (Nat.ne_of_gt hpos)]
  exact (apply_ite some _ _ _).symm

theorem Ready.realloc (hpg : spanSize ≤ M.pageSize) (h : Ready M s) (x : Env)
    (hb : b ∈ s.live) (hpos : 0 < size) (hsz : size < modulus) :
    ∃ t, Memory.step M s (x, .realloc b.ptr size) = some t ∧ Ready M t ∧
      ((realloc M x b.ptr size s).1 = 0 → Unchanged M b s t) ∧
      ((realloc M x b.ptr size s).1 ≠ 0 →
        Replaced M b size (realloc M x b.ptr size s).1 s t) ∧
      ∀ e ∈ s.live, e ≠ b → Unchanged M e s t := by
  have hgd := h.good hb
  have hlv := realloc_live hpg hgd hb x hsz
  have hdt := realloc_data hpg hgd x hb hpos hsz
  have hreq : requestSize size = size := if_neg (Nat.ne_of_gt hpos)
  refine ⟨_, step_realloc h x hb hpos hsz, ?_⟩
  rcases realloc_spec hpg hgd x hb hpos hsz with ⟨hzr, hok⟩ | ⟨hne, hok⟩
  · rw [if_pos hzr]
    have hsm : ∀ e ∈ s.live, Unchanged M e s (Memory.realloc M x b.ptr size s).2 :=
      fun e he => (hdt.spares e he (.inl hzr)).unchanged (.inr hok) (hlv ▸ he)
    exact ⟨Or.inr hok, fun _ => hsm b hb, fun hne => absurd hzr hne, fun e he _ => hsm e he⟩
  · rw [if_neg hne]
    generalize Memory.realloc M x b.ptr size s = r at hlv hdt hne hok ⊢
    obtain ⟨q, t⟩ := r
    have hnew : ((t.drop b.ptr).gain q size).live =
        ⟨q, size⟩ :: s.live.filter fun e => e.ptr != b.ptr := by
      rw [State.gain, if_neg hne, hreq, State.drop, hlv]
    have hfra : ((t.drop b.ptr).gain q size).headers = t.headers ∧
        ((t.drop b.ptr).gain q size).bytes = t.bytes := by
      rw [gain, if_neg hne]
      exact ⟨rfl, rfl⟩
    have hrdy : Ready M ((t.drop b.ptr).gain q size) := .inr hok
    have hptr : ∀ e ∈ s.live, e ≠ b → e.ptr ≠ b.ptr := by
      obtain ⟨loc, c, hI⟩ := hgd
      exact fun e he heb heq => heb (inj_on_of_nodup_map hI.live.nodup he hb heq)
    have hlf : ∀ e ∈ s.live, e ≠ b → e ∈ s.live.filter fun e => e.ptr != b.ptr := by
      intro e he heb
      refine mem_filter.mpr ⟨he, ?_⟩
      simpa using hptr e he heb
    refine ⟨hrdy, fun hzr => absurd hzr hne, fun _ => ?_, fun e he heb => ?_⟩
    · have hmem : ⟨q, size⟩ ∈ ((t.drop b.ptr).gain q size).live := by
        rw [hnew]
        exact mem_cons_self
      obtain ⟨loc, c, hI⟩ := hok
      refine ⟨hmem, (hI.live.block _ hmem).requested, fun hqb => ?_, fun e he heb heq => ?_,
        fun j hj => ?_⟩
      · rw [holds, hnew, any_cons, Bool.or_eq_false_iff, beq_eq_false_iff_ne]
        refine ⟨hqb, any_eq_false.mpr fun e he => ?_⟩
        have hne' := (mem_filter.mp he).2
        simpa using hne'
      · have hnd := hI.live.nodup
        rw [hnew, map_cons, nodup_cons] at hnd
        refine hnd.1 (mem_map.mpr ⟨e, hlf e he heb, heq⟩)
      · rw [hfra.2]
        exact hdt.data hne j hj
    · have hmem : e ∈ ((t.drop b.ptr).gain q size).live := by
        rw [hnew]
        exact mem_cons_of_mem _ (hlf e he heb)
      exact ((hdt.spares e he (.inr (hptr e he heb))).of_eq hfra.1 hfra.2).unchanged hrdy hmem

def reallocs (M : Platform) : List (Env × ℕ) → Block → ℕ → State → Option (Block × ℕ × State)
  | [], b, kept, s => some (b, kept, s)
  | (x, size) :: rest, b, kept, s =>
    (step M s (x, .realloc b.ptr size)).bind fun t =>
      let q := (realloc M x b.ptr size s).1
      if q = 0 then reallocs M rest b kept t
      else reallocs M rest ⟨q, size⟩ (min kept size) t

theorem Ready.reallocs (hpg : spanSize ≤ M.pageSize) : ∀ (calls : List (Env × ℕ)) {s : State}
    {b : Block} (kept : ℕ), Ready M s → b ∈ s.live → kept ≤ b.size →
      (∀ call ∈ calls, 0 < call.2 ∧ call.2 < modulus) →
      ∃ b' kept' t, reallocs M calls b kept s = some (b', kept', t) ∧ b' ∈ t.live ∧
        kept' ≤ min kept b'.size ∧ (∀ j < kept', t.bytes (b'.ptr + j) = s.bytes (b.ptr + j)) ∧
        ∀ e ∈ s.live, e ≠ b → e ∈ t.live ∧ ∀ j < e.size, t.bytes (e.ptr + j) = s.bytes (e.ptr + j)
  | [], s, b, kept, _, hb, hkp, _ =>
    ⟨b, kept, s, rfl, hb, le_min le_rfl hkp, fun _ _ => rfl, fun e he _ => ⟨he, fun _ _ => rfl⟩⟩
  | (x, size) :: rest, s, b, kept, h, hb, hkp, hcs => by
    obtain ⟨hpos, hsz⟩ := hcs (x, size) mem_cons_self
    have hrs := fun call hc => hcs call (mem_cons_of_mem _ hc)
    obtain ⟨t, hst, ht, hnl, hnew, hoth⟩ := h.realloc hpg x hb hpos hsz
    rw [Memory.reallocs, hst, bind_some]
    dsimp only
    by_cases hzr : (Memory.realloc M x b.ptr size s).1 = 0
    · -- the block stays as it is
      have hsm := hnl hzr
      obtain ⟨b', kept', u, hrun, hb', hle, hbyt, hlf⟩ :=
        Ready.reallocs hpg rest kept ht hsm.live hkp hrs
      rw [if_pos hzr]
      refine ⟨b', kept', u, hrun, hb', hle, fun j hj => ?_, fun e he heb => ?_⟩
      · rw [hbyt j hj]
        exact hsm.data j (by omega)
      · obtain ⟨hmem, hsam⟩ := hlf e (hoth e he heb).live heb
        exact ⟨hmem, fun j hj => (hsam j hj).trans ((hoth e he heb).data j hj)⟩
    · -- the rest of the run is about the new block
      have hrep := hnew hzr
      generalize (Memory.realloc M x b.ptr size s).1 = q at hzr hrep ⊢
      obtain ⟨b', kept', u, hrun, hb', hle, hbyt, hlf⟩ :=
        Ready.reallocs hpg rest (b := ⟨q, size⟩) (min kept size) ht hrep.live
          (min_le_right _ _) hrs
      rw [if_neg hzr]
      refine ⟨b', kept', u, hrun, hb', by omega, fun j hj => ?_, fun e he heb => ?_⟩
      · rw [hbyt j hj]
        exact hrep.data j (by omega)
      · have hne : e ≠ ⟨q, size⟩ := by
          rintro rfl
          exact hrep.own _ he heb rfl
        obtain ⟨hmem, hsam⟩ := hlf e (hoth e he heb).live hne
        exact ⟨hmem, fun j hj => (hsam j hj).trans ((hoth e he heb).data j hj)⟩

/-- **`vl_realloc` preserves data** -/
theorem realloc_preserves (hpg : spanSize ≤ M.pageSize) {calls : List (Env × Call)}
    (hrun : Trans.run (Memory.step M) State.initial calls = some s) (hb : b ∈ s.live) :
    (∀ (x : Env) (size : ℕ), 0 < size → size < modulus →
      ∃ t, Memory.step M s (x, .realloc b.ptr size) = some t ∧
        ((realloc M x b.ptr size s).1 = 0 → Unchanged M b s t) ∧
        ((realloc M x b.ptr size s).1 ≠ 0 →
          Replaced M b size (realloc M x b.ptr size s).1 s t) ∧
        ∀ e ∈ s.live, e ≠ b → Unchanged M e s t) ∧
    ∀ resizes : List (Env × ℕ), (∀ call ∈ resizes, 0 < call.2 ∧ call.2 < modulus) →
      ∃ b' kept t, reallocs M resizes b b.size s = some (b', kept, t) ∧ b' ∈ t.live ∧
        kept ≤ min b.size b'.size ∧ (∀ j < kept, t.bytes (b'.ptr + j) = s.bytes (b.ptr + j)) ∧
        ∀ e ∈ s.live, e ≠ b →
          e ∈ t.live ∧ ∀ j < e.size, t.bytes (e.ptr + j) = s.bytes (e.ptr + j) := by
  have hrdy := ready_of_run hpg hrun
  refine ⟨fun x size hpos hsz => ?_, fun resizes hsiz => ?_⟩
  · obtain ⟨t, hst, -, hnl, hnew, hoth⟩ := hrdy.realloc hpg x hb hpos hsz
    exact ⟨t, hst, hnl, hnew, hoth⟩
  · exact hrdy.reallocs hpg resizes b.size hb le_rfl hsiz

theorem crossPCalls_realloc :
    (Trans.run (Memory.step ⟨true, 4096⟩) State.initial crossPCalls).map (fun s =>
      (s.live.contains ⟨102608, 32768⟩,
        (realloc ⟨true, 4096⟩ ⟨0, some 2097152, fun _ => true⟩ 102608 50000 s).1)) =
      some (true, 2097248) := by
  decide +kernel

theorem realloc_preserves_crossPCalls : ∃ s t,
    Trans.run (Memory.step ⟨true, 4096⟩) State.initial crossPCalls = some s ∧
      Memory.step ⟨true, 4096⟩ s (⟨0, some 2097152, fun _ => true⟩, .realloc 102608 50000) = some t ∧
      Replaced ⟨true, 4096⟩ ⟨102608, 32768⟩ 50000 2097248 s t := by
  obtain ⟨s, hrun, heq⟩ := map_eq_some_iff.mp crossPCalls_realloc
  simp only [Prod.mk.injEq, contains_iff_mem] at heq
  obtain ⟨hmem, hptr⟩ := heq
  obtain ⟨hone, -⟩ := realloc_preserves (by decide) hrun hmem
  obtain ⟨t, hst, -, hnew, -⟩ := hone ⟨0, some 2097152, fun _ => true⟩ 50000 (by decide) (by decide)
  rw [hptr] at hnew
  exact ⟨s, t, hrun, hst, hnew (by decide)⟩

/-- **What is in a block stays there** while the calls of others go on. -/
theorem contents_of_run (hpg : spanSize ≤ M.pageSize) {calls later : List (Env × Call)}
    (hrun : Trans.run (Memory.step M) State.initial calls = some s) (hb : b ∈ s.live)
    (hlat : Trans.run (Memory.step M) s later = some t)
    (hcs : ∀ call ∈ later, call.2.target ≠ b.ptr) : Unchanged M b s t := by
  obtain ⟨hrdy, hmem, hspa⟩ := run_spares hpg (ready_of_run hpg hrun) hlat hb hcs
  exact hspa.unchanged hrdy hmem

theorem contents_crossPCalls : ∃ s t,
    Trans.run (Memory.step ⟨true, 4096⟩) State.initial crossPCalls = some s ∧
      Memory.step ⟨true, 4096⟩ s (⟨0, none, fun _ => true⟩, .free 102608) = some t ∧
      Unchanged ⟨true, 4096⟩ ⟨1048672, 40000⟩ s t := by
  obtain ⟨s, hrun, hlv⟩ := map_eq_some_iff.mp crossPCalls_live
  obtain ⟨t, hst⟩ : ∃ t,
      Memory.step ⟨true, 4096⟩ s (⟨0, none, fun _ => true⟩, .free 102608) = some t := by
    simp [Memory.step, holds, hlv]
  exact ⟨s, t, hrun, hst, contents_of_run (by decide) hrun (by simp [hlv])
    (by simpa [Trans.run] using hst) (forall_mem_singleton.mpr (by decide))⟩

theorem calloc_zero {count : ℕ} (hne : (calloc M x count size s).1 ≠ 0) : ∀ j < count * size,
    (calloc M x count size s).2.bytes ((calloc M x count size s).1 + j) = 0 := by
  unfold calloc at hne ⊢
  split_ifs at hne ⊢
  · exact absurd rfl hne
  generalize malloc M x (count * size) s = r at hne ⊢
  obtain ⟨_ | ptr, t⟩ := r
  · exact absurd rfl hne
  · exact fun j hj => if_pos ⟨Nat.le_add_right _ _, Nat.add_lt_add_left hj _⟩

/-- **A block of `vl_calloc` reads as zeros** until its owner uses it. -/
theorem calloc_of_run (hpg : spanSize ≤ M.pageSize) {calls later : List (Env × Call)} {count : ℕ}
    (hrun : Trans.run (Memory.step M) State.initial calls = some s)
    (hst : Memory.step M s (x, .calloc count size) = some t)
    (hptr : (calloc M x count size s).1 = ptr) (hne : ptr ≠ 0)
    (hlat : Trans.run (Memory.step M) t later = some u)
    (hcs : ∀ call ∈ later, call.2.target ≠ ptr) :
    ⟨ptr, requestSize (count * size)⟩ ∈ u.live ∧ ∀ j < count * size, u.bytes (ptr + j) = 0 := by
  have hrdy := (ready_of_run hpg hrun).step hpg hst
  simp only [Memory.step] at hst
  split_ifs at hst
  cases hst
  have hzr := calloc_zero (hptr ▸ hne : (calloc M x count size s).1 ≠ 0)
  rw [hptr] at hrdy hlat hzr
  rw [gain, if_neg hne] at hrdy hlat
  obtain ⟨-, hmem, hspa⟩ := run_spares hpg hrdy hlat mem_cons_self hcs
  refine ⟨hmem, fun j hj => (hspa.byte j ?_).trans (hzr j hj)⟩
  show j < requestSize (count * size)
  unfold requestSize
  split_ifs <;> omega

theorem calloc_crossPCalls : ∃ s t,
    Trans.run (Memory.step ⟨true, 4096⟩) State.initial crossPCalls = some s ∧
      Memory.step ⟨true, 4096⟩ s (⟨0, some 2097152, fun _ => true⟩, .calloc 5 8) = some t ∧
      ∀ j < 40, t.bytes (2161664 + j) = 0 := by
  have hvl : (Trans.run (Memory.step ⟨true, 4096⟩) State.initial crossPCalls).map (fun s =>
      (calloc ⟨true, 4096⟩ ⟨0, some 2097152, fun _ => true⟩ 5 8 s).1) = some 2161664 := by
    decide +kernel
  obtain ⟨s, hrun, hptr⟩ := map_eq_some_iff.mp hvl
  obtain ⟨t, hst⟩ : ∃ t, Memory.step ⟨true, 4096⟩ s
      (⟨0, some 2097152, fun _ => true⟩, .calloc 5 8) = some t := by simp [Memory.step, modulus]
  exact ⟨s, t, hrun, hst, (calloc_of_run (by decide) hrun hst hptr (by decide) (Trans.run_nil t)
    (forall_mem_nil _)).2⟩

end Veloco.Memory
