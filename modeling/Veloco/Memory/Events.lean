import Veloco.Memory.Handles

/-!
# The counters of events
-/

namespace Veloco.Memory

open List State
open Veloco.Bytes Veloco.Word

/-! ## Increments -/

def Ticks (k c d : ℕ) : Prop := ∃ i ≤ k, d = (fun n => add n 1)^[i] c

theorem Ticks.refl (k c : ℕ) : Ticks k c c := ⟨0, Nat.zero_le k, rfl⟩

theorem Ticks.one (c : ℕ) : Ticks 1 c (add c 1) := ⟨1, le_rfl, rfl⟩

theorem Ticks.trans {k k' c d e : ℕ} (h : Ticks k c d) (h' : Ticks k' d e) : Ticks (k + k') c e := by
  obtain ⟨i, hi, rfl⟩ := h
  obtain ⟨j, hj, rfl⟩ := h'
  refine ⟨j + i, by omega, ?_⟩
  rw [Function.iterate_add_apply]

theorem Ticks.mono {k k' c d : ℕ} (h : Ticks k c d) (hle : k ≤ k') : Ticks k' c d := by
  obtain ⟨i, hi, rfl⟩ := h
  exact ⟨i, hi.trans hle, rfl⟩

theorem iterate_add_one (c : ℕ) : ∀ i, c + i < modulus → (fun n => add n 1)^[i] c = c + i
  | 0, _ => rfl
  | i + 1, h => by
    rw [Function.iterate_succ_apply', iterate_add_one c i (by omega), add_of_lt (by omega)]
    rfl

theorem Ticks.bounds {k c d : ℕ} (h : Ticks k c d) (hlt : c + k < modulus) : c ≤ d ∧ d ≤ c + k := by
  obtain ⟨i, hi, rfl⟩ := h
  rw [iterate_add_one c i (by omega)]
  omega

def eventCounters : List (Stats → ℕ) :=
  [Stats.cacheHits, Stats.centralRefills, Stats.mmapCalls, Stats.crossPFrees]

def Events (k : ℕ) (c d : Stats) : Prop := ∀ f ∈ eventCounters, Ticks k (f c) (f d)

variable {M : Platform} {x y : Env} {s t u : State} {a b k k' n p ptr size user : ℕ}
  {c d e : Stats}

theorem Events.refl (k : ℕ) (c : Stats) : Events k c c := fun f _ => Ticks.refl k (f c)

theorem Events.of_eq (h : d = c) : Events k c d := h ▸ Events.refl k c

theorem Events.trans (h : Events k c d) (h' : Events k' d e) : Events (k + k') c e :=
  fun f hf => (h f hf).trans (h' f hf)

theorem Events.mono (h : Events k c d) (hle : k ≤ k') : Events k' c d :=
  fun f hf => (h f hf).mono hle

theorem forall_eventCounters {P : (Stats → ℕ) → Prop} : (∀ f ∈ eventCounters, P f) ↔
    P Stats.cacheHits ∧ P Stats.centralRefills ∧ P Stats.mmapCalls ∧ P Stats.crossPFrees := by
  simp [eventCounters]

theorem Events.gauges (c : Stats) (activeBytes activeObjects mappedBytes : ℕ) :
    Events 0 c { c with
      activeBytes := activeBytes, activeObjects := activeObjects, mappedBytes := mappedBytes } :=
  forall_eventCounters.mpr ⟨Ticks.refl _ _, Ticks.refl _ _, Ticks.refl _ _, Ticks.refl _ _⟩

theorem acquire_events (M : Platform) (x : Env) (pages : ℕ) (s : State) :
    Events 1 s.stats (pageHeapAcquire M x pages s).2.stats := by
  rcases pageHeapAcquire_cases M x pages s with heq | ⟨a, -, -, heq⟩
  · rw [heq]
    exact .refl _ _
  · rw [heq]
    exact forall_eventCounters.mpr ⟨Ticks.refl _ _, Ticks.refl _ _, Ticks.one _, Ticks.refl _ _⟩

theorem release_events (x : Env) (a n : ℕ) (s : State) : Events 0 s.stats (pageHeapRelease x a n s).stats := by
  obtain ⟨mapped, mappedBytes, -, heq⟩ := pageHeapRelease_eq x a n s
  rw [heq]
  exact .gauges _ _ _ _

theorem initObjects_stats : ∀ n, (initObjects M a n s).stats = s.stats
  | 0 => rfl
  | n + 1 => initObjects_stats n

theorem spanCreate_events (M : Platform) (x : Env) (k : ℕ) (s : State) :
    Events 1 s.stats (spanCreate M x k s).2.stats := by
  unfold spanCreate
  split_ifs with hk
  · exact .refl _ _
  dsimp only
  split_ifs with hbad
  · exact .refl _ _
  have hacq := acquire_events M x
    ((spanObjectArea (spanObjectStride M (sizeClassCapacity k)) + s.pageSize - 1) /
      s.pageSize + 1) s
  generalize pageHeapAcquire M x _ s = r at hacq ⊢
  obtain ⟨_ | ⟨a, n⟩, t⟩ := r
  · exact hacq
  · dsimp only
    split_ifs with hcnt
    · exact hacq.trans (release_events x a n (t.setSpan a _))
    · exact hacq.trans (Events.of_eq (k := 0) (initObjects_stats (s := t.setSpan a _) _))

theorem spanMoveToCentral_stats : (spanMoveToCentral M a b s).stats = s.stats := by
  unfold spanMoveToCentral
  split_ifs <;> rfl

theorem reclaim_events (x : Env) (a : ℕ) (s : State) : Events 0 s.stats (spanReclaimIfEmpty x a s).stats := by
  rw [spanReclaimIfEmpty_eq]
  split_ifs
  · exact .refl 0 _
  · exact release_events x _ _ _

/-! ## Allocation -/

theorem refillCentral_stats (M : Platform) (p k a : ℕ) : ∀ (n count : ℕ) (s : State),
    (refillCentral M p k a n count s).2.stats = s.stats
  | 0, _, _ => rfl
  | n + 1, count, s => by
    rw [refillCentral]
    split_ifs with hemp
    · rfl
    · have htk : (spanTakeCentral a s).2.stats = s.stats := by
        unfold spanTakeCentral
        split_ifs <;> rfl
      exact (refillCentral_stats M p k a n _ _).trans htk

theorem refillFromSpan_events (M : Platform) (p k a count : ℕ) (s : State) :
    Events 1 s.stats (refillFromSpan M p k a count s).2.stats := by
  have hcen := refillCentral_stats M p k a (cacheRefill - count) count s
  unfold refillFromSpan
  generalize refillCentral M p k a (cacheRefill - count) count s = r at hcen ⊢
  obtain ⟨_ | total, t⟩ := r
  · exact .of_eq hcen
  · dsimp only at hcen ⊢
    rw [← hcen]
    refine forall_eventCounters.mpr ?_
    exact ⟨Ticks.refl _ _, Ticks.one _, Ticks.refl _ _, Ticks.refl _ _⟩

theorem refillCache_events (M : Platform) (x : Env) (k : ℕ) (s : State) :
    Events 2 s.stats (refillCache M x k s).2.stats := by
  have hrem := refillRemote_stats M (memoryCurrentP x) k cacheRefill 0 s
  unfold refillCache
  dsimp only
  generalize refillRemote M (memoryCurrentP x) k cacheRefill 0 s = r at hrem ⊢
  obtain ⟨count, t⟩ := r
  dsimp only at hrem ⊢
  have hsta : Events 0 s.stats t.stats := .of_eq hrem
  split_ifs with hfu
  · exact hsta.mono (by omega)
  cases findRefillSpan k s with
  | some a => exact (hsta.trans (refillFromSpan_events M _ k a count t)).mono (by omega)
  | none =>
    have hcre := hsta.trans (spanCreate_events M x k t)
    dsimp only
    generalize spanCreate M x k t = q at hcre ⊢
    obtain ⟨_ | a, u⟩ := q
    · exact hcre.mono (by omega)
    · exact hcre.trans (refillFromSpan_events M _ k a count u)

theorem cachePop_events (M : Platform) (x : Env) (k : ℕ) (s : State) :
    Events 2 s.stats (cachePop M x k s).2.stats := by
  have href := refillCache_events M x k s
  have htk : ∀ (c : Bin) (t : State), Events 0 t.stats (cacheTake M c t).2.stats :=
    fun _ _ => .refl _ _
  unfold cachePop
  dsimp only
  split_ifs with hemp
  · generalize refillCache M x k s = r at href ⊢
    obtain ⟨status, t⟩ := r
    cases status with
    | ok => exact href.trans (htk _ t)
    | _ => exact href
  · exact (htk _ s).mono (by omega)

theorem debugPrepare_events (M : Platform) (header user : ℕ) (s : State) :
    Events 0 s.stats (debugPrepare M header user s).stats :=
  Events.of_eq (debugPrepare_accounts M header user s).2

theorem mallocLarge_events (M : Platform) (x : Env) (size : ℕ) (s : State) :
    Events 1 s.stats (mallocLarge M x size s).2.stats := by
  unfold mallocLarge
  dsimp only
  split_ifs with hsz hbyt hpag
  · exact .refl _ _
  · exact .refl _ _
  · exact .refl _ _
  have hacq := acquire_events M x
    ((M.headerSize + size + M.suffixSize + s.pageSize - 1) / s.pageSize) s
  generalize pageHeapAcquire M x _ s = r at hacq ⊢
  obtain ⟨_ | ⟨a, n⟩, t⟩ := r
  · exact hacq
  · refine hacq.trans (Events.trans (k := 0) ?_ (debugPrepare_events M _ _ _))
    exact .gauges _ _ _ _

theorem mallocLocked_events (M : Platform) (x : Env) (size : ℕ) (s : State) :
    Events 3 s.stats (mallocLocked M x size s).2.stats := by
  unfold mallocLocked
  dsimp only
  split_ifs with hcan hlar
  · exact .refl _ _
  · exact (mallocLarge_events M x size s).mono (by omega)
  have hhit : Events 1 s.stats (countCacheHit x (sizeClassIndex size) s).stats := by
    unfold countCacheHit
    split_ifs
    · exact forall_eventCounters.mpr ⟨Ticks.one _, Ticks.refl _ _, Ticks.refl _ _, Ticks.refl _ _⟩
    · exact .refl _ _
  have hpop := hhit.trans (cachePop_events M x (sizeClassIndex size) _)
  generalize cachePop M x (sizeClassIndex size) _ = r at hpop ⊢
  obtain ⟨_ | user, t⟩ := r
  · exact hpop
  · refine hpop.trans (Events.trans (k := 0) ?_ (debugPrepare_events M _ _ _))
    exact .gauges _ _ _ _

theorem ensure_events (h : Ready M s) : Events 0 s.stats (memoryEnsureInitialized M s).2.stats := by
  unfold memoryEnsureInitialized allocatorInit
  split_ifs with hnt hpow
  · exact .refl 0 _
  · exact .refl 0 _
  · rcases h with rfl | ⟨loc, c, hI⟩
    · exact .refl _ _
    · exact absurd hI.layout.initialized hnt

theorem malloc_events (h : Ready M s) (x : Env) (size : ℕ) :
    Events 3 s.stats (malloc M x size s).2.stats := by
  have hens := ensure_events h
  unfold malloc
  generalize memoryEnsureInitialized M s = r at hens ⊢
  obtain ⟨status, t⟩ := r
  cases status with
  | ok => exact (hens.trans (mallocLocked_events M x (requestSize size) t)).mono (by omega)
  | _ => exact hens.mono (by omega)

theorem drainLoop_events (M : Platform) (x : Env) (c : Bin) : ∀ (n : ℕ) (s : State),
    Events 0 s.stats (drainLoop M x c n s).stats
  | 0, s => .refl 0 _
  | n + 1, s => by
    rw [drainLoop]
    split_ifs
    · exact .refl 0 _
    · have hone : Events 0 s.stats (drainOne M x c s).stats := by
        refine .trans (k := 0) ?_ (reclaim_events x _ _)
        exact .of_eq spanMoveToCentral_stats
      exact hone.trans (drainLoop_events M x c n _)

theorem cacheGive_events (M : Platform) (c : Bin) (header user : ℕ) (s : State) :
    Events 1 s.stats (cacheGive M c header user s).stats := by
  have hcro : Events 1 s.stats (countCrossPFree c s).stats := by
    unfold countCrossPFree
    split
    · exact forall_eventCounters.mpr ⟨Ticks.refl _ _, Ticks.refl _ _, Ticks.refl _ _, Ticks.one _⟩
    · exact .refl _ _
  have hpoi : ∀ (capacity : ℕ) (t : State), Events 0 t.stats (poison M user capacity t).stats := by
    intro capacity t
    unfold poison
    split_ifs
    · exact .refl _ _
    · exact .refl 0 _
  exact (hcro.trans (hpoi _ _)).trans (Events.refl 0 _)

theorem cachePush_events (M : Platform) (x : Env) (header user : ℕ) (s : State) :
    Events 1 s.stats (cachePush M x header user s).stats := by
  unfold cachePush
  dsimp only
  split_ifs
  · exact (cacheGive_events M _ header user s).trans (drainLoop_events M x _ cacheRefill _)
  · exact cacheGive_events M _ header user s

theorem debugAbort_events (M : Platform) (s : State) : Events 0 s.stats (debugAbort M s).stats := by
  unfold debugAbort
  split_ifs
  · exact .refl _ _
  · exact .refl 0 _

theorem debugValidate_events (M : Platform) (header user : ℕ) (s : State) :
    Events 0 s.stats (debugValidate M header user s).2.stats := by
  unfold debugValidate
  dsimp only
  split_ifs
  · exact debugAbort_events M s
  · exact debugAbort_events M s
  · exact .refl 0 _
  · exact .refl 0 _

theorem debugValidate_true {header : ℕ} (h : debugValidate M header user s = (true, t)) : t = s := by
  unfold debugValidate at h
  dsimp only at h
  split_ifs at h
  all_goals simp only [Prod.mk.injEq, Bool.false_eq_true, false_and, true_and] at h
  all_goals exact h.symm

theorem freeChecked_events (M : Platform) (x : Env) (ptr : ℕ) (s : State) :
    Events 1 s.stats (freeChecked M x ptr s).stats := by
  have hmr : ∀ header, Events 0 s.stats (markFree header s).stats :=
    fun _ => .gauges _ _ _ _
  unfold freeChecked
  dsimp only
  split
  · exact (Events.trans (k := 0) (hmr _) (release_events x _ _ (largeRemove _ _))).mono (by omega)
  · exact .trans (k := 0) (hmr _) (cachePush_events M x _ _ _)

theorem free_events (M : Platform) (x : Env) (ptr : ℕ) (s : State) :
    Events 1 s.stats (free M x ptr s).stats := by
  have hval := debugValidate_events M (ptr - M.headerSize) ptr s
  unfold free
  dsimp only
  split_ifs with hnl hbad
  · exact .refl _ _
  · exact (debugAbort_events M s).mono (by omega)
  generalize debugValidate M (ptr - M.headerSize) ptr s = r at hval ⊢
  obtain ⟨_ | _, t⟩ := r
  · exact hval.mono (by omega)
  · dsimp only at hval ⊢
    split_ifs
    · exact (hval.trans (debugAbort_events M t)).mono (by omega)
    · exact (hval.trans (freeChecked_events M x ptr t)).mono (by omega)

theorem reallocInPlace_events (M : Platform) (ptr size : ℕ) (s : State) :
    Events 0 s.stats (reallocInPlace M ptr size s).2.stats := by
  unfold reallocInPlace
  dsimp only
  split_ifs
  · exact debugAbort_events M s
  · exact .refl 0 _
  · refine .trans (k := 0) ?_ (debugPrepare_events M _ _ _)
    exact .gauges _ _ _ _

theorem reallocMove_events (h : Ready M s) (x : Env) (ptr size : ℕ) :
    Events 4 s.stats (reallocMove M x ptr size s).2.stats := by
  have hmal := malloc_events h x size
  unfold reallocMove
  dsimp only
  generalize malloc M x size s = r at hmal ⊢
  obtain ⟨_ | new, t⟩ := r
  · exact hmal.mono (by omega)
  · exact hmal.trans (free_events M x ptr (t.overwrite M (new + 1) _ _))

theorem realloc_events (h : Ready M s) (x : Env) (ptr size : ℕ) :
    Events 4 s.stats (realloc M x ptr size s).2.stats := by
  have hval := debugValidate_events M (ptr - M.headerSize) ptr s
  unfold realloc
  by_cases hnl : ptr = 0
  · rw [if_pos hnl]
    exact (malloc_events h x size).mono (by omega)
  rw [if_neg hnl]
  by_cases hzr : size = 0
  · rw [if_pos hzr]
    exact (free_events M x ptr s).mono (by omega)
  rw [if_neg hzr]
  by_cases hnt : s.initialized = false
  · rw [if_pos hnt]
    exact .refl _ _
  rw [if_neg hnt]
  dsimp only
  by_cases hbad : (s.headers (ptr - M.headerSize)).magic ≠ objectMagic ∨
      (s.headers (ptr - M.headerSize)).state ≠ .allocated
  · rw [if_pos hbad]
    exact (debugAbort_events M s).mono (by omega)
  rw [if_neg hbad]
  generalize hr : debugValidate M (ptr - M.headerSize) ptr s = r at hval ⊢
  obtain ⟨_ | _, t⟩ := r
  · exact (hval.trans (debugAbort_events M t)).mono (by omega)
  · have hsm : t = s := debugValidate_true hr
    subst hsm
    dsimp only
    split_ifs
    · exact (reallocInPlace_events M ptr size t).mono (by omega)
    · exact reallocMove_events h x ptr size

theorem calloc_events (h : Ready M s) (x : Env) (count size : ℕ) :
    Events 3 s.stats (calloc M x count size s).2.stats := by
  have hmal := malloc_events h x (count * size)
  unfold calloc
  split_ifs
  · exact .refl _ _
  generalize malloc M x (count * size) s = r at hmal ⊢
  obtain ⟨_ | ptr, t⟩ := r
  · exact hmal
  · exact hmal

def Call.releases (ptr : ℕ) : Call → Prop
  | .free p => p = ptr
  | .realloc p _ => p = ptr
  | _ => False

inductive CallEffect (call : Call) (s t : State) : Prop where
  | same (live : t.live = s.live) (events : Events 4 s.stats t.stats)
  | gained (d : Block) (live : t.live = d :: s.live) (events : Events 3 s.stats t.stats)
  | lost (d : Block) (mem : d ∈ s.live) (releases : call.releases d.ptr)
      (live : t.live = s.live.filter fun e => e.ptr != d.ptr) (events : Events 4 s.stats t.stats)
  | replaced (d new : Block) (mem : d ∈ s.live) (releases : call.releases d.ptr)
      (live : t.live = new :: s.live.filter fun e => e.ptr != d.ptr)
      (events : Events 4 s.stats t.stats)

theorem callEffect_gain {call : Call} (hlv : t.live = s.live) (heve : Events 3 s.stats t.stats) :
    CallEffect call s (t.gain ptr size) := by
  unfold gain
  split_ifs
  · exact .same hlv (heve.mono (by omega))
  · exact .gained ⟨ptr, requestSize size⟩ (congrArg _ hlv) heve

theorem step_effect (hpg : spanSize ≤ M.pageSize) (h : Ready M s) {call : Call}
    (hst : step M s (x, call) = some t) : CallEffect call s t := by
  cases call with
  | malloc size =>
    simp only [Memory.step] at hst
    split_ifs at hst with hsz
    cases hst
    exact callEffect_gain (malloc_spec hpg h x hsz).1 (malloc_events h x size)
  | calloc count size =>
    simp only [Memory.step] at hst
    split_ifs at hst with hsz
    cases hst
    exact callEffect_gain (calloc_live hpg h x count size) (calloc_events h x count size)
  | free ptr =>
    simp only [Memory.step] at hst
    split_ifs at hst with hptr
    cases hst
    have heve : Events 4 s.stats (free M x ptr s).stats :=
      (free_events M x ptr s).mono (by omega)
    by_cases hhl : s.holds ptr = true
    · obtain ⟨d, hd, rfl⟩ := State.mem_of_holds hhl
      refine .lost d hd rfl ?_ heve
      rw [State.drop, free_live]
    · -- `vl_free(NULL)`
      obtain rfl : ptr = 0 := hptr.resolve_right hhl
      refine .same ?_ heve
      rw [State.drop, free_live]
      exact filter_eq_self.mpr fun d hd => by simpa using h.ptr_ne hd
  | realloc ptr size =>
    simp only [Memory.step] at hst
    split_ifs at hst with hptr hnl hzr hfl
    · cases hst
      rw [realloc, if_pos hnl]
      exact callEffect_gain (malloc_spec hpg h x hptr.1).1 (malloc_events h x size)
    all_goals
      cases hst
      obtain ⟨d, hd, rfl⟩ := State.mem_of_holds (hptr.2.resolve_left hnl)
      have hlv := realloc_live hpg (h.good hd) hd x hptr.1
      have heve := realloc_events h x d.ptr size
    · refine .lost d hd rfl ?_ heve
      rw [State.drop, hlv]
    · exact .same hlv heve
    · rw [State.gain, if_neg hfl, State.drop, hlv]
      exact .replaced d _ hd rfl rfl heve
  | write ptr offset value =>
    simp only [Memory.step] at hst
    split_ifs at hst with hptr
    cases hst
    exact .same rfl (Events.refl _ _)

theorem CallEffect.keeps {call : Call} (h : CallEffect call s t) {d : Block} (hd : d ∈ s.live)
    (hkeep : ¬ call.releases d.ptr) : d ∈ t.live := by
  have hfil : ∀ {e : Block}, call.releases e.ptr → d ∈ s.live.filter fun f => f.ptr != e.ptr := by
    intro e he
    refine mem_filter.mpr ⟨hd, ?_⟩
    have hne : d.ptr ≠ e.ptr := fun heq => hkeep (heq ▸ he)
    simpa using hne
  cases h with
  | same live => exact live ▸ hd
  | gained e live => exact live ▸ mem_cons_of_mem e hd
  | lost e _ releases live => exact live ▸ hfil releases
  | replaced e new _ releases live => exact live ▸ mem_cons_of_mem new (hfil releases)

theorem CallEffect.events_le {call : Call} (h : CallEffect call s t) (hrdy : Ready M s) :
    ∃ k, Events k s.stats t.stats ∧ t.live.length + k ≤ s.live.length + 4 := by
  cases h with
  | same live events => exact ⟨4, events, by rw [live]⟩
  | gained e live events => exact ⟨3, events, by rw [live, length_cons]⟩
  | lost e mem _ live events =>
    have hlen := hrdy.length_filter mem
    exact ⟨4, events, by rw [live]; omega⟩
  | replaced e new mem _ live events =>
    have hlen := hrdy.length_filter mem
    exact ⟨4, events, by rw [live, length_cons]; omega⟩

theorem arenaNewBlock_events (M : Platform) (x : Env) (minimum : ℕ) (impl : ArenaImpl)
    (s : State) : Events 1 s.stats (arenaNewBlock M x minimum impl s).2.stats := by
  unfold arenaNewBlock
  dsimp only
  generalize (if impl.blockSize > minimum then impl.blockSize else minimum) = capacity
  split_ifs with hsz hpag
  · exact .refl _ _
  · exact .refl _ _
  · have hacq := acquire_events M x ((capacity + s.pageSize - 1) / s.pageSize + 1) s
    generalize pageHeapAcquire M x _ s = r at hacq ⊢
    obtain ⟨_ | ⟨a, n⟩, t⟩ := r
    · exact hacq
    · exact hacq

theorem arenaRelease_events (x : Env) (impl : ArenaImpl) (s : State) :
    Events 0 s.stats (arenaReleaseHeadBlock x impl s).2.stats := by
  unfold arenaReleaseHeadBlock
  split
  · exact .refl _ _
  · exact release_events x _ _ s

theorem arenaTake_stats (offset size : ℕ) (impl : ArenaImpl) (s : State) :
    (arenaTake offset size impl s).2.2.stats = s.stats := by
  unfold arenaTake
  split <;> rfl

theorem arenaGrow_events (M : Platform) (x : Env) (size align : ℕ) (impl : ArenaImpl)
    (s : State) : Events 1 s.stats (arenaGrow M x size align impl s).2.2.stats := by
  have hnew := arenaNewBlock_events M x (size + align) impl s
  unfold arenaGrow
  split_ifs
  · exact .refl _ _
  generalize arenaNewBlock M x (size + align) impl s = r at hnew ⊢
  obtain ⟨_ | new, t⟩ := r
  · exact hnew
  dsimp only at hnew ⊢
  split
  · exact hnew
  split
  · exact hnew.trans (arenaRelease_events x new t)
  · split_ifs
    · exact hnew.trans (Events.of_eq (k := 0) (arenaTake_stats _ size new t))
    · exact hnew.trans (arenaRelease_events x new t)

theorem arenaServe_events (M : Platform) (x : Env) (size align : ℕ) (fresh : Bool)
    (impl : ArenaImpl) (s : State) :
    Events 1 s.stats (arenaServe M x size align fresh impl s).2.2.stats := by
  unfold arenaServe
  split
  · exact .refl _ _
  split
  · split_ifs
    · exact (arenaRelease_events x impl s).mono (by omega)
    · exact .refl _ _
  · split_ifs
    · exact .of_eq (arenaTake_stats _ size impl s)
    · exact arenaGrow_events M x size align impl s

theorem arenaAlloc_events (h : Ready M s) (x y : Env) (size align : ℕ) (impl : ArenaImpl) :
    Events 2 s.stats (arenaAlloc M x y size align impl s).2.2.stats := by
  have hens := ensure_events h
  unfold arenaAlloc
  by_cases hbad : size = 0 ∨ isPowerOfTwo align = false
  · rw [if_pos hbad]
    exact .refl _ _
  rw [if_neg hbad]
  generalize memoryEnsureInitialized M s = r at hens ⊢
  obtain ⟨status, t⟩ := r
  dsimp only at hens
  cases status with
  | ok =>
    dsimp only
    split
    · exact (hens.trans (arenaServe_events M x size align false impl t)).mono (by omega)
    · split_ifs
      · exact hens.mono (by omega)
      have hnew := hens.trans (arenaNewBlock_events M x (size + align) impl t)
      generalize arenaNewBlock M x (size + align) impl t = q at hnew ⊢
      obtain ⟨_ | new, u⟩ := q
      · exact hnew.mono (by omega)
      · exact hnew.trans (arenaServe_events M y size align true new u)
  | _ => exact hens.mono (by omega)

theorem arenaReset_events (x : Env) (impl : ArenaImpl) (s : State) :
    Events 0 s.stats (arenaReset x impl s).2.stats := by
  have hlp : ∀ (blocks : List ArenaBlock) (s : State),
      Events 0 s.stats (arenaReleaseBlocks x blocks s).stats := by
    intro blocks
    induction blocks with
    | nil => exact fun s => .refl _ _
    | cons block rest ih => exact fun s => (release_events x _ _ s).trans (ih _)
  unfold arenaReset
  split_ifs
  · exact .refl _ _
  · exact hlp impl.blocks s

theorem poolAlloc_events (hpg : spanSize ≤ M.pageSize) (h : Ready M s) (x : Env)
    (allocOk : Bool) (impl : PoolImpl) :
    Events 3 s.stats (poolAlloc M x allocOk impl s).2.2.stats := by
  have hens := ensure_events h
  have hrdy := h.ensure hpg
  unfold poolAlloc
  generalize memoryEnsureInitialized M s = r at hens hrdy ⊢
  obtain ⟨status, t⟩ := r
  dsimp only at hens hrdy
  cases status with
  | ok =>
    dsimp only
    split
    · exact hens.mono (by omega)
    · split_ifs
      · exact hens.mono (by omega)
      have hmal := hens.trans (malloc_events hrdy x impl.objectSize)
      generalize malloc M x impl.objectSize t = q at hmal ⊢
      obtain ⟨_ | ptr, u⟩ := q
      · exact hmal.mono (by omega)
      · have hgn : (u.gain (ptr + 1) impl.objectSize).stats = u.stats := rfl
        exact (hmal.trans (Events.of_eq (k := 0) hgn)).mono (by omega)
  | _ => exact hens.mono (by omega)

theorem poolFreeItems_events (M : Platform) (x : Env) : ∀ (items : List PoolItem) (s : State),
    Events items.length s.stats (poolFreeItems M x items s).stats
  | [], _ => .refl _ _
  | item :: rest, s => by
    have hfr := free_events M x item.object s
    refine (hfr.trans (poolFreeItems_events M x rest
      ((free M x item.object s).drop item.object))).mono ?_
    rw [length_cons]
    omega

end Veloco.Memory
