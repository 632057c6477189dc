import Veloco.Memory.Clients

/-!
# How long the caches and remote queues get
-/

namespace Veloco.Memory

open Function List
open Veloco.Bytes Veloco.Word Veloco.Chain

variable {M : Platform} {x : Env} {s t u : State} {loc : ℕ → Place} {c : Place → List ℕ}
  {a i k m n p ptr size : ℕ} {b : Block} {d : Bin}

/-! ## Pushing and popping -/

structure Grows (d : Bin) (n : ℕ) (s t : State) : Prop where
  self : (t.bins d).count ≤ (s.bins d).count + n
  others : ∀ e, e ≠ d → (t.bins e).count ≤ (s.bins e).count

theorem Grows.of_bins (h : t.bins = s.bins) : Grows d n s t := by
  refine ⟨?_, fun e _ => ?_⟩
  · rw [h]
    exact Nat.le_add_right _ _
  · rw [h]

theorem Grows.trans (h : Grows d m s t) (h' : Grows d n t u) : Grows d (m + n) s u := by
  refine ⟨?_, fun e he => (h'.others e he).trans (h.others e he)⟩
  have hsl := h.self
  have hself' := h'.self
  omega

theorem Grows.mono (h : Grows d m s t) (hle : m ≤ n) : Grows d n s t :=
  ⟨h.self.trans (Nat.add_le_add_left hle _), h.others⟩

theorem add_one_le (n : ℕ) : add n 1 ≤ n + 1 := Nat.mod_le _ _

theorem grows_binPush (M : Platform) (d : Bin) (user : ℕ) (s : State) :
    Grows d 1 s (binPush M d user s) := by
  refine ⟨?_, fun e he => ?_⟩
  · simp only [binPush, State.setBin, update_self]
    exact add_one_le _
  · simp only [binPush, State.setBin, update_of_ne he]
    exact le_rfl

theorem Inv.pop_count (h : Inv M s loc c) (hhd : (s.bins d).head ≠ 0) :
    sub (s.bins d).count 1 + 1 = (s.bins d).count := by
  have hli : s.HasList (.bin d) := trivial
  obtain ⟨a, ha, i, hi, -, hloc⟩ := h.lists.head_slot hli hhd
  exact h.lists.binCount_sub h.layout ⟨a, ha, i, hi, rfl⟩ hloc

theorem Inv.count_of_null (h : Inv M s loc c) (hhd : (s.bins d).head = 0) :
    (s.bins d).count = 0 := by
  have hnil := (h.lists.links (.bin d) trivial).eq_nil_iff.mpr hhd
  rw [h.lists.binCount d, hnil]
  rfl

theorem Inv.binPop_count (h : Inv M s loc c) (hhd : (s.bins d).head ≠ 0) :
    ((binPop d s).bins d).count + 1 = (s.bins d).count ∧
      ∀ e, e ≠ d → (binPop d s).bins e = s.bins e := by
  refine ⟨?_, fun e he => ?_⟩
  · simp only [binPop, State.setBin, update_self]
    exact h.pop_count hhd
  · simp only [binPop, State.setBin, update_of_ne he]

@[simp] theorem bins_debugPrepare (header user : ℕ) :
    (debugPrepare M header user s).bins = s.bins := by
  unfold debugPrepare
  split_ifs <;> rfl

theorem grows_refillRemote (p k : ℕ) : ∀ (n count : ℕ) (s : State), Good M s →
    ∃ j ≤ n, (refillRemote M p k n count s).1 = count + j ∧
      Grows (.cache p k) j s (refillRemote M p k n count s).2
  | 0, count, s, _ => ⟨0, le_rfl, rfl, Grows.of_bins rfl⟩
  | n + 1, count, s, h => by
    rw [refillRemote]
    by_cases hhd : (s.bins (.remote p k)).head = 0
    · rw [if_pos hhd]
      exact ⟨0, Nat.zero_le _, rfl, Grows.of_bins rfl⟩
    · rw [if_neg hhd]
      obtain ⟨loc, c, hI⟩ := h
      obtain ⟨hrem, hrs⟩ := hI.binPop_count hhd
      have hpop : Grows (.cache p k) 0 s (binPop (.remote p k) s) := by
        refine ⟨by rw [hrs _ (by simp)]; rfl, fun e he => ?_⟩
        by_cases heq : e = .remote p k
        · rw [heq]
          omega
        · rw [hrs e heq]
      have hone := hpop.trans (grows_binPush M (.cache p k) (s.bins (.remote p k)).head _)
      obtain ⟨j, hj, hcnt, hgro⟩ :=
        grows_refillRemote p k n (count + 1) _ (hI.remoteToCache hhd).good
      refine ⟨j + 1, by omega, by omega, (hone.trans hgro).mono (by omega)⟩

theorem grows_refillCentral (M : Platform) (p k a : ℕ) : ∀ (n count : ℕ) (s : State),
    Grows (.cache p k) n s (refillCentral M p k a n count s).2
  | 0, _, _ => Grows.of_bins rfl
  | n + 1, count, s => by
    rw [refillCentral]
    split_ifs with hemp
    · exact Grows.of_bins rfl
    · have htk : Grows (.cache p k) 0 s (spanTakeCentral a s).2 := by
        refine Grows.of_bins ?_
        unfold spanTakeCentral
        split_ifs <;> rfl
      exact ((htk.trans (grows_binPush M _ _ _)).trans
        (grows_refillCentral M p k a n (count + 1) _)).mono (by omega)

theorem grows_refillFromSpan (M : Platform) (p k a count : ℕ) (s : State) :
    Grows (.cache p k) (cacheRefill - count) s (refillFromSpan M p k a count s).2 := by
  have hcen := grows_refillCentral M p k a (cacheRefill - count) count s
  unfold refillFromSpan
  generalize refillCentral M p k a (cacheRefill - count) count s = r at hcen ⊢
  obtain ⟨_ | total, t⟩ := r
  · exact hcen
  · exact ⟨hcen.self, hcen.others⟩

theorem grows_refillCache (h : Good M s) (x : Env) (hk : k < sizeClassCount) :
    Grows (.cache (memoryCurrentP x) k) cacheRefill s (refillCache M x k s).2 := by
  have hqui := quiet_refillRemote (memoryCurrentP x) k cacheRefill 0 s h
  obtain ⟨j, hj, hcnt, hgro⟩ := grows_refillRemote (memoryCurrentP x) k cacheRefill 0 s h
  unfold refillCache
  dsimp only
  generalize refillRemote M (memoryCurrentP x) k cacheRefill 0 s = r at hqui hcnt hgro ⊢
  obtain ⟨count, s₁⟩ := r
  dsimp only at hqui hcnt hgro ⊢
  split_ifs with hfl
  · exact hgro.mono hj
  cases findRefillSpan k s with
  | some a => exact (hgro.trans (grows_refillFromSpan M _ k a count s₁)).mono (by omega)
  | none =>
    obtain ⟨loc, c, hI⟩ := hqui.good
    obtain ⟨-, -, hbn, -⟩ := hI.spanCreate x hk
    have hcre := hgro.trans (Grows.of_bins (n := 0) hbn)
    dsimp only
    generalize spanCreate M x k s₁ = q at hcre ⊢
    obtain ⟨_ | a, s₂⟩ := q
    · exact hcre.mono (by omega)
    · exact (hcre.trans (grows_refillFromSpan M _ k a count s₂)).mono (by omega)

def Limited (s : State) : Prop := ∀ e, (s.bins e).count ≤ cacheMax

theorem Limited.of_le (h : Limited s) (hle : ∀ e, (t.bins e).count ≤ (s.bins e).count) : Limited t :=
  fun e => (hle e).trans (h e)

theorem Limited.of_bins (h : Limited s) (hbn : t.bins = s.bins) : Limited t :=
  h.of_le fun e => by rw [hbn]

theorem Limited.cachePop (h : Limited s) (hgd : Good M s) (x : Env) (hk : k < sizeClassCount) :
    Limited (cachePop M x k s).2 := by
  have htk : ∀ {e : Bin} {t : State}, Good M t → (t.bins e).head ≠ 0 → Limited t →
      Limited (cacheTake M e t).2 := by
    intro e t ht hhd hlim
    obtain ⟨loc, c, hI⟩ := ht
    obtain ⟨hcnt, hrs⟩ := hI.binPop_count hhd
    refine hlim.of_le fun f => ?_
    have hbn : (cacheTake M e t).2.bins = (binPop e t).bins := rfl
    rw [hbn]
    by_cases hf : f = e
    · rw [hf]
      omega
    · rw [hrs f hf]
  unfold Memory.cachePop
  dsimp only
  by_cases hemp : (s.bins (.cache (memoryCurrentP x) k)).head = 0
  · rw [if_pos hemp]
    obtain ⟨hfil, -, hhd⟩ := good_refillCache hgd x hk
    have hgro := grows_refillCache hgd x hk
    have hlim : Limited (refillCache M x k s).2 := by
      intro e
      by_cases he : e = .cache (memoryCurrentP x) k
      · obtain ⟨loc, c, hI⟩ := hgd
        have hzr := hI.count_of_null hemp
        have hsl := hgro.self
        rw [he]
        have hmax : cacheRefill ≤ cacheMax := by decide
        omega
      · exact (hgro.others e he).trans (h e)
    generalize refillCache M x k s = r at hfil hhd hlim ⊢
    obtain ⟨status, t⟩ := r
    cases status with
    | ok => exact htk hfil (hhd rfl) hlim
    | _ => exact hlim
  · rw [if_neg hemp]
    exact htk hgd hemp h

theorem Limited.mallocLocked (h : Limited s) (hgd : Good M s) (x : Env) (size : ℕ) :
    Limited (mallocLocked M x size s).2 := by
  unfold Memory.mallocLocked
  dsimp only
  split_ifs with hcan hlar
  · exact h
  · -- a large object is not in a list
    refine h.of_bins ?_
    unfold mallocLarge
    dsimp only
    split_ifs
    · rfl
    · rfl
    · rfl
    rcases pageHeapAcquire_cases M x
      ((M.headerSize + size + M.suffixSize + s.pageSize - 1) / s.pageSize) s with
      heq | ⟨a, -, -, heq⟩
    · rw [heq]
    · rw [heq]
      dsimp only
      rw [bins_debugPrepare]
      rfl
  · have hctd := (hgd.countCacheHit x (sizeClassIndex size)).1
    have hlim : Limited (countCacheHit x (sizeClassIndex size) s) := by
      refine h.of_bins ?_
      unfold countCacheHit
      split_ifs <;> rfl
    have hpop := hlim.cachePop hctd x (not_le.mp hlar)
    generalize Memory.cachePop M x (sizeClassIndex size) _ = r at hpop ⊢
    obtain ⟨_ | user, t⟩ := r
    · exact hpop
    · refine hpop.of_bins ?_
      dsimp only [mallocFinish]
      rw [bins_debugPrepare]
      rfl

theorem Limited.malloc (h : Limited s) (hpg : spanSize ≤ M.pageSize) (hrdy : Ready M s)
    (x : Env) (size : ℕ) : Limited (malloc M x size s).2 := by
  rcases malloc_cases hpg hrdy x size with ⟨rfl, heq⟩ | ⟨t, ht, hsta, heq⟩
  · rw [heq]
    exact h
  · have hlim : Limited t := by
      rcases hsta with rfl | ⟨rfl, rfl⟩
      · exact h
      · exact fun e => h e
    rw [heq]
    exact hlim.mallocLocked ht x _

theorem drainLoop_count (x : Env) (d : Bin) : ∀ (n : ℕ) (s : State), Good M s →
    (∀ e, ((drainLoop M x d n s).bins e).count ≤ (s.bins e).count) ∧
      (0 < n → (s.bins d).head ≠ 0 → ((drainLoop M x d n s).bins d).count < (s.bins d).count)
  | 0, s, _ => ⟨fun _ => le_rfl, fun hn => absurd hn (Nat.lt_irrefl 0)⟩
  | n + 1, s, h => by
    rw [drainLoop]
    split_ifs with hhd
    · exact ⟨fun _ => le_rfl, fun _ hne => absurd hhd hne⟩
    · obtain ⟨loc, c, hI⟩ := h
      obtain ⟨hcnt, hrs⟩ := hI.binPop_count hhd
      -- one turn takes the head of the list
      obtain ⟨hgd, -, a, -, hone⟩ := hI.drainOne x hhd
      have hbn : (drainOne M x d s).bins = (binPop d s).bins := by
        rw [hone, (spanReclaimIfEmpty_same x a _).1]
        unfold spanMoveToCentral
        split_ifs <;> rfl
      have hlp := (drainLoop_count x d n _ hgd).1
      have htr : ∀ e, ((drainOne M x d s).bins e).count ≤ (s.bins e).count := by
        intro e
        rw [hbn]
        by_cases he : e = d
        · rw [he]
          omega
        · rw [hrs e he]
      refine ⟨fun e => (hlp e).trans (htr e), fun _ _ => ?_⟩
      have hsl := hlp d
      rw [hbn] at hsl
      omega

theorem grows_cacheGive (M : Platform) (d : Bin) (header user : ℕ) (s : State) :
    Grows d 1 s (cacheGive M d header user (markFree header s)) ∧
      ((cacheGive M d header user (markFree header s)).bins d).head = user := by
  have hbef : (poison M user ((markFree header s).headers header).capacity
      (countCrossPFree d (markFree header s))).bins = s.bins := by
    have hcro : (countCrossPFree d (markFree header s)).bins = s.bins := by
      unfold countCrossPFree
      split <;> rfl
    rw [← hcro]
    unfold poison
    split_ifs <;> rfl
  unfold cacheGive
  generalize poison M user ((markFree header s).headers header).capacity
    (countCrossPFree d (markFree header s)) = t at hbef ⊢
  have hbn : (cacheLink M d header user t).bins = (binPush M d user t).bins := rfl
  have hps := (Grows.of_bins (d := d) (n := 0) hbef).trans (grows_binPush M d user t)
  refine ⟨⟨?_, fun e he => ?_⟩, ?_⟩
  · rw [hbn]
    have hsl := hps.self
    omega
  · rw [hbn]
    exact hps.others e he
  · rw [hbn]
    exact binPush_head M d user t

def RemoteRoom (M : Platform) (s : State) : Env × Call → Prop
  | (x, .free ptr) =>
    let hd := s.headers (ptr - M.headerSize)
    s.holds ptr = true → hd.kind = .small → memoryCurrentP x ≠ hd.ownerP →
      (s.bins (.remote hd.ownerP (s.spans hd.span).classIndex)).count < cacheMax
  | _ => True

theorem Limited.free (h : Limited s) (hgd : Good M s) (hb : b ∈ s.live)
    (hrm : RemoteRoom M s (x, .free b.ptr)) : Limited (free M x b.ptr s) := by
  have hhl : s.holds b.ptr = true := any_eq_true.mpr ⟨b, hb, by simp⟩
  obtain ⟨loc, c, hI⟩ := hgd
  obtain ⟨a, ha, i, hi, hu, hkn, heq⟩ | ⟨l, hl, hu, -, heq⟩ := hI.free_cases x hb
  · have hp := (hI.layout.spans a ha).ownerP
    have hhea := hI.headers.slot a ha i hi
    have hcl : b.ptr - M.headerSize = s.cellAt a i := by rw [hu, State.slot_sub]
    have hrm := hrm hhl hkn
    rw [hcl, hhea.ownerP, hhea.span] at hrm
    rw [heq, hI.cachePush_eq x ha hi rfl rfl]
    obtain ⟨hgiv, -, hcla⟩ := hI.give ha hi hb hu (pushBin_fits x hp a _) rfl
    have hgd : Good M _ := ⟨_, _, hgiv⟩
    obtain ⟨hgro, hhd⟩ := grows_cacheGive M
      (pushBin x (s.spans a).ownerP (s.spans a).classIndex) (s.cellAt a i) (s.slot M a i) s
    have hnl : s.slot M a i ≠ 0 := by
      have hhdr := M.headerSize_cases
      have hle : M.headerSize ≤ s.slot M a i := Nat.le_add_left _ _
      omega
    generalize cacheGive M (pushBin x (s.spans a).ownerP (s.spans a).classIndex) (s.cellAt a i)
      (s.slot M a i) (markFree (s.cellAt a i) s) = t at hgd hcla hgro hhd ⊢
    rw [hcla]
    by_cases hown : memoryCurrentP x = (s.spans a).ownerP
    · -- the list that is tested is the one that is drained
      have hbin : pushBin x (s.spans a).ownerP (s.spans a).classIndex =
          .cache (memoryCurrentP x) (s.spans a).classIndex := by
        unfold pushBin
        rw [if_pos hp]
        dsimp only
        rw [if_neg (not_not.mpr hown), hown]
      rw [hbin] at hgro hhd ⊢
      split_ifs with hvr
      · have hdra := drainLoop_count x (.cache (memoryCurrentP x) (s.spans a).classIndex)
          cacheRefill _ hgd
        rw [drainLoop_withLive] at hdra
        obtain ⟨hle, hlt⟩ := hdra
        have hls := hlt (by decide) (by
          show (t.bins _).head ≠ 0
          rw [hhd]
          exact hnl)
        intro e
        by_cases he : e = .cache (memoryCurrentP x) (s.spans a).classIndex
        · have hsl := hgro.self
          have hlim := h (.cache (memoryCurrentP x) (s.spans a).classIndex)
          have hls : ((drainCache M x (s.spans a).classIndex t).bins
              (.cache (memoryCurrentP x) (s.spans a).classIndex)).count <
                (t.bins (.cache (memoryCurrentP x) (s.spans a).classIndex)).count := hls
          rw [he]
          omega
        · exact (hle e).trans ((hgro.others e he).trans (h e))
      · intro e
        by_cases he : e = .cache (memoryCurrentP x) (s.spans a).classIndex
        · rw [he]
          exact not_lt.mp hvr
        · exact (hgro.others e he).trans (h e)
    · -- the remote queue had room, so the test fails
      have hbin : pushBin x (s.spans a).ownerP (s.spans a).classIndex =
          .remote (s.spans a).ownerP (s.spans a).classIndex := by
        unfold pushBin
        rw [if_pos hp]
        dsimp only
        rw [if_pos hown]
      rw [hbin] at hgro ⊢
      have hsl := hgro.self
      have hls := hrm hown
      rw [if_neg (by omega)]
      intro e
      by_cases he : e = .remote (s.spans a).ownerP (s.spans a).classIndex
      · rw [he]
        omega
      · exact (hgro.others e he).trans (h e)
  · obtain ⟨mapped, mappedBytes, -, hrel⟩ := pageHeapRelease_eq x l (s.headers l).mappingSize
      (largeRemove l (markFree l s))
    rw [heq, hrel]
    exact h

def Call.mallocOrFree : Call → Bool
  | .malloc _ | .free _ => true
  | _ => false

theorem Limited.step (h : Limited s) (hpg : spanSize ≤ M.pageSize) (hrdy : Ready M s)
    {call : Call} (hca : call.mallocOrFree = true) (hrm : RemoteRoom M s (x, call))
    (hst : step M s (x, call) = some t) : Limited t := by
  cases call with
  | malloc size =>
    simp only [Memory.step] at hst
    split_ifs at hst with hsz
    cases hst
    refine (h.malloc hpg hrdy x size).of_bins ?_
    unfold State.gain
    split_ifs <;> rfl
  | free ptr =>
    simp only [Memory.step] at hst
    split_ifs at hst with hptr
    cases hst
    rcases hptr with rfl | hptr
    · exact h
    · obtain ⟨b, hb, rfl⟩ := State.mem_of_holds hptr
      exact h.free (hrdy.good hb) hb hrm
  | calloc _ _ | realloc _ _ | write _ _ _ => exact absurd hca (by simp [Call.mallocOrFree])

/-- **Bounded free lists.** -/
theorem limit_of_run (hpg : spanSize ≤ M.pageSize) {calls : List (Env × Call)}
    (hcs : ∀ l ∈ calls, l.2.mallocOrFree = true)
    (hrm : Trans.Meets (Memory.step M) (RemoteRoom M) State.initial calls)
    (hrun : Trans.run (Memory.step M) State.initial calls = some s) (e : Bin) :
    ∃ l, Links s.link 0 (s.bins e).head l ∧ (s.bins e).count = l.length ∧ l.length ≤ cacheMax := by
  have hkin : Trans.Meets (Memory.step M) (fun _ l => l.2.mallocOrFree = true) State.initial
      calls := Trans.meets_of_forall (fun l hl _ => hcs l hl) State.initial
  have hbt : Ready M s ∧ Limited s := Trans.run_invariant_of_meets
    (I := fun s => Ready M s ∧ Limited s)
    (fun s l t hs hl hI => ⟨hI.1.step hpg hs, hI.2.step hpg hI.1 hl.1 hl.2 hs⟩) hrun
    (hkin.and hrm) ⟨Or.inl rfl, fun _ => Nat.zero_le _⟩
  obtain ⟨rfl | ⟨loc, c, hI⟩, hlim⟩ := hbt
  · exact ⟨[], rfl, rfl, Nat.zero_le _⟩
  · have hcnt := hI.lists.binCount e
    exact ⟨c (.bin e), hI.lists.links (.bin e) trivial, hcnt, hcnt ▸ hlim e⟩

instance (M : Platform) (s : State) : ∀ l, Decidable (RemoteRoom M s l)
  | (x, .free ptr) => inferInstanceAs (Decidable (s.holds ptr = true →
      (s.headers (ptr - M.headerSize)).kind = .small →
      memoryCurrentP x ≠ (s.headers (ptr - M.headerSize)).ownerP →
      (s.bins (.remote (s.headers (ptr - M.headerSize)).ownerP
        (s.spans (s.headers (ptr - M.headerSize)).span).classIndex)).count < cacheMax))
  | (_, .malloc _) | (_, .calloc _ _) | (_, .realloc _ _) | (_, .write _ _ _) =>
    inferInstanceAs (Decidable True)

theorem limit_crossPCalls : ∃ s, Trans.run (Memory.step ⟨true, 4096⟩) State.initial crossPCalls =
    some s ∧ ∀ e, ∃ l, Links s.link 0 (s.bins e).head l ∧ (s.bins e).count = l.length ∧
      l.length ≤ cacheMax := by
  have hrm : Trans.Meets (Memory.step ⟨true, 4096⟩) (RemoteRoom ⟨true, 4096⟩) State.initial
      crossPCalls :=
    Trans.meets_of_checks (c := fun s l => decide (RemoteRoom ⟨true, 4096⟩ s l))
      (fun s l h => of_decide_eq_true h) (by decide +kernel)
  obtain ⟨s, hrun, -⟩ := Option.map_eq_some_iff.mp crossPCalls_live
  exact ⟨s, hrun, limit_of_run (by decide) (by decide) hrm hrun⟩

def remoteFrees : List (Env × Call) :=
  (List.range 65).map (fun i => (⟨0, some (131072 * (i + 1)), fun _ => true⟩, .malloc 8192)) ++
    (List.range 65).map (fun i => (⟨1, none, fun _ => true⟩,
      .free (131072 * (i / 7 * 7 + 1) + 4176 + 8272 * (i % 7))))

theorem remoteFrees_count : (Trans.run (Memory.step ⟨false, 4096⟩) State.initial remoteFrees).map
    (fun s => (s.bins (.remote 0 33)).count) = some 65 := by
  decide +kernel

/-- **The remote queue of P 0 holds 65 objects.** -/
theorem remoteFrees_over_limit : ∃ s l, (∀ c ∈ remoteFrees, c.2.mallocOrFree = true) ∧
    Trans.run (Memory.step ⟨false, 4096⟩) State.initial remoteFrees = some s ∧
    Links s.link 0 (s.bins (.remote 0 33)).head l ∧ (s.bins (.remote 0 33)).count = l.length ∧
    cacheMax < l.length := by
  obtain ⟨s, hrun, hcnt⟩ := Option.map_eq_some_iff.mp remoteFrees_count
  rcases ready_of_run (by decide) hrun with rfl | ⟨loc, c, hI⟩
  · exact absurd hcnt (by decide)
  · have hlen := hI.lists.binCount (.remote 0 33)
    have hcs : ∀ l ∈ remoteFrees, l.2.mallocOrFree = true := by
      intro l hl
      rcases mem_append.mp hl with hl | hl
      all_goals
        obtain ⟨i, -, rfl⟩ := mem_map.mp hl
        rfl
    refine ⟨s, c (.bin (.remote 0 33)), hcs, hrun,
      hI.lists.links (.bin (.remote 0 33)) trivial, hlen, ?_⟩
    rw [← hlen, hcnt]
    decide

end Veloco.Memory
