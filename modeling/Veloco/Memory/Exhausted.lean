import Veloco.Memory.CacheLimit

/-!
# When `vl_malloc` of a small size answers `NULL`

`vl_refill_cache` moves objects of the remote queue into the cache before it looks for a span, and answers
with an error if it can neither find nor create one, whatever it has moved. So a failed call does not
always mean that nothing was free: `malloc_null` says exactly in which states it does.

`refillRemote_count` counts what is moved, `refillCache_fails` and `refillCache_short` say when the refill
fails, and `mallocLocked_null` carries both through `vl_cache_pop`.
-/

namespace Veloco.Memory

open Veloco.Bytes Veloco.Word

variable {M : Platform} {x : Env} {s t : State} {loc : ℕ → Place} {c : Place → List ℕ}
  {a k n p count size : ℕ}

theorem Inv.remoteToCache_span (h : Inv M s loc c) (hhd : (s.bins (.remote p k)).head ≠ 0)
    (ha : a ∈ s.allSpans) :
    (binPush M (.cache p k) (s.bins (.remote p k)).head (binPop (.remote p k) s)).spans a =
      s.spans a := by
  have hls : s.HasList (.bin (.remote p k)) := trivial
  obtain ⟨b, hb, i, hi, hu, -⟩ := h.lists.head_slot hls hhd
  simp only [State.head] at hu
  rw [hu]
  exact h.layout.setLink_span hb hi 0 ha

theorem refillRemote_span (p k : ℕ) : ∀ (n count : ℕ) (s : State), Good M s →
    ∀ a ∈ s.allSpans, (refillRemote M p k n count s).2.spans a = s.spans a
  | 0, _, _, _ => fun _ _ => rfl
  | n + 1, count, s, h => by
    intro a ha
    rw [refillRemote]
    by_cases hhd : (s.bins (.remote p k)).head = 0
    · rw [if_pos hhd]
    · rw [if_neg hhd]
      obtain ⟨loc, c, hI⟩ := h
      have hone := hI.remoteToCache hhd
      rw [refillRemote_span p k n (count + 1) _ hone.good a (by rw [hone.layout.allSpans]; exact ha)]
      exact hI.remoteToCache_span hhd ha

theorem refillRemote_count (p k : ℕ) : ∀ (n count : ℕ) (s : State), Good M s →
    (refillRemote M p k n count s).1 = count + min n (s.bins (.remote p k)).count
  | 0, _, _, _ => by rw [Nat.zero_min]; rfl
  | n + 1, count, s, h => by
    obtain ⟨loc, c, hI⟩ := h
    rw [refillRemote]
    by_cases hhd : (s.bins (.remote p k)).head = 0
    · rw [if_pos hhd, hI.count_of_null hhd, Nat.min_zero]
      rfl
    obtain ⟨hpop, -⟩ := hI.binPop_count hhd
    rw [if_neg hhd, refillRemote_count p k n (count + 1) _ (hI.remoteToCache hhd).good]
    have hkeep : (binPush M (.cache p k) (s.bins (.remote p k)).head
        (binPop (.remote p k) s)).bins (.remote p k) = (binPop (.remote p k) s).bins (.remote p k) := by
      simp [binPush, State.setBin, State.setLink, State.overwrite]
    rw [hkeep]
    omega

theorem le_refillCentral (M : Platform) (p k a : ℕ) : ∀ (n count : ℕ) (s : State),
    count ≤ (refillCentral M p k a n count s).1
  | 0, _, _ => le_rfl
  | n + 1, count, s => by
    rw [refillCentral]
    by_cases hhd : (s.spans a).centralFree = 0
    · rw [if_pos hhd]
    · rw [if_neg hhd]
      exact (Nat.le_succ count).trans (le_refillCentral M p k a n (count + 1) _)

theorem refillFromSpan_ok (M : Platform) (p k : ℕ) (hcnt : count < cacheRefill)
    (h : 0 < count ∨ (s.spans a).centralFree ≠ 0) :
    (refillFromSpan M p k a count s).1 = .ok := by
  have hpos : 0 < (refillCentral M p k a (cacheRefill - count) count s).1 := by
    rcases h with hpos | hhd
    · exact lt_of_lt_of_le hpos (le_refillCentral M p k a _ count s)
    · obtain ⟨n, hn⟩ := Nat.exists_eq_succ_of_ne_zero (Nat.sub_ne_zero_of_lt hcnt)
      rw [hn, refillCentral, if_neg hhd]
      exact lt_of_lt_of_le (Nat.succ_pos count) (le_refillCentral M p k a n (count + 1) _)
  unfold refillFromSpan
  split
  · next heq =>
      rw [heq] at hpos
      exact absurd hpos (lt_irrefl 0)
  · rfl

theorem pageHeapAcquire_fst_eq (M : Platform) (x : Env) (pages : ℕ)
    (hsm : SameLayout s t) (hbyt : t.stats.mappedBytes = s.stats.mappedBytes) :
    (pageHeapAcquire M x pages t).1 = (pageHeapAcquire M x pages s).1 := by
  have hfre : ∀ b m, t.Fresh b m ↔ s.Fresh b m := by
    intro b m
    unfold State.Fresh
    rw [hsm.pageSize, hsm.mapped]
  have hmm : ∀ m, t.mmap x m = s.mmap x m := by
    intro m
    unfold State.mmap
    simp only [hfre]
  unfold pageHeapAcquire
  rw [hsm.initialized, hsm.pageSize, hbyt]
  dsimp only
  rw [hmm]
  by_cases hbad : s.initialized = false ∨ pages = 0 ∨ pages > sizeMax / s.pageSize
  · rw [if_pos hbad, if_pos hbad]
  rw [if_neg hbad, if_neg hbad]
  by_cases hfu : s.stats.mappedBytes > sizeMax - pages * s.pageSize
  · rw [if_pos hfu, if_pos hfu]
  rw [if_neg hfu, if_neg hfu]
  cases s.mmap x (pages * s.pageSize) <;> rfl

theorem pageHeapAcquire_pageSize (M : Platform) (x : Env) (pages : ℕ) (s : State) :
    (pageHeapAcquire M x pages s).2.pageSize = s.pageSize := by
  rcases pageHeapAcquire_cases M x pages s with heq | ⟨a, -, -, heq⟩
  · rw [heq]
  · rw [heq]
    rfl

theorem spanCreate_fst_eq (M : Platform) (x : Env) (k : ℕ) (hsm : SameLayout s t)
    (hbyt : t.stats.mappedBytes = s.stats.mappedBytes) :
    (spanCreate M x k t).1 = (spanCreate M x k s).1 := by
  unfold spanCreate
  by_cases hk : sizeClassCount ≤ k
  · rw [if_pos hk, if_pos hk]
  rw [if_neg hk, if_neg hk, hsm.pageSize]
  dsimp only
  generalize (spanObjectArea (spanObjectStride M (sizeClassCapacity k)) + s.pageSize - 1) /
    s.pageSize = pages
  by_cases hbad : pages = 0 ∨ pages = sizeMax
  · rw [if_pos hbad, if_pos hbad]
  rw [if_neg hbad, if_neg hbad]
  have hfst := pageHeapAcquire_fst_eq M x (pages + 1) hsm hbyt
  have hpg := pageHeapAcquire_pageSize M x (pages + 1) s
  have hpage' := pageHeapAcquire_pageSize M x (pages + 1) t
  rw [hsm.pageSize] at hpage'
  generalize pageHeapAcquire M x (pages + 1) s = u at hfst hpg ⊢
  generalize pageHeapAcquire M x (pages + 1) t = v at hfst hpage' ⊢
  obtain ⟨r, s₁⟩ := u
  obtain ⟨r', t₁⟩ := v
  obtain rfl : r' = r := hfst
  cases r' with
  | none => rfl
  | some region =>
    dsimp only at hpg hpage' ⊢
    rw [hpg, hpage']
    split_ifs <;> rfl

theorem Layout.central_empty (hL : Layout M s) : findRefillSpan k s = none ↔
    ∀ a ∈ s.allSpans, (s.spans a).classIndex = k → (s.spans a).centralFree = 0 := by
  refine List.find?_eq_none.trans ⟨fun h a ha hk => ?_, fun h a ha => ?_⟩
  · simpa using h a ((hL.mem_central k a).mpr ⟨ha, hk⟩)
  · obtain ⟨hmem, hk⟩ := (hL.mem_central k a).mp ha
    simpa using h a hmem hk

theorem refillCache_fails (h : Good M s) (x : Env) (k : ℕ)
    (hfl : (refillCache M x k s).1 ≠ .ok) :
    findRefillSpan k s = none ∧ (s.bins (.remote (memoryCurrentP x) k)).count < cacheRefill ∧
      ((s.bins (.remote (memoryCurrentP x) k)).head ≠ 0 → ∀ a, (spanCreate M x k s).1 ≠ .ok a) := by
  have hqui := quiet_refillRemote (memoryCurrentP x) k cacheRefill 0 s h
  have hsp := refillRemote_span (memoryCurrentP x) k cacheRefill 0 s h
  have hsta := refillRemote_stats M (memoryCurrentP x) k cacheRefill 0 s
  have hcnt := refillRemote_count (memoryCurrentP x) k cacheRefill 0 s h
  rw [refillCache] at hfl
  dsimp only at hfl
  generalize refillRemote M (memoryCurrentP x) k cacheRefill 0 s = r at *
  obtain ⟨count, s₁⟩ := r
  dsimp only at hqui hsp hsta hcnt hfl
  by_cases hfil : count = cacheRefill
  · rw [if_pos hfil] at hfl
    exact absurd rfl hfl
  rw [if_neg hfil] at hfl
  have hlt : count < cacheRefill := by omega
  cases hfou : findRefillSpan k s with
  | some a =>
    -- the span that was found still has its object
    rw [hfou] at hfl
    have hne : (s.spans a).centralFree ≠ 0 := by simpa using List.find?_some hfou
    obtain ⟨loc, c, hI⟩ := h
    rw [← hsp a (findRefillSpan_mem hI.layout hfou).1] at hne
    exact absurd (refillFromSpan_ok M _ k hlt (Or.inr hne)) hfl
  | none =>
    rw [hfou] at hfl
    refine ⟨rfl, by omega, fun hhd a hok => ?_⟩
    · have hcre := spanCreate_fst_eq M x k hqui.layout (by rw [hsta])
      rw [hok] at hcre
      generalize spanCreate M x k s₁ = r at hcre hfl
      obtain ⟨r, s₂⟩ := r
      obtain rfl : r = .ok a := hcre
      have hpos : (s.bins (.remote (memoryCurrentP x) k)).count ≠ 0 := by
        obtain ⟨loc, c, hI⟩ := h
        have hpop := (hI.binPop_count hhd).1
        omega
      exact hfl (refillFromSpan_ok M _ k hlt (Or.inl (by omega)))

/-- Fewer objects than a refill takes, and no span to take the rest from: the refill fails. -/
theorem refillCache_short (h : Good M s) (x : Env) (k : ℕ) (hfou : findRefillSpan k s = none)
    (hcnt : (s.bins (.remote (memoryCurrentP x) k)).count < cacheRefill)
    (hcre : ∀ a, (spanCreate M x k s).1 ≠ .ok a) : (refillCache M x k s).1 ≠ .ok := by
  have hqui := quiet_refillRemote (memoryCurrentP x) k cacheRefill 0 s h
  have hsta := refillRemote_stats M (memoryCurrentP x) k cacheRefill 0 s
  have hmov := refillRemote_count (memoryCurrentP x) k cacheRefill 0 s h
  rw [refillCache, hfou]
  dsimp only
  generalize refillRemote M (memoryCurrentP x) k cacheRefill 0 s = r at *
  obtain ⟨count, s₁⟩ := r
  dsimp only at hqui hsta hmov ⊢
  have hsm := spanCreate_fst_eq M x k hqui.layout (by rw [hsta])
  rw [if_neg (by omega)]
  generalize spanCreate M x k s₁ = r at hsm ⊢
  obtain ⟨_ | a, s₂⟩ := r
  · exact fun hok => by cases hok
  · exact absurd hsm.symm (hcre a)

theorem cachePop_null (h : Good M s) (hk : k < sizeClassCount) :
    (cachePop M x k s).1 = 0 ↔
      (s.bins (.cache (memoryCurrentP x) k)).head = 0 ∧ (refillCache M x k s).1 ≠ .ok := by
  unfold cachePop
  dsimp only
  by_cases hemp : (s.bins (.cache (memoryCurrentP x) k)).head = 0
  · rw [if_pos hemp]
    obtain ⟨-, -, hhd⟩ := good_refillCache h x hk
    generalize refillCache M x k s = r at hhd ⊢
    obtain ⟨status, t⟩ := r
    cases status with
    | ok => exact ⟨fun hnl => absurd hnl (hhd rfl), fun h => absurd rfl h.2⟩
    | _ => exact ⟨fun _ => ⟨hemp, fun hok => by cases hok⟩, fun _ => rfl⟩
  · rw [if_neg hemp]
    exact ⟨fun hnl => absurd hnl hemp, fun h => absurd h.1 hemp⟩

/-- The calling P has no free object of the class in its cache and its remote queue, and no span has one. -/
structure NothingFree (x : Env) (k : ℕ) (s : State) : Prop where
  cache : (s.bins (.cache (memoryCurrentP x) k)).head = 0
  remote : (s.bins (.remote (memoryCurrentP x) k)).head = 0
  central : ∀ a ∈ s.allSpans, (s.spans a).classIndex = k → (s.spans a).centralFree = 0

/-- The remote queue of the calling P holds objects, but fewer than a refill takes, nothing else is free,
and no span can be created in this call. -/
structure Stranded (M : Platform) (x : Env) (k : ℕ) (s : State) : Prop where
  cache : (s.bins (.cache (memoryCurrentP x) k)).head = 0
  remote : (s.bins (.remote (memoryCurrentP x) k)).head ≠ 0
  few : (s.bins (.remote (memoryCurrentP x) k)).count < cacheRefill
  central : ∀ a ∈ s.allSpans, (s.spans a).classIndex = k → (s.spans a).centralFree = 0
  create : ∀ a, (spanCreate M x k s).1 ≠ .ok a

theorem countCacheHit_same (x : Env) (k : ℕ) (s : State) :
    SameLayout s (countCacheHit x k s) ∧
      (countCacheHit x k s).stats.mappedBytes = s.stats.mappedBytes ∧
      (countCacheHit x k s).bins = s.bins ∧
      findRefillSpan k (countCacheHit x k s) = findRefillSpan k s := by
  unfold countCacheHit
  split_ifs
  · refine ⟨⟨⟨rfl, rfl, rfl, ?_, ?_⟩, rfl, rfl, rfl, rfl⟩, rfl, rfl, rfl⟩
    · exact fun a _ => Span.Like.refl _
    · exact fun a _ => Header.Like.refl _
  · exact ⟨SameLayout.refl s, rfl, rfl, rfl⟩

theorem mallocLocked_null (x : Env) (hcan : statsCanAllocate size s = true)
    (hsma : sizeClassIndex size < sizeClassCount) :
    (mallocLocked M x size s).1 = 0 ↔
      (cachePop M x (sizeClassIndex size) (countCacheHit x (sizeClassIndex size) s)).1 = 0 := by
  rw [mallocLocked, if_neg (by rw [hcan]; decide)]
  dsimp only
  rw [if_neg (not_le.mpr hsma)]
  generalize cachePop M x (sizeClassIndex size) (countCacheHit x (sizeClassIndex size) s) = r
  obtain ⟨_ | user, u⟩ := r
  · exact Iff.rfl
  · exact Iff.rfl

/-- **A small allocation fails only when nothing is free**, exactly when the calling P's remote queue is
not stranded. -/
theorem malloc_null (hpg : spanSize ≤ M.pageSize) {calls : List (Env × Call)}
    (hrun : Trans.run (Memory.step M) State.initial calls = some s) (x : Env) (size : ℕ)
    (hsma : sizeClassIndex (requestSize size) < sizeClassCount)
    (hcan : statsCanAllocate (requestSize size) s = true) :
    ((malloc M x size s).1 = 0 → NothingFree x (sizeClassIndex (requestSize size)) s) ↔
      ¬ Stranded M x (sizeClassIndex (requestSize size)) s := by
  have hrdy := ready_of_run hpg hrun
  have hini : s = State.initial → (NothingFree x (sizeClassIndex (requestSize size)) s ∧
      ¬ Stranded M x (sizeClassIndex (requestSize size)) s) := by
    rintro rfl
    exact ⟨⟨rfl, rfl, fun a ha => absurd ha List.not_mem_nil⟩, fun h => h.remote rfl⟩
  rcases malloc_cases hpg hrdy x size with ⟨hs, -⟩ | ⟨t, ht, rfl | ⟨hs, -⟩, heq⟩
  · exact iff_of_true (fun _ => (hini hs).1) (hini hs).2
  · rw [heq, mallocLocked_null x hcan hsma]
    generalize sizeClassIndex (requestSize size) = k at *
    obtain ⟨hctd, -⟩ := ht.countCacheHit x k
    obtain ⟨hsm, hbyt, hbn, hsea⟩ := countCacheHit_same x k t
    have hcr := spanCreate_fst_eq M x k hsm hbyt
    obtain ⟨loc, c, hI⟩ := ht
    rw [cachePop_null hctd hsma, hbn]
    constructor
    · intro hnl hstr
      refine hstr.remote (hnl ⟨hstr.cache, ?_⟩).remote
      refine refillCache_short hctd x k ?_ ?_ ?_
      · rw [hsea]
        exact hI.layout.central_empty.mpr hstr.central
      · rw [hbn]
        exact hstr.few
      · rw [hcr]
        exact hstr.create
    · rintro hstr ⟨hcac, hfl⟩
      obtain ⟨hfou, hcnt, hcre⟩ := refillCache_fails hctd x k hfl
      rw [hbn] at hcnt hcre
      rw [hsea] at hfou
      rw [hcr] at hcre
      have hcen := hI.layout.central_empty.mp hfou
      refine ⟨hcac, ?_, hcen⟩
      by_contra hhd
      exact hstr ⟨hcac, hhd, hcnt, hcen, hcre hhd⟩
  · exact iff_of_true (fun _ => (hini hs).1) (hini hs).2

def wholeSpanCalls (rest : List (Env × Call)) : List (Env × Call) :=
  (⟨0, some 65536, fun _ => true⟩, .malloc 30000) ::
    (⟨0, none, fun _ => true⟩, .malloc 32768) :: rest

theorem wholeSpanCalls_null :
    (Trans.run (Memory.step ⟨true, 4096⟩) State.initial (wholeSpanCalls [])).map (fun s =>
      ((malloc ⟨true, 4096⟩ ⟨0, none, fun _ => true⟩ 32768 s).1,
        statsCanAllocate (requestSize 32768) s,
        (s.bins (.remote 0 (sizeClassIndex (requestSize 32768)))).head)) = some (0, true, 0) := by
  decide +kernel

theorem malloc_null_wholeSpan : ∃ s,
    Trans.run (Memory.step ⟨true, 4096⟩) State.initial (wholeSpanCalls []) = some s ∧
      (malloc ⟨true, 4096⟩ ⟨0, none, fun _ => true⟩ 32768 s).1 = 0 ∧
      NothingFree ⟨0, none, fun _ => true⟩ (sizeClassIndex (requestSize 32768)) s := by
  obtain ⟨s, hrun, heq⟩ := Option.map_eq_some_iff.mp wholeSpanCalls_null
  simp only [Prod.mk.injEq] at heq
  obtain ⟨hnl, hcan, hhd⟩ := heq
  exact ⟨s, hrun, hnl, (malloc_null (by decide) hrun _ 32768 (by decide +kernel) hcan).mpr
    (fun h => h.remote hhd) hnl⟩

def strandedCalls : List (Env × Call) := wholeSpanCalls [(⟨1, none, fun _ => true⟩, .free 69728)]

theorem strandedCalls_null :
    (Trans.run (Memory.step ⟨true, 4096⟩) State.initial strandedCalls).map (fun s =>
      ((malloc ⟨true, 4096⟩ ⟨0, none, fun _ => true⟩ 32768 s).1,
        statsCanAllocate (requestSize 32768) s,
        (s.bins (.remote 0 (sizeClassIndex (requestSize 32768)))).head)) =
      some (0, true, 69728) := by
  decide +kernel

/-- **P 0 gets `NULL` although its remote queue holds an object** -/
theorem strandedCalls_remote : ∃ s,
    Trans.run (Memory.step ⟨true, 4096⟩) State.initial strandedCalls = some s ∧
      sizeClassIndex (requestSize 32768) < sizeClassCount ∧
      statsCanAllocate (requestSize 32768) s = true ∧
      (malloc ⟨true, 4096⟩ ⟨0, none, fun _ => true⟩ 32768 s).1 = 0 ∧
      ¬ NothingFree ⟨0, none, fun _ => true⟩ (sizeClassIndex (requestSize 32768)) s := by
  obtain ⟨s, hrun, heq⟩ := Option.map_eq_some_iff.mp strandedCalls_null
  simp only [Prod.mk.injEq] at heq
  obtain ⟨hnl, hcan, hhd⟩ := heq
  refine ⟨s, hrun, by decide +kernel, hcan, hnl, fun hfr => ?_⟩
  have hrem := hfr.remote
  rw [show memoryCurrentP ⟨0, none, fun _ => true⟩ = 0 from rfl, hhd] at hrem
  exact absurd hrem (by decide)

end Veloco.Memory
