import Veloco.Memory.Arena
import Veloco.Memory.Books

/-!
# The tests of the statistics
-/

namespace Veloco.Memory

open List
open Veloco.Bytes Veloco.Word

inductive Guard where
  | free (activeObjects activeBytes requested : ℕ)
  | resize (activeBytes requested size : ℕ)
  | release (mappedBytes mappedSize : ℕ)
  deriving DecidableEq, Repr

def Guard.passes : Guard → Prop
  | .free activeObjects activeBytes requested => activeObjects ≠ 0 ∧ requested ≤ activeBytes
  | .resize activeBytes requested size =>
    requested ≤ activeBytes ∧ activeBytes - requested ≤ sizeMax - size
  | .release mappedBytes mappedSize => mappedSize ≤ mappedBytes

def Passed (gs : List Guard) : Prop := ∀ g ∈ gs, g.passes

theorem passed_nil : Passed [] := fun _ hg => absurd hg not_mem_nil

theorem passed_cons {g : Guard} {gs : List Guard} (hg : g.passes) (hgs : Passed gs) :
    Passed (g :: gs) := by
  intro g' hg'
  rcases mem_cons.mp hg' with rfl | hg'
  · exact hg
  · exact hgs g' hg'

theorem passed_append {gs gs' : List Guard} (h : Passed gs) (h' : Passed gs') : Passed (gs ++ gs') :=
  fun g hg => (mem_append.mp hg).elim (h g) (h' g)

/-! ## The tests of a call -/

section Tests

variable (M : Platform) (x : Env)

def releaseGuards (base size : ℕ) (s : State) : List Guard :=
  if base = 0 ∨ size = 0 ∨ x.munmap base = false then []
  else [.release s.stats.mappedBytes size]

def createGuards (k : ℕ) (s : State) : List Guard :=
  if sizeClassCount ≤ k then []
  else
    let stride := spanObjectStride M (sizeClassCapacity k)
    let objectPages := (spanObjectArea stride + s.pageSize - 1) / s.pageSize
    if objectPages = 0 ∨ objectPages = sizeMax then []
    else
      match pageHeapAcquire M x (objectPages + 1) s with
      | (none, _) => []
      | (some ⟨span, mappingSize⟩, s) =>
        let sp := newSpan M x k span mappingSize s.pageSize
        if sp.objectCount = 0 then releaseGuards x span mappingSize (s.setSpan span sp) else []

def refillGuards (k : ℕ) (s : State) : List Guard :=
  let found := findRefillSpan k s
  let (count, s) := refillRemote M (memoryCurrentP x) k cacheRefill 0 s
  if count = cacheRefill then []
  else
    match found with
    | some _ => []
    | none => createGuards M x k s

def mallocGuards (size : ℕ) (s : State) : List Guard :=
  match memoryEnsureInitialized M s with
  | (.ok, s) =>
    let k := sizeClassIndex (requestSize size)
    if statsCanAllocate (requestSize size) s = false ∨ sizeClassCount ≤ k then []
    else if (s.bins (.cache (memoryCurrentP x) k)).head = 0 then
      refillGuards M x k (countCacheHit x k s)
    else []
  | (_, _) => []

def reclaimGuards (span : ℕ) (s : State) : List Guard :=
  if span = 0 ∨ (s.spans span).reclaimable = false then []
  else releaseGuards x (s.spans span).mappingBase (s.spans span).mappingSize s

/-- The tests of `drainLoop`. -/
def drainGuards (b : Bin) : ℕ → State → List Guard
  | 0, _ => []
  | n + 1, s =>
    if (s.bins b).head = 0 then []
    else
      let user := (s.bins b).head
      let span := (s.headers (user - M.headerSize)).span
      reclaimGuards x span (spanMoveToCentral M span user (binPop b s)) ++
        drainGuards b n (drainOne M x b s)

def pushGuards (header user : ℕ) (s : State) : List Guard :=
  let hd := s.headers header
  let b := pushBin x hd.ownerP (s.spans hd.span).classIndex
  let s := cacheGive M b header user s
  if (s.bins b).count > cacheMax then
    drainGuards M x (.cache (memoryCurrentP x) (s.spans (s.headers header).span).classIndex)
      cacheRefill s
  else []

def freeGuards (ptr : ℕ) (s : State) : List Guard :=
  if ptr = 0 ∨ s.initialized = false then []
  else
    let header := ptr - M.headerSize
    let hd := s.headers header
    .free s.stats.activeObjects s.stats.activeBytes hd.requestedSize ::
      match hd.kind with
      | .large =>
        releaseGuards x hd.mappingBase hd.mappingSize (largeRemove header (markFree header s))
      | .small => pushGuards M x header ptr (markFree header s)

def reallocGuards (ptr size : ℕ) (s : State) : List Guard :=
  if ptr = 0 then mallocGuards M x size s
  else if size = 0 then freeGuards M x ptr s
  else
    let hd := s.headers (ptr - M.headerSize)
    if size ≤ hd.capacity then [.resize s.stats.activeBytes hd.requestedSize size]
    else
      let copySize := if hd.requestedSize < size then hd.requestedSize else size
      mallocGuards M x size s ++
        match malloc M x size s with
        | (0, _) => []
        | (replacement + 1, s) =>
          freeGuards M x ptr (s.overwrite M (replacement + 1) copySize
            (copy s.bytes (replacement + 1) ptr copySize))

end Tests

variable {M : Platform} {x : Env} {s t : State} {extra : List Region} {loc : ℕ → Place}
  {c : Place → List ℕ} {a k n ptr size : ℕ} {b : Block}

theorem releaseGuards_passed (h : n ≤ s.stats.mappedBytes) : Passed (releaseGuards x a n s) := by
  unfold releaseGuards
  split_ifs
  · exact passed_nil
  · exact passed_cons h passed_nil

theorem createGuards_passed (h : s.books.Exact extra) : Passed (createGuards M x k s) := by
  unfold createGuards
  split_ifs with hk
  · exact passed_nil
  dsimp only
  split_ifs with hbad
  · exact passed_nil
  have hacq := acquire_exact M x
    ((spanObjectArea (spanObjectStride M (sizeClassCapacity k)) + s.pageSize - 1) /
      s.pageSize + 1) h
  generalize pageHeapAcquire M x _ s = r at hacq ⊢
  obtain ⟨_ | ⟨a, n⟩, t⟩ := r
  · exact passed_nil
  · dsimp only
    split_ifs
    · exact releaseGuards_passed (hacq.size_le (hacq.extra _ mem_cons_self))
    · exact passed_nil

theorem refillGuards_passed (h : s.books.Exact extra) : Passed (refillGuards M x k s) := by
  have hrem := books_refillRemote M (memoryCurrentP x) k cacheRefill 0 s
  unfold refillGuards
  dsimp only
  split_ifs
  · exact passed_nil
  split
  · exact passed_nil
  · rw [← hrem] at h
    exact createGuards_passed h

theorem mallocGuards_passed (hrdy : Ready M s) (h : s.books.Exact extra) (size : ℕ) :
    Passed (mallocGuards M x size s) := by
  have hens := ensure_exact hrdy h
  unfold mallocGuards
  generalize memoryEnsureInitialized M s = r at hens ⊢
  obtain ⟨status, t⟩ := r
  dsimp only at hens
  cases status with
  | ok =>
    have hctd : (countCacheHit x (sizeClassIndex (requestSize size)) t).books.Exact extra := by
      rw [books_countCacheHit]
      exact hens
    dsimp only
    split_ifs
    · exact passed_nil
    · exact refillGuards_passed hctd
    · exact passed_nil
  | _ => exact passed_nil

section Free

variable (hm : ∀ a, x.munmap a = true)

include hm

theorem reclaim_exact (hI : Inv M s loc c) (ha : a ∈ s.allSpans) (h : s.books.Exact extra) :
    (spanReclaimIfEmpty x a s).books.Exact extra ∧ Passed (reclaimGuards x a s) := by
  have hok := hI.layout.spans a ha
  rw [spanReclaimIfEmpty_eq, reclaimGuards, hok.base]
  split_ifs with hcn
  · exact ⟨h, passed_nil⟩
  · exact ⟨release_exact (hm a) (Books.Exact.disownSpan h ha hok.region),
      releaseGuards_passed (h.size_le hok.region)⟩

theorem drainLoop_exact (b : Bin) : ∀ (n : ℕ) (s : State), Good M s → s.books.Exact extra →
    (drainLoop M x b n s).books.Exact extra ∧ Passed (drainGuards M x b n s)
  | 0, s, _, h => ⟨h, passed_nil⟩
  | n + 1, s, hgd, h => by
    rw [drainLoop, drainGuards]
    split_ifs with hhd
    · exact ⟨h, passed_nil⟩
    · obtain ⟨loc, c, hI⟩ := hgd
      obtain ⟨a, i, hsp, hshi⟩ := hI.cacheToCentral hhd
      have ha₁ : a ∈ (spanMoveToCentral M a (s.bins b).head (binPop b s)).allSpans := by
        rw [hshi.layout.allSpans]
        exact hshi.mem
      have hmov : (spanMoveToCentral M a (s.bins b).head (binPop b s)).books.Exact extra := by
        rw [books_spanMoveToCentral, books_binPop]
        exact h
      have hone : drainOne M x b s =
          spanReclaimIfEmpty x a (spanMoveToCentral M a (s.bins b).head (binPop b s)) := by
        rw [drainOne, hsp]
      obtain ⟨hexa, hpas⟩ := reclaim_exact hm hshi.inv ha₁ hmov
      obtain ⟨⟨c', hI'⟩, -⟩ := hshi.inv.reclaim x ha₁
      have hrs := drainLoop_exact b n _ ⟨_, c', hI'⟩ hexa
      dsimp only
      rw [hone, hsp]
      exact ⟨hrs.1, passed_append hpas hrs.2⟩

omit hm in
theorem drainGuards_withLive (live : List Block) (b : Bin) : ∀ (n : ℕ) (s : State),
    drainGuards M x b n (s.withLive live) = drainGuards M x b n s
  | 0, _ => rfl
  | n + 1, s => by
    have hmv : ∀ a u : ℕ, spanMoveToCentral M a u (binPop b (s.withLive live)) =
        (spanMoveToCentral M a u (binPop b s)).withLive live := by
      intro a u
      unfold spanMoveToCentral
      split_ifs <;> rfl
    have hrec : ∀ (a : ℕ) (t : State), reclaimGuards x a (t.withLive live) = reclaimGuards x a t :=
      fun _ _ => rfl
    rw [drainGuards, drainGuards]
    dsimp only
    rw [hmv, hrec, drainOne_withLive, drainGuards_withLive live b n]
    rfl

theorem cachePush_exact {i : ℕ} (hI : Inv M s loc c) (ha : a ∈ s.allSpans)
    (hi : i < (s.spans a).objectCount) (hb : b ∈ s.live) (hptr : b.ptr = s.slot M a i)
    (h : s.books.Exact extra) :
    (cachePush M x (s.cellAt a i) (s.slot M a i) (markFree (s.cellAt a i) s)).books.Exact extra ∧
      Passed (pushGuards M x (s.cellAt a i) (s.slot M a i) (markFree (s.cellAt a i) s)) := by
  have hgd : Good M _ :=
    ⟨_, _, (hI.give ha hi hb hptr (pushBin_fits x (hI.layout.spans a ha).ownerP a _) rfl).1⟩
  have hhea := hI.headers.slot a ha i hi
  have hsl : (markFree (s.cellAt a i) s).headers (s.cellAt a i) =
      { s.headers (s.cellAt a i) with state := .free } := Function.update_self _ _ _
  have hspa : (markFree (s.cellAt a i) s).spans = s.spans := rfl
  unfold pushGuards
  rw [hI.cachePush_eq x ha hi rfl rfl]
  dsimp only
  rw [hsl, hspa]
  dsimp only
  rw [hhea.span, hhea.ownerP]
  generalize hd : pushBin x (s.spans a).ownerP (s.spans a).classIndex = d at hgd ⊢
  have hgiv : (cacheGive M d (s.cellAt a i) (s.slot M a i)
      (markFree (s.cellAt a i) s)).books.Exact extra := by
    rw [books_cacheGive, books_markFree]
    exact h
  generalize cacheGive M d (s.cellAt a i) (s.slot M a i) (markFree (s.cellAt a i) s) = t
    at hgd hgiv ⊢
  split_ifs
  · have hdra := drainLoop_exact hm (.cache (memoryCurrentP x)
      (t.spans (t.headers (s.cellAt a i)).span).classIndex) cacheRefill _ hgd hgiv
    rw [drainLoop_withLive, drainGuards_withLive] at hdra
    exact hdra
  · exact ⟨hgiv, passed_nil⟩

theorem free_exact (hgd : Good M s) (hb : b ∈ s.live) (h : s.books.Exact extra) :
    (free M x b.ptr s).books.Exact extra ∧ Passed (freeGuards M x b.ptr s) := by
  obtain ⟨loc, c, hI⟩ := hgd
  obtain ⟨-, -, -, hobj, hbyt⟩ := hI.validate hb
  have hreq := (hI.live.block b hb).requested
  have hpa : (Guard.free s.stats.activeObjects s.stats.activeBytes
      (s.headers (b.ptr - M.headerSize)).requestedSize).passes :=
    ⟨hobj, by rw [hreq]; exact hbyt⟩
  unfold freeGuards
  obtain ⟨a, ha, i, hi, hu, hkn, heq⟩ | ⟨l, hl, hu, hkn, heq⟩ := hI.free_cases x hb
  · have hcl : b.ptr - M.headerSize = s.cellAt a i := by rw [hu, State.slot_sub]
    have hps := cachePush_exact hm hI ha hi hb hu h
    rw [heq]
    refine ⟨hps.1, ?_⟩
    split_ifs
    · exact passed_nil
    · dsimp only
      rw [hkn]
      refine passed_cons hpa ?_
      rw [hcl, hu]
      exact hps.2
  · have hok := hI.layout.larges l hl
    have hcl : b.ptr - M.headerSize = l := by rw [hu, Nat.add_sub_cancel]
    rw [heq]
    refine ⟨release_exact (hm l) (Books.Exact.disownLarge h hl hok.region), ?_⟩
    split_ifs
    · exact passed_nil
    · dsimp only
      rw [hkn]
      refine passed_cons hpa ?_
      rw [hcl, hok.base]
      exact releaseGuards_passed (h.size_le hok.region)

end Free

theorem Inv.capacity_sum_le (h : Inv M s loc c) :
    (s.live.map fun b => M.headerSize + (s.headers (b.ptr - M.headerSize)).capacity).sum ≤
      modulus := by
  have hsum : (s.live.map fun b => M.headerSize + (s.headers (b.ptr - M.headerSize)).capacity) =
      (s.live.map fun b => (b.ptr - M.headerSize,
        M.headerSize + (s.headers (b.ptr - M.headerSize)).capacity)).map Prod.snd := by
    rw [map_map]
    rfl
  rw [hsum]
  refine sum_le_of_apart (pairwise_map.mpr ?_) ?_
  · -- two blocks have two cells
    have hne : s.live.Pairwise fun b d => b.ptr ≠ d.ptr := pairwise_map.mp h.live.nodup
    refine hne.imp_of_mem fun {b d} hb hd hne => ?_
    obtain ⟨n, hcl, hle, hin, -⟩ := h.live.cell h.layout h.headers hb
    obtain ⟨m, hcell', hle', hin', -⟩ := h.live.cell h.layout h.headers hd
    have hapa := h.layout.cells_apart hcl hcell' (by omega)
    exact hapa.within le_rfl (by omega) le_rfl (by omega)
  · intro r hr
    obtain ⟨b, hb, rfl⟩ := mem_map.mp hr
    obtain ⟨n, hcl, hle, hin, -⟩ := h.live.cell h.layout h.headers hb
    obtain ⟨o, m, hmap, -, hlo, hhi⟩ := h.layout.cell_inside hcl
    have hsc := (h.layout.mapped.size _ hmap).2
    dsimp only at hsc ⊢
    omega

theorem Inv.resize_fits (h : Inv M s loc c) (hb : b ∈ s.live)
    (hft : size ≤ (s.headers (b.ptr - M.headerSize)).capacity) :
    s.stats.activeBytes - b.size ≤ sizeMax - size := by
  have hpr := perm_cons_filter h.live.nodup hb
  have hall := h.capacity_sum_le
  rw [(hpr.map _).sum_eq, map_cons, sum_cons] at hall
  -- the other blocks are not larger than their capacities
  have hrs : ((s.live.filter fun d => d.ptr != b.ptr).map Block.size).sum ≤
      ((s.live.filter fun d => d.ptr != b.ptr).map fun d =>
        M.headerSize + (s.headers (d.ptr - M.headerSize)).capacity).sum := by
    refine sum_le_sum fun d hd => ?_
    have hle := (h.live.block d (mem_filter.mp hd).1).size_le
    omega
  have hbyt := (h.live.filter_stats hb).2
  have hhdr := M.headerSize_cases
  have hmax : sizeMax + 1 = modulus := by decide
  omega

@[simp] theorem books_reallocInPlace : (reallocInPlace M ptr size s).2.books = s.books := by
  unfold reallocInPlace
  dsimp only
  split_ifs
  · exact books_debugAbort
  · rfl
  · rw [books_debugPrepare]
    rfl

theorem freeGuards_withLive (live : List Block) (ptr : ℕ) (s : State) :
    freeGuards M x ptr (s.withLive live) = freeGuards M x ptr s := by
  have hps : ∀ (header user : ℕ) (t : State),
      pushGuards M x header user (t.withLive live) = pushGuards M x header user t := by
    intro header user t
    unfold pushGuards
    dsimp only
    rw [cacheGive_withLive, drainGuards_withLive]
    rfl
  have hmr : ∀ header, markFree header (s.withLive live) = (markFree header s).withLive live :=
    fun _ => rfl
  unfold freeGuards
  dsimp only
  rw [hmr, hps]
  rfl

theorem realloc_exact (hm : ∀ a, x.munmap a = true) (hpg : spanSize ≤ M.pageSize)
    (hgd : Good M s) (hb : b ∈ s.live) (hsz : size < modulus) (h : s.books.Exact extra) :
    (realloc M x b.ptr size s).2.books.Exact extra ∧ Passed (reallocGuards M x b.ptr size s) := by
  have hnl : b.ptr ≠ 0 := Ready.ptr_ne (Or.inr hgd) hb
  unfold realloc reallocGuards
  rw [if_neg hnl, if_neg hnl]
  by_cases hzr : size = 0
  · rw [if_pos hzr, if_pos hzr]
    exact free_exact hm hgd hb h
  rw [if_neg hzr, if_neg hzr]
  have hreq : requestSize size = size := if_neg hzr
  obtain ⟨loc, c, hI⟩ := id hgd
  obtain ⟨hmag, hsta, hval, hobj, hbyt⟩ := hI.validate hb
  have hrq := (hI.live.block b hb).requested
  have hnt : s.initialized ≠ false := by
    rw [hI.layout.initialized]
    simp
  rw [if_neg hnt]
  dsimp only
  rw [if_neg (not_or.mpr ⟨not_not.mpr hmag, not_not.mpr hsta⟩), hval]
  dsimp only
  by_cases hft : size ≤ (s.headers (b.ptr - M.headerSize)).capacity
  · rw [if_pos hft, if_pos hft, books_reallocInPlace, hrq]
    exact ⟨h, passed_cons ⟨hbyt, hI.resize_fits hb hft⟩ passed_nil⟩
  · rw [if_neg hft, if_neg hft]
    have hmal := malloc_exact hm (Or.inr hgd) h size
    have htes := mallocGuards_passed (x := x) (Or.inr hgd) h size
    unfold reallocMove
    dsimp only
    cases hr : malloc M x size s with
    | mk new t =>
      rw [hr] at hmal
      cases new with
      | zero => exact ⟨hmal, passed_append htes passed_nil⟩
      | succ new =>
        dsimp only
        generalize hcp : (if (s.headers (b.ptr - M.headerSize)).requestedSize < size then
          (s.headers (b.ptr - M.headerSize)).requestedSize else size) = copySize
        have hle : copySize ≤ requestSize size := by
          rw [hreq, ← hcp]
          split_ifs <;> omega
        -- both blocks are there when the old one is freed
        have hwri := reallocCopy_good hpg hgd x hsz b.ptr hr hle
        obtain ⟨hfr, hpas⟩ := free_exact hm hwri (b := b) (mem_cons_of_mem _ hb) hmal
        have hcm : ∀ L, (t.withLive L).overwrite M (new + 1) copySize
            (copy t.bytes (new + 1) b.ptr copySize) = (t.overwrite M (new + 1) copySize
              (copy t.bytes (new + 1) b.ptr copySize)).withLive L := fun _ => rfl
        rw [hcm, free_withLive] at hfr
        rw [hcm, freeGuards_withLive] at hpas
        exact ⟨hfr, passed_append htes hpas⟩

def callGuards (M : Platform) (x : Env) (s : State) : Call → List Guard
  | .malloc size => mallocGuards M x size s
  | .calloc count size =>
    if count ≠ 0 ∧ size > sizeMax / count then [] else mallocGuards M x (count * size) s
  | .realloc ptr size => reallocGuards M x ptr size s
  | .free ptr => freeGuards M x ptr s
  | .write _ _ _ => []

theorem calloc_exact (hm : ∀ a, x.munmap a = true) (hrdy : Ready M s) (h : s.books.Exact extra)
    (count size : ℕ) : (calloc M x count size s).2.books.Exact extra := by
  have hmal := malloc_exact hm hrdy h (count * size)
  unfold calloc
  split_ifs
  · exact h
  split
  · next heq =>
    rw [heq] at hmal
    exact hmal
  · next heq =>
    rw [heq] at hmal
    exact hmal

theorem step_exact (hm : ∀ a, x.munmap a = true) (hpg : spanSize ≤ M.pageSize)
    (hrdy : Ready M s) {call : Call} (hst : step M s (x, call) = some t)
    (h : s.books.Exact extra) : t.books.Exact extra ∧ Passed (callGuards M x s call) := by
  cases call with
  | malloc size =>
    simp only [Memory.step] at hst
    split_ifs at hst with hsz
    cases hst
    rw [books_gain]
    exact ⟨malloc_exact hm hrdy h size, mallocGuards_passed hrdy h size⟩
  | calloc count size =>
    simp only [Memory.step] at hst
    split_ifs at hst with hsz
    cases hst
    rw [books_gain]
    refine ⟨calloc_exact hm hrdy h count size, ?_⟩
    rw [callGuards]
    split_ifs
    · exact passed_nil
    · exact mallocGuards_passed hrdy h (count * size)
  | free ptr =>
    simp only [Memory.step] at hst
    split_ifs at hst with hptr
    cases hst
    rw [books_drop]
    rcases hptr with rfl | hptr
    · exact ⟨h, passed_nil⟩
    · obtain ⟨b, hb, rfl⟩ := State.mem_of_holds hptr
      exact free_exact hm (hrdy.good hb) hb h
  | realloc ptr size =>
    have hca : size < modulus → (ptr = 0 ∨ s.holds ptr = true) →
        (realloc M x ptr size s).2.books.Exact extra ∧ Passed (reallocGuards M x ptr size s) := by
      rintro hsz (rfl | hptr)
      · exact ⟨malloc_exact hm hrdy h size, mallocGuards_passed hrdy h size⟩
      · obtain ⟨b, hb, rfl⟩ := State.mem_of_holds hptr
        exact realloc_exact hm hpg (hrdy.good hb) hb hsz h
    simp only [Memory.step] at hst
    split_ifs at hst with hptr hnl hzr hfl
    all_goals
      cases hst
      have hdn := hca hptr.1 hptr.2
    · rw [books_gain]
      exact hdn
    · exact hdn
    · exact hdn
    · rw [books_gain]
      exact hdn
  | write ptr offset value =>
    simp only [Memory.step] at hst
    split_ifs at hst with hptr
    cases hst
    exact ⟨h, passed_nil⟩

end Veloco.Memory
