import Veloco.Memory.Clients

/-!
# Who owns a mapping
-/

namespace Veloco.Memory

open List
open Veloco.Bytes Veloco.Word

structure Books where
  mapped : List Region
  mappedBytes : ℕ
  spans : List ℕ
  larges : List ℕ

def State.books (s : State) : Books :=
  ⟨s.mapped, s.stats.mappedBytes, s.allSpans, s.largeAllocations⟩

namespace Books

variable (k : Books) (r : Region)

def acquire : Books := { k with mapped := r :: k.mapped, mappedBytes := add k.mappedBytes r.size }

def release : Books :=
  { k with
    mapped := k.mapped.erase r
    mappedBytes := if r.size ≤ k.mappedBytes then sub k.mappedBytes r.size else 0 }

structure Exact (k : Books) (extra : List Region) : Prop where
  bytes : k.mappedBytes = (k.mapped.map Region.size).sum
  lt : k.mappedBytes < modulus
  pos : ∀ r ∈ k.mapped, r.base ≠ 0 ∧ r.size ≠ 0
  nodup : (k.mapped.map Region.base).Nodup
  owners : (k.mapped.map Region.base).Perm (k.spans ++ k.larges ++ extra.map Region.base)
  extra : ∀ r ∈ extra, r ∈ k.mapped

variable {k r} {extra : List Region} {a n : ℕ}

theorem Exact.size_le (h : k.Exact extra) (hr : r ∈ k.mapped) : r.size ≤ k.mappedBytes := by
  rw [h.bytes]
  exact single_le_sum (fun _ _ => Nat.zero_le _) _ (mem_map_of_mem hr)

theorem Exact.acquire (h : k.Exact extra) (hbs : r.base ≠ 0) (hsz : r.size ≠ 0)
    (hfre : r.base ∉ k.mapped.map Region.base) (hlt : k.mappedBytes + r.size < modulus) :
    (k.acquire r).Exact (r :: extra) := by
  have hadd : add k.mappedBytes r.size = k.mappedBytes + r.size := add_of_lt hlt
  refine ⟨?_, ?_, fun t ht => ?_, nodup_cons.mpr ⟨hfre, h.nodup⟩, ?_, fun t ht => ?_⟩
  · show add k.mappedBytes r.size = _
    rw [hadd, h.bytes]
    exact Nat.add_comm _ _
  · show add k.mappedBytes r.size < modulus
    rw [hadd]
    exact hlt
  · rcases mem_cons.mp ht with rfl | ht
    · exact ⟨hbs, hsz⟩
    · exact h.pos t ht
  · exact (h.owners.cons r.base).trans perm_middle.symm
  · rcases mem_cons.mp ht with rfl | ht
    · exact mem_cons_self
    · exact mem_cons_of_mem _ (h.extra t ht)

theorem Exact.release (h : k.Exact (r :: extra)) : (k.release r).Exact extra := by
  have hr : r ∈ k.mapped := h.extra r mem_cons_self
  have hpr : k.mapped.Perm (r :: k.mapped.erase r) := perm_cons_erase hr
  have hle := h.size_le hr
  have hsub : sub k.mappedBytes r.size = k.mappedBytes - r.size := sub_of_le hle h.lt
  have hcnt : (k.release r).mappedBytes = k.mappedBytes - r.size := (if_pos hle).trans hsub
  have hnod : ((r :: k.mapped.erase r).map Region.base).Nodup := (hpr.map _).nodup_iff.mp h.nodup
  refine ⟨?_, ?_, fun t ht => h.pos t (mem_of_mem_erase ht), (nodup_cons.mp hnod).2, ?_,
    fun t ht => ?_⟩
  · have hsum := (hpr.map Region.size).sum_eq
    rw [map_cons, sum_cons] at hsum
    rw [hcnt, h.bytes, hsum]
    exact Nat.add_sub_cancel_left _ _
  · rw [hcnt]
    have hlt := h.lt
    omega
  · have hown := ((hpr.map Region.base).symm.trans h.owners).trans perm_middle
    exact hown.cons_inv
  · -- the other ones are still mapped
    have hne : t ≠ r := by
      rintro rfl
      have hdup : (t.base :: extra.map Region.base).Nodup :=
        (nodup_append.mp (h.owners.nodup_iff.mp h.nodup)).2.1
      exact (nodup_cons.mp hdup).1 (mem_map_of_mem ht)
    exact (mem_erase_of_ne hne).mpr (h.extra t (mem_cons_of_mem r ht))

theorem Exact.of_perm {extra' : List Region} (h : k.Exact extra) (hpr : extra.Perm extra') :
    k.Exact extra' where
  bytes := h.bytes
  lt := h.lt
  pos := h.pos
  nodup := h.nodup
  owners := h.owners.trans ((hpr.map _).append_left _)
  extra r hr := h.extra r (hpr.mem_iff.mpr hr)

theorem Exact.adoptSpan (h : k.Exact (⟨a, n⟩ :: extra)) :
    ({ k with spans := a :: k.spans } : Books).Exact extra where
  bytes := h.bytes
  lt := h.lt
  pos := h.pos
  nodup := h.nodup
  owners := h.owners.trans perm_middle
  extra r hr := h.extra r (mem_cons_of_mem _ hr)

theorem Exact.adoptLarge (h : k.Exact (⟨a, n⟩ :: extra)) :
    ({ k with larges := a :: k.larges } : Books).Exact extra where
  bytes := h.bytes
  lt := h.lt
  pos := h.pos
  nodup := h.nodup
  owners := h.owners.trans (perm_middle.trans (perm_middle.append_right _).symm)
  extra r hr := h.extra r (mem_cons_of_mem _ hr)

theorem Exact.disownSpan (h : k.Exact extra) (ha : a ∈ k.spans) (hr : ⟨a, n⟩ ∈ k.mapped) :
    ({ k with spans := k.spans.erase a } : Books).Exact (⟨a, n⟩ :: extra) where
  bytes := h.bytes
  lt := h.lt
  pos := h.pos
  nodup := h.nodup
  owners := by
    refine h.owners.trans ((((perm_cons_erase ha).append_right _).append_right _).trans ?_)
    exact perm_middle.symm
  extra r hmem := by
    rcases mem_cons.mp hmem with rfl | hmem
    · exact hr
    · exact h.extra r hmem

theorem Exact.disownLarge (h : k.Exact extra) (ha : a ∈ k.larges) (hr : ⟨a, n⟩ ∈ k.mapped) :
    ({ k with larges := k.larges.erase a } : Books).Exact (⟨a, n⟩ :: extra) where
  bytes := h.bytes
  lt := h.lt
  pos := h.pos
  nodup := h.nodup
  owners := by
    refine h.owners.trans ((((perm_cons_erase ha).append_left _).append_right _).trans ?_)
    exact (perm_middle.append_right _).trans perm_middle.symm
  extra r hmem := by
    rcases mem_cons.mp hmem with rfl | hmem
    · exact hr
    · exact h.extra r hmem

theorem Exact.sum_eq (h : k.Exact extra) (size size' : ℕ → ℕ)
    (hspa : ∀ a ∈ k.spans, ⟨a, size a⟩ ∈ k.mapped) (hlar : ∀ a ∈ k.larges, ⟨a, size' a⟩ ∈ k.mapped) :
    k.mappedBytes = (k.spans.map size).sum + (k.larges.map size').sum +
      (extra.map Region.size).sum := by
  -- what is mapped is, region by region, what is owned
  have hwn : k.mapped.Perm (k.spans.map (fun a => ⟨a, size a⟩) ++
      k.larges.map (fun a => ⟨a, size' a⟩) ++ extra) := by
    refine (perm_ext_iff_of_nodup (List.Nodup.of_map _ h.nodup) ?_).mpr fun r => ?_
    · refine List.Nodup.of_map Region.base ?_
      rw [map_append, map_append, map_map, map_map]
      simpa [Function.comp_def] using h.owners.nodup_iff.mp h.nodup
    · constructor
      · intro hr
        have hbs : r.base ∈ k.spans ++ k.larges ++ extra.map Region.base :=
          h.owners.mem_iff.mp (mem_map_of_mem hr)
        have hnq : ∀ t ∈ k.mapped, t.base = r.base → t = r := fun t ht heq =>
          inj_on_of_nodup_map h.nodup ht hr heq
        rcases mem_append.mp hbs with hbs | hbs
        · rcases mem_append.mp hbs with hbs | hbs
          · rw [← hnq _ (hspa _ hbs) rfl]
            exact mem_append_left _ (mem_append_left _ (mem_map_of_mem hbs))
          · rw [← hnq _ (hlar _ hbs) rfl]
            exact mem_append_left _ (mem_append_right _ (mem_map_of_mem hbs))
        · obtain ⟨t, ht, heq⟩ := mem_map.mp hbs
          rw [← hnq t (h.extra t ht) heq]
          exact mem_append_right _ ht
      · intro hr
        rcases mem_append.mp hr with hr | hr
        · rcases mem_append.mp hr with hr | hr
          · obtain ⟨a, ha, rfl⟩ := mem_map.mp hr
            exact hspa a ha
          · obtain ⟨a, ha, rfl⟩ := mem_map.mp hr
            exact hlar a ha
        · exact h.extra r hr
  rw [h.bytes, (hwn.map Region.size).sum_eq]
  simp [map_append, map_map, Function.comp_def, Nat.add_assoc]

end Books

variable {M : Platform} {x : Env} {s t : State} {extra : List Region}
  {a b d k l n p pages size : ℕ}

/-! ## Functions that leave the books alone -/

@[simp] theorem books_drop : (s.drop a).books = s.books := rfl

@[simp] theorem books_gain : (s.gain a n).books = s.books := by
  unfold State.gain
  split_ifs <;> rfl

@[simp] theorem books_binPush (c : Bin) : (binPush M c a s).books = s.books := rfl

@[simp] theorem books_binPop (c : Bin) : (binPop c s).books = s.books := rfl

@[simp] theorem books_debugAbort : (debugAbort M s).books = s.books := by
  unfold debugAbort
  split_ifs <;> rfl

@[simp] theorem books_debugPrepare : (debugPrepare M a b s).books = s.books := by
  unfold debugPrepare
  split_ifs <;> rfl

@[simp] theorem books_poison : (poison M a n s).books = s.books := by
  unfold poison
  split_ifs <;> rfl

@[simp] theorem books_spanTakeCentral : (spanTakeCentral a s).2.books = s.books := by
  unfold spanTakeCentral
  split_ifs <;> rfl

@[simp] theorem books_spanMoveToCentral : (spanMoveToCentral M a b s).books = s.books := by
  unfold spanMoveToCentral
  split_ifs <;> rfl

@[simp] theorem books_countCacheHit : (countCacheHit x k s).books = s.books := by
  unfold countCacheHit
  split_ifs <;> rfl

@[simp] theorem books_countCrossPFree (c : Bin) : (countCrossPFree c s).books = s.books := by
  unfold countCrossPFree
  split <;> rfl

@[simp] theorem books_cacheGive (c : Bin) : (cacheGive M c a b s).books = s.books := by
  have hln : ∀ s : State, (cacheLink M c a b s).books = s.books := fun _ => rfl
  unfold cacheGive
  rw [hln, books_poison, books_countCrossPFree]

@[simp] theorem books_cacheTake (c : Bin) : (cacheTake M c s).2.books = s.books := rfl

@[simp] theorem books_markFree : (markFree a s).books = s.books := rfl

@[simp] theorem books_mallocFinish : (mallocFinish M x k size a s).books = s.books := by
  unfold mallocFinish
  rw [books_debugPrepare]
  rfl

theorem books_initObjects : ∀ n, (initObjects M a n s).books = s.books
  | 0 => rfl
  | n + 1 => books_initObjects n

theorem books_refillRemote (M : Platform) (p k : ℕ) : ∀ (n count : ℕ) (s : State),
    (refillRemote M p k n count s).2.books = s.books
  | 0, _, _ => rfl
  | n + 1, count, s => by
    rw [refillRemote]
    split_ifs
    · rfl
    · rw [books_refillRemote M p k n, books_binPush, books_binPop]

theorem books_refillCentral (M : Platform) (p k a : ℕ) : ∀ (n count : ℕ) (s : State),
    (refillCentral M p k a n count s).2.books = s.books
  | 0, _, _ => rfl
  | n + 1, count, s => by
    rw [refillCentral]
    split_ifs
    · rfl
    · dsimp only
      rw [books_refillCentral M p k a n, books_binPush, books_spanTakeCentral]

theorem books_refillFromSpan (count : ℕ) :
    (refillFromSpan M p k a count s).2.books = s.books := by
  have hcen := books_refillCentral M p k a (cacheRefill - count) count s
  unfold refillFromSpan
  split
  · next heq => rw [← hcen, heq]
  · next heq =>
    rw [← hcen, heq]
    rfl

theorem acquire_exact (M : Platform) (x : Env) (pages : ℕ) (h : s.books.Exact extra) :
    (pageHeapAcquire M x pages s).2.books.Exact
      ((pageHeapAcquire M x pages s).1.toList ++ extra) := by
  unfold pageHeapAcquire
  split_ifs with hbad
  · exact h
  dsimp only
  split_ifs with hfl
  · exact h
  cases hmap : s.mmap x (pages * s.pageSize) with
  | none => exact h
  | some a =>
    rw [State.mmap, Option.filter_eq_some_iff] at hmap
    obtain ⟨hne, -, hin, hapa⟩ : s.Fresh a (pages * s.pageSize) := of_decide_eq_true hmap.2
    rw [not_or, not_or] at hbad
    obtain ⟨-, hpag, hdiv⟩ := hbad
    have hpg : s.pageSize ≠ 0 := by
      intro hzr
      rw [hzr, Nat.div_zero] at hdiv
      omega
    have hsz : pages * s.pageSize ≠ 0 := Nat.mul_ne_zero hpag hpg
    refine Books.Exact.acquire h hne hsz ?_ ?_
    · -- two regions that are not empty and do not meet have different bases
      intro hmem
      obtain ⟨r, hr, hbs⟩ := mem_map.mp hmem
      have hpos := (h.pos r hr).2
      have hmt := hapa r hr
      unfold Apart at hmt
      dsimp only at hbs
      omega
    · show s.stats.mappedBytes + pages * s.pageSize < modulus
      have hmax : sizeMax + 1 = modulus := by decide
      omega

theorem release_exact (hm : x.munmap a = true) (h : s.books.Exact (⟨a, n⟩ :: extra)) :
    (pageHeapRelease x a n s).books.Exact extra := by
  obtain ⟨hbs, hsz⟩ := h.pos _ (h.extra _ mem_cons_self)
  have heq : (pageHeapRelease x a n s).books = s.books.release ⟨a, n⟩ := by
    unfold pageHeapRelease
    rw [if_neg (not_or.mpr ⟨hbs, hsz⟩), if_neg (by rw [hm]; simp)]
    rfl
  rw [heq]
  exact h.release

section Allocation

variable (hm : ∀ a, x.munmap a = true)

include hm

theorem spanCreate_exact (M : Platform) (k : ℕ) (h : s.books.Exact extra) :
    (spanCreate M x k s).2.books.Exact extra := by
  unfold spanCreate
  split_ifs with hk
  · exact h
  dsimp only
  split_ifs with hbad
  · exact h
  have hacq := acquire_exact M x
    ((spanObjectArea (spanObjectStride M (sizeClassCapacity k)) + s.pageSize - 1) /
      s.pageSize + 1) h
  generalize pageHeapAcquire M x _ s = r at hacq ⊢
  obtain ⟨_ | ⟨a, n⟩, t⟩ := r
  · exact hacq
  · dsimp only
    split_ifs with hcnt
    · exact release_exact (hm a) hacq
    · -- the objects are written behind the metadata page, and the span is entered into the lists
      have hfil : (initObjects M a (newSpan M x k a n t.pageSize).objectCount
          (t.setSpan a (newSpan M x k a n t.pageSize))).books = t.books := books_initObjects _
      generalize initObjects M a _ _ = u at hfil ⊢
      show Books.Exact { u.books with spans := a :: u.books.spans } extra
      rw [hfil]
      exact Books.Exact.adoptSpan hacq

theorem refillCache_exact (M : Platform) (k : ℕ) (h : s.books.Exact extra) :
    (refillCache M x k s).2.books.Exact extra := by
  have hrem := books_refillRemote M (memoryCurrentP x) k cacheRefill 0 s
  unfold refillCache
  dsimp only
  generalize refillRemote M (memoryCurrentP x) k cacheRefill 0 s = r at hrem ⊢
  obtain ⟨count, t⟩ := r
  dsimp only at hrem ⊢
  rw [← hrem] at h
  split_ifs with hfl
  · exact h
  split
  · rw [books_refillFromSpan]
    exact h
  · have hcre := spanCreate_exact hm M k h
    split
    · next heq =>
      rw [heq] at hcre
      exact hcre
    · next heq =>
      rw [heq] at hcre
      rw [books_refillFromSpan]
      exact hcre

theorem cachePop_exact (h : s.books.Exact extra) : (cachePop M x k s).2.books.Exact extra := by
  have href := refillCache_exact hm M k h
  unfold cachePop
  dsimp only
  split_ifs with hemp
  · split
    · next heq =>
      rw [heq] at href
      rw [books_cacheTake]
      exact href
    · next heq =>
      rw [heq] at href
      exact href
  · rw [books_cacheTake]
    exact h

omit hm in
theorem mallocLarge_exact (h : s.books.Exact extra) :
    (mallocLarge M x size s).2.books.Exact extra := by
  unfold mallocLarge
  dsimp only
  split_ifs with hsz hbyt hpag
  · exact h
  · exact h
  · exact h
  have hacq := acquire_exact M x
    ((M.headerSize + size + M.suffixSize + s.pageSize - 1) / s.pageSize) h
  generalize pageHeapAcquire M x _ s = r at hacq ⊢
  obtain ⟨_ | ⟨a, n⟩, t⟩ := r
  · exact hacq
  · dsimp only
    rw [books_debugPrepare]
    exact Books.Exact.adoptLarge hacq

theorem mallocLocked_exact (h : s.books.Exact extra) :
    (mallocLocked M x size s).2.books.Exact extra := by
  unfold mallocLocked
  dsimp only
  split_ifs with hcan hlr
  · exact h
  · exact mallocLarge_exact h
  have hpop : (cachePop M x (sizeClassIndex size) (countCacheHit x (sizeClassIndex size) s)).2.books.Exact
      extra := by
    apply cachePop_exact hm
    rw [books_countCacheHit]
    exact h
  split
  · next heq =>
    rw [heq] at hpop
    exact hpop
  · next heq =>
    rw [heq] at hpop
    rw [books_mallocFinish]
    exact hpop

omit hm in
theorem ensure_exact (hrdy : Ready M s) (h : s.books.Exact extra) :
    (memoryEnsureInitialized M s).2.books.Exact extra := by
  unfold memoryEnsureInitialized allocatorInit
  split_ifs with hnt hpow
  · exact h
  · exact h
  · rcases hrdy with rfl | ⟨loc, c, hI⟩
    · exact h
    · exact absurd hI.layout.initialized hnt

theorem malloc_exact (hrdy : Ready M s) (h : s.books.Exact extra) (size : ℕ) :
    (malloc M x size s).2.books.Exact extra := by
  have hens := ensure_exact hrdy h
  unfold malloc
  split
  · next heq =>
    rw [heq] at hens
    exact mallocLocked_exact hm hens
  · next heq =>
    rw [heq] at hens
    exact hens

end Allocation

end Veloco.Memory
