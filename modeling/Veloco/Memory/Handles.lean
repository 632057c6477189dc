import Veloco.Memory.Guards

/-!
# Arenas and pools keep the books
-/

namespace Veloco.Memory

open List Option
open Veloco.Bytes Veloco.Word

variable {M : Platform} {x y : Env} {s t u : State} {extra extra' : List Region}
  {gs gs' : List Guard} {a n size align : ℕ} {impl impl' : ArenaImpl}

theorem Ready.accounts (h : Ready M s) : s.stats.activeObjects = s.live.length ∧
    s.stats.activeBytes = (s.live.map Block.size).sum ∧ s.stats.activeBytes < modulus := by
  rcases h with rfl | ⟨loc, c, hI⟩
  · exact ⟨rfl, rfl, by decide⟩
  · exact ⟨hI.live.activeObjects, hI.live.activeBytes, hI.live.activeBytes_lt⟩

theorem Ready.length_filter {b : Block} (h : Ready M s) (hb : b ∈ s.live) :
    s.live.length = (s.live.filter fun d => d.ptr != b.ptr).length + 1 := by
  obtain ⟨loc, c, hI⟩ := h.good hb
  exact (perm_cons_filter hI.live.nodup hb).length_eq

structure Settled (M : Platform) (extra : List Region) (s t : State) (gs : List Guard) :
    Prop where
  ready : Ready M t
  books : t.books.Exact extra
  accounts : SameAccounts s t
  passed : Passed gs

theorem Settled.refl (h : Ready M s) (hE : s.books.Exact extra) : Settled M extra s s [] :=
  ⟨h, hE, SameAccounts.refl s, passed_nil⟩

theorem Settled.trans (h : Settled M extra s t gs) (h' : Settled M extra' t u gs') :
    Settled M extra' s u (gs ++ gs') :=
  ⟨h'.ready, h'.books, h.accounts.trans h'.accounts, passed_append h.passed h'.passed⟩

theorem acquire_settled (x : Env) (pages : ℕ) (h : Ready M s) (hE : s.books.Exact extra) :
    Settled M ((pageHeapAcquire M x pages s).1.toList ++ extra) s
      (pageHeapAcquire M x pages s).2 [] := by
  have hexa := acquire_exact M x pages hE
  refine ⟨?_, hexa, ?_, passed_nil⟩
  · rcases pageHeapAcquire_cases M x pages s with heq | ⟨a, hpag, hfre, heq⟩
    · rw [heq]
      exact h
    · rw [heq]
      rcases h with rfl | ⟨loc, c, hI⟩
      · exact absurd heq (by simp [pageHeapAcquire, State.initial])
      · have hpg : 0 < s.pageSize := lt_of_lt_of_le (by decide) hI.layout.holdsSpan
        exact .inr ⟨loc, c, hI.addMapping hfre (Nat.mul_pos hpag hpg)⟩
  · rcases pageHeapAcquire_cases M x pages s with heq | ⟨a, -, -, heq⟩
    · rw [heq]
      exact .refl s
    · rw [heq]
      exact ⟨rfl, rfl, rfl⟩

theorem release_settled (hm : x.munmap a = true) (h : Ready M s)
    (hE : s.books.Exact (⟨a, n⟩ :: extra)) :
    Settled M extra s (pageHeapRelease x a n s) (releaseGuards x a n s) := by
  have hmap : ⟨a, n⟩ ∈ s.mapped := hE.extra _ mem_cons_self
  refine ⟨?_, release_exact hm hE, ?_, releaseGuards_passed (hE.size_le hmap)⟩
  · rcases h with rfl | ⟨loc, c, hI⟩
    · exact absurd hmap not_mem_nil
    · -- no span and no large object is there
      have hnd := nodup_append.mp (hE.owners.nodup_iff.mp hE.nodup)
      have hfr : a ∉ s.allSpans ++ s.largeAllocations :=
        fun hmem => hnd.2.2 a hmem a mem_cons_self rfl
      rw [mem_append, not_or] at hfr
      exact .inr ⟨loc, c, hI.release x hfr.1 hfr.2⟩
  · obtain ⟨mapped, mappedBytes, -, heq⟩ := pageHeapRelease_eq x a n s
    rw [heq]
    exact ⟨rfl, rfl, rfl⟩

theorem Ready.ensure (hpg : spanSize ≤ M.pageSize) (h : Ready M s) :
    Ready M (memoryEnsureInitialized M s).2 := by
  unfold memoryEnsureInitialized allocatorInit
  split_ifs with hnt hpow
  · exact h
  · exact h
  · rcases h with rfl | ⟨loc, c, hI⟩
    · exact .inr (good_init hpg (by simpa using hpow))
    · exact absurd hI.layout.initialized hnt

theorem ensure_settled (hpg : spanSize ≤ M.pageSize) (h : Ready M s)
    (hE : s.books.Exact extra) :
    Settled M extra s (memoryEnsureInitialized M s).2 [] := by
  refine ⟨h.ensure hpg, ensure_exact h hE, ?_, passed_nil⟩
  unfold memoryEnsureInitialized allocatorInit
  split_ifs with hnt hpow
  · exact .refl s
  · exact .refl s
  · rcases h with rfl | ⟨loc, c, hI⟩
    · exact ⟨rfl, rfl, rfl⟩
    · exact absurd hI.layout.initialized hnt

/-! ## Arenas -/

def ArenaBlock.region (block : ArenaBlock) : Region := ⟨block.base, block.mappingSize⟩

def ArenaImpl.regions (impl : ArenaImpl) : List Region := impl.blocks.map ArenaBlock.region

section Tests

variable (M : Platform) (x y : Env)

def arenaReleaseGuards (impl : ArenaImpl) (s : State) : List Guard :=
  match impl.blocks with
  | [] => []
  | block :: _ => releaseGuards x block.base block.mappingSize s

def arenaGrowGuards (size align : ℕ) (impl : ArenaImpl) (s : State) : List Guard :=
  if size > sizeMax - align then []
  else
    match arenaNewBlock M x (size + align) impl s with
    | (none, _) => []
    | (some impl, s) =>
      match impl.blocks with
      | [] => []
      | block :: _ =>
        match arenaOffset (block.base + s.pageSize) 0 align with
        | none => arenaReleaseGuards x impl s
        | some offset => if block.fits offset size then [] else arenaReleaseGuards x impl s

def arenaServeGuards (size align : ℕ) (fresh : Bool) (impl : ArenaImpl) (s : State) :
    List Guard :=
  match impl.blocks with
  | [] => []
  | block :: _ =>
    match arenaOffset (block.base + s.pageSize) block.used align with
    | none => if fresh then arenaReleaseGuards x impl s else []
    | some offset =>
      if block.fits offset size then [] else arenaGrowGuards M x size align impl s

def arenaAllocGuards (size align : ℕ) (impl : ArenaImpl) (s : State) : List Guard :=
  if size = 0 ∨ isPowerOfTwo align = false then []
  else
    match memoryEnsureInitialized M s with
    | (.ok, s) =>
      match impl.blocks with
      | _ :: _ => arenaServeGuards M x size align false impl s
      | [] =>
        if size > sizeMax - align then []
        else
          match arenaNewBlock M x (size + align) impl s with
          | (none, _) => []
          | (some impl, s) => arenaServeGuards M y size align true impl s
    | (_, _) => []

def arenaBlocksGuards : List ArenaBlock → State → List Guard
  | [], _ => []
  | block :: rest, s => releaseGuards x block.base block.mappingSize s ++
      arenaBlocksGuards rest (pageHeapRelease x block.base block.mappingSize s)

def arenaResetGuards (impl : ArenaImpl) (s : State) : List Guard :=
  if s.initialized = false then [] else arenaBlocksGuards x impl.blocks s

end Tests

section Arena

variable (h : Ready M s) (hE : s.books.Exact (impl.regions ++ extra))

include h hE

theorem arenaNewBlock_settled (x : Env) (minimum : ℕ) :
    Settled M (((arenaNewBlock M x minimum impl s).1.getD impl).regions ++ extra) s
      (arenaNewBlock M x minimum impl s).2 [] := by
  unfold arenaNewBlock
  dsimp only
  generalize (if impl.blockSize > minimum then impl.blockSize else minimum) = capacity
  split_ifs with hsz hpag
  · exact .refl h hE
  · exact .refl h hE
  · have hacq := acquire_settled x ((capacity + s.pageSize - 1) / s.pageSize + 1) h hE
    generalize pageHeapAcquire M x _ s = r at hacq ⊢
    obtain ⟨_ | ⟨a, n⟩, t⟩ := r
    · exact hacq
    · exact hacq

theorem arenaRelease_settled (hm : ∀ a, x.munmap a = true) :
    Settled M ((arenaReleaseHeadBlock x impl s).1.regions ++ extra) s
      (arenaReleaseHeadBlock x impl s).2 (arenaReleaseGuards x impl s) := by
  obtain ⟨blockSize, blocks⟩ := impl
  cases blocks with
  | nil => exact .refl h hE
  | cons block rest => exact release_settled (hm block.base) h hE

theorem arenaTake_settled (offset size : ℕ) :
    Settled M ((arenaTake offset size impl s).2.1.regions ++ extra) s
      (arenaTake offset size impl s).2.2 [] := by
  obtain ⟨blockSize, blocks⟩ := impl
  cases blocks with
  | nil => exact .refl h hE
  | cons block rest => exact .refl h hE

theorem arenaGrow_settled (hm : ∀ a, x.munmap a = true) (size align : ℕ) :
    Settled M ((arenaGrow M x size align impl s).2.1.regions ++ extra) s
      (arenaGrow M x size align impl s).2.2 (arenaGrowGuards M x size align impl s) := by
  unfold arenaGrow arenaGrowGuards
  split_ifs with hsz
  · exact .refl h hE
  have hnew := arenaNewBlock_settled h hE x (size + align)
  generalize arenaNewBlock M x (size + align) impl s = r at hnew ⊢
  obtain ⟨_ | new, t⟩ := r
  · exact hnew
  dsimp only [getD_some] at hnew ⊢
  have hrel := hnew.trans (arenaRelease_settled hnew.ready hnew.books hm)
  cases hblo : new.blocks with
  | nil => exact hnew
  | cons block rest =>
    dsimp only
    cases arenaOffset (block.base + t.pageSize) 0 align with
    | none => exact hrel
    | some offset =>
      dsimp only
      split_ifs with hft
      · exact hnew.trans (arenaTake_settled hnew.ready hnew.books offset size)
      · exact hrel

theorem arenaServe_settled (hm : ∀ a, x.munmap a = true) (size align : ℕ) (fresh : Bool) :
    Settled M ((arenaServe M x size align fresh impl s).2.1.regions ++ extra) s
      (arenaServe M x size align fresh impl s).2.2
      (arenaServeGuards M x size align fresh impl s) := by
  unfold arenaServe arenaServeGuards
  cases hblo : impl.blocks with
  | nil => exact .refl h hE
  | cons block rest =>
    dsimp only
    cases arenaOffset (block.base + s.pageSize) block.used align with
    | none =>
      dsimp only
      split_ifs
      · exact arenaRelease_settled h hE hm
      · exact .refl h hE
    | some offset =>
      dsimp only
      split_ifs with hft
      · exact arenaTake_settled h hE offset size
      · exact arenaGrow_settled h hE hm size align

theorem arenaAlloc_settled (hpg : spanSize ≤ M.pageSize) (hx : ∀ a, x.munmap a = true)
    (hy : ∀ a, y.munmap a = true) (size align : ℕ) :
    Settled M ((arenaAlloc M x y size align impl s).2.1.regions ++ extra) s
      (arenaAlloc M x y size align impl s).2.2
      (arenaAllocGuards M x y size align impl s) := by
  have hens := ensure_settled hpg h hE
  unfold arenaAlloc arenaAllocGuards
  by_cases hbad : size = 0 ∨ isPowerOfTwo align = false
  · rw [if_pos hbad, if_pos hbad]
    exact .refl h hE
  rw [if_neg hbad, if_neg hbad]
  generalize memoryEnsureInitialized M s = r at hens ⊢
  obtain ⟨status, t⟩ := r
  dsimp only at hens
  cases status with
  | ok =>
    dsimp only
    cases hblo : impl.blocks with
    | cons block rest =>
      exact hens.trans (arenaServe_settled hens.ready hens.books hx size align false)
    | nil =>
      dsimp only
      split_ifs with hsz
      · exact hens
      have hnew := hens.trans (arenaNewBlock_settled hens.ready hens.books x (size + align))
      generalize arenaNewBlock M x (size + align) impl t = q at hnew ⊢
      obtain ⟨_ | new, u⟩ := q
      · exact hnew
      · exact hnew.trans (arenaServe_settled hnew.ready hnew.books hy size align true)
  | _ => exact hens

end Arena

theorem arenaReleaseBlocks_settled (hm : ∀ a, x.munmap a = true) : ∀ (blocks : List ArenaBlock)
    (s : State), Ready M s → s.books.Exact (blocks.map ArenaBlock.region ++ extra) →
    Settled M extra s (arenaReleaseBlocks x blocks s) (arenaBlocksGuards x blocks s)
  | [], _, h, hE => .refl h hE
  | block :: rest, s, h, hE => by
    have hhd := release_settled (hm block.base) h hE
    exact hhd.trans (arenaReleaseBlocks_settled hm rest _ hhd.ready hhd.books)

theorem arenaReset_settled (hm : ∀ a, x.munmap a = true) (h : Ready M s)
    (hE : s.books.Exact (impl.regions ++ extra)) :
    Settled M ((arenaReset x impl s).1.regions ++ extra) s (arenaReset x impl s).2
      (arenaResetGuards x impl s) := by
  unfold arenaReset arenaResetGuards
  split_ifs with hnt
  · exact .refl h hE
  · exact arenaReleaseBlocks_settled hm impl.blocks s h hE

def poolObjects (items : List PoolItem) : List ℕ := items.map PoolItem.object

theorem poolReuse_objects : ∀ {items : List PoolItem} {r : ℕ × List PoolItem},
    poolReuse items = some r → poolObjects r.2 = poolObjects items
  | [], _, h => by simp [poolReuse] at h
  | item :: rest, r, h => by
    rw [poolReuse] at h
    split_ifs at h with hact
    · cases h
      rfl
    · obtain ⟨q, hq, rfl⟩ := map_eq_some_iff.mp h
      exact congrArg (item.object :: ·) (poolReuse_objects hq)

theorem poolRetire_objects {ptr : ℕ} : ∀ {items items' : List PoolItem},
    (poolRetire ptr items).2 = some items' → poolObjects items' = poolObjects items
  | [], items', h => by
    cases h
    rfl
  | item :: rest, items', h => by
    rw [poolRetire] at h
    split_ifs at h with hptr hact
    · cases h
      rfl
    · obtain ⟨q, hq, rfl⟩ := map_eq_some_iff.mp h
      exact congrArg (item.object :: ·) (poolRetire_objects hq)

theorem poolRetire_none {ptr : ℕ} : ∀ {items : List PoolItem}, (poolRetire ptr items).2 = none →
    ∃ item ∈ items, item.object = ptr ∧ item.active = false
  | [], h => by simp [poolRetire] at h
  | item :: rest, h => by
    rw [poolRetire] at h
    split_ifs at h with hptr hact
    · exact ⟨item, mem_cons_self, hptr, hact⟩
    · obtain ⟨found, hfou, hok⟩ := poolRetire_none (map_eq_none_iff.mp h)
      exact ⟨found, mem_cons_of_mem _ hfou, hok⟩

def poolAllocGuards (M : Platform) (x : Env) (allocOk : Bool) (impl : PoolImpl) (s : State) :
    List Guard :=
  match memoryEnsureInitialized M s with
  | (.ok, s) =>
    match poolReuse impl.items with
    | some _ => []
    | none => if allocOk = false then [] else mallocGuards M x impl.objectSize s
  | (_, _) => []

def poolItemsGuards (M : Platform) (x : Env) : List PoolItem → State → List Guard
  | [], _ => []
  | item :: rest, s => freeGuards M x item.object s ++
      poolItemsGuards M x rest ((free M x item.object s).drop item.object)

inductive PoolGrows (s t : State) (impl impl' : PoolImpl) (ptr : ℕ) : Prop where
  | same (accounts : SameAccounts s t) (objects : poolObjects impl'.items = poolObjects impl.items)
  | grown (ne : ptr ≠ 0) (fresh : ptr ∉ s.live.map Block.ptr)
      (live : t.live = ⟨ptr, requestSize impl.objectSize⟩ :: s.live)
      (objects : poolObjects impl'.items = ptr :: poolObjects impl.items)

theorem malloc_kept (hpg : spanSize ≤ M.pageSize) (h : Ready M s) (x : Env)
    (hsz : size < modulus) :
    (malloc M x size s).1 = 0 ∧ SameAccounts s (malloc M x size s).2 ∧
        Ready M (malloc M x size s).2 ∨
      (malloc M x size s).1 ≠ 0 ∧ (malloc M x size s).1 ∉ s.live.map Block.ptr ∧
        ((malloc M x size s).2.gain (malloc M x size s).1 size).live =
          ⟨(malloc M x size s).1, requestSize size⟩ :: s.live ∧
        Ready M ((malloc M x size s).2.gain (malloc M x size s).1 size) := by
  obtain ⟨hlv, ⟨hzr, hrdy⟩ | ⟨hne, hgd⟩⟩ := malloc_spec hpg h x hsz
  · refine .inl ⟨hzr, ⟨hlv, ?_, ?_⟩, hrdy⟩
    · rw [hrdy.accounts.1, h.accounts.1, hlv]
    · rw [hrdy.accounts.2.1, h.accounts.2.1, hlv]
  · have hgn : (malloc M x size s).2.gain (malloc M x size s).1 size =
        (malloc M x size s).2.withLive
          (⟨(malloc M x size s).1, requestSize size⟩ :: s.live) := by
      rw [State.gain, if_neg hne, hlv]
      rfl
    rw [hgn]
    refine .inr ⟨hne, ?_, rfl, Or.inr hgd⟩
    obtain ⟨loc, c, hI⟩ := hgd
    exact (nodup_cons.mp hI.live.nodup).1

theorem poolAlloc_objectSize (M : Platform) (x : Env) (allocOk : Bool) (impl : PoolImpl)
    (s : State) : (poolAlloc M x allocOk impl s).2.1.objectSize = impl.objectSize := by
  unfold poolAlloc
  repeat' split
  all_goals rfl

theorem poolAlloc_spec (hm : ∀ a, x.munmap a = true) (hpg : spanSize ≤ M.pageSize)
    (h : Ready M s) (hE : s.books.Exact extra) {pool : PoolImpl}
    (hsz : pool.objectSize < modulus) (allocOk : Bool) :
    Ready M (poolAlloc M x allocOk pool s).2.2 ∧
      (poolAlloc M x allocOk pool s).2.2.books.Exact extra ∧
      Passed (poolAllocGuards M x allocOk pool s) ∧
      PoolGrows s (poolAlloc M x allocOk pool s).2.2 pool (poolAlloc M x allocOk pool s).2.1
        (poolAlloc M x allocOk pool s).1 := by
  have hens := ensure_settled hpg h hE
  unfold poolAlloc poolAllocGuards
  generalize memoryEnsureInitialized M s = r at hens ⊢
  obtain ⟨status, t⟩ := r
  dsimp only at hens
  have hsm : Ready M t ∧ t.books.Exact extra ∧ Passed [] ∧ PoolGrows s t pool pool 0 :=
    ⟨hens.ready, hens.books, passed_nil, .same hens.accounts rfl⟩
  cases status with
  | ok =>
    dsimp only
    cases hreuse : poolReuse pool.items with
    | some r => exact ⟨hens.ready, hens.books, passed_nil,
        .same hens.accounts (poolReuse_objects hreuse)⟩
    | none =>
      dsimp only
      split_ifs
      · exact hsm
      have hexa := malloc_exact hm hens.ready hens.books pool.objectSize
      have htes := mallocGuards_passed (x := x) hens.ready hens.books pool.objectSize
      have hmal := malloc_kept hpg hens.ready x hsz
      generalize malloc M x pool.objectSize t = q at hexa hmal ⊢
      obtain ⟨_ | ptr, u⟩ := q
      · rcases hmal with ⟨-, hacc, hrdy⟩ | ⟨hne, -⟩
        · exact ⟨hrdy, hexa, htes, .same (hens.accounts.trans hacc) rfl⟩
        · exact absurd rfl hne
      · rcases hmal with ⟨hzr, -⟩ | ⟨hne, hfre, hlv, hrdy⟩
        · exact absurd hzr (Nat.succ_ne_zero ptr)
        · rw [hens.accounts.live] at hfre hlv
          refine ⟨hrdy, ?_, htes, .grown hne hfre hlv rfl⟩
          dsimp only
          rw [books_gain]
          exact hexa
  | _ => exact hsm

theorem poolFreeItems_spec (hm : ∀ a, x.munmap a = true) : ∀ (items : List PoolItem) (s : State),
    Ready M s → s.books.Exact extra → (poolObjects items).Nodup →
    (∀ ptr ∈ poolObjects items, ptr ∈ s.live.map Block.ptr) →
    Ready M (poolFreeItems M x items s) ∧ (poolFreeItems M x items s).books.Exact extra ∧
      Passed (poolItemsGuards M x items s) ∧
      (poolFreeItems M x items s).live.length + items.length = s.live.length ∧
      ∀ b, b ∈ (poolFreeItems M x items s).live ↔ b ∈ s.live ∧ b.ptr ∉ poolObjects items
  | [], s, h, hE, _, _ => ⟨h, hE, passed_nil, rfl, fun b => by simp [poolFreeItems, poolObjects]⟩
  | item :: rest, s, h, hE, hnod, hhl => by
    obtain ⟨hnot, hrs⟩ := nodup_cons.mp hnod
    obtain ⟨b, hb, hptr⟩ := mem_map.mp (hhl item.object mem_cons_self)
    have hgd := h.good hb
    obtain ⟨hexa, hpas⟩ := free_exact hm hgd hb hE
    have hfr := hgd.free x hb
    have hlv := (free_spec hgd x hb).1
    rw [hptr] at hexa hpas hfr hlv
    have hdr : ∀ d, d ∈ ((free M x item.object s).drop item.object).live ↔
        d ∈ s.live ∧ d.ptr ≠ item.object := by
      intro d
      simp [State.drop, hlv]
    -- the other objects are still held
    have hoth : ∀ ptr ∈ poolObjects rest,
        ptr ∈ ((free M x item.object s).drop item.object).live.map Block.ptr := by
      intro ptr hmem
      obtain ⟨d, hd, rfl⟩ := mem_map.mp (hhl ptr (mem_cons_of_mem _ hmem))
      refine mem_map_of_mem ((hdr d).mpr ⟨hd, ?_⟩)
      rintro heq
      exact hnot (heq ▸ hmem)
    obtain ⟨hrdy, hboo, htes, hlen, hlf⟩ :=
      poolFreeItems_spec hm rest _ (.inr hfr) hexa hrs hoth
    refine ⟨hrdy, hboo, passed_append hpas htes, ?_, fun d => ?_⟩
    · have hone : ((free M x item.object s).drop item.object).live.length + 1 = s.live.length := by
        have hsm : ((free M x item.object s).drop item.object).live =
            s.live.filter fun d => d.ptr != b.ptr := by rw [State.drop, hlv, hptr]
        rw [hsm]
        exact (h.length_filter hb).symm
      rw [poolFreeItems, length_cons]
      omega
    · rw [poolFreeItems, hlf d, hdr d]
      simp only [poolObjects, map_cons, mem_cons, not_or, and_assoc]

end Veloco.Memory
