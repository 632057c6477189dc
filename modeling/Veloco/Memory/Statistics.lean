import Veloco.Memory.Events

/-!
# The statistics are exact
-/

namespace Veloco.Memory

open List Option State
open Veloco.Bytes Veloco.Word

variable {M : Platform} {x : Env} {s t : State} {k k' : Heap} {op : Op} {gs : List Guard}
  {extra : List Region} {i ptr size : ℕ}

theorem flatMap_set_perm {α β : Type} (f : α → List β) : ∀ {l : List α} {i : ℕ} {a : α},
    l[i]? = some a →
    ∃ rest, (l.flatMap f).Perm (f a ++ rest) ∧ ∀ a', ((l.set i a').flatMap f).Perm (f a' ++ rest)
  | [], i, a, h => by simp at h
  | b :: l, 0, a, h => by
    obtain rfl : b = a := by simpa using h
    exact ⟨l.flatMap f, List.Perm.refl _, fun a' => List.Perm.refl _⟩
  | b :: l, i + 1, a, h => by
    obtain ⟨rest, hold, hnew⟩ := flatMap_set_perm f (l := l) (i := i) (a := a) (by simpa using h)
    have hsw : ∀ ys zs : List β, (f b ++ (ys ++ zs)).Perm (ys ++ (f b ++ zs)) := fun ys zs => by
      rw [← append_assoc, ← append_assoc]
      exact perm_append_comm.append_right zs
    exact ⟨f b ++ rest, (hold.append_left (f b)).trans (hsw _ _),
      fun a' => ((hnew a').append_left (f b)).trans (hsw _ _)⟩

def arenaRegions (impl : Option ArenaImpl) : List Region := (impl.map ArenaImpl.regions).getD []

def handleObjects (impl : Option PoolImpl) : List ℕ :=
  (impl.map fun pool => poolObjects pool.items).getD []

def Heap.regions (k : Heap) : List Region := k.arenas.flatMap arenaRegions

def Heap.objects (k : Heap) : List ℕ := k.pools.flatMap handleObjects

theorem Heap.regions_eq (k : Heap) : k.regions = k.arenaBlocks.map ArenaBlock.region := by
  unfold Heap.regions Heap.arenaBlocks
  rw [map_flatMap]
  congr 1
  funext impl
  cases impl <;> rfl

theorem Heap.objects_eq (k : Heap) : k.objects = k.poolItems.map PoolItem.object := by
  unfold Heap.objects Heap.poolItems
  rw [map_flatMap]
  congr 1
  funext impl
  cases impl <;> rfl

theorem getElem_of_join {α : Type} {l : List (Option α)} {a : α} (h : (l[i]?).join = some a) :
    l[i]? = some (some a) := by
  simpa [join_eq_some_iff] using h

structure HeapOk (M : Platform) (k : Heap) : Prop where
  ready : Ready M k.mem
  books : k.mem.books.Exact k.regions
  nodup : k.objects.Nodup
  held : ∀ ptr ∈ k.objects, ptr ∈ k.mem.live.map Block.ptr
  objectSize : ∀ pool, some pool ∈ k.pools → pool.objectSize < modulus

theorem HeapOk.initial (M : Platform) (arenas pools : ℕ) :
    HeapOk M (Heap.initial arenas pools) := by
  have hrg : (Heap.initial arenas pools).regions = [] := by
    simp [Heap.regions, Heap.initial, arenaRegions]
  have hobj : (Heap.initial arenas pools).objects = [] := by
    simp [Heap.objects, Heap.initial, handleObjects]
  constructor
  case ready => exact .inl rfl
  case books =>
    rw [hrg]
    exact ⟨rfl, (by decide : 0 < modulus), fun r hr => absurd hr not_mem_nil, nodup_nil,
      List.Perm.refl _, fun r hr => absurd hr not_mem_nil⟩
  case nodup => rw [hobj]; exact nodup_nil
  case held => rw [hobj]; exact fun ptr hptr => absurd hptr not_mem_nil
  case objectSize =>
    intro pool hpl
    exact absurd (eq_of_mem_replicate hpl) (by simp)

theorem HeapOk.settled (h : HeapOk M k) (hs : Settled M k.regions k.mem t gs) :
    HeapOk M { k with mem := t } where
  ready := hs.ready
  books := hs.books
  nodup := h.nodup
  held ptr hptr := by
    rw [hs.accounts.live]
    exact h.held ptr hptr
  objectSize := h.objectSize

theorem HeapOk.setArena (h : HeapOk M k) {o : Option ArenaImpl} (o' : Option ArenaImpl) (hi : k.arenas[i]? = some o)
    (hs : ∀ extra, k.mem.books.Exact (arenaRegions o ++ extra) →
      Settled M (arenaRegions o' ++ extra) k.mem t gs) :
    HeapOk M ({ k with mem := t }.setArena i o') ∧ SameAccounts k.mem t ∧ Passed gs := by
  obtain ⟨rest, hold, hnew⟩ := flatMap_set_perm arenaRegions hi
  have hset := hs rest (h.books.of_perm hold)
  refine ⟨⟨hset.ready, hset.books.of_perm (hnew o').symm, h.nodup, fun ptr hptr => ?_, h.objectSize⟩,
    hset.accounts, hset.passed⟩
  show ptr ∈ t.live.map Block.ptr
  rw [hset.accounts.live]
  exact h.held ptr hptr

theorem HeapOk.setPool (h : HeapOk M k) {o o' : Option PoolImpl} (hi : k.pools[i]? = some o)
    (hrdy : Ready M t) (hboo : t.books.Exact k.regions)
    (hobj : ∀ rest : List ℕ, (handleObjects o ++ rest).Nodup →
      (∀ ptr ∈ handleObjects o ++ rest, ptr ∈ k.mem.live.map Block.ptr) →
      (handleObjects o' ++ rest).Nodup ∧
        ∀ ptr ∈ handleObjects o' ++ rest, ptr ∈ t.live.map Block.ptr)
    (hsz : ∀ pool, o' = some pool → pool.objectSize < modulus) :
    HeapOk M ({ k with mem := t }.setPool i o') := by
  obtain ⟨rest, hold, hnew⟩ := flatMap_set_perm handleObjects hi
  obtain ⟨hnod, hhl⟩ := hobj rest (hold.nodup_iff.mp h.nodup)
    fun ptr hptr => h.held ptr (hold.mem_iff.mpr hptr)
  refine ⟨hrdy, hboo, (hnew o').nodup_iff.mpr hnod,
    fun ptr hptr => hhl ptr ((hnew o').mem_iff.mp hptr), fun pool hpl => ?_⟩
  rcases mem_or_eq_of_mem_set hpl with hpl | hpl
  · exact h.objectSize pool hpl
  · exact hsz pool hpl.symm

/-! ## One step -/

def Heap.guards (M : Platform) (x : Env) (k : Heap) : Op → List Guard
  | .call c => callGuards M x k.mem c
  | .arenaAlloc i size align again =>
    match k.arena i with
    | none => []
    | some impl => arenaAllocGuards M x { x with mmap := again } size align impl k.mem
  | .arenaReset i =>
    match k.arena i with
    | none => []
    | some impl => arenaResetGuards x impl k.mem
  | .arenaDestroy i =>
    if k.mem.initialized = false then []
    else
      match k.arena i with
      | none => []
      | some impl => arenaResetGuards x impl k.mem
  | .poolAlloc i allocOk =>
    match k.pool i with
    | none => []
    | some impl => poolAllocGuards M x allocOk impl k.mem
  | .poolDestroy i =>
    if k.mem.initialized = false then []
    else
      match k.pool i with
      | none => []
      | some impl => poolItemsGuards M x impl.items k.mem
  | .arenaInit _ _ _ | .poolInit _ _ _ | .poolFree _ _ => []

def Heap.answer (M : Platform) (x : Env) (k : Heap) : Op → Option ℕ
  | .call (.malloc size) => some (malloc M x size k.mem).1
  | .call (.calloc count size) => some (calloc M x count size k.mem).1
  | .call (.realloc ptr size) =>
    if ptr ≠ 0 ∧ size = 0 then none else some (realloc M x ptr size k.mem).1
  | .arenaAlloc i size align again => some (k.arenaAlloc M x i size align again).1
  | .poolAlloc i allocOk => some (k.poolAlloc M x i allocOk).1
  | _ => none

structure StepOk (M : Platform) (x : Env) (op : Op) (k k' : Heap) : Prop where
  ok : HeapOk M k'
  passed : Passed (k.guards M x op)
  failed : k.answer M x op = some 0 → SameAccounts k.mem k'.mem
  events : ∃ e, Events e k.mem.stats k'.mem.stats ∧ k'.mem.live.length + e ≤ k.mem.live.length + 4

theorem step_failed (hpg : spanSize ≤ M.pageSize) (h : Ready M k.mem) {c : Call}
    (hst : step M k.mem (x, c) = some t) (hzr : k.answer M x (.call c) = some 0) :
    t.live = k.mem.live := by
  cases c with
  | malloc size =>
    simp only [Memory.step] at hst
    split_ifs at hst with hsz
    cases hst
    rw [gain, if_pos (some.inj hzr)]
    exact (malloc_spec hpg h x hsz).1
  | calloc count size =>
    simp only [Memory.step] at hst
    split_ifs at hst with hsz
    cases hst
    rw [gain, if_pos (some.inj hzr)]
    exact calloc_live hpg h x count size
  | realloc ptr size =>
    rw [Heap.answer] at hzr
    split_ifs at hzr with hfr
    have hzr := some.inj hzr
    simp only [Memory.step] at hst
    split_ifs at hst with hptr hnl hnn
    · cases hst
      rw [gain, if_pos hzr, realloc, if_pos hnl]
      exact (malloc_spec hpg h x hptr.1).1
    · exact absurd ⟨hnl, hnn⟩ hfr
    · cases hst
      obtain ⟨d, hd, rfl⟩ := State.mem_of_holds (hptr.2.resolve_left hnl)
      exact realloc_live hpg (h.good hd) hd x hptr.1
  | free ptr | write ptr _ _ => exact absurd hzr (by simp [Heap.answer])

theorem StepOk.of_accounts (hok : HeapOk M k') (hpas : Passed (k.guards M x op))
    (hacc : SameAccounts k.mem k'.mem) (heve : Events 4 k.mem.stats k'.mem.stats) :
    StepOk M x op k k' :=
  ⟨hok, hpas, fun _ => hacc, 4, heve, by rw [hacc.live]⟩

theorem HeapOk.call (h : HeapOk M k) (hpg : spanSize ≤ M.pageSize)
    (hm : ∀ a, x.munmap a = true) {c : Call} (hval : k.valid (.call c) = true)
    (hst : step M k.mem (x, c) = some t) : StepOk M x (.call c) k { k with mem := t } := by
  have hrdy := h.ready.step hpg hst
  have heff := step_effect hpg h.ready hst
  obtain ⟨hboo, hpas⟩ := step_exact hm hpg h.ready hst h.books
  refine ⟨⟨hrdy, hboo, h.nodup, fun ptr hptr => ?_, h.objectSize⟩, hpas, fun hzr => ?_,
    heff.events_le h.ready⟩
  · -- a pool's object is neither freed nor resized by a client
    obtain ⟨d, hd, rfl⟩ := mem_map.mp (h.held ptr hptr)
    refine mem_map_of_mem (heff.keeps hd ?_)
    rw [Heap.objects_eq] at hptr
    obtain ⟨item, htm, hbj⟩ := mem_map.mp hptr
    intro hrel
    cases c with
    | free p | realloc p _ =>
      have hne := all_eq_true.mp hval item htm
      simp only [bne_iff_ne, ne_eq] at hne
      exact hne (hbj.trans hrel.symm)
    | malloc _ | calloc _ _ | write _ _ _ => exact hrel
  · -- the list of blocks is the same, and the counters follow it
    have hlv : t.live = k.mem.live := step_failed hpg h.ready hst hzr
    have hold := h.ready.accounts
    have hnew := hrdy.accounts
    exact ⟨hlv, by rw [hnew.1, hold.1, hlv], by rw [hnew.2.1, hold.2.1, hlv]⟩

theorem HeapOk.ensure (h : HeapOk M k) (hpg : spanSize ≤ M.pageSize) :
    HeapOk M { k with mem := (memoryEnsureInitialized M k.mem).2 } ∧
      SameAccounts k.mem (memoryEnsureInitialized M k.mem).2 ∧
      Events 4 k.mem.stats (memoryEnsureInitialized M k.mem).2.stats := by
  have hens := ensure_settled hpg h.ready h.books
  exact ⟨h.settled hens, hens.accounts, (ensure_events h.ready).mono (by omega)⟩

theorem getElem_of_null {α : Type} {l : List (Option α)} (hlt : i < l.length)
    (hnl : (l[i]?).join = none) : l[i]? = some none := by
  have hso := List.getElem?_eq_getElem hlt
  rw [hso, join_some] at hnl
  rw [hso, hnl]

theorem HeapOk.arenaInit (h : HeapOk M k) (hpg : spanSize ≤ M.pageSize)
    (i blockSize : ℕ) (allocOk : Bool) :
    StepOk M x (.arenaInit i blockSize allocOk) k (k.arenaInit M i blockSize allocOk).2 := by
  obtain ⟨hok, hacc, heve⟩ := h.ensure hpg
  unfold Heap.arenaInit
  by_cases hbad : k.arenas.length ≤ i ∨ k.arena i ≠ none
  · rw [if_pos hbad]
    exact .of_accounts h passed_nil (SameAccounts.refl _) (Events.refl _ _)
  rw [if_neg hbad]
  rw [not_or, not_le, not_not] at hbad
  generalize memoryEnsureInitialized M k.mem = r at hok hacc heve ⊢
  obtain ⟨status, t⟩ := r
  dsimp only at hok hacc heve
  have hsm : StepOk M x (.arenaInit i blockSize allocOk) k { k with mem := t } :=
    .of_accounts hok passed_nil hacc heve
  cases status with
  | ok =>
    dsimp only
    generalize (if blockSize = 0 then arenaDefaultBlockSize else blockSize) = blockSize'
    split_ifs
    · exact hsm
    · exact hsm
    · -- the new arena has no blocks
      exact .of_accounts (hok.setArena (some ⟨blockSize', []⟩)
        (getElem_of_null hbad.1 hbad.2) fun extra hE => .refl hok.ready hE).1 passed_nil
        hacc heve
  | _ => exact hsm

theorem HeapOk.arenaAlloc (h : HeapOk M k) (hpg : spanSize ≤ M.pageSize)
    (hm : ∀ a, x.munmap a = true) (i size align : ℕ) (again : Option ℕ) :
    StepOk M x (.arenaAlloc i size align again) k
      (k.arenaAlloc M x i size align again).2 := by
  unfold Heap.arenaAlloc
  cases hare : k.arena i with
  | none =>
    refine .of_accounts h ?_ (SameAccounts.refl _) (Events.refl _ _)
    rw [Heap.guards, hare]
    exact passed_nil
  | some impl =>
    obtain ⟨hok, hacc, hpas⟩ := h.setArena (some _) (getElem_of_join hare)
      fun extra hE => arenaAlloc_settled (y := { x with mmap := again }) h.ready hE hpg hm hm size
        align
    refine .of_accounts hok ?_ hacc ((arenaAlloc_events h.ready x _ size align impl).mono
      (by omega))
    rw [Heap.guards, hare]
    exact hpas

theorem HeapOk.resetArena (h : HeapOk M k) (hm : ∀ a, x.munmap a = true) {impl : ArenaImpl}
    (hare : k.arena i = some impl) :
    HeapOk M (k.arenaReset x i) ∧ SameAccounts k.mem (k.arenaReset x i).mem ∧
      Passed (arenaResetGuards x impl k.mem) ∧ Events 4 k.mem.stats (k.arenaReset x i).mem.stats := by
  unfold Heap.arenaReset
  rw [hare]
  obtain ⟨hok, hacc, hpas⟩ := h.setArena (some _) (getElem_of_join hare)
    fun extra hE => arenaReset_settled hm h.ready hE
  exact ⟨hok, hacc, hpas, (arenaReset_events x impl k.mem).mono (by omega)⟩

theorem HeapOk.arenaReset (h : HeapOk M k) (hm : ∀ a, x.munmap a = true) (i : ℕ) :
    StepOk M x (.arenaReset i) k (k.arenaReset x i) := by
  cases hare : k.arena i with
  | none =>
    rw [Heap.arenaReset, hare]
    refine .of_accounts h ?_ (SameAccounts.refl _) (Events.refl _ _)
    rw [Heap.guards, hare]
    exact passed_nil
  | some impl =>
    obtain ⟨hok, hacc, hpas, heve⟩ := h.resetArena hm hare
    refine .of_accounts hok ?_ hacc heve
    rw [Heap.guards, hare]
    exact hpas

theorem HeapOk.arenaDestroy (h : HeapOk M k) (hm : ∀ a, x.munmap a = true) (i : ℕ) :
    StepOk M x (.arenaDestroy i) k (k.arenaDestroy x i) := by
  unfold Heap.arenaDestroy
  by_cases hnt : k.mem.initialized = false
  · rw [if_pos hnt]
    refine .of_accounts h ?_ (SameAccounts.refl _) (Events.refl _ _)
    rw [Heap.guards, if_pos hnt]
    exact passed_nil
  rw [if_neg hnt]
  cases hare : k.arena i with
  | none =>
    -- a `NULL` handle stays one
    have hset : (k.arenaReset x i).setArena i none = k := by
      have hls : k.arenas.set i none = k.arenas := by
        refine ext_getElem? fun j => ?_
        rw [List.getElem?_set]
        split_ifs with hj hlt
        · subst hj
          exact (getElem_of_null hlt hare).symm
        · subst hj
          rw [List.getElem?_eq_none (not_lt.mp hlt)]
        · rfl
      rw [Heap.arenaReset, hare]
      simp only [Heap.setArena, hls]
    rw [hset]
    refine .of_accounts h ?_ (SameAccounts.refl _) (Events.refl _ _)
    rw [Heap.guards, if_neg hnt, hare]
    exact passed_nil
  | some impl =>
    obtain ⟨hok, hacc, hpas, heve⟩ := h.resetArena hm hare
    -- the blocks are gone before the handle is
    have hent : (k.arenaReset x i).arenas[i]? = some (some { impl with blocks := [] }) := by
      have hlt : i < k.arenas.length := by
        have hget := getElem_of_join hare
        exact (List.getElem?_eq_some_iff.mp hget).1
      rw [Heap.arenaReset, hare]
      simp only [Heap.setArena, Memory.arenaReset, if_neg hnt, List.getElem?_set_self hlt]
    have hnl := hok.setArena none hent fun extra hE => .refl hok.ready hE
    refine .of_accounts hnl.1 ?_ hacc heve
    rw [Heap.guards, if_neg hnt, hare]
    exact hpas

theorem HeapOk.poolInit (h : HeapOk M k) (hpg : spanSize ≤ M.pageSize) {objectSize : ℕ}
    (hsz : objectSize < modulus) (i : ℕ) (allocOk : Bool) :
    StepOk M x (.poolInit i objectSize allocOk) k (k.poolInit M i objectSize allocOk).2 := by
  obtain ⟨hok, hacc, heve⟩ := h.ensure hpg
  unfold Heap.poolInit
  by_cases hbad : k.pools.length ≤ i ∨ k.pool i ≠ none ∨ objectSize = 0
  · rw [if_pos hbad]
    exact .of_accounts h passed_nil (SameAccounts.refl _) (Events.refl _ _)
  rw [if_neg hbad]
  rw [not_or, not_or, not_le, not_not] at hbad
  generalize memoryEnsureInitialized M k.mem = r at hok hacc heve ⊢
  obtain ⟨status, t⟩ := r
  dsimp only at hok hacc heve
  have hsm : StepOk M x (.poolInit i objectSize allocOk) k { k with mem := t } :=
    .of_accounts hok passed_nil hacc heve
  cases status with
  | ok =>
    dsimp only
    split_ifs
    · exact hsm
    · refine .of_accounts (hok.setPool (getElem_of_null hbad.1 hbad.2.1) hok.ready hok.books
        (fun rest hnod hhl => ⟨hnod, hhl⟩) ?_) passed_nil hacc heve
      intro pool hpl
      cases hpl
      exact hsz
  | _ => exact hsm

theorem HeapOk.poolAlloc (h : HeapOk M k) (hpg : spanSize ≤ M.pageSize)
    (hm : ∀ a, x.munmap a = true) (i : ℕ) (allocOk : Bool) :
    StepOk M x (.poolAlloc i allocOk) k (k.poolAlloc M x i allocOk).2 := by
  cases hpl : k.pool i with
  | none =>
    rw [Heap.poolAlloc, hpl]
    refine .of_accounts h ?_ (SameAccounts.refl _) (Events.refl _ _)
    rw [Heap.guards, hpl]
    exact passed_nil
  | some impl =>
    have hent := getElem_of_join hpl
    have hsz : impl.objectSize < modulus := h.objectSize impl (mem_of_getElem? hent)
    obtain ⟨hrdy, hboo, hpas, hgro⟩ := poolAlloc_spec hm hpg h.ready h.books hsz allocOk
    have heve := poolAlloc_events hpg h.ready x allocOk impl
    have hkp : (Memory.poolAlloc M x allocOk impl k.mem).2.1.objectSize = impl.objectSize :=
      poolAlloc_objectSize M x allocOk impl k.mem
    have hgua : Passed (k.guards M x (.poolAlloc i allocOk)) := by
      rw [Heap.guards, hpl]
      exact hpas
    have hans : k.answer M x (.poolAlloc i allocOk) =
        some (Memory.poolAlloc M x allocOk impl k.mem).1 := by
      rw [Heap.answer, Heap.poolAlloc, hpl]
    rw [Heap.poolAlloc, hpl]
    dsimp only
    generalize Memory.poolAlloc M x allocOk impl k.mem = r at hrdy hboo hgro heve hkp hans ⊢
    obtain ⟨ptr, impl', t⟩ := r
    dsimp only at hrdy hboo hgro heve hkp hans ⊢
    have hnew : ∀ pool, some impl' = some pool → pool.objectSize < modulus := by
      intro pool heq
      cases heq
      rw [hkp]
      exact hsz
    cases hgro with
    | same hacc hobj =>
      refine .of_accounts (h.setPool hent hrdy hboo (fun rest hnod hhl => ?_) hnew) hgua
        hacc (heve.mono (by omega))
      have heq : handleObjects (some impl') = handleObjects (some impl) := hobj
      rw [heq, hacc.live]
      exact ⟨hnod, hhl⟩
    | grown hne hfre hlv hobj =>
      have heq : handleObjects (some impl') = ptr :: handleObjects (some impl) := hobj
      refine ⟨h.setPool hent hrdy hboo (fun rest hnod hhl => ?_) hnew, hgua,
        fun hzr => ?_, 3, heve, by rw [Heap.setPool, hlv, length_cons]⟩
      · -- the new object is none of those that were there
        rw [heq, hlv]
        refine ⟨nodup_cons.mpr ⟨fun hmem => hfre (hhl ptr hmem), hnod⟩, fun q hq => ?_⟩
        rcases mem_cons.mp hq with rfl | hq
        · exact mem_cons_self
        · exact mem_cons_of_mem _ (hhl q hq)
      · rw [hans] at hzr
        exact absurd (some.inj hzr) hne

theorem HeapOk.poolFree (h : HeapOk M k) (i ptr : ℕ) (hval : k.valid (.poolFree i ptr) = true) :
    StepOk M x (.poolFree i ptr) k (k.poolFree M i ptr).2 := by
  unfold Heap.poolFree
  cases hpl : k.pool i with
  | none => exact .of_accounts h passed_nil (SameAccounts.refl _) (Events.refl _ _)
  | some impl =>
    have hent := getElem_of_join hpl
    have hsz : impl.objectSize < modulus := h.objectSize impl (mem_of_getElem? hent)
    have hsm : ∀ items, poolObjects items = poolObjects impl.items →
        StepOk M x (.poolFree i ptr) k
          ({ k with mem := k.mem }.setPool i (some { impl with items := items })) := by
      intro items hobj
      refine .of_accounts (h.setPool hent h.ready h.books (fun rest hnod hhl => ?_) ?_)
        passed_nil (SameAccounts.refl _) (Events.refl _ _)
      · have heq : handleObjects (some { impl with items := items }) = handleObjects (some impl) :=
          hobj
        rw [heq]
        exact ⟨hnod, hhl⟩
      · intro pool heq
        cases heq
        exact hsz
    dsimp only
    unfold Memory.poolFree
    split_ifs with hnl hnt
    · exact hsm impl.items rfl
    · exact hsm impl.items rfl
    cases hretire : poolRetire ptr impl.items with
    | mk status items =>
      cases items with
      | some items => exact hsm items (poolRetire_objects (by rw [hretire]))
      | none =>
        -- an object that is in the pool already is not given back
        obtain ⟨item, htm, hbj, hact⟩ := poolRetire_none (by rw [hretire])
        have hmem : item ∈ k.poolItems := mem_flatMap.mpr ⟨some impl, mem_of_getElem? hent, htm⟩
        have hok := all_eq_true.mp hval item hmem
        rw [hact, hbj] at hok
        simp at hok

theorem HeapOk.poolDestroy (h : HeapOk M k) (hm : ∀ a, x.munmap a = true) (i : ℕ) :
    StepOk M x (.poolDestroy i) k (k.poolDestroy M x i) := by
  unfold Heap.poolDestroy
  by_cases hnt : k.mem.initialized = false
  · rw [if_pos hnt]
    refine .of_accounts h ?_ (SameAccounts.refl _) (Events.refl _ _)
    rw [Heap.guards, if_pos hnt]
    exact passed_nil
  rw [if_neg hnt]
  cases hpl : k.pool i with
  | none =>
    refine .of_accounts h ?_ (SameAccounts.refl _) (Events.refl _ _)
    rw [Heap.guards, if_neg hnt, hpl]
    exact passed_nil
  | some impl =>
    have hent := getElem_of_join hpl
    obtain ⟨rest, hold, -⟩ := flatMap_set_perm handleObjects hent
    have hmn : ∀ ptr ∈ poolObjects impl.items, ptr ∈ k.mem.live.map Block.ptr :=
      fun ptr hptr => h.held ptr (hold.mem_iff.mpr (mem_append_left _ hptr))
    have hnod : (poolObjects impl.items).Nodup := (nodup_append.mp (hold.nodup_iff.mp h.nodup)).1
    obtain ⟨hrdy, hboo, hpas, hln, hlf⟩ :=
      poolFreeItems_spec hm impl.items k.mem h.ready h.books hnod hmn
    refine ⟨h.setPool hent hrdy hboo (fun rest hnod hhl => ?_) (fun pool hpl => ?_), ?_,
      fun hzr => ?_, impl.items.length, poolFreeItems_events M x impl.items k.mem, ?_⟩
    · -- the objects of the other pools stay
      obtain ⟨-, hrs, hdis⟩ := nodup_append.mp hnod
      refine ⟨hrs, fun ptr hptr => ?_⟩
      obtain ⟨d, hd, rfl⟩ := mem_map.mp (hhl ptr (mem_append_right _ hptr))
      exact mem_map_of_mem ((hlf d).mpr ⟨hd, fun hmem => hdis _ hmem _ hptr rfl⟩)
    · exact absurd hpl (by simp)
    · rw [Heap.guards, if_neg hnt, hpl]
      exact hpas
    · exact absurd hzr (by simp [Heap.answer])
    · have hle : (poolFreeItems M x impl.items k.mem).live.length + impl.items.length ≤
          k.mem.live.length + 4 := by omega
      exact hle

theorem HeapOk.step (h : HeapOk M k) (hpg : spanSize ≤ M.pageSize)
    (hm : ∀ a, x.munmap a = true) (hst : k.step M (x, op) = some k') :
    StepOk M x op k k' := by
  unfold Heap.step at hst
  dsimp only at hst
  split_ifs at hst with hbad
  rw [Bool.not_eq_false] at hbad
  cases op with
  | call c =>
    obtain ⟨t, ht, rfl⟩ := map_eq_some_iff.mp hst
    exact h.call hpg hm hbad ht
  | arenaInit i blockSize allocOk =>
    cases hst
    exact h.arenaInit hpg i blockSize allocOk
  | arenaAlloc i size align again =>
    cases hst
    exact h.arenaAlloc hpg hm i size align again
  | arenaReset i =>
    cases hst
    exact h.arenaReset hm i
  | arenaDestroy i =>
    cases hst
    exact h.arenaDestroy hm i
  | poolInit i objectSize allocOk =>
    cases hst
    exact h.poolInit hpg (by simpa [Heap.valid] using hbad) i allocOk
  | poolAlloc i allocOk =>
    cases hst
    exact h.poolAlloc hpg hm i allocOk
  | poolFree i ptr =>
    cases hst
    exact h.poolFree i ptr hbad
  | poolDestroy i =>
    cases hst
    exact h.poolDestroy hm i

def Paid (n : ℕ) (k : Heap) : Prop := ∀ f ∈ eventCounters, f k.mem.stats + k.mem.live.length ≤ 4 * n

theorem Paid.step {n : ℕ} (h : Paid n k) (hs : StepOk M x op k k')
    (hlt : 4 * (n + 1) < modulus) :
    Paid (n + 1) k' ∧ ∀ f ∈ eventCounters, f k.mem.stats ≤ f k'.mem.stats := by
  obtain ⟨e, heve, hlv⟩ := hs.events
  have hbou : ∀ f ∈ eventCounters, f k.mem.stats ≤ f k'.mem.stats ∧
      f k'.mem.stats ≤ f k.mem.stats + e := by
    intro f hf
    have hpd := h f hf
    exact (heve f hf).bounds (by omega)
  refine ⟨fun f hf => ?_, fun f hf => (hbou f hf).1⟩
  have hpd := h f hf
  have hle := (hbou f hf).2
  omega

theorem HeapOk.run (hpg : spanSize ≤ M.pageSize) : ∀ {ops : List (Env × Op)} {k k' : Heap}
    {n : ℕ}, (∀ l ∈ ops, ∀ a, l.1.munmap a = true) →
    Trans.run (Heap.step M) k ops = some k' → HeapOk M k →
    (4 * n < modulus → Paid n k) →
    HeapOk M k' ∧ (4 * (n + ops.length) < modulus → Paid (n + ops.length) k')
  | [], k, k', n, _, hrun, h, hpd => by
    cases hrun
    exact ⟨h, hpd⟩
  | (x, op) :: ops, k, k', n, hm, hrun, h, hpd => by
    rw [Trans.run_cons] at hrun
    obtain ⟨mid, hst, hrs⟩ := bind_eq_some_iff.mp hrun
    have hs := h.step hpg (hm _ mem_cons_self) hst
    have hnx : 4 * (n + 1) < modulus → Paid (n + 1) mid :=
      fun hlt => ((hpd (by omega)).step hs hlt).1
    have hdn := HeapOk.run hpg (fun l hl => hm l (mem_cons_of_mem _ hl)) hrs hs.ok hnx
    rw [length_cons, Nat.add_comm ops.length 1, ← Nat.add_assoc]
    exact hdn

def State.isLarge (M : Platform) (s : State) (b : Block) : Bool :=
  (s.headers (b.ptr - M.headerSize)).kind == .large

theorem Inv.larges_perm {loc : ℕ → Place} {c : Place → List ℕ} (h : Inv M s loc c) :
    ((s.live.filter (s.isLarge M)).map fun b => b.ptr - M.headerSize).Perm
      s.largeAllocations := by
  have hhdr : ∀ b ∈ s.live, M.headerSize ≤ b.ptr := fun b hb =>
    (h.live.cell h.layout h.headers hb).choose_spec.2.1
  have hnod : ((s.live.filter (s.isLarge M)).map fun b => b.ptr - M.headerSize).Nodup := by
    refine List.Nodup.map_on (fun b hb d hd heq => ?_)
      ((List.Nodup.of_map _ h.live.nodup).filter _)
    have hb := (mem_filter.mp hb).1
    have hd := (mem_filter.mp hd).1
    have hptr : b.ptr = d.ptr := by
      have hle := hhdr b hb
      have hle' := hhdr d hd
      omega
    exact inj_on_of_nodup_map h.live.nodup hb hd hptr
  refine (perm_ext_iff_of_nodup hnod (nodup_append.mp h.layout.nodup).2.1).mpr
    fun l => ?_
  constructor
  · intro hl
    obtain ⟨b, hb, rfl⟩ := mem_map.mp hl
    obtain ⟨hb, hlar⟩ := mem_filter.mp hb
    simp only [isLarge, beq_iff_eq] at hlar
    rcases (h.live.mem b.ptr).mp (mem_map_of_mem hb) with ⟨⟨a, ha, i, hi, hu⟩, -⟩ | ⟨l, hl, hu⟩
    · -- a slot has no mapping of its own
      rw [hu, slot_sub, (h.headers.slot a ha i hi).kind] at hlar
      exact absurd hlar (by simp)
    · rw [hu, Nat.add_sub_cancel]
      exact hl
  · intro hl
    obtain ⟨b, hb, hptr⟩ := mem_map.mp ((h.live.mem _).mpr (.inr ⟨l, hl, rfl⟩))
    refine mem_map.mpr ⟨b, mem_filter.mpr ⟨hb, ?_⟩, by rw [hptr, Nat.add_sub_cancel]⟩
    simp only [isLarge, beq_iff_eq]
    rw [hptr, Nat.add_sub_cancel]
    exact (h.layout.larges l hl).kind

structure StatisticsExact (M : Platform) (k : Heap) : Prop where
  activeObjects : k.mem.stats.activeObjects = k.mem.live.length
  activeBytes : k.mem.stats.activeBytes = (k.mem.live.map Block.size).sum
  mappedBytes : k.mem.stats.mappedBytes =
    (k.mem.liveSpans.map fun a => (k.mem.spans a).mappingSize).sum +
      ((k.mem.live.filter (k.mem.isLarge M)).map fun b =>
        (k.mem.headers (b.ptr - M.headerSize)).mappingSize).sum +
      (k.arenaBlocks.map ArenaBlock.mappingSize).sum
  activeObjects_lt : k.mem.stats.activeObjects < modulus
  activeBytes_lt : k.mem.stats.activeBytes < modulus
  mappedBytes_lt : k.mem.stats.mappedBytes < modulus

theorem HeapOk.statistics (h : HeapOk M k) : StatisticsExact M k := by
  obtain ⟨hobj, hbyt, hlt⟩ := h.ready.accounts
  have hrn : (k.regions.map Region.size).sum = (k.arenaBlocks.map ArenaBlock.mappingSize).sum := by
    rw [Heap.regions_eq, List.map_map]
    rfl
  constructor
  case activeObjects => exact hobj
  case activeBytes => exact hbyt
  case mappedBytes =>
    rcases h.ready with hini | ⟨loc, c, hI⟩
    · have hsum := h.books.sum_eq (fun _ => 0) (fun _ => 0)
        (by rw [hini]; exact fun a ha => absurd ha not_mem_nil)
        (by rw [hini]; exact fun a ha => absurd ha not_mem_nil)
      rw [hrn] at hsum
      refine hsum.trans ?_
      rw [hini]
      rfl
    · have hsum := h.books.sum_eq (fun a => (k.mem.spans a).mappingSize)
        (fun l => (k.mem.headers l).mappingSize)
        (fun a ha => (hI.layout.spans a ha).region) (fun l hl => (hI.layout.larges l hl).region)
      have hlr := (hI.larges_perm.map fun l => (k.mem.headers l).mappingSize).sum_eq
      rw [List.map_map] at hlr
      rw [hrn] at hsum
      refine hsum.trans ?_
      rw [hI.layout.liveSpans]
      exact congrArg (fun m => _ + m + _) hlr.symm
  case activeObjects_lt =>
    -- every block has at least one byte
    rcases h.ready with hini | ⟨loc, c, hI⟩
    · rw [hini]
      decide
    · have hle : k.mem.live.length ≤ (k.mem.live.map Block.size).sum := by
        have hone := length_le_sum_of_one_le (k.mem.live.map Block.size) fun n hn => by
          obtain ⟨b, hb, rfl⟩ := mem_map.mp hn
          exact (hI.live.block b hb).size_pos
        rwa [length_map] at hone
      omega
  case activeBytes_lt => exact hlt
  case mappedBytes_lt => exact h.books.lt

/-- **The statistics are exact over every run.** -/
theorem statistics_of_run (hpg : spanSize ≤ M.pageSize) {arenas pools : ℕ}
    {ops : List (Env × Op)} (hm : ∀ l ∈ ops, ∀ a, l.1.munmap a = true)
    (hrun : Trans.run (Heap.step M) (Heap.initial arenas pools) ops = some k) :
    StatisticsExact M k ∧
      ∀ x op k', (∀ a, x.munmap a = true) → k.step M (x, op) = some k' →
        Passed (k.guards M x op) ∧
        (k.answer M x op = some 0 →
          k'.mem.stats.activeObjects = k.mem.stats.activeObjects ∧
            k'.mem.stats.activeBytes = k.mem.stats.activeBytes) ∧
        (4 * (ops.length + 1) < modulus → ∀ f ∈ eventCounters,
          f k.mem.stats ≤ f k'.mem.stats ∧ f k'.mem.stats ≤ 4 * (ops.length + 1)) := by
  have hzr : Paid 0 (Heap.initial arenas pools) :=
    forall_eventCounters.mpr ⟨le_rfl, le_rfl, le_rfl, le_rfl⟩
  obtain ⟨hok, hpd⟩ := HeapOk.run hpg hm hrun (HeapOk.initial M arenas pools) fun _ => hzr
  rw [Nat.zero_add] at hpd
  refine ⟨hok.statistics, fun x op k' hx hst => ?_⟩
  have hs := hok.step hpg hx hst
  refine ⟨hs.passed, fun hfl => ?_, fun hlt f hf => ?_⟩
  · have hsm := hs.failed hfl
    exact ⟨hsm.activeObjects, hsm.activeBytes⟩
  · obtain ⟨hnx, hmo⟩ := (hpd (by omega)).step hs hlt
    have hle := hnx f hf
    exact ⟨hmo f hf, by omega⟩

def handleOps : List (Env × Op) :=
  [(⟨0, some 65536, fun _ => true⟩, .call (.malloc 30000)),
    (⟨1, some 1048576, fun _ => true⟩, .call (.malloc 40000)),
    (⟨0, none, fun _ => true⟩, .arenaInit 0 0 true),
    (⟨0, some 2097152, fun _ => true⟩, .arenaAlloc 0 100 16 none),
    (⟨1, none, fun _ => true⟩, .poolInit 0 32768 true),
    (⟨0, none, fun _ => true⟩, .poolAlloc 0 true),
    (⟨1, none, fun _ => true⟩, .call (.realloc 69728 20000))]

theorem handleOps_stats : (Trans.run (Heap.step ⟨true, 4096⟩) (Heap.initial 1 1) handleOps).map
    (fun k => (k.mem.live.length, k.mem.stats.activeBytes, k.mem.stats.mappedBytes,
      (k.step ⟨true, 4096⟩ (⟨1, none, fun _ => true⟩, .call (.free 69728))).isSome)) =
    some (3, 92768, 184320, true) := by
  decide +kernel

theorem statistics_handleOps : ∃ k k',
    Trans.run (Heap.step ⟨true, 4096⟩) (Heap.initial 1 1) handleOps = some k ∧
      k.mem.stats.activeBytes = 92768 ∧ k.mem.stats.mappedBytes = 184320 ∧
      StatisticsExact ⟨true, 4096⟩ k ∧
      k.step ⟨true, 4096⟩ (⟨1, none, fun _ => true⟩, .call (.free 69728)) = some k' ∧
      Passed (k.guards ⟨true, 4096⟩ ⟨1, none, fun _ => true⟩ (.call (.free 69728))) := by
  obtain ⟨k, hrun, heq⟩ := map_eq_some_iff.mp handleOps_stats
  simp only [Prod.mk.injEq] at heq
  obtain ⟨-, hbyt, hmap, hso⟩ := heq
  obtain ⟨k', hst⟩ := isSome_iff_exists.mp hso
  have hm : ∀ l ∈ handleOps, ∀ a, l.1.munmap a = true := by simp [handleOps]
  obtain ⟨hexa, hnx⟩ := statistics_of_run (by decide) hm hrun
  exact ⟨k, k', hrun, hbyt, hmap, hexa, hst, (hnx _ _ k' (fun _ => rfl) hst).1⟩

theorem HeapOk.arena_owned (h : HeapOk M k) : (k.arenaBlocks.map ArenaBlock.base).Nodup ∧
    ∀ r ∈ k.arenaBlocks, r.region ∈ k.mem.mapped ∧
      r.base ∉ k.mem.allSpans ++ k.mem.largeAllocations := by
  have hwn := h.books.owners.nodup_iff.mp h.books.nodup
  rw [Heap.regions_eq, List.map_map, List.nodup_append] at hwn
  obtain ⟨-, hnod, hds⟩ := hwn
  refine ⟨hnod, fun r hr => ⟨h.books.extra _ ?_, fun hmem => ?_⟩⟩
  · rw [Heap.regions_eq]
    exact List.mem_map_of_mem hr
  · exact hds _ hmem _ (List.mem_map_of_mem hr) rfl

/-- **The heap, its pools and its arenas never share memory.** -/
theorem heap_apart (hpg : spanSize ≤ M.pageSize) {arenas pools : ℕ} {ops : List (Env × Op)}
    (hm : ∀ l ∈ ops, ∀ a, l.1.munmap a = true)
    (hrun : Trans.run (Heap.step M) (Heap.initial arenas pools) ops = some k) :
    (k.poolItems.map PoolItem.object).Nodup ∧
      (∀ item ∈ k.poolItems, item.object ∈ k.mem.live.map Block.ptr) ∧
      k.mem.live.Pairwise (fun b d => Apart b.ptr b.size d.ptr d.size) ∧
      k.arenaBlocks.Pairwise (fun r t => Apart r.base r.mappingSize t.base t.mappingSize) ∧
      ∀ r ∈ k.arenaBlocks, ∀ b ∈ k.mem.live, Apart b.ptr b.size r.base r.mappingSize := by
  have hzr : Paid 0 (Heap.initial arenas pools) :=
    forall_eventCounters.mpr ⟨le_rfl, le_rfl, le_rfl, le_rfl⟩
  obtain ⟨hok, -⟩ := HeapOk.run hpg hm hrun (HeapOk.initial M arenas pools) fun _ => hzr
  obtain ⟨hbas, hown⟩ := hok.arena_owned
  rw [← Heap.objects_eq]
  refine ⟨hok.nodup,
    fun item htm => hok.held _ (Heap.objects_eq k ▸ mem_map_of_mem htm), ?_⟩
  rcases hok.ready with hini | ⟨loc, c, hI⟩
  · -- nothing is mapped before the first call
    have hnn : ∀ r, r ∉ k.arenaBlocks := fun r hr => absurd (hini ▸ (hown r hr).1) not_mem_nil
    rw [eq_nil_iff_forall_not_mem.mpr hnn, hini]
    exact ⟨.nil, .nil, forall_mem_nil _⟩
  · refine ⟨hI.noOverlap.apart, ?_, fun r hr b hb => ?_⟩
    · exact List.Pairwise.imp_of_mem
        (fun hr ht => hI.layout.owners_apart (hown _ hr).1 (hown _ ht).1)
        (pairwise_map.mp hbas)
    · -- the block lies in a mapping of the allocator, which no arena owns
      obtain ⟨n, hc, hle, hfit, -⟩ := hI.live.cell hI.layout hI.headers hb
      obtain ⟨o, m, hreg, hmem, hlo, hhi⟩ := hI.layout.cell_inside hc
      have hne : o ≠ r.base := fun heq => (hown r hr).2 (heq ▸ hmem)
      have hsz := (hI.live.block b hb).size_le
      exact (hI.layout.owners_apart hreg (hown r hr).1 hne).within (by omega) (by omega) le_rfl
        le_rfl

theorem heap_apart_handleOps : ∃ k,
    Trans.run (Heap.step ⟨true, 4096⟩) (Heap.initial 1 1) handleOps = some k ∧
      (k.arenaBlocks.length, k.poolItems.length) = (1, 1) ∧
      ∀ r ∈ k.arenaBlocks, ∀ b ∈ k.mem.live, Apart b.ptr b.size r.base r.mappingSize := by
  have hlen : (Trans.run (Heap.step ⟨true, 4096⟩) (Heap.initial 1 1) handleOps).map
      (fun k => (k.arenaBlocks.length, k.poolItems.length)) = some (1, 1) := by
    decide +kernel
  obtain ⟨k, hrun, heq⟩ := map_eq_some_iff.mp hlen
  exact ⟨k, hrun, heq, (heap_apart (by decide) (by simp [handleOps]) hrun).2.2.2.2⟩

end Veloco.Memory
