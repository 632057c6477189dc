import Veloco.Align
import Veloco.Memory.Handles

/-!
# What an arena hands out
-/

namespace Veloco.Memory

open List Option
open Veloco.Align Veloco.Bytes Veloco.Word

variable {M : Platform} {x y : Env} {s t : State} {impl : ArenaImpl}
  {a m o base used size align : ℕ}

def machineOffset (base used align : ℕ) : ℕ :=
  sub (sub (add (add base used) align) 1 &&& (modulus - align)) base

theorem mask_eq_roundUp {n : ℕ} (hali : isPowerOfTwo align = true) (hlt : align < modulus)
    (hsum : n + (align - 1) ≤ sizeMax) :
    (n + align - 1) &&& (modulus - align) = roundUp align n := by
  have hpos := isPowerOfTwo_pos hali
  obtain ⟨k, rfl⟩ := isPowerOfTwo_iff.mp hali
  have hk : k < 64 := (Nat.pow_lt_pow_iff_right Nat.one_lt_two).mp hlt
  have hmod : sizeMax + 1 = modulus := by decide
  have hwr : n + 2 ^ k - 1 < modulus := by omega
  exact add_and_mask hk.le hwr

theorem arenaOffset_some (hali : isPowerOfTwo align = true) (hlt : align < modulus)
    (h : arenaOffset base used align = some o) :
    base + used + (align - 1) ≤ sizeMax ∧ o = roundUp align (base + used) - base := by
  have hmod : sizeMax + 1 = modulus := by decide
  unfold arenaOffset at h
  dsimp only at h
  split_ifs at h with hsd hcur
  have hsum : base + used + (align - 1) ≤ sizeMax := by omega
  rw [mask_eq_roundUp hali hlt hsum] at h
  exact ⟨hsum, (some.inj h).symm⟩

theorem machineOffset_eq (hali : isPowerOfTwo align = true) (hlt : align < modulus)
    (h : arenaOffset base used align = some o) : machineOffset base used align = o := by
  have hpos := isPowerOfTwo_pos hali
  obtain ⟨hsum, rfl⟩ := arenaOffset_some hali hlt h
  have hmod : sizeMax + 1 = modulus := by decide
  have hcur : add base used = base + used := add_of_lt (by omega)
  have hnx : sub (add (base + used) align) 1 = base + used + align - 1 := by
    unfold sub add
    rw [Nat.mod_add_mod, show base + used + align + (modulus - 1)
      = base + used + align - 1 + modulus by omega, Nat.add_mod_right,
      Nat.mod_eq_of_lt (by omega)]
  have hlow := le_roundUp (n := base + used) hpos
  have hhg := roundUp_lt (n := base + used) hpos
  unfold machineOffset
  rw [hcur, hnx, mask_eq_roundUp hali hlt hsum]
  exact sub_of_le (by omega) (by omega)

structure Placed (base used capacity size align o : ℕ) : Prop where
  behind : used ≤ o
  room : o + size ≤ capacity
  aligned : align ∣ base + o

theorem arenaOffset_placed (hali : isPowerOfTwo align = true) (hlt : align < modulus)
    (h : arenaOffset base used align = some o) :
    used ≤ o ∧ o < used + align ∧ align ∣ base + o := by
  have hpos := isPowerOfTwo_pos hali
  obtain ⟨-, rfl⟩ := arenaOffset_some hali hlt h
  have hlow := le_roundUp (n := base + used) hpos
  have hhg := roundUp_lt (n := base + used) hpos
  refine ⟨by omega, by omega, ?_⟩
  rw [Nat.add_sub_cancel' (by omega)]
  exact dvd_roundUp

/-! ## One call -/

structure Spared (s t : State) : Prop where
  initialized : t.initialized = s.initialized
  pageSize : t.pageSize = s.pageSize
  mapped : ∀ r ∈ s.mapped, r ∈ t.mapped

theorem Spared.refl (s : State) : Spared s s := ⟨rfl, rfl, fun _ h => h⟩

theorem spared_release (x : Env) : Spared s (pageHeapRelease x a m (s.addMapping M a m)) := by
  obtain ⟨mapped, mappedBytes, hmap, heq⟩ := pageHeapRelease_eq x a m (s.addMapping M a m)
  rw [heq]
  refine ⟨rfl, rfl, fun r hr => ?_⟩
  rcases hmap with rfl | rfl
  · exact mem_cons_of_mem _ hr
  · show r ∈ (⟨a, m⟩ :: s.mapped).erase ⟨a, m⟩
    rwa [erase_cons_head]

theorem arenaNewBlock_cases (M : Platform) (x : Env) (minimum : ℕ) (impl : ArenaImpl)
    (hpg : 0 < s.pageSize) :
    arenaNewBlock M x minimum impl s = (none, s) ∨
      ∃ a m, s.Fresh a m ∧ s.pageSize < m ∧ minimum ≤ m - s.pageSize ∧
        arenaNewBlock M x minimum impl s =
          (some { impl with blocks := ⟨a, m, m - s.pageSize, 0⟩ :: impl.blocks },
            s.addMapping M a m) := by
  unfold arenaNewBlock
  dsimp only
  generalize hcap : (if impl.blockSize > minimum then impl.blockSize else minimum) = capacity
  have hmin : minimum ≤ capacity := by
    rw [← hcap]
    split_ifs <;> omega
  by_cases hbig : capacity > sizeMax - (s.pageSize - 1)
  · rw [if_pos hbig]
    exact Or.inl rfl
  rw [if_neg hbig]
  generalize hpag : (capacity + s.pageSize - 1) / s.pageSize = objectPages
  by_cases hnn : objectPages = 0 ∨ objectPages = sizeMax
  · rw [if_pos hnn]
    exact Or.inl rfl
  rw [if_neg hnn]
  rcases pageHeapAcquire_cases M x (objectPages + 1) s with hfl | ⟨a, -, hfre, hacq⟩
  · rw [hfl]
    exact Or.inl rfl
  · -- the pages behind the metadata page hold the capacity
    have hhl : capacity ≤ objectPages * s.pageSize := by
      rw [← hpag]
      exact le_roundUp hpg
    have hone : s.pageSize ≤ objectPages * s.pageSize := Nat.le_mul_of_pos_left _ (by omega)
    have hsz : (objectPages + 1) * s.pageSize = objectPages * s.pageSize + s.pageSize :=
      Nat.succ_mul _ _
    rw [hacq]
    exact Or.inr ⟨a, _, hfre, by omega, by omega, rfl⟩

inductive Served (M : Platform) (size align : ℕ) (impl : ArenaImpl) (s : State) :
    ℕ × ArenaImpl × State → Prop where
  | refused {t : State} (spared : Spared s t) : Served M size align impl s (0, impl, t)
  | placed {block : ArenaBlock} {rest : List ArenaBlock} {o : ℕ} (blocks : impl.blocks = block :: rest)
      (placed : Placed (block.base + s.pageSize) block.used block.capacity size align o) :
      Served M size align impl s (block.base + s.pageSize + o,
        { impl with blocks := { block with used := o + size } :: rest }, s)
  | opened {a m o : ℕ} (fresh : s.Fresh a m) (page : s.pageSize < m)
      (placed : Placed (a + s.pageSize) 0 (m - s.pageSize) size align o) :
      Served M size align impl s (a + s.pageSize + o,
        { impl with blocks := ⟨a, m, m - s.pageSize, o + size⟩ :: impl.blocks },
        s.addMapping M a m)

section Call

variable (hali : isPowerOfTwo align = true) (hlt : align < modulus)
include hali hlt

theorem fits_fresh (hcap : size + align ≤ m - s.pageSize)
    (h : arenaOffset (a + s.pageSize) 0 align = some o) :
    (⟨a, m, m - s.pageSize, 0⟩ : ArenaBlock).fits o size = true ∧
      Placed (a + s.pageSize) 0 (m - s.pageSize) size align o := by
  obtain ⟨-, hnr, hdvd⟩ := arenaOffset_placed hali hlt h
  refine ⟨?_, Nat.zero_le o, by omega, hdvd⟩
  simp only [ArenaBlock.fits, Bool.and_eq_true, decide_eq_true_eq]
  omega

theorem arenaGrow_served (hpg : 0 < s.pageSize) (x : Env) :
    Served M size align impl s (arenaGrow M x size align impl s) := by
  unfold arenaGrow
  split_ifs with hbig
  · exact .refused (.refl s)
  rcases arenaNewBlock_cases M x (size + align) impl hpg with
    hfl | ⟨a, m, hfre, hm, hcap, hnew⟩
  · rw [hfl]
    exact .refused (.refl s)
  rw [hnew]
  dsimp only
  cases hoff : arenaOffset (a + (s.addMapping M a m).pageSize) 0 align with
  | none => exact .refused (spared_release x)
  | some o =>
    obtain ⟨hft, hpla⟩ := fits_fresh hali hlt hcap hoff
    dsimp only
    rw [if_pos hft]
    exact .opened hfre hm hpla

theorem arenaServe_first (hfre : s.Fresh a m) (hm : s.pageSize < m)
    (hcap : size + align ≤ m - s.pageSize) (y : Env) :
    Served M size align impl s (arenaServe M y size align true
      { impl with blocks := ⟨a, m, m - s.pageSize, 0⟩ :: impl.blocks } (s.addMapping M a m)) := by
  unfold arenaServe
  dsimp only
  cases hoff : arenaOffset (a + (s.addMapping M a m).pageSize) 0 align with
  | none => exact .refused (spared_release y)
  | some o =>
    obtain ⟨hft, hpla⟩ := fits_fresh hali hlt hcap hoff
    dsimp only
    rw [if_pos hft]
    exact .opened hfre hm hpla

theorem arenaServe_served (hpg : 0 < s.pageSize) {block : ArenaBlock} {rest : List ArenaBlock}
    (hblo : impl.blocks = block :: rest) (x : Env) :
    Served M size align impl s (arenaServe M x size align false impl s) := by
  unfold arenaServe
  rw [hblo]
  dsimp only
  cases hoff : arenaOffset (block.base + s.pageSize) block.used align with
  | none => exact .refused (.refl s)
  | some o =>
    dsimp only
    split_ifs with hft
    · obtain ⟨hbeh, -, hdvd⟩ := arenaOffset_placed hali hlt hoff
      simp only [ArenaBlock.fits, Bool.and_eq_true, decide_eq_true_eq] at hft
      unfold arenaTake
      rw [hblo]
      exact .placed hblo ⟨hbeh, by omega, hdvd⟩
    · exact arenaGrow_served hali hlt hpg x

end Call

theorem arenaAlloc_served (hnt : s.initialized = true) (hpg : 0 < s.pageSize)
    (hlt : align < modulus) (x y : Env) (impl : ArenaImpl) :
    Served M size align impl s (arenaAlloc M x y size align impl s) := by
  unfold arenaAlloc
  by_cases hbad : size = 0 ∨ isPowerOfTwo align = false
  · rw [if_pos hbad]
    exact .refused (.refl s)
  rw [if_neg hbad, memoryEnsureInitialized, if_pos hnt]
  have hali : isPowerOfTwo align = true := by
    rw [not_or, Bool.not_eq_false] at hbad
    exact hbad.2
  dsimp only
  cases hblo : impl.blocks with
  | cons block rest => exact arenaServe_served hali hlt hpg hblo x
  | nil =>
    dsimp only
    split_ifs with hbig
    · exact .refused (.refl s)
    rcases arenaNewBlock_cases M x (size + align) impl hpg with
      hfl | ⟨a, m, hfre, hm, hcap, hnew⟩
    · rw [hfl]
      exact .refused (.refl s)
    · rw [hnew]
      exact arenaServe_first hali hlt hfre hm hcap y

theorem Served.null {r : ℕ × ArenaImpl × State} (h : Served M size align impl s r)
    (hpg : 0 < s.pageSize) (hnl : r.1 = 0) : r.2.1 = impl := by
  cases h with
  | refused => rfl
  | placed => exact absurd hnl (by dsimp only; omega)
  | opened => exact absurd hnl (by dsimp only; omega)

structure Piece where
  ptr : ℕ
  size : ℕ
  alignment : ℕ
  deriving DecidableEq, Repr

structure ArenaBlock.Ok (page : ℕ) (block : ArenaBlock) : Prop where
  size : block.mappingSize = page + block.capacity
  capacity : 0 < block.capacity
  space : block.base + block.mappingSize ≤ modulus
  used : block.used ≤ block.capacity

structure Pieces (page : ℕ) (blocks : List ArenaBlock) (given : List Piece) : Prop where
  block : ∀ b ∈ blocks, b.Ok page
  away : blocks.Pairwise fun b d => Apart b.base b.mappingSize d.base d.mappingSize
  aligned : ∀ p ∈ given, p.alignment ∣ p.ptr
  inside : ∀ p ∈ given, ∃ b ∈ blocks, b.base + page ≤ p.ptr ∧ p.ptr + p.size ≤ b.base + page + b.used
  apart : given.Pairwise fun p q => Apart p.ptr p.size q.ptr q.size

section Pieces

variable {page : ℕ} {blocks rest : List ArenaBlock} {block : ArenaBlock} {given : List Piece}

theorem Pieces.nil (page : ℕ) : Pieces page [] [] := ⟨by simp, .nil, by simp, by simp, .nil⟩

theorem Pieces.push (h : Pieces page blocks given) (hm : page < m) (hspa : a + m ≤ modulus)
    (hnew : ∀ b ∈ blocks, Apart b.base b.mappingSize a m) :
    Pieces page (⟨a, m, m - page, 0⟩ :: blocks) given where
  block := by
    intro b hb
    rcases mem_cons.mp hb with rfl | hb
    · exact ⟨by dsimp only; omega, by dsimp only; omega, hspa, Nat.zero_le _⟩
    · exact h.block b hb
  away := pairwise_cons.mpr ⟨fun b hb => (hnew b hb).symm, h.away⟩
  aligned := h.aligned
  inside := by
    intro p hp
    obtain ⟨b, hb, hin⟩ := h.inside p hp
    exact ⟨b, mem_cons_of_mem _ hb, hin⟩
  apart := h.apart

theorem Pieces.apart_placed (h : Pieces page (block :: rest) given)
    (hpla : Placed (block.base + page) block.used block.capacity size align o) :
    ∀ p ∈ given, Apart (block.base + page + o) size p.ptr p.size := by
  have hok := h.block block mem_cons_self
  have hsz := hok.size
  have hbeh := hpla.behind
  have hrm := hpla.room
  intro p hp
  obtain ⟨b, hb, hlow, hhg⟩ := h.inside p hp
  rcases mem_cons.mp hb with rfl | hb
  · exact Or.inr (by omega)
  · have hapa := (pairwise_cons.mp h.away).1 b hb
    have hb' := h.block b (mem_cons_of_mem _ hb)
    have hbsi := hb'.size
    have hbus := hb'.used
    exact hapa.within (by omega) (by omega) (by omega) (by omega)

theorem Pieces.place (h : Pieces page (block :: rest) given)
    (hpla : Placed (block.base + page) block.used block.capacity size align o) :
    Pieces page ({ block with used := o + size } :: rest)
      (⟨block.base + page + o, size, align⟩ :: given) where
  block := by
    intro b hb
    rcases mem_cons.mp hb with rfl | hb
    · have hok := h.block block mem_cons_self
      exact ⟨hok.size, hok.capacity, hok.space, hpla.room⟩
    · exact h.block b (mem_cons_of_mem _ hb)
  away := pairwise_cons.mpr (pairwise_cons.mp h.away)
  aligned := by
    intro p hp
    rcases mem_cons.mp hp with rfl | hp
    · exact hpla.aligned
    · exact h.aligned p hp
  inside := by
    intro p hp
    rcases mem_cons.mp hp with rfl | hp
    · exact ⟨_, mem_cons_self, by dsimp only; omega, by dsimp only; omega⟩
    · obtain ⟨b, hb, hlow, hhg⟩ := h.inside p hp
      rcases mem_cons.mp hb with rfl | hb
      · have hbeh := hpla.behind
        exact ⟨_, mem_cons_self, hlow, by dsimp only; omega⟩
      · exact ⟨b, mem_cons_of_mem _ hb, hlow, hhg⟩
  apart := pairwise_cons.mpr ⟨h.apart_placed hpla, h.apart⟩

theorem Pieces.newest {p : Piece} (h : Pieces page blocks (p :: given)) :
    p.alignment ∣ p.ptr ∧
      (∃ b ∈ blocks, b.base + page ≤ p.ptr ∧ p.ptr + p.size ≤ b.base + page + b.capacity) ∧
      ∀ q ∈ given, Apart p.ptr p.size q.ptr q.size := by
  obtain ⟨b, hb, hlow, hhg⟩ := h.inside p mem_cons_self
  have hsd := (h.block b hb).used
  exact ⟨h.aligned p mem_cons_self, ⟨b, hb, hlow, by omega⟩, (pairwise_cons.mp h.apart).1⟩

end Pieces

/-! ## Runs -/

structure ArenaUse where
  impl : ArenaImpl
  mem : State
  given : List Piece

inductive ArenaOp where
  | alloc (x y : Env) (size align : ℕ)
  | reset (x : Env)
  | others (t : State)

namespace ArenaUse

def start (M : Platform) (s : State) (blockSize : ℕ) : Option ArenaUse :=
  match (⟨s, [none], []⟩ : Heap).arenaInit M 0 blockSize true with
  | (.ok, h) => (h.arena 0).map fun impl => ⟨impl, h.mem, []⟩
  | _ => none

variable (M : Platform) (w : ArenaUse)

def alloc (x y : Env) (size align : ℕ) : ArenaUse :=
  let (ptr, impl, s) := arenaAlloc M x y size align w.impl w.mem
  ⟨impl, s, if ptr = 0 then w.given else ⟨ptr, size, align⟩ :: w.given⟩

def reset (x : Env) : ArenaUse :=
  let (impl, s) := arenaReset x w.impl w.mem
  ⟨impl, s, if w.mem.initialized then [] else w.given⟩

def spares (t : State) : Bool :=
  t.initialized == w.mem.initialized && t.pageSize == w.mem.pageSize &&
    w.impl.blocks.all fun block => t.mapped.contains block.region

def step : ArenaOp → Option ArenaUse
  | .alloc x y size align =>
    if size < modulus ∧ align < modulus then some (w.alloc M x y size align) else none
  | .reset x => some (w.reset x)
  | .others t => if w.spares t then some { w with mem := t } else none

structure Ok (M : Platform) (w : ArenaUse) : Prop where
  initialized : w.mem.initialized = true
  pageSize : w.mem.pageSize = M.pageSize
  mapped : ∀ block ∈ w.impl.blocks, block.region ∈ w.mem.mapped
  pieces : Pieces M.pageSize w.impl.blocks w.given

variable {M w}

theorem ok_start {s : State} {blockSize : ℕ} (hs : s.initialized = true → s.pageSize = M.pageSize)
    (h : start M s blockSize = some w) : w.Ok M := by
  have hens : (memoryEnsureInitialized M s).1 = .ok →
      (memoryEnsureInitialized M s).2.initialized = true ∧
        (memoryEnsureInitialized M s).2.pageSize = M.pageSize := by
    unfold memoryEnsureInitialized allocatorInit
    split_ifs with hnt
    · exact fun _ => ⟨hnt, hs hnt⟩
    · simp
    · exact fun _ => ⟨rfl, rfl⟩
  unfold start Heap.arenaInit at h
  rw [if_neg (by simp [Heap.arena])] at h
  generalize memoryEnsureInitialized M s = r at hens h
  obtain ⟨status, t⟩ := r
  cases status <;> simp only [reduceCtorEq] at h
  generalize (if blockSize = 0 then arenaDefaultBlockSize else blockSize) = blockSize at h
  split_ifs at h
  simp only [Heap.arena, Heap.setArena, set_cons_zero, List.getElem?_cons_zero,
    join_some, map_some, some.injEq] at h
  subst h
  obtain ⟨hnt, hpg⟩ := hens rfl
  exact ⟨hnt, hpg, by simp, .nil _⟩

theorem Ok.alloc (h : w.Ok M) (hpg : 0 < M.pageSize) (hlt : align < modulus) (x y : Env)
    (size : ℕ) : (w.alloc M x y size align).Ok M := by
  have hser : Served M size align w.impl w.mem _ :=
    arenaAlloc_served h.initialized (h.pageSize ▸ hpg) hlt x y w.impl
  unfold ArenaUse.alloc
  generalize arenaAlloc M x y size align w.impl w.mem = r at hser ⊢
  have hps := h.pageSize
  cases hser with
  | refused hsp =>
    exact ⟨hsp.initialized.trans h.initialized, hsp.pageSize.trans h.pageSize,
      fun block hb => hsp.mapped _ (h.mapped block hb), h.pieces⟩
  | @placed block rest o hblo hpla =>
    have hpie := h.pieces
    have hmap := h.mapped
    rw [hblo] at hpie hmap
    rw [hps] at hpla ⊢
    refine ⟨h.initialized, hps, ?_, ?_⟩
    · intro b hb
      rcases mem_cons.mp hb with rfl | hb
      · exact hmap block mem_cons_self
      · exact hmap b (mem_cons_of_mem _ hb)
    · dsimp only
      rw [if_neg (by omega)]
      exact hpie.place hpla
  | @opened a m o hfre hm hpla =>
    obtain ⟨-, -, hspa, hwy⟩ := hfre
    rw [hps] at hm hpla ⊢
    refine ⟨h.initialized, hps, ?_, ?_⟩
    · intro b hb
      rcases mem_cons.mp hb with rfl | hb
      · exact mem_cons_self
      · exact mem_cons_of_mem _ (h.mapped b hb)
    · dsimp only
      rw [if_neg (by omega)]
      have hph := h.pieces.push hm hspa fun b hb => hwy _ (h.mapped b hb)
      exact hph.place hpla

theorem releaseBlocks_kept (x : Env) : ∀ (blocks : List ArenaBlock) (s : State),
    (arenaReleaseBlocks x blocks s).initialized = s.initialized ∧
      (arenaReleaseBlocks x blocks s).pageSize = s.pageSize
  | [], _ => ⟨rfl, rfl⟩
  | block :: rest, s => by
    obtain ⟨mapped, mappedBytes, -, heq⟩ := pageHeapRelease_eq x block.base block.mappingSize s
    have hrs := releaseBlocks_kept x rest (pageHeapRelease x block.base block.mappingSize s)
    rw [heq] at hrs
    rw [arenaReleaseBlocks, heq]
    exact hrs

theorem Ok.reset (h : w.Ok M) (x : Env) : (w.reset x).Ok M := by
  have hnt := h.initialized
  obtain ⟨hkp, hpg⟩ := releaseBlocks_kept x w.impl.blocks w.mem
  have hne : ¬ w.mem.initialized = false := by simp [hnt]
  unfold ArenaUse.reset arenaReset
  rw [if_neg hne, if_pos hnt]
  exact ⟨hkp.trans hnt, hpg.trans h.pageSize, by simp, .nil _⟩

theorem Ok.step {op : ArenaOp} {v : ArenaUse} (hpg : 0 < M.pageSize)
    (hst : w.step M op = some v) (h : w.Ok M) : v.Ok M := by
  cases op with
  | alloc x y size align =>
    simp only [ArenaUse.step, Option.ite_none_right_eq_some, Option.some.injEq] at hst
    obtain ⟨⟨-, hlt⟩, rfl⟩ := hst
    exact h.alloc hpg hlt x y size
  | reset x =>
    simp only [ArenaUse.step, Option.some.injEq] at hst
    subst hst
    exact h.reset x
  | others t =>
    simp only [ArenaUse.step, spares, Bool.and_eq_true, beq_iff_eq, List.all_eq_true,
      List.contains_iff_mem, Option.ite_none_right_eq_some, Option.some.injEq] at hst
    obtain ⟨⟨⟨hnt, hsz⟩, hmap⟩, rfl⟩ := hst
    exact ⟨hnt.trans h.initialized, hsz.trans h.pageSize, hmap, h.pieces⟩

end ArenaUse

structure ArenaBlock.Unwrapped (page : ℕ) (block : ArenaBlock) : Prop where
  data : add block.base page = block.base + page
  stop : block.base + page + block.capacity ≤ modulus
  offset : ∀ used align o, isPowerOfTwo align = true → align < modulus →
    arenaOffset (block.base + page) used align = some o →
      add (block.base + page) used = block.base + page + used ∧
      machineOffset (block.base + page) used align = o ∧
      add (block.base + page) o = block.base + page + o

theorem ArenaBlock.Ok.unwrapped {page : ℕ} {block : ArenaBlock} (h : block.Ok page) :
    block.Unwrapped page := by
  have hsz := h.size
  have hcap := h.capacity
  have hspa := h.space
  have hmod : sizeMax + 1 = modulus := by decide
  refine ⟨add_of_lt (by omega), by omega, fun used align o hali hlt hoff => ?_⟩
  obtain ⟨hsum, -⟩ := arenaOffset_some hali hlt hoff
  obtain ⟨-, hnr, -⟩ := arenaOffset_placed hali hlt hoff
  exact ⟨add_of_lt (by omega), machineOffset_eq hali hlt hoff, add_of_lt (by omega)⟩

/-- **What an arena hands out.** -/
theorem arenaAlloc_apart {s : State} {blockSize : ℕ} {w v : ArenaUse} {ops : List ArenaOp}
    (hpow : isPowerOfTwo M.pageSize = true)
    (hs : s.initialized = true → s.pageSize = M.pageSize)
    (hsta : ArenaUse.start M s blockSize = some w)
    (hrun : Trans.run (ArenaUse.step M) w ops = some v) :
    Pieces M.pageSize v.impl.blocks v.given ∧
      (∀ block ∈ v.impl.blocks, block.Unwrapped M.pageSize) ∧
      ∀ (x y : Env) (size align : ℕ), size < modulus → align < modulus →
        let ptr := (arenaAlloc M x y size align v.impl v.mem).1
        let impl := (arenaAlloc M x y size align v.impl v.mem).2.1
        (ptr = 0 → impl = v.impl) ∧
          (ptr ≠ 0 → align ∣ ptr ∧
            (∃ block ∈ impl.blocks, block.base + M.pageSize ≤ ptr ∧
              ptr + size ≤ block.base + M.pageSize + block.capacity) ∧
            ∀ p ∈ v.given, Apart ptr size p.ptr p.size) ∧
          ∀ block ∈ impl.blocks, block.used ≤ block.capacity ∧ block.Unwrapped M.pageSize := by
  have hpg := isPowerOfTwo_pos hpow
  have hok : v.Ok M := Trans.run_invariant (I := ArenaUse.Ok M)
    (fun _ _ _ hst h => h.step hpg hst) hrun (ArenaUse.ok_start hs hsta)
  refine ⟨hok.pieces, fun block hb => (hok.pieces.block block hb).unwrapped, ?_⟩
  intro x y size align _ hlt ptr impl
  have hpag : 0 < v.mem.pageSize := hok.pageSize ▸ hpg
  have hnx : Pieces M.pageSize impl.blocks
      (if ptr = 0 then v.given else ⟨ptr, size, align⟩ :: v.given) :=
    (hok.alloc hpg hlt x y size).pieces
  refine ⟨(arenaAlloc_served hok.initialized hpag hlt x y v.impl).null hpag, ?_, ?_⟩
  · intro hptr
    rw [if_neg hptr] at hnx
    exact hnx.newest
  · intro block hb
    have hbl := hnx.block block hb
    exact ⟨hbl.used, hbl.unwrapped⟩

def threePieces : List ArenaOp :=
  let env : ℕ → Env := fun a => ⟨0, some a, fun _ => true⟩
  [.alloc (env 65536) (env 0) 24 16, .alloc (env 0) (env 0) 40 64,
    .alloc (env 131072) (env 0) 9000 8192]

theorem arenaAlloc_apart_threePieces :
    ∃ w v, ArenaUse.start ⟨false, 4096⟩ State.initial 100 = some w ∧
      Trans.run (ArenaUse.step ⟨false, 4096⟩) w threePieces = some v ∧
      v.given = [⟨139264, 9000, 8192⟩, ⟨69696, 40, 64⟩, ⟨69632, 24, 16⟩] ∧
      Pieces 4096 v.impl.blocks v.given := by
  have hrun : ((ArenaUse.start ⟨false, 4096⟩ State.initial 100).bind fun w =>
      (Trans.run (ArenaUse.step ⟨false, 4096⟩) w threePieces).map ArenaUse.given) =
      some [⟨139264, 9000, 8192⟩, ⟨69696, 40, 64⟩, ⟨69632, 24, 16⟩] := by
    decide +kernel
  obtain ⟨w, hsta, hw⟩ := bind_eq_some_iff.mp hrun
  obtain ⟨v, hv, hgiv⟩ := map_eq_some_iff.mp hw
  exact ⟨w, v, hsta, hv, hgiv, (arenaAlloc_apart (by decide) (by simp [State.initial]) hsta hv).1⟩

end Veloco.Memory
