import Veloco.Memory.Clients
import Veloco.Startup.Init

/-!
# What a failed initialisation leaves behind

`vl_runtime_init_with_config` can fail at any turn of its loop over the Ps. Two things are asked of such a
call: what it does to the allocator, which may have been in use before (`failed_init_allocator`), and
which descriptors and threads its cleanup touches (`failed_init_own`).

For the second, `Reached` says what a partial run of the loop has set up: the first `c` Ps have an
eventfd, the Ps after the failing one are still zero-filled, and a thread runs for each P below `t`. The
three loops of `vl_runtime_cleanup_partial` then leave a history that is known exactly (`unwinding`); its
wakeups run over all `worker_count` Ps, and descriptor 0 of a P that was not reached is a descriptor.
-/

namespace Veloco.Startup

open Function List
open Veloco.Memory (Platform allocatorInit allocatorShutdown)

variable {M : Platform} {x : Answers} {runtime : RuntimePtr} {config : Option Config}
  {w w₀ w' : World} {impl impl' : Impl} {n c t m : ℕ} {e : Status}

/-! ## The allocator -/

theorem write_memory (fd : ℤ) : (w.write fd).memory = w.memory := by
  unfold World.write
  split_ifs <;> rfl

theorem close_memory (fd : ℤ) : (w.close fd).memory = w.memory := by
  unfold World.close
  split_ifs <;> rfl

theorem wakeLoop_memory : (wakeLoop impl n w).memory = w.memory := by
  induction n with
  | zero => rfl
  | succ n ih =>
    rw [wakeLoop, write_memory]
    exact ih

theorem stopLoop_memory (s : Impl × World) : (stopLoop n s).2.memory = s.2.memory := by
  induction n with
  | zero => rfl
  | succ n ih =>
    rw [← ih]
    simp only [stopLoop, workerStop]
    split_ifs <;> rfl

theorem closeLoop_memory : (closeLoop impl n w).memory = w.memory := by
  induction n with
  | zero => rfl
  | succ n ih =>
    rw [← ih]
    simp only [closeLoop]
    split_ifs
    · exact close_memory _
    · rfl

theorem runtimeCleanupPartial_memory : (runtimeCleanupPartial impl n w).memory = w.memory := by
  have hwk : ∀ i : Impl, (runtimeWakeWorkers i w).memory = w.memory := by
    intro i
    unfold runtimeWakeWorkers
    split_ifs
    · rfl
    · exact wakeLoop_memory
  simp only [runtimeCleanupPartial]
  rw [closeLoop_memory]
  split_ifs <;> exact (stopLoop_memory _).trans (hwk _)

def reachedWorld : Except Failed (Impl × World) → World
  | .error (_, _, _, w) => w
  | .ok (_, w) => w

theorem startP_memory (index : ℕ) : (reachedWorld (startP x index impl w)).memory = w.memory := by
  simp only [startP, startWorker]
  split
  · rfl
  · split
    · rfl
    · split_ifs <;> rfl

theorem startPs_memory (n : ℕ) (impl : Impl) (w : World) :
    (reachedWorld (startPs x n impl w)).memory = w.memory := by
  induction n with
  | zero => rfl
  | succ n ih =>
    rw [startPs]
    cases hs : startPs x n impl w with
    | error e =>
      rw [hs] at ih
      exact ih
    | ok s =>
      rw [hs] at ih
      exact (startP_memory n).trans ih

theorem setUp_memory (hfl : setUp x config w = (.error e, w')) :
    w'.memory = allocatorShutdown x.memory w.memory := by
  unfold setUp at hfl
  have hrea := startPs_memory (x := x) (workerCountOf config) (newImpl config) w
  split at hfl
  case h_1 status n impl w₁ hs =>
    obtain ⟨-, rfl⟩ := Prod.mk.inj hfl
    rw [hs] at hrea
    rw [← hrea]
    exact congrArg (allocatorShutdown x.memory) runtimeCleanupPartial_memory
  case h_2 impl w₁ hs =>
    rw [hs] at hrea
    dsimp only at hfl
    split_ifs at hfl
    · obtain ⟨-, rfl⟩ := Prod.mk.inj hfl
      rw [← hrea]
      exact congrArg (allocatorShutdown x.memory) runtimeCleanupPartial_memory
    · simp at hfl

theorem failed_init_memory (hacc : accepted runtime config = true)
    (hfl : runtimeInitWithConfig M x runtime config w = (.error e, w')) :
    w'.memory = (allocatorInit M w.memory).2 ∧ (allocatorInit M w.memory).1 ≠ .ok ∨
      w'.memory = allocatorShutdown x.memory (allocatorInit M w.memory).2 := by
  unfold runtimeInitWithConfig at hfl
  rw [if_neg (by simp [hacc])] at hfl
  split at hfl
  case h_1 memory hnt =>
    rw [hnt]
    right
    dsimp only at hfl
    split_ifs at hfl
    · obtain ⟨-, rfl⟩ := Prod.mk.inj hfl
      rfl
    · obtain ⟨-, rfl⟩ := Prod.mk.inj hfl
      rfl
    · obtain ⟨-, rfl⟩ := Prod.mk.inj hfl
      rfl
    · obtain ⟨-, rfl⟩ := Prod.mk.inj hfl
      exact congrArg (allocatorShutdown x.memory) runtimeCleanupPartial_memory
    · exact setUp_memory hfl
  case h_2 status memory hne hnt =>
    obtain ⟨-, rfl⟩ := Prod.mk.inj hfl
    rw [hnt]
    exact .inl ⟨rfl, fun hok => hne (hok ▸ rfl)⟩

/-- The state of an allocator that holds nothing. -/
structure Blank (s : Memory.State) : Prop where
  pageSize : s.pageSize = 0
  stats : s.stats = default
  bins : s.bins = fun _ => default
  central : s.central = fun _ => []
  allSpans : s.allSpans = []
  largeAllocations : s.largeAllocations = []

/-- The allocator is as before: its own fields, and the headers and contents of the live blocks. -/
structure Untouched (M : Platform) (s s' : Memory.State) : Prop where
  initialized : s'.initialized = s.initialized
  pageSize : s'.pageSize = s.pageSize
  stats : s'.stats = s.stats
  bins : s'.bins = s.bins
  central : s'.central = s.central
  allSpans : s'.allSpans = s.allSpans
  largeAllocations : s'.largeAllocations = s.largeAllocations
  spans : ∀ a ∈ s.allSpans, s'.spans a = s.spans a
  mapped : s'.mapped = s.mapped
  live : s'.live = s.live
  header : ∀ b ∈ s.live, s'.headers (b.ptr - M.headerSize) = s.headers (b.ptr - M.headerSize)
  contents : ∀ b ∈ s.live, ∀ i < b.size, s'.bytes (b.ptr + i) = s.bytes (b.ptr + i)

theorem Untouched.refl (M : Platform) (s : Memory.State) : Untouched M s s :=
  ⟨rfl, rfl, rfl, rfl, rfl, rfl, rfl, fun _ _ => rfl, rfl, rfl, fun _ _ => rfl,
    fun _ _ _ _ => rfl⟩

theorem allocatorShutdown_initialized (x : Memory.Env) (s : Memory.State) :
    (allocatorShutdown x s).initialized = false := by
  unfold allocatorShutdown
  split_ifs with hs
  · exact hs
  · rfl

theorem shutdown_of_blank {s : Memory.State} (x : Memory.Env) (hnt : s.initialized = false)
    (h : Blank s) : allocatorShutdown x (allocatorInit M s).2 = s := by
  obtain ⟨hpg, hstat, hbn, hcen, hspa, hlar⟩ := h
  unfold allocatorInit
  rw [if_neg (by simp [hnt])]
  split_ifs
  · exact if_pos hnt
  · cases s
    simp_all [allocatorShutdown]

/-- **A failed initialisation and the allocator.** -/
theorem failed_init_allocator (hbla : w.memory.initialized = false → Blank w.memory)
    (hfl : runtimeInitWithConfig M x runtime config w = (.error e, w')) :
    Untouched M w.memory w'.memory ↔
      accepted runtime config = false ∨ w.memory.initialized = false := by
  cases hacc : accepted runtime config with
  | false =>
    rw [runtimeInitWithConfig, if_pos hacc] at hfl
    obtain ⟨-, rfl⟩ := Prod.mk.inj hfl
    simp [Untouched.refl]
  | true =>
    cases hnt : w.memory.initialized with
    | false =>
      simp only [or_true, iff_true]
      rcases failed_init_memory hacc hfl with ⟨hmem, hne⟩ | hmem
      · have hsm : (allocatorInit M w.memory).2 = w.memory := by
          unfold allocatorInit at hne ⊢
          split_ifs at hne ⊢ <;> first | rfl | exact absurd rfl hne
        rw [hmem, hsm]
        exact Untouched.refl M w.memory
      · rw [hmem, shutdown_of_blank x.memory hnt (hbla hnt)]
        exact Untouched.refl M w.memory
    | true =>
      simp only [Bool.true_eq_false, or_self, iff_false]
      intro h
      have hok : (allocatorInit M w.memory).1 = .ok := by rw [allocatorInit, if_pos hnt]
      rcases failed_init_memory hacc hfl with ⟨-, hne⟩ | hmem
      · exact hne hok
      · have hfg := h.initialized
        rw [hmem, allocatorShutdown_initialized, hnt] at hfg
        simp at hfg

def statusOf : Except Status Impl → Status
  | .ok _ => .ok
  | .error e => e

theorem error_of_statusOf {r : Except Status Impl × World} (h : statusOf r.1 = e) (he : e ≠ .ok) :
    r = (.error e, r.2) := by
  obtain ⟨a, w⟩ := r
  cases a with
  | ok impl => exact absurd h.symm he
  | error e' =>
    obtain rfl : e' = e := h
    rfl

def goodAnswers : Answers where
  memory := ⟨0, none, fun _ => true⟩
  callocImpl := true
  mutexInit := true
  condInit := true
  callocPs := true
  runQueue := fun _ => true
  eventfd := fun i => some (i + 3)
  fiberSched := fun _ => true
  pthreadCreate := fun _ => true

def schedWorld (memory : Memory.State) : World := ⟨memory, fun fd => decide (fd < 3), true, []⟩

def blockCalls : List (Memory.Env × Memory.Call) :=
  [(⟨0, some 65536, fun _ => true⟩, .malloc 40000)]

theorem blockCalls_init :
    (Trans.run (Memory.step ⟨false, 4096⟩) Memory.State.initial blockCalls).map
      (fun memory => (memory.initialized, memory.live, memory.mapped,
        statusOf (runtimeInitWithConfig ⟨false, 4096⟩ goodAnswers (some none) none
          (schedWorld memory)).1,
        (runtimeInitWithConfig ⟨false, 4096⟩ goodAnswers (some none) none
          (schedWorld memory)).2.memory.mapped)) =
      some (true, [⟨65616, 40000⟩], [⟨65536, 40960⟩], .system, []) := by
  decide +kernel

/-- At an allocator that was never initialised, and at one with a live block. -/
theorem failed_init_allocator_fresh :
    (∃ w', runtimeInitWithConfig ⟨false, 4096⟩ goodAnswers (some none) none
        (schedWorld Memory.State.initial) = (.error .system, w') ∧
      Untouched ⟨false, 4096⟩ Memory.State.initial w'.memory) ∧
    ∃ memory w', Trans.run (Memory.step ⟨false, 4096⟩) Memory.State.initial blockCalls = some memory ∧
      memory.live = [⟨65616, 40000⟩] ∧
      runtimeInitWithConfig ⟨false, 4096⟩ goodAnswers (some none) none (schedWorld memory) =
        (.error .system, w') ∧
      ¬ Untouched ⟨false, 4096⟩ memory w'.memory := by
  constructor
  · have hsta : statusOf (runtimeInitWithConfig ⟨false, 4096⟩ goodAnswers (some none) none
        (schedWorld Memory.State.initial)).1 = .system := by decide +kernel
    have hfl := error_of_statusOf hsta (by decide)
    refine ⟨_, hfl, (failed_init_allocator (w := schedWorld Memory.State.initial) ?_ hfl).mpr ?_⟩
    · exact fun _ => ⟨rfl, rfl, rfl, rfl, rfl, rfl⟩
    · exact .inr rfl
  · obtain ⟨memory, hmm, heq⟩ := Option.map_eq_some_iff.mp blockCalls_init
    simp only [Prod.mk.injEq] at heq
    obtain ⟨hnt, hlv, -, hsta, -⟩ := heq
    have hfl := error_of_statusOf hsta (by decide)
    refine ⟨memory, _, hmm, hlv, hfl, fun h => ?_⟩
    have hiff := failed_init_allocator (w := schedWorld memory)
      (fun hfre => absurd (hnt.symm.trans hfre) (by decide)) hfl
    rcases hiff.mp h with hacc | hfre
    · cases hacc
    · exact absurd (hnt.symm.trans hfre) (by decide)

/-- **A failed initialisation takes a block away** -/
theorem failed_init_unmaps_block : ∃ memory w',
    Trans.run (Memory.step ⟨false, 4096⟩) Memory.State.initial blockCalls = some memory ∧
    memory.initialized = true ∧ memory.live = [⟨65616, 40000⟩] ∧ memory.mapped ≠ [] ∧
    runtimeInitWithConfig ⟨false, 4096⟩ goodAnswers (some none) none
      (schedWorld memory) = (.error .system, w') ∧
    w'.memory.mapped = [] ∧ ¬ Untouched ⟨false, 4096⟩ memory w'.memory := by
  obtain ⟨memory, hmm, heq⟩ := Option.map_eq_some_iff.mp blockCalls_init
  simp only [Prod.mk.injEq] at heq
  obtain ⟨hnt, hlv, hmap, hsta, hgn⟩ := heq
  have hfl := error_of_statusOf hsta (by decide)
  refine ⟨memory, _, hmm, hnt, hlv, by simp [hmap], hfl, hgn, fun h => ?_⟩
  have hsm := h.mapped
  rw [hgn, hmap] at hsm
  simp at hsm

/-! ## The turns of the loop -/

/-- One of the first `c` calls of `eventfd` answered `fd`. -/
def Answers.Made (x : Answers) (c fd : ℕ) : Prop := ∃ i < c, x.eventfd i = some fd

/-- The kernel's answers: an eventfd is a descriptor that was not open, and a new one each time. -/
structure Answers.Fresh (x : Answers) (w : World) : Prop where
  closed : ∀ i fd, x.eventfd i = some fd → w.isOpen fd = false
  once : ∀ i j fd, x.eventfd i = some fd → x.eventfd j = some fd → i = j

theorem Answers.made_succ {fd : ℕ} : x.Made (c + 1) fd ↔ x.Made c fd ∨ x.eventfd c = some fd := by
  constructor
  · rintro ⟨i, hi, hfd⟩
    rcases Nat.lt_succ_iff_lt_or_eq.mp hi with hlt | rfl
    · exact .inl ⟨i, hlt, hfd⟩
    · exact .inr hfd
  · rintro (⟨i, hi, hfd⟩ | hfd)
    · exact ⟨i, by omega, hfd⟩
    · exact ⟨c, by omega, hfd⟩

theorem Answers.Fresh.not_made {fd : ℕ} (h : x.Fresh w) (hfd : x.eventfd c = some fd) :
    ¬ x.Made c fd := by
  rintro ⟨i, hi, hi'⟩
  have heq := h.once i c fd hi' hfd
  omega

structure History (x : Answers) (c t : ℕ) (events : List Event) : Prop where
  created : ∀ fd, events.count (.created fd) ≤ 1 ∧ (.created fd ∈ events ↔ x.Made c fd)
  started : ∀ i, events.count (.started i) = if 0 < i ∧ i < t then 1 else 0
  wrote : ∀ fd, .wrote fd ∉ events
  closed : ∀ fd, .closed fd ∉ events
  joined : ∀ i, .joined i ∉ events

/-- What the loop over the Ps has set up when it leaves after `n` turns: `c` eventfds, and a thread for
each P from 1 up to `t`. -/
structure Reached (x : Answers) (w₀ : World) (n c t : ℕ) (impl : Impl) (w : World) : Prop where
  made : ∀ i < c, ∃ fd : ℕ, x.eventfd i = some fd ∧ (impl.ps i).eventFd = fd
  unmade : ∀ i, c ≤ i → i < n → (impl.ps i).eventFd = -1
  zero : ∀ i, n ≤ i → impl.ps i = {}
  started : ∀ i, (impl.ps i).threadStarted = true ↔ 0 < i ∧ i < t
  isOpen : ∀ fd, w.isOpen fd = true ↔ w₀.isOpen fd = true ∨ x.Made c fd
  history : History x c t w.events
  bounds : c ≤ n ∧ t ≤ n

theorem History.create {events : List Event} {fd : ℕ} (h : History x c t events)
    (hfd : x.eventfd c = some fd) (hnew : ¬ x.Made c fd) :
    History x (c + 1) t (events ++ [.created fd]) where
  created := by
    intro d
    obtain ⟨hle, hmem⟩ := h.created d
    rw [Answers.made_succ, ← hmem]
    by_cases hd : d = fd
    · subst hd
      have hnot : .created d ∉ events := fun hin => hnew (hmem.mp hin)
      simp [count_append, count_eq_zero_of_not_mem hnot, hfd]
    · have hne : x.eventfd c ≠ some d := by
        rw [hfd]
        simpa using Ne.symm hd
      simp [count_append, hd, Ne.symm hd, hle, hne]
  started := by
    intro i
    simpa [count_append] using h.started i
  wrote := by simpa using h.wrote
  closed := by simpa using h.closed
  joined := by simpa using h.joined

theorem History.start {events : List Event} (h : History x c t events) (ht : 0 < t) :
    History x c (t + 1) (events ++ [.started t]) where
  created := by
    intro fd
    simpa [count_append] using h.created fd
  started := by
    intro i
    rw [count_append, h.started i]
    by_cases hi : i = t
    · subst hi
      simp [ht]
    · have hiff : (0 < i ∧ i < t + 1) ↔ (0 < i ∧ i < t) := by omega
      simp only [hiff]
      simp [Ne.symm hi]
  wrote := by simpa using h.wrote
  closed := by simpa using h.closed
  joined := by simpa using h.joined

theorem setP_ps_of_ne {i : ℕ} {p : P} (hi : i ≠ n) : (impl.setP n p).ps i = impl.ps i :=
  update_of_ne hi _ _

theorem setP_ps_self {p : P} : (impl.setP n p).ps n = p := update_self _ _ _

theorem Reached.unmade_turn {p : P} (h : Reached x w₀ n n n impl w) (hfd : p.eventFd = -1)
    (hsr : p.threadStarted = false) : Reached x w₀ (n + 1) n n (impl.setP n p) w where
  made := by
    intro i hi
    rw [setP_ps_of_ne (Nat.ne_of_lt hi)]
    exact h.made i hi
  unmade := by
    intro i hle hlt
    obtain rfl : i = n := by omega
    rw [setP_ps_self, hfd]
  zero := by
    intro i hi
    rw [setP_ps_of_ne (by omega)]
    exact h.zero i (by omega)
  started := by
    intro i
    by_cases hi : i = n
    · subst hi
      rw [setP_ps_self, hsr]
      simp
    · rw [setP_ps_of_ne hi]
      exact h.started i
  isOpen := h.isOpen
  history := h.history
  bounds := by omega

theorem Reached.made_turn {p : P} {fd : ℕ} (h : Reached x w₀ n n n impl w) (hfre : x.Fresh w₀)
    (hmd : x.eventfd n = some fd) (hfd : p.eventFd = fd) (hsr : p.threadStarted = false) :
    Reached x w₀ (n + 1) (n + 1) n (impl.setP n p)
      { w with
        isOpen := update w.isOpen fd true
        events := w.events ++ [.created fd] } where
  made := by
    intro i hi
    by_cases hin : i = n
    · subst hin
      exact ⟨fd, hmd, by rw [setP_ps_self, hfd]⟩
    · rw [setP_ps_of_ne hin]
      exact h.made i (by omega)
  unmade := by
    intro i hle hlt
    omega
  zero := by
    intro i hi
    rw [setP_ps_of_ne (by omega)]
    exact h.zero i (by omega)
  started := by
    intro i
    by_cases hi : i = n
    · subst hi
      rw [setP_ps_self, hsr]
      simp
    · rw [setP_ps_of_ne hi]
      exact h.started i
  isOpen := by
    intro d
    rw [Answers.made_succ, ← or_assoc, ← h.isOpen d]
    by_cases hd : d = fd
    · subst hd
      simp [hmd]
    · have hne : x.eventfd n ≠ some d := by
        rw [hmd]
        simpa using Ne.symm hd
      simp [hd, hne]
  history := h.history.create hmd (hfre.not_made hmd)
  bounds := by omega

theorem Reached.start_turn {p : P} (h : Reached x w₀ (n + 1) (n + 1) n (impl.setP n p) w)
    (hn : 0 < n) : Reached x w₀ (n + 1) (n + 1) (n + 1)
      (impl.setP n { p with threadStarted := true })
      { w with events := w.events ++ [.started n] } where
  made := by
    intro i hi
    obtain ⟨fd, hmd, hfd⟩ := h.made i hi
    refine ⟨fd, hmd, ?_⟩
    by_cases hin : i = n
    · subst hin
      rw [setP_ps_self] at hfd ⊢
      exact hfd
    · rw [setP_ps_of_ne hin] at hfd ⊢
      exact hfd
  unmade := by
    intro i hle hlt
    omega
  zero := by
    intro i hi
    have hzr := h.zero i hi
    rw [setP_ps_of_ne (by omega)] at hzr ⊢
    exact hzr
  started := by
    intro i
    by_cases hi : i = n
    · subst hi
      rw [setP_ps_self]
      simp [hn]
    · have hst := h.started i
      rw [setP_ps_of_ne hi] at hst ⊢
      rw [hst]
      omega
  isOpen := h.isOpen
  history := h.history.start hn
  bounds := by omega

theorem Reached.first (h : Reached x w₀ 1 1 0 impl w) (hpn : w'.isOpen = w.isOpen)
    (heve : w'.events = w.events) : Reached x w₀ 1 1 1 impl w' where
  made := h.made
  unmade := h.unmade
  zero := h.zero
  started := by
    intro i
    rw [h.started i]
    omega
  isOpen := by
    rw [hpn]
    exact h.isOpen
  history := by
    have hh := h.history
    rw [heve]
    refine ⟨hh.created, fun i => ?_, hh.wrote, hh.closed, hh.joined⟩
    rw [hh.started i, if_neg (by omega), if_neg (by omega)]
  bounds := by omega

/-- The system sets up P `i`: its run queue, its eventfd, and its scheduler or thread. -/
def Answers.SetsUp (x : Answers) (w : World) (i : ℕ) : Prop :=
  x.runQueue i = true ∧ x.eventfd i ≠ none ∧
    if i = 0 then w.threadSched = false ∧ x.fiberSched 0 = true else x.pthreadCreate i = true

theorem startP_reached (h : Reached x w₀ n n n impl w) (hfre : x.Fresh w₀) :
    match startP x n impl w with
    | .ok (impl', w') => x.SetsUp w n ∧ Reached x w₀ (n + 1) (n + 1) (n + 1) impl' w' ∧
        impl'.hasPs = impl.hasPs ∧ impl'.workerCount = impl.workerCount
    | .error (_, m, impl', w') => ¬ x.SetsUp w n ∧
        (∃ c t, Reached x w₀ (n + 1) c t impl' w' ∧ c ≤ m ∧ t ≤ m ∧ m ≤ n + 1) ∧
        impl'.hasPs = impl.hasPs ∧ impl'.workerCount = impl.workerCount := by
  have hsr : (impl.ps n).threadStarted = false := by rw [h.zero n le_rfl]
  unfold startP
  dsimp only
  cases hque : x.runQueue n with
  | false =>
    rw [if_pos rfl]
    refine ⟨fun hup => ?_, ⟨n, n, h.unmade_turn rfl hsr, le_rfl, le_rfl, by omega⟩, rfl, rfl⟩
    rw [hup.1] at hque
    simp at hque
  | true =>
    rw [if_neg (by simp)]
    cases hfd : x.eventfd n with
    | none =>
      refine ⟨fun hup => hup.2.1 hfd, ⟨n, n, h.unmade_turn rfl hsr, by omega, by omega, le_rfl⟩,
        rfl, rfl⟩
    | some fd =>
      have hmd := h.made_turn (p := { impl.ps n with eventFd := fd, initStatus := .system })
        hfre hfd rfl hsr
      dsimp only
      unfold startWorker
      split_ifs with hn hsch hcr
      · subst hn
        refine ⟨fun hup => ?_, ⟨_, _, hmd, le_rfl, by omega, le_rfl⟩, rfl, rfl⟩
        have hfir := hup.2.2
        rw [if_pos rfl] at hfir
        rcases hsch with hsch | hsch
        · exact absurd (hfir.1.symm.trans hsch) (by simp)
        · exact absurd (hfir.2.symm.trans hsch) (by simp)
      · subst hn
        have hfir := h.made_turn (p := { impl.ps 0 with
          eventFd := fd, initStatus := .ok, fiberSched := true }) hfre hfd rfl hsr
        rw [not_or, Bool.not_eq_true, Bool.not_eq_false] at hsch
        exact ⟨⟨hque, by rw [hfd]; exact Option.some_ne_none _, by rwa [if_pos rfl]⟩,
          hfir.first rfl rfl, rfl, rfl⟩
      · refine ⟨fun hup => ?_, ⟨_, _, hmd, le_rfl, by omega, le_rfl⟩, rfl, rfl⟩
        have hoth := hup.2.2
        rw [if_neg hn] at hoth
        exact absurd (hoth.symm.trans hcr) (by simp)
      · rw [Bool.not_eq_false] at hcr
        exact ⟨⟨hque, by rw [hfd]; exact Option.some_ne_none _, by rwa [if_neg hn]⟩,
          hmd.start_turn (by omega), rfl, rfl⟩

theorem Reached.initial (config : Option Config) (hnew : w.events = []) :
    Reached x w 0 0 0 (newImpl config) w where
  made := by
    intro i hi
    omega
  unmade := by
    intro i _ hi
    omega
  zero := fun i _ => rfl
  started := by simp [newImpl]
  isOpen := by simp [Answers.Made]
  history := by
    rw [hnew]
    exact ⟨by simp [Answers.Made], by simp, by simp, by simp, by simp⟩
  bounds := by omega

/-- Only the first turn looks at the thread's scheduler. -/
theorem Answers.setsUp_congr {i : ℕ} (h : i = 0 → w' = w) : x.SetsUp w' i ↔ x.SetsUp w i := by
  unfold Answers.SetsUp
  split_ifs with hi
  · rw [h hi]
  · exact Iff.rfl

theorem startPs_reached (hfre : x.Fresh w) (hnew : w.events = []) (config : Option Config) (n : ℕ) :
    match startPs x n (newImpl config) w with
    | .ok (impl', w') => (∀ i < n, x.SetsUp w i) ∧ Reached x w n n n impl' w' ∧ (n = 0 → w' = w) ∧
        impl'.hasPs = true ∧ impl'.workerCount = workerCountOf config
    | .error (_, m, impl', w') => ∃ k < n, (∀ i < k, x.SetsUp w i) ∧ ¬ x.SetsUp w k ∧
        (∃ c t, Reached x w (k + 1) c t impl' w' ∧ c ≤ m ∧ t ≤ m ∧ m ≤ k + 1) ∧
        impl'.hasPs = true ∧ impl'.workerCount = workerCountOf config := by
  induction n with
  | zero => exact ⟨fun i hi => absurd hi (Nat.not_lt_zero i), Reached.initial config hnew,
      fun _ => rfl, rfl, rfl⟩
  | succ n ih =>
    rw [startPs]
    cases hs : startPs x n (newImpl config) w with
    | error e =>
      rw [hs] at ih
      obtain ⟨k, hk, hrs⟩ := ih
      exact ⟨k, by omega, hrs⟩
    | ok s =>
      obtain ⟨impl, w₁⟩ := s
      rw [hs] at ih
      obtain ⟨hall, hrea, hzr, hps, hcnt⟩ := ih
      have htr := startP_reached hrea hfre
      show match startP x n impl w₁ with
        | .ok (impl', w') => _
        | .error (_, m, impl', w') => _
      cases hp : startP x n impl w₁ with
      | error e =>
        obtain ⟨st, m, impl', w'⟩ := e
        rw [hp] at htr
        obtain ⟨hup, hpr, hps', hcount'⟩ := htr
        exact ⟨n, by omega, hall, fun hup' => hup ((Answers.setsUp_congr hzr).mpr hup'), hpr,
          hps'.trans hps, hcount'.trans hcnt⟩
      | ok s =>
        obtain ⟨impl', w'⟩ := s
        rw [hp] at htr
        obtain ⟨hup, hreached', hps', hcount'⟩ := htr
        refine ⟨fun i hi => ?_, hreached', by omega, hps'.trans hps, hcount'.trans hcnt⟩
        rcases Nat.lt_succ_iff_lt_or_eq.mp hi with hi | rfl
        · exact hall i hi
        · exact (Answers.setsUp_congr hzr).mp hup

/-! ## The loops of the cleanup -/

theorem wakeLoop_wrote (impl : Impl) (n : ℕ) (w : World) :
    (wakeLoop impl n w).isOpen = w.isOpen ∧
      ∃ fds : List ℕ, (wakeLoop impl n w).events = w.events ++ fds.map .wrote ∧
        ∀ fd, fd ∈ fds ↔ w.isOpen fd = true ∧ ∃ i < n, (impl.ps i).eventFd = fd := by
  induction n with
  | zero => exact ⟨rfl, [], by simp [wakeLoop], by simp⟩
  | succ n ih =>
    obtain ⟨hpn, fds, heve, hfds⟩ := ih
    have hspl : ∀ fd : ℕ, (∃ i < n + 1, (impl.ps i).eventFd = fd) ↔
        (∃ i < n, (impl.ps i).eventFd = fd) ∨ (impl.ps n).eventFd = fd := by
      intro fd
      simp only [Nat.lt_succ_iff_lt_or_eq, or_and_right, exists_or, exists_eq_left]
    simp only [wakeLoop, World.write]
    split_ifs with hwri
    · refine ⟨hpn, fds ++ [(impl.ps n).eventFd.toNat], by simp [heve], fun fd => ?_⟩
      rw [mem_append, mem_singleton, hfds, hspl, and_or_left]
      refine or_congr_right ⟨?_, fun h => by omega⟩
      rintro rfl
      exact ⟨hpn ▸ hwri.2, (Int.toNat_of_nonneg hwri.1).symm⟩
    · refine ⟨hpn, fds, heve, fun fd => ?_⟩
      rw [hfds, hspl, and_or_left, or_iff_left]
      rintro ⟨hfd, heq⟩
      rw [heq, Int.toNat_natCast, hpn] at hwri
      exact hwri ⟨Int.natCast_nonneg fd, hfd⟩

def Impl.threads (impl : Impl) (n : ℕ) : List ℕ :=
  (List.range n).filter fun i => decide (0 < i) && (impl.ps i).threadStarted

theorem Impl.threads_succ (impl : Impl) (n : ℕ) : impl.threads (n + 1) =
    impl.threads n ++ if 0 < n ∧ (impl.ps n).threadStarted = true then [n] else [] := by
  simp [Impl.threads, range_succ, filter_append, filter_cons]

theorem stopLoop_joined (impl : Impl) (n : ℕ) (w : World) :
    (∀ i, n ≤ i → (stopLoop n (impl, w)).1.ps i = impl.ps i) ∧
      (∀ i, ((stopLoop n (impl, w)).1.ps i).eventFd = (impl.ps i).eventFd) ∧
      (stopLoop n (impl, w)).2.isOpen = w.isOpen ∧
      (stopLoop n (impl, w)).2.events = w.events ++ (impl.threads n).map .joined := by
  induction n with
  | zero => exact ⟨fun _ _ => rfl, fun _ => rfl, rfl, by simp [stopLoop, Impl.threads]⟩
  | succ n ih =>
    obtain ⟨hrs, hfd, hpn, heve⟩ := ih
    rw [Impl.threads_succ]
    simp only [stopLoop, workerStop]
    rw [hrs n le_rfl]
    by_cases hthread : 0 < n ∧ (impl.ps n).threadStarted = true
    · rw [if_pos hthread, if_neg (by simp [hthread.2]), if_pos hthread]
      refine ⟨fun i hi => ?_, fun i => ?_, hpn, by simp [heve]⟩
      · rw [setP_ps_of_ne (by omega)]
        exact hrs i (by omega)
      · by_cases hi : i = n
        · subst hi
          rw [setP_ps_self]
        · rw [setP_ps_of_ne hi]
          exact hfd i
    · rw [if_neg hthread, if_neg hthread]
      exact ⟨fun i hi => hrs i (by omega), hfd, hpn, by simp [heve]⟩

def Answers.fds (x : Answers) (c n : ℕ) : List ℕ :=
  (List.range n).filterMap fun i => if i < c then x.eventfd i else none

theorem Answers.fds_succ (x : Answers) (c n : ℕ) : x.fds c (n + 1) =
    x.fds c n ++ (if n < c then x.eventfd n else none).toList := by
  simp only [Answers.fds, range_succ, filterMap_append]
  cases h : (if n < c then x.eventfd n else none) <;> simp [h]

theorem closeLoop_closed (impl : Impl) (hfre : x.Fresh w₀)
    (hmd : ∀ i < c, ∃ fd : ℕ, x.eventfd i = some fd ∧ (impl.ps i).eventFd = fd)
    (hpn : ∀ i < c, ∀ fd, x.eventfd i = some fd → w.isOpen fd = true) (n : ℕ)
    (hunm : ∀ i, c ≤ i → i < n → (impl.ps i).eventFd = -1) :
    (∀ i < c, n ≤ i → ∀ fd, x.eventfd i = some fd → (closeLoop impl n w).isOpen fd = true) ∧
      (closeLoop impl n w).events = w.events ++ (x.fds c n).map .closed := by
  induction n with
  | zero =>
    refine ⟨fun i hi _ => hpn i hi, ?_⟩
    simp [closeLoop, Answers.fds]
  | succ n ih =>
    obtain ⟨hlf, heve⟩ := ih fun i hle hlt => hunm i hle (by omega)
    rw [Answers.fds_succ]
    simp only [closeLoop]
    by_cases hn : n < c
    · obtain ⟨fd, hfd, heq⟩ := hmd n hn
      rw [if_pos hn, heq, if_pos (by omega), hfd]
      have hcl : 0 ≤ (fd : ℤ) ∧ (closeLoop impl n w).isOpen (fd : ℤ).toNat = true :=
        ⟨by omega, hlf n hn le_rfl fd hfd⟩
      rw [World.close, if_pos hcl]
      refine ⟨fun i hi hle d hd => ?_, by simp [heve]⟩
      have hne : d ≠ fd := by
        rintro rfl
        have := hfre.once i n d hd hfd
        omega
      show update (closeLoop impl n w).isOpen (fd : ℤ).toNat false d = true
      rw [update_of_ne (by simpa using hne)]
      exact hlf i hi (by omega) d hd
    · rw [hunm n (by omega) (by omega), if_neg (by omega), if_neg hn]
      exact ⟨fun i hi hle => hlf i hi (by omega), by simp [heve]⟩

theorem Answers.mem_fds {fd : ℕ} (hle : c ≤ n) : fd ∈ x.fds c n ↔ x.Made c fd := by
  simp only [Answers.fds, mem_filterMap, mem_range]
  constructor
  · rintro ⟨i, -, hi⟩
    split_ifs at hi with hic
    exact ⟨i, hic, hi⟩
  · rintro ⟨i, hic, hi⟩
    exact ⟨i, by omega, by rw [if_pos hic, hi]⟩

theorem Answers.Fresh.nodup_fds (h : x.Fresh w) : (x.fds c n).Nodup := by
  refine List.Nodup.filterMap ?_ nodup_range
  intro i j fd hi hj
  split_ifs at hi hj
  · exact h.once i j fd hi hj
  all_goals simp at hi hj

/-- The wakeups go to eventfds of this call; each eventfd it created is closed once and no other
descriptor is; each thread it started is joined once. -/
structure OwnOnly (events : List Event) : Prop where
  wrote : ∀ fd, .wrote fd ∈ events → .created fd ∈ events
  created : ∀ fd, events.count (.created fd) ≤ 1
  closed : ∀ fd, events.count (.closed fd) = events.count (.created fd)
  started : ∀ i, events.count (.started i) ≤ 1
  joined : ∀ i, events.count (.joined i) = events.count (.started i)

theorem count_map_of_forall_ne {f : ℕ → Event} {v : Event} (h : ∀ a, f a ≠ v) (l : List ℕ) :
    (l.map f).count v = 0 := by
  rw [count_eq_zero]
  intro hmem
  obtain ⟨a, -, ha⟩ := mem_map.mp hmem
  exact h a ha

def unwinding (events : List Event) (wrote joined closed : List ℕ) : List Event :=
  events ++ wrote.map .wrote ++ joined.map .joined ++ closed.map .closed

section Unwinding

variable {events : List Event} {wrote joined closed : List ℕ}

theorem count_created_unwinding (fd : ℕ) :
    (unwinding events wrote joined closed).count (.created fd) = events.count (.created fd) := by
  simp [unwinding, count_append, count_map_of_forall_ne]

theorem count_started_unwinding (i : ℕ) :
    (unwinding events wrote joined closed).count (.started i) = events.count (.started i) := by
  simp [unwinding, count_append, count_map_of_forall_ne]

theorem count_closed_unwinding (fd : ℕ) (h : .closed fd ∉ events) :
    (unwinding events wrote joined closed).count (.closed fd) = closed.count fd := by
  have hcnt : (closed.map Event.closed).count (.closed fd) = closed.count fd :=
    count_map_of_injective closed _ (fun _ _ hab => Event.closed.inj hab) fd
  simp [unwinding, count_append, count_map_of_forall_ne, hcnt, count_eq_zero_of_not_mem h]

theorem count_joined_unwinding (i : ℕ) (h : .joined i ∉ events) :
    (unwinding events wrote joined closed).count (.joined i) = joined.count i := by
  have hcnt : (joined.map Event.joined).count (.joined i) = joined.count i :=
    count_map_of_injective joined _ (fun _ _ hab => Event.joined.inj hab) i
  simp [unwinding, count_append, count_map_of_forall_ne, hcnt, count_eq_zero_of_not_mem h]

theorem History.made_of_own (h : History x c t events)
    (hown : OwnOnly (unwinding events wrote joined closed)) : ∀ fd ∈ wrote, x.Made c fd := by
  intro fd hfd
  have hcre := hown.wrote fd (by simp [unwinding, hfd])
  rw [← count_pos_iff, count_created_unwinding, count_pos_iff] at hcre
  exact (h.created fd).2.mp hcre

theorem History.ownOnly (h : History x c t events) (hwro : ∀ fd ∈ wrote, x.Made c fd)
    (hjoi : ∀ i, joined.count i = if 0 < i ∧ i < t then 1 else 0) (hnod : closed.Nodup)
    (hclo : ∀ fd, fd ∈ closed ↔ x.Made c fd) :
    OwnOnly (unwinding events wrote joined closed) where
  wrote := by
    intro fd hfd
    have hmem : fd ∈ wrote := by simpa [unwinding, h.wrote fd] using hfd
    simpa [unwinding] using (h.created fd).2.mpr (hwro fd hmem)
  created := by
    intro fd
    rw [count_created_unwinding]
    exact (h.created fd).1
  closed := by
    intro fd
    obtain ⟨hle, hmem⟩ := h.created fd
    rw [count_created_unwinding, count_closed_unwinding fd (h.closed fd)]
    by_cases hmd : x.Made c fd
    · have hone := count_pos_iff.mpr (hmem.mpr hmd)
      rw [count_eq_one_of_mem hnod ((hclo fd).mpr hmd)]
      omega
    · rw [count_eq_zero_of_not_mem fun hin => hmd ((hclo fd).mp hin),
        count_eq_zero_of_not_mem fun hin => hmd (hmem.mp hin)]
  started := by
    intro i
    rw [count_started_unwinding, h.started i]
    split_ifs <;> omega
  joined := by
    intro i
    rw [count_started_unwinding, count_joined_unwinding i (h.joined i), h.started i, hjoi i]

end Unwinding

theorem Impl.count_threads (h : ∀ i, (impl.ps i).threadStarted = true ↔ 0 < i ∧ i < t)
    (ht : t ≤ n) (i : ℕ) : (impl.threads n).count i = if 0 < i ∧ i < t then 1 else 0 := by
  have hnod : (impl.threads n).Nodup := nodup_range.filter _
  have hmem : i ∈ impl.threads n ↔ 0 < i ∧ i < t := by
    simp only [Impl.threads, mem_filter, mem_range, Bool.and_eq_true,
      decide_eq_true_eq, h i]
    omega
  split_ifs with hi
  · exact count_eq_one_of_mem hnod (hmem.mpr hi)
  · exact count_eq_zero_of_not_mem fun hin => hi (hmem.mp hin)

theorem Reached.cleanup_events (h : Reached x w₀ n c t impl w) (hfre : x.Fresh w₀) (hm : m ≤ n)
    (hps : impl.hasPs = true) : ∃ fds : List ℕ,
      (∀ fd, fd ∈ fds ↔ w.isOpen fd = true ∧ ∃ i < impl.workerCount, (impl.ps i).eventFd = fd) ∧
      (runtimeCleanupPartial impl m w).events = unwinding w.events fds (impl.threads m) (x.fds c m) := by
  generalize hmp : { impl with stopWorkers := true } = impl₁
  have hps₁ : impl₁.ps = impl.ps := by rw [← hmp]
  obtain ⟨hpn, fds, hwro, hfds⟩ := wakeLoop_wrote impl₁ impl.workerCount w
  obtain ⟨-, hfd, hpn₂, hjoi⟩ := stopLoop_joined impl₁ m (wakeLoop impl₁ impl.workerCount w)
  have hthr : impl₁.threads m = impl.threads m := by
    unfold Impl.threads
    rw [hps₁]
  rw [hps₁] at hfds
  rw [hthr] at hjoi
  refine ⟨fds, hfds, ?_⟩
  have hcl : ∀ w₂ : World, w₂.isOpen = w.isOpen →
      w₂.events = w.events ++ fds.map .wrote ++ (impl.threads m).map .joined →
      (closeLoop (stopLoop m (impl₁, wakeLoop impl₁ impl.workerCount w)).1 m w₂).events =
        unwinding w.events fds (impl.threads m) (x.fds c m) := by
    intro w₂ hopen' hevents'
    obtain ⟨-, hclo⟩ := closeLoop_closed (w := w₂)
      (stopLoop m (impl₁, wakeLoop impl₁ impl.workerCount w)).1 hfre
      (fun i hi => by
        rw [hfd i, hps₁]
        exact h.made i hi)
      (fun i hi fd hfd => by
        rw [hopen', h.isOpen fd]
        exact .inr ⟨i, hi, hfd⟩) m
      (fun i hle hlt => by
        rw [hfd i, hps₁]
        exact h.unmade i hle (by omega))
    rw [hclo, hevents']
    rfl
  simp only [runtimeCleanupPartial, runtimeWakeWorkers, hmp]
  rw [if_neg (by simp [hps])]
  split_ifs <;> exact hcl _ (hpn₂.trans hpn) (by rw [hjoi, hwro])

/-- The wakeups of the cleanup all go to eventfds of this call, unless descriptor 0 was open before and a
P was not reached. -/
theorem Reached.wakes_own (h : Reached x w₀ n c t impl w) (hfre : x.Fresh w₀) :
    (∀ fd : ℕ, (w.isOpen fd = true ∧ ∃ i < impl.workerCount, (impl.ps i).eventFd = fd) → x.Made c fd) ↔
      w₀.isOpen 0 = false ∨ impl.workerCount ≤ n := by
  constructor
  · intro hall
    by_contra hnot
    obtain ⟨hpn, hlt⟩ := not_or.mp hnot
    rw [Bool.not_eq_false] at hpn
    have hzr : (impl.ps n).eventFd = (0 : ℕ) := by rw [h.zero n le_rfl]; rfl
    obtain ⟨i, -, hi⟩ := hall 0 ⟨(h.isOpen 0).mpr (.inl hpn), n, not_le.mp hlt, hzr⟩
    exact absurd (hpn.symm.trans (hfre.closed i 0 hi)) (by decide)
  · rintro hzr fd ⟨hw, i, hi, heq⟩
    rcases Nat.lt_or_ge i c with hic | hic
    · obtain ⟨d, hd, hd'⟩ := h.made i hic
      obtain rfl : fd = d := by omega
      exact ⟨i, hic, hd⟩
    rcases Nat.lt_or_ge i n with hin | hin
    · rw [h.unmade i hic hin] at heq
      omega
    -- a P that was not reached: its descriptor is 0
    have hfd0 : fd = 0 := by
      rw [h.zero i hin] at heq
      have hdef : (0 : ℤ) = fd := heq
      omega
    subst hfd0
    rcases hzr with hzr | hzr
    · rcases (h.isOpen 0).mp hw with hbef | hmd
      · rw [hzr] at hbef
        simp at hbef
      · exact hmd
    · omega

theorem Reached.cleanup (h : Reached x w₀ n c t impl w) (hfre : x.Fresh w₀) (hc : c ≤ m)
    (ht : t ≤ m) (hm : m ≤ n) (hps : impl.hasPs = true) :
    OwnOnly (runtimeCleanupPartial impl m w).events ↔
      w₀.isOpen 0 = false ∨ impl.workerCount ≤ n := by
  obtain ⟨fds, hfds, heve⟩ := h.cleanup_events hfre hm hps
  rw [heve, ← h.wakes_own hfre]
  constructor
  · exact fun hown fd hfd => h.history.made_of_own hown fd ((hfds fd).mpr hfd)
  · exact fun hall => h.history.ownOnly (fun fd hfd => hall fd ((hfds fd).mp hfd))
      (Impl.count_threads h.started ht) hfre.nodup_fds fun fd => Answers.mem_fds hc

theorem Reached.report (h : Reached x w₀ n n n impl w) (hcnt : impl.workerCount = n) :
    Reached x w₀ n n n (workersReport x impl) w := by
  have hfd : ∀ i, ((workersReport x impl).ps i).eventFd = (impl.ps i).eventFd ∧
      ((workersReport x impl).ps i).threadStarted = (impl.ps i).threadStarted := by
    intro i
    simp only [workersReport]
    split_ifs <;> exact ⟨rfl, rfl⟩
  refine ⟨fun i hi => ?_, fun i hle hlt => ?_, fun i hi => ?_, fun i => ?_, h.isOpen, h.history,
    h.bounds⟩
  · rw [(hfd i).1]
    exact h.made i hi
  · rw [(hfd i).1]
    exact h.unmade i hle hlt
  · rw [← h.zero i hi]
    exact if_neg (by omega)
  · rw [(hfd i).2]
    exact h.started i

theorem setUp_own (hfre : x.Fresh w) (hnew : w.events = [])
    (hfl : setUp x config w = (.error e, w')) : OwnOnly w'.events ↔
      w.isOpen 0 = false ∨ ∀ i, i + 1 < workerCountOf config → x.SetsUp w i := by
  have hlp := startPs_reached hfre hnew config (workerCountOf config)
  unfold setUp at hfl
  split at hfl
  case h_1 status m impl w₁ hs =>
    obtain ⟨-, rfl⟩ := Prod.mk.inj hfl
    rw [hs] at hlp
    obtain ⟨k, hk, hall, hup, ⟨c, t, hrea, hc, ht, hm⟩, hps, hcnt⟩ := hlp
    refine (hrea.cleanup hfre hc ht hm hps).trans (or_congr_right ?_)
    rw [hcnt]
    -- the loop stops at the first P that the system does not set up
    constructor
    · exact fun hle i hi => hall i (by omega)
    · intro hset
      by_contra hlt
      exact hup (hset k (by omega))
  case h_2 impl w₁ hs =>
    rw [hs] at hlp
    obtain ⟨hall, hrea, -, hps, hcnt⟩ := hlp
    dsimp only at hfl
    split_ifs at hfl
    · obtain ⟨-, rfl⟩ := Prod.mk.inj hfl
      exact iff_of_true (((hrea.report hcnt).cleanup hfre le_rfl le_rfl le_rfl hps).mpr
        (.inr hcnt.le)) (.inr fun i hi => hall i (by omega))
    · simp at hfl

/-- The call gets to its loop over the Ps. -/
structure ReachesPs (M : Platform) (x : Answers) (runtime : RuntimePtr) (config : Option Config)
    (w : World) : Prop where
  accepted : accepted runtime config = true
  allocatorInit : (allocatorInit M w.memory).1 = .ok
  callocImpl : x.callocImpl = true
  mutexInit : x.mutexInit = true
  condInit : x.condInit = true
  callocPs : x.callocPs = true

/-- **A failed initialisation touches only its own descriptors and threads**, exactly when descriptor 0
was not open, or the call fails before the loop over the Ps, or every P but the last is set up. -/
theorem failed_init_own (hfre : x.Fresh w) (hnew : w.events = [])
    (hfl : runtimeInitWithConfig M x runtime config w = (.error e, w')) :
    OwnOnly w'.events ↔ w.isOpen 0 = false ∨ ¬ ReachesPs M x runtime config w ∨
      ∀ i, i + 1 < workerCountOf config → x.SetsUp w i := by
  have hear : ∀ {w₁ : World}, w₁.events = w.events → ¬ ReachesPs M x runtime config w →
      (OwnOnly w₁.events ↔ w.isOpen 0 = false ∨ ¬ ReachesPs M x runtime config w ∨
        ∀ i, i + 1 < workerCountOf config → x.SetsUp w i) := by
    intro w₁ heve hnot
    rw [heve, hnew]
    exact iff_of_true ⟨by simp, by simp, by simp, by simp, by simp⟩ (.inr (.inl hnot))
  unfold runtimeInitWithConfig at hfl
  by_cases hacc : accepted runtime config = false
  · rw [if_pos hacc] at hfl
    obtain ⟨-, rfl⟩ := Prod.mk.inj hfl
    exact hear rfl fun h => absurd (h.accepted.symm.trans hacc) (by decide)
  rw [if_neg hacc] at hfl
  split at hfl
  case h_1 memory hnt =>
    dsimp only at hfl
    split_ifs at hfl with hmp hmutex hcn hcalloc
    · obtain ⟨-, rfl⟩ := Prod.mk.inj hfl
      exact hear rfl fun h => absurd (h.callocImpl.symm.trans hmp) (by decide)
    · obtain ⟨-, rfl⟩ := Prod.mk.inj hfl
      exact hear rfl fun h => absurd (h.mutexInit.symm.trans hmutex) (by decide)
    · obtain ⟨-, rfl⟩ := Prod.mk.inj hfl
      exact hear rfl fun h => absurd (h.condInit.symm.trans hcn) (by decide)
    · obtain ⟨-, rfl⟩ := Prod.mk.inj hfl
      exact hear rfl fun h => absurd (h.callocPs.symm.trans hcalloc) (by decide)
    · have hrc : ReachesPs M x runtime config w :=
        ⟨by simpa using hacc, by rw [hnt], by simpa using hmp, by simpa using hmutex,
          by simpa using hcn, by simpa using hcalloc⟩
      have hown := setUp_own (w := { w with memory := memory }) ⟨hfre.closed, hfre.once⟩ hnew hfl
      exact hown.trans (or_congr_right (or_iff_right (not_not.mpr hrc)).symm)
  case h_2 status memory hne hnt =>
    obtain ⟨-, rfl⟩ := Prod.mk.inj hfl
    exact hear rfl fun h => hne ((congrArg Prod.fst hnt).symm.trans h.allocatorInit)

def noThread : Answers := { goodAnswers with pthreadCreate := fun _ => false }

def plainWorld : World := ⟨Memory.State.initial, fun fd => decide (fd < 3), false, []⟩

theorem plainWorld_fresh : noThread.Fresh plainWorld := by
  refine ⟨fun i fd hfd => ?_, fun i j fd hi hj => ?_⟩
  · obtain rfl : i + 3 = fd := Option.some.inj hfd
    show decide (i + 3 < 3) = false
    simp
  · have hi : i + 3 = fd := Option.some.inj hi
    have hj : j + 3 = fd := Option.some.inj hj
    omega

theorem failed_init_own_last : ∃ w',
    runtimeInitWithConfig ⟨false, 4096⟩ noThread (some none) (some ⟨0, 2⟩) plainWorld =
      (.error .system, w') ∧
    w'.events = [.created 3, .created 4, .wrote 3, .wrote 4, .closed 3, .closed 4] ∧
    OwnOnly w'.events := by
  have hsta : statusOf (runtimeInitWithConfig ⟨false, 4096⟩ noThread (some none) (some ⟨0, 2⟩)
      plainWorld).1 = .system := by decide +kernel
  have hfl := error_of_statusOf hsta (by decide)
  refine ⟨_, hfl, by decide +kernel,
    (failed_init_own plainWorld_fresh rfl hfl).mpr (.inr (.inr fun i hi => ?_))⟩
  have hcnt : workerCountOf (some ⟨0, 2⟩) = 2 := rfl
  obtain rfl : i = 0 := by omega
  exact ⟨rfl, by simp [noThread, goodAnswers], rfl, rfl⟩

def noEventfd : Answers := { goodAnswers with eventfd := fun _ => none }

/-- **A wakeup to standard input** -/
theorem failed_init_writes_stdin : noEventfd.Fresh plainWorld ∧ plainWorld.events = [] ∧ ∃ w',
    runtimeInitWithConfig ⟨false, 4096⟩ noEventfd (some none) (some ⟨0, 2⟩) plainWorld =
      (.error .system, w') ∧ w'.events = [.wrote 0] ∧ ¬ OwnOnly w'.events := by
  have hsta : statusOf (runtimeInitWithConfig ⟨false, 4096⟩ noEventfd (some none) (some ⟨0, 2⟩)
      plainWorld).1 = .system := by decide +kernel
  have heve : (runtimeInitWithConfig ⟨false, 4096⟩ noEventfd (some none) (some ⟨0, 2⟩)
      plainWorld).2.events = [.wrote 0] := by decide +kernel
  refine ⟨⟨by simp [noEventfd], by simp [noEventfd]⟩, rfl, _,
    error_of_statusOf hsta (by decide), heve, fun h => ?_⟩
  have hmn := h.wrote 0
  rw [heve] at hmn
  simp at hmn

end Veloco.Startup
