import Veloco.Common
import Veloco.Word

/-!
# Requests and the descriptor registry (`src/net/socket.c`)
-/

namespace Veloco.Net

open Veloco.Word

/-! ## Requests (`include/veloco/io.h`) -/

inductive Op where
  | accept
  | recv
  | send
  | connect
  | timeout
  | cancel
  deriving DecidableEq, Repr

structure Request where
  id : ℕ
  op : Op
  fd : ℤ
  bufNull : Bool
  len : ℕ
  addressNull : Bool
  addressLen : ℕ
  timeoutNs : ℕ
  generation : ℕ
  deriving DecidableEq, Repr

structure Events where
  readable : Bool
  writable : Bool
  eof : Bool
  error : Bool
  deriving DecidableEq, Repr

/-- `VL_IO_EVENT_NONE`. -/
def Events.none : Events := ⟨false, false, false, false⟩

structure Completion where
  request : Request
  result : ℤ
  events : Events
  generation : ℕ
  deriving DecidableEq, Repr

def ecanceled : ℤ := 125

def estale : ℤ := 116

def emfile : ℤ := 24

def etime : ℤ := 62

/-! ## The registry -/

structure Slot where
  generation : ℕ
  pendingGeneration : ℕ
  active : Bool
  deriving DecidableEq, Repr, Inhabited

abbrev Registry : Type := ℤ → Option Slot

def Registry.empty : Registry := fun _ => none

/-- `UINT64_MAX`. -/
def generationMax : ℕ := modulus - 1

namespace Registry

variable (reg : Registry) (fd : ℤ)

def slot : Slot := (reg fd).getD ⟨0, 0, false⟩

def set (slot : Slot) : Registry := Function.update reg fd (some slot)

@[simp] theorem slot_set (slot : Slot) : (reg.set fd slot).slot fd = slot := by
  simp [Registry.slot, set]

@[simp] theorem slot_set_of_ne {fd fd' : ℤ} (h : fd' ≠ fd) (slot : Slot) :
    (reg.set fd slot).slot fd' = reg.slot fd' := by
  simp [Registry.slot, set, h]

end Registry

def nextGeneration (generation : ℕ) : ℕ :=
  let generation := add generation 1
  if generation = 0 then add generation 1 else generation

section Functions

variable (fd : ℤ) (reg : Registry)

def socketTrack (calloc : Bool) : Status × Registry :=
  if fd < 0 then (.invalidArgument, reg)
  else if reg fd = none ∧ calloc = false then (.outOfMemory, reg)
  else
    let slot := reg.slot fd
    if slot.active ∨ slot.generation = generationMax then (.invalidState, reg.set fd slot)
    else (.ok, reg.set fd { slot with generation := nextGeneration slot.generation, active := true })

def socketGeneration : ℕ :=
  if fd < 0 then 0
  else
    match reg fd with
    | some slot => slot.generation
    | none => 0

def socketIsTracked : Bool :=
  if fd < 0 then false
  else
    match reg fd with
    | some slot => slot.active
    | none => false

def socketClaim (generation : ℕ) : Status × Registry :=
  if fd < 0 ∨ generation = 0 then (.invalidArgument, reg)
  else
    match reg fd with
    | none => (.invalidState, reg)
    | some slot =>
      if slot.active = false ∨ slot.generation ≠ generation ∨ slot.pendingGeneration ≠ 0 then
        (.invalidState, reg)
      else (.ok, reg.set fd { slot with pendingGeneration := generation })

def socketRelease (generation : ℕ) : Registry :=
  if fd < 0 then reg
  else
    match reg fd with
    | none => reg
    | some slot =>
      if slot.pendingGeneration = generation then reg.set fd { slot with pendingGeneration := 0 }
      else reg

def socketClose (closed : Bool) : Status × Registry :=
  if fd < 0 then (.invalidArgument, reg)
  else
    match reg fd with
    | none => (.invalidState, reg)
    | some slot =>
      if slot.active = false then (.invalidState, reg)
      else if closed = false then (.system, reg)
      else (.ok, reg.set fd { slot with
        active := false
        generation :=
          if slot.generation ≠ generationMax then nextGeneration slot.generation
          else slot.generation })

end Functions

def socketRequestIsStale (request : Request) (reg : Registry) : Bool :=
  if request.op = .timeout then false
  else if request.fd < 0 then true
  else
    match reg request.fd with
    | none => true
    | some slot => slot.active = false || slot.generation != request.generation

/-! ## What the functions do to a slot -/

section Lemmas

variable {fd fd' : ℤ} {reg : Registry} {g : ℕ}

theorem Registry.slot_of_some {slot : Slot} (h : reg fd = some slot) : reg.slot fd = slot := by
  simp [Registry.slot, h]

theorem socketClaim_cases (fd : ℤ) (reg : Registry) (g : ℕ) :
    (socketClaim fd reg g).1 ≠ .ok ∧ (socketClaim fd reg g).2 = reg ∨
      (socketClaim fd reg g).1 = .ok ∧ 0 ≤ fd ∧ g ≠ 0 ∧ (reg.slot fd).active = true ∧
        (reg.slot fd).generation = g ∧ (reg.slot fd).pendingGeneration = 0 ∧
        (socketClaim fd reg g).2 = reg.set fd { reg.slot fd with pendingGeneration := g } := by
  unfold socketClaim
  by_cases hbad : fd < 0 ∨ g = 0
  · rw [if_pos hbad]
    exact Or.inl ⟨by simp, rfl⟩
  rw [if_neg hbad]
  rw [not_or, not_lt] at hbad
  cases hsl : reg fd with
  | none => exact Or.inl ⟨by simp, rfl⟩
  | some slot =>
    dsimp only
    by_cases hhl : slot.active = false ∨ slot.generation ≠ g ∨ slot.pendingGeneration ≠ 0
    · rw [if_pos hhl]
      exact Or.inl ⟨by simp, rfl⟩
    · rw [if_neg hhl, Registry.slot_of_some hsl]
      simp only [not_or, Bool.not_eq_false, not_not] at hhl
      exact Or.inr ⟨rfl, hbad.1, hbad.2, hhl.1, hhl.2.1, hhl.2.2, rfl⟩

theorem socketRelease_slot (hfd : 0 ≤ fd) (reg : Registry) (g : ℕ) :
    (socketRelease fd reg g).slot fd = { reg.slot fd with
      pendingGeneration :=
        if (reg.slot fd).pendingGeneration = g then 0
        else (reg.slot fd).pendingGeneration } := by
  unfold socketRelease
  rw [if_neg (not_lt.mpr hfd)]
  cases hsl : reg fd with
  | none =>
    have hnn : reg.slot fd = ⟨0, 0, false⟩ := by simp [Registry.slot, hsl]
    simp [hnn]
  | some slot =>
    dsimp only
    rw [Registry.slot_of_some hsl]
    split_ifs
    · rw [Registry.slot_set]
    · rw [Registry.slot_of_some hsl]

theorem socketRelease_of_ne (h : fd' ≠ fd) (reg : Registry) (g : ℕ) :
    (socketRelease fd reg g).slot fd' = reg.slot fd' := by
  unfold socketRelease
  split_ifs
  · rfl
  · split
    · rfl
    · split_ifs
      · exact Registry.slot_set_of_ne _ h _
      · rfl

theorem socketRelease_tracked (fd fd' : ℤ) (reg : Registry) (g : ℕ) :
    ((socketRelease fd reg g).slot fd').active = (reg.slot fd').active ∧
      ((socketRelease fd reg g).slot fd').generation = (reg.slot fd').generation := by
  by_cases h : fd' = fd
  · subst h
    by_cases hfd : 0 ≤ fd'
    · rw [socketRelease_slot hfd]
      exact ⟨rfl, rfl⟩
    · unfold socketRelease
      rw [if_pos (not_le.mp hfd)]
      exact ⟨rfl, rfl⟩
  · rw [socketRelease_of_ne h]
    exact ⟨rfl, rfl⟩

theorem socketTrack_cases (fd : ℤ) (reg : Registry) (calloc : Bool) :
    (socketTrack fd reg calloc).1 ≠ .ok ∧
        (∀ fd', (socketTrack fd reg calloc).2.slot fd' = reg.slot fd') ∨
      (socketTrack fd reg calloc).1 = .ok ∧ 0 ≤ fd ∧ (reg.slot fd).active = false ∧
        (reg.slot fd).generation ≠ generationMax ∧
        (socketTrack fd reg calloc).2 = reg.set fd { reg.slot fd with
          generation := nextGeneration (reg.slot fd).generation, active := true } := by
  unfold socketTrack
  by_cases hneg : fd < 0
  · rw [if_pos hneg]
    exact Or.inl ⟨by simp, fun _ => rfl⟩
  rw [if_neg hneg]
  by_cases hmem : reg fd = none ∧ calloc = false
  · rw [if_pos hmem]
    exact Or.inl ⟨by simp, fun _ => rfl⟩
  rw [if_neg hmem]
  dsimp only
  by_cases hact : (reg.slot fd).active = true ∨ (reg.slot fd).generation = generationMax
  · rw [if_pos hact]
    refine Or.inl ⟨by simp, fun fd' => ?_⟩
    by_cases h : fd' = fd
    · rw [h, Registry.slot_set]
    · rw [Registry.slot_set_of_ne _ h]
  · rw [if_neg hact]
    rw [not_or, Bool.not_eq_true] at hact
    exact Or.inr ⟨rfl, not_lt.mp hneg, hact.1, hact.2, rfl⟩

theorem socketClose_cases (fd : ℤ) (reg : Registry) (closed : Bool) :
    (socketClose fd reg closed).1 ≠ .ok ∧ (socketClose fd reg closed).2 = reg ∨
      (socketClose fd reg closed).1 = .ok ∧ closed = true ∧ (reg.slot fd).active = true ∧
        (socketClose fd reg closed).2 = reg.set fd { reg.slot fd with
          active := false
          generation :=
            if (reg.slot fd).generation ≠ generationMax then nextGeneration (reg.slot fd).generation
            else (reg.slot fd).generation } := by
  unfold socketClose
  by_cases hneg : fd < 0
  · rw [if_pos hneg]
    exact Or.inl ⟨by simp, rfl⟩
  rw [if_neg hneg]
  cases hsl : reg fd with
  | none => exact Or.inl ⟨by simp, rfl⟩
  | some slot =>
    dsimp only
    by_cases hact : slot.active = false
    · rw [if_pos hact]
      exact Or.inl ⟨by simp, rfl⟩
    rw [if_neg hact]
    by_cases hclo : closed = false
    · rw [if_pos hclo]
      exact Or.inl ⟨by simp, rfl⟩
    · rw [if_neg hclo, Registry.slot_of_some hsl]
      exact Or.inr ⟨rfl, Bool.eq_true_of_not_eq_false hclo, Bool.eq_true_of_not_eq_false hact, rfl⟩

theorem socketTrack_pending (fd fd' : ℤ) (reg : Registry) (calloc : Bool) :
    ((socketTrack fd reg calloc).2.slot fd').pendingGeneration =
      (reg.slot fd').pendingGeneration := by
  rcases socketTrack_cases fd reg calloc with ⟨-, hsm⟩ | ⟨-, -, -, -, hset⟩
  · rw [hsm]
  · rw [hset]
    by_cases h : fd' = fd
    · rw [h, Registry.slot_set]
    · rw [Registry.slot_set_of_ne _ h]

theorem socketClose_pending (fd fd' : ℤ) (reg : Registry) (closed : Bool) :
    ((socketClose fd reg closed).2.slot fd').pendingGeneration =
      (reg.slot fd').pendingGeneration := by
  rcases socketClose_cases fd reg closed with ⟨-, hsm⟩ | ⟨-, -, -, hset⟩
  · rw [hsm]
  · rw [hset]
    by_cases h : fd' = fd
    · rw [h, Registry.slot_set]
    · rw [Registry.slot_set_of_ne _ h]

theorem nextGeneration_of_lt (h : g < generationMax) : nextGeneration g = g + 1 := by
  have hmax : generationMax = modulus - 1 := rfl
  have hadd : add g 1 = g + 1 := add_of_lt (by omega)
  unfold nextGeneration
  rw [hadd]
  exact if_neg (Nat.succ_ne_zero g)

theorem socketGeneration_of_nonneg (hfd : 0 ≤ fd) (reg : Registry) :
    socketGeneration fd reg = (reg.slot fd).generation := by
  unfold socketGeneration
  rw [if_neg (not_lt.mpr hfd)]
  cases hsl : reg fd with
  | none => simp [Registry.slot, hsl]
  | some slot => rw [Registry.slot_of_some hsl]

end Lemmas

end Veloco.Net
