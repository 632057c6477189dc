import Veloco.Align
import Veloco.Common
import Veloco.Word

/-!
# The stack of a fiber and its growth
-/

namespace Veloco.Fibers

open Veloco.Word

/-! ## The stack -/

def pageMask (alignment : ℕ) : ℕ := sizeMax - sub alignment 1

def roundUp (value alignment : ℕ) : ℕ := sub (add value alignment) 1 &&& pageMask alignment

structure Stack where
  base : ℕ
  mappingSize : ℕ
  low : ℕ
  top : ℕ
  mappedLow : ℕ
  opened : List (ℕ × ℕ)
  deriving DecidableEq, Repr

def Stack.Accessible (s : Stack) (a : ℕ) : Prop := ∃ range ∈ s.opened, range.1 ≤ a ∧ a < range.1 + range.2

def mprotect (page : ℕ) (ok : Bool) (addr length : ℕ) (opened : List (ℕ × ℕ)) :
    Option (List (ℕ × ℕ)) :=
  if ok ∧ addr % page = 0 then some ((addr, Align.roundUp page length) :: opened) else none

structure Calls where
  calloc : Bool
  mmap : ℕ → Option ℕ
  mprotect : Bool

def create (page : ℕ) (pointers owner : Bool) (calls : Calls) (stackSize : ℕ) : Except Status Stack :=
  if ¬ pointers ∨ stackSize = 0 then .error .invalidArgument
  else if ¬ owner then .error .invalidState
  else if sub sizeMax (sub page 1) < stackSize then .error .invalidArgument
  else
    let usable := roundUp stackSize page
    if usable < page ∨ sub sizeMax page < usable then .error .invalidArgument
    else if ¬ calls.calloc then .error .outOfMemory
    else
      let mappingSize := add usable page
      match calls.mmap mappingSize with
      | none => .error .system
      | some base =>
        let top := add base mappingSize
        let mappedLow := sub top page
        match mprotect page calls.mprotect mappedLow page [] with
        | none => .error .system
        | some opened => .ok ⟨base, mappingSize, add base page, top, mappedLow, opened⟩

structure Fault where
  addr : ℕ
  fromKernel : Bool
  running : Bool
  mprotect : Bool

def Stack.faultHandler (page : ℕ) (s : Stack) (f : Fault) : Bool × Stack :=
  if f.fromKernel ∧ f.running ∧ s.low ≤ f.addr ∧ f.addr < s.mappedLow then
    let newLow := f.addr &&& pageMask page
    match Fibers.mprotect page f.mprotect newLow (sub s.mappedLow newLow) s.opened with
    | some opened => (true, { s with mappedLow := newLow, opened := opened })
    | none => (false, s)
  else (false, s)

def Stack.afterFaults (page : ℕ) (s : Stack) (faults : List Fault) : Stack :=
  faults.foldl (fun s f => (s.faultHandler page f).2) s

/-! ## Pages -/

section Pages

variable {page n : ℕ}

theorem and_pageMask (hpg : isPowerOfTwo page = true) (hlt : page < modulus) (hn : n < modulus) :
    n &&& pageMask page = n / page * page := by
  have hpos := isPowerOfTwo_pos hpg
  have hms : pageMask page = modulus - page := by
    unfold pageMask sizeMax
    rw [sub_of_le hpos hlt]
    omega
  obtain ⟨k, rfl⟩ := isPowerOfTwo_iff.mp hpg
  have hk : k < 64 := (Nat.pow_lt_pow_iff_right Nat.one_lt_two).mp hlt
  rw [hms]
  exact Align.and_mask hk.le hn

theorem roundUp_eq (hpg : isPowerOfTwo page = true) (hlt : page < modulus) (hn : n + page < modulus) :
    roundUp n page = Align.roundUp page n := by
  have hpos := isPowerOfTwo_pos hpg
  unfold roundUp
  rw [add_of_lt hn, sub_of_le (by omega) hn]
  exact and_pageMask hpg hlt (by omega)

theorem roundUp_of_dvd (hpos : 0 < page) (hn : page ∣ n) : Align.roundUp page n = n := by
  obtain ⟨m, rfl⟩ := hn
  unfold Align.roundUp
  have hdiv : (page * m + page - 1) / page = m := by
    rw [Nat.add_sub_assoc hpos, Nat.mul_add_div hpos, Nat.div_eq_of_lt (by omega), Nat.add_zero]
  rw [hdiv, Nat.mul_comm]

end Pages

/-! ## Well formed stacks -/

structure Stack.Ok (page : ℕ) (s : Stack) : Prop where
  low_eq : s.low = s.base + page
  top_eq : s.top = s.base + s.mappingSize
  top_lt : s.top < modulus
  base_aligned : page ∣ s.base
  aligned : page ∣ s.mappedLow
  low_le : s.low ≤ s.mappedLow
  le_top : s.mappedLow + page ≤ s.top
  accessible : ∀ a, s.Accessible a ↔ s.mappedLow ≤ a ∧ a < s.top

section Stacks

variable {page stackSize : ℕ} {calls : Calls} {pointers owner : Bool} {s : Stack} {f : Fault}

theorem Stack.Ok.guard (h : s.Ok page) {a : ℕ} (ha : a < s.low) : ¬ s.Accessible a := by
  rw [h.accessible]
  have hlow := h.low_le
  omega

theorem accepted_size (hpg : isPowerOfTwo page = true) (hlt : page < modulus)
    (hsz : stackSize ≤ sub sizeMax (sub page 1))
    (husa : roundUp stackSize page ≤ sub sizeMax page) :
    stackSize + page < modulus ∧ Align.roundUp page stackSize + page < modulus := by
  have hpos := isPowerOfTwo_pos hpg
  have hmod : sizeMax + 1 = modulus := by decide
  rw [sub_of_le hpos hlt, sub_of_le (by omega) (by omega)] at hsz
  rw [sub_of_le (by omega) (by omega)] at husa
  have hsum : stackSize + page < modulus := by
    by_contra hwrap
    -- the largest size wraps and is rounded to itself
    have hsum : stackSize + page = modulus := by omega
    have hsl : roundUp stackSize page = sizeMax / page * page := by
      unfold roundUp
      have hzr : sub (add stackSize page) 1 = sizeMax := by
        unfold add
        rw [hsum, Nat.mod_self]
        decide
      rw [hzr, and_pageMask hpg hlt (by omega)]
    have hdiv := Nat.div_add_mod sizeMax page
    have hrs := Nat.mod_lt sizeMax hpos
    rw [Nat.mul_comm] at hdiv
    omega
  refine ⟨hsum, ?_⟩
  rw [roundUp_eq hpg hlt hsum] at husa
  omega

theorem create_ok (hpg : isPowerOfTwo page = true) (hlt : page < modulus)
    (hmm : ∀ n base, calls.mmap n = some base → page ∣ base ∧ base + n < modulus)
    (h : create page pointers owner calls stackSize = .ok s) :
    s.Ok page ∧ stackSize + page < modulus ∧ s.mappingSize = Align.roundUp page stackSize + page ∧
      s.mappedLow + page = s.top := by
  have hpos := isPowerOfTwo_pos hpg
  unfold create at h
  dsimp only at h
  split_ifs at h with hrg hown hsz husa hcalloc
  obtain ⟨hlea, hmt⟩ := not_or.mp husa
  obtain ⟨hsum, hrm⟩ := accepted_size hpg hlt (not_lt.mp hsz) (not_lt.mp hmt)
  rw [roundUp_eq hpg hlt hsum] at h hlea
  rw [add_of_lt hrm] at h
  have hpag : page ∣ Align.roundUp page stackSize := Align.dvd_roundUp
  generalize Align.roundUp page stackSize = usable at *
  split at h
  · cases h
  rename_i base hbs
  obtain ⟨hali, hspa⟩ := hmm _ _ hbs
  have hmp : page ∣ base + usable := Nat.dvd_add hali hpag
  have hlow : base + (usable + page) - page = base + usable := by omega
  rw [add_of_lt hspa, add_of_lt (by omega), sub_of_le (by omega) hspa, hlow] at h
  unfold mprotect at h
  by_cases hprotect : calls.mprotect = true ∧ (base + usable) % page = 0
  · rw [if_pos hprotect, roundUp_of_dvd hpos dvd_rfl] at h
    obtain rfl := Except.ok.inj h
    refine ⟨⟨rfl, rfl, hspa, hali, hmp, by dsimp only; omega, by dsimp only; omega, fun a => ?_⟩,
      hsum, rfl, by dsimp only; omega⟩
    simp only [Stack.Accessible, List.mem_singleton, exists_eq_left]
    omega
  · rw [if_neg hprotect] at h
    cases h

theorem faultHandler_ok (hpg : isPowerOfTwo page = true) (hlt : page < modulus) (h : s.Ok page)
    (f : Fault) : ∃ t, (s.faultHandler page f).2 = t ∧ t.Ok page ∧
      t.base = s.base ∧ t.low = s.low ∧ t.top = s.top ∧ t.mappedLow ≤ s.mappedLow ∧
      ((s.faultHandler page f).1 = true → s.low ≤ f.addr ∧ f.addr < s.mappedLow ∧
        f.addr &&& pageMask page ≤ s.mappedLow ∧ t.Accessible f.addr) := by
  have hpos := isPowerOfTwo_pos hpg
  have hnot : ∃ t, s = t ∧ t.Ok page ∧ t.base = s.base ∧ t.low = s.low ∧ t.top = s.top ∧
      t.mappedLow ≤ s.mappedLow ∧ (false = true → s.low ≤ f.addr ∧ f.addr < s.mappedLow ∧
        f.addr &&& pageMask page ≤ s.mappedLow ∧ t.Accessible f.addr) :=
    ⟨s, rfl, h, rfl, rfl, rfl, le_rfl, fun hfal => by cases hfal⟩
  unfold Stack.faultHandler
  by_cases hgr : f.fromKernel ∧ f.running ∧ s.low ≤ f.addr ∧ f.addr < s.mappedLow
  swap
  · rw [if_neg hgr]
    exact hnot
  obtain ⟨-, -, hlow, hhg⟩ := id hgr
  have htop := h.top_lt
  have hle := h.le_top
  rw [if_pos hgr, and_pageMask hpg hlt (by omega)]
  have hdw : f.addr / page * page ≤ f.addr := Nat.div_mul_le_self _ _
  have hdvd : page ∣ f.addr / page * page := Dvd.intro_left _ rfl
  -- the lowest usable address is on a page
  have hlw : s.low ≤ f.addr / page * page := by
    obtain ⟨m, hm⟩ : page ∣ s.low := h.low_eq ▸ Nat.dvd_add h.base_aligned dvd_rfl
    rw [hm, Nat.mul_comm] at hlow ⊢
    exact Nat.mul_le_mul_right page ((Nat.le_div_iff_mul_le hpos).mpr hlow)
  rw [and_pageMask hpg hlt (by omega)] at hnot
  generalize f.addr / page * page = newLow at *
  dsimp only
  unfold mprotect
  by_cases hprotect : f.mprotect = true ∧ newLow % page = 0
  swap
  · rw [if_neg hprotect]
    exact hnot
  rw [if_pos hprotect, sub_of_le (by omega) (by omega), roundUp_of_dvd hpos (Nat.dvd_sub h.aligned hdvd)]
  have hacc : ∀ a, (∃ range ∈ (newLow, s.mappedLow - newLow) :: s.opened,
      range.1 ≤ a ∧ a < range.1 + range.2) ↔ newLow ≤ a ∧ a < s.top := by
    intro a
    rw [List.exists_mem_cons_iff]
    have hold := h.accessible a
    unfold Stack.Accessible at hold
    rw [hold]
    dsimp only
    omega
  refine ⟨_, rfl, { h with aligned := hdvd, low_le := hlw, le_top := ?_, accessible := hacc },
    rfl, rfl, rfl, ?_, fun _ => ⟨hlow, hhg, ?_, (hacc f.addr).mpr ?_⟩⟩
  · dsimp only
    omega
  · dsimp only
    omega
  · omega
  · omega

theorem afterFaults_ok (hpg : isPowerOfTwo page = true) (hlt : page < modulus) (h : s.Ok page)
    (faults : List Fault) : (s.afterFaults page faults).Ok page ∧
      (s.afterFaults page faults).base = s.base ∧ (s.afterFaults page faults).low = s.low ∧
      (s.afterFaults page faults).top = s.top := by
  induction faults generalizing s with
  | nil => exact ⟨h, rfl, rfl, rfl⟩
  | cons f faults ih =>
    obtain ⟨t, ht, hok, hbs, hlow, htop, -, -⟩ := faultHandler_ok hpg hlt h f
    unfold Stack.afterFaults at ih ⊢
    rw [List.foldl_cons, ht, ← hbs, ← hlow, ← htop]
    exact ih hok

end Stacks

/-- **Stack growth respects the guard page.** -/
theorem stack_guarded {page : ℕ} (hpg : isPowerOfTwo page = true) (hlt : page < modulus) {calls : Calls}
    (hmm : ∀ n base, calls.mmap n = some base → page ∣ base ∧ base + n < modulus)
    {pointers owner : Bool} {stackSize : ℕ} {s : Stack}
    (hcre : create page pointers owner calls stackSize = .ok s) (faults : List Fault) (f : Fault) :
    let t := s.afterFaults page faults
    let answer := t.faultHandler page f
    (stackSize + page < modulus ∧ s.mappingSize = Align.roundUp page stackSize + page ∧
      s.low = s.base + page ∧ s.top = s.base + s.mappingSize ∧ s.top < modulus ∧
      s.mappedLow + page = s.top) ∧
    (t.base = s.base ∧ t.low = s.low ∧ t.top = s.top) ∧
    (page ∣ t.mappedLow ∧ t.low ≤ t.mappedLow ∧ t.mappedLow ≤ t.top - page) ∧
    answer.2.mappedLow ≤ t.mappedLow ∧
    (∀ a, t.Accessible a ↔ t.mappedLow ≤ a ∧ a < t.top) ∧
    (answer.1 = true → t.low ≤ f.addr ∧ f.addr < t.mappedLow ∧ f.addr &&& pageMask page ≤ t.mappedLow ∧
      answer.2.Accessible f.addr) ∧
    ∀ a, t.base ≤ a → a < t.low → ¬ t.Accessible a := by
  obtain ⟨hok, hsum, hmap, hpn⟩ := create_ok hpg hlt hmm hcre
  obtain ⟨haft, hsm⟩ := afterFaults_ok hpg hlt hok faults
  obtain ⟨u, hu, -, -, -, -, hdw, habs⟩ := faultHandler_ok hpg hlt haft f
  dsimp only
  rw [hu]
  refine ⟨⟨hsum, hmap, hok.low_eq, hok.top_eq, hok.top_lt, hpn⟩, hsm,
    ⟨haft.aligned, haft.low_le, ?_⟩, hdw, haft.accessible, habs,
    fun a _ ha => haft.guard ha⟩
  exact Nat.le_sub_of_add_le haft.le_top

theorem stack_guarded_pages :
    let calls : Calls := ⟨true, fun n => if n = 16384 then some 65536 else none, true⟩
    ∃ s, create 4096 true true calls 10000 = .ok s ∧
      ((s.afterFaults 4096 [⟨74000, true, true, true⟩]).faultHandler 4096 ⟨69700, true, true, true⟩).1 =
        true ∧
      ∀ a, s.base ≤ a → a < s.low →
        ¬ (s.afterFaults 4096 [⟨74000, true, true, true⟩]).Accessible a := by
  intro calls
  have hmm : ∀ n base, calls.mmap n = some base → 4096 ∣ base ∧ base + n < modulus := by
    intro n base h
    by_cases hn : n = 16384
    · have hbs : some 65536 = some base := (if_pos hn).symm.trans h
      cases hbs
      rw [hn]
      decide
    · have hnn : none = some base := (if_neg hn).symm.trans h
      cases hnn
  have hcre : create 4096 true true calls 10000 =
      .ok ⟨65536, 16384, 69632, 81920, 77824, [(77824, 4096)]⟩ := by rfl
  have hgua := stack_guarded (by decide) (by decide) hmm hcre [⟨74000, true, true, true⟩]
    ⟨69700, true, true, true⟩
  exact ⟨_, hcre, by decide, hgua.2.2.2.2.2.2⟩

end Veloco.Fibers
