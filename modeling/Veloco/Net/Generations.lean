import Veloco.Net.Registry
import Veloco.Period

/-!
# Generations identify open periods
-/

namespace Veloco.Net

open Option

variable {reg reg' reg₀ mid : Registry} {fd fd' : ℤ} {g : ℕ}

inductive RegistryCall where
  | track (fd : ℤ) (calloc : Bool)
  | close (fd : ℤ) (closed : Bool)
  deriving DecidableEq, Repr

def registryStep (reg : Registry) : RegistryCall → Option Registry
  | .track fd calloc => some (socketTrack fd reg calloc).2
  | .close fd closed => some (socketClose fd reg closed).2

def Registry.Tracked (fd : ℤ) (reg : Registry) : Prop := (reg.slot fd).active = true

instance (fd : ℤ) (reg : Registry) : Decidable (reg.Tracked fd) :=
  inferInstanceAs (Decidable (_ = true))

def Registry.generation (fd : ℤ) (reg : Registry) : ℕ := (reg.slot fd).generation

structure GenerationsOk (reg : Registry) : Prop where
  bound : ∀ fd, reg.generation fd ≤ generationMax
  nonzero : ∀ fd, reg.Tracked fd → reg.generation fd ≠ 0
  nonneg : ∀ fd, reg.Tracked fd → 0 ≤ fd

structure Untracked (reg : Registry) : Prop where
  inactive : ∀ fd, ¬ reg.Tracked fd
  bound : ∀ fd, reg.generation fd ≤ generationMax

theorem Untracked.generationsOk (h : Untracked reg) : GenerationsOk reg :=
  ⟨h.bound, fun fd ht => absurd ht (h.inactive fd), fun fd ht => absurd ht (h.inactive fd)⟩

theorem GenerationsOk.set (h : GenerationsOk reg) {slot : Slot} (hbou : slot.generation ≤ generationMax)
    (hact : slot.active = true → slot.generation ≠ 0 ∧ 0 ≤ fd) : GenerationsOk (reg.set fd slot) := by
  have hcas : ∀ fd', (reg.set fd slot).slot fd' = if fd' = fd then slot else reg.slot fd' := by
    intro fd'
    split_ifs with heq
    · rw [heq, Registry.slot_set]
    · rw [Registry.slot_set_of_ne _ heq]
  constructor
  case bound =>
    intro fd'
    unfold Registry.generation
    rw [hcas]
    split_ifs
    · exact hbou
    · exact h.bound fd'
  case nonzero =>
    intro fd' ht
    unfold Registry.Tracked at ht
    unfold Registry.generation
    rw [hcas] at ht ⊢
    split_ifs at ht ⊢ with heq
    · exact (hact ht).1
    · exact h.nonzero fd' ht
  case nonneg =>
    intro fd' ht
    unfold Registry.Tracked at ht
    rw [hcas] at ht
    split_ifs at ht with heq
    · exact heq ▸ (hact ht).2
    · exact h.nonneg fd' ht

theorem GenerationsOk.congr (h : GenerationsOk reg) (hsm : ∀ fd, reg'.slot fd = reg.slot fd) :
    GenerationsOk reg' := by
  constructor
  case bound =>
    intro fd
    unfold Registry.generation
    rw [hsm]
    exact h.bound fd
  case nonzero =>
    intro fd
    unfold Registry.Tracked Registry.generation
    rw [hsm]
    exact h.nonzero fd
  case nonneg =>
    intro fd
    unfold Registry.Tracked
    rw [hsm]
    exact h.nonneg fd

theorem nextGeneration_le (hle : g ≤ generationMax) (hne : g ≠ generationMax) :
    nextGeneration g = g + 1 ∧ g + 1 ≤ generationMax :=
  ⟨nextGeneration_of_lt (lt_of_le_of_ne hle hne), lt_of_le_of_ne hle hne⟩

theorem turn_set_of_ne {slot : Slot} (hne : fd' ≠ fd) :
    Period.Turn (Registry.Tracked fd') (Registry.generation fd') reg (reg.set fd slot) := by
  have hsl := Registry.slot_set_of_ne reg hne slot
  refine .same ?_ ?_
  · unfold Registry.Tracked
    rw [hsl]
  · unfold Registry.generation
    rw [hsl]

theorem turn_congr (hsm : ∀ fd, reg'.slot fd = reg.slot fd) :
    Period.Turn (Registry.Tracked fd) (Registry.generation fd) reg reg' := by
  refine .same ?_ ?_
  · unfold Registry.Tracked
    rw [hsm]
  · unfold Registry.generation
    rw [hsm]

theorem GenerationsOk.track (h : GenerationsOk reg) (fd : ℤ) (calloc : Bool) (fd' : ℤ) :
    GenerationsOk (socketTrack fd reg calloc).2 ∧
      Period.Turn (Registry.Tracked fd') (Registry.generation fd') reg
        (socketTrack fd reg calloc).2 := by
  rcases socketTrack_cases fd reg calloc with ⟨-, hsm⟩ | ⟨-, hfd, hina, hne, hset⟩
  · exact ⟨h.congr hsm, turn_congr hsm⟩
  rw [hset]
  obtain ⟨hnx, hbou⟩ := nextGeneration_le (h.bound fd) hne
  have hgro : reg.generation fd < nextGeneration (reg.slot fd).generation := by
    show (reg.slot fd).generation < _
    rw [show nextGeneration (reg.slot fd).generation = (reg.slot fd).generation + 1 from hnx]
    exact Nat.lt_succ_self _
  refine ⟨h.set ?_ fun _ => ⟨Nat.ne_zero_of_lt hgro, hfd⟩, ?_⟩
  · show nextGeneration (reg.generation fd) ≤ generationMax
    rw [hnx]
    exact hbou
  by_cases heq : fd' = fd
  case neg => exact turn_set_of_ne heq
  subst heq
  refine .opens ?_ ?_ ?_
  · unfold Registry.Tracked
    rw [hina]
    exact Bool.false_ne_true
  · unfold Registry.Tracked
    rw [Registry.slot_set]
  · show _ < ((reg.set fd' _).slot fd').generation
    rw [Registry.slot_set]
    exact hgro

theorem GenerationsOk.close (h : GenerationsOk reg) (fd : ℤ) (closed : Bool) (fd' : ℤ) :
    GenerationsOk (socketClose fd reg closed).2 ∧
      Period.Turn (Registry.Tracked fd') (Registry.generation fd') reg
        (socketClose fd reg closed).2 := by
  rcases socketClose_cases fd reg closed with ⟨-, hsm⟩ | ⟨-, -, hact, hset⟩
  · rw [hsm]
    exact ⟨h, .same Iff.rfl rfl⟩
  rw [hset]
  have hgn : ∀ g, g = (if (reg.slot fd).generation ≠ generationMax then
        nextGeneration (reg.slot fd).generation else (reg.slot fd).generation) →
      reg.generation fd ≤ g ∧ g ≤ generationMax := by
    rintro g rfl
    split_ifs with hne
    · obtain ⟨hnx, hbou⟩ := nextGeneration_le (h.bound fd) hne
      unfold Registry.generation at hnx hbou ⊢
      rw [hnx]
      exact ⟨Nat.le_succ _, hbou⟩
    · exact ⟨le_rfl, h.bound fd⟩
  obtain ⟨hle, hbou⟩ := hgn _ rfl
  refine ⟨h.set hbou fun hactive' => Bool.noConfusion hactive', ?_⟩
  by_cases heq : fd' = fd
  case neg => exact turn_set_of_ne heq
  subst heq
  refine .closes hact ?_ ?_
  · unfold Registry.Tracked
    rw [Registry.slot_set]
    exact Bool.false_ne_true
  · show _ ≤ ((reg.set fd' _).slot fd').generation
    rw [Registry.slot_set]
    exact hle

theorem generation_turns (fd : ℤ) :
    Period.Turns registryStep GenerationsOk (Registry.Tracked fd) (Registry.generation fd) := by
  constructor
  case keeps =>
    intro reg call reg' hst h
    cases call with
    | track fd' calloc => exact some.inj hst ▸ (h.track fd' calloc fd').1
    | close fd' closed => exact some.inj hst ▸ (h.close fd' closed fd').1
  case turn =>
    intro reg call reg' hst h
    cases call with
    | track fd' calloc => exact some.inj hst ▸ (h.track fd' calloc fd).2
    | close fd' closed => exact some.inj hst ▸ (h.close fd' closed fd).2

theorem stale_of_ne {request : Request} (hop : request.op ≠ .timeout)
    (hne : reg.Tracked request.fd → reg.generation request.fd ≠ request.generation) :
    socketRequestIsStale request reg = true := by
  unfold socketRequestIsStale
  rw [if_neg hop]
  split_ifs with hfd
  · rfl
  cases hsl : reg request.fd with
  | none => rfl
  | some slot =>
    unfold Registry.Tracked Registry.generation at hne
    rw [Registry.slot_of_some hsl] at hne
    dsimp only
    cases hact : slot.active with
    | false => rfl
    | true => simpa using hne hact

/-- **Generations identify open periods.** -/
theorem generations_identify {calls : List RegistryCall} (hsta : Untracked reg₀)
    (hrun : Trans.run registryStep reg₀ calls = some reg) (fd : ℤ) :
    (reg.Tracked fd → reg.generation fd ≠ 0) ∧
      (∀ call reg', registryStep reg call = some reg' → reg.Tracked fd → reg'.Tracked fd →
        reg'.generation fd = reg.generation fd) ∧
      (∀ calls' reg', Trans.run registryStep reg calls' = some reg' →
        reg.generation fd ≤ reg'.generation fd) ∧
      ∀ calls₁ mid calls₂ reg', Trans.run registryStep reg calls₁ = some mid →
        Trans.run registryStep mid calls₂ = some reg' → ¬ mid.Tracked fd →
        (reg'.Tracked fd → reg'.generation fd ≠ reg.generation fd) ∧
          ∀ request : Request, request.fd = fd → request.op ≠ .timeout →
            request.generation = reg.generation fd → socketRequestIsStale request reg' = true := by
  have htur := generation_turns fd
  have hok : GenerationsOk reg :=
    Trans.run_invariant (fun s a t hst h => htur.keeps s a t hst h) hrun hsta.generationsOk
  refine ⟨hok.nonzero fd, fun call reg' hst hpn hopen' => ?_,
    fun calls' reg' hrun' => htur.run_le hok hrun', ?_⟩
  · exact (htur.turn reg call reg' hst hok).stamp_eq hpn hopen'
  intro calls₁ mid calls₂ reg' hrun₁ hrun₂ hclo
  have hne : reg'.Tracked fd → reg'.generation fd ≠ reg.generation fd :=
    fun hpn => htur.run_ne hok hrun₁ hrun₂ hclo hpn
  refine ⟨hne, ?_⟩
  rintro request rfl hop hgen
  exact stale_of_ne hop fun ht => hgen ▸ hne ht

def nearTheEnd : Registry := Registry.empty.set 5 ⟨generationMax - 2, 0, false⟩

theorem generations_identify_nearTheEnd : ∃ reg mid reg',
    Trans.run registryStep nearTheEnd [.track 5 true] = some reg ∧
      Trans.run registryStep reg [.close 5 true] = some mid ∧
      Trans.run registryStep mid [.track 5 true] = some reg' ∧
      reg.Tracked 5 ∧ reg.generation 5 = generationMax - 1 ∧ reg'.generation 5 = generationMax ∧
      reg.generation 5 ≤ reg'.generation 5 ∧
      socketRequestIsStale ⟨1, .recv, 5, false, 8, true, 0, 0, generationMax - 1⟩ reg' = true := by
  have hsta : Untracked nearTheEnd := by
    constructor
    · intro fd ht
      unfold Registry.Tracked nearTheEnd at ht
      by_cases h : fd = 5
      · rw [h, Registry.slot_set] at ht
        cases ht
      · rw [Registry.slot_set_of_ne _ h] at ht
        cases ht
    · intro fd
      unfold Registry.generation nearTheEnd
      by_cases h : fd = 5
      · rw [h, Registry.slot_set]
        exact Nat.sub_le _ _
      · rw [Registry.slot_set_of_ne _ h]
        exact Nat.zero_le _
  have hnd : (Trans.run registryStep nearTheEnd [.track 5 true]).map (fun reg =>
      (decide (reg.Tracked 5), reg.generation 5,
        (Trans.run registryStep reg [.close 5 true]).map fun mid =>
          (decide (mid.Tracked 5), (Trans.run registryStep mid [.track 5 true]).map
            (Registry.generation 5)))) =
      some (true, generationMax - 1, some (false, some generationMax)) := by decide +kernel
  obtain ⟨reg, hreg, heq⟩ := map_eq_some_iff.mp hnd
  simp only [Prod.mk.injEq] at heq
  obtain ⟨htra, hgen, hnd⟩ := heq
  obtain ⟨mid, hmid, heq⟩ := map_eq_some_iff.mp hnd
  obtain ⟨hclo, hnd⟩ := Prod.mk.inj heq
  obtain ⟨reg', hreg', hgeneration'⟩ := map_eq_some_iff.mp hnd
  obtain ⟨-, -, hle, hper⟩ := generations_identify hsta hreg 5
  refine ⟨reg, mid, reg', hreg, hmid, hreg', of_decide_eq_true htra, hgen, hgeneration',
    ?_, ?_⟩
  · refine hle ([.close 5 true] ++ [.track 5 true]) reg' ?_
    rw [Trans.run_append, hmid]
    exact hreg'
  · refine (hper _ mid _ reg' hmid hreg' (of_decide_eq_false hclo)).2 _ rfl ?_ ?_
    · exact Op.noConfusion
    · exact hgen.symm

end Veloco.Net
