import Veloco.Net.EpollInv

/-!
# Runs of the epoll backend
-/

namespace Veloco.Net.Epoll

open List Option
open Veloco.Net Veloco.Claim

variable {s : State} {h : Handle} {w : Waiter} {i n : ℕ} {fd : ℤ} {labels : List Label}

theorem inv_initial : Inv State.initial where
  handle := fun i => by
    constructor
    case nodup => exact nodup_nil
    case serials => exact nodup_nil
    case dropped => exact fun _ => rfl
    case within => exact trivial
    case accounts => exact fun _ => rfl
    case fd => exact fun _ hw => absurd hw not_mem_nil
    case registered => exact fun _ _ he => absurd he not_mem_nil
    case bound => exact fun _ hk => absurd hk not_mem_nil
    case deleted => exact fun _ hp => absurd hp not_mem_nil
  claims := Exact.empty.congr (fun _ => rfl) fun _ => by
    simp [State.Holds, State.initial, Handle.init, Handle.holders, Pc.holders]

theorem inv_of_run (hrun : Trans.run step State.initial labels = some s) : Inv s :=
  Trans.run_invariant (fun _ _ _ hst hI => hI.step hst) hrun inv_initial

/-! ## Completions -/

structure OneCompletion (h : Handle) : Prop where
  accepted_nodup : h.accepted.Nodup
  places : h.accepted.Perm (h.waiters.map Waiter.serial ++ (h.completed.map Entry.serial ++
    (h.pc.inHand ++ (h.returned.map Entry.serial ++ h.dropped))))
  between_calls : h.pc = .idle → h.accepted.Perm (h.waiters.map Waiter.serial ++
    (h.completed.map Entry.serial ++ h.returned.map Entry.serial))
  dropped : h.pc.isOpen = true → h.dropped = []
  rejected : ∀ n ∈ h.rejected, n ∉ h.accepted ∧ n ∉ h.waiters.map Waiter.serial ∧
    n ∉ h.completed.map Entry.serial ∧ n ∉ h.pc.inHand ∧ n ∉ h.returned.map Entry.serial
  descriptors : (h.waiters.map fun w => w.request.fd).Nodup
  deleted : ∀ p ∈ h.deleted, p.2 = p.1

theorem HandleOk.places (hok : HandleOk n h) :
    h.accepted.Perm (h.waiters.map Waiter.serial ++ (h.completed.map Entry.serial ++
      (h.pc.inHand ++ (h.returned.map Entry.serial ++ h.dropped)))) := by
  refine perm_iff_count.mpr fun k => ?_
  have hacc := hok.accounts k
  simp only [count_append]
  omega

theorem HandleOk.between_calls (hok : HandleOk n h) (hidle : h.pc = .idle) :
    h.accepted.Perm (h.waiters.map Waiter.serial ++
      (h.completed.map Entry.serial ++ h.returned.map Entry.serial)) := by
  have hpla := hok.places
  rw [hok.dropped (by rw [hidle]; rfl), hidle] at hpla
  simpa [Pc.inHand] using hpla

theorem HandleOk.rejected (hok : HandleOk n h) {k : ℕ} (hk : k ∈ h.rejected) : k ∉ h.accepted := by
  intro hacc
  have hser := hok.serials
  rw [append_assoc] at hser
  have hdisj := (nodup_append.mp (nodup_append.mp hser).2.1).2.2
  exact hdisj k hacc k hk rfl

theorem Inv.descriptors (hI : Inv s) (i : ℕ) :
    ((s.handles i).waiters.map fun w => w.request.fd).Nodup := by
  have hnd := (nodup_append.mp (hI.handle i).nodup).1
  refine List.Nodup.map_on (fun e he w hw heq => ?_) hnd
  have huni := hI.claims.unique (i, e) (i, w) (mem_append_left _ he) (mem_append_left _ hw) heq
  exact (Prod.mk.inj huni).2

/-- **Exactly one completion** -/
theorem oneCompletion_of_run (hrun : Trans.run step State.initial labels = some s) (i : ℕ) :
    OneCompletion (s.handles i) := by
  have hI := inv_of_run hrun
  have hok := hI.handle i
  constructor
  case accepted_nodup =>
    have hser := hok.serials
    rw [append_assoc] at hser
    exact (nodup_append.mp (nodup_append.mp hser).2.1).1
  case places => exact hok.places
  case between_calls => exact hok.between_calls
  case dropped => exact hok.dropped
  case rejected =>
    intro k hk
    have hnot := hok.rejected hk
    have hpla := hok.places.mem_iff (a := k)
    simp only [mem_append] at hpla
    tauto
  case descriptors => exact hI.descriptors i
  case deleted => exact hok.deleted

def reusedDescriptor : List Label :=
  [.track 5 true, .call 0 (.submit ⟨1, .recv, 5, false, 8, true, 0, 0, 0⟩), .advance 0 .nothing,
    .advance 0 .nothing, .advance 0 (.add true true),
    .call 1 (.submit ⟨2, .send, 5, false, 8, true, 0, 0, 0⟩), .advance 1 .nothing,
    .advance 1 .nothing, .close 5 true, .track 5 true]

def reusedDescriptorPoll : List Label :=
  reusedDescriptor ++ [.call 0 (.poll true true), .advance 0 .nothing, .advance 0 .nothing,
    .advance 0 .nothing]

theorem oneCompletion_reusedDescriptorPoll : ∃ s,
    Trans.run step State.initial reusedDescriptorPoll = some s ∧
      ((s.handles 0).returned.map fun e => (e.serial, e.completion.result)) = [(0, -116)] ∧
      (s.handles 1).rejected = [1] ∧ OneCompletion (s.handles 0) ∧ OneCompletion (s.handles 1) := by
  have hends : (Trans.run step State.initial reusedDescriptorPoll).map (fun s =>
      (((s.handles 0).returned.map fun e => (e.serial, e.completion.result)),
        (s.handles 1).rejected)) = some ([(0, -116)], [1]) := by decide +kernel
  obtain ⟨s, hrun, heq⟩ := map_eq_some_iff.mp hends
  obtain ⟨hret, hrej⟩ := Prod.mk.inj heq
  exact ⟨s, hrun, hret, hrej, oneCompletion_of_run hrun 0, oneCompletion_of_run hrun 1⟩

def State.ClaimIs (s : State) (fd : ℤ) (waits : ℕ × Waiter → Prop) : Prop :=
  ∀ g, g ≠ 0 → (pending s.reg fd = g ↔ ∃ x, waits x ∧ x.2.request.fd = fd ∧
    x.2.request.generation = g ∧ ∀ y, waits y → y.2.request.fd = fd → y = x)

def State.Waits (s : State) (x : ℕ × Waiter) : Prop := x.2 ∈ (s.handles x.1).waiters

theorem Inv.claimIs (hI : Inv s) (fd : ℤ) : s.ClaimIs fd s.Holds := by
  intro g hg
  constructor
  · intro hpen
    obtain ⟨x, hx, hfd⟩ := hI.claims.holder fd (hpen ▸ hg)
    have hent := hI.claims.entered x hx
    rw [hfd] at hent
    exact ⟨x, hx, hfd, hent.symm.trans hpen, fun y hy hy' =>
      hI.claims.unique y x hy hx (hy'.trans hfd.symm)⟩
  · rintro ⟨x, hx, hfd, hgen, -⟩
    have hent := hI.claims.entered x hx
    rw [hfd] at hent
    exact hent.trans hgen

/-- **One pending request for each descriptor, process-wide** -/
theorem oneWaiter_of_run (hrun : Trans.run step State.initial labels = some s) (fd : ℤ) :
    s.ClaimIs fd s.Holds ∧
      (∀ x y, s.Holds x → s.Holds y → x.2.request.fd = fd → y.2.request.fd = fd → x = y) ∧
      (pending s.reg fd = 0 → ∀ x, s.Holds x → x.2.request.fd ≠ fd) ∧
      ((∀ i, ∀ w ∈ (s.handles i).pc.holders, w.request.fd ≠ fd) → s.ClaimIs fd s.Waits) := by
  have hI := inv_of_run hrun
  have hcla := hI.claimIs fd
  refine ⟨hcla, fun x y hx hy hxf hyf => hI.claims.unique x y hx hy (hxf.trans hyf.symm),
    fun hpen x hx hfd => ?_, fun hqui g hg => ?_⟩
  · refine hI.claims.token_ne x hx ((hI.claims.entered x hx).symm.trans ?_)
    rw [hfd, hpen]
  have hwai : ∀ x : ℕ × Waiter, x.2.request.fd = fd → (s.Holds x ↔ s.Waits x) := by
    intro x hx
    refine mem_append.trans (or_iff_left fun hmem => ?_)
    exact hqui x.1 x.2 hmem hx
  refine (hcla g hg).trans (exists_congr fun x => ?_)
  constructor
  · rintro ⟨hx, hfd, hgen, huni⟩
    exact ⟨(hwai x hfd).mp hx, hfd, hgen, fun y hy hy' => huni y ((hwai y hy').mpr hy) hy'⟩
  · rintro ⟨hx, hfd, hgen, huni⟩
    exact ⟨(hwai x hfd).mpr hx, hfd, hgen, fun y hy hy' => huni y ((hwai y hy').mp hy) hy'⟩

theorem reusedDescriptor_idle (hrun : Trans.run step State.initial reusedDescriptor = some s) (i : ℕ) :
    (s.handles i).pc = .idle := by
  have hpc : ∀ pc, (Trans.run step State.initial reusedDescriptor).map (fun t => (t.handles i).pc) =
      some pc → (s.handles i).pc = pc := by
    intro pc hmap
    rw [hrun] at hmap
    exact some.inj hmap
  rcases i with _ | _ | i
  · exact hpc _ (by decide +kernel)
  · exact hpc _ (by decide +kernel)
  · exact hpc _ rfl

theorem oneWaiter_reusedDescriptor : ∃ s,
    Trans.run step State.initial reusedDescriptor = some s ∧ pending s.reg 5 = 1 ∧
      socketGeneration 5 s.reg = 3 ∧ s.ClaimIs 5 s.Holds ∧ s.ClaimIs 5 s.Waits := by
  have hends : (Trans.run step State.initial reusedDescriptor).map (fun s =>
      (pending s.reg 5, socketGeneration 5 s.reg)) = some (1, 3) := by decide +kernel
  obtain ⟨s, hrun, heq⟩ := map_eq_some_iff.mp hends
  obtain ⟨hpen, hgene⟩ := Prod.mk.inj heq
  obtain ⟨hhol, -, -, hwai⟩ := oneWaiter_of_run hrun 5
  refine ⟨s, hrun, hpen, hgene, hhol, hwai fun i w hw => ?_⟩
  rw [reusedDescriptor_idle hrun i] at hw
  exact absurd hw not_mem_nil

end Veloco.Net.Epoll
