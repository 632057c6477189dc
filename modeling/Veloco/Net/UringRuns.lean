import Veloco.Net.UringLife

/-!
# Runs of the io_uring backend
-/

namespace Veloco.Net.Uring

open List Option State
open Veloco.Net

variable {r r' : Ring} {s s' : State} {o : ℕ} {rest : List Command} {stopping sqe : Bool}

structure Running (r : Ring) : Prop extends Life r where
  isOpen : r.owner.isOpen = true
  stopped : r.worker = .stopped → r.outstanding = []

structure Ended (r : Ring) : Prop extends Closing r where
  isClosed : r.owner.isOpen = false
  stopped : r.worker = .stopped

def Inv (r : Ring) : Prop := Running r ∨ Ended r

theorem Running.ofOwner (hR : Running r) (hL : Life r') (hpn : r'.owner.isOpen = true)
    (hwk : r'.worker = r.worker) (hout : r'.outstanding = r.outstanding) : Inv r' :=
  .inl ⟨hL, hpn, by rw [hwk, hout]; exact hR.stopped⟩

theorem Running.ofWorker (hR : Running r) (hL : Life r') (hwn : r'.owner = r.owner)
    (hout : r'.worker = .stopped → r'.outstanding = []) : Inv r' :=
  .inl ⟨hL, hwn ▸ hR.isOpen, hout⟩

theorem Ring.submit_frame {request : Request} (hsub : r.submit request = some r') :
    r'.worker = r.worker ∧ r'.outstanding = r.outstanding ∧ r'.owner = r.owner := by
  unfold Ring.submit at hsub
  split at hsub
  · cases hsub
  · cases hsub
    exact ⟨rfl, rfl, rfl⟩

theorem Ring.cancel_frame (r : Ring) (id : ℕ) (calloc : Bool) :
    (r.cancel id calloc).worker = r.worker ∧ (r.cancel id calloc).outstanding = r.outstanding ∧
      (r.cancel id calloc).owner = r.owner := by
  unfold Ring.cancel
  split
  · exact ⟨rfl, rfl, rfl⟩
  split
  · exact ⟨rfl, rfl, rfl⟩
  split <;> exact ⟨rfl, rfl, rfl⟩

theorem Ring.poll_frame (r : Ring) (hdl : r.owner = .idle) :
    r.poll.worker = r.worker ∧ r.poll.outstanding = r.outstanding ∧ r.poll.owner.isOpen = true := by
  unfold Ring.poll
  split
  · exact ⟨rfl, rfl, by rw [hdl]; rfl⟩
  · refine ⟨rfl, rfl, ?_⟩
    dsimp only
    split <;> rfl

theorem Running.call (hR : Running s.ring) (hdl : s.ring.owner = .idle) (c : Call) :
    Inv (s.call c).ring := by
  have hL := hR.toLife
  have hown : ∀ (owner : Owner) (stop : Bool), owner.isOpen = true → owner.freeing = [] →
      owner.inHand = [] → Inv { s.ring with stopRequested := stop, owner := owner } := by
    intro owner stop hpn hfr hhn
    refine hR.ofOwner (hL.setOwner ?_ ?_) hpn rfl rfl
    · rw [hfr]
      exact nil_sublist _
    · rw [hhn]
      exact nil_sublist _
  cases c with
  | submit request =>
    change Inv (s.submit request).ring
    unfold submit
    dsimp only
    split
    · exact .inl hR
    split
    · exact hown _ _ rfl rfl rfl
    split
    · exact .inl hR
    split <;> exact hown _ _ rfl rfl rfl
  | cancel id calloc =>
    obtain ⟨hwk, hout, hwn⟩ := s.ring.cancel_frame id calloc
    exact hR.ofOwner (hL.cancel id calloc) ((congrArg Owner.isOpen hwn).trans hR.isOpen) hwk
      hout
  | poll =>
    obtain ⟨hwk, hout, hpn⟩ := s.ring.poll_frame hdl
    exact hR.ofOwner (hL.poll hdl) hpn hwk hout
  | destroy => exact hown _ _ rfl rfl rfl

theorem Running.enqueue (hR : Running s.ring) {request : Request} (calloc wakeup : Bool) :
    Inv (s.enqueue request calloc wakeup).ring := by
  -- the owner gives up, with or without a queued command
  have hfai : ∀ t : State, Running t.ring → Inv (t.submitFailed request).ring := by
    intro t ht
    unfold submitFailed
    split <;> exact ht.ofOwner (ht.toLife.setOwner (nil_sublist _) (nil_sublist _)) rfl rfl rfl
  unfold State.enqueue
  split
  · exact hfai s hR
  split
  · exact hfai s hR
  rename_i ring hsub
  have hL := hR.toLife.submit hsub
  obtain ⟨hwk, hout, hwn⟩ := Ring.submit_frame hsub
  have hrn : Running ring := ⟨hL, by rw [hwn]; exact hR.isOpen, by
    rw [hwk, hout]
    exact hR.stopped⟩
  split
  · exact hrn.ofOwner (hL.setOwner (nil_sublist _) (nil_sublist _)) rfl rfl rfl
  · exact hfai { s with ring := ring } hrn

theorem Inv.owner (hI : Inv s.ring) {outcome : Outcome} (hst : s.owner outcome = some s') :
    Inv s'.ring := by
  unfold State.owner at hst
  rcases hI with hR | hE
  · have hL := hR.toLife
    split at hst
    case h_1 request hwn =>
      cases hst
      unfold claim
      split <;> exact hR.ofOwner (hL.setOwner (nil_sublist _) (nil_sublist _)) rfl rfl rfl
    case h_2 request calloc wakeup hwn =>
      cases hst
      exact hR.enqueue calloc wakeup
    case h_3 request hwn =>
      cases hst
      exact hR.ofOwner (hL.setOwner (nil_sublist _) (nil_sublist _)) rfl rfl rfl
    case h_4 o completion hwn =>
      cases hst
      exact hR.ofOwner (hL.freeOwner hwn) rfl rfl rfl
    case h_5 o completion hwn =>
      cases hst
      have hdel := fun c => hL.deliver (o := o) (by rw [hwn]; rfl) c
      unfold finish
      split
      · split
        · refine hR.ofOwner (hL.setOwner (nil_sublist _) ?_) rfl rfl rfl
          rw [hwn]
          exact List.Sublist.refl _
        · exact hR.ofOwner (hdel _) rfl rfl rfl
      · exact hR.ofOwner (hdel _) rfl rfl rfl
    case h_6 o completion closed hwn =>
      cases hst
      exact hR.ofOwner (hL.deliver (by rw [hwn]; rfl) _) rfl rfl rfl
    case h_7 hwn =>
      split at hst
      · rename_i hwk
        cases hst
        exact .inr ⟨hL.join hwn hwk (hR.stopped hwk), rfl, hwk⟩
      · cases hst
    case h_8 hwn =>
      have hpn := hR.isOpen
      rw [hwn] at hpn
      cases hpn
    case h_9 => cases hst
  · have hclo := hE.isClosed
    split at hst
    case h_8 hwn =>
      cases hst
      unfold destroy
      split
      · rename_i o rest hact
        exact .inr ⟨hE.toClosing.active hact, hE.isClosed, hE.stopped⟩
      · rename_i hact
        exact .inr ⟨hE.toClosing.completed hact hwn, rfl, hE.stopped⟩
    case h_9 => cases hst
    all_goals
      rename_i hwn
      rw [hwn] at hclo
      cases hclo

theorem Ring.processSubmit_frame (r : Ring) (o : ℕ) (rest : List Command) (stopping sqe : Bool) :
    (r.processSubmit o rest stopping sqe).owner = r.owner ∧
      (r.processSubmit o rest stopping sqe).worker ≠ .stopped := by
  unfold Ring.processSubmit
  split <;> exact ⟨rfl, Worker.noConfusion⟩

theorem Ring.processCancel_frame (r : Ring) (o : ℕ) (rest : List Command) (stopping sqe : Bool) :
    (r.processCancel o rest stopping sqe).owner = r.owner ∧
      (r.processCancel o rest stopping sqe).worker ≠ .stopped := by
  unfold Ring.processCancel
  dsimp only
  split
  · split <;> exact ⟨rfl, Worker.noConfusion⟩
  · split <;> exact ⟨rfl, Worker.noConfusion⟩

theorem Ring.complete_frame (r : Ring) (o : ℕ) (result : ℤ) :
    (r.complete o result).owner = r.owner ∧ (r.complete o result).worker ≠ .stopped := by
  unfold Ring.complete
  dsimp only
  split <;> exact ⟨rfl, Worker.noConfusion⟩

theorem Ring.publish_frame (r : Ring) (o : ℕ) :
    (r.publish o).owner = r.owner ∧ (r.publish o).worker ≠ .stopped := by
  unfold Ring.publish
  split <;> exact ⟨rfl, Worker.noConfusion⟩

theorem State.command_ring (s : State) (c : Command) (rest : List Command) (stopping sqe : Bool) :
    (s.command c rest stopping sqe).ring =
      match c with
      | .submit o => s.ring.processSubmit o rest stopping sqe
      | .cancel o => s.ring.processCancel o rest stopping sqe := by
  unfold command
  cases c with
  | submit o =>
    dsimp only
    split <;> rfl
  | cancel o => rfl

theorem State.completion_ring {result : ℤ} {calloc : Bool}
    (hst : s.completion o result calloc = some s') :
    ∃ result, s'.ring = s.ring.complete o result := by
  unfold completion at hst
  split at hst
  · split at hst
    · cases hst
    · cases hst
      exact ⟨_, rfl⟩
  · cases hst
    exact ⟨_, rfl⟩

theorem Inv.worker (hI : Inv s.ring) {action : Action} (hst : s.worker action = some s') :
    Inv s'.ring := by
  unfold State.worker at hst
  rcases hI with hR | hE
  · have hL := hR.toLife
    split at hst
    case h_1 hwk =>
      cases hst
      exact hR.ofWorker (hL.detach hwk) rfl fun h => by cases h
    case h_2 c rest stopping sqe hwk =>
      cases hst
      rw [command_ring]
      cases c with
      | submit o =>
        obtain ⟨hwn, hgs⟩ := s.ring.processSubmit_frame o rest stopping sqe
        exact hR.ofWorker (hL.processSubmit hwk) hwn fun h => absurd h hgs
      | cancel o =>
        obtain ⟨hwn, hgs⟩ := s.ring.processCancel_frame o rest stopping sqe
        exact hR.ofWorker (hL.processCancel hwk) hwn fun h => absurd h hgs
    case h_3 stopping ok hwk =>
      split at hst
      · cases hst
        exact hR.ofWorker (hL.halt _) rfl fun _ => rfl
      split at hst
      · cases hst
        exact hR.ofWorker (hL.halt _) rfl fun _ => rfl
      · cases hst
        exact hR.ofWorker (hL.setWorker (nil_sublist _) (nil_sublist _)
          (nil_sublist _)) rfl fun h => by cases h
    case h_4 o rest stopping hwk =>
      cases hst
      exact hR.ofWorker (hL.freeWorker hwk) rfl fun h => by cases h
    case h_5 o result calloc hwk =>
      split at hst
      · rename_i hout
        obtain ⟨result, hrn⟩ := State.completion_ring hst
        obtain ⟨hwn, hgs⟩ := s.ring.complete_frame o result
        rw [hrn]
        exact hR.ofWorker (hL.complete hwk hout result) hwn fun h => absurd h hgs
      · cases hst
    case h_6 o hwk =>
      split at hst
      · cases hst
        have hsm : Life { s.ring with cancelling := s.ring.cancelling.erase o } := { hL with }
        exact hR.ofWorker hsm rfl hR.stopped
      · cases hst
    case h_7 o hwk =>
      cases hst
      refine hR.ofWorker (hL.setWorker (nil_sublist _) ?_ (nil_sublist _)) rfl
        fun h => by cases h
      rw [hwk]
      exact List.Sublist.refl _
    case h_8 o hwk =>
      cases hst
      obtain ⟨hwn, hgs⟩ := s.ring.publish_frame o
      exact hR.ofWorker (hL.publish hwk) hwn fun h => absurd h hgs
    case h_9 hwk =>
      cases hst
      exact hR.ofWorker (hL.halt _) rfl fun _ => rfl
    case h_10 => cases hst
  · have hsto := hE.stopped
    split at hst
    case h_10 => cases hst
    all_goals
      rename_i hwk
      rw [hwk] at hsto
      cases hsto

theorem Inv.step (hI : Inv s.ring) {label : Label} (hst : step s label = some s') :
    Inv s'.ring := by
  cases label with
  | call c =>
    unfold Uring.step at hst
    dsimp only at hst
    split at hst
    · rename_i hdl
      cases hst
      rcases hI with hR | hE
      · exact hR.call hdl c
      · have hclo := hE.isClosed
        rw [hdl] at hclo
        cases hclo
    · cases hst
  | owner outcome => exact hI.owner hst
  | worker action => exact hI.worker hst
  | openAt fd =>
    obtain ⟨net, -, rfl⟩ := map_eq_some_iff.mp hst
    exact hI
  | discard fd =>
    obtain ⟨net, -, rfl⟩ := map_eq_some_iff.mp hst
    exact hI
  | track fd calloc =>
    obtain ⟨p, -, rfl⟩ := map_eq_some_iff.mp hst
    exact hI
  | close fd closed =>
    cases hst
    exact hI

theorem inv_initial : Inv State.initial.ring := by
  refine .inl ⟨?_, rfl, fun h => by cases h⟩
  constructor
  case active_nodup => exact nodup_nil
  case completed_nodup => exact nodup_nil
  case underway_nodup => exact nodup_nil
  case cancels_nodup => exact nodup_nil
  case dead_nodup => exact nodup_nil
  case seen_nodup => exact nodup_nil
  all_goals exact fun _ ho => absurd ho not_mem_nil

structure Lifecycle (r : Ring) : Prop where
  returned : (r.returned.map Prod.fst).Nodup
  freed : r.freed.Nodup
  queued : ∀ c ∈ r.queue, ∀ o, c = .submit o ∨ c = .cancel o → o ∉ r.freed
  detached : ∀ c ∈ r.worker.detached, ∀ o, c = .submit o ∨ c = .cancel o → o ∉ r.freed
  active : ∀ o ∈ r.active, o ∉ r.freed
  completed : ∀ o ∈ r.completed, o ∉ r.freed
  outstanding : ∀ o ∈ r.outstanding, o ∉ r.freed
  completing : ∀ o ∈ r.worker.completing, o ∉ r.freed
  freeing : (r.owner.freeing ++ (r.worker.freeing ++ r.freed)).Nodup

theorem Ended.lifecycle (hE : Ended r) : Lifecycle r := by
  have hque : r.worker.detached = [] ∧ r.queue = [] := append_eq_nil_iff.mp hE.commands
  have hund : r.outstanding = [] ∧ r.worker.completing = [] :=
    append_eq_nil_iff.mp (append_eq_nil_iff.mp hE.underway).2
  obtain ⟨-, hrs, hact⟩ := nodup_append.mp hE.nodup
  obtain ⟨-, hdd, hcm⟩ := nodup_append.mp hrs
  have hfre : ∀ o ∈ r.freed, o ∈ r.dead := fun o ho =>
    mem_append_right _ (mem_append_right _ ho)
  constructor
  case returned => exact (nodup_append.mp hE.seen_nodup).2.1
  case freed => exact (nodup_append.mp (nodup_append.mp hdd).2.1).2.1
  case queued => exact fun c hc => absurd hc (by rw [hque.2]; exact not_mem_nil)
  case detached => exact fun c hc => absurd hc (by rw [hque.1]; exact not_mem_nil)
  case active =>
    exact fun o ho hmem => hact o ho o (mem_append_right _ (hfre o hmem)) rfl
  case completed => exact fun o ho hmem => hcm o ho o (hfre o hmem) rfl
  case outstanding => exact fun o ho => absurd ho (by rw [hund.1]; exact not_mem_nil)
  case completing => exact fun o ho => absurd ho (by rw [hund.2]; exact not_mem_nil)
  case freeing => exact hdd

theorem Life.lifecycle (hL : Life r) : Lifecycle r := by
  have hfre : ∀ o ∈ r.freed, o ∈ r.dead := fun o ho =>
    mem_append_right _ (mem_append_right _ ho)
  have hact : ∀ o ∈ r.active, o ∉ r.freed := by
    intro o ho hmem
    have hres := (hL.active o ho).2.1
    rw [(hL.dead o (hfre o hmem)).2.1] at hres
    cases hres
  have hcom : ∀ c ∈ r.commands, ∀ o, c = .submit o ∨ c = .cancel o → o ∉ r.freed := by
    rintro c hc o (rfl | rfl)
    · have hsb : o ∈ submits r.commands := mem_filterMap.mpr ⟨_, hc, rfl⟩
      exact hact o (hL.underway o (mem_append_left _ hsb))
    · have hcan : o ∈ cancels r.commands := mem_filterMap.mpr ⟨_, hc, rfl⟩
      intro hmem
      have hpen := (hL.pending o hcan).2
      rw [(hL.dead o (hfre o hmem)).2.2.2] at hpen
      cases hpen
  constructor
  case returned => exact (nodup_append.mp hL.seen_nodup).2.1
  case freed => exact (nodup_append.mp (nodup_append.mp hL.dead_nodup).2.1).2.1
  case queued => exact fun c hc => hcom c (mem_append_right _ hc)
  case detached => exact fun c hc => hcom c (mem_append_left _ hc)
  case active => exact hact
  case completed =>
    intro o ho hmem
    have hcon := (hL.completed o ho).2.2
    rw [(hL.dead o (hfre o hmem)).2.2.1] at hcon
    cases hcon
  case outstanding =>
    exact fun o ho => hact o (hL.underway o (mem_append_right _ (mem_append_left _ ho)))
  case completing =>
    exact fun o ho => hact o (hL.underway o (mem_append_right _ (mem_append_right _ ho)))
  case freeing => exact hL.dead_nodup

/-- **The life of an operation** -/
theorem lifecycle_of_run {labels : List Label}
    (hrun : Trans.run step State.initial labels = some s) : Lifecycle s.ring := by
  have hI : Inv s.ring := Trans.run_invariant (I := fun s => Inv s.ring)
    (fun _ _ _ hst hI => hI.step hst) hrun inv_initial
  rcases hI with hR | hE
  · exact hR.toLife.lifecycle
  · exact hE.lifecycle

def cancelOvertaken : List Label :=
  [.openAt 5, .track 5 true, .call (.submit ⟨1, .recv, 5, false, 8, true, 0, 0, 0⟩), .owner .nothing,
    .owner (.enqueue true true), .worker .detach, .worker (.command true), .worker (.processed true),
    .call (.cancel 1 true), .worker (.completion 0 8 true), .worker .advance, .worker .advance,
    .call .poll, .owner .nothing, .worker .detach, .worker (.command true), .worker .advance]

theorem lifecycle_cancelOvertaken : ∃ s,
    Trans.run step State.initial cancelOvertaken = some s ∧ s.ring.freed = [0] ∧
      (s.ring.returned.map fun e => (e.1, e.2.result)) = [(0, 8)] ∧ Lifecycle s.ring := by
  have hnd : (Trans.run step State.initial cancelOvertaken).map (fun s =>
      (s.ring.freed, s.ring.returned.map fun e => (e.1, e.2.result))) = some ([0], [(0, 8)]) := by
    decide +kernel
  obtain ⟨s, hrun, heq⟩ := map_eq_some_iff.mp hnd
  obtain ⟨hfre, hret⟩ := Prod.mk.inj heq
  exact ⟨s, hrun, hfre, hret, lifecycle_of_run hrun⟩

end Veloco.Net.Uring
