import Mathlib.Data.List.Perm.Basic
import Veloco.Net.Uring

/-!
# The life of an operation of the ring
-/

namespace Veloco.Net.Uring

open Function List
open Veloco.Net

variable {r r' : Ring} {s s' : State} {o : ℕ} {rest : List Command} {stopping sqe : Bool}

/-! ## Places -/

def submits (commands : List Command) : List ℕ :=
  commands.filterMap fun
    | .submit o => some o
    | .cancel _ => none

def cancels (commands : List Command) : List ℕ :=
  commands.filterMap fun
    | .submit _ => none
    | .cancel o => some o

@[simp] theorem submits_append (l₁ l₂ : List Command) :
    submits (l₁ ++ l₂) = submits l₁ ++ submits l₂ := filterMap_append

@[simp] theorem cancels_append (l₁ l₂ : List Command) :
    cancels (l₁ ++ l₂) = cancels l₁ ++ cancels l₂ := filterMap_append

@[simp] theorem submits_nil : submits [] = [] := rfl

@[simp] theorem cancels_nil : cancels [] = [] := rfl

@[simp] theorem submits_submit (o : ℕ) (l : List Command) :
    submits (.submit o :: l) = o :: submits l := rfl

@[simp] theorem submits_cancel (o : ℕ) (l : List Command) :
    submits (.cancel o :: l) = submits l := rfl

@[simp] theorem cancels_submit (o : ℕ) (l : List Command) :
    cancels (.submit o :: l) = cancels l := rfl

@[simp] theorem cancels_cancel (o : ℕ) (l : List Command) :
    cancels (.cancel o :: l) = o :: cancels l := rfl

namespace Worker

def detached : Worker → List Command
  | commands rest _ => rest
  | free _ rest _ => rest
  | _ => []

def completing : Worker → List ℕ
  | release o => [o]
  | publish o => [o]
  | _ => []

def freeing : Worker → List ℕ
  | free o _ _ => [o]
  | _ => []

end Worker

namespace Owner

def freeing : Owner → List ℕ
  | free o _ => [o]
  | _ => []

def inHand : Owner → List ℕ
  | free o _ => [o]
  | finish o _ => [o]
  | closeAccepted o _ => [o]
  | _ => []

def isOpen : Owner → Bool
  | destroy => false
  | closed => false
  | _ => true

end Owner

namespace Ring

variable (r : Ring)

def commands : List Command := r.worker.detached ++ r.queue

def underway : List ℕ := submits r.commands ++ (r.outstanding ++ r.worker.completing)

def dead : List ℕ := r.owner.freeing ++ (r.worker.freeing ++ r.freed)

def seen : List ℕ := r.owner.inHand ++ r.returned.map Prod.fst

end Ring

structure Life (r : Ring) : Prop where
  active_nodup : r.active.Nodup
  active : ∀ o ∈ r.active, o < r.next ∧ (r.operations o).resolved = false ∧
    (r.operations o).completionConsumed = false
  completed_nodup : r.completed.Nodup
  completed : ∀ o ∈ r.completed, o < r.next ∧ (r.operations o).resolved = true ∧
    (r.operations o).completionConsumed = false
  underway_nodup : r.underway.Nodup
  underway : ∀ o ∈ r.underway, o ∈ r.active
  cancels_nodup : (cancels r.commands).Nodup
  pending : ∀ o ∈ cancels r.commands, o < r.next ∧ (r.operations o).cancelCommandPending = true
  dead_nodup : r.dead.Nodup
  dead : ∀ o ∈ r.dead, o < r.next ∧ (r.operations o).resolved = true ∧
    (r.operations o).completionConsumed = true ∧ (r.operations o).cancelCommandPending = false
  seen_nodup : r.seen.Nodup
  seen : ∀ o ∈ r.seen, o < r.next ∧ (r.operations o).completionConsumed = true

structure Closing (r : Ring) : Prop where
  commands : r.commands = []
  underway : r.underway = []
  nodup : (r.active ++ (r.completed ++ r.dead)).Nodup
  seen_nodup : r.seen.Nodup

/-! ## Steps of a handle in use -/

theorem nodup_of_subperm {l₁ l₂ : List ℕ} (hsub : l₁.Subperm l₂) (hnd : l₂.Nodup) : l₁.Nodup := by
  obtain ⟨l, hpr, hl⟩ := hsub
  exact hpr.nodup_iff.mp (hnd.sublist hl)

theorem Life.rearrange (hL : Life r) (hope : r'.operations = r.operations)
    (hnx : r'.next = r.next) (hact : r'.active = r.active)
    (hcom : r'.completed = r.completed) (hund : r'.underway.Subperm r.underway)
    (hcan : (cancels r'.commands).Subperm (cancels r.commands))
    (hdd : r'.dead.Subperm r.dead) (hsn : r'.seen.Subperm r.seen) : Life r' where
  active_nodup := hact ▸ hL.active_nodup
  active := by
    rw [hope, hnx, hact]
    exact hL.active
  completed_nodup := hcom ▸ hL.completed_nodup
  completed := by
    rw [hope, hnx, hcom]
    exact hL.completed
  underway_nodup := nodup_of_subperm hund hL.underway_nodup
  underway := by
    rw [hact]
    exact fun o ho => hL.underway o (hund.subset ho)
  cancels_nodup := nodup_of_subperm hcan hL.cancels_nodup
  pending := by
    rw [hope, hnx]
    exact fun o ho => hL.pending o (hcan.subset ho)
  dead_nodup := nodup_of_subperm hdd hL.dead_nodup
  dead := by
    rw [hope, hnx]
    exact fun o ho => hL.dead o (hdd.subset ho)
  seen_nodup := nodup_of_subperm hsn hL.seen_nodup
  seen := by
    rw [hope, hnx]
    exact fun o ho => hL.seen o (hsn.subset ho)

theorem Life.setOwner (hL : Life r) {owner : Owner} {stop : Bool}
    (hfr : owner.freeing.Sublist r.owner.freeing) (hhn : owner.inHand.Sublist r.owner.inHand) :
    Life { r with stopRequested := stop, owner := owner } :=
  hL.rearrange rfl rfl rfl rfl (List.Subperm.refl _) (List.Subperm.refl _)
    (List.Sublist.append_right hfr _).subperm (List.Sublist.append_right hhn _).subperm

theorem Life.setWorker (hL : Life r) {worker : Worker} {status : Status}
    (hdet : worker.detached.Sublist r.worker.detached)
    (hcp : worker.completing.Sublist r.worker.completing)
    (hfr : worker.freeing.Sublist r.worker.freeing) :
    Life { r with workerStatus := status, worker := worker } := by
  have hcm := List.Sublist.append_right hdet r.queue
  refine hL.rearrange rfl rfl rfl rfl ?_ (hcm.filterMap _).subperm
    (List.Sublist.append_left (List.Sublist.append_right hfr _) _).subperm (List.Subperm.refl _)
  exact ((hcm.filterMap _).append (List.Sublist.append_left hcp _)).subperm

theorem Life.setOperation (hL : Life r) {operation : Operation}
    (hact : o ∈ r.active → operation.resolved = false ∧ operation.completionConsumed = false)
    (hcom : o ∈ r.completed → operation.resolved = true ∧ operation.completionConsumed = false)
    (hpen : o ∈ cancels r.commands → operation.cancelCommandPending = true)
    (hdd : o ∈ r.dead → operation.resolved = true ∧ operation.completionConsumed = true ∧
      operation.cancelCommandPending = false)
    (hsn : o ∈ r.seen → operation.completionConsumed = true) :
    Life (r.setOperation o operation) := by
  -- a fact about the operations of a list, for the operation that changes and for the others
  have hlf : ∀ {l : List ℕ} {P : Operation → Prop}, (o ∈ l → P operation) →
      (∀ k ∈ l, k < r.next ∧ P (r.operations k)) →
      ∀ k ∈ l, k < r.next ∧ P (update r.operations o operation k) := by
    intro l P ho hl k hk
    refine ⟨(hl k hk).1, ?_⟩
    by_cases hko : k = o
    · subst hko
      rw [update_self]
      exact ho hk
    · rw [update_of_ne hko]
      exact (hl k hk).2
  exact
    { hL with
      active := hlf (P := fun op => op.resolved = false ∧ op.completionConsumed = false)
        hact hL.active
      completed := hlf (P := fun op => op.resolved = true ∧ op.completionConsumed = false)
        hcom hL.completed
      pending := hlf (P := fun op => op.cancelCommandPending = true) hpen hL.pending
      dead := hlf (P := fun op => op.resolved = true ∧ op.completionConsumed = true ∧
        op.cancelCommandPending = false) hdd hL.dead
      seen := hlf (P := fun op => op.completionConsumed = true) hsn hL.seen }

theorem Life.submit (hL : Life r) {request : Request} (hsb : r.submit request = some r') :
    Life r' := by
  unfold Ring.submit at hsb
  split at hsb
  · cases hsb
  cases hsb
  have hold : ∀ o, o < r.next → update r.operations r.next (.new request) o = r.operations o :=
    fun o ho => update_of_ne (Nat.ne_of_lt ho) _ _
  have hnew : r.next ∉ r.active := fun hmem => lt_irrefl _ (hL.active _ hmem).1
  have hund : ({ r with
      operations := update r.operations r.next (.new request)
      next := r.next + 1
      active := r.next :: r.active
      queue := r.queue ++ [.submit r.next] } : Ring).underway.Perm (r.next :: r.underway) := by
    refine perm_iff_count.mpr fun k => ?_
    simp only [Ring.underway, Ring.commands, submits_append, submits_submit, submits_nil,
      count_append, count_cons, count_nil]
    omega
  constructor
  case active_nodup => exact nodup_cons.mpr ⟨hnew, hL.active_nodup⟩
  case active =>
    intro o ho
    rcases mem_cons.mp ho with rfl | ho
    · simp [Operation.new]
    · obtain ⟨hlt, hfla⟩ := hL.active o ho
      dsimp only
      rw [hold o hlt]
      exact ⟨Nat.lt_succ_of_lt hlt, hfla⟩
  case completed_nodup => exact hL.completed_nodup
  case completed =>
    intro o ho
    obtain ⟨hlt, hfla⟩ := hL.completed o ho
    dsimp only
    rw [hold o hlt]
    exact ⟨Nat.lt_succ_of_lt hlt, hfla⟩
  case underway_nodup =>
    refine hund.nodup_iff.mpr (nodup_cons.mpr ⟨fun hmem => ?_, hL.underway_nodup⟩)
    exact hnew (hL.underway _ hmem)
  case underway =>
    intro o ho
    rcases mem_cons.mp (hund.mem_iff.mp ho) with rfl | ho
    · exact mem_cons_self
    · exact mem_cons_of_mem _ (hL.underway o ho)
  case cancels_nodup =>
    have hnd := hL.cancels_nodup
    simpa [Ring.commands] using hnd
  case pending =>
    intro o ho
    obtain ⟨hlt, hfla⟩ := hL.pending o (by simpa [Ring.commands] using ho)
    dsimp only
    rw [hold o hlt]
    exact ⟨Nat.lt_succ_of_lt hlt, hfla⟩
  case dead_nodup => exact hL.dead_nodup
  case dead =>
    intro o ho
    obtain ⟨hlt, hfla⟩ := hL.dead o ho
    dsimp only
    rw [hold o hlt]
    exact ⟨Nat.lt_succ_of_lt hlt, hfla⟩
  case seen_nodup => exact hL.seen_nodup
  case seen =>
    intro o ho
    obtain ⟨hlt, hfla⟩ := hL.seen o ho
    dsimp only
    rw [hold o hlt]
    exact ⟨Nat.lt_succ_of_lt hlt, hfla⟩

theorem Life.cancel (hL : Life r) (id : ℕ) (calloc : Bool) : Life (r.cancel id calloc) := by
  unfold Ring.cancel
  split
  · exact hL
  split
  · exact hL
  rename_i o hfn
  split
  · exact hL
  rename_i hfir
  have ho : o ∈ r.active := mem_of_find?_eq_some hfn
  obtain ⟨hlt, hres, hcon⟩ := hL.active o ho
  have hset : Life (r.setOperation o { r.operations o with cancelCommandPending := true }) := by
    refine hL.setOperation (fun _ => ⟨hres, hcon⟩) (fun hmem => (hL.completed o hmem).2)
      (fun _ => rfl) (fun hmem => ?_) fun hmem => (hL.seen o hmem).2
    have hdd := (hL.dead o hmem).2.1
    rw [hres] at hdd
    cases hdd
  have hnot : o ∉ cancels r.commands := fun hmem => hfir (hL.pending o hmem).2
  have hcan : (cancels (r.worker.detached ++ (r.queue ++ [.cancel o]))).Perm
      (o :: cancels r.commands) := by
    simp only [Ring.commands, cancels_append, ← append_assoc]
    exact perm_append_singleton o _
  have hsubmits : submits (r.worker.detached ++ (r.queue ++ [.cancel o])) = submits r.commands := by
    simp [Ring.commands]
  exact
    { hset with
      underway_nodup := by
        unfold Ring.underway Ring.commands
        rw [hsubmits]
        exact hL.underway_nodup
      underway := by
        unfold Ring.underway Ring.commands
        rw [hsubmits]
        exact hL.underway
      cancels_nodup := hcan.nodup_iff.mpr (nodup_cons.mpr ⟨hnot, hset.cancels_nodup⟩)
      pending := by
        intro k hk
        rcases mem_cons.mp (hcan.mem_iff.mp hk) with rfl | hk
        · exact ⟨hlt, by simp⟩
        · exact hset.pending k hk }

theorem Life.take (hL : Life r) (hdl : r.owner = .idle) (hlt : o < r.next)
    (hcon : (r.operations o).completionConsumed = true) (hnot : o ∉ r.seen)
    (completion : Completion) : Life { r with owner := .finish o completion } := by
  have hgn : Life { r with owner := .idle } := hL.setOwner (nil_sublist _) (nil_sublist _)
  have hnot' : o ∉ ({ r with owner := .idle } : Ring).seen := by
    unfold Ring.seen at hnot ⊢
    rw [hdl] at hnot
    exact hnot
  exact
    { hgn with
      seen_nodup := nodup_cons.mpr ⟨hnot', hgn.seen_nodup⟩
      seen := forall_mem_cons.mpr ⟨⟨hlt, hcon⟩, hgn.seen⟩ }

theorem Life.bury (hL : Life r) (hlt : o < r.next) (hres : (r.operations o).resolved = true)
    (hcon : (r.operations o).completionConsumed = true)
    (hpen : (r.operations o).cancelCommandPending = false) (hnot : o ∉ r.dead)
    (hope : r'.operations = r.operations) (hnx : r'.next = r.next)
    (hact : r'.active = r.active) (hcom : r'.completed = r.completed)
    (hund : r'.underway = r.underway) (hcm : r'.commands = r.commands)
    (hsn : r'.seen = r.seen) (hdd : r'.dead.Perm (o :: r.dead)) : Life r' := by
  constructor
  case dead_nodup => exact hdd.nodup_iff.mpr (nodup_cons.mpr ⟨hnot, hL.dead_nodup⟩)
  case dead =>
    intro k hk
    rw [hope, hnx]
    rcases mem_cons.mp (hdd.mem_iff.mp hk) with rfl | hk
    · exact ⟨hlt, hres, hcon, hpen⟩
    · exact hL.dead k hk
  case active_nodup => exact hact ▸ hL.active_nodup
  case completed_nodup => exact hcom ▸ hL.completed_nodup
  case underway_nodup => exact hund ▸ hL.underway_nodup
  case cancels_nodup => exact hcm ▸ hL.cancels_nodup
  case seen_nodup => exact hsn ▸ hL.seen_nodup
  case active =>
    rw [hope, hnx, hact]
    exact hL.active
  case completed =>
    rw [hope, hnx, hcom]
    exact hL.completed
  case underway =>
    rw [hund, hact]
    exact hL.underway
  case pending =>
    rw [hope, hnx, hcm]
    exact hL.pending
  case seen =>
    rw [hope, hnx, hsn]
    exact hL.seen

theorem Life.poll (hL : Life r) (hdl : r.owner = .idle) : Life r.poll := by
  unfold Ring.poll
  split
  · exact hL
  rename_i o rest hcom
  have hnd := hL.completed_nodup
  rw [hcom] at hnd
  obtain ⟨hlt, hres, hcon⟩ := hL.completed o (by rw [hcom]; exact mem_cons_self)
  have hrs : Life { r with completed := rest } :=
    { hL with
      completed_nodup := (nodup_cons.mp hnd).2
      completed := fun k hk => hL.completed k (by rw [hcom]; exact mem_cons_of_mem _ hk) }
  have hnS : o ∉ r.seen := by
    intro hmem
    have hsn := (hL.seen o hmem).2
    rw [hcon] at hsn
    cases hsn
  have hnt : o ∉ r.dead := by
    intro hmem
    have hdd := (hL.dead o hmem).2.2.1
    rw [hcon] at hdd
    cases hdd
  have hset : Life ({ r with completed := rest }.setOperation o
      { r.operations o with completionConsumed := true }) := by
    refine hrs.setOperation (fun hmem => ?_) (fun hmem => absurd hmem (nodup_cons.mp hnd).1)
      (fun hmem => (hL.pending o hmem).2) (fun hmem => absurd hmem hnt) fun _ => rfl
    have hact := (hL.active o hmem).2.1
    rw [hres] at hact
    cases hact
  have htk := hset.take (o := o) hdl hlt (by simp [Ring.setOperation]) hnS
    (r.operations o).completion
  dsimp only
  split
  · exact htk
  · rename_i hfr
    unfold Ring.dead at hnt
    rw [hdl] at hnt
    refine htk.bury (o := o) hlt ?_ ?_ ?_ hnt rfl rfl rfl rfl rfl rfl rfl (List.Perm.refl _)
    · simp [Ring.setOperation, hres]
    · simp [Ring.setOperation]
    · simpa [Ring.setOperation] using hfr

theorem Life.deliver (hL : Life r) (hhn : r.owner.inHand = [o]) (completion : Completion) :
    Life (r.deliver o completion) := by
  refine hL.rearrange rfl rfl rfl rfl (List.Subperm.refl _) (List.Subperm.refl _)
    (sublist_append_right _ _).subperm ?_
  unfold Ring.seen
  rw [hhn]
  exact List.Subperm.refl _

theorem Life.freeOwner (hL : Life r) {completion : Completion} (hown : r.owner = .free o completion) :
    Life { r with freed := o :: r.freed, owner := .finish o completion } := by
  refine hL.rearrange rfl rfl rfl rfl (List.Subperm.refl _) (List.Subperm.refl _) ?_ ?_
  · unfold Ring.dead
    rw [hown]
    exact perm_middle.subperm
  · unfold Ring.seen
    rw [hown]
    exact List.Subperm.refl _

theorem Life.freeWorker (hL : Life r) (hwk : r.worker = .free o rest stopping) :
    Life { r with freed := o :: r.freed, worker := .commands rest stopping } := by
  refine hL.rearrange rfl rfl rfl rfl ?_ ?_ ?_ (List.Subperm.refl _)
  · unfold Ring.underway Ring.commands
    rw [hwk]
    exact List.Subperm.refl _
  · unfold Ring.commands
    rw [hwk]
    exact List.Subperm.refl _
  · unfold Ring.dead
    rw [hwk]
    exact List.Subperm.refl _

theorem Life.detach (hL : Life r) (hdl : r.worker = .idle) :
    Life { r with queue := [], worker := .commands r.queue false } := by
  have hcm : ({ r with queue := [], worker := .commands r.queue false } : Ring).commands =
      r.commands := by
    unfold Ring.commands
    rw [hdl]
    exact append_nil _
  refine hL.rearrange rfl rfl rfl rfl ?_ ?_ ?_ (List.Subperm.refl _)
  · unfold Ring.underway
    rw [hcm, hdl]
    exact List.Subperm.refl _
  · rw [hcm]
  · unfold Ring.dead
    rw [hdl]
    exact List.Subperm.refl _

theorem Life.processSubmit (hL : Life r) (hwk : r.worker = .commands (.submit o :: rest) stopping) :
    Life (r.processSubmit o rest stopping sqe) := by
  unfold Ring.processSubmit
  split
  · refine hL.rearrange rfl rfl rfl rfl ?_ ?_ ?_ (List.Subperm.refl _)
    · unfold Ring.underway Ring.commands
      rw [hwk]
      exact perm_middle.subperm
    · unfold Ring.commands
      rw [hwk]
      exact List.Subperm.refl _
    · unfold Ring.dead
      rw [hwk]
      exact List.Subperm.refl _
  · refine hL.setWorker ?_ ?_ ?_
    · rw [hwk]
      exact sublist_cons_self _ _
    · exact nil_sublist _
    · exact nil_sublist _

theorem Life.processCancel (hL : Life r) (hwk : r.worker = .commands (.cancel o :: rest) stopping) :
    Life (r.processCancel o rest stopping sqe) := by
  have hcan : cancels r.commands = o :: cancels (rest ++ r.queue) := by
    unfold Ring.commands
    rw [hwk]
    rfl
  have hls : o ∉ cancels (rest ++ r.queue) := by
    have hnd := hL.cancels_nodup
    rw [hcan] at hnd
    exact (nodup_cons.mp hnd).1
  obtain ⟨hlt, hpen⟩ := hL.pending o (by rw [hcan]; exact mem_cons_self)
  have hnt : o ∉ r.dead := by
    intro hmem
    have hdd := (hL.dead o hmem).2.2.2
    rw [hpen] at hdd
    cases hdd
  unfold Ring.dead at hnt
  rw [hwk] at hnt
  -- the command goes first, then the flag
  have hpop : ∀ status more, Life { r with workerStatus := status, worker := .commands rest more } := by
    intro status more
    refine hL.setWorker ?_ (nil_sublist _) (nil_sublist _)
    rw [hwk]
    exact sublist_cons_self _ _
  have hset : ∀ status more, Life ({ r with workerStatus := status, worker := .commands rest more
      }.setOperation o { r.operations o with cancelCommandPending := false }) := fun status more =>
    (hpop status more).setOperation (fun hmem => (hL.active o hmem).2)
      (fun hmem => (hL.completed o hmem).2) (fun hmem => absurd hmem hls)
      (fun hmem => absurd hmem hnt) fun hmem => (hL.seen o hmem).2
  unfold Ring.processCancel
  dsimp only
  split
  · split
    · exact { hset r.workerStatus stopping with }
    · exact hset .system true
  · rename_i hres
    split
    · rename_i hcon
      refine (hset r.workerStatus stopping).bury (o := o) hlt ?_ ?_ ?_ hnt rfl rfl rfl rfl rfl
        rfl rfl perm_middle
      · simpa [Ring.setOperation] using hres
      · simpa [Ring.setOperation] using hcon
      · simp [Ring.setOperation]
    · exact hset r.workerStatus stopping

theorem Life.complete (hL : Life r) (hdl : r.worker = .idle) (ho : o ∈ r.outstanding)
    (result : ℤ) : Life (r.complete o result) := by
  have hset : Life (r.setOperation o { r.operations o with
      completion := Ring.completionOf (r.operations o).request result }) :=
    hL.setOperation (fun hmem => (hL.active o hmem).2) (fun hmem => (hL.completed o hmem).2)
      (fun hmem => (hL.pending o hmem).2) (fun hmem => (hL.dead o hmem).2) fun hmem =>
        (hL.seen o hmem).2
  have hund : (r.outstanding.erase o ++ [o]).Perm (r.outstanding ++ []) := by
    rw [append_nil]
    exact (perm_append_singleton o _).trans (perm_cons_erase ho).symm
  have hmv : ∀ worker : Worker, worker.detached = [] → worker.completing = [o] →
      worker.freeing = [] → Life { r.setOperation o { r.operations o with
        completion := Ring.completionOf (r.operations o).request result } with
        outstanding := r.outstanding.erase o, worker := worker } := by
    intro worker hdet hcp hfr
    refine hset.rearrange rfl rfl rfl rfl ?_ ?_ ?_ (List.Subperm.refl _)
    · unfold Ring.underway Ring.commands Ring.setOperation
      rw [hdet, hcp, hdl]
      exact (List.Perm.append_left _ hund).subperm
    · unfold Ring.commands Ring.setOperation
      rw [hdet, hdl]
      exact List.Subperm.refl _
    · unfold Ring.dead Ring.setOperation
      rw [hfr, hdl]
      exact List.Subperm.refl _
  unfold Ring.complete
  dsimp only
  split <;> exact hmv _ rfl rfl rfl

theorem Life.publish (hL : Life r) (hwk : r.worker = .publish o) : Life (r.publish o) := by
  have hund : r.underway = submits r.queue ++ (r.outstanding ++ [o]) := by
    unfold Ring.underway Ring.commands
    rw [hwk]
    rfl
  have ho : o ∈ r.active := hL.underway o (by rw [hund]; simp)
  obtain ⟨hlt, hres, hcon⟩ := hL.active o ho
  have hdn : Life { r with worker := .idle } :=
    hL.setWorker (nil_sublist _) (nil_sublist _) (nil_sublist _)
  have hnU : o ∉ ({ r with worker := .idle } : Ring).underway := by
    have hnd := hL.underway_nodup
    rw [hund, ← append_assoc] at hnd
    have hls := (perm_append_singleton o _).nodup_iff.mp hnd
    unfold Ring.underway Ring.commands
    simpa [Worker.detached, Worker.completing] using (nodup_cons.mp hls).1
  have hera : Life { r with worker := .idle, active := r.active.erase o } :=
    { hdn with
      active_nodup := hL.active_nodup.erase o
      active := fun k hk => hL.active k (mem_of_mem_erase hk)
      underway := by
        intro k hk
        refine (mem_erase_of_ne ?_).mpr (hdn.underway k hk)
        rintro rfl
        exact hnU hk }
  have hnC : o ∉ r.completed := by
    intro hmem
    have hcom := (hL.completed o hmem).2.1
    rw [hres] at hcom
    cases hcom
  have hset : Life ({ r with worker := .idle, active := r.active.erase o }.setOperation o
      { r.operations o with resolved := true }) := by
    refine hera.setOperation (fun hmem => absurd hmem ?_) (fun hmem => absurd hmem hnC)
      (fun hmem => (hera.pending o hmem).2) (fun hmem => ?_) fun hmem => (hL.seen o hmem).2
    · exact hL.active_nodup.not_mem_erase
    · exact ⟨rfl, (hera.dead o hmem).2.2⟩
  unfold Ring.publish
  rw [if_neg (by rw [hres]; exact Bool.false_ne_true)]
  exact
    { hset with
      completed_nodup := (perm_append_singleton o _).nodup_iff.mpr
        (nodup_cons.mpr ⟨hnC, hL.completed_nodup⟩)
      completed := by
        intro k hk
        rcases mem_append.mp hk with hk | hk
        · exact hset.completed k hk
        · rw [mem_singleton.mp hk]
          refine ⟨hlt, ?_, ?_⟩
          · simp [Ring.setOperation]
          · simp [Ring.setOperation, hcon] }

theorem Life.halt (hL : Life r) (status : Status) : Life (r.halt status) := by
  have hdn : Life { r with workerStatus := status, worker := .stopped } :=
    hL.setWorker (nil_sublist _) (nil_sublist _) (nil_sublist _)
  refine hdn.rearrange rfl rfl rfl rfl ?_ (List.Subperm.refl _) (List.Subperm.refl _)
    (List.Subperm.refl _)
  exact (List.Sublist.append_left (List.Sublist.append_right (nil_sublist _) _) _).subperm

theorem Life.join (hL : Life r) (hown : r.owner = .join) (hwk : r.worker = .stopped)
    (hout : r.outstanding = []) : Closing { r with queue := [], owner := .destroy } := by
  have hdd : ({ r with queue := [], owner := .destroy } : Ring).dead = r.dead := by
    unfold Ring.dead
    rw [hown]
    rfl
  constructor
  case commands =>
    unfold Ring.commands
    rw [hwk]
    rfl
  case underway =>
    unfold Ring.underway Ring.commands
    rw [hwk, hout]
    rfl
  case nodup =>
    rw [hdd]
    refine nodup_append.mpr ⟨hL.active_nodup, nodup_append.mpr
      ⟨hL.completed_nodup, hL.dead_nodup, ?_⟩, ?_⟩
    · rintro a ha b hb rfl
      have hcom := (hL.completed a ha).2.2
      rw [(hL.dead a hb).2.2.1] at hcom
      cases hcom
    · rintro a ha b hb rfl
      have hact := (hL.active a ha).2.1
      rcases mem_append.mp hb with hb | hb
      · rw [(hL.completed a hb).2.1] at hact
        cases hact
      · rw [(hL.dead a hb).2.1] at hact
        cases hact
  case seen_nodup =>
    have hnd := hL.seen_nodup
    unfold Ring.seen at hnd
    rw [hown] at hnd
    exact hnd

theorem Closing.active (hC : Closing r) {rest : List ℕ} (hact : r.active = o :: rest) :
    Closing { r with active := rest, freed := o :: r.freed } := by
  have hpr : (rest ++ (r.completed ++ ({ r with active := rest, freed := o :: r.freed } : Ring).dead)).Perm
      (r.active ++ (r.completed ++ r.dead)) := by
    refine perm_iff_count.mpr fun k => ?_
    simp only [hact, Ring.dead, count_append, count_cons]
    omega
  exact { hC with nodup := hpr.nodup_iff.mpr hC.nodup }

theorem Closing.completed (hC : Closing r) (hact : r.active = []) (hown : r.owner = .destroy) :
    Closing { r with completed := [], freed := r.completed ++ r.freed, owner := .closed } := by
  have hpr : (r.active ++ ([] ++ ({ r with
      completed := [], freed := r.completed ++ r.freed, owner := .closed } : Ring).dead)).Perm
      (r.active ++ (r.completed ++ r.dead)) := by
    refine perm_iff_count.mpr fun k => ?_
    simp only [hact, hown, Ring.dead, Owner.freeing, count_append, count_nil]
    omega
  exact
    { hC with
      nodup := hpr.nodup_iff.mpr hC.nodup
      seen_nodup := by
        have hnd := hC.seen_nodup
        unfold Ring.seen at hnd
        rw [hown] at hnd
        exact hnd }

end Veloco.Net.Uring
