import Veloco.Net.EpollRefusal
import Veloco.Net.UringSockets

/-!
# Submissions that are turned down
-/

namespace Veloco.Net

open List Option

namespace Uring

open Epoll (pending)

variable {s s' t : State} {r r' : Ring} {o : ℕ} {fd : ℤ} {request : Request} {bs : List Label}

def Command.operation : Command → ℕ
  | submit o => o
  | cancel o => o

def Ring.inFlight (r : Ring) : List ℕ :=
  r.active ++ (r.completed ++
    (r.commands.map Command.operation ++ (r.outstanding ++ r.worker.completing)))

def State.queues (s : State) : Label → Option Bool
  | .owner (.enqueue calloc wakeup) =>
    match s.ring.owner with
    | .enqueue request => if calloc && (s.ring.submit request).isSome then some wakeup else none
    | _ => none
  | _ => none

structure Refused (s : State) (request : Request) (bs : List Label) (t : State) : Prop where
  run : Trans.run step s (.call (.submit request) :: bs) = some t
  alone : ∀ c, Label.call c ∉ bs
  returned : t.ring.owner = .idle
  error : Trans.Meets step (fun s label => s.queues label ≠ some true) s
    (.call (.submit request) :: bs)

structure NothingLeft (s : State) (request : Request) (bs : List Label) (t : State) : Prop where
  inFlight : ∀ o ∈ t.ring.inFlight, o ∈ s.ring.inFlight ∧
    (t.ring.operations o).request = (s.ring.operations o).request
  absent : (∀ o ∈ s.ring.inFlight, (s.ring.operations o).request.id ≠ request.id) →
    ∀ o ∈ t.ring.inFlight, (t.ring.operations o).request.id ≠ request.id
  pending : ∀ fd, pending t.net.reg fd = pending s.net.reg fd ∨
    pending t.net.reg fd = 0 ∧ Label.worker .advance ∈ bs

/-! ## What is in flight -/

structure Ring.Within (r r' : Ring) : Prop where
  request : ∀ o, (r'.operations o).request = (r.operations o).request
  inFlight : ∀ o ∈ r'.inFlight, o ∈ r.inFlight

theorem Ring.Within.trans {r'' : Ring} (h : r.Within r') (h' : r'.Within r'') : r.Within r'' :=
  ⟨fun o => (h'.request o).trans (h.request o), fun o ho => h.inFlight o (h'.inFlight o ho)⟩

theorem Ring.Within.setOwner (r : Ring) (owner : Owner) : r.Within { r with owner := owner } :=
  ⟨fun _ => rfl, fun _ ho => ho⟩

theorem Ring.mem_inFlight : o ∈ r.inFlight ↔ o ∈ r.active ∨ o ∈ r.completed ∨
    (∃ c ∈ r.commands, c.operation = o) ∨ o ∈ r.outstanding ∨ o ∈ r.worker.completing := by
  simp only [Ring.inFlight, List.mem_append, List.mem_map]

theorem Ring.Within.of (hreq : ∀ k, (r'.operations k).request = (r.operations k).request)
    (hact : ∀ k ∈ r'.active, k ∈ r.active)
    (hcm : ∀ c ∈ r'.commands, c ∈ r.commands)
    (hcp : ∀ k ∈ r'.completed, k ∈ r.inFlight)
    (hts : ∀ k ∈ r'.outstanding, k ∈ r.inFlight)
    (hcom : ∀ k ∈ r'.worker.completing, k ∈ r.inFlight) : r.Within r' := by
  refine ⟨hreq, fun k hk => ?_⟩
  rcases Ring.mem_inFlight.mp hk with hk | hk | ⟨c, hc, rfl⟩ | hk | hk
  · exact Ring.mem_inFlight.mpr (.inl (hact k hk))
  · exact hcp k hk
  · exact Ring.mem_inFlight.mpr (.inr (.inr (.inl ⟨c, hcm c hc, rfl⟩)))
  · exact hts k hk
  · exact hcom k hk

theorem Ring.inFlight_of_completed (r : Ring) (ho : o ∈ r.completed) : o ∈ r.inFlight :=
  Ring.mem_inFlight.mpr (.inr (.inl ho))

theorem Ring.inFlight_of_outstanding (r : Ring) (ho : o ∈ r.outstanding) : o ∈ r.inFlight :=
  Ring.mem_inFlight.mpr (.inr (.inr (.inr (.inl ho))))

theorem Ring.inFlight_of_completing (r : Ring) (ho : o ∈ r.worker.completing) : o ∈ r.inFlight :=
  Ring.mem_inFlight.mpr (.inr (.inr (.inr (.inr ho))))

theorem Ring.Within.setWorker (r : Ring) {worker : Worker} {status : Status} {queue : List Command}
    {outstanding cancelling freed : List ℕ}
    (hcm : ∀ c ∈ worker.detached ++ queue, c ∈ r.commands)
    (hts : ∀ k ∈ outstanding, k ∈ r.outstanding)
    (hcom : ∀ k ∈ worker.completing, k ∈ r.inFlight) :
    r.Within { r with
      queue := queue, workerStatus := status, worker := worker, outstanding := outstanding,
      cancelling := cancelling, freed := freed } :=
  Ring.Within.of (fun _ => rfl) (fun _ hk => hk) hcm (fun _ hk => r.inFlight_of_completed hk)
    (fun k hk => r.inFlight_of_outstanding (hts k hk)) hcom

theorem Ring.processSubmit_within {rest : List Command} {stopping : Bool}
    (hwk : r.worker = .commands (.submit o :: rest) stopping) (sqe : Bool) :
    r.Within (r.processSubmit o rest stopping sqe) := by
  have hmem : Command.submit o ∈ r.commands := by
    unfold Ring.commands
    rw [hwk]
    exact mem_cons_self
  have hsub : ∀ c ∈ rest ++ r.queue, c ∈ r.commands := by
    intro c hc
    unfold Ring.commands
    rw [hwk]
    exact mem_cons_of_mem _ hc
  unfold Ring.processSubmit
  split
  · refine Ring.Within.of (fun _ => rfl) (fun _ hk => hk) hsub
      (fun _ hk => r.inFlight_of_completed hk) (fun k hk => ?_) fun k hk => absurd hk not_mem_nil
    -- the operation of the command goes to the kernel
    rcases mem_cons.mp hk with rfl | hk
    · exact Ring.mem_inFlight.mpr (.inr (.inr (.inl ⟨_, hmem, rfl⟩)))
    · exact r.inFlight_of_outstanding hk
  · exact Ring.Within.setWorker r hsub (fun _ hk => hk) fun k hk => absurd hk not_mem_nil

theorem Ring.processCancel_within {rest : List Command} {stopping : Bool}
    (hwk : r.worker = .commands (.cancel o :: rest) stopping) (sqe : Bool) :
    r.Within (r.processCancel o rest stopping sqe) := by
  have hsub : ∀ c ∈ rest ++ r.queue, c ∈ r.commands := by
    intro c hc
    unfold Ring.commands
    rw [hwk]
    exact mem_cons_of_mem _ hc
  have hreq : ∀ k, ((r.setOperation o { r.operations o with
      cancelCommandPending := false }).operations k).request = (r.operations k).request :=
    fun k => update_request k (by rfl)
  have hdn : ∀ r' : Ring, r'.operations = (r.setOperation o { r.operations o with
      cancelCommandPending := false }).operations → r'.active = r.active → r'.commands = rest ++ r.queue →
      r'.completed = r.completed → r'.outstanding = r.outstanding → r'.worker.completing = [] →
      r.Within r' := by
    intro r' hoperations hact hcm hcp hts hcom
    refine Ring.Within.of (fun k => ?_) (fun k hk => hact ▸ hk) (fun c hc => hsub c (hcm ▸ hc))
      (fun k hk => r.inFlight_of_completed (hcp ▸ hk))
      (fun k hk => r.inFlight_of_outstanding (hts ▸ hk)) fun k hk => ?_
    · rw [hoperations]
      exact hreq k
    · rw [hcom] at hk
      exact absurd hk not_mem_nil
  unfold Ring.processCancel
  dsimp only
  split_ifs <;> exact hdn _ rfl rfl rfl rfl rfl rfl

theorem Ring.complete_within (hdl : r.worker = .idle) (ho : o ∈ r.outstanding) (result : ℤ) :
    r.Within (r.complete o result) := by
  have hin := r.inFlight_of_outstanding ho
  unfold Ring.complete
  dsimp only
  refine Ring.Within.of (fun k => update_request k (by rfl)) (fun _ hk => hk) ?_
    (fun _ hk => r.inFlight_of_completed hk)
    (fun k hk => r.inFlight_of_outstanding (mem_of_mem_erase hk)) ?_
  · unfold Ring.commands
    rw [hdl]
    dsimp only
    split_ifs <;> exact fun _ hc => hc
  · dsimp only
    split_ifs <;> exact fun k hk => mem_singleton.mp hk ▸ hin

theorem Ring.publish_within (hwk : r.worker = .publish o) : r.Within (r.publish o) := by
  have hin : o ∈ r.inFlight := by
    refine r.inFlight_of_completing ?_
    rw [hwk]
    exact mem_singleton_self o
  have hsub : ∀ c ∈ ([] : List Command) ++ r.queue, c ∈ r.commands := fun c hc =>
    mem_append_right _ hc
  unfold Ring.publish
  split_ifs
  · exact Ring.Within.setWorker r hsub (fun _ hk => hk) fun k hk => absurd hk not_mem_nil
  · refine Ring.Within.of (fun k => update_request k (by rfl)) (fun k hk => mem_of_mem_erase hk)
      hsub (fun k hk => ?_) (fun _ hk => r.inFlight_of_outstanding hk)
      fun k hk => absurd hk not_mem_nil
    rcases mem_append.mp hk with hk | hk
    · exact r.inFlight_of_completed hk
    · exact mem_singleton.mp hk ▸ hin

theorem pending_release (net : Sockets) (request : Request) (fd : ℤ) :
    pending (net.release request).reg fd = pending net.reg fd ∨
      pending (net.release request).reg fd = 0 := by
  unfold Sockets.release pending
  dsimp only
  by_cases hfd : fd = request.fd
  · subst hfd
    by_cases hneg : 0 ≤ request.fd
    · rw [socketRelease_slot hneg]
      dsimp only
      split_ifs
      · exact .inr rfl
      · exact .inl rfl
    · unfold socketRelease
      rw [if_pos (not_le.mp hneg)]
      exact .inl rfl
  · rw [socketRelease_of_ne hfd]
    exact .inl rfl

theorem pending_track {net net' : Sockets} {calloc : Bool} {status : Status}
    (htra : net.track fd calloc = some (status, net')) (fd' : ℤ) :
    pending net'.reg fd' = pending net.reg fd' := by
  have hsm := socketTrack_pending fd fd' net.reg calloc
  unfold Sockets.track at htra
  split at htra
  · cases htra
  split at htra
  · rename_i reg heq
    cases htra
    rw [heq] at hsm
    exact hsm
  · rename_i status' reg _ heq
    cases htra
    rw [heq] at hsm
    exact hsm

theorem pending_openAt {net net' : Sockets} (hpn : net.openAt fd = some net') (fd' : ℤ) :
    pending net'.reg fd' = pending net.reg fd' := by
  unfold Sockets.openAt at hpn
  split_ifs at hpn
  cases hpn
  rfl

theorem pending_accept {net net' : Sockets} {calloc : Bool} {result : ℤ}
    (hacc : net.accept fd calloc = some (result, net')) (fd' : ℤ) :
    pending net'.reg fd' = pending net.reg fd' := by
  unfold Sockets.accept at hacc
  split at hacc
  · cases hacc
  rename_i opened hpn
  split at hacc
  · cases hacc
  · rename_i tracked htra
    cases hacc
    exact (pending_track htra fd').trans (pending_openAt hpn fd')
  · rename_i status failed _ htra
    cases hacc
    exact (pending_track htra fd').trans (pending_openAt hpn fd')

theorem pending_close (net : Sockets) (fd : ℤ) (closed : Bool) (fd' : ℤ) :
    pending (net.close fd closed).reg fd' = pending net.reg fd' := by
  have hsm := socketClose_pending fd fd' net.reg closed
  unfold Sockets.close
  split
  · rename_i reg heq
    rw [heq] at hsm
    exact hsm
  · rename_i status reg _ heq
    rw [heq] at hsm
    exact hsm

theorem State.worker_within {action : Action} (hst : s.worker action = some s') :
    s.ring.Within s'.ring ∧ s'.ring.owner = s.ring.owner ∧
      ∀ fd, pending s'.net.reg fd = pending s.net.reg fd ∨
        pending s'.net.reg fd = 0 ∧ action = .advance := by
  have hqu : ∀ worker : Worker, worker.detached = [] →
      ∀ c ∈ worker.detached ++ s.ring.queue, c ∈ s.ring.commands := by
    intro worker hdetached c hc
    rw [hdetached] at hc
    exact mem_append_right _ hc
  have hnn : ∀ k ∈ ([] : List ℕ), k ∈ s.ring.inFlight := fun k hk => absurd hk not_mem_nil
  have hhl : ∀ status, s.ring.Within (s.ring.halt status) := fun status =>
    Ring.Within.setWorker s.ring (hqu .stopped rfl) (fun k hk => absurd hk not_mem_nil) hnn
  unfold State.worker at hst
  split at hst
  case h_1 hwk =>
    cases hst
    refine ⟨Ring.Within.setWorker s.ring ?_ (fun _ hk => hk) hnn, rfl, fun _ => .inl rfl⟩
    intro c hc
    refine mem_append_right _ ?_
    simpa [Worker.detached] using hc
  case h_2 c rest stopping sqe hwk =>
    cases hst
    have hnet : (s.command c rest stopping sqe).net = s.net := by
      unfold State.command
      cases c with
      | submit o =>
        dsimp only
        split_ifs <;> rfl
      | cancel o => rfl
    rw [State.command_ring, hnet]
    cases c with
    | submit o =>
      exact ⟨Ring.processSubmit_within hwk sqe, (s.ring.processSubmit_frame o rest stopping sqe).1,
        fun _ => .inl rfl⟩
    | cancel o =>
      exact ⟨Ring.processCancel_within hwk sqe, (s.ring.processCancel_frame o rest stopping sqe).1,
        fun _ => .inl rfl⟩
  case h_3 stopping ok hwk =>
    split_ifs at hst
    · cases hst
      exact ⟨hhl _, rfl, fun _ => .inl rfl⟩
    · cases hst
      exact ⟨hhl _, rfl, fun _ => .inl rfl⟩
    · cases hst
      exact ⟨Ring.Within.setWorker s.ring (hqu .idle rfl) (fun _ hk => hk) hnn, rfl,
        fun _ => .inl rfl⟩
  case h_4 o rest stopping hwk =>
    cases hst
    refine ⟨Ring.Within.setWorker s.ring ?_ (fun _ hk => hk) hnn, rfl, fun _ => .inl rfl⟩
    unfold Ring.commands
    rw [hwk]
    exact fun _ hc => hc
  case h_5 o result calloc hwk =>
    split_ifs at hst with ho
    unfold State.completion at hst
    split_ifs at hst
    · split at hst
      · cases hst
      · rename_i result' net hacc
        cases hst
        exact ⟨Ring.complete_within hwk ho result', (s.ring.complete_frame o result').1,
          fun fd => .inl (pending_accept hacc fd)⟩
    · cases hst
      exact ⟨Ring.complete_within hwk ho result, (s.ring.complete_frame o result).1,
        fun _ => .inl rfl⟩
  case h_6 o hwk =>
    split_ifs at hst
    cases hst
    exact ⟨⟨fun _ => rfl, fun _ hk => hk⟩, rfl, fun _ => .inl rfl⟩
  case h_7 o hwk =>
    cases hst
    refine ⟨Ring.Within.setWorker s.ring (hqu (.publish o) rfl) (fun _ hk => hk) fun k hk => ?_, rfl,
      fun fd => ?_⟩
    · refine s.ring.inFlight_of_completing ?_
      rw [hwk]
      exact hk
    · exact (pending_release s.net _ fd).imp_right fun h => ⟨h, rfl⟩
  case h_8 o hwk =>
    cases hst
    exact ⟨Ring.publish_within hwk, (s.ring.publish_frame o).1, fun _ => .inl rfl⟩
  case h_9 hwk =>
    cases hst
    exact ⟨hhl _, rfl, fun _ => .inl rfl⟩
  case h_10 => cases hst

/-! ## The call -/

def Owner.claimed : Owner → List Request
  | enqueue request => if request.op = .timeout then [] else [request]
  | unclaim request => [request]
  | _ => []

def Owner.isSubmit : Owner → Bool
  | idle => true
  | claim _ => true
  | enqueue _ => true
  | unclaim _ => true
  | _ => false

structure Submitting (s : State) : Prop where
  owner : s.ring.owner.isSubmit = true
  op : ∀ q, s.ring.owner = .claim q → q.op ≠ .timeout
  claimed : ∀ q ∈ s.ring.owner.claimed, 0 ≤ q.fd ∧
    (pending s.net.reg q.fd = q.generation ∨ pending s.net.reg q.fd = 0)

def State.claimApart (s : State) (fd : ℤ) : ℕ :=
  if ∃ q ∈ s.ring.owner.claimed, q.fd = fd then 0 else pending s.net.reg fd

structure Kept (s : State) (label : Label) (s' : State) : Prop where
  submitting : Submitting s'
  within : s.ring.Within s'.ring
  claims : ∀ fd, s'.claimApart fd = s.claimApart fd ∨
    s'.claimApart fd = 0 ∧ label = .worker .advance

theorem State.claimApart_of_nil (h : s.ring.owner.claimed = []) (fd : ℤ) :
    s.claimApart fd = pending s.net.reg fd := by
  unfold State.claimApart
  rw [h]
  exact if_neg (by simp)

section Call

variable {label : Label}

theorem Submitting.ofOwner (hS : Submitting s) (hwit : s.ring.Within s'.ring)
    (hown : s'.ring.owner = s.ring.owner)
    (hpen : ∀ fd, pending s'.net.reg fd = pending s.net.reg fd ∨
      pending s'.net.reg fd = 0 ∧ label = .worker .advance) : Kept s label s' := by
  refine ⟨⟨hown ▸ hS.owner, fun q hq => hS.op q (hown ▸ hq), fun q hq => ?_⟩, hwit, fun fd => ?_⟩
  · obtain ⟨hfd, hcl⟩ := hS.claimed q (hown ▸ hq)
    rcases hpen q.fd with hsm | ⟨hzr, -⟩
    · rw [hsm]
      exact ⟨hfd, hcl⟩
    · exact ⟨hfd, .inr hzr⟩
  · unfold State.claimApart
    rw [hown]
    split_ifs
    · exact .inl rfl
    · exact hpen fd

theorem Submitting.claim (hS : Submitting s) (hown : s.ring.owner = .claim request) :
    Kept s label (s.claim request) := by
  have hop := hS.op request hown
  have hbef := State.claimApart_of_nil (s := s) (by rw [hown]; rfl)
  unfold State.claim
  rcases socketClaim_cases request.fd s.net.reg request.generation with
    ⟨hne, hsm⟩ | ⟨hok, hfd, -, -, -, hfr, hset⟩
  · split
    · rename_i reg heq
      rw [heq] at hne
      exact absurd rfl hne
    · rename_i status reg _ heq
      rw [heq] at hsm
      obtain rfl : reg = s.net.reg := hsm
      refine ⟨⟨rfl, fun q hq => Owner.noConfusion hq, fun q hq => absurd hq not_mem_nil⟩,
        Ring.Within.setOwner _ _, fun fd => .inl ?_⟩
      rw [hbef fd]
      exact State.claimApart_of_nil rfl fd
  · split
    · rename_i reg heq
      rw [heq] at hset
      obtain rfl : reg = _ := hset
      have hcla : (Owner.enqueue request).claimed = [request] := if_neg hop
      refine ⟨⟨rfl, fun q hq => Owner.noConfusion hq, fun q hq => ?_⟩, Ring.Within.setOwner _ _,
        fun fd => .inl ?_⟩
      · obtain rfl := mem_singleton.mp (hcla ▸ hq)
        refine ⟨hfd, .inl ?_⟩
        unfold pending
        rw [Registry.slot_set]
      · rw [hbef fd]
        unfold State.claimApart
        show (if ∃ q ∈ (Owner.enqueue request).claimed, q.fd = fd then 0 else _) = _
        rw [hcla]
        -- the descriptor was free, and the claim on it is the call's own
        by_cases heq' : request.fd = fd
        · rw [if_pos ⟨request, mem_singleton_self _, heq'⟩, ← heq']
          exact hfr.symm
        · rw [if_neg (by simpa using heq')]
          unfold pending
          rw [Registry.slot_set_of_ne _ (Ne.symm heq')]
    · rename_i status reg hnot heq
      rw [heq] at hok
      exact absurd hok hnot

theorem Submitting.submitFailed (hS : Submitting s) (hown : s.ring.owner = .enqueue request) :
    Kept s label (s.submitFailed request) := by
  unfold State.submitFailed
  split_ifs with hop
  · have hnil : s.ring.owner.claimed = [] := by
      rw [hown]
      exact if_pos hop
    refine ⟨⟨rfl, fun q hq => Owner.noConfusion hq, fun q hq => absurd hq not_mem_nil⟩,
      Ring.Within.setOwner _ _, fun fd => .inl ?_⟩
    rw [State.claimApart_of_nil hnil]
    exact State.claimApart_of_nil rfl fd
  · have hcla : s.ring.owner.claimed = (Owner.unclaim request).claimed := by
      rw [hown]
      exact if_neg hop
    refine ⟨⟨rfl, fun q hq => Owner.noConfusion hq, fun q hq => hS.claimed q (hcla ▸ hq)⟩,
      Ring.Within.setOwner _ _, fun fd => .inl ?_⟩
    unfold State.claimApart
    rw [hcla]
    rfl

theorem Submitting.unclaim (hS : Submitting s) (hown : s.ring.owner = .unclaim request) :
    Kept s label { s.setOwner .idle with net := s.net.release request } := by
  have hcla : s.ring.owner.claimed = [request] := by
    rw [hown]
    rfl
  obtain ⟨hfd, hcl⟩ := hS.claimed request (by rw [hcla]; exact mem_singleton_self _)
  refine ⟨⟨rfl, fun q hq => Owner.noConfusion hq, fun q hq => absurd hq not_mem_nil⟩,
    Ring.Within.setOwner _ _, fun fd => .inl ?_⟩
  rw [State.claimApart_of_nil rfl]
  unfold State.claimApart
  rw [hcla]
  by_cases heq : request.fd = fd
  · rw [if_pos ⟨request, mem_singleton_self _, heq⟩, ← heq]
    show ((socketRelease request.fd s.net.reg request.generation).slot request.fd).pendingGeneration = 0
    rw [socketRelease_slot hfd]
    dsimp only
    split_ifs with hgen
    · rfl
    · exact hcl.resolve_left hgen
  · rw [if_neg (by simpa using heq)]
    show ((socketRelease request.fd s.net.reg request.generation).slot fd).pendingGeneration = _
    rw [socketRelease_of_ne (Ne.symm heq)]
    rfl

theorem Submitting.begin (hdl : s.ring.owner = .idle) (request : Request) :
    Kept s label (s.submit request) := by
  have hbef := State.claimApart_of_nil (s := s) (by rw [hdl]; rfl)
  have hsy : Kept s label s := by
    refine ⟨⟨by rw [hdl]; rfl, fun q hq => ?_, fun q hq => ?_⟩, ⟨fun _ => rfl, fun _ ho => ho⟩,
      fun _ => .inl rfl⟩
    · rw [hdl] at hq
      cases hq
    · rw [hdl] at hq
      exact absurd hq not_mem_nil
  have hgo : ∀ owner : Owner, owner.isSubmit = true → (∀ q, owner = .claim q → q.op ≠ .timeout) →
      owner.claimed = [] → Kept s label (s.setOwner owner) := by
    intro owner hsb hop hnil
    refine ⟨⟨hsb, hop, fun q hq => ?_⟩, Ring.Within.setOwner _ _, fun fd => .inl ?_⟩
    · exact absurd (hnil ▸ hq : q ∈ []) not_mem_nil
    · rw [hbef fd]
      exact State.claimApart_of_nil hnil fd
  unfold State.submit
  dsimp only
  split_ifs with hval hop hgen hzr
  · exact hsy
  · exact hgo _ rfl (fun q hq => Owner.noConfusion hq) (if_pos hop)
  · exact hsy
  · exact hgo _ rfl (fun q hq => Owner.claim.inj hq ▸ hop) rfl
  · exact hgo _ rfl (fun q hq => Owner.claim.inj hq ▸ hop) rfl

theorem Submitting.step (hS : Submitting s) (hca : ∀ c, label ≠ .call c)
    (hque : s.queues label = none) (hst : step s label = some s') : Kept s label s' := by
  cases label with
  | call c => exact absurd rfl (hca c)
  | worker action =>
    obtain ⟨hwit, hown, hpen⟩ := State.worker_within hst
    refine hS.ofOwner hwit hown fun fd => ?_
    exact (hpen fd).imp_right fun h => ⟨h.1, congrArg Label.worker h.2⟩
  | openAt fd =>
    obtain ⟨net, hpn, rfl⟩ := map_eq_some_iff.mp hst
    exact hS.ofOwner ⟨fun _ => rfl, fun _ ho => ho⟩ rfl fun fd' => .inl (pending_openAt hpn fd')
  | discard fd =>
    obtain ⟨net, hdis, rfl⟩ := map_eq_some_iff.mp hst
    unfold Sockets.discard at hdis
    split_ifs at hdis
    cases hdis
    exact hS.ofOwner ⟨fun _ => rfl, fun _ ho => ho⟩ rfl fun fd' => .inl rfl
  | track fd calloc =>
    obtain ⟨p, htra, rfl⟩ := map_eq_some_iff.mp hst
    exact hS.ofOwner ⟨fun _ => rfl, fun _ ho => ho⟩ rfl fun fd' => .inl (pending_track htra fd')
  | close fd closed =>
    cases hst
    exact hS.ofOwner ⟨fun _ => rfl, fun _ ho => ho⟩ rfl fun fd' =>
      .inl (pending_close s.net fd closed fd')
  | owner outcome =>
    have hsb := hS.owner
    unfold Uring.step at hst
    dsimp only at hst
    unfold State.owner at hst
    split at hst
    case h_1 q hown => exact some.inj hst ▸ hS.claim hown
    case h_2 q calloc wakeup hown =>
      cases hst
      unfold State.queues at hque
      dsimp only at hque
      rw [hown] at hque
      dsimp only at hque
      unfold State.enqueue
      by_cases hcalloc : calloc = false
      · rw [if_pos hcalloc]
        exact hS.submitFailed hown
      rw [if_neg hcalloc]
      rw [Bool.not_eq_false] at hcalloc
      cases hrn : s.ring.submit q with
      | none => exact hS.submitFailed hown
      | some ring =>
        rw [hcalloc, hrn] at hque
        cases hque
    case h_3 q hown => exact some.inj hst ▸ hS.unclaim hown
    case h_9 => cases hst
    -- the owner is in another call
    all_goals
      rename_i hown
      rw [hown] at hsb
      cases hsb

theorem Submitting.run : ∀ {bs : List Label} {s : State}, Submitting s → (∀ c, Label.call c ∉ bs) →
    Trans.Meets Uring.step (fun s label => s.queues label = none) s bs →
    Trans.run Uring.step s bs = some t → s.ring.Within t.ring ∧ ∀ fd, t.claimApart fd = s.claimApart fd ∨
      t.claimApart fd = 0 ∧ Label.worker .advance ∈ bs
  | [], s, _, _, _, hrun => by
    cases hrun
    exact ⟨⟨fun _ => rfl, fun _ ho => ho⟩, fun _ => .inl rfl⟩
  | label :: bs, s, hS, halo, hmee, hrun => by
    rw [Trans.run_cons] at hrun
    obtain ⟨u, hu, hrs⟩ := bind_eq_some_iff.mp hrun
    have hkp : Kept s label u :=
      hS.step (fun c heq => halo c (heq ▸ mem_cons_self)) hmee.1 hu
    obtain ⟨hwit, hclaims⟩ := Submitting.run hkp.submitting
      (fun c hmem => halo c (mem_cons_of_mem _ hmem)) (hmee.2 u hu) hrs
    refine ⟨hkp.within.trans hwit, fun fd => ?_⟩
    rcases hclaims fd with hsm | ⟨hzr, hmem⟩
    · rcases hkp.claims fd with hsame' | ⟨hzr, rfl⟩
      · exact .inl (hsm.trans hsame')
      · exact .inr ⟨hsm.trans hzr, mem_cons_self⟩
    · exact .inr ⟨hzr, mem_cons_of_mem _ hmem⟩

theorem Refused.nothingLeft (hR : Refused s request bs t)
    (hwak : Trans.Meets step (fun s label => s.queues label ≠ some false) s
      (.call (.submit request) :: bs)) : NothingLeft s request bs t := by
  have hrun := hR.run
  rw [Trans.run_cons] at hrun
  obtain ⟨u, hu, hrs⟩ := bind_eq_some_iff.mp hrun
  have hdl : s.ring.owner = .idle := by
    unfold Uring.step at hu
    dsimp only at hu
    split_ifs at hu with hdl
    exact hdl
  have hbeg : Kept s (.call (.submit request)) u := by
    unfold Uring.step at hu
    dsimp only at hu
    rw [if_pos hdl] at hu
    exact some.inj hu ▸ Submitting.begin hdl request
  -- no step of the call queues a command
  have hmee := (hR.error.2 u hu).and (hwak.2 u hu)
  have hkp := Submitting.run hbeg.submitting hR.alone
    (hmee.imp fun v label h => eq_none_iff_forall_ne_some.mpr fun b => by
      cases b with
      | false => exact h.2
      | true => exact h.1) hrs
  have hwit := hbeg.within.trans hkp.1
  refine ⟨fun o ho => ⟨hwit.inFlight o ho, hwit.request o⟩, fun habs o ho => ?_, fun fd => ?_⟩
  · rw [hwit.request o]
    exact habs o (hwit.inFlight o ho)
  · have hs := State.claimApart_of_nil (s := s) (by rw [hdl]; rfl) fd
    have ht := State.claimApart_of_nil (s := t) (by rw [hR.returned]; rfl) fd
    rw [← hs, ← ht]
    have hfir : u.claimApart fd = s.claimApart fd := by
      rcases hbeg.claims fd with hsm | ⟨-, hlab⟩
      · exact hsm
      · cases hlab
    rw [← hfir]
    exact hkp.2 fd

end Call

end Uring

/-- **A refused submission leaves nothing in flight** -/
theorem refused_submission (request : Request) :
    (∀ (as : List Epoll.Label) (s : Epoll.State) (i : ℕ) (bs : List Epoll.Label) (t : Epoll.State),
      Trans.run Epoll.step .initial as = some s →
      Epoll.Refused s i request bs t → Epoll.NothingLeft s i t) ∧
    ∀ (s : Uring.State) (bs : List Uring.Label) (t : Uring.State),
      Uring.Refused s request bs t →
      Trans.Meets Uring.step (fun s label => s.queues label ≠ some false) s
        (.call (.submit request) :: bs) →
      Uring.NothingLeft s request bs t :=
  ⟨fun _ _ _ _ _ hrun hR => hR.nothingLeft (Epoll.inv_of_run hrun),
    fun _ _ _ hR hwak => hR.nothingLeft hwak⟩

def receive : Request := ⟨1, .recv, 5, false, 8, true, 0, 0, 0⟩

def failedAdd : List Epoll.Label :=
  [.advance 0 .nothing, .advance 0 .nothing, .advance 0 (.add true false), .advance 0 .nothing]

def failedRing : List Uring.Label :=
  [.owner .nothing, .owner (.enqueue true true), .owner .nothing]

theorem refused_submission_failed :
    (∃ s t, Trans.run Epoll.step .initial [.track 5 true] = some s ∧
      Epoll.Refused s 0 receive failedAdd t ∧
      Epoll.NothingLeft s 0 t) ∧
    ∃ s t, Trans.run Uring.step .initial [.openAt 5, .track 5 true, .worker .fail] = some s ∧
      Uring.Refused s receive failedRing t ∧
      Uring.NothingLeft s receive failedRing t := by
  constructor
  case left =>
    have hsta : (Trans.run Epoll.step .initial [.track 5 true]).map (fun s =>
        (s.next, (s.handles 0).rejected, (Trans.run Epoll.step s
          (.call 0 (.submit receive) :: failedAdd)).map fun t =>
            (t.handles 0).rejected)) = some (0, [], some [0]) := by decide +kernel
    obtain ⟨s, hs, heq⟩ := map_eq_some_iff.mp hsta
    simp only [Prod.mk.injEq] at heq
    obtain ⟨hnx, hrej, hnd⟩ := heq
    obtain ⟨t, ht, hrejected'⟩ := map_eq_some_iff.mp hnd
    have hR : Epoll.Refused s 0 receive failedAdd t := by
      refine ⟨ht, fun c => by simp [failedAdd], ?_⟩
      rw [hrejected', hnx, hrej]
    exact ⟨s, t, hs, hR, (refused_submission receive).1 _ s 0 _ t hs hR⟩
  case right =>
    have hsta : (Trans.run Uring.step .initial [.openAt 5, .track 5 true, .worker .fail]).map
        (fun s => (Trans.checks Uring.step (fun s label => s.queues label == none) s
          (.call (.submit receive) :: failedRing), (Trans.run Uring.step s
          (.call (.submit receive) :: failedRing)).map fun t =>
            t.ring.owner)) = some (true, some .idle) := by decide +kernel
    obtain ⟨s, hs, heq⟩ := map_eq_some_iff.mp hsta
    simp only [Prod.mk.injEq] at heq
    obtain ⟨hche, hnd⟩ := heq
    obtain ⟨t, ht, hown⟩ := map_eq_some_iff.mp hnd
    have hque := Trans.meets_of_checks (C := fun s label => Uring.State.queues s label = none)
      (fun s label h => eq_of_beq h) hche
    have hR : Uring.Refused s receive failedRing t := by
      refine ⟨ht, fun c => by simp [failedRing], hown, hque.imp fun s label h => ?_⟩
      rw [h]
      exact (some_ne_none true).symm
    refine ⟨s, t, hs, hR, (refused_submission receive).2 s _ t hR (hque.imp fun s label h => ?_)⟩
    rw [h]
    exact (some_ne_none false).symm

def failedWakeup : List Uring.Label :=
  [.owner .nothing, .owner (.enqueue true false), .owner .nothing]

/-- **The call has returned an error and the request is in flight** -/
theorem failed_wakeup_in_flight : ∃ s t,
    Trans.run Uring.step .initial [.openAt 5, .track 5 true] = some s ∧
      Uring.Refused s receive failedWakeup t ∧
      s.ring.inFlight = [] ∧ t.ring.active = [0] ∧ t.ring.queue = [.submit 0] ∧
      (t.ring.operations 0).request.id = 1 ∧ Epoll.pending t.net.reg 5 = 0 ∧
      ¬ Uring.NothingLeft s receive failedWakeup t := by
  have hsta : (Trans.run Uring.step .initial [.openAt 5, .track 5 true]).map (fun s =>
      (Trans.checks Uring.step (fun s label => s.queues label != some true) s
        (.call (.submit receive) :: failedWakeup), s.ring.inFlight,
        (Trans.run Uring.step s
          (.call (.submit receive) :: failedWakeup)).map fun t =>
            (t.ring.owner, t.ring.active, t.ring.queue, (t.ring.operations 0).request.id,
              Epoll.pending t.net.reg 5))) =
      some (true, [], some (.idle, [0], [.submit 0], 1, 0)) := by rfl
  obtain ⟨s, hs, heq⟩ := map_eq_some_iff.mp hsta
  simp only [Prod.mk.injEq] at heq
  obtain ⟨hche, hbef, hnd⟩ := heq
  obtain ⟨t, ht, heq⟩ := map_eq_some_iff.mp hnd
  simp only [Prod.mk.injEq] at heq
  obtain ⟨hown, hact, hqu, hid, hpen⟩ := heq
  have herr := Trans.meets_of_checks (C := fun s label => Uring.State.queues s label ≠ some true)
    (fun s label h => bne_iff_ne.mp h) hche
  refine ⟨s, t, hs, ⟨ht, fun c => by simp [failedWakeup], hown, herr⟩, hbef, hact, hqu, hid,
    hpen, fun hlf => ?_⟩
  have hin : 0 ∈ t.ring.inFlight :=
    Uring.Ring.mem_inFlight.mpr (.inl (hact ▸ mem_singleton_self 0))
  have hout := (hlf.inFlight 0 hin).1
  rw [hbef] at hout
  exact absurd hout not_mem_nil

end Veloco.Net
