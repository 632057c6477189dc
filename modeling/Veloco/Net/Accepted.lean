import Veloco.Net.UringRuns

/-!
# Sockets accepted by the ring
-/

namespace Veloco.Net.Uring

open Function List Option State
open Veloco.Net

variable {net net' : Sockets} {r r' : Ring} {s s' t : State} {o k : ℕ} {fd fd' : ℤ}

structure Sockets.Onward (net net' : Sockets) (fd : ℤ) (k : ℕ) : Prop where
  count : net.count ≤ net'.count
  opened : net'.opened fd = some k → net.opened fd = some k
  active : net'.opened fd = some k → (net.reg.slot fd).active = true →
    (net'.reg.slot fd).active = true

namespace Sockets.Onward

theorem trans {net'' : Sockets} (h : net.Onward net' fd k) (h' : net'.Onward net'' fd k) :
    net.Onward net'' fd k :=
  ⟨h.count.trans h'.count, fun hk => h.opened (h'.opened hk),
    fun hk hact => h'.active hk (h.active (h'.opened hk) hact)⟩

theorem setReg {reg : Registry} (hreg : ∀ fd, (reg.slot fd).active = (net.reg.slot fd).active) :
    net.Onward { net with reg := reg } fd k :=
  ⟨le_rfl, fun hk => hk, fun _ hact => (hreg fd).trans hact⟩

theorem refl (net : Sockets) : net.Onward net fd k := ⟨le_rfl, fun hk => hk, fun _ hact => hact⟩

theorem release (request : Request) : net.Onward (net.release request) fd k :=
  setReg fun fd => (socketRelease_tracked request.fd fd net.reg request.generation).1

theorem update {socket : Option ℕ} {count : ℕ} (hcnt : net.count ≤ count) (hne : socket ≠ some k) :
    net.Onward { net with opened := update net.opened fd' socket, count := count } fd k := by
  refine ⟨hcnt, fun hk => ?_, fun _ hact => hact⟩
  dsimp only at hk
  by_cases hfd : fd = fd'
  · rw [hfd, update_self] at hk
    exact absurd hk hne
  · rwa [update_of_ne hfd] at hk

theorem openAt (hk : k < net.count) (hpn : net.openAt fd' = some net') :
    net.Onward net' fd k := by
  unfold Sockets.openAt at hpn
  split_ifs at hpn
  cases hpn
  exact update (Nat.le_succ _) fun heq => hk.ne' (some.inj heq)

theorem discard (hdis : net.discard fd' = some net') : net.Onward net' fd k := by
  unfold Sockets.discard at hdis
  split_ifs at hdis
  cases hdis
  exact update le_rfl (some_ne_none k).symm

theorem track {calloc : Bool} {status : Status} (htra : net.track fd' calloc = some (status, net')) :
    net.Onward net' fd k := by
  have hcas := socketTrack_cases fd' net.reg calloc
  have hact : (net.reg.slot fd).active = true →
      ((socketTrack fd' net.reg calloc).2.slot fd).active = true := by
    intro hact
    rcases hcas with ⟨-, hsm⟩ | ⟨-, -, -, -, hset⟩
    · rw [hsm]
      exact hact
    · rw [hset]
      by_cases hfd : fd = fd'
      · rw [hfd, Registry.slot_set]
      · rw [Registry.slot_set_of_ne _ hfd]
        exact hact
  unfold Sockets.track at htra
  split at htra
  · cases htra
  split at htra
  · rename_i reg heq
    cases htra
    rw [heq] at hact
    exact ⟨le_rfl, fun hk => hk, fun _ => hact⟩
  · rename_i status' reg _ heq
    cases htra
    rw [heq] at hact
    exact ⟨le_rfl, fun hk => hk, fun _ => hact⟩

theorem accept (hk : k < net.count) {calloc : Bool} {result : ℤ}
    (hacc : net.accept fd' calloc = some (result, net')) : net.Onward net' fd k := by
  unfold Sockets.accept at hacc
  split at hacc
  · cases hacc
  rename_i opened hpn
  split at hacc
  · cases hacc
  · rename_i tracked htra
    cases hacc
    exact (openAt hk hpn).trans (track htra)
  · rename_i status failed _ htra
    cases hacc
    exact ((openAt hk hpn).trans (track htra)).trans (update le_rfl (some_ne_none k).symm)

theorem close (fd' : ℤ) (closed : Bool) : net.Onward (net.close fd' closed) fd k := by
  have hcas := socketClose_cases fd' net.reg closed
  unfold Sockets.close
  split
  · rename_i reg heq
    rw [heq] at hcas
    rcases hcas with ⟨hne, -⟩ | ⟨-, -, -, hset⟩
    · exact absurd rfl hne
    dsimp only at hset
    refine ⟨le_rfl, fun hk => ?_, fun hk hact => ?_⟩
    · dsimp only at hk
      by_cases hfd : fd = fd'
      · rw [hfd, update_self] at hk
        cases hk
      · rwa [update_of_ne hfd] at hk
    · dsimp only at hk ⊢
      by_cases hfd : fd = fd'
      · rw [hfd, update_self] at hk
        cases hk
      · rw [hset, Registry.slot_set_of_ne _ hfd]
        exact hact
  · rename_i status reg hnot heq
    rw [heq] at hcas
    rcases hcas with ⟨-, hsm⟩ | ⟨hok, -⟩
    · obtain rfl : reg = net.reg := hsm
      exact refl net
    · exact absurd hok hnot

end Sockets.Onward

theorem socketClose_of_active {reg : Registry} (hfd : 0 ≤ fd) (hact : (reg.slot fd).active = true) :
    (socketClose fd reg true).1 = .ok := by
  unfold socketClose
  rw [if_neg (not_lt.mpr hfd)]
  cases hsl : reg fd with
  | none =>
    unfold Registry.slot at hact
    rw [hsl] at hact
    cases hact
  | some slot =>
    rw [Registry.slot_of_some hsl] at hact
    dsimp only
    rw [hact]
    rfl

theorem Sockets.close_opened (hact : net.opened fd = some k → (net.reg.slot fd).active = true)
    (hfd : 0 ≤ fd) : (net.close fd true).opened fd ≠ some k := by
  intro hope
  unfold Sockets.close at hope
  split at hope
  · dsimp only at hope
    rw [update_self] at hope
    cases hope
  · rename_i status reg hnot heq
    have hok := socketClose_of_active hfd (hact hope)
    rw [heq] at hok
    exact hnot hok

/-! ## The completion -/

def Accepts (fd : ℤ) (completion : Completion) : Prop :=
  completion.request.op = .accept ∧ completion.result = fd

def Owner.carrying : Owner → List (ℕ × Completion)
  | free o completion => [(o, completion)]
  | finish o completion => [(o, completion)]
  | closeAccepted o completion => [(o, completion)]
  | _ => []

def Ring.ready (r : Ring) : List ℕ := r.worker.completing ++ r.completed

inductive Ring.Carries (r : Ring) (o : ℕ) (fd : ℤ) : Prop where
  | ready (isOpen : r.owner ≠ .closed) (place : o ∈ r.ready)
    (accepts : Accepts fd (r.operations o).completion)
  | owner (completion : Completion) (place : (o, completion) ∈ r.owner.carrying)
    (accepts : Accepts fd completion)
  | returned (completion : Completion) (place : (o, completion) ∈ r.returned)
    (result : completion.result = fd)

structure Custody (s : State) (o : ℕ) (fd : ℤ) (k : ℕ) : Prop where
  old : k < s.net.count
  tracked : s.net.opened fd = some k → (s.net.reg.slot fd).active = true
  carried : s.net.opened fd = some k → s.ring.Carries o fd

theorem Custody.onward (hC : Custody s o fd k) (hnet : s.net.Onward s'.net fd k)
    (hrn : s'.net.opened fd = some k → s.ring.Carries o fd → s'.ring.Carries o fd) :
    Custody s' o fd k where
  old := hC.old.trans_le hnet.count
  tracked hope := hnet.active hope (hC.tracked (hnet.opened hope))
  carried hope := hrn hope (hC.carried (hnet.opened hope))

theorem Ring.Carries.mono (hcar : r.Carries o fd) (hown : r'.owner ≠ .closed)
    (hrdy : o ∈ r.ready → o ∈ r'.ready ∧ (r'.operations o).completion = (r.operations o).completion)
    (hcr : ∀ p ∈ r.owner.carrying, p ∈ r'.owner.carrying)
    (hret : r'.returned = r.returned) : r'.Carries o fd := by
  cases hcar with
  | ready _ place accepts =>
    obtain ⟨place', hsm⟩ := hrdy place
    exact .ready hown place' (hsm ▸ accepts)
  | owner completion place accepts => exact .owner completion (hcr _ place) accepts
  | returned completion place result => exact .returned completion (hret ▸ place) result

theorem update_completion {operations : ℕ → Operation} {operation : Operation} {j : ℕ}
    (hsm : operation.completion = (operations j).completion) :
    (update operations j operation o).completion = (operations o).completion := by
  by_cases hj : o = j
  · rw [hj, update_self, hsm]
  · rw [update_of_ne hj]

theorem Ring.Carries.setOwner (hcar : r.Carries o fd) {owner : Owner} {stop : Bool}
    {queue : List Command} (hpn : owner ≠ .closed) (hnil : r.owner.carrying = []) :
    Ring.Carries { r with stopRequested := stop, owner := owner, queue := queue } o fd := by
  refine hcar.mono hpn (fun ho => ⟨ho, rfl⟩) (fun p hp => ?_) rfl
  rw [hnil] at hp
  exact absurd hp not_mem_nil

theorem Ring.Carries.deliver (hcar : r.Carries o fd) {j : ℕ} {completion completion' : Completion}
    (hown : r.owner.carrying = [(j, completion)])
    (hre : Accepts fd completion → j = o → completion'.result = fd) :
    (r.deliver j completion').Carries o fd := by
  cases hcar with
  | ready _ place accepts => exact .ready Owner.noConfusion place accepts
  | owner c place accepts =>
    rw [hown, mem_singleton] at place
    obtain ⟨rfl, rfl⟩ := Prod.mk.inj place
    exact .returned completion' mem_cons_self (hre accepts rfl)
  | returned c place result => exact .returned c (mem_cons_of_mem _ place) result

theorem Ring.Carries.submit (hcar : r.Carries o fd) (hL : Life r) {request : Request}
    (hsub : r.submit request = some r') {owner : Owner} (hpn : owner ≠ .closed)
    (hnil : r.owner.carrying = []) : Ring.Carries { r' with owner := owner } o fd := by
  unfold Ring.submit at hsub
  split_ifs at hsub
  cases hsub
  refine hcar.mono hpn (fun ho => ⟨ho, ?_⟩) (fun p hp => ?_) rfl
  · have hlt : o < r.next := by
      rcases mem_append.mp ho with ho | ho
      · have hund : o ∈ r.underway := mem_append_right _ (mem_append_right _ ho)
        exact (hL.active o (hL.underway o hund)).1
      · exact (hL.completed o ho).1
    dsimp only
    rw [update_of_ne hlt.ne]
  · rw [hnil] at hp
    exact absurd hp not_mem_nil

theorem Ring.Carries.cancel (hcar : r.Carries o fd) (hdl : r.owner = .idle) (id : ℕ)
    (calloc : Bool) : (r.cancel id calloc).Carries o fd := by
  unfold Ring.cancel
  split_ifs
  · exact hcar
  split
  · exact hcar
  split_ifs
  · exact hcar
  · refine hcar.mono ?_ (fun ho => ⟨ho, update_completion rfl⟩) (fun _ hp => hp) rfl
    dsimp only
    rw [hdl]
    exact Owner.noConfusion

theorem Ring.Carries.poll (hcar : r.Carries o fd) (hdl : r.owner = .idle) :
    r.poll.Carries o fd := by
  unfold Ring.poll
  split
  · exact hcar
  rename_i j rest hcompleted
  dsimp only
  generalize hown : (if (r.operations j).cancelCommandPending = true then
    Owner.finish j (r.operations j).completion else .free j (r.operations j).completion) = owner
  have hcr : owner.carrying = [(j, (r.operations j).completion)] := by
    rw [← hown]
    split_ifs <;> rfl
  have hpn : owner ≠ .closed := by
    rintro rfl
    cases hcr
  cases hcar with
  | ready _ place accepts =>
    unfold Ring.ready at place
    rw [hcompleted] at place
    rcases mem_append.mp place with hpla | hpla
    · refine .ready hpn (mem_append_left _ hpla) ?_
      dsimp only
      rw [update_completion (by rfl)]
      exact accepts
    rcases mem_cons.mp hpla with rfl | hpla
    · refine .owner _ ?_ accepts
      rw [hcr]
      exact mem_singleton_self _
    · refine .ready hpn (mem_append_right _ hpla) ?_
      dsimp only
      rw [update_completion (by rfl)]
      exact accepts
  | owner c place accepts =>
    rw [hdl] at place
    exact absurd place not_mem_nil
  | returned c place result => exact .returned c place result

theorem Ring.Carries.setWorker (hcar : r.Carries o fd) (hru : r.owner ≠ .closed)
    (hnil : r.worker.completing = []) (hown : r'.owner = r.owner)
    (hcompleted : r'.completed = r.completed)
    (hcom : (r'.operations o).completion = (r.operations o).completion)
    (hret : r'.returned = r.returned) : r'.Carries o fd := by
  refine hcar.mono (hown ▸ hru) (fun ho => ⟨?_, hcom⟩) (fun _ hp => hown ▸ hp)
    hret
  unfold Ring.ready at ho
  rw [hnil] at ho
  exact mem_append_right _ (hcompleted ▸ ho)

theorem Ring.Carries.processSubmit (hcar : r.Carries o fd) (hpn : r.owner ≠ .closed)
    (hnil : r.worker.completing = []) {j : ℕ} {rest : List Command} {stopping sqe : Bool} :
    (r.processSubmit j rest stopping sqe).Carries o fd := by
  unfold Ring.processSubmit
  split <;> exact hcar.setWorker hpn hnil rfl rfl rfl rfl

theorem Ring.Carries.processCancel (hcar : r.Carries o fd) (hpn : r.owner ≠ .closed)
    (hnil : r.worker.completing = []) {j : ℕ} {rest : List Command} {stopping sqe : Bool} :
    (r.processCancel j rest stopping sqe).Carries o fd := by
  have hcom : ((r.setOperation j { r.operations j with
      cancelCommandPending := false }).operations o).completion = (r.operations o).completion :=
    update_completion (by rfl)
  unfold Ring.processCancel
  dsimp only
  split_ifs <;> exact hcar.setWorker hpn hnil rfl rfl hcom rfl

theorem Ring.Carries.complete (hcar : r.Carries o fd) (hpn : r.owner ≠ .closed) (hL : Life r)
    (hdl : r.worker = .idle) {j : ℕ} (hj : j ∈ r.outstanding) (result : ℤ) :
    (r.complete j result).Carries o fd := by
  have hnil : r.worker.completing = [] := by
    rw [hdl]
    rfl
  unfold Ring.complete
  refine hcar.mono hpn (fun ho => ⟨?_, ?_⟩) (fun _ hp => hp) rfl
  · unfold Ring.ready at ho
    rw [hnil] at ho
    exact mem_append_right _ ho
  · -- the other operation is not resolved
    have hne : o ≠ j := by
      rintro rfl
      unfold Ring.ready at ho
      rw [hnil] at ho
      have hund : o ∈ r.underway := mem_append_right _ (mem_append_left _ hj)
      have hres := (hL.active o (hL.underway o hund)).2.1
      rw [(hL.completed o ho).2.1] at hres
      cases hres
    show (update r.operations j _ o).completion = _
    rw [update_of_ne hne]

theorem Ring.Carries.publish (hcar : r.Carries o fd) (hpn : r.owner ≠ .closed) (hL : Life r)
    {j : ℕ} (hwk : r.worker = .publish j) : (r.publish j).Carries o fd := by
  have hund : j ∈ r.underway := by
    refine mem_append_right _ (mem_append_right _ ?_)
    rw [hwk]
    exact mem_singleton_self j
  have hres := (hL.active j (hL.underway j hund)).2.1
  unfold Ring.publish
  rw [hres]
  refine hcar.mono hpn (fun ho => ⟨?_, update_completion (by rfl)⟩) (fun _ hp => hp) rfl
  unfold Ring.ready at ho ⊢
  rw [hwk] at ho
  rcases mem_append.mp ho with ho | ho
  · exact mem_append_right _ (mem_append_right _ ho)
  · exact mem_append_right _ (mem_append_left _ ho)

theorem Custody.worker (hC : Custody s o fd k) (hI : Inv s.ring) {action : Action}
    (hst : s.worker action = some s') : Custody s' o fd k := by
  have hgn : s.worker action = none ∨ Running s.ring := by
    rcases hI with hR | hE
    · exact .inr hR
    · refine .inl ?_
      unfold State.worker
      rw [hE.stopped]
  rcases hgn with hnn | hR
  · rw [hnn] at hst
    cases hst
  have hL := hR.toLife
  have hpn : s.ring.owner ≠ .closed := by
    intro hclo
    have hisO := hR.isOpen
    rw [hclo] at hisO
    cases hisO
  -- a step on the ring alone
  have hrn : ∀ {ring : Ring}, some { s with ring := ring } = some s' →
      (s.ring.Carries o fd → ring.Carries o fd) → Custody s' o fd k := by
    intro ring hso hcar
    cases hso
    exact hC.onward (.refl s.net) fun _ => hcar
  unfold State.worker at hst
  split at hst
  case h_1 hwk => exact hrn hst fun h => h.setWorker hpn (by rw [hwk]; rfl) rfl rfl rfl rfl
  case h_2 c rest stopping sqe hwk =>
    have hnil : s.ring.worker.completing = [] := by
      rw [hwk]
      rfl
    cases hst
    have hnet : (s.command c rest stopping sqe).net = s.net := by
      unfold command
      cases c with
      | submit j =>
        dsimp only
        split_ifs <;> rfl
      | cancel j => rfl
    refine hC.onward (hnet ▸ .refl s.net) fun _ hcar => ?_
    rw [command_ring]
    cases c with
    | submit j => exact hcar.processSubmit hpn hnil
    | cancel j => exact hcar.processCancel hpn hnil
  case h_3 stopping ok hwk =>
    have hnil : s.ring.worker.completing = [] := by
      rw [hwk]
      rfl
    split_ifs at hst <;> exact hrn hst fun h => h.setWorker hpn hnil rfl rfl rfl rfl
  case h_4 j rest stopping hwk =>
    exact hrn hst fun h => h.setWorker hpn (by rw [hwk]; rfl) rfl rfl rfl rfl
  case h_5 j result calloc hwk =>
    split_ifs at hst with hj
    unfold completion at hst
    split_ifs at hst
    · split at hst
      · cases hst
      · rename_i result' net hacc
        cases hst
        exact hC.onward (.accept hC.old hacc) fun _ h => h.complete hpn hL hwk hj result'
    · exact hrn hst fun h => h.complete hpn hL hwk hj result
  case h_6 j hwk =>
    split_ifs at hst
    exact hrn hst fun h => h.setWorker hpn (by rw [hwk]; rfl) rfl rfl rfl rfl
  case h_7 j hwk =>
    cases hst
    refine hC.onward (.release _) fun _ hcar => ?_
    refine hcar.mono hpn (fun ho => ⟨?_, rfl⟩) (fun _ hp => hp) rfl
    unfold Ring.ready at ho
    rw [hwk] at ho
    exact ho
  case h_8 j hwk => exact hrn hst fun h => h.publish hpn hL hwk
  case h_9 hwk => exact hrn hst fun h => h.setWorker hpn (by rw [hwk]; rfl) rfl rfl rfl rfl
  case h_10 => cases hst

/-! ## The condition -/

structure State.KeepsAccepted (s : State) (label : Label) : Prop where
  closes : label ≠ .owner (.close false)
  polled : label = .owner .nothing → s.ring.owner = .destroy → s.ring.active = [] →
    ∀ o ∈ s.ring.completed, (s.ring.operations o).completion.request.op = .accept →
      (s.ring.operations o).completion.result < 0

instance (s : State) (label : Label) : Decidable (s.KeepsAccepted label) :=
  decidable_of_iff (label ≠ .owner (.close false) ∧ (label = .owner .nothing →
      s.ring.owner = .destroy → s.ring.active = [] → ∀ o ∈ s.ring.completed,
        (s.ring.operations o).completion.request.op = .accept →
          (s.ring.operations o).completion.result < 0))
    ⟨fun h => ⟨h.1, h.2⟩, fun h => ⟨h.closes, h.polled⟩⟩

theorem Sockets.Onward.claim (request : Request) : net.Onward
    { net with reg := (socketClaim request.fd net.reg request.generation).2 } fd k := by
  refine .setReg fun fd' => ?_
  rcases socketClaim_cases request.fd net.reg request.generation with
    ⟨-, hsm⟩ | ⟨-, -, -, -, -, -, hset⟩
  · rw [hsm]
  · rw [hset]
    by_cases hfd : fd' = request.fd
    · rw [hfd, Registry.slot_set]
    · rw [Registry.slot_set_of_ne _ hfd]

theorem Custody.setOwner (hC : Custody s o fd k) {owner : Owner} {stop : Bool} {queue : List Command}
    (hpn : owner ≠ .closed) (hnil : s.ring.owner.carrying = []) : Custody { s with
      ring := { s.ring with stopRequested := stop, owner := owner, queue := queue } } o fd k :=
  hC.onward (.refl s.net) fun _ h => h.setOwner hpn hnil

theorem Custody.submitFailed (hC : Custody s o fd k) (hnil : s.ring.owner.carrying = [])
    (request : Request) : Custody (s.submitFailed request) o fd k := by
  unfold State.submitFailed
  split_ifs <;> exact hC.setOwner Owner.noConfusion hnil

theorem Custody.enqueue (hC : Custody s o fd k) (hL : Life s.ring) {request : Request}
    (hown : s.ring.owner = .enqueue request) (calloc wakeup : Bool) :
    Custody (s.enqueue request calloc wakeup) o fd k := by
  have hnil : s.ring.owner.carrying = [] := by
    rw [hown]
    rfl
  unfold State.enqueue
  by_cases hcalloc : calloc = false
  · rw [if_pos hcalloc]
    exact hC.submitFailed hnil request
  rw [if_neg hcalloc]
  cases hsub : s.ring.submit request with
  | none => exact hC.submitFailed hnil request
  | some ring =>
    dsimp only
    split_ifs
    · exact hC.onward (.refl s.net) fun _ h => h.submit hL hsub Owner.noConfusion hnil
    · unfold State.submitFailed
      split_ifs
      · exact hC.onward (.refl s.net) fun _ h => h.submit hL hsub Owner.noConfusion hnil
      · exact hC.onward (.refl s.net) fun _ h => h.submit hL hsub Owner.noConfusion hnil

theorem Custody.finish (hC : Custody s o fd k) (hfd : 0 ≤ fd) {j : ℕ} {completion : Completion}
    (hown : s.ring.owner = .finish j completion) : Custody (s.finish j completion) o fd k := by
  have hcr : s.ring.owner.carrying = [(j, completion)] := by
    rw [hown]
    rfl
  unfold State.finish
  split_ifs with hstal hacc
  · refine hC.onward (.refl s.net) fun _ h => h.mono Owner.noConfusion (fun ho => ⟨ho, rfl⟩) ?_ rfl
    rw [hcr]
    exact fun _ hp => hp
  · refine hC.onward (.refl s.net) fun _ h => h.deliver hcr fun hcc _ => ?_
    rw [not_and] at hacc
    exact absurd (hcc.2 ▸ hfd) (hacc hcc.1)
  · exact hC.onward (.refl s.net) fun _ h => h.deliver hcr fun hcc _ => hcc.2

theorem Custody.closeAccepted (hC : Custody s o fd k) (hfd : 0 ≤ fd) {j : ℕ}
    {completion completion' : Completion} (hown : s.ring.owner = .closeAccepted j completion) :
    Custody { s with
      net := s.net.close completion.result true
      ring := s.ring.deliver j completion' } o fd k := by
  have hcr : s.ring.owner.carrying = [(j, completion)] := by
    rw [hown]
    rfl
  refine hC.onward (.close _ _) fun hope h => h.deliver hcr fun hcc _ => ?_
  dsimp only at hope
  rw [hcc.2] at hope
  exact absurd hope (Sockets.close_opened hC.tracked hfd)

theorem Custody.destroy (hC : Custody s o fd k) (hfd : 0 ≤ fd) (hown : s.ring.owner = .destroy)
    (hpol : s.ring.active = [] → ∀ o ∈ s.ring.completed,
      (s.ring.operations o).completion.request.op = .accept →
      (s.ring.operations o).completion.result < 0)
    (hcm : s.ring.worker.completing = []) : Custody s.destroy o fd k := by
  unfold State.destroy
  split
  · have hcar : ∀ ring : Ring, ring.owner = s.ring.owner → ring.ready = s.ring.ready →
        ring.operations = s.ring.operations → ring.returned = s.ring.returned →
        s.ring.Carries o fd → ring.Carries o fd := by
      intro ring hsm hrdy hoper hret h
      refine h.mono ?_ (fun ho => ⟨hrdy ▸ ho, by rw [hoper]⟩) (fun _ hp => hsm ▸ hp) hret
      rw [hsm, hown]
      exact Owner.noConfusion
    dsimp only
    split_ifs
    · exact hC.onward (.refl s.net) fun _ => hcar _ rfl rfl rfl rfl
    · exact hC.onward (.release _) fun _ => hcar _ rfl rfl rfl rfl
  · rename_i hact
    refine hC.onward (.refl s.net) fun _ h => ?_
    cases h with
    | ready _ place accepts =>
      -- the accepted socket would be dropped here
      unfold Ring.ready at place
      rw [hcm] at place
      have hneg := hpol hact o place accepts.1
      rw [accepts.2] at hneg
      exact absurd hfd (not_le.mpr hneg)
    | owner c place accepts =>
      rw [hown] at place
      exact absurd place not_mem_nil
    | returned c place result => exact .returned c place result

theorem Custody.owner (hC : Custody s o fd k) (hI : Inv s.ring) (hfd : 0 ≤ fd) {outcome : Outcome}
    (hkee : s.KeepsAccepted (.owner outcome)) (hst : s.owner outcome = some s') :
    Custody s' o fd k := by
  unfold State.owner at hst
  split at hst
  case h_1 request hown =>
    have hnil : s.ring.owner.carrying = [] := by
      rw [hown]
      rfl
    have hnet : s.net.Onward _ fd k := .claim request
    cases hst
    unfold claim
    split
    · rename_i reg heq
      rw [heq] at hnet
      exact hC.onward hnet fun _ h => h.setOwner Owner.noConfusion hnil
    · rename_i status reg _ heq
      rw [heq] at hnet
      exact hC.onward hnet fun _ h => h.setOwner Owner.noConfusion hnil
  case h_2 request calloc wakeup hown =>
    have hL : Life s.ring := by
      rcases hI with hR | hE
      · exact hR.toLife
      · have hclo := hE.isClosed
        rw [hown] at hclo
        cases hclo
    exact some.inj hst ▸ hC.enqueue hL hown calloc wakeup
  case h_3 request hown =>
    cases hst
    refine hC.onward (.release request) fun _ h => h.setOwner Owner.noConfusion ?_
    rw [hown]
    rfl
  case h_4 j completion hown =>
    cases hst
    refine hC.onward (.refl s.net) fun _ h => h.mono Owner.noConfusion (fun ho => ⟨ho, rfl⟩) ?_ rfl
    rw [hown]
    exact fun _ hp => hp
  case h_5 j completion hown => exact some.inj hst ▸ hC.finish hfd hown
  case h_6 j completion closed hown =>
    have hclo : closed = true := by
      cases closed with
      | true => rfl
      | false => exact absurd rfl hkee.closes
    subst hclo
    exact some.inj hst ▸ hC.closeAccepted hfd hown
  case h_7 hown =>
    split_ifs at hst
    cases hst
    refine hC.setOwner Owner.noConfusion ?_
    rw [hown]
    rfl
  case h_8 hown =>
    have hcm : s.ring.worker.completing = [] := by
      rcases hI with hR | hE
      · have hisO := hR.isOpen
        rw [hown] at hisO
        cases hisO
      · rw [hE.stopped]
        rfl
    exact some.inj hst ▸ hC.destroy hfd hown (hkee.polled rfl hown) hcm
  case h_9 => cases hst

theorem Custody.step (hC : Custody s o fd k) (hI : Inv s.ring) (hfd : 0 ≤ fd) {label : Label}
    (hkee : s.KeepsAccepted label) (hst : step s label = some s') : Custody s' o fd k := by
  have hnet : ∀ {net : Sockets}, s.net.Onward net fd k → Custody { s with net := net } o fd k :=
    fun hnet => hC.onward hnet fun _ h => h
  cases label with
  | call c =>
    unfold Uring.step at hst
    dsimp only at hst
    split_ifs at hst with hdl
    cases hst
    have hnil : s.ring.owner.carrying = [] := by
      rw [hdl]
      rfl
    cases c with
    | submit request =>
      show Custody (s.submit request) o fd k
      unfold submit
      dsimp only
      split_ifs
      · exact hC
      · exact hC.setOwner Owner.noConfusion hnil
      · exact hC
      · exact hC.setOwner Owner.noConfusion hnil
      · exact hC.setOwner Owner.noConfusion hnil
    | cancel id calloc => exact hC.onward (.refl s.net) fun _ h => h.cancel hdl id calloc
    | poll => exact hC.onward (.refl s.net) fun _ h => h.poll hdl
    | destroy => exact hC.setOwner Owner.noConfusion hnil
  | owner outcome => exact hC.owner hI hfd hkee hst
  | worker action => exact hC.worker hI hst
  | openAt fd' =>
    obtain ⟨net, hpn, rfl⟩ := map_eq_some_iff.mp hst
    exact hnet (.openAt hC.old hpn)
  | discard fd' =>
    obtain ⟨net, hdis, rfl⟩ := map_eq_some_iff.mp hst
    exact hnet (.discard hdis)
  | track fd' calloc =>
    obtain ⟨p, htra, rfl⟩ := map_eq_some_iff.mp hst
    exact hnet (.track htra)
  | close fd' closed =>
    cases hst
    exact hnet (.close fd' closed)

theorem Sockets.accept_tracked {calloc : Bool} {result : ℤ}
    (hacc : net.accept fd calloc = some (result, net')) : net.count < net'.count ∧
      (net'.opened fd = some net.count → result = fd ∧ (net'.reg.slot fd).active = true) := by
  unfold Sockets.accept at hacc
  split at hacc
  · cases hacc
  rename_i opened hpn
  have hcnt : net.count < opened.count := by
    unfold Sockets.openAt at hpn
    split_ifs at hpn
    cases hpn
    exact Nat.lt_succ_self _
  split at hacc
  · cases hacc
  · rename_i tracked htra
    obtain ⟨rfl, rfl⟩ := Prod.mk.inj (Option.some.inj hacc)
    have honw : opened.Onward tracked fd net.count := .track htra
    refine ⟨hcnt.trans_le honw.count, fun _ => ⟨rfl, ?_⟩⟩
    have hcas := socketTrack_cases fd opened.reg calloc
    unfold Sockets.track at htra
    split at htra
    · cases htra
    split at htra
    · rename_i reg heq
      obtain ⟨-, rfl⟩ := Prod.mk.inj (Option.some.inj htra)
      rw [heq] at hcas
      rcases hcas with ⟨hne, -⟩ | ⟨-, -, -, -, hset⟩
      · exact absurd rfl hne
      · dsimp only at hset ⊢
        rw [hset, Registry.slot_set]
    · rename_i status reg hnot heq
      exact absurd (Prod.mk.inj (Option.some.inj htra)).1 hnot
  · rename_i status failed _ htra
    obtain ⟨-, rfl⟩ := Prod.mk.inj (Option.some.inj hacc)
    have honw : opened.Onward failed fd net.count := .track htra
    refine ⟨hcnt.trans_le honw.count, fun hope => ?_⟩
    dsimp only at hope
    rw [Function.update_self] at hope
    cases hope

theorem Custody.begin (hI : Inv s.ring) {calloc : Bool}
    (hop : (s.ring.operations o).request.op = .accept) (hfd : 0 ≤ fd)
    (hst : Uring.step s (.worker (.completion o fd calloc)) = some s') :
    Custody s' o fd s.net.count := by
  unfold Uring.step at hst
  dsimp only at hst
  unfold State.worker at hst
  split at hst <;> try contradiction
  rename_i j result calloc' hwk heq
  obtain ⟨rfl, rfl, rfl⟩ := Action.completion.inj heq
  split_ifs at hst
  unfold completion at hst
  rw [if_pos ⟨hop, hfd⟩] at hst
  split at hst
  · cases hst
  rename_i result' net hacc
  cases hst
  obtain ⟨hcnt, haccepted⟩ := Sockets.accept_tracked hacc
  have hpn : s.ring.owner ≠ .closed := by
    intro hclo
    rcases hI with hR | hE
    · have hisO := hR.isOpen
      rw [hclo] at hisO
      cases hisO
    · have hsto := hE.stopped
      rw [hwk] at hsto
      cases hsto
  refine ⟨hcnt, fun hope => (haccepted hope).2, fun hope => .ready hpn ?_ ?_⟩
  · unfold Ring.complete
    dsimp only
    rw [hop]
    exact mem_append_left _ (mem_singleton_self o)
  · show Accepts fd (update s.ring.operations o _ o).completion
    rw [update_self]
    exact ⟨hop, (haccepted hope).1⟩

def Ring.Delivered (r : Ring) (o : ℕ) (fd : ℤ) : Prop :=
  (r.returned.map Prod.fst).count o = 1 ∧ ∃ c, (o, c) ∈ r.returned ∧ c.result = fd

/-- **Accepted sockets are delivered or closed** -/
theorem accepted_settled {as bs : List Label} {calloc : Bool}
    (hrun : Trans.run step State.initial as = some s)
    (hop : (s.ring.operations o).request.op = .accept) (hfd : 0 ≤ fd)
    (hrs : Trans.run step s (.worker (.completion o fd calloc) :: bs) = some t)
    (hmee : Trans.Meets step State.KeepsAccepted s (.worker (.completion o fd calloc) :: bs))
    (hclo : t.ring.owner = .closed) :
    t.ring.Delivered o fd ∨ t.net.opened fd ≠ some s.net.count := by
  have hinv : ∀ {u : State} {labels : List Label},
      Trans.run step State.initial labels = some u → Inv u.ring := fun hu =>
    Trans.run_invariant (I := fun s => Inv s.ring) (fun _ _ _ hst hI => hI.step hst) hu inv_initial
  have htrace : Trans.run step State.initial (as ++ .worker (.completion o fd calloc) :: bs) = some t := by
    rw [Trans.run_append, hrun]
    exact hrs
  rw [Trans.run_cons] at hrs
  obtain ⟨u, hu, hrs⟩ := bind_eq_some_iff.mp hrs
  have hbeg := Custody.begin (hinv hrun) hop hfd hu
  have hI : Inv u.ring := (hinv hrun).step hu
  have hend : Custody t o fd s.net.count ∧ Inv t.ring :=
    Trans.run_invariant_of_meets (I := fun s' => Custody s' o fd s.net.count ∧ Inv s'.ring)
      (fun _ _ _ hst hkee h => ⟨h.1.step h.2 hfd hkee hst, h.2.step hst⟩) hrs
      (hmee.2 u hu) ⟨hbeg, hI⟩
  by_cases hope : t.net.opened fd = some s.net.count
  case neg => exact .inr hope
  left
  -- the socket is open and the handle is gone, so it was returned
  cases hend.1.carried hope with
  | ready isOpen _ _ => exact absurd hclo isOpen
  | owner c place _ =>
    rw [hclo] at place
    exact absurd place not_mem_nil
  | returned c place result =>
    have hnod := (lifecycle_of_run htrace).returned
    exact ⟨count_eq_one_of_mem hnod (mem_map_of_mem place), c, place, result⟩

def acceptIssued : List Label :=
  [.openAt 5, .track 5 true, .call (.submit ⟨1, .accept, 5, true, 0, true, 0, 0, 0⟩), .owner .nothing,
    .owner (.enqueue true true), .worker .detach, .worker (.command true), .worker (.processed true)]

def acceptPolled : List Label :=
  [.worker .advance, .worker .advance, .call .poll, .owner .nothing, .owner .nothing, .call .destroy,
    .worker .detach, .worker (.processed true), .owner .nothing, .owner .nothing]

theorem accepted_settled_acceptPolled : ∃ s t,
    Trans.run step State.initial acceptIssued = some s ∧
      Trans.run step s (.worker (.completion 0 6 true) :: acceptPolled) = some t ∧
      t.ring.owner = .closed ∧ t.net.opened 6 = some 1 ∧
      (t.ring.Delivered 0 6 ∨ t.net.opened 6 ≠ some s.net.count) := by
  have hsta : (Trans.run step State.initial acceptIssued).map (fun s =>
      ((s.ring.operations 0).request.op, Trans.checks step (fun s label =>
        decide (s.KeepsAccepted label)) s (.worker (.completion 0 6 true) :: acceptPolled),
        (Trans.run step s (.worker (.completion 0 6 true) :: acceptPolled)).map fun t =>
          (t.ring.owner, t.net.opened 6))) = some (.accept, true, some (.closed, some 1)) := by
    decide +kernel
  obtain ⟨s, hs, heq⟩ := map_eq_some_iff.mp hsta
  simp only [Prod.mk.injEq] at heq
  obtain ⟨hop, hche, hnd⟩ := heq
  obtain ⟨t, ht, heq⟩ := map_eq_some_iff.mp hnd
  obtain ⟨hclo, hope⟩ := Prod.mk.inj heq
  have hmee := Trans.meets_of_checks (C := State.KeepsAccepted)
    (fun s label h => of_decide_eq_true h) hche
  exact ⟨s, t, hs, ht, hclo, hope, accepted_settled hs hop (by decide) ht hmee hclo⟩

def acceptDropped : List Label :=
  [.worker .advance, .worker .advance, .call .destroy, .worker .detach, .worker (.processed true),
    .owner .nothing, .owner .nothing]

/-- **The accepted socket is open and tracked, and was never returned.** -/
theorem dropped_at_destroy : ∃ s t,
    Trans.run step State.initial acceptIssued = some s ∧
      (s.ring.operations 0).request.op = .accept ∧
      Trans.run step s (.worker (.completion 0 6 true) :: acceptDropped) = some t ∧
      t.ring.owner = .closed ∧ t.ring.returned = [] ∧ s.net.count = 1 ∧ t.net.opened 6 = some 1 ∧
      socketIsTracked 6 t.net.reg = true ∧
      ¬ (t.ring.Delivered 0 6 ∨ t.net.opened 6 ≠ some s.net.count) := by
  have hsta : (Trans.run step State.initial acceptIssued).map (fun s =>
      ((s.ring.operations 0).request.op, s.net.count,
        (Trans.run step s (.worker (.completion 0 6 true) :: acceptDropped)).map fun t =>
          (t.ring.owner, t.ring.returned, t.net.opened 6, socketIsTracked 6 t.net.reg))) =
      some (.accept, 1, some (.closed, [], some 1, true)) := by
    rfl
  obtain ⟨s, hs, heq⟩ := map_eq_some_iff.mp hsta
  simp only [Prod.mk.injEq] at heq
  obtain ⟨hop, hcnt, hnd⟩ := heq
  obtain ⟨t, ht, heq⟩ := map_eq_some_iff.mp hnd
  simp only [Prod.mk.injEq] at heq
  obtain ⟨hclo, hret, hope, htr⟩ := heq
  refine ⟨s, t, hs, hop, ht, hclo, hret, hcnt, hope, htr, ?_⟩
  rintro (⟨-, c, hmem, -⟩ | hne)
  · rw [hret] at hmem
    exact absurd hmem not_mem_nil
  · exact hne (hope.trans (congrArg some hcnt.symm))

end Veloco.Net.Uring
