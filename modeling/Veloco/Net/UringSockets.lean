import Veloco.Net.UringRuns

/-!
# The sockets of the ring's operations
-/

namespace Veloco.Net.Uring

open Function List State
open Veloco.Net

variable {net net' : Sockets} {r r' : Ring} {s s' : State} {o : ℕ} {fd : ℤ} {request : Request}

/-! ## Sockets and generations -/

structure SocketsOk (net : Sockets) : Prop where
  opened : ∀ fd, (net.reg.slot fd).active = true → 0 ≤ fd ∧
    ∃ k, net.opened fd = some k ∧ ⟨fd, (net.reg.slot fd).generation, k⟩ ∈ net.tracked
  bound : ∀ fd, (net.reg.slot fd).generation ≤ generationMax
  recorded : ∀ t ∈ net.tracked, t.generation ≤ (net.reg.slot t.fd).generation
  unique : ∀ t ∈ net.tracked, ∀ u ∈ net.tracked, t.fd = u.fd → t.generation = u.generation → t = u

def Sockets.Current (net : Sockets) (request : Request) : Prop :=
  (net.reg.slot request.fd).active = true ∧
    (net.reg.slot request.fd).generation = request.generation

structure Sockets.Keeps (net net' : Sockets) (kept : ℤ → Prop) : Prop where
  slot : ∀ fd, kept fd → (net.reg.slot fd).active = true →
    (net'.reg.slot fd).active = true ∧ (net'.reg.slot fd).generation = (net.reg.slot fd).generation
  tracked : ∀ t ∈ net.tracked, t ∈ net'.tracked

theorem Sockets.Keeps.current {kept : ℤ → Prop} (hkee : net.Keeps net' kept)
    (hkp : kept request.fd) (hcur : net.Current request) : net'.Current request := by
  obtain ⟨hact, hgen⟩ := hkee.slot request.fd hkp hcur.1
  exact ⟨hact, hgen.trans hcur.2⟩

theorem SocketsOk.setReg (hok : SocketsOk net) {reg : Registry}
    (hreg : ∀ fd, (reg.slot fd).active = (net.reg.slot fd).active ∧
      (reg.slot fd).generation = (net.reg.slot fd).generation) :
    SocketsOk { net with reg := reg } ∧ net.Keeps { net with reg := reg } fun _ => True := by
  refine ⟨⟨?_, ?_, ?_, hok.unique⟩, ⟨?_, fun _ ht => ht⟩⟩
  · intro fd hact
    dsimp only at hact ⊢
    rw [(hreg fd).1] at hact
    rw [(hreg fd).2]
    exact hok.opened fd hact
  · intro fd
    dsimp only
    rw [(hreg fd).2]
    exact hok.bound fd
  · intro t ht
    dsimp only
    rw [(hreg t.fd).2]
    exact hok.recorded t ht
  · intro fd _ hact
    dsimp only
    rw [(hreg fd).1, (hreg fd).2]
    exact ⟨hact, rfl⟩

theorem SocketsOk.release (hok : SocketsOk net) (request : Request) :
    SocketsOk (net.release request) ∧ net.Keeps (net.release request) fun _ => True :=
  hok.setReg fun fd => socketRelease_tracked request.fd fd net.reg request.generation

theorem SocketsOk.setOpened (hok : SocketsOk net) (socket : Option ℕ) (count : ℕ)
    (hfr : (net.reg.slot fd).active = false) :
    SocketsOk { net with opened := update net.opened fd socket, count := count } ∧
      net.Keeps { net with opened := update net.opened fd socket, count := count }
        fun _ => True := by
  refine ⟨{ hok with opened := ?_ }, ⟨fun _ _ hact => ⟨hact, rfl⟩, fun _ ht => ht⟩⟩
  intro fd' hact
  have hne : fd' ≠ fd := by
    rintro rfl
    rw [hfr] at hact
    cases hact
  dsimp only
  rw [update_of_ne hne]
  exact hok.opened fd' hact

theorem SocketsOk.openAt (hok : SocketsOk net) (hpn : net.openAt fd = some net') :
    SocketsOk net' ∧ (net.Keeps net' fun _ => True) ∧ (net'.reg.slot fd).active = false := by
  unfold Sockets.openAt at hpn
  split at hpn
  · rename_i hgua
    cases hpn
    have hfr : (net.reg.slot fd).active = false := by
      refine Bool.eq_false_of_not_eq_true fun hact => ?_
      obtain ⟨-, k, hk, -⟩ := hok.opened fd hact
      rw [hgua.2] at hk
      cases hk
    obtain ⟨hok', hkee⟩ := hok.setOpened _ _ hfr
    exact ⟨hok', hkee, hfr⟩
  · cases hpn

theorem SocketsOk.discard (hok : SocketsOk net) (hdis : net.discard fd = some net') :
    SocketsOk net' ∧ net.Keeps net' fun _ => True := by
  unfold Sockets.discard at hdis
  split at hdis
  · rename_i htr
    cases hdis
    refine hok.setOpened _ _ (Bool.eq_false_of_not_eq_true fun hact => ?_)
    have hfd := (hok.opened fd hact).1
    unfold socketIsTracked at htr
    rw [if_neg (not_lt.mpr hfd)] at htr
    unfold Registry.slot at hact
    cases hslot : net.reg fd with
    | none =>
      rw [hslot] at hact
      cases hact
    | some slot =>
      rw [hslot] at hact htr
      exact absurd (hact.symm.trans htr) (by decide)
  · cases hdis

theorem Sockets.track_failed {calloc : Bool} {status : Status}
    (htra : net.track fd calloc = some (status, net')) (hne : status ≠ .ok) (fd' : ℤ) :
    net'.reg.slot fd' = net.reg.slot fd' := by
  unfold Sockets.track at htra
  split at htra
  · cases htra
  have hcas := socketTrack_cases fd net.reg calloc
  split at htra
  · exact absurd (Prod.mk.inj (Option.some.inj htra)).1.symm hne
  · rename_i status' reg hnot hreg
    obtain ⟨rfl, rfl⟩ := Prod.mk.inj (Option.some.inj htra)
    rw [hreg] at hcas
    obtain ⟨-, hsm⟩ | ⟨hok, -⟩ := hcas
    · exact hsm fd'
    · exact absurd hok hne

theorem SocketsOk.track (hok : SocketsOk net) {calloc : Bool} {status : Status}
    (htra : net.track fd calloc = some (status, net')) :
    SocketsOk net' ∧ net.Keeps net' fun _ => True := by
  unfold Sockets.track at htra
  split at htra
  · cases htra
  rename_i socket hsoc
  have hcas := socketTrack_cases fd net.reg calloc
  split at htra
  · rename_i reg hreg
    obtain ⟨rfl, rfl⟩ := Prod.mk.inj (Option.some.inj htra)
    rw [hreg] at hcas
    obtain ⟨hne, -⟩ | ⟨-, hfd, hfr, hmax, hset⟩ := hcas
    · exact absurd rfl hne
    dsimp only at hset
    have hlt : (net.reg.slot fd).generation < generationMax := lt_of_le_of_ne (hok.bound fd) hmax
    have hsl : reg.slot fd = { net.reg.slot fd with
        generation := (net.reg.slot fd).generation + 1, active := true } := by
      rw [hset, Registry.slot_set, nextGeneration_of_lt hlt]
    have hoth : ∀ fd', fd' ≠ fd → reg.slot fd' = net.reg.slot fd' := by
      intro fd' hne
      rw [hset, Registry.slot_set_of_ne _ hne]
    rw [socketGeneration_of_nonneg hfd, hsl]
    refine ⟨⟨?_, ?_, ?_, ?_⟩, ⟨?_, fun t ht => mem_cons_of_mem _ ht⟩⟩
    · intro fd' hact
      by_cases hne : fd' = fd
      · subst hne
        dsimp only
        rw [hsl]
        exact ⟨hfd, socket, hsoc, mem_cons_self⟩
      · dsimp only at hact ⊢
        rw [hoth fd' hne] at hact ⊢
        obtain ⟨hfd', k, hk, hmem⟩ := hok.opened fd' hact
        exact ⟨hfd', k, hk, mem_cons_of_mem _ hmem⟩
    · intro fd'
      by_cases hne : fd' = fd
      · subst hne
        dsimp only
        rw [hsl]
        exact hlt
      · dsimp only
        rw [hoth fd' hne]
        exact hok.bound fd'
    · intro t ht
      rcases mem_cons.mp ht with rfl | ht
      · dsimp only
        rw [hsl]
      · have hle := hok.recorded t ht
        by_cases hne : t.fd = fd
        · dsimp only
          rw [hne] at hle ⊢
          rw [hsl]
          exact Nat.le_succ_of_le hle
        · dsimp only
          rw [hoth t.fd hne]
          exact hle
    · -- an entry of before is of a smaller generation
      have hold : ∀ t ∈ net.tracked, t.fd = fd →
          t.generation ≠ (net.reg.slot fd).generation + 1 := by
        rintro t ht rfl heq
        have hle := hok.recorded t ht
        omega
      intro t ht u hu hfds hgens
      rcases mem_cons.mp ht with rfl | ht
      · rcases mem_cons.mp hu with rfl | hu
        · rfl
        · exact absurd hgens.symm (hold u hu hfds.symm)
      · rcases mem_cons.mp hu with rfl | hu
        · exact absurd hgens (hold t ht hfds)
        · exact hok.unique t ht u hu hfds hgens
    · intro fd' _ hact
      have hne : fd' ≠ fd := by
        rintro rfl
        rw [hfr] at hact
        cases hact
      dsimp only
      rw [hoth fd' hne]
      exact ⟨hact, rfl⟩
  · rename_i status' reg hnot hreg
    obtain ⟨rfl, rfl⟩ := Prod.mk.inj (Option.some.inj htra)
    rw [hreg] at hcas
    obtain ⟨-, hsm⟩ | ⟨hok', -⟩ := hcas
    · exact hok.setReg fun fd' => by
        rw [show reg.slot fd' = net.reg.slot fd' from hsm fd']
        exact ⟨rfl, rfl⟩
    · exact absurd hok' hnot

theorem Sockets.Keeps.trans {net'' : Sockets} {kept : ℤ → Prop} (h : net.Keeps net' kept)
    (h' : net'.Keeps net'' kept) : net.Keeps net'' kept := by
  refine ⟨fun fd hkp hact => ?_, fun t ht => h'.tracked t (h.tracked t ht)⟩
  obtain ⟨hactive', hgen⟩ := h.slot fd hkp hact
  obtain ⟨hactive'', hgeneration'⟩ := h'.slot fd hkp hactive'
  exact ⟨hactive'', hgeneration'.trans hgen⟩

theorem SocketsOk.accept (hok : SocketsOk net) {calloc : Bool} {result : ℤ}
    (hacc : net.accept fd calloc = some (result, net')) :
    SocketsOk net' ∧ net.Keeps net' fun _ => True := by
  unfold Sockets.accept at hacc
  split at hacc
  · cases hacc
  rename_i opened hpn
  obtain ⟨hok₁, hkee₁, hfr⟩ := hok.openAt hpn
  split at hacc
  · cases hacc
  · rename_i tracked htra
    obtain ⟨rfl, rfl⟩ := Prod.mk.inj (Option.some.inj hacc)
    obtain ⟨hok₂, hkee₂⟩ := hok₁.track htra
    exact ⟨hok₂, hkee₁.trans hkee₂⟩
  · rename_i status failed hnot htra
    obtain ⟨rfl, rfl⟩ := Prod.mk.inj (Option.some.inj hacc)
    obtain ⟨hok₂, hkee₂⟩ := hok₁.track htra
    rw [← Sockets.track_failed htra hnot fd] at hfr
    obtain ⟨hok₃, hkee₃⟩ := hok₂.setOpened none failed.count hfr
    exact ⟨hok₃, (hkee₁.trans hkee₂).trans hkee₃⟩

theorem SocketsOk.close (hok : SocketsOk net) (fd : ℤ) (closed : Bool) :
    SocketsOk (net.close fd closed) ∧
      net.Keeps (net.close fd closed) fun fd' => closed = true → fd' ≠ fd := by
  have hcas := socketClose_cases fd net.reg closed
  unfold Sockets.close
  split
  · rename_i reg hreg
    rw [hreg] at hcas
    obtain ⟨hne, -⟩ | ⟨-, hcl, -, hset⟩ := hcas
    · exact absurd rfl hne
    dsimp only at hset
    have hoth : ∀ fd', fd' ≠ fd → reg.slot fd' = net.reg.slot fd' := by
      intro fd' hne
      rw [hset, Registry.slot_set_of_ne _ hne]
    have hsl : (reg.slot fd).active = false ∧
        (net.reg.slot fd).generation ≤ (reg.slot fd).generation ∧
        (reg.slot fd).generation ≤ generationMax := by
      have hbou := hok.bound fd
      rw [hset, Registry.slot_set]
      refine ⟨rfl, ?_⟩
      dsimp only
      split
      · rename_i hmax
        rw [nextGeneration_of_lt (lt_of_le_of_ne hbou hmax)]
        omega
      · exact ⟨le_rfl, hbou⟩
    refine ⟨⟨?_, ?_, ?_, hok.unique⟩, ⟨?_, fun _ ht => ht⟩⟩
    · intro fd' hact
      by_cases hne : fd' = fd
      · subst hne
        exact absurd (hact.symm.trans hsl.1) (by decide)
      · dsimp only at hact ⊢
        rw [hoth fd' hne] at hact ⊢
        rw [update_of_ne hne]
        exact hok.opened fd' hact
    · intro fd'
      by_cases hne : fd' = fd
      · subst hne
        exact hsl.2.2
      · dsimp only
        rw [hoth fd' hne]
        exact hok.bound fd'
    · intro t ht
      have hle := hok.recorded t ht
      by_cases hne : t.fd = fd
      · rw [hne] at hle ⊢
        exact hle.trans hsl.2.1
      · dsimp only
        rw [hoth t.fd hne]
        exact hle
    · intro fd' hkp hact
      dsimp only
      rw [hoth fd' (hkp hcl)]
      exact ⟨hact, rfl⟩
  · rename_i status reg hnot hreg
    rw [hreg] at hcas
    obtain ⟨-, hsm⟩ | ⟨hok', -⟩ := hcas
    · dsimp only at hsm
      rw [hsm]
      exact ⟨hok, fun _ _ hact => ⟨hact, rfl⟩, fun _ ht => ht⟩
    · exact absurd hok' hnot

/-! ## Requests that wait -/

def Owner.submitting : Owner → List Request
  | enqueue request => [request]
  | _ => []

def Ring.waiting (r : Ring) : List Request :=
  r.owner.submitting ++ (submits r.commands).map fun o => (r.operations o).request

theorem Ring.mem_waiting : request ∈ r.waiting ↔ request ∈ r.owner.submitting ∨
    ∃ o ∈ submits r.commands, (r.operations o).request = request := by
  simp [Ring.waiting]

def Ring.WaitsWithin (r r' : Ring) : Prop :=
  ∀ request ∈ r'.waiting, request.op ≠ .timeout → request ∈ r.waiting

theorem Ring.waitsWithin_of (hwn : ∀ q ∈ r'.owner.submitting, q.op ≠ .timeout →
      q ∈ r.owner.submitting) (hcom : ∀ o ∈ submits r'.commands, o ∈ submits r.commands)
    (hreq : ∀ o ∈ submits r.commands, (r'.operations o).request = (r.operations o).request) :
    r.WaitsWithin r' := by
  intro request hmem hop
  rcases Ring.mem_waiting.mp hmem with hmem | ⟨o, ho, rfl⟩
  · exact Ring.mem_waiting.mpr (.inl (hwn request hmem hop))
  · have ho' := hcom o ho
    exact Ring.mem_waiting.mpr (.inr ⟨o, ho', (hreq o ho').symm⟩)

theorem update_request {operations : ℕ → Operation} {operation : Operation} (k : ℕ)
    (hsm : operation.request = (operations o).request) :
    (update operations o operation k).request = (operations k).request := by
  by_cases hk : k = o
  · rw [hk, update_self, hsm]
  · rw [update_of_ne hk]

theorem Ring.cancel_waits (r : Ring) (id : ℕ) (calloc : Bool) :
    r.WaitsWithin (r.cancel id calloc) := by
  have hsm : r.WaitsWithin r := fun _ hmem _ => hmem
  unfold Ring.cancel
  split
  · exact hsm
  split
  · exact hsm
  split
  · exact hsm
  · refine Ring.waitsWithin_of (fun _ hq _ => hq) (fun k hk => ?_) fun k _ => ?_
    · simpa [Ring.commands] using hk
    · exact update_request k (by rfl)

theorem Ring.poll_waits (r : Ring) : r.WaitsWithin r.poll := by
  unfold Ring.poll
  split
  · exact fun _ hmem _ => hmem
  · refine Ring.waitsWithin_of ?_ (fun _ ho => ho) fun k _ => update_request k (by rfl)
    dsimp only
    split <;> exact fun _ hq => absurd hq not_mem_nil

theorem Ring.processSubmit_waits {rest : List Command} {stopping : Bool}
    (hwk : r.worker = .commands (.submit o :: rest) stopping) (sqe : Bool) :
    r.WaitsWithin (r.processSubmit o rest stopping sqe) := by
  have hsub : ∀ k ∈ submits (rest ++ r.queue), k ∈ submits r.commands := by
    intro k hk
    unfold Ring.commands
    rw [hwk]
    exact mem_cons_of_mem _ hk
  unfold Ring.processSubmit
  split <;> exact Ring.waitsWithin_of (fun _ hq _ => hq) hsub fun _ _ => rfl

theorem Ring.processCancel_waits {rest : List Command} {stopping : Bool}
    (hwk : r.worker = .commands (.cancel o :: rest) stopping) (sqe : Bool) :
    r.WaitsWithin (r.processCancel o rest stopping sqe) := by
  have hsub : ∀ k ∈ submits (rest ++ r.queue), k ∈ submits r.commands := by
    intro k hk
    unfold Ring.commands
    rw [hwk]
    exact hk
  have hreq : ∀ k ∈ submits r.commands, ((r.setOperation o { r.operations o with
      cancelCommandPending := false }).operations k).request = (r.operations k).request :=
    fun k _ => update_request k (by rfl)
  unfold Ring.processCancel
  dsimp only
  split
  · split <;> exact Ring.waitsWithin_of (fun _ hq _ => hq) hsub hreq
  · split <;> exact Ring.waitsWithin_of (fun _ hq _ => hq) hsub hreq

theorem Ring.complete_waits (hdl : r.worker = .idle) (result : ℤ) :
    r.WaitsWithin (r.complete o result) := by
  unfold Ring.complete
  refine Ring.waitsWithin_of (fun _ hq _ => hq) ?_ fun k _ => update_request k (by rfl)
  unfold Ring.commands
  rw [hdl]
  dsimp only
  split <;> exact fun _ hk => hk

theorem Ring.publish_waits (hwk : r.worker = .publish o) : r.WaitsWithin (r.publish o) := by
  have hsub : ∀ k ∈ submits ([] ++ r.queue), k ∈ submits r.commands := by
    unfold Ring.commands
    rw [hwk]
    exact fun _ hk => hk
  unfold Ring.publish
  split
  · exact Ring.waitsWithin_of (fun _ hq _ => hq) hsub fun _ _ => rfl
  · exact Ring.waitsWithin_of (fun _ hq _ => hq) hsub fun k _ => update_request k (by rfl)

theorem Ring.setOwner_waits (r : Ring) {owner : Owner} {stop : Bool} {returned : List (ℕ × Completion)}
    {freed : List ℕ} (hsb : owner.submitting = []) :
    r.WaitsWithin { r with
      stopRequested := stop, owner := owner, returned := returned, freed := freed } := by
  refine Ring.waitsWithin_of ?_ (fun _ ho => ho) fun _ _ => rfl
  dsimp only
  rw [hsb]
  exact fun _ hq => absurd hq not_mem_nil

theorem Ring.submit_waits (hsubmit : r.submit request = some r') {owner : Owner}
    (hwn : request ∈ r.owner.submitting) (hsb : owner.submitting = []) :
    r.WaitsWithin { r' with owner := owner } := by
  unfold Ring.submit at hsubmit
  split at hsubmit
  · cases hsubmit
  cases hsubmit
  intro q hq _
  rcases Ring.mem_waiting.mp hq with hq | ⟨o, ho, rfl⟩
  · dsimp only at hq
    rw [hsb] at hq
    exact absurd hq not_mem_nil
  · dsimp only
    by_cases hnew : o = r.next
    · rw [hnew, update_self]
      exact Ring.mem_waiting.mpr (.inl hwn)
    · rw [update_of_ne hnew]
      refine Ring.mem_waiting.mpr (.inr ⟨o, ?_, rfl⟩)
      simpa [Ring.commands, hnew, or_assoc] using ho

/-! ## Runs -/

def State.OnOwnSocket (s : State) : Prop :=
  ∀ e ∈ s.issued, ∃ k, e.socket = some k ∧ ⟨e.request.fd, e.request.generation, k⟩ ∈ s.net.tracked

def State.closes (s : State) : Label → Option ℤ
  | .close fd true => some fd
  | .owner (.close true) =>
    match s.ring.owner with
    | .closeAccepted _ completion => some completion.result
    | _ => none
  | _ => none

def State.ClosesIdle (s : State) (label : Label) : Prop :=
  ∀ fd, s.closes label = some fd → ∀ request ∈ s.ring.waiting, request.op ≠ .timeout →
    request.fd ≠ fd

structure SocketInv (s : State) : Prop where
  ring : Inv s.ring
  net : SocketsOk s.net
  waiting : ∀ request ∈ s.ring.waiting, request.op ≠ .timeout → s.net.Current request
  issued : s.OnOwnSocket

structure Quiet (s s' : State) (kept : ℤ → Prop) : Prop where
  net : SocketsOk s.net → SocketsOk s'.net ∧ s.net.Keeps s'.net kept
  waits : s.ring.WaitsWithin s'.ring
  issued : s'.issued = s.issued

theorem SocketInv.quiet (hS : SocketInv s) (hrn : Inv s'.ring) {kept : ℤ → Prop}
    (hqui : Quiet s s' kept)
    (hkp : ∀ request ∈ s.ring.waiting, request.op ≠ .timeout → kept request.fd) :
    SocketInv s' := by
  obtain ⟨hnet, hkee⟩ := hqui.net hS.net
  refine ⟨hrn, hnet, fun request hmem hop => ?_, fun e he => ?_⟩
  · have hmem' := hqui.waits request hmem hop
    exact hkee.current (hkp request hmem' hop) (hS.waiting request hmem' hop)
  · rw [hqui.issued] at he
    obtain ⟨k, hk, hmem⟩ := hS.issued e he
    exact ⟨k, hk, hkee.tracked _ hmem⟩

theorem Quiet.ring {ring : Ring} (hwai : s.ring.WaitsWithin ring) :
    Quiet s { s with ring := ring } fun _ => True :=
  ⟨fun hok => ⟨hok, fun _ _ hact => ⟨hact, rfl⟩, fun _ ht => ht⟩, hwai, rfl⟩

theorem Quiet.setOwner {owner : Owner} (hsb : owner.submitting = []) :
    Quiet s (s.setOwner owner) fun _ => True :=
  Quiet.ring (s.ring.setOwner_waits hsb)

theorem State.call_quiet (c : Call) : Quiet s (s.call c) fun _ => True := by
  have hsm : Quiet s s fun _ => True := .ring fun _ hmem _ => hmem
  cases c with
  | submit request =>
    change Quiet s (s.submit request) _
    unfold submit
    dsimp only
    split
    · exact hsm
    split
    · -- a timeout has no descriptor
      rename_i htim
      refine .ring (Ring.waitsWithin_of (fun q hq hop => ?_) (fun _ ho => ho) fun _ _ => rfl)
      rw [mem_singleton.mp hq] at hop
      exact absurd htim hop
    split
    · exact hsm
    split <;> exact .setOwner rfl
  | cancel id calloc => exact .ring (s.ring.cancel_waits id calloc)
  | poll => exact .ring s.ring.poll_waits
  | destroy => exact .ring (s.ring.setOwner_waits rfl)

theorem State.enqueue_quiet (hwn : s.ring.owner = .enqueue request) (calloc wakeup : Bool) :
    Quiet s (s.enqueue request calloc wakeup) fun _ => True := by
  have hmem : request ∈ s.ring.owner.submitting := by
    rw [hwn]
    exact mem_singleton_self request
  unfold enqueue submitFailed
  split
  · split <;> exact .setOwner rfl
  split
  · split <;> exact .setOwner rfl
  rename_i ring hsubmit
  split
  · exact .ring (Ring.submit_waits hsubmit hmem rfl)
  split <;> exact .ring (Ring.submit_waits hsubmit hmem rfl)

theorem State.finish_quiet (o : ℕ) (completion : Completion) :
    Quiet s (s.finish o completion) fun _ => True := by
  unfold finish
  split
  · split
    · exact .setOwner rfl
    · exact .ring (s.ring.setOwner_waits rfl)
  · exact .ring (s.ring.setOwner_waits rfl)

theorem State.destroy_quiet : Quiet s s.destroy fun _ => True := by
  unfold destroy
  split
  · rename_i o rest hact
    refine ⟨fun hok => ?_, fun _ hmem _ => hmem, rfl⟩
    dsimp only
    split
    · exact ⟨hok, fun _ _ hact => ⟨hact, rfl⟩, fun _ ht => ht⟩
    · exact hok.release _
  · exact .ring (Ring.waitsWithin_of (fun _ hq => absurd hq not_mem_nil) (fun _ ho => ho)
      fun _ _ => rfl)

theorem SocketInv.claim (hS : SocketInv s) (hrn : Inv (s.claim request).ring) :
    SocketInv (s.claim request) := by
  have hcas := socketClaim_cases request.fd s.net.reg request.generation
  unfold State.claim at hrn ⊢
  cases hc : socketClaim request.fd s.net.reg request.generation with
  | mk status reg =>
    rw [hc] at hcas hrn
    dsimp only at hcas
    rcases hcas with ⟨hne, rfl⟩ | ⟨rfl, -, -, hact, hgen, -, rfl⟩
    · cases status with
      | ok => exact absurd rfl hne
      | _ => exact hS.quiet hrn (Quiet.setOwner rfl) fun _ _ _ => trivial
    · have hreg : ∀ fd, ((s.net.reg.set request.fd { s.net.reg.slot request.fd with
          pendingGeneration := request.generation }).slot fd).active = (s.net.reg.slot fd).active ∧
          ((s.net.reg.set request.fd { s.net.reg.slot request.fd with
            pendingGeneration := request.generation }).slot fd).generation =
            (s.net.reg.slot fd).generation := by
        intro fd
        by_cases hfd : fd = request.fd
        · rw [hfd, Registry.slot_set]
          exact ⟨rfl, rfl⟩
        · rw [Registry.slot_set_of_ne _ hfd]
          exact ⟨rfl, rfl⟩
      obtain ⟨hnet, hkee⟩ := hS.net.setReg hreg
      refine ⟨hrn, hnet, fun q hq hop => ?_, hS.issued⟩
      rcases Ring.mem_waiting.mp hq with hq | hq
      · rw [mem_singleton.mp hq]
        exact hkee.current trivial ⟨hact, hgen⟩
      · exact hkee.current trivial (hS.waiting q (Ring.mem_waiting.mpr (.inr hq)) hop)

theorem SocketInv.command (hS : SocketInv s) {c : Command} {rest : List Command} {stopping sqe : Bool}
    (hwk : s.ring.worker = .commands (c :: rest) stopping)
    (hrn : Inv (s.command c rest stopping sqe).ring) : SocketInv (s.command c rest stopping sqe) := by
  cases c with
  | cancel o =>
    exact hS.quiet hrn (Quiet.ring (Ring.processCancel_waits hwk sqe)) fun _ _ _ => trivial
  | submit o =>
    have hqui : Quiet s { s with ring := s.ring.processSubmit o rest stopping sqe } fun _ => True :=
      Quiet.ring (Ring.processSubmit_waits hwk sqe)
    have hcm := s.command_ring (.submit o) rest stopping sqe
    dsimp only at hcm
    rw [hcm] at hrn
    have hS' := hS.quiet hrn hqui fun _ _ _ => trivial
    unfold State.command
    dsimp only
    split
    · rename_i hissue
      refine ⟨hS'.ring, hS'.net, hS'.waiting, fun e he => ?_⟩
      rcases mem_cons.mp he with rfl | he
      · have hmem : (s.ring.operations o).request ∈ s.ring.waiting := by
          refine Ring.mem_waiting.mpr (.inr ⟨o, ?_, rfl⟩)
          unfold Ring.commands
          rw [hwk]
          exact mem_cons_self
        obtain ⟨hact, hgen⟩ := hS.waiting _ hmem hissue.2
        obtain ⟨-, k, hk, htr⟩ := hS.net.opened _ hact
        rw [hgen] at htr
        exact ⟨k, hk, htr⟩
      · exact hS'.issued e he
    · exact hS'

theorem SocketInv.owner (hS : SocketInv s) {outcome : Outcome}
    (hst : s.owner outcome = some s') (hclo : s.ClosesIdle (.owner outcome)) : SocketInv s' := by
  have hrn := hS.ring.owner hst
  have hqui : Quiet s s' (fun _ => True) → SocketInv s' := fun h =>
    hS.quiet hrn h fun _ _ _ => trivial
  unfold State.owner at hst
  split at hst
  case h_1 request hwn =>
    cases hst
    exact hS.claim hrn
  case h_2 request calloc wakeup hwn =>
    cases hst
    exact hqui (State.enqueue_quiet hwn calloc wakeup)
  case h_3 request hwn =>
    cases hst
    exact hqui ⟨fun hok => hok.release request, s.ring.setOwner_waits rfl, rfl⟩
  case h_4 o completion hwn =>
    cases hst
    exact hqui (Quiet.ring (s.ring.setOwner_waits rfl))
  case h_5 o completion hwn =>
    cases hst
    exact hqui (State.finish_quiet o completion)
  case h_6 o completion closed hwn =>
    cases hst
    refine hS.quiet hrn ⟨fun hok => hok.close completion.result closed,
      s.ring.setOwner_waits rfl, rfl⟩ fun request hmem hop hcl => ?_
    refine hclo completion.result ?_ request hmem hop
    rw [hcl, closes, hwn]
  case h_7 hwn =>
    split at hst
    · cases hst
      refine hqui (Quiet.ring (Ring.waitsWithin_of (fun _ hq => absurd hq not_mem_nil) ?_
        fun _ _ => rfl))
      intro k hk
      unfold Ring.commands at hk ⊢
      rw [submits_append] at hk ⊢
      exact mem_append_left _ (by simpa using hk)
    · cases hst
  case h_8 hwn =>
    cases hst
    exact hqui State.destroy_quiet
  case h_9 => cases hst

theorem SocketInv.worker (hS : SocketInv s) {action : Action}
    (hst : s.worker action = some s') : SocketInv s' := by
  have hrn := hS.ring.worker hst
  have hqui : Quiet s s' (fun _ => True) → SocketInv s' := fun h =>
    hS.quiet hrn h fun _ _ _ => trivial
  -- the worker goes on with fewer commands
  have hgo : ∀ (ring : Ring), ring.owner = s.ring.owner → ring.operations = s.ring.operations →
      (∀ k ∈ submits ring.commands, k ∈ submits s.ring.commands) → s.ring.WaitsWithin ring := by
    intro ring hwn hope hcom
    refine Ring.waitsWithin_of (fun q hq _ => hwn ▸ hq) hcom fun k _ => ?_
    rw [hope]
  unfold State.worker at hst
  split at hst
  case h_1 hwk =>
    cases hst
    refine hqui (Quiet.ring (hgo _ rfl rfl ?_))
    unfold Ring.commands
    rw [hwk]
    intro k hk
    simpa [Worker.detached] using hk
  case h_2 c rest stopping sqe hwk =>
    cases hst
    exact hS.command hwk hrn
  case h_3 stopping ok hwk =>
    have hcom : ∀ worker : Worker, worker.detached = [] →
        ∀ k ∈ submits (worker.detached ++ s.ring.queue), k ∈ submits s.ring.commands := by
      intro worker hdet k hk
      unfold Ring.commands
      rw [hwk]
      rw [hdet] at hk
      exact hk
    split at hst
    · cases hst
      exact hqui (Quiet.ring (hgo _ rfl rfl (hcom .stopped rfl)))
    split at hst
    · cases hst
      exact hqui (Quiet.ring (hgo _ rfl rfl (hcom .stopped rfl)))
    · cases hst
      exact hqui (Quiet.ring (hgo _ rfl rfl (hcom .idle rfl)))
  case h_4 o rest stopping hwk =>
    cases hst
    refine hqui (Quiet.ring (hgo _ rfl rfl ?_))
    unfold Ring.commands
    rw [hwk]
    exact fun _ hk => hk
  case h_5 o result calloc hwk =>
    split at hst
    · unfold completion at hst
      split at hst
      · split at hst
        · cases hst
        · rename_i result' net hacc
          cases hst
          exact hqui ⟨fun hok => hok.accept hacc, Ring.complete_waits hwk result', rfl⟩
      · cases hst
        exact hqui (Quiet.ring (Ring.complete_waits hwk result))
    · cases hst
  case h_6 o hwk =>
    split at hst
    · cases hst
      exact hqui (Quiet.ring (hgo _ rfl rfl fun _ hk => hk))
    · cases hst
  case h_7 o hwk =>
    cases hst
    refine hqui ⟨fun hok => hok.release _, hgo _ rfl rfl ?_, rfl⟩
    unfold Ring.commands
    rw [hwk]
    exact fun _ hk => hk
  case h_8 o hwk =>
    cases hst
    exact hqui (Quiet.ring (Ring.publish_waits hwk))
  case h_9 hwk =>
    cases hst
    refine hqui (Quiet.ring (hgo _ rfl rfl ?_))
    unfold Ring.commands
    rw [hwk]
    exact fun _ hk => hk
  case h_10 => cases hst

theorem SocketInv.step (hS : SocketInv s) {label : Label} (hclo : s.ClosesIdle label)
    (hst : step s label = some s') : SocketInv s' := by
  have hrn := hS.ring.step hst
  cases label with
  | call c =>
    unfold Uring.step at hst
    dsimp only at hst
    split at hst
    · cases hst
      exact hS.quiet hrn (State.call_quiet c) fun _ _ _ => trivial
    · cases hst
  | owner outcome => exact hS.owner hst hclo
  | worker action => exact hS.worker hst
  | openAt fd =>
    obtain ⟨net, hpn, rfl⟩ := Option.map_eq_some_iff.mp hst
    have hqui : Quiet s { s with net := net } fun _ => True := by
      refine ⟨fun hok => ?_, fun _ hmem _ => hmem, rfl⟩
      obtain ⟨hok', hkee, -⟩ := hok.openAt hpn
      exact ⟨hok', hkee⟩
    exact hS.quiet hrn hqui fun _ _ _ => trivial
  | discard fd =>
    obtain ⟨net, hdis, rfl⟩ := Option.map_eq_some_iff.mp hst
    exact hS.quiet hrn ⟨fun hok => hok.discard hdis, fun _ hmem _ => hmem, rfl⟩
      fun _ _ _ => trivial
  | track fd calloc =>
    obtain ⟨p, htra, rfl⟩ := Option.map_eq_some_iff.mp hst
    exact hS.quiet hrn ⟨fun hok => hok.track htra, fun _ hmem _ => hmem, rfl⟩
      fun _ _ _ => trivial
  | close fd closed =>
    cases hst
    refine hS.quiet hrn ⟨fun hok => hok.close fd closed, fun _ hmem _ => hmem, rfl⟩
      fun request hmem hop hcl => ?_
    refine hclo fd ?_ request hmem hop
    rw [hcl]
    rfl

end Veloco.Net.Uring
