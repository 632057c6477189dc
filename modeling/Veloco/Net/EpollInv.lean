import Veloco.Claim
import Veloco.Net.Epoll

/-!
# Requests of the epoll backend
-/

namespace Veloco.Net.Epoll

open Function List Option State
open Veloco.Net Veloco.Claim

variable {s s' : State} {h h' : Handle} {w e : Waiter} {i j n serial : ℕ} {fd : ℤ}

namespace Pc

def holders : Pc → List Waiter
  | claimed w => [w]
  | unclaim w => [w]
  | release w _ => [w]
  | destroy rest => rest
  | _ => []

def inHand : Pc → List ℕ
  | release _ (.polled e) => [e.serial]
  | finish e => [e.serial]
  | closeAccepted e => [e.serial]
  | _ => []

def trying : Pc → List ℕ
  | generation w _ => [w.serial]
  | tracked w => [w.serial]
  | claimed w => [w.serial]
  | unclaim w => [w.serial]
  | _ => []

def isOpen : Pc → Bool
  | destroy _ => false
  | closed => false
  | _ => true

def Within (ws : List Waiter) : Pc → Prop
  | scan _ rest => ∀ w ∈ rest, w ∈ ws
  | ready _ w _ => w ∈ ws
  | execute _ w _ => w ∈ ws
  | accepted w _ _ => w ∈ ws
  | _ => True

structure Like (p q : Pc) : Prop where
  holders : p.holders = q.holders
  inHand : p.inHand = q.inHand
  trying : p.trying = q.trying
  isOpen : p.isOpen = q.isOpen

end Pc

def Handle.holders (h : Handle) : List Waiter := h.waiters ++ h.pc.holders

structure HandleOk (next : ℕ) (h : Handle) : Prop where
  nodup : h.holders.Nodup
  fd : ∀ w ∈ h.holders, 0 ≤ w.request.fd
  registered : h.pc.isOpen = true → ∀ e ∈ h.registered, e ∈ h.waiters
  within : h.pc.Within h.waiters
  accounts : ∀ n, h.accepted.count n = (h.waiters.map Waiter.serial).count n +
    (h.completed.map Entry.serial).count n + h.pc.inHand.count n +
    (h.returned.map Entry.serial).count n + h.dropped.count n
  serials : (h.pc.trying ++ h.accepted ++ h.rejected).Nodup
  bound : ∀ n ∈ h.pc.trying ++ h.accepted ++ h.rejected, n < next
  deleted : ∀ p ∈ h.deleted, p.2 = p.1
  dropped : h.pc.isOpen = true → h.dropped = []

def pending (reg : Registry) (fd : ℤ) : ℕ := (reg.slot fd).pendingGeneration

def State.Holds (s : State) (x : ℕ × Waiter) : Prop := x.2 ∈ (s.handles x.1).holders

def State.Claimed (s : State) : Prop :=
  Exact (pending s.reg) s.Holds (fun x => x.2.request.fd) fun x => x.2.request.generation

structure Inv (s : State) : Prop where
  handle : ∀ i, HandleOk s.next (s.handles i)
  claims : s.Claimed

theorem Handle.holders_of_free (hfr : h.pc.Like .idle) : h.holders = h.waiters := by
  rw [Handle.holders, hfr.holders]
  exact append_nil _

theorem HandleOk.go (hok : HandleOk n h) {pc : Pc} (hlk : pc.Like h.pc)
    (hwit : pc.Within h.waiters) : HandleOk n { h with pc := pc } where
  nodup := by
    simp only [Handle.holders, hlk.holders]
    exact hok.nodup
  fd := by
    simp only [Handle.holders, hlk.holders]
    exact hok.fd
  registered := by
    dsimp only
    rw [hlk.isOpen]
    exact hok.registered
  within := hwit
  accounts := by
    dsimp only
    rw [hlk.inHand]
    exact hok.accounts
  serials := by
    dsimp only
    rw [hlk.trying]
    exact hok.serials
  bound := by
    dsimp only
    rw [hlk.trying]
    exact hok.bound
  deleted := hok.deleted
  dropped := by
    dsimp only
    rw [hlk.isOpen]
    exact hok.dropped

theorem HandleOk.mono (hok : HandleOk n h) {m : ℕ} (hle : n ≤ m) : HandleOk m h :=
  { hok with bound := fun k hk => lt_of_lt_of_le (hok.bound k hk) hle }

theorem HandleOk.unregister (hok : HandleOk n h) {registered : List Waiter}
    (hsub : ∀ e ∈ registered, e ∈ h.registered) :
    HandleOk n { h with registered := registered } :=
  { hok with registered := fun hpn e he => hok.registered hpn e (hsub e he) }

theorem HandleOk.reject (hok : HandleOk n h) (htry : h.pc.trying = [serial])
    (hhn : h.pc.inHand = []) (hpn : h.pc.isOpen = true) : HandleOk n (h.reject serial) where
  nodup := by
    have hnd := (nodup_append.mp hok.nodup).1
    simpa [Handle.holders, Handle.reject, Pc.holders] using hnd
  fd := by
    intro w hw
    simp only [Handle.holders, Handle.reject, Pc.holders, append_nil] at hw
    exact hok.fd w (mem_append_left _ hw)
  registered := fun _ => hok.registered hpn
  within := trivial
  accounts := by
    intro k
    have hacc := hok.accounts k
    rw [hhn] at hacc
    exact hacc
  serials := by
    have hser := hok.serials
    rw [htry] at hser
    simp only [Handle.reject, Pc.trying, nil_append]
    refine (List.Perm.nodup_iff ?_).mp hser
    simp only [cons_append, nil_append]
    exact perm_middle.symm
  bound := by
    intro k hk
    refine hok.bound k ?_
    rw [htry]
    simp only [Handle.reject, Pc.trying, nil_append, mem_append, mem_cons] at hk ⊢
    tauto
  deleted := hok.deleted
  dropped := fun _ => hok.dropped hpn

theorem HandleOk.begin (hok : HandleOk n h) (hdl : h.pc = .idle) (request : Request)
    (events : Interest) (generation : ℕ) :
    HandleOk (n + 1) { h with pc := .generation ⟨n, request, events⟩ generation } where
  nodup := by
    have hnd := hok.nodup
    simpa [Handle.holders, Pc.holders, hdl] using hnd
  fd := by
    have hfd := hok.fd
    simpa [Handle.holders, Pc.holders, hdl] using hfd
  registered := fun _ => hok.registered (by rw [hdl]; rfl)
  within := trivial
  accounts := by
    have hacc := hok.accounts
    rw [hdl] at hacc
    exact hacc
  serials := by
    have hser := hok.serials
    have hbd := hok.bound
    rw [hdl] at hser hbd
    simp only [Pc.trying, nil_append] at hser hbd
    exact nodup_cons.mpr ⟨fun hmem => absurd (hbd n hmem) (lt_irrefl n), hser⟩
  bound := by
    have hbd := hok.bound
    rw [hdl] at hbd
    simp only [Pc.trying, nil_append] at hbd
    intro k hk
    rcases mem_cons.mp hk with rfl | hk
    · exact Nat.lt_succ_self _
    · exact Nat.lt_succ_of_lt (hbd k hk)
  deleted := hok.deleted
  dropped := fun _ => hok.dropped (by rw [hdl]; rfl)

theorem HandleOk.claim (hok : HandleOk n h) (hpc : h.pc = .tracked w) (hfd : 0 ≤ w.request.fd)
    (hnew : w ∉ h.waiters) : HandleOk n { h with pc := .claimed w } where
  nodup := by
    have hnd := (nodup_append.mp hok.nodup).1
    simp only [Handle.holders, Pc.holders]
    refine nodup_append.mpr ⟨hnd, nodup_singleton w, fun a ha b hb => ?_⟩
    rw [mem_singleton] at hb
    rintro rfl
    exact hnew (hb ▸ ha)
  fd := by
    intro e he
    rcases mem_append.mp he with he | he
    · exact hok.fd e (mem_append_left _ he)
    · rw [mem_singleton.mp he]
      exact hfd
  registered := fun _ => hok.registered (by rw [hpc]; rfl)
  within := trivial
  accounts := by
    have hacc := hok.accounts
    rw [hpc] at hacc
    exact hacc
  serials := by
    have hser := hok.serials
    rw [hpc] at hser
    exact hser
  bound := by
    have hbd := hok.bound
    rw [hpc] at hbd
    exact hbd
  deleted := hok.deleted
  dropped := fun _ => hok.dropped (by rw [hpc]; rfl)

theorem HandleOk.add (hok : HandleOk n h) (hpc : h.pc = .claimed w) :
    HandleOk n { h with
      registered := w :: h.registered
      waiters := w :: h.waiters
      accepted := w.serial :: h.accepted
      pc := .idle } where
  nodup := by
    have hnd := hok.nodup
    rw [Handle.holders, hpc] at hnd
    simp only [Handle.holders, Pc.holders, append_nil] at hnd ⊢
    exact (perm_append_singleton w h.waiters).nodup_iff.mp hnd
  fd := by
    intro e he
    refine hok.fd e ?_
    rw [Handle.holders, hpc]
    simp only [Handle.holders, Pc.holders, append_nil] at he
    exact (perm_append_singleton w h.waiters).mem_iff.mpr he
  registered := by
    intro _ e he
    rcases mem_cons.mp he with rfl | he
    · exact mem_cons_self
    · exact mem_cons_of_mem _ (hok.registered (by rw [hpc]; rfl) e he)
  within := trivial
  accounts := by
    intro k
    have hacc := hok.accounts k
    rw [hpc] at hacc
    simp only [Pc.inHand, count_nil, map_cons, count_cons] at hacc ⊢
    omega
  serials := by
    have hser := hok.serials
    rw [hpc] at hser
    exact hser
  bound := by
    have hbd := hok.bound
    rw [hpc] at hbd
    exact hbd
  deleted := hok.deleted
  dropped := fun _ => hok.dropped (by rw [hpc]; rfl)

theorem HandleOk.delete (hok : HandleOk n h) (hw : w ∈ h.waiters) (hfr : h.pc.Like .idle)
    (hfd : ∀ e ∈ h.waiters, e.request.fd = w.request.fd → e = w) {after : After}
    {completed : List Entry}
    (hmov : ∀ k, (completed.map Entry.serial).count k + (Pc.release w after).inHand.count k =
      (h.completed.map Entry.serial).count k + [w.serial].count k) :
    HandleOk n ({ h with completed := completed }.deleteWaiter w after) := by
  have hnd := hok.nodup
  rw [Handle.holders_of_free hfr] at hnd
  have hpr := perm_cons_erase hw
  constructor
  case nodup => exact (perm_append_singleton w _).nodup_iff.mpr (hpr.nodup_iff.mp hnd)
  case fd =>
    intro e he
    refine hok.fd e (mem_append_left _ ?_)
    exact hpr.mem_iff.mpr ((perm_append_singleton w _).mem_iff.mp he)
  case registered =>
    intro _ e he
    simp only [Handle.deleteWaiter, Handle.epollDel, Handle.removeWaiter, mem_filter,
      bne_iff_ne, ne_eq] at he ⊢
    refine (mem_erase_of_ne ?_).mpr (hok.registered hfr.isOpen e he.1)
    rintro rfl
    exact he.2 rfl
  case within => exact trivial
  case accounts =>
    intro k
    have hacc := hok.accounts k
    have hcnt := (hpr.map Waiter.serial).count_eq k
    have hmv := hmov k
    rw [hfr.inHand] at hacc
    simp only [Pc.inHand, Handle.deleteWaiter, Handle.epollDel, Handle.removeWaiter, count_nil,
      map_cons, count_cons] at hacc hcnt hmv ⊢
    omega
  case serials =>
    have hser := hok.serials
    rw [hfr.trying] at hser
    exact hser
  case bound =>
    have hbd := hok.bound
    rw [hfr.trying] at hbd
    exact hbd
  case deleted =>
    intro p hp
    rcases mem_append.mp hp with hp | hp
    · obtain ⟨e, he, rfl⟩ := mem_map.mp hp
      simp only [mem_filter, beq_iff_eq] at he
      exact hfd e (hok.registered hfr.isOpen e he.1) he.2
    · exact hok.deleted p hp
  case dropped => exact fun _ => hok.dropped hfr.isOpen

theorem HandleOk.release (hok : HandleOk n h) {pc : Pc} {rest : List Waiter}
    (hpc : h.pc.holders = w :: rest) (hhol : pc.holders = rest)
    (hhn : pc.inHand = h.pc.inHand) (htry : pc.trying = h.pc.trying)
    (hpn : pc.isOpen = h.pc.isOpen) (hwit : pc.Within h.waiters) :
    HandleOk n { h with pc := pc } := by
  have hsub : (h.waiters ++ rest).Sublist h.holders := by
    rw [Handle.holders, hpc]
    exact List.Sublist.append_left (sublist_cons_self w rest) _
  constructor
  case nodup =>
    simp only [Handle.holders, hhol]
    exact hok.nodup.sublist hsub
  case fd =>
    simp only [Handle.holders, hhol]
    exact fun e he => hok.fd e (hsub.subset he)
  case registered =>
    dsimp only
    rw [hpn]
    exact hok.registered
  case within => exact hwit
  case accounts =>
    dsimp only
    rw [hhn]
    exact hok.accounts
  case serials =>
    dsimp only
    rw [htry]
    exact hok.serials
  case bound =>
    dsimp only
    rw [htry]
    exact hok.bound
  case deleted => exact hok.deleted
  case dropped =>
    dsimp only
    rw [hpn]
    exact hok.dropped

theorem HandleOk.pop (hok : HandleOk n h) (hdl : h.pc = .idle) {entry : Entry}
    {rest : List Entry} (hcom : h.completed = entry :: rest) :
    HandleOk n { h with completed := rest, pc := .finish entry } where
  nodup := by
    have hnd := hok.nodup
    rw [Handle.holders, hdl] at hnd
    exact hnd
  fd := by
    have hfd := hok.fd
    rw [Handle.holders, hdl] at hfd
    exact hfd
  registered := fun _ => hok.registered (by rw [hdl]; rfl)
  within := trivial
  accounts := by
    intro k
    have hacc := hok.accounts k
    rw [hdl, hcom] at hacc
    simp only [Pc.inHand, map_cons, count_cons, count_nil] at hacc ⊢
    omega
  serials := by
    have hser := hok.serials
    rw [hdl] at hser
    exact hser
  bound := by
    have hbd := hok.bound
    rw [hdl] at hbd
    exact hbd
  deleted := hok.deleted
  dropped := fun _ => hok.dropped (by rw [hdl]; rfl)

theorem HandleOk.deliver (hok : HandleOk n h) {entry : Entry} (hhn : h.pc.inHand = [entry.serial])
    (hhol : h.pc.holders = []) (htry : h.pc.trying = []) (hpn : h.pc.isOpen = true) :
    HandleOk n (h.deliver entry) where
  nodup := by
    have hnd := hok.nodup
    rw [Handle.holders, hhol] at hnd
    exact hnd
  fd := by
    have hfd := hok.fd
    rw [Handle.holders, hhol] at hfd
    exact hfd
  registered := fun _ => hok.registered hpn
  within := trivial
  accounts := by
    intro k
    have hacc := hok.accounts k
    rw [hhn] at hacc
    simp only [Handle.deliver, Pc.inHand, map_cons, count_cons, count_nil] at hacc ⊢
    omega
  serials := by
    have hser := hok.serials
    rw [htry] at hser
    exact hser
  bound := by
    have hbd := hok.bound
    rw [htry] at hbd
    exact hbd
  deleted := hok.deleted
  dropped := fun _ => hok.dropped hpn

theorem HandleOk.destroy (hok : HandleOk n h) (hdl : h.pc = .idle) : HandleOk n h.destroy where
  nodup := by
    have hnd := hok.nodup
    rw [Handle.holders, hdl] at hnd
    simpa [Handle.holders, Handle.destroy, Pc.holders] using hnd
  fd := by
    have hfd := hok.fd
    rw [Handle.holders, hdl] at hfd
    simpa [Handle.holders, Handle.destroy, Pc.holders] using hfd
  registered := fun hpn => absurd hpn (by simp [Handle.destroy, Pc.isOpen])
  within := trivial
  accounts := by
    intro k
    have hacc := hok.accounts k
    have hdr := hok.dropped (by rw [hdl]; rfl)
    rw [hdl, hdr] at hacc
    simp only [Handle.destroy, Pc.inHand, map_nil, count_nil, count_append] at hacc ⊢
    omega
  serials := by
    have hser := hok.serials
    rw [hdl] at hser
    exact hser
  bound := by
    have hbd := hok.bound
    rw [hdl] at hbd
    exact hbd
  deleted := hok.deleted
  dropped := fun hpn => absurd hpn (by simp [Handle.destroy, Pc.isOpen])

/-! ## Steps of the system -/

theorem State.holds_setHandle {x : ℕ × Waiter} :
    (s.setHandle i h).Holds x ↔ if x.1 = i then x.2 ∈ h.holders else s.Holds x := by
  unfold State.Holds setHandle
  by_cases hx : x.1 = i
  · rw [if_pos hx]
    simp only [hx, update_self]
  · rw [if_neg hx]
    simp only [update_of_ne hx]

theorem HandleOk.setHandle {m : ℕ} (hs : ∀ j, HandleOk s.next (s.handles j)) (hle : s.next ≤ m)
    (hok : HandleOk m h) (j : ℕ) : HandleOk m ((s.setHandle i h).handles j) := by
  unfold State.setHandle
  by_cases hj : j = i
  · simp only [hj, update_self]
    exact hok
  · simp only [update_of_ne hj]
    exact (hs j).mono hle

theorem Inv.setHandle (hI : Inv s) {m : ℕ} (hle : s.next ≤ m) (hok : HandleOk m h)
    (hhol : ∀ w, w ∈ h.holders ↔ w ∈ (s.handles i).holders) :
    Inv { s.setHandle i h with next := m } where
  handle := fun j => HandleOk.setHandle hI.handle hle hok j
  claims := by
    refine hI.claims.congr (fun _ => rfl) fun x => ?_
    refine (State.holds_setHandle (h := h)).trans ?_
    by_cases hx : x.1 = i
    · rw [if_pos hx, hhol, State.Holds, hx]
    · rw [if_neg hx]

theorem Inv.setReg (hI : Inv s) {reg : Registry} (hreg : ∀ fd, pending reg fd = pending s.reg fd) :
    Inv { s with reg := reg } :=
  ⟨hI.handle, hI.claims.congr hreg fun _ => Iff.rfl⟩

theorem Inv.unregister (hI : Inv s) (fd : ℤ) : Inv (s.unregister fd) where
  handle := fun i => (hI.handle i).unregister fun _ he => mem_of_mem_filter he
  claims := hI.claims.congr (fun _ => rfl) fun _ => Iff.rfl

theorem State.close_pc (closed : Bool) : ((s.close fd closed).handles i).pc = (s.handles i).pc := by
  unfold close
  split <;> rfl

theorem Inv.track (hI : Inv s) (fd : ℤ) (calloc : Bool) : Inv (s.track fd calloc) :=
  hI.setReg fun fd' => socketTrack_pending fd fd' s.reg calloc

theorem Inv.close (hI : Inv s) (fd : ℤ) (closed : Bool) : Inv (s.close fd closed) := by
  have hreg : Inv { s with reg := (socketClose fd s.reg closed).2 } :=
    hI.setReg fun fd' => socketClose_pending fd fd' s.reg closed
  unfold State.close
  cases hc : socketClose fd s.reg closed with
  | mk status reg =>
    rw [hc] at hreg
    cases status with
    | ok => exact hreg.unregister fd
    | _ => exact hreg

theorem Inv.claim (hI : Inv s) (hpc : (s.handles i).pc = .tracked w) : Inv (s.claim i w) := by
  have hok := hI.handle i
  have hcas := socketClaim_cases w.request.fd s.reg w.request.generation
  unfold State.claim
  cases hc : socketClaim w.request.fd s.reg w.request.generation with
  | mk status reg =>
    rw [hc] at hcas
    dsimp only at hcas
    rcases hcas with ⟨hne, rfl⟩ | ⟨rfl, hfd, hgen, -, -, hfr, rfl⟩
    · -- the claim is refused
      have hrej := hI.setHandle (i := i) le_rfl (hok.reject (by rw [hpc]; rfl) (by rw [hpc]; rfl)
        (by rw [hpc]; rfl)) fun e => by simp [Handle.holders, Handle.reject, hpc, Pc.holders]
      cases status with
      | ok => exact absurd rfl hne
      | _ => exact hrej
    · have hnew : w ∉ (s.handles i).waiters := by
        intro hmem
        have hent := hI.claims.entered (i, w) (mem_append_left _ hmem)
        have hzr : pending s.reg w.request.fd = 0 := hfr
        exact hgen (hent.symm.trans hzr)
      refine ⟨fun j => HandleOk.setHandle hI.handle le_rfl (hok.claim hpc hfd hnew) j, ?_⟩
      refine hI.claims.acquire (x := (i, w)) hfr hgen (fun fd => ?_) fun x => ?_
      · unfold pending
        by_cases hx : fd = w.request.fd
        · rw [if_pos hx, hx, Registry.slot_set]
        · rw [if_neg hx, Registry.slot_set_of_ne _ hx]
      · refine (State.holds_setHandle (h := { s.handles i with pc := .claimed w })).trans ?_
        obtain ⟨j, e⟩ := x
        by_cases hj : j = i
        · subst hj
          simp [State.Holds, Handle.holders, hpc, Pc.holders]
        · simp [hj, State.Holds]

theorem Inv.release (hI : Inv s) {rest : List Waiter} (hpc : (s.handles i).pc.holders = w :: rest)
    (hok : HandleOk s.next h) (hws : h.waiters = (s.handles i).waiters)
    (hhol : h.pc.holders = rest) : Inv ((s.release w).setHandle i h) := by
  have hhl : w ∈ (s.handles i).holders := by
    rw [Handle.holders, hpc]
    exact mem_append_right _ mem_cons_self
  have hnd := (hI.handle i).nodup
  rw [Handle.holders, hpc] at hnd
  have hfd := (hI.handle i).fd w hhl
  refine ⟨fun j => HandleOk.setHandle (s := s.release w) hI.handle le_rfl hok j, ?_⟩
  refine hI.claims.release (x := (i, w)) hhl (fun fd => ?_) fun x => ?_
  · have hent := hI.claims.entered (i, w) hhl
    by_cases hx : fd = w.request.fd
    · rw [if_pos hx, hx, pending]
      change ((socketRelease w.request.fd s.reg w.request.generation).slot
        w.request.fd).pendingGeneration = 0
      rw [socketRelease_slot hfd]
      exact if_pos hent
    · rw [if_neg hx, pending]
      change ((socketRelease w.request.fd s.reg w.request.generation).slot fd).pendingGeneration =
        (s.reg.slot fd).pendingGeneration
      rw [socketRelease_of_ne hx]
  · refine (State.holds_setHandle (s := s.release w) (h := h)).trans ?_
    obtain ⟨j, e⟩ := x
    by_cases hj : j = i
    · subst hj
      have hnot : w ∉ h.holders := by
        rw [Handle.holders, hws, hhol]
        exact ((perm_middle).nodup_iff.mp hnd |> nodup_cons.mp).1
      simp only [if_true, State.Holds, Handle.holders, hpc, hws, hhol, ne_eq,
        Prod.mk.injEq, true_and, mem_append, mem_cons] at hnot ⊢
      constructor
      · intro he
        refine ⟨by tauto, ?_⟩
        rintro rfl
        exact hnot he
      · rintro ⟨he, hne⟩
        tauto
    · simp only [hj, if_false, State.Holds, ne_eq, Prod.mk.injEq, false_and, not_false_eq_true,
        and_true]
      exact Iff.rfl

theorem Inv.go (hI : Inv s) {pc : Pc} (hlk : pc.Like (s.handles i).pc)
    (hwit : pc.Within (s.handles i).waiters) :
    Inv (s.setHandle i { s.handles i with pc := pc }) :=
  hI.setHandle le_rfl ((hI.handle i).go hlk hwit) fun _ => by
    rw [Handle.holders, hlk.holders, Handle.holders]

theorem Inv.delete (hI : Inv s) (hw : w ∈ (s.handles i).waiters)
    (hfr : (s.handles i).pc.Like .idle) {after : After} {completed : List Entry}
    (hmov : ∀ k, (completed.map Entry.serial).count k + (Pc.release w after).inHand.count k =
      ((s.handles i).completed.map Entry.serial).count k + [w.serial].count k) :
    Inv (s.setHandle i ({ s.handles i with completed := completed }.deleteWaiter w after)) := by
  have hfd : ∀ e ∈ (s.handles i).waiters, e.request.fd = w.request.fd → e = w := by
    intro e he heq
    have huni := hI.claims.unique (i, e) (i, w) (mem_append_left _ he) (mem_append_left _ hw) heq
    exact (Prod.mk.inj huni).2
  refine hI.setHandle le_rfl ((hI.handle i).delete hw hfr hfd hmov) fun e => ?_
  have hpr := (perm_append_singleton w _).trans (perm_cons_erase hw).symm
  rw [Handle.holders_of_free hfr]
  exact hpr.mem_iff

theorem Inv.complete (hI : Inv s) (hw : w ∈ (s.handles i).waiters)
    (hfr : (s.handles i).pc.Like .idle) {entry : Entry} (hsr : entry.serial = w.serial) :
    Inv (s.setHandle i ((s.handles i).deleteWaiter w (.polled entry))) :=
  hI.delete hw hfr fun k => by rw [Pc.inHand, hsr]

theorem Inv.retry (hI : Inv s) (hfr : (s.handles i).pc.Like .idle) (nowait : Bool) :
    Inv (s.setHandle i ((s.handles i).retry nowait)) := by
  unfold Handle.retry
  split
  · exact hI.go ⟨hfr.holders.symm, hfr.inHand.symm, hfr.trying.symm, hfr.isOpen.symm⟩ trivial
  · exact hI.go ⟨hfr.holders.symm, hfr.inHand.symm, hfr.trying.symm, hfr.isOpen.symm⟩
      fun _ hw => hw

theorem Inv.submit (hI : Inv s) (hdl : (s.handles i).pc = .idle) (request : Request) :
    Inv (s.call i (.submit request)) := by
  have hbeg := fun events g => (hI.handle i).begin hdl request events g
  have hrej : Inv { s.setHandle i ((s.handles i).reject s.next) with next := s.next + 1 } :=
    hI.setHandle (Nat.le_succ _) ((hbeg .epollin 0).reject rfl rfl rfl) fun _ => by
      simp [Handle.holders, Handle.reject, hdl, Pc.holders]
  unfold call Handle.submit
  dsimp only
  split
  · exact hrej
  · split
    · exact hrej
    · split
      · exact hrej
      · split
        · exact hrej
        · refine hI.setHandle (Nat.le_succ _) (hbeg _ _) fun _ => ?_
          simp [Handle.holders, hdl, Pc.holders]

theorem Inv.cancel (hI : Inv s) (hdl : (s.handles i).pc = .idle) (id : ℕ) (malloc : Bool) :
    Inv (s.call i (.cancel id malloc)) := by
  have hsm : Inv (s.setHandle i (s.handles i)) :=
    hI.setHandle le_rfl (hI.handle i) fun _ => Iff.rfl
  unfold call Handle.cancel
  dsimp only
  split
  · exact hsm
  · rename_i w hw
    split
    · exact hsm
    · have hmem : w ∈ (s.handles i).waiters := mem_of_find?_eq_some hw
      refine hI.delete hmem (by rw [hdl]; exact ⟨rfl, rfl, rfl, rfl⟩) fun k => ?_
      simp [Pc.inHand, Handle.cancelEntry]

theorem Inv.poll (hI : Inv s) (hdl : (s.handles i).pc = .idle) (nowait clock : Bool) :
    Inv (s.call i (.poll nowait clock)) := by
  unfold call Handle.poll
  dsimp only
  split
  · rename_i entry rest hcom
    refine hI.setHandle le_rfl ((hI.handle i).pop hdl hcom) fun _ => ?_
    simp [Handle.holders, hdl, Pc.holders]
  · split
    · exact hI.setHandle le_rfl (hI.handle i) fun _ => Iff.rfl
    · exact hI.go (by rw [hdl]; exact ⟨rfl, rfl, rfl, rfl⟩) fun _ hw => hw

theorem Inv.destroy (hI : Inv s) (hdl : (s.handles i).pc = .idle) : Inv (s.call i .destroy) := by
  refine hI.setHandle le_rfl ((hI.handle i).destroy hdl) fun _ => ?_
  simp [Handle.holders, Handle.destroy, hdl, Pc.holders]

theorem Inv.checkGeneration (hI : Inv s) {g : ℕ} (hpc : (s.handles i).pc = .generation w g) :
    Inv (s.checkGeneration i w g) := by
  have hrej : Inv (s.setHandle i ((s.handles i).reject w.serial)) :=
    hI.setHandle le_rfl ((hI.handle i).reject (by rw [hpc]; rfl) (by rw [hpc]; rfl)
      (by rw [hpc]; rfl)) fun _ => by simp [Handle.holders, Handle.reject, hpc, Pc.holders]
  unfold State.checkGeneration
  dsimp only
  split
  · exact hrej
  · split
    · exact hrej
    · split <;> exact hI.go (by rw [hpc]; exact ⟨rfl, rfl, rfl, rfl⟩) trivial

theorem Inv.add (hI : Inv s) (hpc : (s.handles i).pc = .claimed w) (calloc ctl : Bool) :
    Inv (s.add i w calloc ctl) := by
  unfold State.add
  dsimp only
  split
  · exact hI.go (by rw [hpc]; exact ⟨rfl, rfl, rfl, rfl⟩) trivial
  · refine hI.setHandle le_rfl ((hI.handle i).add hpc) fun e => ?_
    simp [Handle.holders, hpc, Pc.holders, or_comm]

theorem Inv.execute (hI : Inv s) {nowait : Bool} {flags : Flags}
    (hpc : (s.handles i).pc = .execute nowait w flags) (answer : IoResult) :
    Inv (s.execute i nowait w flags answer) := by
  have hw : w ∈ (s.handles i).waiters := by
    have hwit := (hI.handle i).within
    rw [hpc] at hwit
    exact hwit
  have hfr : (s.handles i).pc.Like .idle := by
    rw [hpc]
    exact ⟨rfl, rfl, rfl, rfl⟩
  have hdn : ∀ result, Inv (s.setHandle i ((s.handles i).completeReady w flags result)) :=
    fun result => hI.complete hw hfr rfl
  have hret := hI.retry hfr nowait
  unfold State.execute
  dsimp only
  split
  case h_1 => exact hI.go (by rw [hpc]; exact ⟨rfl, rfl, rfl, rfl⟩) hw
  case h_13 => exact hI.go (by rw [hpc]; exact ⟨rfl, rfl, rfl, rfl⟩) trivial
  all_goals first | exact hdn _ | exact hret

theorem Inv.trackAccepted (hI : Inv s) {flags : Flags}
    (hpc : (s.handles i).pc = .accepted w flags fd) (calloc : Bool) :
    Inv (s.trackAccepted i w flags fd calloc) := by
  have hw : w ∈ (s.handles i).waiters := by
    have hwit := (hI.handle i).within
    rw [hpc] at hwit
    exact hwit
  have hdn : ∀ result, Inv { s.setHandle i ((s.handles i).completeReady w flags result) with
      reg := (socketTrack fd s.reg calloc).2 } := by
    intro result
    have hcm : Inv (s.setHandle i ((s.handles i).completeReady w flags result)) :=
      hI.complete hw (by rw [hpc]; exact ⟨rfl, rfl, rfl, rfl⟩) rfl
    exact hcm.setReg fun fd' => socketTrack_pending fd fd' s.reg calloc
  unfold State.trackAccepted
  cases hc : socketTrack fd s.reg calloc with
  | mk status reg =>
    rw [hc] at hdn
    cases status with
    | ok => exact hdn fd
    | _ => exact (hdn _).unregister fd

theorem Inv.deliver (hI : Inv s) {entry : Entry} (hhn : (s.handles i).pc.inHand = [entry.serial])
    (hhol : (s.handles i).pc.holders = []) (htry : (s.handles i).pc.trying = [])
    (hpn : (s.handles i).pc.isOpen = true) :
    Inv (s.setHandle i ((s.handles i).deliver entry)) :=
  hI.setHandle le_rfl ((hI.handle i).deliver hhn hhol htry hpn) fun _ => by
    rw [Handle.holders, Handle.holders, hhol]
    exact Iff.rfl

theorem Inv.finish (hI : Inv s) {entry : Entry} (hpc : (s.handles i).pc = .finish entry) :
    Inv (s.finish i entry) := by
  unfold State.finish
  dsimp only
  split
  · split
    · exact hI.go (by rw [hpc]; exact ⟨rfl, rfl, rfl, rfl⟩) trivial
    · exact hI.deliver (by rw [hpc]; rfl) (by rw [hpc]; rfl) (by rw [hpc]; rfl) (by rw [hpc]; rfl)
  · exact hI.deliver (by rw [hpc]; rfl) (by rw [hpc]; rfl) (by rw [hpc]; rfl) (by rw [hpc]; rfl)

theorem Inv.releaseStep (hI : Inv s) {pc : Pc} {rest : List Waiter}
    (hpc : (s.handles i).pc.holders = w :: rest) (hhol : pc.holders = rest)
    (hhn : pc.inHand = (s.handles i).pc.inHand) (htry : pc.trying = (s.handles i).pc.trying)
    (hpn : pc.isOpen = (s.handles i).pc.isOpen) (hwit : pc.Within (s.handles i).waiters) :
    Inv ((s.release w).setHandle i { s.handles i with pc := pc }) :=
  hI.release hpc ((hI.handle i).release hpc hhol hhn htry hpn hwit) rfl hhol

theorem Inv.advance (hI : Inv s) {outcome : Outcome} (hst : s.advance i outcome = some s') :
    Inv s' := by
  have hok := hI.handle i
  have hwit := hok.within
  unfold State.advance at hst
  dsimp only at hst
  split at hst
  case h_1 w g hpc => exact some.inj hst ▸ hI.checkGeneration hpc
  case h_2 w hpc => exact some.inj hst ▸ hI.claim hpc
  case h_3 w calloc ctl hpc => exact some.inj hst ▸ hI.add hpc calloc ctl
  case h_4 w hpc =>
    -- a failed submission gives the descriptor back
    cases hst
    exact hI.release (by rw [hpc]; rfl) (hok.reject (by rw [hpc]; rfl) (by rw [hpc]; rfl)
      (by rw [hpc]; rfl)) rfl rfl
  case h_5 w hpc =>
    cases hst
    exact hI.releaseStep (by rw [hpc]; rfl) rfl (by rw [hpc]; rfl) (by rw [hpc]; rfl)
      (by rw [hpc]; rfl) trivial
  case h_6 w entry hpc =>
    cases hst
    exact hI.releaseStep (by rw [hpc]; rfl) rfl (by rw [hpc]; rfl) (by rw [hpc]; rfl)
      (by rw [hpc]; rfl) trivial
  case h_7 nowait w rest hpc =>
    rw [hpc] at hwit
    split at hst
    · cases hst
      exact hI.complete (hwit w mem_cons_self) (by rw [hpc]; exact ⟨rfl, rfl, rfl, rfl⟩) rfl
    · cases hst
      exact hI.go (by rw [hpc]; exact ⟨rfl, rfl, rfl, rfl⟩) fun e he =>
        hwit e (mem_cons_of_mem _ he)
  case h_8 nowait answer hpc =>
    have hfr : (s.handles i).pc.Like .idle := by
      rw [hpc]
      exact ⟨rfl, rfl, rfl, rfl⟩
    cases answer with
    | timeout =>
      cases hst
      exact hI.go (by rw [hpc]; exact ⟨rfl, rfl, rfl, rfl⟩) trivial
    | interrupted expired =>
      cases hst
      exact hI.retry hfr _
    | failed =>
      cases hst
      exact hI.go (by rw [hpc]; exact ⟨rfl, rfl, rfl, rfl⟩) trivial
    | event index flags =>
      obtain ⟨w, hw, rfl⟩ := map_eq_some_iff.mp hst
      have hmem := hok.registered (by rw [hpc]; rfl) w (mem_of_getElem? hw)
      exact hI.go (by rw [hpc]; exact ⟨rfl, rfl, rfl, rfl⟩) hmem
  case h_9 nowait w flags hpc =>
    rw [hpc] at hwit
    split at hst
    · cases hst
      exact hI.complete hwit (by rw [hpc]; exact ⟨rfl, rfl, rfl, rfl⟩) rfl
    · cases hst
      exact hI.go (by rw [hpc]; exact ⟨rfl, rfl, rfl, rfl⟩) hwit
  case h_10 nowait w flags answer hpc => exact some.inj hst ▸ hI.execute hpc answer
  case h_11 w flags fd calloc hpc => exact some.inj hst ▸ hI.trackAccepted hpc calloc
  case h_12 entry hpc => exact some.inj hst ▸ hI.finish hpc
  case h_13 entry closed hpc =>
    cases hst
    have hpc' : ((s.close entry.completion.result closed).handles i).pc = .closeAccepted entry := by
      rw [close_pc, hpc]
    exact (hI.close _ closed).deliver (by rw [hpc']; rfl) (by rw [hpc']; rfl) (by rw [hpc']; rfl)
      (by rw [hpc']; rfl)
  case h_14 w rest hpc =>
    cases hst
    exact hI.releaseStep (by rw [hpc]; rfl) rfl (by rw [hpc]; rfl) (by rw [hpc]; rfl)
      (by rw [hpc]; rfl) trivial
  case h_15 hpc =>
    cases hst
    have hgo : HandleOk s.next { s.handles i with pc := .closed } :=
      hok.go (by rw [hpc]; exact ⟨rfl, rfl, rfl, rfl⟩) trivial
    exact hI.setHandle le_rfl (hgo.unregister fun _ he => absurd he not_mem_nil) fun _ => by
      simp [Handle.holders, hpc, Pc.holders]
  case h_16 => cases hst

theorem Inv.step (hI : Inv s) {label : Label} (hst : step s label = some s') : Inv s' := by
  cases label with
  | call i c =>
    unfold Epoll.step at hst
    dsimp only at hst
    split at hst
    · rename_i hdl
      cases hst
      cases c with
      | submit request => exact hI.submit hdl request
      | cancel id malloc => exact hI.cancel hdl id malloc
      | poll nowait clock => exact hI.poll hdl nowait clock
      | destroy => exact hI.destroy hdl
    · cases hst
  | advance i outcome => exact hI.advance hst
  | track fd calloc => exact some.inj hst ▸ hI.track fd calloc
  | close fd closed => exact some.inj hst ▸ hI.close fd closed

end Veloco.Net.Epoll
