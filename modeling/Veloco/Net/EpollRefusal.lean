import Veloco.Net.EpollRuns

/-!
# Submissions that the epoll backend turns down
-/

namespace Veloco.Net.Epoll

open Function List State
open Veloco.Net

variable {s s' t : State} {h₀ h : Handle} {i j n : ℕ} {request : Request} {bs : List Label}

structure Refused (s : State) (i : ℕ) (request : Request) (bs : List Label) (t : State) : Prop where
  run : Trans.run step s (.call i (.submit request) :: bs) = some t
  alone : ∀ c, Label.call i c ∉ bs
  error : (t.handles i).rejected = s.next :: (s.handles i).rejected

structure NothingLeft (s : State) (i : ℕ) (t : State) : Prop where
  waiters : (t.handles i).waiters = (s.handles i).waiters
  completed : (t.handles i).completed = (s.handles i).completed
  registered : ∀ e ∈ (t.handles i).registered, e ∈ (s.handles i).registered
  pending : ∀ fd, (∀ j ≠ i, ∀ w : Waiter, w.request.fd = fd → (t.Holds (j, w) ↔ s.Holds (j, w))) →
    pending t.reg fd = pending s.reg fd

inductive Attempt (h₀ : Handle) (n : ℕ) (h : Handle) : Prop where
  | trying (waiters : h.waiters = h₀.waiters) (completed : h.completed = h₀.completed)
    (registered : ∀ e ∈ h.registered, e ∈ h₀.registered) (pc : h.pc.trying = [n])
    (rejected : h.rejected = h₀.rejected)
  | refused (waiters : h.waiters = h₀.waiters) (completed : h.completed = h₀.completed)
    (registered : ∀ e ∈ h.registered, e ∈ h₀.registered) (pc : h.pc = .idle)
    (rejected : h.rejected = n :: h₀.rejected)
  | succeeded (pc : h.pc = .idle) (rejected : h.rejected = h₀.rejected)

namespace Attempt

theorem unregister (hA : Attempt h₀ n h) {registered : List Waiter}
    (hsub : ∀ e ∈ registered, e ∈ h.registered) :
    Attempt h₀ n { h with registered := registered } := by
  cases hA with
  | trying hws hcom hreg hpc hrej =>
    exact .trying hws hcom (fun e he => hreg e (hsub e he)) hpc hrej
  | refused hws hcom hreg hpc hrej =>
    exact .refused hws hcom (fun e he => hreg e (hsub e he)) hpc hrej
  | succeeded hpc hrej => exact .succeeded hpc hrej

end Attempt

def Aside (i : ℕ) (s s' : State) : Prop :=
  ∃ registered, (∀ e ∈ registered, e ∈ (s.handles i).registered) ∧
    s'.handles i = { s.handles i with registered := registered }

theorem Aside.of_eq (h : s'.handles i = s.handles i) : Aside i s s' :=
  ⟨(s.handles i).registered, fun _ he => he, h⟩

theorem Aside.unregister (h : s'.handles i = s.handles i) (fd : ℤ) : Aside i s (s'.unregister fd) := by
  refine ⟨(s.handles i).registered.filter fun e => e.request.fd != fd,
    fun e he => (mem_filter.mp he).1, ?_⟩
  unfold State.unregister
  dsimp only
  rw [h]

theorem State.close_aside (fd : ℤ) (closed : Bool) : Aside i s (s.close fd closed) := by
  unfold close
  split
  · exact .unregister rfl fd
  · exact .of_eq rfl

theorem State.setHandle_of_ne (hne : i ≠ j) : (s.setHandle j h).handles i = s.handles i :=
  update_of_ne hne _ _

theorem State.advance_aside (hne : i ≠ j) {outcome : Outcome} (hst : s.advance j outcome = some s') :
    Aside i s s' := by
  have hset : ∀ {u : State} {h : Handle}, some (u.setHandle j h) = some s' → u.handles = s.handles →
      Aside i s s' := by
    intro u h hsm hu
    cases hsm
    refine .of_eq ?_
    rw [setHandle_of_ne hne, hu]
  unfold advance at hst
  dsimp only at hst
  split at hst
  case h_1 w g _ =>
    unfold checkGeneration at hst
    dsimp only at hst
    split_ifs at hst <;> exact hset hst rfl
  case h_2 w _ =>
    unfold claim at hst
    split at hst
    · cases hst
      exact .of_eq (State.setHandle_of_ne hne)
    · cases hst
      exact .of_eq (State.setHandle_of_ne hne)
  case h_3 w calloc ctl _ =>
    unfold add at hst
    dsimp only at hst
    split_ifs at hst <;> exact hset hst rfl
  case h_4 => exact hset hst rfl
  case h_5 => exact hset hst rfl
  case h_6 => exact hset hst rfl
  case h_7 =>
    split_ifs at hst <;> exact hset hst rfl
  case h_8 nowait answer _ =>
    cases answer with
    | timeout => exact hset hst rfl
    | interrupted expired => exact hset hst rfl
    | failed => exact hset hst rfl
    | event index flags =>
      obtain ⟨w, -, hw⟩ := Option.map_eq_some_iff.mp hst
      exact hset (congrArg some hw) rfl
  case h_9 =>
    split_ifs at hst <;> exact hset hst rfl
  case h_10 nowait w flags answer _ =>
    unfold execute at hst
    dsimp only at hst
    split at hst <;> exact hset hst rfl
  case h_11 w flags fd calloc _ =>
    unfold trackAccepted at hst
    dsimp only at hst
    split at hst
    · cases hst
      exact .of_eq (State.setHandle_of_ne hne)
    · cases hst
      exact .unregister (State.setHandle_of_ne hne) fd
  case h_12 entry _ =>
    unfold finish at hst
    dsimp only at hst
    split_ifs at hst <;> exact hset hst rfl
  case h_13 entry closed _ =>
    obtain ⟨registered, hsub, heq⟩ := State.close_aside (i := i) (s := s) entry.completion.result closed
    cases hst
    exact ⟨registered, hsub, (State.setHandle_of_ne hne).trans heq⟩
  case h_14 => exact hset hst rfl
  case h_15 => exact hset hst rfl
  case h_16 => cases hst

theorem step_aside {label : Label} (hcl : ∀ c, label ≠ .call i c)
    (hadv : ∀ outcome, label ≠ .advance i outcome) (hst : step s label = some s') :
    Aside i s s' := by
  cases label with
  | call j c =>
    have hne : i ≠ j := by
      rintro rfl
      exact hcl c rfl
    unfold Epoll.step at hst
    dsimp only at hst
    split_ifs at hst
    cases hst
    cases c with
    | submit request => exact .of_eq (State.setHandle_of_ne hne)
    | cancel id malloc => exact .of_eq (State.setHandle_of_ne hne)
    | poll nowait clock => exact .of_eq (State.setHandle_of_ne hne)
    | destroy => exact .of_eq (State.setHandle_of_ne hne)
  | advance j outcome =>
    refine State.advance_aside (fun heq => ?_) hst
    exact hadv outcome (congrArg (Label.advance · outcome) heq.symm)
  | track fd calloc =>
    cases hst
    exact .of_eq rfl
  | close fd closed =>
    cases hst
    exact State.close_aside fd closed

theorem Attempt.begin (h : Handle) (reg : Registry) (request : Request) (n : ℕ) :
    Attempt h n (h.submit reg n request) := by
  have hrj : Attempt h n (h.reject n) := .refused rfl rfl (fun _ he => he) rfl rfl
  unfold Handle.submit
  by_cases hfd : request.fd < 0
  · rw [if_pos hfd]
    exact hrj
  rw [if_neg hfd]
  cases requestEvents request.op with
  | none => exact hrj
  | some events =>
    dsimp only
    split_ifs
    · exact hrj
    · exact hrj
    · exact .trying rfl rfl (fun _ he => he) rfl rfl

theorem State.setHandle_self : (s.setHandle i h).handles i = h :=
  update_self _ _ _

theorem Attempt.advance (hA : Attempt h₀ n (s.handles i)) {outcome : Outcome}
    (hst : s.advance i outcome = some s') : Attempt h₀ n (s'.handles i) := by
  cases hA with
  | refused _ _ _ hpc _ =>
    unfold State.advance at hst
    dsimp only at hst
    rw [hpc] at hst
    cases hst
  | succeeded hpc _ =>
    unfold State.advance at hst
    dsimp only at hst
    rw [hpc] at hst
    cases hst
  | trying hws hcom hreg htrying hrej =>
    -- turned down, or one step further
    have hrj : Attempt h₀ n ((s.handles i).reject n) :=
      .refused hws hcom hreg rfl (congrArg (n :: ·) hrej)
    have hgo : ∀ pc : Pc, pc.trying = [n] → Attempt h₀ n { s.handles i with pc := pc } :=
      fun pc hpc => .trying hws hcom hreg hpc hrej
    unfold State.advance at hst
    dsimp only at hst
    split at hst
    case h_1 w g hpc =>
      rw [hpc] at htrying
      obtain rfl := singleton_inj.mp htrying
      cases hst
      unfold checkGeneration
      dsimp only
      split_ifs
      · rw [setHandle_self]
        exact hrj
      · rw [setHandle_self]
        exact hrj
      · rw [setHandle_self]
        exact hgo _ rfl
      · rw [setHandle_self]
        exact hgo _ rfl
    case h_2 w hpc =>
      rw [hpc] at htrying
      obtain rfl := singleton_inj.mp htrying
      cases hst
      unfold claim
      split
      · dsimp only
        rw [setHandle_self]
        exact hgo _ rfl
      · dsimp only
        rw [setHandle_self]
        exact hrj
    case h_3 w calloc ctl hpc =>
      rw [hpc] at htrying
      obtain rfl := singleton_inj.mp htrying
      cases hst
      unfold add
      dsimp only
      split_ifs
      · rw [setHandle_self]
        exact hgo _ rfl
      · rw [setHandle_self]
        exact .succeeded rfl hrej
    case h_4 w hpc =>
      rw [hpc] at htrying
      obtain rfl := singleton_inj.mp htrying
      cases hst
      rw [setHandle_self]
      exact hrj
    case h_16 => cases hst
    -- in the other calls nothing is being submitted
    all_goals
      rename_i hpc
      rw [hpc] at htrying
      cases htrying

theorem Attempt.step (hA : Attempt h₀ n (s.handles i)) {label : Label}
    (hcl : ∀ c, label ≠ .call i c) (hst : step s label = some s') :
    Attempt h₀ n (s'.handles i) := by
  by_cases hadv : ∃ outcome, label = .advance i outcome
  · obtain ⟨outcome, rfl⟩ := hadv
    exact hA.advance hst
  · obtain ⟨registered, hsub, heq⟩ :=
      step_aside hcl (fun outcome heq => hadv ⟨outcome, heq⟩) hst
    rw [heq]
    exact hA.unregister hsub

theorem Refused.nothingLeft (hR : Refused s i request bs t) (hs : Inv s) : NothingLeft s i t := by
  have hrun := hR.run
  rw [Trans.run_cons] at hrun
  obtain ⟨u, hu, hrs⟩ := Option.bind_eq_some_iff.mp hrun
  -- the handle's owner is between two calls, and begins this one
  have hdl : (s.handles i).pc = .idle := by
    unfold Epoll.step at hu
    dsimp only at hu
    split_ifs at hu with hdl
    exact hdl
  have hbeg : Attempt (s.handles i) s.next (u.handles i) := by
    unfold Epoll.step at hu
    dsimp only at hu
    rw [if_pos hdl] at hu
    cases hu
    show Attempt _ _ ((s.setHandle i _).handles i)
    rw [State.setHandle_self]
    exact Attempt.begin _ _ _ _
  have hend : Attempt (s.handles i) s.next (t.handles i) := by
    refine Trans.run_invariant_of_meets (C := fun _ label => ∀ c, label ≠ .call i c)
      (fun v label v' hv hlab hA => Attempt.step hA hlab hv) hrs ?_ hbeg
    refine Trans.meets_of_forall (fun label hlab _ c heq => ?_) u
    exact hR.alone c (heq ▸ hlab)
  have hne : (t.handles i).rejected ≠ (s.handles i).rejected := by
    rw [hR.error]
    exact cons_ne_self _ _
  cases hend with
  | trying _ _ _ _ hrej => exact absurd hrej hne
  | succeeded _ hrej => exact absurd hrej hne
  | refused hws hcom hreg hpc _ =>
    refine ⟨hws, hcom, hreg, fun fd hothers => ?_⟩
    have ht : Inv t := Trans.run_invariant (fun _ _ _ hv hI => Inv.step hI hv) hR.run hs
    refine hs.claims.table_eq ht.claims fun x hx => ?_
    by_cases hxi : x.1 = i
    · unfold State.Holds Handle.holders
      rw [hxi, hws, hpc, hdl]
    · exact hothers x.1 hxi x.2 hx

end Veloco.Net.Epoll
