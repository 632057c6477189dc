import Veloco.Http.Admission

/-!
# Connections drain
-/

namespace Veloco.Http

open Function List Option State
open Veloco.Sched (TaskId PId Sound)

variable {s s' : State} {call : SpawnCall} {i : ℕ} {ok : Bool} {t : TaskId} {k : Connection}

def Drains (s : State) : Action → Prop
  | .sched (.worker p _) =>
    ∀ t < s.rt.taskCount, (s.connections t).isSome = true → s.rt.spares p t = true
  | .enter _ fd => s.active fd = true
  | .closeFd _ ok => ok = true
  | _ => True

instance (s : State) : (a : Action) → Decidable (Drains s a)
  | .sched (.worker p _) => inferInstanceAs (Decidable (∀ t < s.rt.taskCount,
      (s.connections t).isSome = true → s.rt.spares p t = true))
  | .enter _ fd => inferInstanceAs (Decidable (s.active fd = true))
  | .closeFd _ ok => inferInstanceAs (Decidable (ok = true))
  | .sched (.call _ _) | .sched (.free _) | .sched (.owner _) | .accept | .requestShutdown
  | .next _ _ | .leave _ => inferInstanceAs (Decidable True)

/-! ## The invariant -/

structure TaskOk (r : Sched.Runtime) (t : TaskId) (k : Connection) : Prop where
  cancelled : (r.tasks t).state ≠ .cancelled
  done : (r.tasks t).state = .done → k.stage = .left
  returned : (r.tasks t).returned = true → k.stage = .left

structure Drained (s : State) : Prop where
  counted : Counted s
  tasks : ∀ t k, s.connections t = some k → TaskOk s.rt t k
  sockets : ∀ fd, s.closes fd + (s.active fd).toNat = if fd < s.sockets then 1 else 0
  given : ∀ c ∈ s.calls, c.fd < s.sockets
  owned : ∀ t k, s.connections t = some k → k.fd < s.sockets
  closed : ∀ t k, s.connections t = some k → k.stage ≠ .run → s.closes k.fd = 1

theorem Drained.lt (h : Drained s) (hk : s.connections t = some k) : t < s.rt.taskCount := by
  by_contra hge
  rw [h.counted.made t (Nat.le_of_not_lt hge)] at hk
  cases hk

theorem TaskOk.spared {r r' : Sched.Runtime} {F : Prop} (h : TaskOk r t k) (hs : Sched.Spared F t r r')
    (hF : F → k.stage = .left) : TaskOk r' t k where
  cancelled := fun hc => h.cancelled (hs.cancelled hc)
  done := fun hd => (hs.done hd).elim h.done h.returned
  returned := fun hr => (hs.returned hr).elim h.returned hF

theorem left_of_finish {p : PId} (hll : s.allows (.call p .finish) = true)
    (hpc : (s.rt.ps p).pc = .inTask t) (hpt : (s.rt.tasks t).point = .body)
    (hk : s.connections t = some k) : k.stage = .left := by
  have hbd : s.bodyOn p = some t := by simp [State.bodyOn, hpc, hpt]
  have hbt : s.outside (.worker p) = true ∧ k.stage = .left := by
    simpa [allows, hbd, hk] using hll
  exact hbt.2

theorem Drained.connect {r : Sched.Runtime} (h : Drained s) (hcl : s.calls[i]? = some call)
    (hctd : Counted s') (hr : s.rt.spawn = some r)
    (hwho : call.caller = .owner ∧ (s.rt.ps 0).pc = .off ∨
      ∃ p, call.caller = .worker p ∧ (s.bodyOn p).isSome = true)
    (hrt : s'.rt = r)
    (hcn : s'.connections = update s.connections s.rt.taskCount (some { fd := call.fd }))
    (hcs : s'.calls = s.calls.eraseIdx i) (hact : s'.active = s.active)
    (hclo : s'.closes = s.closes) (hsoc : s'.sockets = s.sockets) : Drained s' := by
  have hold : ∀ t k, s'.connections t = some k →
      t = s.rt.taskCount ∧ k = { fd := call.fd } ∨ s.connections t = some k := by
    intro t k hk
    rw [hcn] at hk
    by_cases ht : t = s.rt.taskCount
    · rw [ht, update_self] at hk
      exact .inl ⟨ht, (some.inj hk).symm⟩
    · rw [update_of_ne ht] at hk
      exact .inr hk
  refine ⟨hctd, ?_, ?_, ?_, ?_, ?_⟩
  · intro t k hk
    rw [hrt]
    rcases hold t k hk with ⟨rfl, rfl⟩ | hk
    · obtain ⟨hstat, hret⟩ := Sched.spawn_task hr
      exact ⟨by simp [hstat], by simp [hstat], by simp [hret]⟩
    · obtain ⟨a, hst, hwk, hfin⟩ := spawn_is_step hr hwho
      have hspa := Sched.step_spared (t := t) h.counted.sound.inv hst
        fun p e ha => absurd ha (hwk p e)
      exact (h.tasks t k hk).spared hspa fun ⟨p, ha, _⟩ => absurd ha (hfin p)
  · rw [hact, hclo, hsoc]
    exact h.sockets
  · rw [hcs, hsoc]
    exact fun c hc => h.given c (mem_of_mem_eraseIdx hc)
  · intro t k hk
    rw [hsoc]
    rcases hold t k hk with ⟨-, rfl⟩ | hk
    · exact h.given call (mem_of_getElem? hcl)
    · exact h.owned t k hk
  · intro t k hk hsta
    rw [hclo]
    rcases hold t k hk with ⟨-, rfl⟩ | hk
    · exact absurd rfl hsta
    · exact h.closed t k hk hsta

theorem Drained.calls (h : Drained s) (hctd : Counted s') (hsys : s'.sys = s.sys)
    (hcn : s'.connections = s.connections) (hcs : ∀ c ∈ s'.calls, c.fd < s.sockets)
    (hact : s'.active = s.active) (hclo : s'.closes = s.closes)
    (hsoc : s'.sockets = s.sockets) : Drained s' := by
  have hrt : s'.rt = s.rt := by unfold State.rt; rw [hsys]
  refine ⟨hctd, ?_, ?_, ?_, ?_, ?_⟩
  · rw [hcn, hrt]
    exact h.tasks
  · rw [hact, hclo, hsoc]
    exact h.sockets
  · rw [hsoc]
    exact hcs
  · rw [hcn, hsoc]
    exact h.owned
  · rw [hcn, hclo]
    exact h.closed

theorem Drained.recount {n : ℕ} {l : List SpawnCall} {m : List (SpawnCall × Status)} (h : Drained s)
    (hctd : Counted { s.setActiveConnections n with calls := l, answers := m })
    (hl : ∀ c ∈ l, c.fd < s.sockets) :
    Drained { s.setActiveConnections n with calls := l, answers := m } :=
  h.calls hctd rfl rfl hl rfl rfl rfl

theorem Drained.given_set {pc : SpawnPc} (h : Drained s) (hcl : s.calls[i]? = some call) :
    ∀ c ∈ s.calls.set i { call with pc := pc }, c.fd < s.sockets := by
  intro c hc
  rcases mem_or_eq_of_mem_set hc with hmem | rfl
  · exact h.given c hmem
  · exact h.given call (mem_of_getElem? hcl)

theorem Drained.operation (h : Drained s) (hcl : s.calls[i]? = some call)
    (hop : Operation s i call s') : Drained s' := by
  have hctd := h.counted.operation hcl hop
  have hera : ∀ c ∈ s.calls.eraseIdx i, c.fd < s.sockets :=
    fun c hc => h.given c (mem_of_mem_eraseIdx hc)
  cases hop with
  | refuse _ _ => exact h.calls hctd rfl rfl hera rfl rfl rfl
  | pass _ _ | allow _ _ | calloc _ _ | fail _ =>
    exact h.calls hctd rfl rfl (h.given_set hcl) rfl rfl rfl
  | add _ => exact h.recount hctd (h.given_set hcl)
  | spawn hpc hr hwho => exact h.connect hcl hctd hr hwho rfl rfl rfl rfl rfl rfl
  | sub _ => exact h.recount hctd hera

theorem Drained.lt_sockets (h : Drained s) {fd : Socket} (hfd : s.active fd = true) : fd < s.sockets := by
  by_contra hge
  have hsum := h.sockets fd
  rw [if_neg hge, hfd, Bool.toNat_true] at hsum
  omega

theorem socketClose_spec {fd : Socket} (hsum : s.closes fd + (s.active fd).toNat = 1) :
    (s.socketClose fd true).closes fd = 1 ∧
      (∀ j, s.closes j = 1 → (s.socketClose fd true).closes j = 1) ∧
      (s.socketClose fd true).sockets = s.sockets ∧
      ∀ j, (s.socketClose fd true).closes j + ((s.socketClose fd true).active j).toNat =
        s.closes j + (s.active j).toNat := by
  unfold socketClose
  by_cases hact : s.active fd = true
  · rw [hact, Bool.toNat_true] at hsum
    have hzr : s.closes fd = 0 := by omega
    rw [hact, Bool.and_self, if_pos rfl]
    dsimp only
    refine ⟨?_, fun j hone => ?_, rfl, fun j => ?_⟩
    · rw [update_self, hzr]
    · have hne : j ≠ fd := by
        rintro rfl
        omega
      rw [update_of_ne hne]
      exact hone
    · by_cases hj : j = fd
      · rw [hj, update_self, update_self, hact]
        rfl
      · rw [update_of_ne hj, update_of_ne hj]
  · have hact : s.active fd = false := by simpa using hact
    rw [hact, Bool.toNat_false] at hsum
    rw [hact, Bool.false_and, if_neg (by simp)]
    exact ⟨hsum, fun _ hone => hone, rfl, fun _ => rfl⟩

theorem Drained.stage (k' : Connection) (h : Drained s) (hk : s.connections t = some k)
    (hsta : k.stage ≠ .left) (hfd : k'.fd = k.fd) (hctd : Counted s') (hsys : s'.sys = s.sys)
    (hcn : s'.connections = update s.connections t (some k')) (hcs : s'.calls = s.calls)
    (hone : s'.closes k.fd = 1) (hkeep : ∀ j, s.closes j = 1 → s'.closes j = 1)
    (hsoc : s'.sockets = s.sockets)
    (hbal : ∀ j, s'.closes j + (s'.active j).toNat = s.closes j + (s.active j).toNat) :
    Drained s' := by
  have hrt : s'.rt = s.rt := by unfold State.rt; rw [hsys]
  have hold : ∀ u l, s'.connections u = some l → u = t ∧ l = k' ∨ s.connections u = some l := by
    intro u l hl
    rw [hcn] at hl
    by_cases hu : u = t
    · rw [hu, update_self] at hl
      exact .inl ⟨hu, (some.inj hl).symm⟩
    · rw [update_of_ne hu] at hl
      exact .inr hl
  have hok := h.tasks t k hk
  refine ⟨hctd, ?_, ?_, ?_, ?_, ?_⟩
  · intro u l hl
    rw [hrt]
    rcases hold u l hl with ⟨rfl, rfl⟩ | hl
    · -- before the decrement the task is not done and its function has not returned
      exact ⟨hok.cancelled, fun hd => absurd (hok.done hd) hsta,
        fun hr => absurd (hok.returned hr) hsta⟩
    · exact h.tasks u l hl
  · intro j
    rw [hbal, hsoc]
    exact h.sockets j
  · rw [hcs, hsoc]
    exact h.given
  · intro u l hl
    rw [hsoc]
    rcases hold u l hl with ⟨-, rfl⟩ | hl
    · rw [hfd]
      exact h.owned t k hk
    · exact h.owned u l hl
  · intro u l hl hrun
    rcases hold u l hl with ⟨-, rfl⟩ | hl
    · rw [hfd]
      exact hone
    · exact hkeep _ (h.closed u l hl hrun)

theorem Drained.closeFd {p : PId} (h : Drained s) (hctd : Counted s')
    (hs : s.closeFd p true = some s') : Drained s' := by
  obtain ⟨t, k, -, hk, hsta, rfl⟩ := closeFd_cases hs
  obtain ⟨hsys, -, hcs, -, hcn⟩ := socketClose_frame s k.fd true
  have hsum := h.sockets k.fd
  rw [if_pos (h.owned t k hk)] at hsum
  obtain ⟨hone, hkeep, hsoc, hbal⟩ := socketClose_spec hsum
  refine h.stage { k with stage := .closed } hk (by simp [hsta]) rfl hctd hsys ?_ hcs hone hkeep
    hsoc hbal
  show update (s.socketClose k.fd true).connections t _ = _
  rw [hcn]

theorem Drained.countOut {n : ℕ} (h : Drained s) (hk : s.connections t = some k)
    (hsta : k.stage = .closed)
    (hctd : Counted ((s.setActiveConnections n).setConnection t { k with stage := .left })) :
    Drained ((s.setActiveConnections n).setConnection t { k with stage := .left }) :=
  h.stage { k with stage := .left } hk (by simp [hsta]) rfl hctd rfl rfl rfl (h.closed t k hk (by simp [hsta]))
    (fun _ hone => hone) rfl fun _ => rfl

theorem Drained.step {a : Action} (h : Drained s) (hs : step s a = some s') (hd : Drains s a) :
    Drained s' := by
  have hctd := h.counted.step hs
  unfold Http.step at hs
  cases a with
  | sched a =>
    dsimp only at hs
    split_ifs at hs with hll
    obtain ⟨sys, hsys, rfl⟩ := map_eq_some_iff.mp hs
    refine ⟨hctd, fun t k hk => ?_, h.sockets, h.given, h.owned, h.closed⟩
    have hspa := Sched.step_spared (t := t) h.counted.sound.inv hsys fun p e ha => by
      subst ha
      exact hd t (h.lt hk) (by rw [hk]; rfl)
    refine (h.tasks t k hk).spared hspa fun ⟨p, ha, hpc, hpt⟩ => ?_
    subst ha
    exact left_of_finish hll hpc hpt hk
  | accept =>
    cases hs
    have hnew := h.sockets s.sockets
    rw [if_neg (Nat.lt_irrefl _)] at hnew
    refine ⟨hctd, h.tasks, fun fd => ?_, fun c hc => Nat.lt_succ_of_lt (h.given c hc),
      fun t k hk => Nat.lt_succ_of_lt (h.owned t k hk), h.closed⟩
    show s.closes fd + (update s.active s.sockets true fd).toNat =
      if fd < s.sockets + 1 then 1 else 0
    by_cases hfd : fd = s.sockets
    · rw [hfd, update_self, if_pos (Nat.lt_succ_self _), Bool.toNat_true]
      omega
    · have hlt : fd < s.sockets + 1 ↔ fd < s.sockets := by
        rw [Nat.lt_succ_iff_lt_or_eq]
        exact or_iff_left hfd
      rw [update_of_ne hfd, h.sockets fd]
      exact if_congr hlt.symm rfl rfl
  | requestShutdown =>
    cases hs
    exact h.calls hctd rfl rfl h.given rfl rfl rfl
  | enter c fd =>
    dsimp only at hs
    split_ifs at hs
    cases hs
    refine h.calls hctd rfl rfl (fun x hx => ?_) rfl rfl rfl
    rcases mem_append.mp hx with hmem | hmem
    · exact h.given x hmem
    · obtain rfl := mem_singleton.mp hmem
      exact h.lt_sockets hd
  | next i ok =>
    obtain ⟨call, hcl, hop⟩ := nextOperation_cases hs
    exact h.operation hcl hop
  | closeFd p ok =>
    obtain rfl : ok = true := hd
    exact h.closeFd hctd hs
  | leave p =>
    obtain ⟨t, k, -, hk, hsta, rfl⟩ := leave_cases hs
    exact h.countOut hk hsta hctd

theorem Initial.drained {n max : ℕ} (h : Initial n max s) : Drained s := by
  refine ⟨h.counted, ?_, ?_, ?_, ?_, ?_⟩
  · rw [h.eq]
    exact fun _ _ hk => absurd hk (by simp)
  · rw [h.eq]
    exact fun _ => rfl
  · rw [h.eq]
    exact fun c hc => absurd hc not_mem_nil
  · rw [h.eq]
    exact fun _ _ hk => absurd hk (by simp)
  · rw [h.eq]
    exact fun _ _ hk => absurd hk (by simp)

theorem drained_run {n max : ℕ} {as : List Action} (hnt : Initial n max s)
    (hrun : Trans.run step s as = some s') (hmee : Trans.Meets step Drains s as) : Drained s' :=
  Trans.run_invariant_of_meets (fun _ _ _ hs ha h => h.step hs ha) hrun hmee hnt.drained

namespace State

variable (s)

def unfinished : ℕ :=
  Total.count (Finset.range s.rt.taskCount) fun t =>
    (s.connections t).isSome && !(s.rt.tasks t).state.terminal

def departing : ℕ :=
  Total.count (Finset.range s.rt.taskCount) fun t =>
    s.connected (fun k => k.stage = .left) t && !(s.rt.tasks t).state.terminal

end State

theorem Drained.left_of_terminal (h : Drained s) (hk : s.connections t = some k)
    (hend : (s.rt.tasks t).state.terminal = true) : k.stage = .left := by
  have hok := h.tasks t k hk
  cases hstat : (s.rt.tasks t).state with
  | done => exact hok.done hstat
  | cancelled => exact absurd hstat hok.cancelled
  | _ =>
    rw [hstat] at hend
    cases hend

theorem Drained.unfinished_eq (h : Drained s) : s.holding + s.departing = s.unfinished := by
  refine Total.count_split fun t _ => ?_
  unfold connected
  cases hk : s.connections t with
  | none => rfl
  | some k =>
    cases hend : (s.rt.tasks t).state.terminal with
    | true => simp [h.left_of_terminal hk hend]
    | false => by_cases hl : k.stage = .left <;> simp [hl]

theorem Counted.step_le {a : Action} (h : Counted s) (hs : Http.step s a = some s') :
    s'.server.activeConnections ≤ s.server.activeConnections + 1 := by
  unfold Http.step at hs
  cases a with
  | sched a =>
    dsimp only at hs
    split_ifs at hs
    obtain ⟨sys, -, rfl⟩ := map_eq_some_iff.mp hs
    exact Nat.le_succ _
  | accept | requestShutdown =>
    cases hs
    exact Nat.le_succ _
  | enter c fd =>
    dsimp only at hs
    split_ifs at hs
    cases hs
    exact Nat.le_succ _
  | next i ok =>
    obtain ⟨call, hcl, hop⟩ := nextOperation_cases hs
    cases hop with
    | add _ =>
      rw [setActiveConnections_activeConnections]
      exact Nat.mod_le _ _
    | sub hpc =>
      have hone : 0 < s.callsAt SpawnPc.added :=
        countP_pos_iff.mpr ⟨call, mem_of_getElem? hcl, by simp [hpc, SpawnPc.added]⟩
      rw [setActiveConnections_activeConnections]
      exact (h.sub_le (by rw [h.active]; omega)).trans (Nat.le_succ _)
    | _ => exact Nat.le_succ _
  | closeFd p ok =>
    obtain ⟨t, k, -, -, -, rfl⟩ := closeFd_cases hs
    rw [setConnection_server, (socketClose_frame s k.fd ok).2.1]
    exact Nat.le_succ _
  | leave p =>
    obtain ⟨t, k, -, hk, hsta, rfl⟩ := leave_cases hs
    obtain ⟨-, hpos⟩ := h.pos hk (by simp [hsta])
    rw [setConnection_server, setActiveConnections_activeConnections]
    exact (h.sub_le hpos).trans (Nat.le_succ _)

/-- **Connections drain.** -/
theorem connections_drain {n max : ℕ} {as : List Action} (hnt : Initial n max s)
    (hrun : Trans.run step s as = some s') :
    (∀ a s'', step s' a = some s'' →
      s''.server.activeConnections ≤ s'.server.activeConnections + 1) ∧
    (Trans.Meets step Drains s as →
      s'.server.activeConnections + s'.departing = s'.unfinished + s'.callsAt SpawnPc.added ∧
      (s'.calls = [] → s'.departing = 0 → s'.server.activeConnections = s'.unfinished) ∧
      (∀ t k, s'.connections t = some k → (s'.rt.tasks t).state.terminal = true →
        s'.closes k.fd = 1) ∧
      (s'.calls = [] →
        (∀ t, (s'.connections t).isSome = true → (s'.rt.tasks t).state.terminal = true) →
        s'.server.activeConnections = 0)) := by
  refine ⟨fun a s'' hs => (counted_run hnt hrun).step_le hs, fun hmee => ?_⟩
  have h := drained_run hnt hrun hmee
  have hact := h.counted.active
  have hspl := h.unfinished_eq
  have hnn : s'.calls = [] → s'.callsAt SpawnPc.added = 0 := fun hc => by
    unfold callsAt
    rw [hc]
    rfl
  refine ⟨by omega, fun hc hd => ?_, fun t k hk hend => ?_, fun hc hall => ?_⟩
  · have := hnn hc
    omega
  · refine h.closed t k hk ?_
    rw [h.left_of_terminal hk hend]
    simp
  · have hzr : s'.unfinished = 0 := by
      refine Total.count_eq_zero.mpr fun t _ => ?_
      cases hk : (s'.connections t).isSome with
      | false => rfl
      | true => simp [hall t hk]
    have := hnn hc
    omega

def servedSchedule : List Action :=
  [Action.accept, .enter .owner 0, .next 0 true, .next 0 true, .next 0 true, .next 0 true, .next 0 true,
    .sched (.owner .run)] ++ List.replicate 8 (Action.sched (.worker 0 {})) ++
    [Action.closeFd 0 true, .leave 0, .sched (.call 0 .finish), .sched (.worker 0 {})]

theorem connections_drain_served : ∃ s, Trans.run step
      { sys := { rt := { workerCount := 1 } }, server := { maxConnections := 8 } } servedSchedule =
        some s ∧
    s.connections 0 = some { fd := 0, stage := .left } ∧ (s.rt.tasks 0).state = .done ∧
    s.server.activeConnections = s.unfinished ∧ s.closes 0 = 1 := by
  have hmee : Trans.Meets step Drains
      { sys := { rt := { workerCount := 1 } }, server := { maxConnections := 8 } } servedSchedule :=
    Trans.meets_of_checks (c := fun s a => decide (Drains s a)) (fun _ _ h => of_decide_eq_true h)
      (by decide +kernel)
  have hvl : (Trans.run step
      { sys := { rt := { workerCount := 1 } }, server := { maxConnections := 8 } }
      servedSchedule).map (fun s => (s.connections 0, (s.rt.tasks 0).state, s.calls, s.departing)) =
      some (some { fd := 0, stage := .left }, .done, [], 0) := by decide +kernel
  obtain ⟨s, hs, heq⟩ := map_eq_some_iff.mp hvl
  simp only [Prod.mk.injEq] at heq
  obtain ⟨h1, h2, h3, h4⟩ := heq
  obtain ⟨-, hcnt, hclos, -⟩ := (connections_drain (n := 1) ⟨⟨by decide, rfl⟩, rfl⟩ hs).2 hmee
  exact ⟨s, hs, h1, h2, hcnt h3 h4, hclos 0 _ h1 (by rw [h2]; rfl)⟩

def cancelledSchedule : List Action :=
  [Action.accept, .enter .owner 0, .next 0 true, .next 0 true, .next 0 true, .next 0 true, .next 0 true,
    .sched (.free .requestShutdown), .sched (.owner .run)] ++
    List.replicate 6 (Action.sched (.worker 0 {}))

/-- In `cancelledSchedule` the only connection task is cancelled without having run. -/
theorem cancelled_connection_stays : ∃ s : State, Trans.run step
      { sys := { rt := { workerCount := 1 } }, server := { maxConnections := 8 } } cancelledSchedule =
        some s ∧
    s.answers.map Prod.snd = [.ok] ∧ s.calls = [] ∧
    s.connections 0 = some { fd := 0 } ∧ (s.rt.tasks 0).state = .cancelled ∧
    s.unfinished = 0 ∧ s.server.activeConnections = 1 ∧ s.closes 0 = 0 ∧ s.active 0 = true := by
  have hvl : (Trans.run step
      { sys := { rt := { workerCount := 1 } }, server := { maxConnections := 8 } }
      cancelledSchedule).map (fun s => (s.answers.map Prod.snd, s.calls, s.connections 0,
        (s.rt.tasks 0).state, s.unfinished, s.server.activeConnections, s.closes 0, s.active 0)) =
      some ([.ok], [], some { fd := 0 }, .cancelled, 0, 1, 0, true) := by rfl
  obtain ⟨s, hs, heq⟩ := map_eq_some_iff.mp hvl
  simp only [Prod.mk.injEq] at heq
  exact ⟨s, hs, heq⟩

end Veloco.Http
