import Veloco.Http.Connections

/-!
# Who is counted, and who is let in
-/

namespace Veloco.Http

open Function List Option State
open Veloco.Sched (TaskId PId Sound)

variable {s s' : State} {call : SpawnCall} {i : ℕ} {ok : Bool}

inductive Operation (s : State) (i : ℕ) (call : SpawnCall) : State → Prop
  | refuse {status : Status} (hpc : call.pc.allocated = false)
      (hst : status = .closed ∨ status = .outOfMemory ∧ call.pc ≠ .shutdown) :
      Operation s i call
        { s with calls := s.calls.eraseIdx i, answers := s.answers ++ [(call, status)] }
  | pass (hpc : call.pc = .shutdown) (hreq : s.server.shutdownRequested = false) :
      Operation s i call { s with calls := s.calls.set i { call with pc := .limit } }
  | allow (hpc : call.pc = .limit) (hlt : s.server.activeConnections < s.server.maxConnections) :
      Operation s i call { s with calls := s.calls.set i { call with pc := .calloc } }
  | calloc (hpc : call.pc = .calloc) (hlt : s.records < Word.sizeMax) :
      Operation s i call { s with calls := s.calls.set i { call with pc := .fetchAdd } }
  | add (hpc : call.pc = .fetchAdd) :
      Operation s i call
        { s.setActiveConnections (Word.add s.server.activeConnections 1) with
          calls := s.calls.set i { call with pc := .spawn } }
  | spawn {r : Sched.Runtime} (hpc : call.pc = .spawn) (hr : s.rt.spawn = some r)
      (hwho : call.caller = .owner ∧ (s.rt.ps 0).pc = .off ∨
        ∃ p, call.caller = .worker p ∧ (s.bodyOn p).isSome = true) :
      Operation s i call
        { { s with sys := { s.sys with rt := r } }.setConnection s.rt.taskCount { fd := call.fd } with
          calls := s.calls.eraseIdx i
          answers := s.answers ++ [(call, .ok)] }
  | fail (hpc : call.pc = .spawn) :
      Operation s i call { s with calls := s.calls.set i { call with pc := .fetchSub } }
  | sub (hpc : call.pc = .fetchSub) :
      Operation s i call
        { s.setActiveConnections (Word.sub s.server.activeConnections 1) with
          calls := s.calls.eraseIdx i
          answers := s.answers ++ [(call, .invalidState)] }

theorem vlSpawn_eq_some {c : Caller} {r : Sched.Runtime} (h : s.vlSpawn c ok = some r) :
    s.rt.spawn = some r ∧
      (c = .owner ∧ (s.rt.ps 0).pc = .off ∨ ∃ p, c = .worker p ∧ (s.bodyOn p).isSome = true) := by
  unfold vlSpawn at h
  cases c with
  | owner =>
    dsimp only at h
    split_ifs at h with hc
    exact ⟨h, Or.inl ⟨rfl, by simp_all⟩⟩
  | worker p =>
    dsimp only at h
    split_ifs at h with hc
    exact ⟨h, Or.inr ⟨p, rfl, by simp_all⟩⟩
  | thread n => simp at h

theorem nextOperation_cases (h : s.nextOperation i ok = some s') :
    ∃ call, s.calls[i]? = some call ∧ Operation s i call s' := by
  unfold nextOperation at h
  split at h
  · cases h
  · next call hcl =>
    refine ⟨call, hcl, ?_⟩
    unfold spawnConnection at h
    cases hpc : call.pc with
    | shutdown =>
      simp only [hpc] at h
      by_cases hreq : s.server.shutdownRequested = true
      · simp only [hreq, if_true, some.injEq] at h
        subst h
        exact .refuse (by rw [hpc]; rfl) (.inl rfl)
      · rw [if_neg hreq] at h
        simp only [some.injEq] at h
        subst h
        exact .pass hpc (by simpa using hreq)
    | limit =>
      simp only [hpc] at h
      by_cases hmax : s.server.activeConnections ≥ s.server.maxConnections
      · simp only [hmax, if_true, some.injEq] at h
        subst h
        exact .refuse (by rw [hpc]; rfl) (.inl rfl)
      · simp only [hmax, if_false, some.injEq] at h
        subst h
        exact .allow hpc (by omega)
    | calloc =>
      simp only [hpc] at h
      by_cases hok : ok = true ∧ s.records < Word.sizeMax
      · simp only [hok, and_self, if_true, some.injEq] at h
        subst h
        exact .calloc hpc hok.2
      · simp only [hok, if_false, some.injEq] at h
        subst h
        exact .refuse (by rw [hpc]; rfl) (.inr ⟨rfl, by simp [hpc]⟩)
    | fetchAdd =>
      simp only [hpc, some.injEq] at h
      subst h
      exact .add hpc
    | spawn =>
      simp only [hpc] at h
      cases hsp : s.vlSpawn call.caller ok with
      | none =>
        simp only [hsp, some.injEq] at h
        subst h
        exact .fail hpc
      | some r =>
        simp only [hsp, some.injEq] at h
        subst h
        obtain ⟨hr, hwho⟩ := vlSpawn_eq_some hsp
        exact .spawn hpc hr hwho
    | fetchSub =>
      simp only [hpc, some.injEq] at h
      subst h
      exact .sub hpc

theorem spawn_is_step {r : Sched.Runtime} {c : Caller} (hr : s.rt.spawn = some r)
    (hwho : c = .owner ∧ (s.rt.ps 0).pc = .off ∨ ∃ p, c = .worker p ∧ (s.bodyOn p).isSome = true) :
    ∃ a, Sched.step s.sys a = some { s.sys with rt := r } ∧ (∀ p e, a ≠ .worker p e) ∧
      ∀ p, a ≠ .call p .finish := by
  rcases hwho with ⟨-, hoff⟩ | ⟨p, -, hbd⟩
  · refine ⟨.owner .spawn, ?_, by simp, by simp⟩
    show (if _ then s.sys.ownerCall .spawn else none) = _
    rw [if_pos hoff]
    show s.sys.rt.spawn.map _ = _
    rw [hr]
    rfl
  · refine ⟨.call p .spawn, ?_, by simp, by simp⟩
    unfold bodyOn at hbd
    split at hbd
    · next t hpc =>
      split_ifs at hbd with hpt
      · simp only [Sched.step, hpc, hpt, if_true, Sched.System.call, hr]
      · cases hbd
    · cases hbd

theorem taskCount_spawn {r r' : Sched.Runtime} (h : r.spawn = some r') :
    r'.taskCount = r.taskCount + 1 := by
  unfold Sched.Runtime.spawn at h
  split_ifs at h
  cases h
  unfold Sched.Runtime.enqueueGlobal
  split_ifs <;> rfl

theorem connectionOn_eq {p : PId} {t : TaskId} {k : Connection} (h : s.connectionOn p = some (t, k)) :
    s.bodyOn p = some t ∧ s.connections t = some k := by
  unfold connectionOn at h
  split_ifs at h
  obtain ⟨u, hu, hk⟩ := bind_eq_some_iff.mp h
  obtain ⟨k', hk', heq⟩ := map_eq_some_iff.mp hk
  cases heq
  exact ⟨hu, hk'⟩

theorem closeFd_cases {p : PId} (h : s.closeFd p ok = some s') :
    ∃ t k, s.bodyOn p = some t ∧ s.connections t = some k ∧ k.stage = .run ∧
      s' = (s.socketClose k.fd ok).setConnection t { k with stage := .closed } := by
  unfold closeFd at h
  split at h
  · next t k hon =>
    split_ifs at h with hk
    obtain ⟨hb, hc⟩ := connectionOn_eq hon
    exact ⟨t, k, hb, hc, hk, (some.inj h).symm⟩
  · cases h

theorem leave_cases {p : PId} (h : s.leave p = some s') :
    ∃ t k, s.bodyOn p = some t ∧ s.connections t = some k ∧ k.stage = .closed ∧
      s' = (s.setActiveConnections (Word.sub s.server.activeConnections 1)).setConnection t
        { k with stage := .left } := by
  unfold leave at h
  split at h
  · next t k hon =>
    split_ifs at h with hk
    obtain ⟨hb, hc⟩ := connectionOn_eq hon
    exact ⟨t, k, hb, hc, hk, (some.inj h).symm⟩
  · cases h

namespace State

variable (s)

def callsAt (q : SpawnPc → Bool) : ℕ := s.calls.countP fun c => q c.pc

end State

structure Counted (s : State) : Prop where
  sound : Sound s.rt
  made : ∀ t, s.rt.taskCount ≤ t → s.connections t = none
  active : s.server.activeConnections = s.holding + s.callsAt SpawnPc.added
  records : s.holding + s.callsAt SpawnPc.allocated ≤ Word.sizeMax
  late : ∀ c ∈ s.calls, c.late = true → c.pc = .shutdown ∧ s.server.shutdownRequested = true
  answers : ∀ x ∈ s.answers, x.1.late = true → x.2 = .closed

theorem callsAt_added_le (s : State) : s.callsAt SpawnPc.added ≤ s.callsAt SpawnPc.allocated := by
  refine countP_mono_left fun c _ h => ?_
  cases hpc : c.pc <;> simp_all [SpawnPc.added, SpawnPc.allocated]

theorem callsAt_set {pc : SpawnPc} (q : SpawnPc → Bool) (hcl : s.calls[i]? = some call)
    (hs : s'.calls = s.calls.set i { call with pc := pc }) :
    s'.callsAt q + (q call.pc).toNat = s.callsAt q + (q pc).toNat := by
  unfold callsAt
  rw [hs]
  exact Total.countP_set (fun c : SpawnCall => q c.pc) hcl { call with pc := pc }

theorem callsAt_erase (q : SpawnPc → Bool) (hcl : s.calls[i]? = some call)
    (hs : s'.calls = s.calls.eraseIdx i) : s'.callsAt q + (q call.pc).toNat = s.callsAt q := by
  unfold callsAt
  rw [hs]
  exact Total.countP_eraseIdx (fun c : SpawnCall => q c.pc) hcl

theorem callsAt_added_lt (hcl : s.calls[i]? = some call) (hpc : call.pc = .fetchAdd) :
    s.callsAt SpawnPc.added < s.callsAt SpawnPc.allocated := by
  obtain ⟨s', hs'⟩ : ∃ s' : State, s'.calls = s.calls.eraseIdx i :=
    ⟨{ s with calls := s.calls.eraseIdx i }, rfl⟩
  have hadd := callsAt_erase SpawnPc.added hcl hs'
  have hall := callsAt_erase SpawnPc.allocated hcl hs'
  have hle := callsAt_added_le s'
  rw [hpc] at hadd hall
  simp only [SpawnPc.added, SpawnPc.allocated, Bool.toNat_true, Bool.toNat_false] at hadd hall
  omega

theorem holding_congr (hc : ∀ t, s'.connections t = s.connections t)
    (hle : s.rt.taskCount ≤ s'.rt.taskCount)
    (hmd : ∀ t, s.rt.taskCount ≤ t → s.connections t = none) : s'.holding = s.holding := by
  have hp : ∀ t, s'.connected (fun k => k.stage ≠ .left) t = s.connected (fun k => k.stage ≠ .left) t :=
    fun t => by unfold State.connected; rw [hc]
  unfold holding
  rw [Total.count_congr hp]
  refine Total.count_range hle fun t ht => ?_
  unfold connected
  rw [hmd t ht]
  rfl

theorem holding_setConnection {t : TaskId} {k k' : Connection} (hlt : t < s.rt.taskCount)
    (hk : s.connections t = some k) (hrt : s'.rt.taskCount = s.rt.taskCount)
    (hc : s'.connections = update s.connections t (some k')) :
    s'.holding + (decide (k.stage ≠ .left)).toNat = s.holding + (decide (k'.stage ≠ .left)).toNat := by
  have hcha := Total.count_change (s := Finset.range s.rt.taskCount) (i := t)
    (p := s.connected fun k => k.stage ≠ .left) (q := s'.connected fun k => k.stage ≠ .left)
    (Finset.mem_range.mpr hlt) fun j hj => by
      unfold connected
      rw [hc, update_of_ne hj]
  have hbef : s.connected (fun k => k.stage ≠ .left) t = decide (k.stage ≠ .left) := by
    simp [connected, hk]
  have haft : s'.connected (fun k => k.stage ≠ .left) t = decide (k'.stage ≠ .left) := by
    simp [connected, hc]
  rw [hbef, haft] at hcha
  unfold holding
  rwa [hrt]

theorem holding_new {k : Connection} (hsta : k.stage = .run)
    (hrt : s'.rt.taskCount = s.rt.taskCount + 1)
    (hc : s'.connections = update s.connections s.rt.taskCount (some k)) :
    s'.holding = s.holding + 1 := by
  have hold : ∀ t ∈ Finset.range s.rt.taskCount,
      (s'.connected (fun k => k.stage ≠ .left) t).toNat =
        (s.connected (fun k => k.stage ≠ .left) t).toNat := by
    intro t ht
    have hne : t ≠ s.rt.taskCount := (Finset.mem_range.mp ht).ne
    unfold connected
    rw [hc, update_of_ne hne]
  have hnew : s'.connected (fun k => k.stage ≠ .left) s.rt.taskCount = true := by
    simp [connected, hc, hsta]
  unfold holding
  rw [Total.count_eq_sum, Total.count_eq_sum, hrt, Finset.sum_range_succ, hnew,
    Finset.sum_congr rfl hold]
  rfl

/-! ## Every step keeps the counts -/

theorem Counted.late_set {pc : SpawnPc} (h : Counted s) (hla : call.late = false) :
    ∀ c ∈ s.calls.set i { call with pc := pc },
      c.late = true → c.pc = .shutdown ∧ s.server.shutdownRequested = true := by
  intro c hc hl
  rcases mem_or_eq_of_mem_set hc with hmem | rfl
  · exact h.late c hmem hl
  · rw [hla] at hl
    cases hl

theorem Counted.late_erase (h : Counted s) :
    ∀ c ∈ s.calls.eraseIdx i,
      c.late = true → c.pc = .shutdown ∧ s.server.shutdownRequested = true :=
  fun c hc => h.late c (mem_of_mem_eraseIdx hc)

theorem Counted.answer {status : Status} (h : Counted s) (hst : call.late = true → status = .closed) :
    ∀ x ∈ s.answers ++ [(call, status)], x.1.late = true → x.2 = .closed := by
  intro x hx hl
  rcases mem_append.mp hx with hmem | hmem
  · exact h.answers x hmem hl
  · obtain rfl := mem_singleton.mp hmem
    exact hst hl

theorem Counted.not_late (h : Counted s) (hcl : s.calls[i]? = some call) (hpc : call.pc ≠ .shutdown) :
    call.late = false := by
  by_contra hl
  exact hpc (h.late call (mem_of_getElem? hcl) (by simpa using hl)).1

theorem Counted.lt_modulus (h : Counted s) : s.server.activeConnections < Word.modulus := by
  have hadd := callsAt_added_le s
  have hrc := h.records
  have hmax : Word.sizeMax < Word.modulus := by decide
  rw [h.active]
  omega

theorem Counted.goOn {pc : SpawnPc} (h : Counted s) (hcl : s.calls[i]? = some call)
    (hla : call.late = false) (n : ℕ)
    (hn : n + call.pc.added.toNat = s.server.activeConnections + pc.added.toNat)
    (hrec : pc.allocated = call.pc.allocated ∨ s.records < Word.sizeMax) :
    Counted { s.setActiveConnections n with calls := s.calls.set i { call with pc := pc } } := by
  generalize hs' : ({ s.setActiveConnections n with
    calls := s.calls.set i { call with pc := pc } } : State) = s'
  have hcs : s'.calls = s.calls.set i { call with pc := pc } := by rw [← hs']
  have hhol : s'.holding = s.holding := by rw [← hs']; rfl
  have hadd := callsAt_set SpawnPc.added hcl hcs
  have hall := callsAt_set SpawnPc.allocated hcl hcs
  have hact := h.active
  have hrc := h.records
  refine ⟨?_, ?_, ?_, ?_, ?_, ?_⟩
  · rw [← hs']
    exact h.sound
  · rw [← hs']
    exact h.made
  · have hn' : s'.server.activeConnections = n := by rw [← hs']; rfl
    omega
  · rcases hrec with hsm | hlt
    · rw [hsm] at hall
      omega
    · have hlt : s.holding + s.callsAt SpawnPc.allocated < Word.sizeMax := hlt
      have hbit := Bool.toNat_le pc.allocated
      omega
  · rw [hcs, ← hs']
    exact h.late_set hla
  · rw [← hs']
    exact h.answers

theorem Counted.giveUp {status : Status} (h : Counted s) (hcl : s.calls[i]? = some call) (n : ℕ)
    (hn : n + call.pc.added.toNat = s.server.activeConnections)
    (hst : call.late = true → status = .closed) :
    Counted { s.setActiveConnections n with
      calls := s.calls.eraseIdx i, answers := s.answers ++ [(call, status)] } := by
  generalize hs' : ({ s.setActiveConnections n with
    calls := s.calls.eraseIdx i, answers := s.answers ++ [(call, status)] } : State) = s'
  have hcs : s'.calls = s.calls.eraseIdx i := by rw [← hs']
  have hhol : s'.holding = s.holding := by rw [← hs']; rfl
  have hadd := callsAt_erase SpawnPc.added hcl hcs
  have hall := callsAt_erase SpawnPc.allocated hcl hcs
  have hact := h.active
  have hrc := h.records
  refine ⟨?_, ?_, ?_, ?_, ?_, ?_⟩
  · rw [← hs']
    exact h.sound
  · rw [← hs']
    exact h.made
  · have hn' : s'.server.activeConnections = n := by rw [← hs']; rfl
    omega
  · omega
  · rw [hcs, ← hs']
    exact h.late_erase
  · rw [← hs']
    exact h.answer hst

theorem Counted.connect {r : Sched.Runtime} (h : Counted s) (hcl : s.calls[i]? = some call)
    (hpc : call.pc = .spawn) (hr : s.rt.spawn = some r)
    (hwho : call.caller = .owner ∧ (s.rt.ps 0).pc = .off ∨
      ∃ p, call.caller = .worker p ∧ (s.bodyOn p).isSome = true) :
    Counted { { s with sys := { s.sys with rt := r } }.setConnection s.rt.taskCount
        { fd := call.fd } with
      calls := s.calls.eraseIdx i
      answers := s.answers ++ [(call, .ok)] } := by
  generalize hs' : ({ { s with sys := { s.sys with rt := r } }.setConnection s.rt.taskCount
      { fd := call.fd } with
    calls := s.calls.eraseIdx i
    answers := s.answers ++ [(call, .ok)] } : State) = s'
  have hrt : s'.rt = r := by rw [← hs']; rfl
  have hcn : s'.connections =
      update s.connections s.rt.taskCount (some { fd := call.fd }) := by rw [← hs']; rfl
  have hcs : s'.calls = s.calls.eraseIdx i := by rw [← hs']
  have hser : s'.server = s.server := by rw [← hs']; rfl
  have hcnt : s'.rt.taskCount = s.rt.taskCount + 1 := by rw [hrt, taskCount_spawn hr]
  have hhol : s'.holding = s.holding + 1 := holding_new rfl hcnt hcn
  have hadd := callsAt_erase SpawnPc.added hcl hcs
  have hall := callsAt_erase SpawnPc.allocated hcl hcs
  rw [hpc] at hadd hall
  simp only [SpawnPc.added, SpawnPc.allocated, Bool.toNat_true] at hadd hall
  have hact := h.active
  have hrc := h.records
  refine ⟨?_, ?_, ?_, ?_, ?_, ?_⟩
  · obtain ⟨a, hste, -⟩ := spawn_is_step hr hwho
    rw [hrt]
    exact Sched.sound_step hste h.sound
  · intro t ht
    rw [hcnt] at ht
    have hne : t ≠ s.rt.taskCount := by omega
    rw [hcn, update_of_ne hne]
    exact h.made t (by omega)
  · rw [hser]
    omega
  · omega
  · rw [hcs, hser]
    exact h.late_erase
  · rw [← hs']
    refine h.answer fun hl => ?_
    rw [h.not_late hcl (by simp [hpc])] at hl
    cases hl

theorem Counted.operation (h : Counted s) (hcl : s.calls[i]? = some call)
    (hop : Operation s i call s') : Counted s' := by
  have hla : call.pc ≠ .shutdown → call.late = false := h.not_late hcl
  have hlt := h.lt_modulus
  cases hop with
  | refuse hpc hst =>
    have hadd : call.pc.added = false := by
      cases hc : call.pc <;> simp_all [SpawnPc.added, SpawnPc.allocated]
    refine h.giveUp hcl s.server.activeConnections (by simp [hadd]) fun hl => ?_
    refine hst.resolve_right fun hno => ?_
    rw [hla hno.2] at hl
    cases hl
  | pass hpc hreq =>
    refine h.goOn hcl ?_ s.server.activeConnections (by simp [hpc, SpawnPc.added])
      (.inl (by simp [hpc, SpawnPc.allocated]))
    by_contra hl
    have := (h.late call (mem_of_getElem? hcl) (by simpa using hl)).2
    rw [hreq] at this
    cases this
  | allow hpc _ =>
    exact h.goOn hcl (hla (by simp [hpc])) s.server.activeConnections
      (by simp [hpc, SpawnPc.added]) (.inl (by simp [hpc, SpawnPc.allocated]))
  | calloc hpc hrec =>
    exact h.goOn hcl (hla (by simp [hpc])) s.server.activeConnections
      (by simp [hpc, SpawnPc.added]) (.inr hrec)
  | add hpc =>
    -- the record of this call is not counted by `added`, so there is room for one more
    have hrm : s.server.activeConnections + 1 < Word.modulus := by
      have hlt := callsAt_added_lt hcl hpc
      have hact := h.active
      have hrc := h.records
      have hmax : Word.sizeMax < Word.modulus := by decide
      omega
    refine h.goOn hcl (hla (by simp [hpc])) _ ?_ (.inl (by simp [hpc, SpawnPc.allocated]))
    rw [Word.add_of_lt hrm]
    simp [hpc, SpawnPc.added]
  | spawn hpc hr hwho => exact h.connect hcl hpc hr hwho
  | fail hpc =>
    exact h.goOn hcl (hla (by simp [hpc])) s.server.activeConnections
      (by simp [hpc, SpawnPc.added]) (.inl (by simp [hpc, SpawnPc.allocated]))
  | sub hpc =>
    have hpos : 0 < s.server.activeConnections := by
      have hone : 0 < s.callsAt SpawnPc.added :=
        countP_pos_iff.mpr ⟨call, mem_of_getElem? hcl, by simp [hpc, SpawnPc.added]⟩
      rw [h.active]
      omega
    refine h.giveUp hcl _ ?_ fun hl => ?_
    · rw [hpc]
      exact Word.sub_one_add_one hpos hlt
    · rw [hla (by simp [hpc])] at hl
      cases hl

theorem Counted.pos {t : TaskId} {k : Connection} (h : Counted s) (hk : s.connections t = some k)
    (hsta : k.stage ≠ .left) : t < s.rt.taskCount ∧ 0 < s.server.activeConnections := by
  have hlt : t < s.rt.taskCount := by
    by_contra hge
    rw [h.made t (Nat.le_of_not_lt hge)] at hk
    cases hk
  have hone : s.holding ≠ 0 :=
    Total.count_pos (Finset.mem_range.mpr hlt) (by simp [State.connected, hk, hsta])
  have hact := h.active
  exact ⟨hlt, by omega⟩

theorem Counted.stage {t : TaskId} {k : Connection} (k' : Connection) (h : Counted s) (hk : s.connections t = some k)
    (hsta : k.stage ≠ .left)
    (hcn : s'.connections = update s.connections t (some k'))
    (hsys : s'.sys = s.sys) (hcs : s'.calls = s.calls) (hans : s'.answers = s.answers)
    (hreq : s'.server.shutdownRequested = s.server.shutdownRequested)
    (hn : s'.server.activeConnections + 1 =
      s.server.activeConnections + (decide (k'.stage ≠ .left)).toNat) : Counted s' := by
  obtain ⟨hlt, hpos⟩ := h.pos hk hsta
  have hcnt : s'.rt.taskCount = s.rt.taskCount := by unfold State.rt; rw [hsys]
  have hhol := holding_setConnection hlt hk hcnt hcn
  have hat : ∀ q, s'.callsAt q = s.callsAt q := fun q => by unfold State.callsAt; rw [hcs]
  have hact := h.active
  have hrc := h.records
  have hbit := Bool.toNat_le (decide (k'.stage ≠ .left))
  rw [decide_eq_true hsta, Bool.toNat_true] at hhol
  refine ⟨?_, ?_, ?_, ?_, ?_, ?_⟩
  · unfold rt
    rw [hsys]
    exact h.sound
  · intro u hu
    rw [hcnt] at hu
    have hne : u ≠ t := (Nat.lt_of_lt_of_le hlt hu).ne'
    rw [hcn, update_of_ne hne]
    exact h.made u hu
  · rw [hat]
    omega
  · rw [hat]
    omega
  · rw [hcs, hreq]
    exact h.late
  · rw [hans]
    exact h.answers

theorem Counted.countOut {t : TaskId} {k : Connection} {n : ℕ} (h : Counted s)
    (hk : s.connections t = some k) (hsta : k.stage ≠ .left)
    (hn : n + 1 = s.server.activeConnections) :
    Counted ((s.setActiveConnections n).setConnection t { k with stage := .left }) :=
  h.stage { k with stage := .left } hk hsta rfl rfl rfl rfl rfl hn

theorem socketClose_frame (s : State) (fd : Socket) (ok : Bool) :
    (s.socketClose fd ok).sys = s.sys ∧ (s.socketClose fd ok).server = s.server ∧
      (s.socketClose fd ok).calls = s.calls ∧ (s.socketClose fd ok).answers = s.answers ∧
      (s.socketClose fd ok).connections = s.connections := by
  unfold socketClose
  split_ifs <;> exact ⟨rfl, rfl, rfl, rfl, rfl⟩

theorem Counted.step {a : Action} (h : Counted s) (hs : step s a = some s') : Counted s' := by
  unfold Http.step at hs
  cases a with
  | sched a =>
    dsimp only at hs
    split_ifs at hs
    obtain ⟨sys, hsys, rfl⟩ := map_eq_some_iff.mp hs
    have hle := Sched.taskCount_step h.sound hsys
    have hhol : ({ s with sys := sys } : State).holding = s.holding :=
      holding_congr (fun _ => rfl) hle h.made
    refine ⟨Sched.sound_step hsys h.sound, fun t ht => h.made t (hle.trans ht), ?_, ?_, h.late, h.answers⟩
    · rw [hhol]
      exact h.active
    · rw [hhol]
      exact h.records
  | accept =>
    cases hs
    exact ⟨h.sound, h.made, h.active, h.records, h.late, h.answers⟩
  | requestShutdown =>
    cases hs
    exact ⟨h.sound, h.made, h.active, h.records, fun c hc hl => ⟨(h.late c hc hl).1, rfl⟩, h.answers⟩
  | enter c fd =>
    dsimp only at hs
    split_ifs at hs
    cases hs
    have hat : ∀ q : SpawnPc → Bool, q .shutdown = false →
        ({ s with calls := s.calls ++ [⟨c, fd, s.server.shutdownRequested, .shutdown⟩] } : State).callsAt q =
          s.callsAt q := by
      intro q hq
      unfold callsAt
      rw [countP_append]
      simp [hq]
    refine ⟨h.sound, h.made, ?_, ?_, ?_, h.answers⟩
    · rw [hat SpawnPc.added rfl]
      exact h.active
    · rw [hat SpawnPc.allocated rfl]
      exact h.records
    · intro x hx hl
      rcases mem_append.mp hx with hmem | hmem
      · exact h.late x hmem hl
      · obtain rfl := mem_singleton.mp hmem
        exact ⟨rfl, hl⟩
  | next i ok =>
    obtain ⟨call, hcl, hop⟩ := nextOperation_cases hs
    exact h.operation hcl hop
  | closeFd p ok =>
    obtain ⟨t, k, -, hk, hsta, rfl⟩ := closeFd_cases hs
    obtain ⟨h1, h2, h3, h4, h5⟩ := socketClose_frame s k.fd ok
    refine h.stage { k with stage := .closed } hk (by simp [hsta]) ?_ h1 h3 h4 ?_ ?_
    · show update (s.socketClose k.fd ok).connections t _ = _
      rw [h5]
    · show (s.socketClose k.fd ok).server.shutdownRequested = _
      rw [h2]
    · show (s.socketClose k.fd ok).server.activeConnections + 1 = _
      rw [h2]
      rfl
  | leave p =>
    obtain ⟨t, k, -, hk, hsta, rfl⟩ := leave_cases hs
    obtain ⟨-, hpos⟩ := h.pos hk (by simp [hsta])
    exact h.countOut hk (by simp [hsta]) (Word.sub_one_add_one hpos h.lt_modulus)

theorem Initial.counted {n max : ℕ} (h : Initial n max s) : Counted s := by
  have hsou := h.sys.sound
  have hhol : s.holding = 0 := Total.count_eq_zero.mpr fun t _ => by
    rw [h.eq]
    rfl
  have hat : ∀ q, s.callsAt q = 0 := fun q => by
    rw [h.eq]
    rfl
  refine ⟨hsou, ?_, ?_, ?_, ?_, ?_⟩
  · rw [h.eq]
    exact fun _ _ => rfl
  · rw [hhol, hat, h.eq]
  · rw [hhol, hat]
    exact Nat.zero_le _
  · rw [h.eq]
    exact fun c hc => absurd hc (not_mem_nil)
  · rw [h.eq]
    exact fun x hx => absurd hx (not_mem_nil)

theorem counted_run {n max : ℕ} {as : List Action} (hnt : Initial n max s)
    (hrun : Trans.run step s as = some s') : Counted s' :=
  Trans.run_invariant (fun _ _ _ hs h => h.step hs) hrun hnt.counted

/-! ## The limit -/

def Roomy (s : State) : Action → Prop
  | .next i _ => ∀ call, s.calls[i]? = some call → call.pc = .limit →
      s.server.activeConnections < s.server.maxConnections →
      s.server.activeConnections + s.callsAt SpawnPc.passed < s.server.maxConnections
  | _ => True

structure Limited (limit : ℕ) (s : State) : Prop where
  counted : Counted s
  max : s.server.maxConnections = limit
  room : s.server.activeConnections + s.callsAt SpawnPc.passed ≤ limit

theorem room_set {pc : SpawnPc} (hcl : s.calls[i]? = some call)
    (hcs : s'.calls = s.calls.set i { call with pc := pc })
    (hle : s'.server.activeConnections + pc.passed.toNat ≤
      s.server.activeConnections + call.pc.passed.toNat) :
    s'.server.activeConnections + s'.callsAt SpawnPc.passed ≤
      s.server.activeConnections + s.callsAt SpawnPc.passed := by
  have hat := callsAt_set SpawnPc.passed hcl hcs
  omega

theorem room_erase (hcl : s.calls[i]? = some call) (hcs : s'.calls = s.calls.eraseIdx i)
    (hle : s'.server.activeConnections ≤ s.server.activeConnections + call.pc.passed.toNat) :
    s'.server.activeConnections + s'.callsAt SpawnPc.passed ≤
      s.server.activeConnections + s.callsAt SpawnPc.passed := by
  have hat := callsAt_erase SpawnPc.passed hcl hcs
  omega

theorem Counted.sub_le (h : Counted s) (hpos : 0 < s.server.activeConnections) :
    Word.sub s.server.activeConnections 1 ≤ s.server.activeConnections := by
  have hsub := Word.sub_one_add_one hpos h.lt_modulus
  omega

theorem Operation.maxConnections (hop : Operation s i call s') :
    s'.server.maxConnections = s.server.maxConnections := by
  cases hop with
  | add _ | sub _ => rw [State.setActiveConnections_maxConnections]
  | _ => rfl

theorem Operation.limit (hop : Operation s i call s') (hcl : s.calls[i]? = some call)
    (hpc : call.pc = .limit) :
    s'.server.activeConnections + s'.callsAt SpawnPc.passed ≤
      s.server.activeConnections + s.callsAt SpawnPc.passed + 1 := by
  cases hop with
  | refuse _ _ =>
    refine Nat.le_succ_of_le ?_
    exact room_erase hcl rfl (Nat.le_add_right _ _)
  | allow _ _ =>
    have hat := Total.countP_set (fun c : SpawnCall => c.pc.passed) hcl { call with pc := .calloc }
    rw [hpc] at hat
    exact Nat.add_le_add_left (Nat.le_of_eq hat) s.server.activeConnections
  | pass hne _ | calloc hne _ | add hne | spawn hne _ _ | fail hne | sub hne =>
    rw [hpc] at hne
    cases hne

theorem Counted.operation_room (h : Counted s) (hcl : s.calls[i]? = some call)
    (hlim : call.pc = .limit → s.server.activeConnections ≥ s.server.maxConnections)
    (hop : Operation s i call s') :
    s'.server.activeConnections + s'.callsAt SpawnPc.passed ≤
      s.server.activeConnections + s.callsAt SpawnPc.passed := by
  cases hop with
  | refuse hpc _ => exact room_erase hcl rfl (Nat.le_add_right _ _)
  | pass hpc _ => exact room_set hcl rfl (by simp [hpc, SpawnPc.passed])
  | allow hpc hlt =>
    have := hlim hpc
    omega
  | calloc hpc _ => exact room_set hcl rfl (by simp [hpc, SpawnPc.passed])
  | add hpc =>
    refine room_set hcl rfl ?_
    simp only [hpc, SpawnPc.passed, Bool.toNat_true, Bool.toNat_false, Nat.add_zero]
    exact Nat.mod_le _ _
  | spawn hpc _ _ => exact room_erase hcl rfl (Nat.le_add_right _ _)
  | fail hpc => exact room_set hcl rfl (by simp [hpc, SpawnPc.passed])
  | sub hpc =>
    have hone : 0 < s.callsAt SpawnPc.added :=
      countP_pos_iff.mpr ⟨call, mem_of_getElem? hcl, by simp [hpc, SpawnPc.added]⟩
    have hle := h.sub_le (by rw [h.active]; omega)
    exact room_erase hcl rfl (hle.trans (Nat.le_add_right _ _))

theorem Limited.step {limit : ℕ} {a : Action} (h : Limited limit s) (hs : step s a = some s')
    (hrm : Roomy s a) : Limited limit s' := by
  have hctd := h.counted.step hs
  unfold Http.step at hs
  cases a with
  | sched a =>
    dsimp only at hs
    split_ifs at hs
    obtain ⟨sys, -, rfl⟩ := map_eq_some_iff.mp hs
    exact ⟨hctd, h.max, h.room⟩
  | accept =>
    cases hs
    exact ⟨hctd, h.max, h.room⟩
  | requestShutdown =>
    cases hs
    exact ⟨hctd, h.max, h.room⟩
  | enter c fd =>
    dsimp only at hs
    split_ifs at hs
    cases hs
    refine ⟨hctd, h.max, ?_⟩
    have hrm := h.room
    unfold callsAt at hrm ⊢
    rw [countP_append]
    exact hrm
  | next i ok =>
    obtain ⟨call, hcl, hop⟩ := nextOperation_cases hs
    refine ⟨hctd, hop.maxConnections.trans h.max, ?_⟩
    by_cases hps : call.pc = .limit ∧ s.server.activeConnections < s.server.maxConnections
    · have hfr := hrm call hcl hps.1 hps.2
      have htak := hop.limit hcl hps.1
      have hmax := h.max
      omega
    · refine (h.counted.operation_room hcl (fun hpc => ?_) hop).trans h.room
      by_contra hlt
      exact hps ⟨hpc, by omega⟩
  | closeFd p ok =>
    obtain ⟨t, k, -, -, -, rfl⟩ := closeFd_cases hs
    obtain ⟨-, hser, hcs, -⟩ := socketClose_frame s k.fd ok
    refine ⟨hctd, ?_, ?_⟩
    · show (s.socketClose k.fd ok).server.maxConnections = limit
      rw [hser]
      exact h.max
    · show (s.socketClose k.fd ok).server.activeConnections + (s.socketClose k.fd ok).callsAt _ ≤ _
      unfold callsAt
      rw [hser, hcs]
      exact h.room
  | leave p =>
    obtain ⟨t, k, -, hk, hsta, rfl⟩ := leave_cases hs
    obtain ⟨-, hpos⟩ := h.counted.pos hk (by simp [hsta])
    have hle := h.counted.sub_le hpos
    have hrm := h.room
    refine ⟨hctd, ?_, ?_⟩
    · rw [setConnection_server, setActiveConnections_maxConnections]
      exact h.max
    · unfold callsAt at hrm ⊢
      rw [setConnection_server, setActiveConnections_activeConnections,
        State.setConnection_calls, State.setActiveConnections_calls]
      omega

/-- **The connection limit.** -/
theorem connection_limit {n max : ℕ} {as : List Action} (hnt : Initial n max s)
    (hrun : Trans.run step s as = some s') :
    (Trans.Meets step Roomy s as → s'.server.activeConnections ≤ max) ∧
    (∀ c ∈ s'.calls, c.late = true → c.pc = .shutdown) ∧
    (∀ x ∈ s'.answers, x.1.late = true → x.2 = .closed) := by
  have hctd := counted_run hnt hrun
  refine ⟨fun hrm => ?_, fun c hc hl => (hctd.late c hc hl).1, hctd.answers⟩
  have hlm : Limited max s' := by
    refine Trans.run_invariant_of_meets (fun _ _ _ hs ha h => h.step hs ha) hrun hrm
      ⟨hnt.counted, ?_, ?_⟩
    · rw [hnt.eq]
    · rw [hnt.eq]
      exact Nat.zero_le _
  exact (Nat.le_add_right _ _).trans hlm.room

def roomy (s : State) : Action → Bool
  | .next i _ =>
    match s.calls[i]? with
    | some call => call.pc ≠ .limit || s.server.activeConnections ≥ s.server.maxConnections ||
        s.server.activeConnections + s.callsAt SpawnPc.passed < s.server.maxConnections
    | none => true
  | _ => true

theorem roomy_sound (s : State) (a : Action) (h : roomy s a = true) : Roomy s a := by
  cases a with
  | next i ok =>
    intro call hcl hpc hlt
    simp only [roomy, hcl, hpc] at h
    simp at h
    omega
  | _ => trivial

def onePlaceSchedule : List Action :=
  [.accept, .enter .owner 0, .next 0 true, .next 0 true, .next 0 true, .next 0 true, .next 0 true,
    .accept, .enter .owner 1, .next 0 true, .next 0 true,
    .requestShutdown, .enter .owner 1, .next 0 true]

theorem connection_limit_onePlace : ∃ s, Trans.run step
      { sys := { rt := { workerCount := 1 } }, server := { maxConnections := 1 } } onePlaceSchedule =
        some s ∧
    s.answers.map Prod.snd = [.ok, .closed, .closed] ∧ s.server.activeConnections ≤ 1 ∧
    (∀ c ∈ s.calls, c.late = true → c.pc = .shutdown) ∧
    (∀ x ∈ s.answers, x.1.late = true → x.2 = .closed) := by
  have hrm : Trans.Meets step Roomy
      { sys := { rt := { workerCount := 1 } }, server := { maxConnections := 1 } } onePlaceSchedule :=
    Trans.meets_of_checks roomy_sound (by decide +kernel)
  have hvl : (Trans.run step
      { sys := { rt := { workerCount := 1 } }, server := { maxConnections := 1 } }
      onePlaceSchedule).map (fun s => s.answers.map Prod.snd) = some [.ok, .closed, .closed] := by
    decide +kernel
  obtain ⟨s, hs, hans⟩ := map_eq_some_iff.mp hvl
  obtain ⟨hlim, hla⟩ := connection_limit (n := 1) ⟨⟨by decide, rfl⟩, rfl⟩ hs
  exact ⟨s, hs, hans, hlim hrm, hla⟩

def twoWorkersSchedule : List Action :=
  [Action.sched (.owner .spawn), .sched (.owner .spawn), .sched (.owner .run)] ++
    List.replicate 8 (Action.sched (.worker 0 {})) ++
    List.replicate 14 (Action.sched (.worker 1 {})) ++
    [Action.accept, .accept, .enter (.worker 0) 0, .enter (.worker 1) 1, .next 0 true, .next 0 true,
      .next 1 true, .next 1 true, .next 0 true, .next 0 true, .next 0 true, .next 0 true, .next 0 true,
      .next 0 true]

/-- In `twoWorkersSchedule` a server with one place has two connections. -/
theorem two_calls_take_one_place : ∃ s : State, Trans.run step
      { sys := { rt := { workerCount := 2 } }, server := { maxConnections := 1 } } twoWorkersSchedule =
        some s ∧
    s.server.maxConnections = 1 ∧ s.server.activeConnections = 2 ∧
    s.answers.map Prod.snd = [.ok, .ok] ∧ s.connections 2 = some { fd := 0 } ∧
    s.connections 3 = some { fd := 1 } := by
  have hvl : (Trans.run step
      { sys := { rt := { workerCount := 2 } }, server := { maxConnections := 1 } }
      twoWorkersSchedule).map (fun s => (s.server.maxConnections, s.server.activeConnections,
        s.answers.map Prod.snd, s.connections 2, s.connections 3)) =
      some (1, 2, [.ok, .ok], some { fd := 0 }, some { fd := 1 }) := by decide +kernel
  obtain ⟨s, hs, heq⟩ := map_eq_some_iff.mp hvl
  simp only [Prod.mk.injEq] at heq
  exact ⟨s, hs, heq⟩

end Veloco.Http
