import Veloco.Sched.Halted
import Veloco.Sched.RefineCalls

/-!
# What holds in every reachable state
-/

namespace Veloco.Sched

open Function Sched.Runtime

variable {A : Runtime → Label → Prop} {r r' : Runtime} {p : PId} {t : TaskId} {s s' : System}

variable {l : Label} {n : ℕ} {I : Runtime → Prop} {a : Action} {as : List Action} {x : TaskState}

structure Sound (r : Runtime) : Prop where
  inv : Inv r
  timed : Timed r
  control : Control r
  live : Live r

theorem Eff.sound (he : Eff l r r') (h : Sound r) : Sound r' :=
  ⟨he.inv h.inv, he.timed h.timed, he.control h.control, he.live h.inv h.live⟩

theorem Inv.initial (n : ℕ) : Inv { workerCount := n } := by
  have hnil : ∀ pl, ({ workerCount := n } : Runtime).contents pl = [] := by
    intro pl
    cases pl <;> rfl
  refine ⟨⟨fun pl => by simp [hnil], fun {_ k _} hk => by simp [hnil] at hk⟩,
    ⟨fun q => by simp, fun {_ k _} hk => by simp at hk⟩, fun pl t ht => by simp [hnil] at ht,
    fun t _ => ⟨rfl, rfl, rfl, by simp, by simp⟩, fun t => ?_, fun _ _ => rfl, fun t ht => ?_⟩
  · exact ⟨by simp, by simp, by simp, by simp, by simp, by simp, by simp⟩
  · exact absurd ht (Nat.not_lt_zero t)

theorem Sound.initial (hn : 0 < n) : Sound { workerCount := n } where
  inv := Inv.initial n
  timed := ⟨fun p i x hx => by simp [heap] at hx, by simp, by simp, by simp, by simp⟩
  control := ⟨hn, fun _ _ => rfl, by simp, by simp, Nat.zero_le _, fun _ => rfl⟩
  live := by simp [Live, Runtime.live]

theorem Effs.keeps (hs : Effs A r r')
    (hI : ∀ l r r', A r l → Eff l r r' → Sound r → I r → I r') (h : Sound r) (hi : I r) :
    Sound r' ∧ I r' := by
  induction hs with
  | refl => exact ⟨h, hi⟩
  | tail _ he ih =>
    obtain ⟨l, ha, he⟩ := he
    exact ⟨he.sound ih.1, hI l _ _ ha he ih.1 ih.2⟩

def System.Admits (A : Runtime → Label → Prop) (s : System) (a : Action) : Prop :=
  ∀ l, s.Emits a l → A s.rt l

theorem step_keeps (hA : ∀ r, A r .plain)
    (hI : ∀ l r r', A r l → Eff l r r' → Sound r → I r → I r') (hs : step s a = some s')
    (ha : s.Admits A a) (h : Sound s.rt) (hi : I s.rt) : Sound s'.rt ∧ I s'.rt := by
  have hff := step_effs h.inv h.timed h.control.pos h.control.stopping hA ha hs
  exact hff.keeps hI h hi

theorem run_keeps (hA : ∀ r, A r .plain)
    (hI : ∀ l r r', A r l → Eff l r r' → Sound r → I r → I r')
    (hrun : Trans.run step s as = some s') (hmeets : Trans.Meets step (System.Admits A) s as)
    (h : Sound s.rt) (hi : I s.rt) : Sound s'.rt ∧ I s'.rt :=
  Trans.run_invariant_of_meets (I := fun s : System => Sound s.rt ∧ I s.rt)
    (fun _ _ _ hs ha h => step_keeps hA hI hs ha h.1 h.2) hrun hmeets ⟨h, hi⟩

theorem run_keeps_always
    (hI : ∀ l r r', Eff l r r' → Sound r → I r → I r') (hrun : Trans.run step s as = some s')
    (h : Sound s.rt) (hi : I s.rt) : Sound s'.rt ∧ I s'.rt :=
  run_keeps (A := fun _ _ => True) (fun _ => trivial) (fun l r r' _ he => hI l r r' he) hrun
    (Trans.meets_of_forall (fun _ _ _ _ _ => trivial) s) h hi

theorem Initial.sound (h : Initial n s) : Sound s.rt := h.rt ▸ Sound.initial h.pos

theorem sound_step (hs : step s a = some s') (h : Sound s.rt) : Sound s'.rt :=
  (step_keeps (A := fun _ _ => True) (I := fun _ => True) (fun _ => trivial)
    (fun _ _ _ _ _ _ => id) hs (fun _ _ => trivial) h trivial).1

theorem sound_run (hnt : Initial n s)
    (hrun : Trans.run step s as = some s') : Sound s'.rt :=
  (run_keeps_always (I := fun _ => True) (fun _ _ _ _ _ => id) hrun hnt.sound trivial).1

def Runtime.Ended (r : Runtime) (t : TaskId) (x : TaskState) (n : ℕ) : Prop :=
  (r.tasks t).state = x ∧ (r.tasks t).enqueues = n

theorem ended_of_update {u : TaskId} {k : Task} (h : r.Ended t x n)
    (ht : r'.tasks = update r.tasks u k)
    (hk : u = t → k.state = (r.tasks u).state ∧ k.enqueues = (r.tasks u).enqueues) :
    r'.Ended t x n := by
  unfold Runtime.Ended
  rw [ht]
  by_cases hu : t = u
  · rw [hu, update_self, (hk hu.symm).1, (hk hu.symm).2, ← hu]
    exact h
  · rw [update_of_ne hu]
    exact h

theorem Runtime.Ended.wake {w : TaskId} (h : r.Ended t x n)
    (hx : x.terminal = true) : (r.wake w).Ended t x n := by
  by_cases hw : t = w
  · subst hw
    rw [wake_of_not_waiting]
    · exact h
    · rw [h.1]
      rintro rfl
      simp [TaskState.terminal] at hx
    · rw [h.1]
      rintro rfl
      simp [TaskState.terminal] at hx
  · unfold Runtime.Ended
    rw [wake_tasks_ne r hw]
    exact h

theorem Eff.ended (hx : x.terminal = true) (he : Eff l r r')
    (hi : Inv r) (h : r.Ended t x n) : r'.Ended t x n := by
  have hlv : ∀ {u : TaskId}, (r.tasks u).state.terminal = false → u ≠ t := by
    rintro u hu rfl
    rw [h.1, hx] at hu
    simp at hu
  have hbd : ∀ {q u}, (r.ps q).pc = .inTask u → (r.tasks u).point = .body → u ≠ t :=
    fun hpc hpt => hlv (by rw [(hi.inBody hpc hpt).2.2.1]; rfl)
  cases he with
  | cancelHeld _ hs _ | start _ hs _ | endFail _ hs | endDone _ hs _ | endYield _ hs =>
    exact ended_of_update h rfl fun hu => absurd hu (hlv (by rw [hs]; rfl))
  | endWoken _ hw =>
    refine ended_of_update h rfl fun hu => absurd hu (hlv ?_)
    rcases (hi.waits _).pending hw with hs | hs <;> rw [hs] <;> rfl
  | spawn _ _ =>
    refine ended_of_update h rfl fun hu => absurd hu (hlv ?_)
    rw [hi.fresh _ (Nat.le_refl _)]
    rfl
  | yield hpc hpt | parkIo hpc hpt =>
    exact ended_of_update h rfl fun hu => absurd hu (hbd hpc hpt)
  | park hpc hpt _ => exact ended_of_update h rfl fun hu => absurd hu (hbd hpc hpt)
  | arm hpc hpt _ _ _ => exact ended_of_update h rfl fun hu => absurd hu (hbd hpc hpt)
  | release _ | fire _ _ _ | completeIo _ _ =>
    refine Runtime.Ended.wake ?_ hx
    exact ended_of_update h rfl fun _ => ⟨rfl, rfl⟩
  | cancelTask _ hex hl _ =>
    unfold Runtime.cancelTask
    split_ifs
    · exact h
    · exact ended_of_update h rfl fun hu => absurd hu (hlv hl)
  | _ => first
    | exact h
    | exact ended_of_update h rfl fun _ => ⟨rfl, rfl⟩

theorem Inv.not_executed (h : Inv r) (ht : (r.tasks t).state.terminal = true) (p : PId) :
    (r.ps p).pc.executes t = false := by
  by_contra hex
  have hex : (r.ps p).pc.executes t = true := by simpa using hex
  have hlv : (r.tasks t).state.terminal = false := by
    have hmem : t ∈ (r.ps p).pc.tasks := by
      cases hpc : (r.ps p).pc <;> simp_all [Pc.executes, Pc.tasks]
    exact (mem_live.mp (h.live_of_hands hmem (by
      cases hpc : (r.ps p).pc <;> simp_all [Pc.executes, Pc.searching]))).2
  rw [ht] at hlv
  simp at hlv

end Veloco.Sched
