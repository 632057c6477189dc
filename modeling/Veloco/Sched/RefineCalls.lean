import Veloco.Sched.RefineStep

/-!
# Every call is a sequence of effects
-/

namespace Veloco.Sched

open Function Option Sched.Runtime
open Veloco.TimerHeap (Heap Removed)

variable {A : Runtime → Label → Prop} {r r' : Runtime} {p : PId} {t : TaskId} {s s' : System}

section Calls

variable (hA : ∀ r, A r .plain)

include hA

omit hA in
theorem effs_spawn {l : Label} (hl : l = .ownerSpawn ∨ ∃ p t, (r.ps p).pc = .inTask t)
    (ha : A r l) (hs : r.spawn = some r') : Effs A r r' := by
  unfold spawn at hs
  split_ifs at hs with hsd
  cases hs
  convert Effs.single ha (Eff.spawn (by simpa using hsd) hl) using 1
  simp [enqueueGlobal, setTask, pushGlobal]

theorem effs_yieldTask (hpc : (r.ps p).pc = .inTask t) (hpt : (r.tasks t).point = .body) :
    Effs A r (r.yieldTask t) := by
  unfold yieldTask
  split_ifs
  · exact Effs.refl r
  · exact Effs.plain hA (Eff.yield hpc hpt)

theorem effs_join (hpc : (r.ps p).pc = .inTask t) (hpt : (r.tasks t).point = .body)
    (target : TaskId) : Effs A r (r.join t target).1 := by
  unfold Runtime.join
  split_ifs with hdn hsl hcan
  · exact Effs.refl r
  · exact Effs.refl r
  · exact Effs.refl r
  · refine Effs.plain hA (Eff.park hpc hpt fun u hu => ?_)
    obtain rfl : target = u := by simpa using hu
    simp only [not_or] at hcan
    simp [TaskState.terminal, hdn, hcan.1]

theorem effs_parkForIo (hpc : (r.ps p).pc = .inTask t) (hpt : (r.tasks t).point = .body)
    (io : IoId) : Effs A r (r.parkForIo p t io).1 := by
  unfold parkForIo
  split_ifs
  · exact Effs.plain hA (Eff.parkIo hpc hpt)
  · exact Effs.refl r

theorem effs_completeIo (t : TaskId) : Effs A r (r.completeIo t).1 := by
  unfold completeIo
  split_ifs with hbad
  · exact Effs.refl r
  · simp only [not_or, not_not, Bool.not_eq_false] at hbad
    exact Effs.plain hA (Eff.completeIo hbad.1 hbad.2.1)

theorem effs_timerArm (hpc : (r.ps p).pc = .inTask t) (hpt : (r.tasks t).point = .body)
    (tm : TimerId) (delay now : ℕ) (ok : Bool) (ha : r.canArm t tm = true → A r (.arm t tm)) :
    Effs A r (r.timerArm p t tm delay now ok).1 := by
  unfold timerArm
  by_cases hdelay : delay > Word.sizeMax - now
  · rw [if_pos hdelay]
    exact Effs.refl r
  rw [if_neg hdelay]
  by_cases hcan : r.canArm t tm = false
  · rw [if_pos hcan]
    exact Effs.refl r
  rw [if_neg hcan]
  have hcan : r.canArm t tm = true := by simpa using hcan
  obtain ⟨⟨⟨hact, htm⟩, hrun⟩, -⟩ : (((r.node tm).active = false ∧ (r.timers tm).task = none) ∧
      (r.tasks t).state = .running) ∧ (r.tasks t).executing = true := by
    simpa [canArm] using hcan
  rcases Heap.push_spec { r.heap p with
    node := update r.node tm { r.node tm with deadline := now + delay } } tm ok with
    ⟨hst, hg⟩ | ⟨hst, hadd⟩
  · -- the heap cannot grow: the arm is undone
    convert Effs.plain hA (Eff.armFail (d := now + delay) hpc hpt hact htm) using 1
    dsimp only
    split
    · next g hps => exact absurd (congrArg Prod.fst hps) hst
    · simp [setTask, setTimer, ← hrun]
  · convert Effs.single (ha hcan) (Eff.arm hpc hpt hact htm hadd) using 1
    dsimp only
    split
    · next g hps =>
      have hg := congrArg Prod.snd hps
      dsimp only at hg
      rw [← hg]
      simp [setTask, setTimer, putHeap, setP, heap]
    · next st g hne hps => exact absurd ((congrArg Prod.fst hps).symm.trans hst) hne

theorem effs_timerCancel (h : Timed r) (tm : TimerId) : Effs A r (r.timerCancel tm).1 := by
  unfold timerCancel
  split
  · next p t hp _ =>
    split_ifs with hact
    · have hmem := h.home tm p hp hact
      exact effs_fireTimer hA .cancelled (fun hi => Heap.remove_spec hi hmem) hmem
    · exact Effs.refl r
  · exact Effs.refl r

theorem effs_park {q : WaitQueue} (hpc : (s.rt.ps p).pc = .inTask t)
    (hpt : (s.rt.tasks t).point = .body) (hq : ∀ u, q ≠ .joiners u) :
    Effs A s.rt (s.park q t).1.rt := by
  unfold System.park park
  split_ifs
  · exact Effs.refl _
  · exact Effs.plain hA (Eff.park hpc hpt fun u hu => absurd hu (hq u))

theorem effs_release {q : WaitQueue} {w : TaskId} {r₁ : Runtime} {x : Wait}
    (hpop : s.rt.waitPop q = some (w, r₁)) : Effs A s.rt (s'.release w r₁ x).rt := by
  unfold waitPop at hpop
  split at hpop
  · simp at hpop
  · next v l hq =>
    obtain ⟨rfl, rfl⟩ : v = w ∧ _ = r₁ := by simpa using hpop
    exact Effs.plain hA (Eff.release hq)

theorem effs_releaseAll (q : WaitQueue) (f : Wait → Wait) (n : ℕ) (s : System) :
    Effs A s.rt (System.releaseAll q f n s).rt := by
  induction n generalizing s with
  | zero => exact Effs.refl _
  | succ n ih =>
    unfold System.releaseAll
    split
    · exact Effs.refl _
    · next w r₁ hpop => exact (effs_release hA hpop).trans (ih _)

theorem effs_mutexLock (hpc : (s.rt.ps p).pc = .inTask t) (hpt : (s.rt.tasks t).point = .body)
    (m : ℕ) : Effs A s.rt (s.mutexLock m t).1.rt := by
  unfold System.mutexLock
  split
  · exact Effs.refl _
  · split_ifs
    · exact Effs.refl _
    · exact effs_park hA hpc hpt (by simp)

theorem effs_mutexUnlock (m : ℕ) : Effs A s.rt (s.mutexUnlock m t).1.rt := by
  unfold System.mutexUnlock
  split_ifs
  · exact Effs.refl _
  · split
    · exact Effs.refl _
    · next hpop => exact effs_release hA hpop

theorem effs_semaphoreWait (hpc : (s.rt.ps p).pc = .inTask t) (hpt : (s.rt.tasks t).point = .body)
    (i : ℕ) : Effs A s.rt (s.semaphoreWait i t).1.rt := by
  unfold System.semaphoreWait
  split_ifs
  · exact Effs.refl _
  · exact effs_park hA hpc hpt (by simp)

theorem effs_semaphorePost (i : ℕ) : Effs A s.rt (s.semaphorePost i).1.rt := by
  unfold System.semaphorePost
  split
  · next hpop => exact effs_release hA hpop
  · split_ifs <;> exact Effs.refl _

theorem effs_waitGroupAdd (g : ℕ) (delta : ℤ) : Effs A s.rt (s.waitGroupAdd g delta).1.rt := by
  unfold System.waitGroupAdd
  dsimp only
  split
  · exact Effs.refl _
  · generalize (if delta < 0 then s.count g - ((-(delta + 1)).toNat + 1)
      else s.count g + delta.toNat) = n
    split
    · exact effs_releaseAll hA (.waitGroup g) _ _ { s with count := update s.count g n }
    · exact Effs.refl _

theorem effs_waitGroupWait (hpc : (s.rt.ps p).pc = .inTask t) (hpt : (s.rt.tasks t).point = .body)
    (g : ℕ) : Effs A s.rt (s.waitGroupWait g t).1.rt := by
  unfold System.waitGroupWait
  split_ifs
  · exact Effs.refl _
  · exact effs_park hA hpc hpt (by simp)

theorem effs_channelSend (hpc : (s.rt.ps p).pc = .inTask t) (hpt : (s.rt.tasks t).point = .body)
    (c : ℕ) (value : Value) : Effs A s.rt (s.channelSend c t value).1.rt := by
  have hpr := effs_park (q := .senders c) hA hpc hpt (by simp)
  unfold System.channelSend
  split
  · exact Effs.refl _
  · split
    · next hpop => exact effs_release hA hpop
    · split
      · exact Effs.refl _
      · split
        · next hp =>
          rw [hp] at hpr
          exact hpr
        · next hp =>
          rw [hp] at hpr
          exact hpr

theorem effs_channelReceive (hpc : (s.rt.ps p).pc = .inTask t)
    (hpt : (s.rt.tasks t).point = .body) (c : ℕ) (out : Cell) :
    Effs A s.rt (s.channelReceive c t out).1.rt := by
  have hpr := effs_park (q := .receivers c) hA hpc hpt (by simp)
  unfold System.channelReceive
  split
  · dsimp only
    split
    · next hpop => exact effs_release hA hpop
    · exact Effs.refl _
  · split
    · next hpop => exact effs_release hA hpop
    · split
      · exact Effs.refl _
      · split
        · next hp =>
          rw [hp] at hpr
          exact hpr
        · next hp =>
          rw [hp] at hpr
          exact hpr

theorem effs_channelClose (c : ℕ) : Effs A s.rt (s.channelClose c).1.rt := by
  unfold System.channelClose
  split_ifs
  · exact Effs.refl _
  · have h1 := effs_releaseAll hA (.senders c) (fun w => { w with value := 0, result := .closed })
      (s.rt.waiters (.senders c)).length (s.setChannel c { s.channel c with closed := true })
    exact h1.trans (effs_releaseAll hA _ _ _ _)

end Calls

def System.Emits (s : System) : Action → Label → Prop
  | .worker p _, l => Sched.Emits s.rt p l
  | .call p (.timerArm tm _ _ _), l =>
    ∃ t, (s.rt.ps p).pc = .inTask t ∧ s.rt.canArm t tm = true ∧ l = .arm t tm
  | .owner .spawn, l => l = .ownerSpawn
  | _, _ => False

inductive System.Emission (s : System) : Action → Label → Prop
  | woken {p e t status} (hpc : (s.rt.ps p).pc = .returned t status) :
      Emission s (.worker p e) (.woken t)
  | fail {p e t status} (hpc : (s.rt.ps p).pc = .returned t status)
      (hf : status ≠ .ok ∨ s.rt.fiberDone t = false ∧ (s.rt.tasks t).state = .running) :
      Emission s (.worker p e) (.fail t)
  | runReturn {p e} (hpc : (s.rt.ps p).pc = .runEnd) : Emission s (.worker p e) .runReturn
  | arm {p tm delay now ok t} (hpc : (s.rt.ps p).pc = .inTask t) (hcan : s.rt.canArm t tm = true) :
      Emission s (.call p (.timerArm tm delay now ok)) (.arm t tm)
  | ownerSpawn : Emission s (.owner .spawn) .ownerSpawn

theorem System.Emits.emission {a : Action} {l : Label} (h : s.Emits a l) : s.Emission a l := by
  cases a with
  | worker p e =>
    rcases h with ⟨t, status, hpc, rfl | ⟨rfl, hf⟩⟩ | ⟨hpc, rfl⟩
    · exact .woken hpc
    · exact .fail hpc hf
    · exact .runReturn hpc
  | call p c =>
    cases c with
    | timerArm tm delay now ok =>
      obtain ⟨t, hpc, hcan, rfl⟩ := h
      exact .arm hpc hcan
    | _ => exact h.elim
  | free c => exact h.elim
  | owner c =>
    cases c with
    | spawn =>
      obtain rfl : l = .ownerSpawn := h
      exact .ownerSpawn
    | _ => exact h.elim

theorem step_effs {a : Action} (h : Inv s.rt) (ht : Timed s.rt) (hpos : 0 < s.rt.workerCount)
    (hsp : ∀ p, (s.rt.ps p).pc = .stopping → p = 0) (hA : ∀ r, A r .plain)
    (hE : ∀ l, s.Emits a l → A s.rt l) (hs : step s a = some s') : Effs A s.rt s'.rt := by
  unfold step at hs
  cases a with
  | worker p e =>
    dsimp only at hs
    split_ifs at hs with hlt
    obtain ⟨r', hr, rfl⟩ := map_eq_some_iff.mp hs
    exact effs_workerStep hA h hlt (hsp p) hE hr
  | call p c =>
    dsimp only at hs
    split at hs
    · next t hpc =>
      split_ifs at hs with hpt
      cases hs
      cases c with
      | spawn =>
        simp only [System.call]
        split
        · next r' hr => exact effs_spawn (l := .plain) (Or.inr ⟨p, t, hpc⟩) (hA _) hr
        · exact Effs.refl _
      | yield => exact effs_yieldTask hA hpc hpt
      | join target => exact effs_join hA hpc hpt target
      | mutexLock m => exact effs_mutexLock hA hpc hpt m
      | mutexUnlock m => exact effs_mutexUnlock hA m
      | semaphoreWait i => exact effs_semaphoreWait hA hpc hpt i
      | waitGroupWait g => exact effs_waitGroupWait hA hpc hpt g
      | channelSend c value => exact effs_channelSend hA hpc hpt c value
      | channelReceive c out => exact effs_channelReceive hA hpc hpt c out
      | timerArm tm delay now ok =>
        exact effs_timerArm hA hpc hpt tm delay now ok fun hc => hE _ ⟨t, hpc, hc, rfl⟩
      | parkForIo io => exact effs_parkForIo hA hpc hpt io
      | fiberYield => exact Effs.plain hA (Eff.fiberYield hpc hpt)
      | finish => exact Effs.plain hA (Eff.finish hpc hpt)
    · simp at hs
  | free c =>
    dsimp only at hs
    split_ifs at hs
    cases hs
    cases c with
    | semaphorePost i => exact effs_semaphorePost hA i
    | waitGroupAdd g delta => exact effs_waitGroupAdd hA g delta
    | channelClose c => exact effs_channelClose hA c
    | timerCancel tm => exact effs_timerCancel hA ht tm
    | completeIo t => exact effs_completeIo hA t
    | requestShutdown => exact Effs.plain hA Eff.requestShutdown
  | owner c =>
    dsimp only at hs
    split_ifs at hs with hoff
    cases c with
    | spawn =>
      obtain ⟨r', hr, rfl⟩ := map_eq_some_iff.mp hs
      exact effs_spawn (l := .ownerSpawn) (Or.inl rfl) (hE _ rfl) hr
    | run =>
      obtain ⟨r', hr, rfl⟩ := map_eq_some_iff.mp hs
      unfold runBegin at hr
      split_ifs at hr
      cases hr
      exact Effs.plain hA (Eff.runBegin hoff hpos)
    | shutdown =>
      cases hs
      exact Effs.plain hA (Eff.shutdownBegin hoff)

end Veloco.Sched
