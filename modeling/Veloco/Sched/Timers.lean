import Veloco.Sched.Keep

/-!
# The timer heaps of all Ps
-/

namespace Veloco.Sched

open Function List Sched.Runtime
open Veloco.TimerHeap (Node Heap Added Removed)

variable {r r' : Runtime} {p : PId} {tm : TimerId}

structure Timed (r : Runtime) : Prop where
  indexed : ∀ p, (r.heap p).Indexed
  only : ∀ p q tm, tm ∈ (r.ps p).timers → tm ∈ (r.ps q).timers → p = q
  inHeap : ∀ tm, (r.node tm).active = true → ∃ p, tm ∈ (r.ps p).timers
  home : ∀ tm p, (r.timers tm).p = some p → (r.node tm).active = true → tm ∈ (r.ps p).timers
  armed : ∀ tm w, (r.timers tm).task = some w → (r.node tm).active = true

theorem Timed.active_of_mem (h : Timed r) (hm : tm ∈ (r.ps p).timers) :
    (r.node tm).active = true := by
  obtain ⟨i, hi⟩ := mem_iff_getElem?.mp hm
  exact (h.indexed p i tm hi).1

theorem Timed.weaken (h : Timed r) (hps : ∀ q, (r'.ps q).timers = (r.ps q).timers)
    (hact : ∀ x, (r'.node x).active = (r.node x).active)
    (hidx : ∀ x, (r'.node x).heapIndex = (r.node x).heapIndex)
    (hts : ∀ x w, (r'.timers x).task = some w → (r.timers x).task = some w)
    (hp : ∀ x q, (r'.timers x).p = some q → (r.timers x).p = some q) : Timed r' where
  indexed q i x hx := by
    have hx : (r.ps q).timers[i]? = some x := by rw [← hps q]; exact hx
    show (r'.node x).active = true ∧ (r'.node x).heapIndex = i
    rw [hact, hidx]
    exact h.indexed q i x hx
  only p q x hx hy := h.only p q x (hps p ▸ hx) (hps q ▸ hy)
  inHeap x hx := by
    obtain ⟨q, hq⟩ := h.inHeap x (hact x ▸ hx)
    exact ⟨q, by rw [hps q]; exact hq⟩
  home x q hq hx := by
    rw [hps q]
    exact h.home x q (hp x q hq) (hact x ▸ hx)
  armed x w hw := by
    rw [hact]
    exact h.armed x w (hts x w hw)

theorem Timed.same (h : Timed r) (hps : ∀ q, (r'.ps q).timers = (r.ps q).timers)
    (hnd : r'.node = r.node) (htim : r'.timers = r.timers) : Timed r' :=
  h.weaken hps (fun _ => by rw [hnd]) (fun _ => by rw [hnd])
    (fun _ _ => by rw [htim]; exact id) (fun _ _ => by rw [htim]; exact id)

theorem Timed.removed {g : Heap TimerId} (h : Timed r) (hr : Removed (r.heap p) g tm)
    (hp : (r'.ps p).timers = g.items) (hps : ∀ q, q ≠ p → (r'.ps q).timers = (r.ps q).timers)
    (hnd : r'.node = g.node) (htim : r'.timers = update r.timers tm ⟨none, none⟩) :
    Timed r' := by
  have hbc : ∀ q x, x ∈ (r'.ps q).timers → x ∈ (r.ps q).timers := by
    intro q x hx
    by_cases hq : q = p
    · rw [hq, hp] at hx
      rw [hq]
      exact hr.perm.mem_iff.mpr (mem_cons_of_mem _ hx)
    · rwa [hps q hq] at hx
  have hkeep : ∀ q x, x ≠ tm → x ∈ (r.ps q).timers → x ∈ (r'.ps q).timers := by
    intro q x hne hx
    by_cases hq : q = p
    · rw [hq] at hx
      rw [hq, hp]
      exact (mem_cons.mp (hr.perm.mem_iff.mp hx)).resolve_left hne
    · rwa [hps q hq]
  have hact : ∀ x, (r'.node x).active = true → x ≠ tm ∧ (r.node x).active = true := by
    intro x hx
    rw [hnd] at hx
    have hne : x ≠ tm := fun he => by simp [he, hr.inactive] at hx
    exact ⟨hne, by rw [← hx, hr.active x hne]; rfl⟩
  have hoth : ∀ x, x ≠ tm → r'.timers x = r.timers x := fun x hne => by simp [htim, hne]
  refine ⟨?_, ?_, ?_, ?_, ?_⟩
  · intro q i x hx
    have hx : (r'.ps q).timers[i]? = some x := hx
    show (r'.node x).active = true ∧ (r'.node x).heapIndex = i
    rw [hnd]
    by_cases hq : q = p
    · rw [hq, hp] at hx
      exact hr.indexed i x hx
    · have hmem := hbc q x (mem_of_getElem? hx)
      rw [hps q hq] at hx
      rw [hr.frame x fun hxp => hq (h.only q p x hmem hxp)]
      exact h.indexed q i x hx
  · exact fun a b x ha hb => h.only a b x (hbc a x ha) (hbc b x hb)
  · intro x hx
    obtain ⟨hne, hx⟩ := hact x hx
    obtain ⟨q, hq⟩ := h.inHeap x hx
    exact ⟨q, hkeep q x hne hq⟩
  · intro x q hq hx
    obtain ⟨hne, hx⟩ := hact x hx
    rw [hoth x hne] at hq
    exact hkeep q x hne (h.home x q hq hx)
  · intro x w hw
    have hne : x ≠ tm := fun he => by simp [htim, he] at hw
    rw [hoth x hne] at hw
    rw [hnd, hr.active x hne]
    exact h.armed x w hw

theorem Timed.added {g : Heap TimerId} {d : ℕ} {w : TaskId} (h : Timed r)
    (hdl : (r.node tm).active = false)
    (ha : Added { r.heap p with
      node := update r.node tm { r.node tm with deadline := d } } g tm)
    (hp : (r'.ps p).timers = g.items) (hps : ∀ q, q ≠ p → (r'.ps q).timers = (r.ps q).timers)
    (hnd : r'.node = g.node)
    (htim : r'.timers = update r.timers tm ⟨some w, some p⟩) : Timed r' := by
  have hout : ∀ q, tm ∉ (r.ps q).timers := fun q hq => by simp [h.active_of_mem hq] at hdl
  have hsm : ∀ x, x ≠ tm → (update r.node tm { r.node tm with deadline := d }) x =
      r.node x := fun x hne => update_of_ne hne _ _
  have hbc : ∀ q x, x ∈ (r'.ps q).timers → (x = tm ∧ q = p) ∨ x ∈ (r.ps q).timers := by
    intro q x hx
    by_cases hq : q = p
    · rw [hq, hp] at hx
      rw [hq]
      exact (mem_cons.mp (ha.perm.mem_iff.mp hx)).imp (⟨·, rfl⟩) id
    · rw [hps q hq] at hx
      exact Or.inr hx
  have hkeep : ∀ q x, x ∈ (r.ps q).timers → x ∈ (r'.ps q).timers := by
    intro q x hx
    by_cases hq : q = p
    · rw [hq] at hx
      rw [hq, hp]
      exact ha.perm.mem_iff.mpr (mem_cons_of_mem _ hx)
    · rwa [hps q hq]
  have hin : tm ∈ (r'.ps p).timers := by
    rw [hp]
    exact ha.perm.mem_iff.mpr mem_cons_self
  have hact : ∀ x, x ≠ tm → (r'.node x).active = (r.node x).active := by
    intro x hne
    rw [hnd, ha.active x hne]
    exact congrArg _ (hsm x hne)
  refine ⟨?_, ?_, ?_, ?_, ?_⟩
  · intro q i x hx
    have hx : (r'.ps q).timers[i]? = some x := hx
    show (r'.node x).active = true ∧ (r'.node x).heapIndex = i
    rw [hnd]
    by_cases hq : q = p
    · rw [hq, hp] at hx
      refine ha.indexed (fun j y hy => ?_) (hout p) i x hx
      have hne : y ≠ tm := fun he => hout p (he ▸ mem_of_getElem? hy)
      show ((update r.node tm _) y).active = true ∧ ((update r.node tm _) y).heapIndex = j
      rw [hsm y hne]
      exact h.indexed p j y hy
    · rw [hps q hq] at hx
      have hmem := mem_of_getElem? hx
      have hne : x ≠ tm := fun he => hout q (he ▸ hmem)
      rw [ha.frame x hne fun hxp => hq (h.only q p x hmem hxp)]
      show ((update r.node tm _) x).active = true ∧ ((update r.node tm _) x).heapIndex = i
      rw [hsm x hne]
      exact h.indexed q i x hx
  · intro a b x hxa hxb
    rcases hbc a x hxa with ⟨rfl, rfl⟩ | hxa <;> rcases hbc b x hxb with ⟨hx, rfl⟩ | hxb
    · rfl
    · exact absurd hxb (hout b)
    · exact absurd (hx ▸ hxa) (hout a)
    · exact h.only a b x hxa hxb
  · intro x hx
    by_cases hne : x = tm
    · exact ⟨p, hne ▸ hin⟩
    · obtain ⟨q, hq⟩ := h.inHeap x (hact x hne ▸ hx)
      exact ⟨q, hkeep q x hq⟩
  · intro x q hq hx
    by_cases hne : x = tm
    · rw [hne, htim, update_self] at hq
      obtain rfl : p = q := by simpa using hq
      exact hne ▸ hin
    · rw [htim, update_of_ne hne] at hq
      exact hkeep q x (h.home x q hq (hact x hne ▸ hx))
  · intro x w hw
    by_cases hne : x = tm
    · rw [hnd, hne]
      exact ha.isActive
    · rw [htim, update_of_ne hne] at hw
      rw [hact x hne]
      exact h.armed x w hw

theorem update_congr {α β γ : Type*} [DecidableEq α] {f : α → β} {a : α} {b : β} (g : β → γ)
    (hb : g b = g (f a)) (x : α) : g (update f a b x) = g (f x) := by
  by_cases hx : x = a
  · subst hx
    rw [update_self, hb]
  · rw [update_of_ne hx]

theorem update_some {α β γ : Type*} [DecidableEq α] {f : α → β} {a : α} {b : β} (g : β → Option γ)
    (hb : g b = none) {x : α} {c : γ} (h : g (update f a b x) = some c) :
    g (f x) = some c := by
  by_cases hx : x = a
  · subst hx
    rw [update_self, hb] at h
    simp at h
  · rwa [update_of_ne hx] at h

theorem Timed.setTask (h : Timed r) (t : TaskId) (k : Task) : Timed (r.setTask t k) :=
  h.same (fun _ => rfl) rfl rfl

theorem Timed.setPc (h : Timed r) (p : PId) (b : Pc) : Timed (r.setPc p b) :=
  h.same (update_congr P.timers (by rfl)) rfl rfl

theorem Timed.wake (h : Timed r) (t : TaskId) : Timed (r.wake t) := by
  have hw := r.wake_sameRest t
  exact h.same (fun q => by rw [hw.ps]) hw.node hw.timers

theorem Timed.disarm {g : Heap TimerId} (h : Timed r) (hr : Removed (r.heap p) g tm) :
    Timed (r.disarm p g tm) := by
  refine h.removed hr ?_ (fun q hq => ?_) rfl rfl
  · simp [Runtime.disarm, Runtime.putHeap, Runtime.setTimer]
  · simp [Runtime.disarm, Runtime.putHeap, Runtime.setTimer, hq]

theorem Eff.timed {l : Label} (he : Eff l r r') (h : Timed r) : Timed r' := by
  cases he with
  | arm hpc hpt hact htm hadd =>
    refine h.added hact hadd ?_ (fun q hq => ?_) rfl rfl
    · simp [putHeap, setTimer]
    · simp [putHeap, setTimer, hq]
  | armFail _ _ _ _ =>
    refine h.weaken (fun _ => rfl) (fun x => ?_) (fun x => ?_) (fun x w hw => ?_) fun x q hq => ?_
    · exact update_congr Node.active (by rfl) x
    · exact update_congr Node.heapIndex (by rfl) x
    · exact update_some Timer.task (by rfl) hw
    · exact update_some Timer.p (by rfl) hq
  | clearTask _ _ =>
    refine h.weaken (fun _ => rfl) (fun _ => rfl) (fun _ => rfl) (fun x w hw => ?_) fun x q hq => ?_
    · exact update_some Timer.task (by rfl) hw
    · rw [← hq]
      exact (update_congr Timer.p (by rfl) x).symm
  | clearP _ _ =>
    refine h.weaken (fun _ => rfl) (fun _ => rfl) (fun _ => rfl) (fun x w hw => ?_) fun x q hq => ?_
    · rw [← hw]
      exact (update_congr Timer.task (by rfl) x).symm
    · exact update_some Timer.p (by rfl) hq
  | release _ =>
    refine Timed.wake ?_ _
    exact h.same (fun _ => rfl) rfl rfl
  | fire hrem _ _ => exact ((h.disarm (hrem (h.indexed _))).setTask _ _).wake _
  | fireNone hrem _ _ => exact h.disarm (hrem (h.indexed _))
  | completeIo _ _ =>
    refine Timed.wake ?_ _
    exact h.same (fun _ => rfl) rfl rfl
  | steal _ _ =>
    refine Timed.setPc ?_ _ _
    exact h.same (update_congr P.timers (by rfl)) rfl rfl
  | cancelTask _ _ _ _ =>
    unfold Runtime.cancelTask
    split_ifs
    · exact h
    · exact h.same (fun _ => rfl) rfl rfl
  | _ => first
    | exact h.same (fun _ => rfl) rfl rfl
    | exact h.same (update_congr P.timers (by rfl)) rfl rfl

end Veloco.Sched
