import Veloco.Sched.Waits

/-!
# A wait group counts exactly and releases at zero
-/

namespace Veloco.Sched

open Function Option
open Veloco.Calls Veloco.Placement

variable {p : PId} {t w : TaskId} {s s' s'' : System} {g n : ℕ} {delta : ℤ} {a : Action}

def adds (g : ℕ) (s : System) : Action → Option ℤ
  | .free (.waitGroupAdd g' delta) =>
    if g' = g ∧ (s.waitGroupAdd g delta).2 = .ok then some delta else none
  | _ => none

def waitGroupStep (g : ℕ) : System × ObjectLog ℤ → Action → Option (System × ObjectLog ℤ) :=
  objectStep (.waitGroup g) (adds g)

def Refuses (count : ℕ) (delta : ℤ) (waiting : Prop) : Prop :=
  count + delta < 0 ∨ (Word.sizeMax : ℤ) < count + delta ∨ (0 < delta ∧ waiting)

def addWord (count delta : BitVec 64) (waiting : Bool) : Option (BitVec 64) :=
  let magnitude := -(delta + 1) + 1
  if (delta.slt 0 ∧ magnitude > count) ∨ (BitVec.slt 0 delta ∧ delta > BitVec.allOnes 64 - count) ∨
      (BitVec.slt 0 delta ∧ waiting) then none
  else some (if delta.slt 0 then count - magnitude else count + delta)

theorem magnitude_toNat {delta : BitVec 64} (h : delta.toInt < 0) :
    ((-(delta + 1) + 1).toNat : ℤ) = -delta.toInt := by
  rw [BitVec.toInt_eq_toNat_cond] at h ⊢
  have hlt := delta.isLt
  simp only [BitVec.toNat_add, BitVec.toNat_neg]
  split_ifs at h ⊢ with hsma <;> omega

theorem toNat_of_nonneg {delta : BitVec 64} (h : 0 ≤ delta.toInt) : (delta.toNat : ℤ) = delta.toInt := by
  rw [BitVec.toInt_eq_toNat_cond] at h ⊢
  have hlt := delta.isLt
  split_ifs at h ⊢ with hsma <;> omega

theorem addWord_eq (count delta : BitVec 64) (waiting : Bool) :
    (addWord count delta waiting = none ↔ Refuses count.toNat delta.toInt (waiting = true)) ∧
      ∀ x, addWord count delta waiting = some x → (x.toNat : ℤ) = count.toNat + delta.toInt := by
  have hcnt := count.isLt
  have hmax : (Word.sizeMax : ℤ) = 2 ^ 64 - 1 := by decide
  have hneg : delta.slt 0 = true ↔ delta.toInt < 0 := BitVec.slt_iff_toInt_lt
  have hpos : BitVec.slt 0 delta = true ↔ 0 < delta.toInt := BitVec.slt_iff_toInt_lt
  unfold addWord
  rcases lt_or_ge delta.toInt 0 with hlt | hge
  · have hmag := magnitude_toNat hlt
    generalize -(delta + 1) + 1 = magnitude at hmag ⊢
    -- only the first test can refuse
    have href : Refuses count.toNat delta.toInt (waiting = true) ↔ magnitude > count := by
      unfold Refuses
      rw [hmax, gt_iff_lt, BitVec.lt_def]
      omega
    rw [href]
    simp only [hneg, hpos, hlt, hlt.le.not_gt, true_and, false_and, or_false, if_true]
    refine ⟨⟨fun hx => ?_, fun h => if_pos h⟩, fun x hx => ?_⟩
    · by_contra h
      rw [if_neg h] at hx
      cases hx
    split_ifs at hx with hvr
    cases hx
    have hle : magnitude ≤ count := BitVec.not_lt.mp hvr
    rw [BitVec.toNat_sub_of_le hle]
    rw [BitVec.le_def] at hle
    omega
  · have hnat := toNat_of_nonneg hge
    have hrm : (BitVec.allOnes 64 - count).toNat = 2 ^ 64 - 1 - count.toNat := by
      rw [BitVec.toNat_sub_of_le (by rw [BitVec.le_def, BitVec.toNat_allOnes]; omega),
        BitVec.toNat_allOnes]
    have hvr : delta > BitVec.allOnes 64 - count ↔ (2 ^ 64 - 1 : ℤ) < count.toNat + delta.toInt := by
      rw [gt_iff_lt, BitVec.lt_def, hrm]
      omega
    -- the second test without the sign, which it does not need
    have href : Refuses count.toNat delta.toInt (waiting = true) ↔
        (0 < delta.toInt ∧ delta > BitVec.allOnes 64 - count) ∨ (0 < delta.toInt ∧ waiting = true) := by
      unfold Refuses
      rw [hmax, hvr]
      constructor
      · rintro (h | h | h)
        · omega
        · exact Or.inl ⟨by omega, h⟩
        · exact Or.inr h
      · rintro (h | h)
        · exact Or.inr (Or.inl h.2)
        · exact Or.inr (Or.inr h)
    rw [href]
    simp only [hneg, hpos, hge.not_gt, false_and, false_or, if_false]
    refine ⟨⟨fun hx => ?_, fun h => if_pos h⟩, fun x hx => ?_⟩
    · by_contra h
      rw [if_neg h] at hx
      cases hx
    split_ifs at hx with hrf
    cases hx
    have hft : count.toNat + delta.toNat < 2 ^ 64 := by
      by_contra hbig
      exact hrf (Or.inl ⟨by omega, hvr.mpr (by omega)⟩)
    rw [BitVec.toNat_add, Nat.mod_eq_of_lt hft]
    omega

theorem add_cases (s : System) (g : ℕ) (delta : ℤ) (hmax : s.count g ≤ Word.sizeMax) :
    (Refuses (s.count g) delta (s.rt.waiters (.waitGroup g) ≠ []) ∧
      s.waitGroupAdd g delta = (s, .invalidState)) ∨
    (¬ Refuses (s.count g) delta (s.rt.waiters (.waitGroup g) ≠ []) ∧
      ∃ k : ℕ, (k : ℤ) = s.count g + delta ∧ s.waitGroupAdd g delta =
        (if k = 0 then
          System.releaseAll (.waitGroup g) (fun w => { w with result := .ok })
            (s.rt.waiters (.waitGroup g)).length { s with count := update s.count g k }
        else { s with count := update s.count g k }, .ok)) := by
  have hque : (s.rt.waiters (.waitGroup g)).length ≠ 0 ↔ s.rt.waiters (.waitGroup g) ≠ [] :=
    not_congr List.length_eq_zero_iff
  -- the three tests are those on the integers
  have hts : ((delta < 0 ∧ (-(delta + 1)).toNat + 1 > s.count g) ∨
      (delta > 0 ∧ delta.toNat > Word.sizeMax - s.count g) ∨
      (delta > 0 ∧ (s.rt.waiters (.waitGroup g)).length ≠ 0)) ↔
        Refuses (s.count g) delta (s.rt.waiters (.waitGroup g) ≠ []) := by
    unfold Refuses
    rw [hque]
    refine or_congr (by omega) (or_congr (by omega) Iff.rfl)
  unfold System.waitGroupAdd
  dsimp only
  by_cases href : Refuses (s.count g) delta (s.rt.waiters (.waitGroup g) ≠ [])
  · rw [if_pos (hts.mpr href)]
    exact Or.inl ⟨href, rfl⟩
  · rw [if_neg fun h => href (hts.mp h)]
    generalize hk : (if delta < 0 then s.count g - ((-(delta + 1)).toNat + 1)
      else s.count g + delta.toNat) = k
    refine Or.inr ⟨href, k, ?_, ?_⟩
    · unfold Refuses at href
      split_ifs at hk <;> omega
    · split_ifs <;> rfl

inductive Counts (g : ℕ) (s : System) (a : Action) (s' : System) : Prop
  | kept (hm : Moves (.waitGroup g) s a s' []) (hdd : adds g s a = none)
      (hcnt : s'.count g = s.count g)
      (hdl : s.count g = 0 → s'.rt.waiters (.waitGroup g) = s.rt.waiters (.waitGroup g))
  | passed {t : TaskId} (hm : Moves (.waitGroup g) s a s' [t]) (hdd : adds g s a = none)
      (hzr : s.count g = 0) (hcnt : s'.count g = s.count g)
      (hdl : s'.rt.waiters (.waitGroup g) = [])
  | added {delta : ℤ} (hm : Moves (.waitGroup g) s a s' []) (hdd : adds g s a = some delta)
      (hcnt : (s'.count g : ℤ) = s.count g + delta) (hmax : s'.count g ≤ Word.sizeMax)
      (hsm : s'.count g ≠ 0)
  | ended {delta : ℤ} (hm : Moves (.waitGroup g) s a s' (s.rt.waiters (.waitGroup g)))
      (hdd : adds g s a = some delta) (hcnt : (s'.count g : ℤ) = s.count g + delta)
      (hzr : s'.count g = 0) (hdl : s'.rt.waiters (.waitGroup g) = [])
      (hrel : ∀ t ∈ s.rt.waiters (.waitGroup g), (s'.wait t).result = .ok ∧
        (s'.rt.tasks t).causes = (s.rt.tasks t).causes + 1)

theorem adds_of_not_touches (h : a.touches (.waitGroup g) = false) : adds g s a = none := by
  cases a with
  | free c =>
    cases c with
    | waitGroupAdd g' delta =>
      have hne : g' ≠ g := by
        rintro rfl
        exact absurd rfl (of_decide_eq_false h)
      exact if_neg fun hand => hne hand.1
    | _ => rfl
  | worker | call | owner => rfl

theorem wait_counts (hdl : s.count g = 0 → s.rt.waiters (.waitGroup g) = [])
    (hpc : (s.rt.ps p).pc = .inTask t) :
    Counts g s (.call p (.waitGroupWait g)) (s.waitGroupWait g t).1 := by
  by_cases hzr : s.count g = 0
  · have hcs := waitCalls_call (q := .waitGroup g) (c := .waitGroupWait g) hpc
      (by simp [Call.waitsAt])
    have hwt : s.waitGroupWait g t = (s, some .ok) := by
      unfold System.waitGroupWait
      exact if_pos hzr
    rw [show s.call p t (.waitGroupWait g) = s.waitGroupWait g t from rfl, hwt] at hcs
    rw [hwt]
    exact .passed (.granted hcs rfl (hdl hzr)) rfl hzr rfl (hdl hzr)
  · have hwt : s.waitGroupWait g t = s.park (.waitGroup g) t := by
      unfold System.waitGroupWait
      exact if_neg hzr
    rw [hwt]
    exact .kept (.of_park hpc (by simp [Call.waitsAt]) hwt) rfl
      (park_sameData (.waitGroup g) (.waitGroup g) t s) fun h => absurd h hzr

theorem add_counts (hex : Exclusive s.rt.waiters) (hmax : s.count g ≤ Word.sizeMax) (delta : ℤ) :
    Counts g s (.free (.waitGroupAdd g delta)) (s.waitGroupAdd g delta).1 := by
  have hcs : s.waitCalls (.waitGroup g) (.free (.waitGroupAdd g delta)) = [] := rfl
  have hdd : adds g s (.free (.waitGroupAdd g delta)) =
      if (s.waitGroupAdd g delta).2 = .ok then some delta else none := by
    unfold adds
    simp
  obtain ⟨-, hadd⟩ | ⟨hacc, k, hk, hadd⟩ := add_cases s g delta hmax
  · rw [hadd] at hdd ⊢
    exact .kept (.same hcs rfl) hdd rfl fun _ => rfl
  · rw [hadd] at hdd ⊢
    dsimp only
    by_cases hzr : k = 0
    · rw [if_pos hzr]
      have hall := releaseAll_spec (fun w => { w with result := .ok }) _
        { s with count := update s.count g k } hex (rfl : s.rt.waiters (.waitGroup g) = _)
      generalize System.releaseAll (.waitGroup g) _ _ _ = s' at hall ⊢
      have hcnt : s'.count g = k := by
        rw [hall.count]
        exact update_self _ _ _
      have hdl : s'.rt.waiters (.waitGroup g) = [] := by rw [hall.waiters, update_self]
      have hok : ∀ t ∈ s.rt.waiters (.waitGroup g), (s'.wait t).result = .ok := by
        intro t ht
        rw [hall.wait, if_pos ht]
      refine .ended (.all hcs hdl hok) hdd (by rw [hcnt]; exact hk) (by rw [hcnt, hzr])
        hdl fun t ht => ⟨hok t ht, ?_⟩
      rw [hall.causes, if_pos ht]
    · rw [if_neg hzr]
      have hcnt : (update s.count g k) g = k := update_self _ _ _
      refine .added (.same hcs rfl) hdd ?_ ?_ ?_
      · show ((update s.count g k g : ℕ) : ℤ) = _
        rw [hcnt]
        exact hk
      · show update s.count g k g ≤ _
        rw [hcnt]
        unfold Refuses at hacc
        omega
      · show update s.count g k g ≠ 0
        rw [hcnt]
        exact hzr

theorem counts_step (h : Inv s.rt) (hdl : s.count g = 0 → s.rt.waiters (.waitGroup g) = [])
    (hmax : s.count g ≤ Word.sizeMax) (hst : step s a = some s') : Counts g s a s' := by
  cases ha : a.touches (.waitGroup g) with
  | false =>
    have hsa := sameAt_step h (by simp) ha hst
    exact .kept (.of_sameAt ha hsa) (adds_of_not_touches ha) hsa.data fun _ => hsa.waiters
  | true =>
    obtain ⟨p, e, rfl⟩ | ⟨p, t, call, rfl, hpc, -, rfl⟩ | ⟨call, rfl, rfl⟩ | ⟨call, rfl⟩ :=
      step_cases hst
    · cases ha
    · cases call with
      | waitGroupWait g' =>
        obtain rfl : g = g' := by simpa [Action.touches, Call.touches] using ha
        exact wait_counts hdl hpc
      | _ => simp [Action.touches, Call.touches] at ha
    · cases call with
      | waitGroupAdd g' delta =>
        obtain rfl : g = g' := by simpa [Action.touches, FreeCall.touches] using ha
        exact add_counts h.queues hmax delta
      | _ => simp [Action.touches, FreeCall.touches] at ha
    · cases ha

structure WaitGroupOk (g : ℕ) (x : System × ObjectLog ℤ) : Prop where
  sound : Sound x.1.rt
  waits : Waits (.waitGroup g) x.1 x.2
  idle : x.1.count g = 0 → x.1.rt.waiters (.waitGroup g) = []
  sum : (x.1.count g : ℤ) = x.2.acts.sum
  bounded : x.1.count g ≤ Word.sizeMax

section Runs

variable {x y : System × ObjectLog ℤ} {log log' : ObjectLog ℤ} {as bs : List Action}

theorem WaitGroupOk.initial (hnt : Initial n s) (hzr : s.count g = 0) : WaitGroupOk g (s, {}) := by
  refine ⟨hnt.sound, .initial hnt, fun _ => ?_, ?_, ?_⟩
  · show s.rt.waiters _ = []
    rw [hnt.rt]
  · show ((s.count g : ℕ) : ℤ) = 0
    rw [hzr]
    rfl
  · show s.count g ≤ _
    rw [hzr]
    exact Nat.zero_le _

structure Ends (g : ℕ) (x y : System × ObjectLog ℤ) : Prop where
  empty : y.1.rt.waiters (.waitGroup g) = []
  order : y.2.granted = x.2.granted ++ x.1.rt.waiters (.waitGroup g)
  released : ∀ t ∈ x.1.rt.waiters (.waitGroup g), (y.1.wait t).result = .ok ∧
    (y.1.rt.tasks t).causes = (x.1.rt.tasks t).causes + 1

theorem acts_sum {o : Option ℤ} (h : adds g x.1 a = o) :
    (x.2.next (.waitGroup g) (adds g) x.1 a s').acts.sum = x.2.acts.sum + o.getD 0 := by
  subst h
  show (x.2.acts ++ _).sum = _
  rw [List.sum_append]
  cases adds g x.1 a with
  | none => rfl
  | some delta => simp

theorem WaitGroupOk.step (h : WaitGroupOk g x) (hst : waitGroupStep g x a = some y) :
    WaitGroupOk g y ∧ x.2.granted <+: y.2.granted ∧
      (x.1.count g ≠ 0 → y.1.count g = 0 → Ends g x y) := by
  obtain ⟨s', hs, rfl⟩ := map_eq_some_iff.mp hst
  have hex := h.sound.inv.queues
  have hsum := h.sum
  have hbou := h.bounded
  cases counts_step h.sound.inv h.idle hbou hs with
  | kept hm hdd hcnt hdl =>
    obtain ⟨hwai, hgra⟩ := h.waits.move (adds g) hex hm
    refine ⟨⟨sound_step hs h.sound, hwai, fun hzr => ?_, ?_, ?_⟩, ⟨_, hgra.symm⟩,
      fun hne hzr => ?_⟩
    · rw [hcnt] at hzr
      exact (hdl hzr).trans (h.idle hzr)
    · rw [acts_sum hdd, hcnt]
      simpa using hsum
    · rw [hcnt]
      exact hbou
    · rw [hcnt] at hzr
      exact absurd hzr hne
  | passed hm hdd hzr hcnt hdl =>
    obtain ⟨hwai, hgra⟩ := h.waits.move (adds g) hex hm
    refine ⟨⟨sound_step hs h.sound, hwai, fun _ => hdl, ?_, ?_⟩, ⟨_, hgra.symm⟩,
      fun hne _ => absurd hzr hne⟩
    · rw [acts_sum hdd, hcnt]
      simpa using hsum
    · rw [hcnt]
      exact hbou
  | added hm hdd hcnt hmax hsm =>
    obtain ⟨hwai, hgra⟩ := h.waits.move (adds g) hex hm
    refine ⟨⟨sound_step hs h.sound, hwai, fun hzr => absurd hzr hsm, ?_, hmax⟩,
      ⟨_, hgra.symm⟩, fun _ hzr => absurd hzr hsm⟩
    rw [acts_sum hdd, hcnt, hsum]
    rfl
  | ended hm hdd hcnt hzr hdl hrel =>
    obtain ⟨hwai, hgra⟩ := h.waits.move (adds g) hex hm
    refine ⟨⟨sound_step hs h.sound, hwai, fun _ => hdl, ?_, ?_⟩, ⟨_, hgra.symm⟩,
      fun _ _ => ⟨hdl, hgra, hrel⟩⟩
    · rw [acts_sum hdd, hcnt, hsum]
      rfl
    · rw [hzr]
      exact Nat.zero_le _

theorem add_refused_iff (hmax : s.count g ≤ Word.sizeMax) (delta : ℤ) :
    ((s.waitGroupAdd g delta).2 ≠ .ok ↔
        Refuses (s.count g) delta (s.rt.waiters (.waitGroup g) ≠ [])) ∧
      ((s.waitGroupAdd g delta).2 ≠ .ok → s.waitGroupAdd g delta = (s, .invalidState)) := by
  obtain ⟨href, hadd⟩ | ⟨hacc, k, -, hadd⟩ := add_cases s g delta hmax
  · rw [hadd]
    exact ⟨⟨fun _ => href, fun _ => by simp⟩, fun _ => rfl⟩
  · rw [hadd]
    exact ⟨⟨fun h => absurd rfl h, fun h => absurd h hacc⟩, fun h => absurd rfl h⟩

theorem addWord_agrees (hex : Exclusive s.rt.waiters) (hmax : s.count g ≤ Word.sizeMax)
    (delta : BitVec 64) :
    addWord (BitVec.ofNat 64 (s.count g)) delta (decide (s.rt.waiters (.waitGroup g) ≠ [])) =
      if (s.waitGroupAdd g delta.toInt).2 = .ok then
        some (BitVec.ofNat 64 ((s.waitGroupAdd g delta.toInt).1.count g))
      else none := by
  have hnat : (BitVec.ofNat 64 (s.count g)).toNat = s.count g := by
    rw [BitVec.toNat_ofNat]
    apply Nat.mod_eq_of_lt
    have hlt : Word.sizeMax < 2 ^ 64 := by decide
    omega
  obtain ⟨hnn, hsm⟩ := addWord_eq (BitVec.ofNat 64 (s.count g)) delta
    (decide (s.rt.waiters (.waitGroup g) ≠ []))
  rw [hnat, decide_eq_true_iff, ← (add_refused_iff hmax delta.toInt).1] at hnn
  by_cases hok : (s.waitGroupAdd g delta.toInt).2 = .ok
  · rw [if_pos hok]
    cases hwr : addWord (BitVec.ofNat 64 (s.count g)) delta
        (decide (s.rt.waiters (.waitGroup g) ≠ [])) with
    | none => exact absurd hok (hnn.mp hwr)
    | some x =>
      -- both hold the sum
      have hx := hsm x hwr
      rw [hnat] at hx
      have hcnt : ((s.waitGroupAdd g delta.toInt).1.count g : ℤ) = s.count g + delta.toInt := by
        cases add_counts hex hmax delta.toInt with
        | kept hm hdd | passed hm hdd =>
          have had : adds g s (.free (.waitGroupAdd g delta.toInt)) = some delta.toInt :=
            if_pos ⟨rfl, hok⟩
          rw [had] at hdd
          cases hdd
        | added hm hdd hcnt | ended hm hdd hcnt =>
          have had : adds g s (.free (.waitGroupAdd g delta.toInt)) = some delta.toInt :=
            if_pos ⟨rfl, hok⟩
          rw [had] at hdd
          rw [hcnt, some.inj hdd]
      congr 1
      apply BitVec.eq_of_toNat_eq
      rw [BitVec.toNat_ofNat, Nat.mod_eq_of_lt]
      · omega
      · have hlt := x.isLt
        omega
  · rw [if_neg hok]
    exact hnn.mpr hok

/-- **A wait group counts exactly and releases at zero.** -/
theorem wait_group_of_run (hnt : Initial n s) (hzr : s.count g = 0)
    (hrun : Trans.run (waitGroupStep g) (s, {}) as = some (s', log)) :
    (s'.count g : ℤ) = log.acts.sum ∧ s'.count g ≤ Word.sizeMax ∧
      (∀ delta, ((s'.waitGroupAdd g delta).2 ≠ .ok ↔
          Refuses (s'.count g) delta (s'.rt.waiters (.waitGroup g) ≠ [])) ∧
        ((s'.waitGroupAdd g delta).2 ≠ .ok → s'.waitGroupAdd g delta = (s', .invalidState))) ∧
      (∀ delta : BitVec 64,
        addWord (BitVec.ofNat 64 (s'.count g)) delta (decide (s'.rt.waiters (.waitGroup g) ≠ [])) =
          if (s'.waitGroupAdd g delta.toInt).2 = .ok then
            some (BitVec.ofNat 64 ((s'.waitGroupAdd g delta.toInt).1.count g))
          else none) ∧
      (s'.rt.waiters (.waitGroup g) ≠ [] → 0 < s'.count g) ∧
      log.queued = log.handed ++ s'.rt.waiters (.waitGroup g) ∧
      InOrder grants log.waits ∧
      ∀ a y, waitGroupStep g (s', log) a = some y → log.granted <+: y.2.granted ∧
        (s'.count g ≠ 0 → y.1.count g = 0 → Ends g (s', log) y) := by
  have hok : WaitGroupOk g (s', log) := Trans.run_invariant (fun _ _ _ hst h => (h.step hst).1) hrun
    (WaitGroupOk.initial hnt hzr)
  have hbou : s'.count g ≤ Word.sizeMax := hok.bounded
  refine ⟨hok.sum, hbou, fun delta => add_refused_iff hbou delta,
    fun delta => addWord_agrees hok.sound.inv.queues hbou delta, fun hne => ?_, hok.waits.fifo,
    hok.waits.order, fun a y hst => (hok.step hst).2⟩
  by_contra hpos
  exact hne (hok.idle (Nat.eq_zero_of_not_pos hpos))

def groupSchedule : List Action :=
  [Action.owner .spawn, .owner .run, .free (.waitGroupAdd 0 2)] ++
    List.replicate 8 (Action.worker 0 {}) ++
    [Action.call 0 (.waitGroupWait 0), .free (.waitGroupAdd 0 (-1)), .free (.waitGroupAdd 0 (-2))]

theorem wait_group_of_run_done : ∃ s log,
    Trans.run (waitGroupStep 0) ({ rt := { workerCount := 1 } }, {}) groupSchedule = some (s, log) ∧
    log.acts = [2, -1] ∧ s.count 0 = 1 ∧ s.rt.waiters (.waitGroup 0) = [0] ∧
    ∃ y, waitGroupStep 0 (s, log) (.free (.waitGroupAdd 0 (-1))) = some y ∧ y.1.count 0 = 0 ∧
      y.2.granted = [0] := by
  have hvl : (Trans.run (waitGroupStep 0) ({ rt := { workerCount := 1 } }, {}) groupSchedule).map
      (fun x => (x.2.acts, x.2.granted, x.1.rt.waiters (.waitGroup 0),
        (waitGroupStep 0 x (.free (.waitGroupAdd 0 (-1)))).map fun y => y.1.count 0)) =
        some ([2, -1], [], [0], some 0) := by rfl
  obtain ⟨⟨s, log⟩, hs, heq⟩ := map_eq_some_iff.mp hvl
  obtain ⟨hct, hgra, hws, hls⟩ : log.acts = [2, -1] ∧ log.granted = [] ∧
      s.rt.waiters (.waitGroup 0) = [0] ∧
      (waitGroupStep 0 (s, log) (.free (.waitGroupAdd 0 (-1)))).map (fun y => y.1.count 0) = some 0 := by
    simpa only [Prod.mk.injEq] using heq
  obtain ⟨y, hy, hzr⟩ := map_eq_some_iff.mp hls
  have hnt : Initial 1 { rt := { workerCount := 1 } } := ⟨by decide, rfl⟩
  obtain ⟨hsum, -, -, -, -, -, -, hnx⟩ := wait_group_of_run hnt rfl hs
  have hcnt : s.count 0 = 1 := by
    rw [hct, show ([2, -1] : List ℤ).sum = 1 from rfl] at hsum
    omega
  have hnd := (hnx _ y hy).2 (by omega) hzr
  refine ⟨s, log, hs, hct, hcnt, hws, y, hy, hzr, ?_⟩
  rw [hnd.order]
  show log.granted ++ s.rt.waiters _ = _
  rw [hgra, hws]
  rfl

end Runs

end Veloco.Sched
