import Veloco.Fibers.Callers

/-!
# The values of resumes and yields
-/

namespace Veloco.Fibers

open Function List Option
open Veloco.Sched (FiberState)

variable {s s' : Sched} {l l' : List Ctx} {f g : FiberId} {k : Fiber} {v w : Long} {c : Ctx}

variable {events mid : List Event} {ops : List Op} {p p' : Phase} {e : Event}
variable {x : Event → Option Long}

inductive Phase where
  | absent
  | fresh
  | running (c : Ctx)
  | woken (c : Ctx) (v : Long)
  | answered (c : Ctx) (w : Long) (ended : Bool)
  | parked
  | finished
  deriving DecidableEq, Repr

def track (f : FiberId) (p : Phase) : Event → Option Phase
  | .created g => if g = f then (match p with | .absent => some .fresh | _ => none) else some p
  | .resume c g v =>
    if g = f then
      (match p with
        | .fresh => some (.running c)
        | .parked => some (.woken c v)
        | _ => none)
    else some p
  | .yieldReturns c v =>
    if c = some f then
      (match p with
        | .woken c' v' => if v = v' then some (.running c') else none
        | _ => none)
    else some p
  | .yield c w =>
    if c = some f then
      (match p with
        | .running c' => some (.answered c' w false)
        | _ => none)
    else some p
  | .ret g w =>
    if g = f then
      (match p with
        | .running c' => some (.answered c' w true)
        | _ => none)
    else some p
  | .resumeReturns c g w =>
    if g = f then
      (match p with
        | .answered c' w' ended =>
          if c = c' ∧ w = w' then some (if ended then .finished else .parked) else none
        | _ => none)
    else some p
  | .destroyed g =>
    if g = f then
      (match p with
        | .fresh | .parked | .finished => some .absent
        | _ => none)
    else some p

def Sched.phase (s : Sched) (l : List Ctx) (f : FiberId) : Phase :=
  if some f ∈ l then .running (s.callerOf (some f))
  else match s.fibers f with
    | none => .absent
    | some k => match k.state with
      | .ready => .fresh
      | .done => .finished
      | _ => .parked

theorem Sched.phase_on (h : some f ∈ l) : s.phase l f = .running (s.callerOf (some f)) := if_pos h

theorem Sched.phase_free (h : some f ∉ l) (hk : s.fibers f = none) : s.phase l f = .absent := by
  rw [Sched.phase, if_neg h, hk]

theorem Sched.phase_off (h : some f ∉ l) (hk : s.fibers f = some k) : s.phase l f =
    match k.state with
    | .ready => .fresh
    | .done => .finished
    | _ => .parked := by
  rw [Sched.phase, if_neg h, hk]

theorem Sched.phase_congr (hmem : some g ∈ l' ↔ some g ∈ l)
    (hon : some g ∈ l → s'.callerOf (some g) = s.callerOf (some g))
    (hoff : some g ∉ l → s'.fibers g = s.fibers g) : s'.phase l' g = s.phase l g := by
  by_cases hg : some g ∈ l
  · rw [Sched.phase_on (hmem.mpr hg), Sched.phase_on hg, hon hg]
  · rw [Sched.phase, Sched.phase, if_neg (fun h => hg (hmem.mp h)), if_neg hg, hoff hg]

theorem mem_cons_some (hg : g ≠ f) : some g ∈ some f :: l ↔ some g ∈ l := by simp [hg]

theorem run_track_other (h : ∀ e ∈ events, ∀ p, track g p e = some p)
    (p : Phase) : Trans.run (track g) p events = some p := by
  induction events with
  | nil => rfl
  | cons e events ih =>
    rw [Trans.run_cons, h e mem_cons_self]
    exact ih fun e' he' => h e' (mem_cons_of_mem e he')

theorem Handed.phase_other {state : FiberState} {point : Point}
    (hh : Handed s f k w state point s') (h : Chained s (some f :: l))
    (hk : s.fibers f = some k) (hg : g ≠ f) : s'.phase l g = s.phase (some f :: l) g := by
  refine Sched.phase_congr (mem_cons_some hg).symm (fun _ => ?_) fun hoff => ?_
  · exact hh.callerOf_eq (by simpa using hg)
  · exact hh.others g hg (h.caller_ne_of_not_mem mem_cons_self hk hoff)

theorem Effect.track (he : Effect s l events s' l') (h : Chained s l)
    (g : FiberId) : Trans.run (track g) (s.phase l g) events = some (s'.phase l' g) := by
  cases he with
  | refused => rfl
  | @created f hfr =>
    by_cases hg : g = f
    · subst hg
      have hl := h.not_mem_of_free hfr
      rw [Sched.phase_free hl hfr, Sched.phase_off hl (update_self _ _ _)]
      simp [Trans.run, Fibers.track]
    · rw [run_track_other (by simp [Fibers.track, Ne.symm hg])]
      refine congrArg some (Sched.phase_congr Iff.rfl (fun _ => ?_) fun _ => ?_).symm
      · simp [Sched.callerOf, hg]
      · exact update_of_ne hg _ _
  | @entered f k v _ hl hk hdn he hcon =>
    by_cases hg : g = f
    · subst hg
      have hsp := (h.parked g k hk hl).stopped
      rw [Sched.phase_off hl hk, Sched.phase_on mem_cons_self, Sched.callerOf_some he.fiber]
      cases hst : k.state with
      | ready => simp [resumeEvents, hst, Trans.run, Fibers.track]
      | suspended => simp [resumeEvents, hst, Trans.run, Fibers.track]
      | running => exact absurd hst hsp
      | done => exact absurd hst hdn
    · rw [run_track_other]
      · refine congrArg some (Sched.phase_congr (mem_cons_some hg) (fun _ => ?_) fun hoff => ?_).symm
        · exact he.callerOf_eq (by simpa using hg)
        · exact he.others g hg fun hcur => hoff (h.current_mem hcur)
      · rw [resumeEvents]
        split <;> simp [Fibers.track, Ne.symm hg]
  | @yielded f k w _ _ hl hk hh =>
    subst hl
    by_cases hg : g = f
    · subst hg
      rw [Sched.phase_on mem_cons_self, Sched.callerOf_some hk,
        Sched.phase_off (nodup_cons.mp h.nodup).1 hh.fiber]
      simp [Trans.run, Fibers.track]
    · rw [run_track_other (by simp [Fibers.track, Ne.symm hg]), hh.phase_other h hk hg]
  | @returned f k w _ _ hl hk hh =>
    subst hl
    by_cases hg : g = f
    · subst hg
      rw [Sched.phase_on mem_cons_self, Sched.callerOf_some hk,
        Sched.phase_off (nodup_cons.mp h.nodup).1 hh.fiber]
      simp [Trans.run, Fibers.track]
    · rw [run_track_other (by simp [Fibers.track, Ne.symm hg]), hh.phase_other h hk hg]
  | @destroyed f k hl hk =>
    by_cases hg : g = f
    · subst hg
      have hsp := (h.parked g k hk hl).stopped
      rw [Sched.phase_off hl hk, Sched.phase_free hl (update_self _ _ _)]
      cases hst : k.state with
      | running => exact absurd hst hsp
      | _ => simp [Trans.run, Fibers.track]
    · rw [run_track_other (by simp [Fibers.track, Ne.symm hg])]
      refine congrArg some (Sched.phase_congr Iff.rfl (fun _ => ?_) fun _ => ?_).symm
      · simp [Sched.callerOf, hg]
      · exact update_of_ne hg _ _

theorem tracked_run {s : System} (hrun : Trans.run step {} ops = some s)
    (hmee : Trans.Meets step System.SparesCallers {} ops) :
    ∃ l, Chained s.sched l ∧
      ∀ g, Trans.run (track g) .absent s.trace = some (s.sched.phase l g) := by
  refine Trans.run_invariant_of_meets (I := fun s : System => ∃ l, Chained s.sched l ∧
    ∀ g, Trans.run (track g) .absent s.trace = some (s.sched.phase l g)) ?_ hrun hmee ?_
  · rintro s op t hs hc ⟨l, hl, htra⟩
    obtain ⟨events, l', htr, he⟩ := step_effect hs hc hl
    refine ⟨l', he.chained hl, fun g => ?_⟩
    rw [htr, Trans.run_append, htra g]
    exact he.track hl g
  · exact ⟨[], Chained.initial, fun g => rfl⟩

/-! ## The two pairings -/

def Event.answer (f : FiberId) : Event → Option Long
  | .yield c w => if c = some f then some w else none
  | .ret g w => if g = f then some w else none
  | _ => none

def Event.sent (f : FiberId) : Event → Option Long
  | .resume _ g v => if g = f then some v else none
  | _ => none

def Event.IsReturn (f : FiberId) (e : Event) : Prop := ∃ c w, e = .resumeReturns c f w

def Event.IsYield (f : FiberId) (e : Event) : Prop := ∃ w, e = .yield (some f) w

def Phase.Awaited (c : Ctx) (p : Phase) : Prop := p = .running c ∨ ∃ v, p = .woken c v

theorem track_awaited (h : track f p e = some p') (he : ¬ e.IsReturn f) (hp : p.Awaited c) :
    e.answer f = none ∧ p'.Awaited c ∨ ∃ w b, e.answer f = some w ∧ p' = .answered c w b := by
  cases e with
  | resumeReturns d g w =>
    have hg : g ≠ f := by
      rintro rfl
      exact he ⟨d, w, rfl⟩
    simp only [track, if_neg hg, some.injEq] at h
    exact .inl ⟨rfl, h ▸ hp⟩
  | _ => rcases hp with rfl | ⟨v, rfl⟩ <;> grind [track, Event.answer, Phase.Awaited]

theorem track_answered {b : Bool}
    (h : track f (.answered c w b) e = some p') (he : ¬ e.IsReturn f) :
    e.answer f = none ∧ p' = .answered c w b := by
  cases e with
  | resumeReturns d g w =>
    have hg : g ≠ f := by
      rintro rfl
      exact he ⟨d, w, rfl⟩
    simp only [track, if_neg hg, some.injEq] at h
    exact ⟨rfl, h.symm⟩
  | _ => grind [track, Event.answer]

theorem filterMap_append_none (he : x e = none) : (mid ++ [e]).filterMap x = mid.filterMap x := by
  simp [filterMap_append, he]

theorem filterMap_append_some
    (he : x e = some v) : (mid ++ [e]).filterMap x = mid.filterMap x ++ [v] := by
  simp [filterMap_append, he]

theorem answers_of_run (hp : p.Awaited c)
    (hrun : Trans.run (track f) p mid = some p') (hmid : ∀ e ∈ mid, ¬ e.IsReturn f) :
    mid.filterMap (Event.answer f) = [] ∧ p'.Awaited c ∨
      ∃ w b, mid.filterMap (Event.answer f) = [w] ∧ p' = .answered c w b := by
  refine Trans.run_history (I := fun mid p' => (∀ e ∈ mid, ¬ e.IsReturn f) →
    mid.filterMap (Event.answer f) = [] ∧ p'.Awaited c ∨
      ∃ w b, mid.filterMap (Event.answer f) = [w] ∧ p' = .answered c w b)
    (fun _ => .inl ⟨rfl, hp⟩) ?_ hrun hmid
  intro mid q e q' hq ih hmid
  have he : ¬ e.IsReturn f := hmid e (by simp)
  rcases ih fun e' he' => hmid e' (mem_append_left _ he') with ⟨hnil, haw⟩ | ⟨w, b, hw, rfl⟩
  · rcases track_awaited hq he haw with ⟨hnn, hawait'⟩ | ⟨w, b, hsm, rfl⟩
    · exact .inl ⟨by rw [filterMap_append_none hnn, hnil], hawait'⟩
    · exact .inr ⟨w, b, by rw [filterMap_append_some hsm, hnil]; rfl, rfl⟩
  · obtain ⟨hnn, rfl⟩ := track_answered hq he
    exact .inr ⟨w, b, by rw [filterMap_append_none hnn, hw], rfl⟩

def Phase.Asleep (p : Phase) : Prop := (∃ c w, p = .answered c w false) ∨ p = .parked

def Phase.Awake : Phase → Prop
  | .answered _ _ ended => ended = true
  | .woken _ _ | .parked => False
  | .absent | .fresh | .running _ | .finished => True

theorem track_awake (h : track f p e = some p') (he : ¬ e.IsYield f) (hp : p.Awake) : p'.Awake := by
  cases e with
  | yield d w =>
    have hd : d ≠ some f := by
      rintro rfl
      exact he ⟨w, rfl⟩
    simp only [track, if_neg hd, some.injEq] at h
    exact h ▸ hp
  | _ => cases p <;> grind [track, Phase.Awake]

theorem track_woken (h : track f (.woken c v) e = some p') :
    e.sent f = none ∧ p' = .woken c v ∨ p'.Awake := by
  cases e <;> grind [track, Phase.Awake, Event.sent]

theorem track_asleep (h : track f p e = some p') (hp : p.Asleep) :
    e.sent f = none ∧ p'.Asleep ∨ (∃ c v, e.sent f = some v ∧ p' = .woken c v) ∨ p'.Awake := by
  rcases hp with ⟨c, w, rfl⟩ | rfl <;> cases e <;>
    grind [track, Phase.Awake, Event.sent, Phase.Asleep]

theorem sent_of_run (hp : p.Asleep)
    (hrun : Trans.run (track f) p mid = some p') (hmid : ∀ e ∈ mid, ¬ e.IsYield f) :
    mid.filterMap (Event.sent f) = [] ∧ p'.Asleep ∨
      (∃ c v, mid.filterMap (Event.sent f) = [v] ∧ p' = .woken c v) ∨ p'.Awake := by
  refine Trans.run_history (I := fun mid p' => (∀ e ∈ mid, ¬ e.IsYield f) →
    mid.filterMap (Event.sent f) = [] ∧ p'.Asleep ∨
      (∃ c v, mid.filterMap (Event.sent f) = [v] ∧ p' = .woken c v) ∨ p'.Awake)
    (fun _ => .inl ⟨rfl, hp⟩) ?_ hrun hmid
  intro mid q e q' hq ih hmid
  have he : ¬ e.IsYield f := hmid e (by simp)
  rcases ih fun e' he' => hmid e' (mem_append_left _ he') with
    ⟨hnil, hasl⟩ | ⟨c, v, hv, rfl⟩ | hawa
  · rcases track_asleep hq hasl with ⟨hnn, hasleep'⟩ | ⟨c, v, hsm, rfl⟩ | hawa
    · exact .inl ⟨by rw [filterMap_append_none hnn, hnil], hasleep'⟩
    · exact .inr (.inl ⟨c, v, by rw [filterMap_append_some hsm, hnil]; rfl, rfl⟩)
    · exact .inr (.inr hawa)
  · rcases track_woken hq with ⟨hnn, rfl⟩ | hawa
    · exact .inr (.inl ⟨c, v, by rw [filterMap_append_none hnn, hv], rfl⟩)
    · exact .inr (.inr hawa)
  · exact .inr (.inr (track_awake hq he hawa))

structure ValueExchange (f : FiberId) (s : System) : Prop where
  delivered : ∀ pre mid post c c' v w,
    s.trace = pre ++ .resume c f v :: (mid ++ .resumeReturns c' f w :: post) →
    (∀ e ∈ mid, ¬ e.IsReturn f) → c' = c ∧ mid.filterMap (Event.answer f) = [w]
  received : ∀ pre mid post v w,
    s.trace = pre ++ .yield (some f) w :: (mid ++ .yieldReturns (some f) v :: post) →
    (∀ e ∈ mid, ¬ e.IsYield f) → mid.filterMap (Event.sent f) = [v]
  wakes : ∀ v k, s.SparesCallers (.resume f v) → s.sched.fibers f = some k →
    k.state = .suspended → ∃ t, step s (.resume f v) = some t ∧
      t.trace = s.trace ++ [.resume s.sched.current f v, .yieldReturns (some f) v]

/-- **Value exchange** -/
theorem value_exchange {ops : List Op} {s : System} (hrun : Trans.run step {} ops = some s)
    (hmee : Trans.Meets step System.SparesCallers {} ops) (f : FiberId) : ValueExchange f s := by
  obtain ⟨l, hl, htra⟩ := tracked_run hrun hmee
  have htra := htra f
  refine ⟨?_, ?_, ?_⟩
  · intro pre mid post c c' v w htr hmid
    rw [htr, Trans.run_append, bind_eq_some_iff] at htra
    obtain ⟨p₀, -, hrs⟩ := htra
    rw [Trans.run_cons, bind_eq_some_iff] at hrs
    obtain ⟨p₁, hres, hrs⟩ := hrs
    rw [Trans.run_append, bind_eq_some_iff] at hrs
    obtain ⟨p₂, hrun₂, hrs⟩ := hrs
    rw [Trans.run_cons, bind_eq_some_iff] at hrs
    obtain ⟨p₃, hret, -⟩ := hrs
    have haw : p₁.Awaited c := by cases p₀ <;> grind [track, Phase.Awaited]
    rcases answers_of_run haw hrun₂ hmid with ⟨-, hp₂⟩ | ⟨w', b, hw, rfl⟩
    · rcases hp₂ with rfl | ⟨v', rfl⟩ <;> simp [track] at hret
    · by_cases heq : c' = c ∧ w = w'
      · exact ⟨heq.1, heq.2 ▸ hw⟩
      · simp [track, heq] at hret
  · intro pre mid post v w htr hmid
    rw [htr, Trans.run_append, bind_eq_some_iff] at htra
    obtain ⟨p₀, -, hrs⟩ := htra
    rw [Trans.run_cons, bind_eq_some_iff] at hrs
    obtain ⟨p₁, hyie, hrs⟩ := hrs
    rw [Trans.run_append, bind_eq_some_iff] at hrs
    obtain ⟨p₂, hrun₂, hrs⟩ := hrs
    rw [Trans.run_cons, bind_eq_some_iff] at hrs
    obtain ⟨p₃, hret, -⟩ := hrs
    have hasl : p₁.Asleep := by cases p₀ <;> grind [track, Phase.Asleep]
    rcases sent_of_run hasl hrun₂ hmid with ⟨-, hp₂⟩ | ⟨c, v', hv, rfl⟩ | hawa
    · rcases hp₂ with ⟨c, w', rfl⟩ | rfl <;> simp [track] at hret
    · by_cases heq : v = v'
      · exact heq ▸ hv
      · simp [track, heq] at hret
    · cases p₂ <;> simp [track, Phase.Awake] at hret hawa
  · intro v k hc hk hst
    have hmem := hl.not_mem hk (by simp [hst]) hc
    obtain ⟨t, ht, -⟩ := resume_entered hl hmem hk (by simp [hst]) v
    refine ⟨⟨t, _⟩, ?_, rfl⟩
    simp [step, Sched.op, ht, resumeEvents, hst]

def exchangeOps : List Op := nestedOps ++ [.yield 5, .yield 6, .resume 0 9, .ret 4]

theorem value_exchange_nested : ∃ s, Trans.run step {} exchangeOps = some s ∧ s.trace =
      [.created 0, .created 1, .resume none 0 7, .resume (some 0) 1 8, .yield (some 1) 5,
        .resumeReturns (some 0) 1 5, .yield (some 0) 6, .resumeReturns none 0 6,
        .resume none 0 9, .yieldReturns (some 0) 9, .ret 0 4, .resumeReturns none 0 4] ∧
    ValueExchange 0 s := by
  have hmee : Trans.Meets step System.SparesCallers {} exchangeOps :=
    Trans.meets_of_checks (System.sparesCallers_of_within 5) rfl
  exact ⟨_, rfl, rfl, value_exchange (rfl : Trans.run step {} exchangeOps = some _) hmee 0⟩

end Veloco.Fibers
