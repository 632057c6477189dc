import Veloco.Chain
import Veloco.Fibers.Sched

/-!
# The caller chain
-/

namespace Veloco.Fibers

open Function List Option
open Veloco.Chain
open Veloco.Sched (FiberState)

variable {s s' : Sched} {l : List Ctx} {f : FiberId} {k : Fiber} {v w : Long}

variable {g : FiberId} {op : Op} {events : List Event} {c : Ctx} {state : FiberState}
variable {point : Point} {l' : List Ctx} {t : System} {ops : List Op}

instance : LawfulBEq Ctx := inferInstance

def Sched.callerOf (s : Sched) : Ctx → Ctx
  | none => none
  | some f => (s.fibers f).elim none (·.caller)

theorem Sched.callerOf_some (h : s.fibers f = some k) : s.callerOf (some f) = k.caller := by
  simp [Sched.callerOf, h]

structure Fiber.Parked (k : Fiber) (f : FiberId) : Prop where
  caller : k.caller = none
  stopped : k.state ≠ .running
  ready : k.state = .ready → k.context = ⟨some f, .start⟩
  suspended : k.state = .suspended → k.context = ⟨some f, .yielded f⟩

structure Sched.Active (s : Sched) (f : FiberId) (k : Fiber) : Prop where
  state : k.state = if s.current = some f then .running else .suspended
  frame : s.frame k.caller = some ⟨k.caller, .resumed k.caller f⟩

structure Chained (s : Sched) (l : List Ctx) : Prop where
  links : Links s.callerOf none s.current l
  nodup : l.Nodup
  control : s.control = s.current
  active : ∀ f, some f ∈ l → ∃ k, s.fibers f = some k ∧ s.Active f k
  parked : ∀ f k, s.fibers f = some k → some f ∉ l → k.Parked f

theorem Chained.initial : Chained {} [] :=
  ⟨rfl, nodup_nil, rfl, by simp, fun f k hk => by simp at hk⟩

theorem Chained.current_mem (h : Chained s l) (hf : s.current = some f) : some f ∈ l := by
  obtain ⟨l', rfl, -⟩ := h.links.pop (by rw [hf]; simp)
  rw [hf]
  exact mem_cons_self

theorem Chained.current_running (h : Chained s l) (hf : s.current = some f) :
    ∃ k, s.fibers f = some k ∧ k.state = .running ∧
      s.frame k.caller = some ⟨k.caller, .resumed k.caller f⟩ := by
  obtain ⟨k, hk, hact⟩ := h.active f (h.current_mem hf)
  refine ⟨k, hk, ?_, hact.frame⟩
  rw [hact.state, if_pos hf]

theorem Chained.running_iff (h : Chained s l) (hk : s.fibers f = some k) :
    k.state = .running ↔ s.current = some f := by
  by_cases hl : some f ∈ l
  · obtain ⟨k', hk', hact⟩ := h.active f hl
    obtain rfl : k = k' := some.inj (hk.symm.trans hk')
    rw [hact.state]
    by_cases hf : s.current = some f <;> simp [hf]
  · constructor
    · intro hrun
      exact absurd hrun (h.parked f k hk hl).stopped
    · intro hf
      exact absurd (h.current_mem hf) hl

theorem Chained.not_mem_of_free (h : Chained s l) (hfr : s.fibers f = none) : some f ∉ l := by
  intro hl
  obtain ⟨k, hk, -⟩ := h.active f hl
  rw [hfr] at hk
  simp at hk

theorem Chained.caller_mem (h : Chained s l) (hl : some f ∈ l) (hk : s.fibers f = some k) :
    k.caller ∈ l.tail ∨ k.caller = none := by
  rw [← Sched.callerOf_some hk]
  exact h.links.next_mem hl

theorem Chained.caller_ne (h : Chained s l) (hl : some f ∈ l) (hk : s.fibers f = some k)
    (hc : s.current ≠ none) : k.caller ≠ s.current := by
  intro hcal
  obtain ⟨l', rfl, -⟩ := h.links.pop hc
  have hnod := nodup_cons.mp h.nodup
  rcases h.caller_mem hl hk with htl | hnl
  · exact hnod.1 (hcal ▸ htl)
  · exact hc (hcal.symm.trans hnl)

theorem Chained.caller_ne_of_not_mem (h : Chained s l) (hl : some f ∈ l)
    (hk : s.fibers f = some k) (hg : some g ∉ l) : k.caller ≠ some g := by
  intro hcal
  rcases h.caller_mem hl hk with htl | hnl
  · exact hg (mem_of_mem_tail (hcal ▸ htl))
  · rw [hcal] at hnl
    simp at hnl

structure Entered (s : Sched) (f : FiberId) (k : Fiber) (v : Long) (s' : Sched) : Prop where
  current : s'.current = some f
  fiber : s'.fibers f = some { k with caller := s.current, inbox := v, state := .running }
  resumer : ∀ c, s.current = some c → s'.fibers c = (s.fibers c).map fun kc =>
    { kc with state := .suspended, context := ⟨some c, .resumed (some c) f⟩ }
  rootContext : s'.rootContext =
    if s.current = none then ⟨none, .resumed none f⟩ else s.rootContext
  others : ∀ g, g ≠ f → s.current ≠ some g → s'.fibers g = s.fibers g

theorem enter_entered (h : Chained s l) (hl : some f ∉ l) (hk : s.fibers f = some k) (v : Long) :
    ∃ s', s.enter f v = some s' ∧ Entered s f k v s' := by
  cases hcur : s.current with
  | none =>
    have hcon : s.control = none := h.control.trans hcur
    simp only [Sched.enter, hcur, Sched.setState, Sched.modify, hk, Sched.saveContext, hcon,
      bind_eq_bind, bind_some, map_some]
    refine ⟨_, rfl, ?_⟩
    refine ⟨rfl, by simp [hcur], by simp [hcur], by simp [hcur], fun g hg _ => ?_⟩
    exact update_of_ne hg _ _
  | some c =>
    have hcon : s.control = some c := h.control.trans hcur
    have hcf : c ≠ f := by
      rintro rfl
      exact hl (h.current_mem hcur)
    obtain ⟨kc, hkc, -⟩ := h.current_running hcur
    simp only [Sched.enter, hcur, Sched.setState, Sched.modify, hk, hkc, Sched.saveContext,
      hcon, bind_eq_bind, bind_some, map_some, update_self,
      update_of_ne hcf, update_of_ne hcf.symm]
    refine ⟨_, rfl, ?_⟩
    refine ⟨rfl, ?_, ?_, by simp [hcur], fun g hg hgc => ?_⟩
    · simp [hcur, hcf.symm]
    · intro c' hc'
      obtain rfl : c = c' := some.inj (hcur.symm.trans hc')
      simp [hkc]
    · have hgc : g ≠ c := fun he => hgc (by rw [hcur, he])
      simp [hg, hgc]

theorem jump_parked (hk : s.fibers f = some k) (hrun : k.state = .running)
    (hcur : s.current = some f)
    (hctx : k.context = ⟨some f, .start⟩ ∨ k.context = ⟨some f, .yielded f⟩) :
    s.jump (some f) = some ({ s with control := some f },
      if k.context.point = .start then [] else [.yieldReturns (some f) k.inbox]) := by
  rcases hctx with hctx | hctx <;> simp [Sched.jump, Sched.frame, hk, hrun, hcur, hctx]

def resumeEvents (c : Ctx) (f : FiberId) (k : Fiber) (v : Long) : List Event :=
  if k.state = .ready then [.resume c f v] else [.resume c f v, .yieldReturns (some f) v]

theorem resume_entered (h : Chained s l) (hl : some f ∉ l) (hk : s.fibers f = some k)
    (hdn : k.state ≠ .done) (v : Long) : ∃ s', s.resume f v =
      some (s', resumeEvents s.current f k v) ∧ Entered s f k v s' ∧ s'.control = some f := by
  have hpr := h.parked f k hk hl
  have hctx : k.context = ⟨some f, .start⟩ ∧ k.state = .ready ∨
      k.context = ⟨some f, .yielded f⟩ ∧ k.state ≠ .ready := by
    cases hst : k.state with
    | ready => exact .inl ⟨hpr.ready hst, rfl⟩
    | suspended => exact .inr ⟨hpr.suspended hst, by simp⟩
    | running => exact absurd hst hpr.stopped
    | done => exact absurd hst hdn
  have hgo : ¬ (k.state = .running ∨ k.state = .done) := by simp [hpr.stopped, hdn]
  obtain ⟨s₁, hent, he⟩ := enter_entered h hl hk v
  have hjm := jump_parked he.fiber rfl he.current (hctx.imp And.left And.left)
  refine ⟨{ s₁ with control := some f }, ?_,
    ⟨he.current, he.fiber, he.resumer, he.rootContext, he.others⟩, rfl⟩
  simp only [Sched.resume, hk, bind_eq_bind, bind_some, if_neg hgo, hent, hjm,
    h.control, resumeEvents]
  rcases hctx with ⟨hc, hst⟩ | ⟨hc, hst⟩ <;> simp [hc, hst]

structure Handed (s : Sched) (f : FiberId) (k : Fiber) (w : Long) (state : FiberState)
    (point : Point) (s' : Sched) : Prop where
  current : s'.current = k.caller
  control : s'.control = k.caller
  fiber : s'.fibers f = some { k with
    caller := none, outbound := w, state := state, context := ⟨some f, point⟩ }
  caller : ∀ c, k.caller = some c →
    s'.fibers c = (s.fibers c).map fun kc => { kc with state := .running }
  rootContext : s'.rootContext = s.rootContext
  others : ∀ g, g ≠ f → k.caller ≠ some g → s'.fibers g = s.fibers g

theorem handBack_handed (h : Chained s l) (hf : s.current = some f) (hk : s.fibers f = some k)
    (w : Long) (state : FiberState) (point : Point) : ∃ s', s.handBack f w state point =
      some (s', [.resumeReturns k.caller f w]) ∧ Handed s f k w state point s' := by
  have hcon : s.control = some f := h.control.trans hf
  obtain ⟨k', hk', -, hfra⟩ := h.current_running hf
  obtain rfl : k = k' := some.inj (hk.symm.trans hk')
  have hne := h.caller_ne (h.current_mem hf) hk (by simp [hf])
  cases hcal : k.caller with
  | none =>
    have hrt : s.rootContext = ⟨none, .resumed none f⟩ := by simpa [Sched.frame, hcal] using hfra
    simp only [Sched.handBack, Sched.leave, Sched.setState, Sched.modify, Sched.saveContext,
      Sched.jump, Sched.frame, hk, hcal, hrt, hcon, bind_eq_bind, bind_some,
      map_some, update_self]
    refine ⟨_, rfl, ?_⟩
    refine ⟨hcal.symm, hcal.symm, by simp, by simp [hcal], hrt.symm, fun g hg _ => ?_⟩
    simp [hg]
  | some c =>
    have hcf : c ≠ f := by
      rintro rfl
      exact hne (hcal.trans hf.symm)
    obtain ⟨kc, hkc, hctx⟩ : ∃ kc, s.fibers c = some kc ∧
        kc.context = ⟨some c, .resumed (some c) f⟩ := by
      simpa [Sched.frame, hcal] using hfra
    simp only [Sched.handBack, Sched.leave, Sched.setState, Sched.modify, Sched.saveContext,
      Sched.jump, Sched.frame, hk, hcal, hcon, hkc, hctx, bind_eq_bind,
      bind_some, map_some, update_self, update_of_ne hcf,
      update_of_ne hcf.symm]
    refine ⟨_, rfl, ?_⟩
    refine ⟨hcal.symm, hcal.symm, by simp, ?_, rfl, fun g hg hgc => ?_⟩
    · intro c' hc'
      obtain rfl : c = c' := some.inj (hcal.symm.trans hc')
      simp [hcf, hkc, hctx]
    · have hgc : g ≠ c := fun he => hgc (by rw [hcal, he])
      simp [hg, hgc]

def Sched.Ancestor (s : Sched) (f : FiberId) : Prop :=
  ∃ l, Links s.callerOf none s.current l ∧ some f ∈ l.tail

def Sched.SparesCallers (s : Sched) : Op → Prop
  | .resume f _ | .destroy f => ¬ s.Ancestor f
  | _ => True

inductive Effect (s : Sched) (l : List Ctx) : List Event → Sched → List Ctx → Prop
  | refused : Effect s l [] s l
  | created {f : FiberId} (hfr : s.fibers f = none) : Effect s l [.created f] { s with
      fibers := update s.fibers f (some { context := ⟨some f, .start⟩ })
      liveFibers := s.liveFibers + 1 } l
  | entered {f : FiberId} {k : Fiber} {v : Long} {s' : Sched} (hl : some f ∉ l)
      (hk : s.fibers f = some k) (hdn : k.state ≠ .done) (he : Entered s f k v s')
      (hcon : s'.control = some f) :
      Effect s l (resumeEvents s.current f k v) s' (some f :: l)
  | yielded {f : FiberId} {k : Fiber} {w : Long} {s' : Sched} {l' : List Ctx}
      (hl : l = some f :: l') (hk : s.fibers f = some k)
      (hh : Handed s f k w .suspended (.yielded f) s') :
      Effect s l [.yield (some f) w, .resumeReturns k.caller f w] s' l'
  | returned {f : FiberId} {k : Fiber} {w : Long} {s' : Sched} {l' : List Ctx}
      (hl : l = some f :: l') (hk : s.fibers f = some k)
      (hh : Handed s f k w .done .unreachable s') :
      Effect s l [.ret f w, .resumeReturns k.caller f w] s' l'
  | destroyed {f : FiberId} {k : Fiber} (hl : some f ∉ l) (hk : s.fibers f = some k) :
      Effect s l [.destroyed f] { s with
        fibers := update s.fibers f none
        liveFibers := s.liveFibers - 1 } l

theorem Chained.not_mem (h : Chained s l) (hk : s.fibers f = some k) (hrun : k.state ≠ .running)
    (hanc : ¬ s.Ancestor f) : some f ∉ l := by
  intro hl
  have hcur : s.current ≠ some f := fun hf => hrun ((h.running_iff hk).mpr hf)
  cases l with
  | nil => simp at hl
  | cons x l =>
    rcases mem_cons.mp hl with rfl | htl
    · exact hcur h.links.1
    · exact hanc ⟨x :: l, h.links, htl⟩

theorem yield_handed (h : Chained s l) (hf : s.current = some f) (hk : s.fibers f = some k)
    (w : Long) : ∃ s', s.yield w = some (s', [.yield (some f) w, .resumeReturns k.caller f w]) ∧
      Handed s f k w .suspended (.yielded f) s' := by
  obtain ⟨s', hs', hh⟩ := handBack_handed h hf hk w .suspended (.yielded f)
  have hrun : k.state = .running := (h.running_iff hk).mpr hf
  refine ⟨s', ?_, hh⟩
  simp [Sched.yield, hf, hk, hrun, hs', h.control]

theorem ret_handed (h : Chained s l) (hf : s.current = some f) (hk : s.fibers f = some k)
    (w : Long) : ∃ s', s.ret w = some (s', [.ret f w, .resumeReturns k.caller f w]) ∧
      Handed s f k w .done .unreachable s' := by
  obtain ⟨s', hs', hh⟩ := handBack_handed h hf hk w .done .unreachable
  refine ⟨s', ?_, hh⟩
  simp [Sched.ret, h.control, hf, hs']

theorem op_effect (h : Chained s l) (hc : s.SparesCallers op)
    (hop : s.op op = some (s', events)) : ∃ l', Effect s l events s' l' := by
  cases op with
  | create f =>
    simp only [Sched.op, Sched.create] at hop
    split at hop
    · simp at hop
    case isFalse hfr =>
      cases hop
      exact ⟨l, .created (by simpa using hfr)⟩
  | resume f v =>
    cases hk : s.fibers f with
    | none => simp [Sched.op, Sched.resume, hk] at hop
    | some k =>
      by_cases hst : k.state = .running ∨ k.state = .done
      · simp only [Sched.op, Sched.resume, hk, bind_eq_bind, bind_some,
          if_pos hst, some.injEq, Prod.mk.injEq] at hop
        obtain ⟨rfl, rfl⟩ := hop
        exact ⟨l, .refused⟩
      · rw [not_or] at hst
        have hl := h.not_mem hk hst.1 hc
        obtain ⟨t, ht, he, hcon⟩ := resume_entered h hl hk hst.2 v
        obtain ⟨rfl, rfl⟩ := Prod.mk.inj (some.inj (ht.symm.trans hop))
        exact ⟨some f :: l, .entered hl hk hst.2 he hcon⟩
  | yield w =>
    cases hf : s.current with
    | none =>
      simp only [Sched.op, Sched.yield, hf, some.injEq, Prod.mk.injEq] at hop
      obtain ⟨rfl, rfl⟩ := hop
      exact ⟨l, .refused⟩
    | some f =>
      obtain ⟨k, hk, -⟩ := h.current_running hf
      obtain ⟨l', hl', -⟩ := h.links.pop (by simp [hf])
      rw [hf] at hl'
      obtain ⟨t, ht, hh⟩ := yield_handed h hf hk w
      obtain ⟨rfl, rfl⟩ := Prod.mk.inj (some.inj (ht.symm.trans hop))
      exact ⟨l', .yielded hl' hk hh⟩
  | ret w =>
    cases hf : s.current with
    | none => simp [Sched.op, Sched.ret, h.control, hf] at hop
    | some f =>
      obtain ⟨k, hk, -⟩ := h.current_running hf
      obtain ⟨l', hl', -⟩ := h.links.pop (by simp [hf])
      rw [hf] at hl'
      obtain ⟨t, ht, hh⟩ := ret_handed h hf hk w
      obtain ⟨rfl, rfl⟩ := Prod.mk.inj (some.inj (ht.symm.trans hop))
      exact ⟨l', .returned hl' hk hh⟩
  | destroy f =>
    cases hk : s.fibers f with
    | none => simp [Sched.op, Sched.destroy, hk] at hop
    | some k =>
      by_cases hst : k.state = .running
      · simp only [Sched.op, Sched.destroy, hk, bind_eq_bind, bind_some,
          if_pos hst, some.injEq, Prod.mk.injEq] at hop
        obtain ⟨rfl, rfl⟩ := hop
        exact ⟨l, .refused⟩
      · simp only [Sched.op, Sched.destroy, hk, bind_eq_bind, bind_some,
          if_neg hst, some.injEq, Prod.mk.injEq] at hop
        obtain ⟨rfl, rfl⟩ := hop
        exact ⟨l, .destroyed (h.not_mem hk hst hc) hk⟩

theorem Entered.frame_eq (he : Entered s f k v s') (hc : c ≠ s.current)
    (hf : c ≠ some f) : s'.frame c = s.frame c := by
  cases c with
  | none =>
    show some s'.rootContext = some s.rootContext
    rw [he.rootContext, if_neg (Ne.symm hc)]
  | some g =>
    have hg : g ≠ f := fun h => hf (congrArg some h)
    show (s'.fibers g).map _ = (s.fibers g).map _
    rw [he.others g hg (Ne.symm hc)]

theorem Entered.callerOf_eq (he : Entered s f k v s') (hf : c ≠ some f) :
    s'.callerOf c = s.callerOf c := by
  cases c with
  | none => rfl
  | some g =>
    have hg : g ≠ f := fun h => hf (congrArg some h)
    by_cases hcur : s.current = some g
    · cases hk : s.fibers g <;> simp [Sched.callerOf, he.resumer g hcur, hk]
    · simp [Sched.callerOf, he.others g hg hcur]

theorem Entered.chained (he : Entered s f k v s') (h : Chained s l) (hl : some f ∉ l)
    (hcon : s'.control = some f) : Chained s' (some f :: l) where
  links := by
    rw [he.current]
    refine h.links.push (by simp) (Sched.callerOf_some he.fiber) fun x hx => ?_
    exact he.callerOf_eq fun hxf => hl (hxf ▸ hx)
  nodup := nodup_cons.mpr ⟨hl, h.nodup⟩
  control := hcon.trans he.current.symm
  active := by
    intro g hg
    rcases mem_cons.mp hg with hgf | hmem
    · obtain rfl : g = f := some.inj hgf
      refine ⟨_, he.fiber, by simp [he.current], ?_⟩
      -- the resumer has just saved its frame
      cases hc : s.current with
      | none =>
        show some s'.rootContext = _
        rw [he.rootContext, if_pos hc]
      | some c =>
        obtain ⟨kc, hkc, -⟩ := h.current_running hc
        show (s'.fibers c).map _ = _
        rw [he.resumer c hc, hkc]
        rfl
    · have hgf : g ≠ f := by
        rintro rfl
        exact hl hmem
      have hne : some f ≠ some g := fun he => hgf (some.inj he).symm
      obtain ⟨kg, hkg, hact⟩ := h.active g hmem
      have hkeep : s'.frame kg.caller = some ⟨kg.caller, .resumed kg.caller g⟩ := by
        rw [← hact.frame]
        have hcur : s.current ≠ none := by
          intro hnn
          rw [h.links.eq_nil_iff.mpr hnn] at hmem
          simp at hmem
        exact he.frame_eq (h.caller_ne hmem hkg hcur) (h.caller_ne_of_not_mem hmem hkg hl)
      by_cases hcur : s.current = some g
      · refine ⟨{ kg with state := .suspended, context := ⟨some g, .resumed (some g) f⟩ }, ?_, ?_,
          hkeep⟩
        · rw [he.resumer g hcur, hkg]
          rfl
        · rw [he.current, if_neg hne]
      · refine ⟨kg, (he.others g hgf hcur).trans hkg, ?_, hkeep⟩
        rw [hact.state, if_neg hcur, he.current, if_neg hne]
  parked := by
    intro g kg hkg hg
    rw [mem_cons, not_or] at hg
    have hgf : g ≠ f := fun h => hg.1 (congrArg some h)
    rw [he.others g hgf fun hcur => hg.2 (h.current_mem hcur)] at hkg
    exact h.parked g kg hkg hg.2

theorem Handed.frame_eq
    (hh : Handed s f k w state point s') (hf : c ≠ some f) : s'.frame c = s.frame c := by
  cases c with
  | none => exact congrArg some hh.rootContext
  | some g =>
    have hg : g ≠ f := fun h => hf (congrArg some h)
    show (s'.fibers g).map _ = (s.fibers g).map _
    by_cases hcal : k.caller = some g
    · rw [hh.caller g hcal, Option.map_map]
      rfl
    · rw [hh.others g hg hcal]

theorem Handed.callerOf_eq
    (hh : Handed s f k w state point s') (hf : c ≠ some f) : s'.callerOf c = s.callerOf c := by
  cases c with
  | none => rfl
  | some g =>
    have hg : g ≠ f := fun h => hf (congrArg some h)
    by_cases hcal : k.caller = some g
    · cases hk : s.fibers g <;> simp [Sched.callerOf, hh.caller g hcal, hk]
    · simp [Sched.callerOf, hh.others g hg hcal]

theorem Handed.chained (hh : Handed s f k w state point s')
    (h : Chained s (some f :: l)) (hf : s.current = some f) (hk : s.fibers f = some k)
    (hsta : state = .suspended ∧ point = .yielded f ∨ state = .done) : Chained s' l where
  links := by
    obtain ⟨-, -, hlin⟩ := h.links
    rw [Sched.callerOf_some hk] at hlin
    rw [hh.current]
    refine hlin.congr fun x hx => hh.callerOf_eq ?_
    rintro rfl
    exact (nodup_cons.mp h.nodup).1 hx
  nodup := (nodup_cons.mp h.nodup).2
  control := hh.control.trans hh.current.symm
  active := by
    intro g hg
    have hmem : some g ∈ some f :: l := mem_cons_of_mem _ hg
    have hgf : g ≠ f := by
      rintro rfl
      exact (nodup_cons.mp h.nodup).1 hg
    have hcur : s.current ≠ some g := by
      rw [hf]
      exact fun he => hgf (some.inj he).symm
    obtain ⟨kg, hkg, hact⟩ := h.active g hmem
    have hkeep : s'.frame kg.caller = some ⟨kg.caller, .resumed kg.caller g⟩ := by
      rw [← hact.frame]
      exact hh.frame_eq (hf ▸ h.caller_ne hmem hkg (by simp [hf]))
    by_cases hcal : k.caller = some g
    · refine ⟨{ kg with state := .running }, ?_, ?_, hkeep⟩
      · rw [hh.caller g hcal, hkg]
        rfl
      · rw [hh.current, if_pos hcal]
    · refine ⟨kg, (hh.others g hgf hcal).trans hkg, ?_, hkeep⟩
      rw [hact.state, if_neg hcur, hh.current, if_neg hcal]
  parked := by
    intro g kg hkg hg
    by_cases hgf : g = f
    · -- the fiber that handed back is off the chain now
      subst hgf
      rw [hh.fiber, some.injEq] at hkg
      subst hkg
      rcases hsta with ⟨rfl, rfl⟩ | rfl
      · exact ⟨rfl, by simp, by simp, fun _ => rfl⟩
      · exact ⟨rfl, by simp, by simp, by simp⟩
    · have hmem : some g ∉ some f :: l := by
        rw [mem_cons, not_or]
        exact ⟨fun he => hgf (some.inj he), hg⟩
      have hcal := h.caller_ne_of_not_mem mem_cons_self hk hmem
      rw [hh.others g hgf hcal] at hkg
      exact h.parked g kg hkg hmem

/-! ## The matching resume -/

def openResume : List (Ctx × Ctx) → Event → List (Ctx × Ctx)
  | pending, .resume c f _ => (c, some f) :: pending
  | pending, .yield _ _ | pending, .ret _ _ => pending.tail
  | pending, _ => pending

def openResumes (trace : List Event) : List (Ctx × Ctx) := trace.foldl openResume []

def Sched.waits (s : Sched) (l : List Ctx) : List (Ctx × Ctx) := l.map fun c => (s.callerOf c, c)

theorem Sched.waits_congr (h : ∀ c ∈ l, s'.callerOf c = s.callerOf c) : s'.waits l = s.waits l :=
  map_congr_left fun c hc => by rw [h c hc]

def Sched.replace (s : Sched) (f : FiberId) (x : Option Fiber) (n : ℕ) : Sched :=
  { s with fibers := update s.fibers f x, liveFibers := n }

theorem Sched.replace_fibers (hg : g ≠ f) (x : Option Fiber) (n : ℕ) :
    (s.replace f x n).fibers g = s.fibers g :=
  update_of_ne hg _ _

theorem Sched.replace_callerOf (hl : some f ∉ l) (x : Option Fiber) (n : ℕ)
    (hc : c ∈ l) : (s.replace f x n).callerOf c = s.callerOf c := by
  cases c with
  | none => rfl
  | some g =>
    have hg : g ≠ f := by
      rintro rfl
      exact hl hc
    simp only [Sched.callerOf, Sched.replace_fibers hg]

theorem Sched.waits_replace (hl : some f ∉ l) (x : Option Fiber) (n : ℕ) :
    (s.replace f x n).waits l = s.waits l :=
  Sched.waits_congr fun _ hc => Sched.replace_callerOf hl x n hc

theorem Chained.replace (h : Chained s l) (hl : some f ∉ l) (x : Option Fiber) (n : ℕ)
    (hx : ∀ k, x = some k → k.Parked f) : Chained (s.replace f x n) l where
  links := h.links.congr fun _ hc => Sched.replace_callerOf hl x n hc
  nodup := h.nodup
  control := h.control
  active := by
    intro g hg
    have hgf : g ≠ f := by
      rintro rfl
      exact hl hg
    obtain ⟨k, hk, hact⟩ := h.active g hg
    refine ⟨k, (Sched.replace_fibers hgf x n).trans hk, hact.state, ?_⟩
    rw [← hact.frame]
    have hcal := h.caller_ne_of_not_mem hg hk hl
    cases hc : k.caller with
    | none => rfl
    | some c =>
      have hcf : c ≠ f := fun he => hcal (by rw [hc, he])
      show ((s.replace f x n).fibers c).map _ = (s.fibers c).map _
      rw [Sched.replace_fibers hcf]
  parked := by
    intro g k hk hg
    by_cases hgf : g = f
    · subst hgf
      exact hx k (by simpa [Sched.replace] using hk)
    · rw [Sched.replace_fibers hgf] at hk
      exact h.parked g k hk hg

theorem Effect.chained (he : Effect s l events s' l') (h : Chained s l) : Chained s' l' := by
  cases he with
  | refused => exact h
  | created hfr =>
    refine h.replace (h.not_mem_of_free hfr) _ _ ?_
    rintro k ⟨⟩
    exact ⟨rfl, by simp, fun _ => rfl, by simp⟩
  | entered hl _ _ he hcon => exact he.chained h hl hcon
  | yielded hl hk hh =>
    subst hl
    exact hh.chained h h.links.1 hk (.inl ⟨rfl, rfl⟩)
  | returned hl hk hh =>
    subst hl
    exact hh.chained h h.links.1 hk (.inr rfl)
  | destroyed hl _ => exact h.replace hl _ _ (by simp)

theorem Effect.waits (he : Effect s l events s' l')
    (h : Chained s l) : s'.waits l' = events.foldl openResume (s.waits l) := by
  cases he with
  | refused => rfl
  | created hfr => exact Sched.waits_replace (h.not_mem_of_free hfr) _ _
  | @entered f k v _ hl _ _ he _ =>
    have hwai : s'.waits (some f :: l) = (s.current, some f) :: s.waits l := by
      show (s'.callerOf (some f), some f) :: s'.waits l = _
      rw [Sched.callerOf_some he.fiber, Sched.waits_congr fun c hc =>
        he.callerOf_eq fun hcf => hl (hcf ▸ hc)]
    rw [hwai, resumeEvents]
    split <;> rfl
  | yielded hl _ hh | returned hl _ hh =>
    subst hl
    refine Sched.waits_congr fun c hc => hh.callerOf_eq ?_
    rintro rfl
    exact (nodup_cons.mp h.nodup).1 hc
  | destroyed hl _ => exact Sched.waits_replace hl _ _

def System.Chained (s : System) : Prop :=
  ∃ l, Fibers.Chained s.sched l ∧ openResumes s.trace = s.sched.waits l

def System.SparesCallers (s : System) (op : Op) : Prop := s.sched.SparesCallers op

theorem step_effect {s : System} {l : List Ctx} (hs : step s op = some t)
    (hc : s.SparesCallers op) (h : Chained s.sched l) :
    ∃ events l', t.trace = s.trace ++ events ∧ Effect s.sched l events t.sched l' := by
  obtain ⟨⟨s', events⟩, hop, rfl⟩ := map_eq_some_iff.mp hs
  obtain ⟨l', he⟩ := op_effect h hc hop
  exact ⟨events, l', rfl, he⟩

theorem chained_step {s : System} (hs : step s op = some t)
    (hc : s.SparesCallers op) (h : s.Chained) : t.Chained := by
  obtain ⟨l, hl, hpn⟩ := h
  obtain ⟨events, l', htra, he⟩ := step_effect hs hc hl
  refine ⟨l', he.chained hl, ?_⟩
  rw [he.waits hl, ← hpn, htra]
  exact foldl_append

theorem chained_run {s : System} (hrun : Trans.run step {} ops = some s)
    (hmee : Trans.Meets step System.SparesCallers {} ops) : s.Chained :=
  Trans.run_invariant_of_meets (fun _ _ _ hs hc h => chained_step hs hc h) hrun hmee
    ⟨[], Chained.initial, rfl⟩

structure CallerChain (s : System) : Prop where
  control : s.sched.control = s.sched.current
  running : ∀ f k, s.sched.fibers f = some k → (k.state = .running ↔ s.sched.current = some f)
  chain : ∃ l, Links s.sched.callerOf none s.sched.current l ∧ l.Nodup ∧
    ∀ f, some f ∈ l → ∃ k, s.sched.fibers f = some k
  matching : ∀ f w, s.sched.current = some f →
    ∃ c rest, openResumes s.trace = (c, some f) :: rest ∧
      (∃ t, step s (.yield w) = some t ∧ t.sched.control = c ∧ t.sched.current = c ∧
        t.trace = s.trace ++ [.yield (some f) w, .resumeReturns c f w]) ∧
      ∃ t, step s (.ret w) = some t ∧ t.sched.control = c ∧ t.sched.current = c ∧
        t.trace = s.trace ++ [.ret f w, .resumeReturns c f w]

/-- **The caller chain** -/
theorem caller_chain {ops : List Op} {s : System} (hrun : Trans.run step {} ops = some s)
    (hmee : Trans.Meets step System.SparesCallers {} ops) : CallerChain s := by
  obtain ⟨l, hl, hpn⟩ := chained_run hrun hmee
  refine ⟨hl.control, fun f k hk => hl.running_iff hk, ⟨l, hl.links, hl.nodup, ?_⟩, ?_⟩
  · intro f hf
    obtain ⟨k, hk, -⟩ := hl.active f hf
    exact ⟨k, hk⟩
  · intro f w hf
    obtain ⟨k, hk, -⟩ := hl.current_running hf
    obtain ⟨l', hl', -⟩ := hl.links.pop (by simp [hf])
    obtain ⟨y, hy, hyie⟩ := yield_handed hl hf hk w
    obtain ⟨r, hr, hret⟩ := ret_handed hl hf hk w
    refine ⟨k.caller, s.sched.waits l', ?_, ⟨⟨y, _⟩, ?_, hyie.control, hyie.current, rfl⟩,
      ⟨⟨r, _⟩, ?_, hret.control, hret.current, rfl⟩⟩
    · rw [hpn, hl', hf, ← Sched.callerOf_some hk]
      rfl
    · simp only [step, Sched.op, hy, map_some]
    · simp only [step, Sched.op, hr, map_some]

def System.sparesWithin (n : ℕ) (s : System) (op : Op) : Bool :=
  let l := walk s.sched.callerOf none n s.sched.current
  match op with
  | .resume f _ | .destroy f => decide (l.length < n) && decide (some f ∉ l.tail)
  | _ => true

theorem System.sparesCallers_of_within (n : ℕ) (s : System) (op : Op)
    (h : s.sparesWithin n op = true) : s.SparesCallers op := by
  have hnot : ∀ f, (walk s.sched.callerOf none n s.sched.current).length < n →
      some f ∉ (walk s.sched.callerOf none n s.sched.current).tail → ¬ s.sched.Ancestor f := by
    rintro f hlen hf ⟨l, hl, hmem⟩
    rw [hl.walk_eq_take, length_take] at hlen
    rw [hl.walk_eq (by omega)] at hf
    exact hf hmem
  cases op with
  | resume f v =>
    simp only [System.sparesWithin, Bool.and_eq_true, decide_eq_true_eq] at h
    exact hnot f h.1 h.2
  | destroy f =>
    simp only [System.sparesWithin, Bool.and_eq_true, decide_eq_true_eq] at h
    exact hnot f h.1 h.2
  | create f => trivial
  | yield w => trivial
  | ret w => trivial

def nestedOps : List Op := [.create 0, .create 1, .resume 0 7, .resume 1 8]

theorem caller_chain_nested : ∃ s, Trans.run step {} nestedOps = some s ∧
    s.sched.current = some 1 ∧ openResumes s.trace = [(some 0, some 1), (none, some 0)] ∧
    CallerChain s := by
  have hrun : (Trans.run step {} nestedOps).map (fun s => (s.sched.current, openResumes s.trace)) =
      some (some 1, [(some 0, some 1), (none, some 0)]) := rfl
  obtain ⟨s, hs, heq⟩ := map_eq_some_iff.mp hrun
  obtain ⟨hcur, hpn⟩ := Prod.mk.inj heq
  refine ⟨s, hs, hcur, hpn, caller_chain hs ?_⟩
  exact Trans.meets_of_checks (System.sparesCallers_of_within 5) rfl

/-- **A caller that has been freed** -/
theorem destroyed_caller_on_chain : ¬ ∀ ops s, Trans.run step {} ops = some s → CallerChain s := by
  intro hall
  have hrun : (Trans.run step {} (nestedOps ++ [.destroy 0])).map (fun s =>
      (s.sched.current, s.sched.callerOf (some 1), s.sched.fibers 0)) =
      some (some 1, some 0, none) := rfl
  obtain ⟨s, hs, heq⟩ := map_eq_some_iff.mp hrun
  simp only [Prod.mk.injEq] at heq
  obtain ⟨hcur, hcal, hfre⟩ := heq
  obtain ⟨l, hl, -, hll⟩ := (hall _ _ hs).chain
  -- the chain from fiber 1 goes through fiber 0
  obtain ⟨l₁, rfl, hl₁⟩ := hl.pop (by simp [hcur])
  rw [hcur, hcal] at hl₁
  obtain ⟨l₂, rfl, -⟩ := hl₁.pop (by simp)
  obtain ⟨k, hk⟩ := hll 0 (by simp)
  rw [hfre] at hk
  simp at hk

end Veloco.Fibers
