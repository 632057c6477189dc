import Veloco.Memory.Exhausted
import Veloco.Memory.Resize

/-!
# Whose cache an object goes back to
-/

namespace Veloco.Memory

open Function List Option State
open Veloco.Bytes Veloco.Word Veloco.Ledger

variable {M : Platform} {x y : Env} {s s' t : State} {loc : ℕ → Place} {c : Place → List ℕ}
  {a i k l n p ptr size : ℕ} {b : Block} {d : Bin} {old new : Place}

def OwnedAt (M : Platform) (s : State) (loc : ℕ → Place) : Prop :=
  ∀ a ∈ s.allSpans, ∀ i < (s.spans a).objectCount, ∀ d : Bin,
    loc (s.slot M a i) = .bin d → (s.spans a).ownerP = d.p

def Owned (M : Platform) (s : State) : Prop := ∃ loc c, Inv M s loc c ∧ OwnedAt M s loc

theorem Owned.good (h : Owned M s) : Good M s := by
  obtain ⟨loc, c, hI, -⟩ := h
  exact ⟨loc, c, hI⟩

theorem OwnedAt.same (h : OwnedAt M s loc) (hpag : s'.pageSize = s.pageSize)
    (hall : ∀ a ∈ s'.allSpans, a ∈ s.allSpans)
    (hspa : ∀ a ∈ s'.allSpans, (s.spans a).Like (s'.spans a)) : OwnedAt M s' loc := by
  intro a ha i hi d hd
  have hlk := hspa a ha
  have hsl : s'.slot M a i = s.slot M a i := by
    unfold slot cellAt
    rw [hpag, hlk.objectStride]
  rw [hlk.objectCount] at hi
  rw [hsl] at hd
  rw [hlk.ownerP]
  exact h a (hall a ha) i hi d hd

theorem OwnedAt.sameObjects (h : OwnedAt M s loc) (hsm : SameObjects s s') :
    OwnedAt M s' loc :=
  h.same hsm.pageSize (fun _ ha => hsm.allSpans ▸ ha)
    fun a ha => hsm.spans a (hsm.allSpans ▸ ha)

theorem OwnedAt.move (h : OwnedAt M s loc) (hL : Layout M s) (hsm : SameObjects s s')
    (ha : a ∈ s.allSpans) (hi : i < (s.spans a).objectCount)
    (hnew : ∀ d, new = .bin d → (s.spans a).ownerP = d.p) :
    OwnedAt M s' (update loc (s.slot M a i) new) := by
  refine OwnedAt.sameObjects (fun b hb j hj d hd => ?_) hsm
  by_cases heq : s.slot M b j = s.slot M a i
  · obtain ⟨rfl, -⟩ := hL.slot_inj hb hj ha hi heq
    rw [heq, update_self] at hd
    exact hnew d hd
  · rw [update_of_ne heq] at hd
    exact h b hb j hj d hd

theorem OwnedAt.shifts (h : OwnedAt M s loc) (hI : Inv M s loc c)
    (hs : Shifts M s s' loc c a i old new)
    (hnew : ∀ d, new = .bin d → (s.spans a).ownerP = d.p) : Owned M s' :=
  ⟨_, _, hs.inv, h.move hI.layout hs.layout.toSameObjects hs.mem hs.index hnew⟩

theorem Owned.stats (h : Owned M s) {stats : Stats}
    (hobj : stats.activeObjects = s.stats.activeObjects)
    (hbyt : stats.activeBytes = s.stats.activeBytes) : Owned M { s with stats := stats } := by
  obtain ⟨loc, c, hI, hO⟩ := h
  exact ⟨loc, c, hI.stats hobj hbyt, hO⟩

theorem Owned.refillRemote (p k : ℕ) : ∀ (n count : ℕ) (s : State), Owned M s →
    Owned M (refillRemote M p k n count s).2
  | 0, _, _, h => h
  | n + 1, count, s, h => by
    rw [Memory.refillRemote]
    by_cases hhd : (s.bins (.remote p k)).head = 0
    · rw [if_pos hhd]
      exact h
    · rw [if_neg hhd]
      obtain ⟨loc, c, hI, hO⟩ := h
      obtain ⟨a, i, hshi⟩ := hI.remoteToCache_shifts hhd
      -- the queue and the cache are of the same P
      have hown := hO a hshi.mem i hshi.index _ hshi.place
      refine Owned.refillRemote p k n (count + 1) _ (hO.shifts hI hshi ?_)
      rintro d ⟨rfl⟩
      exact hown

theorem Owned.refillCentral (hp : p < memoryMaxP) : ∀ (n count : ℕ) (s : State), Owned M s →
    a ∈ s.allSpans → (s.spans a).classIndex = k → (s.spans a).ownerP = p →
      Owned M (refillCentral M p k a n count s).2
  | 0, _, _, h, _, _, _ => h
  | n + 1, count, s, h, ha, hk, hown => by
    rw [Memory.refillCentral]
    by_cases hhd : (s.spans a).centralFree = 0
    · rw [if_pos hhd]
      exact h
    · rw [if_neg hhd]
      obtain ⟨loc, c, hI, hO⟩ := h
      obtain ⟨i, hshi⟩ := hI.centralToCache_shifts ha hk hp hhd
      have hlk := hshi.layout.spans a ha
      have hone := hO.shifts hI hshi (by rintro d ⟨rfl⟩; exact hown)
      have hrs := Owned.refillCentral hp n (count + 1) _ hone
        (by rw [hshi.layout.allSpans]; exact ha) (by rw [hlk.classIndex]; exact hk)
        (by rw [hlk.ownerP]; exact hown)
      exact hrs

theorem Owned.refillFromSpan (h : Owned M s) (hp : p < memoryMaxP) (ha : a ∈ s.allSpans)
    (hk : (s.spans a).classIndex = k) (hown : (s.spans a).ownerP = p) (count : ℕ) :
    Owned M (refillFromSpan M p k a count s).2 := by
  have hcen := Owned.refillCentral hp (cacheRefill - count) count s h ha hk hown
  unfold Memory.refillFromSpan
  generalize Memory.refillCentral M p k a (cacheRefill - count) count s = r at hcen
  obtain ⟨_ | total, t⟩ := r
  · exact hcen
  · exact hcen.stats rfl rfl

theorem Owned.spanCreate (h : Owned M s) (x : Env) (hk : k < sizeClassCount) :
    Owned M (spanCreate M x k s).2 ∧ ∀ a, (spanCreate M x k s).1 = .ok a →
      a ∈ (spanCreate M x k s).2.allSpans ∧
      ((spanCreate M x k s).2.spans a).classIndex = k ∧
      ((spanCreate M x k s).2.spans a).ownerP = memoryCurrentP x := by
  obtain ⟨loc, c, hI, hO⟩ := h
  rcases hI.spanCreate_created x hk with ⟨e, heq⟩ | ⟨a, m, t, new, hf, hI', hC, hcla, hown, heq⟩
  · rw [heq]
    exact ⟨⟨loc, c, hI, hO⟩, fun a ha => nomatch ha⟩
  · rw [heq]
    have hO' := hO.sameObjects (hI.layout.addMapping_sameObjects hf)
    refine ⟨⟨_, _, hI'.create hC, fun b hb i hi d hd => ?_⟩, ?_⟩
    · rcases (hC.mem b).mp hb with rfl | hb
      · rw [hC.withCentral_slot loc hi] at hd
        exact absurd hd (by simp)
      · rw [hC.others b hb] at hi ⊢
        rw [hC.slot hb, hC.withCentral_old loc ⟨b, hb, i, hi, rfl⟩] at hd
        exact hO' b hb i hi d hd
    · rintro b ⟨rfl⟩
      exact ⟨(hC.mem a).mpr (.inl rfl), hcla, hown⟩

def RefillsOwn (x : Env) (k : ℕ) (s : State) : Prop :=
  (s.bins (.cache (memoryCurrentP x) k)).head = 0 →
    (s.bins (.remote (memoryCurrentP x) k)).count < cacheRefill →
      ∀ a, findRefillSpan k s = some a → (s.spans a).ownerP = memoryCurrentP x

theorem Owned.refillCache (h : Owned M s) (hk : k < sizeClassCount)
    (hemp : (s.bins (.cache (memoryCurrentP x) k)).head = 0) (hown : RefillsOwn x k s) :
    Owned M (refillCache M x k s).2 := by
  have hp := memoryCurrentP_lt x
  have hqui := quiet_refillRemote (memoryCurrentP x) k cacheRefill 0 s h.good
  have hcnt := refillRemote_count (memoryCurrentP x) k cacheRefill 0 s h.good
  have hrem := h.refillRemote (memoryCurrentP x) k cacheRefill 0
  unfold Memory.refillCache
  dsimp only
  generalize Memory.refillRemote M (memoryCurrentP x) k cacheRefill 0 s = r at hqui hcnt hrem ⊢
  obtain ⟨count, s₁⟩ := r
  dsimp only at hqui hcnt hrem ⊢
  by_cases hfil : count = cacheRefill
  · rw [if_pos hfil]
    exact hrem
  rw [if_neg hfil]
  have hfew : (s.bins (.remote (memoryCurrentP x) k)).count < cacheRefill := by omega
  cases hfn : findRefillSpan k s with
  | some a =>
    obtain ⟨loc, c, hI⟩ := h.good
    obtain ⟨ha, hka⟩ := findRefillSpan_mem hI.layout hfn
    have hlk := hqui.layout.spans a ha
    refine hrem.refillFromSpan hp ?_ ?_ ?_ count
    · rw [hqui.layout.allSpans]
      exact ha
    · rw [hlk.classIndex]
      exact hka
    · rw [hlk.ownerP]
      exact hown hemp hfew a hfn
  | none =>
    obtain ⟨hcre, hok⟩ := hrem.spanCreate x hk
    dsimp only
    generalize Memory.spanCreate M x k s₁ = r at hcre hok ⊢
    obtain ⟨result, s₂⟩ := r
    cases result with
    | error e => exact hcre
    | ok a =>
      obtain ⟨ha, hka, hwn⟩ := hok a rfl
      exact hcre.refillFromSpan hp ha hka hwn count

theorem Owned.cachePop (h : Owned M s) (hk : k < sizeClassCount) (hown : RefillsOwn x k s) :
    ∃ t, Owned M t ∧ SameAccounts s t ∧ (cachePop M x k s = (0, t) ∨
      (t.bins (.cache (memoryCurrentP x) k)).head ≠ 0 ∧
        cachePop M x k s = cacheTake M (.cache (memoryCurrentP x) k) t) := by
  unfold Memory.cachePop
  dsimp only
  by_cases hemp : (s.bins (.cache (memoryCurrentP x) k)).head = 0
  · rw [if_pos hemp]
    obtain ⟨-, hacc, hhd⟩ := good_refillCache h.good x hk
    refine ⟨(Memory.refillCache M x k s).2, h.refillCache hk hemp hown, hacc, ?_⟩
    generalize Memory.refillCache M x k s = r at hhd ⊢
    obtain ⟨status, t⟩ := r
    cases status with
    | ok => exact .inr ⟨hhd rfl, rfl⟩
    | _ => exact .inl rfl
  · rw [if_neg hemp]
    exact ⟨s, h, SameAccounts.refl s, Or.inr ⟨hemp, rfl⟩⟩

def ServesOwned (M : Platform) (x : Env) (size : ℕ) (s : State) (r : ℕ × State) : Prop :=
  r.1 = 0 ∧ Owned M r.2 ∨
    r.1 ≠ 0 ∧ Owned M { r.2 with live := ⟨r.1, size⟩ :: s.live } ∧
      (sizeClassIndex size < sizeClassCount → (r.2.headers (r.1 - M.headerSize)).kind = .small ∧
        (r.2.headers (r.1 - M.headerSize)).ownerP = memoryCurrentP x ∧
        (r.2.headers (r.1 - M.headerSize)).capacity = sizeClassCapacity (sizeClassIndex size))

theorem Owned.mallocLarge (h : Owned M s) (x : Env) (hpos : 0 < size)
    (hcla : sizeClassCount ≤ sizeClassIndex size)
    (hobj : s.stats.activeObjects + 1 < modulus)
    (hbyt : s.stats.activeBytes + size < modulus) :
    ServesOwned M x size s (mallocLarge M x size s) := by
  have hfl : ServesOwned M x size s (0, s) := .inl ⟨rfl, h⟩
  unfold Memory.mallocLarge
  split_ifs with hsz
  · exact hfl
  dsimp only
  split_ifs with htot hpages
  · exact hfl
  · exact hfl
  obtain ⟨loc, c, hI, hO⟩ := h
  have hpag : 0 < s.pageSize := lt_of_lt_of_le (by decide) hI.layout.holdsSpan
  have hft := le_pages_mul (M.headerSize + size + M.suffixSize) hpag
  generalize (M.headerSize + size + M.suffixSize + s.pageSize - 1) / s.pageSize = pages
    at hpages hft
  rcases pageHeapAcquire_cases M x pages s with hnn | ⟨l, hpg, hf, hso⟩
  · rw [hnn]
    exact hfl
  · rw [hso]
    have hhdr := M.headerSize_cases
    have hn : 0 < pages * s.pageSize := by omega
    obtain ⟨hsp, hlar⟩ := hI.layout.fresh_not_mem hf hn
    have hI₁ := hI.addMapping hf hn
    have hO₁ := hO.sameObjects (hI.layout.addMapping_sameObjects hf)
    have hok : LargeOk M (s.addMapping M l (pages * s.pageSize)).mapped l
        { (s.addMapping M l (pages * s.pageSize)).headers l with
          magic := objectMagic
          kind := .large
          state := .allocated
          requestedSize := size
          capacity := size
          span := 0
          mappingBase := l
          mappingSize := pages * s.pageSize
          ownerP := memoryCurrentP x } := ⟨rfl, rfl, mem_cons_self, hft⟩
    have htou := (hI₁.prepared_adoptLarge hsp hlar hok size hft).touches
    have hI₂ := (hI₁.adoptLarge hsp hlar hok hpos rfl rfl rfl rfl hobj hbyt).2
    refine .inr ⟨by dsimp only; omega, ⟨loc, c, hI₂, ?_⟩, fun hsma => absurd hcla (by omega)⟩
    exact (OwnedAt.sameObjects (s := State.adoptLarge _ l _) hO₁ htou.same.toSameObjects).same rfl
      (fun _ ha => ha) fun _ _ => Span.Like.refl _

theorem Owned.mallocLocked (h : Owned M s) (x : Env) (hpos : 0 < size) (hsz : size < modulus)
    (hown : RefillsOwn x (sizeClassIndex size) s) :
    ServesOwned M x size s (mallocLocked M x size s) := by
  unfold Memory.mallocLocked
  split_ifs with hcan
  · exact .inl ⟨rfl, h⟩
  obtain ⟨hobj, hbyt⟩ := h.good.room hsz (Bool.eq_true_of_not_eq_false hcan)
  dsimp only
  split_ifs with hlar
  · exact h.mallocLarge x hpos hlar hobj hbyt
  have hk := not_le.mp hlar
  generalize hcla : sizeClassIndex size = k at hown hk ⊢
  have hctd : Owned M (countCacheHit x k s) := by
    unfold countCacheHit
    split_ifs
    · exact h.stats rfl rfl
    · exact h
  have hacc := (h.good.countCacheHit x k).2
  have hown' : RefillsOwn x k (countCacheHit x k s) := by
    obtain ⟨-, -, hbn, hsea⟩ := countCacheHit_same x k s
    have hspa : (countCacheHit x k s).spans = s.spans := by
      unfold countCacheHit
      split_ifs <;> rfl
    unfold RefillsOwn
    rw [hbn, hsea, hspa]
    exact hown
  obtain ⟨t, ht, hacc', hpop | ⟨hhd, hpop⟩⟩ := hctd.cachePop hk hown'
  · rw [hpop]
    exact .inl ⟨rfl, ht⟩
  · have hcc := hacc.trans hacc'
    obtain ⟨loc, c, hI, hO⟩ := ht
    have hcap : size ≤ sizeClassCapacity k := by
      rw [← hcla] at hk ⊢
      exact le_sizeClassCapacity hk
    obtain ⟨a, ha, i, hi, hloc, hfst, -, hsm, hI'⟩ := hI.allocate x hhd hpos hcap
      (by rw [hcc.activeObjects]; exact hobj)
      (by rw [hcc.activeBytes]; exact hbyt)
    have hO' : OwnedAt M _ (update loc (t.slot M a i) .allocated) :=
      hO.move hI.layout hsm.toSameObjects ha hi fun d hd => absurd hd (by simp)
    have hwn : (t.spans a).ownerP = memoryCurrentP x := hO a ha i hi _ hloc
    have hfit := hI.lists.fits a ha i hi
    rw [hloc] at hfit
    have hsl := hI'.headers.slot a (by rw [hsm.allSpans]; exact ha) i
      (by rw [(hsm.spans a ha).objectCount]; exact hi)
    rw [hsm.cellAt ha] at hsl
    have hne : t.slot M a i ≠ 0 := Nat.ne_of_gt (hI.layout.slot_bounds ha hi).1
    have hlk := hsm.spans a ha
    have hser : ServesOwned M x size s ((cacheTake M (.cache (memoryCurrentP x) k) t).1,
        mallocFinish M x k size (cacheTake M (.cache (memoryCurrentP x) k) t).1
          (cacheTake M (.cache (memoryCurrentP x) k) t).2) := by
      rw [hfst]
      rw [hfst, hcc.live] at hI' hO' hsl hlk
      refine .inr ⟨hne, ⟨_, _, hI', hO'⟩, fun _ => ?_⟩
      dsimp only at hsl hlk ⊢
      rw [slot_sub, hsl.ownerP, hsl.capacity, hlk.ownerP, hlk.capacity, hcla]
      refine ⟨hsl.kind, hwn, ?_⟩
      rw [(hI.layout.spans a ha).capacity, ← hfit.1]
      rfl
    rw [hpop]
    generalize cacheTake M (.cache (memoryCurrentP x) k) t = r at hfst hser ⊢
    obtain ⟨_ | user, u⟩ := r
    · exact absurd hfst.symm hne
    · exact hser

theorem Owned.drainLoop (x : Env) (d : Bin) : ∀ (n : ℕ) (s : State), Owned M s →
    Owned M (drainLoop M x d n s)
  | 0, _, h => h
  | n + 1, s, h => by
    rw [Memory.drainLoop]
    by_cases hhd : (s.bins d).head = 0
    · rw [if_pos hhd]
      exact h
    · rw [if_neg hhd]
      obtain ⟨loc, c, hI, hO⟩ := h
      obtain ⟨a, i, hsp, hshi⟩ := hI.cacheToCentral hhd
      have hmov : OwnedAt M _ (update loc (s.slot M a i) (.central a)) :=
        hO.move hI.layout hshi.layout.toSameObjects hshi.mem hshi.index
          fun e he => absurd he (by simp)
      have ha : a ∈ (spanMoveToCentral M a (s.bins d).head (binPop d s)).allSpans := by
        rw [hshi.layout.allSpans]
        exact hshi.mem
      -- the slots of the other spans stay where they are
      obtain ⟨⟨c', hI'⟩, hall, -⟩ := hshi.inv.reclaim x ha
      obtain ⟨-, -, hspa, -⟩ := spanReclaimIfEmpty_same x a
        (spanMoveToCentral M a (s.bins d).head (binPop d s))
      have hpag : (spanReclaimIfEmpty x a
          (spanMoveToCentral M a (s.bins d).head (binPop d s))).pageSize =
          (spanMoveToCentral M a (s.bins d).head (binPop d s)).pageSize := by
        rw [hI'.layout.pageSize, hshi.inv.layout.pageSize]
      have hone : drainOne M x d s =
          spanReclaimIfEmpty x a (spanMoveToCentral M a (s.bins d).head (binPop d s)) := by
        rw [drainOne, hsp]
      rw [hone]
      refine Owned.drainLoop x d n _ ⟨_, c', hI', hmov.same hpag hall fun b _ => ?_⟩
      rw [hspa]
      exact Span.Like.refl _

theorem pushBin_eq (x : Env) (hp : p < memoryMaxP) (k : ℕ) :
    pushBin x p k = if p = memoryCurrentP x then .cache p k else .remote p k := by
  unfold pushBin
  rw [if_pos hp]
  dsimp only
  by_cases heq : p = memoryCurrentP x
  · rw [if_neg (not_not.mpr heq.symm), if_pos heq]
  · rw [if_pos (Ne.symm heq), if_neg heq]

theorem pushBin_p (x : Env) (hp : p < memoryMaxP) (k : ℕ) : (pushBin x p k).p = p := by
  rw [pushBin_eq x hp]
  split_ifs <;> rfl

theorem Owned.free (h : Owned M s) (x : Env) (hb : b ∈ s.live) :
    Owned M ((free M x b.ptr s).drop b.ptr) := by
  have hlv : (Memory.free M x b.ptr s).live = s.live := free_live x b.ptr s
  obtain ⟨loc, c, hI, hO⟩ := h
  have hdr : ∀ u : State, u.live = s.live →
      u.drop b.ptr = u.withLive (s.live.filter fun e => e.ptr != b.ptr) := by
    intro u hu
    rw [State.drop, hu]
    rfl
  rw [hdr _ hlv]
  obtain ⟨a, ha, i, hi, hu, -, heq⟩ | ⟨l, hl, hu, -, heq⟩ := hI.free_cases x hb
  · have hp := (hI.layout.spans a ha).ownerP
    obtain ⟨hI', hsm, -⟩ := hI.give ha hi hb hu (pushBin_fits x hp a _) rfl
    have hgiv : Owned M _ := ⟨_, _, hI', hO.move hI.layout hsm.toSameObjects ha hi (by
      rintro d ⟨rfl⟩
      rw [pushBin_p x hp])⟩
    rw [heq, hI.cachePush_eq x ha hi rfl rfl]
    split_ifs
    · unfold drainCache
      rw [← drainLoop_withLive]
      exact Owned.drainLoop x _ cacheRefill _ hgiv
    · exact hgiv
  · have hnd := nodup_append.mp hI.layout.nodup
    have hI' := (hI.disownLarge hl hb hu).release x (n := (s.headers l).mappingSize) (a := l)
      (fun hmem => hnd.2.2 l hmem l hl rfl) (fun hmem => (hnd.2.1.mem_erase_iff.mp hmem).1 rfl)
    rw [heq, ← pageHeapRelease_withLive]
    refine ⟨loc, c, hI', ?_⟩
    obtain ⟨mapped, mappedBytes, -, hrel⟩ := pageHeapRelease_eq x l (s.headers l).mappingSize
      ((largeRemove l (markFree l s)).withLive (s.live.filter fun e => e.ptr != b.ptr))
    rw [hrel]
    exact hO.same rfl (fun _ ha => ha) fun _ _ => Span.Like.refl _

def OwnRefill (s : State) : Env × Call → Prop
  | (x, .malloc size) => RefillsOwn x (sizeClassIndex (requestSize size)) s
  | _ => True

def Owns (M : Platform) (s : State) : Prop := s = State.initial ∨ Owned M s

theorem Owns.ready (h : Owns M s) : Ready M s := h.imp_right Owned.good

theorem Owns.malloc (hpag : spanSize ≤ M.pageSize) (h : Owns M s) (hsz : size < modulus)
    (hown : RefillsOwn x (sizeClassIndex (requestSize size)) s) :
    Owns M ((malloc M x size s).2.gain (malloc M x size s).1 size) ∧
      ((malloc M x size s).1 ≠ 0 → sizeClassIndex (requestSize size) < sizeClassCount →
        let hd := (malloc M x size s).2.headers ((malloc M x size s).1 - M.headerSize)
        hd.kind = .small ∧ hd.ownerP = memoryCurrentP x ∧
          hd.capacity = sizeClassCapacity (sizeClassIndex (requestSize size))) := by
  have hcas : s = State.initial ∧ Memory.malloc M x size s = (0, s) ∨
      ∃ t, Owned M t ∧ t.live = s.live ∧ RefillsOwn x (sizeClassIndex (requestSize size)) t ∧
        Memory.malloc M x size s = Memory.mallocLocked M x (requestSize size) t := by
    rcases malloc_cases hpag h.ready x size with hnl | ⟨t, ht, rfl | ⟨rfl, rfl⟩, heq⟩
    · exact .inl hnl
    · rcases h with rfl | h
      · -- an initialised state is not the initial one
        obtain ⟨loc, c, hI⟩ := ht
        exact absurd hI.layout.initialized (by decide)
      · exact .inr ⟨t, h, rfl, hown, heq⟩
    · obtain ⟨loc, c, hI⟩ := ht
      refine .inr ⟨_, ⟨loc, c, hI, fun a ha => absurd ha not_mem_nil⟩, rfl, ?_, heq⟩
      exact fun _ _ a ha => absurd ha (by simp [findRefillSpan, State.initial])
  rcases hcas with ⟨rfl, heq⟩ | ⟨t, ht, hlv, hown', heq⟩
  · rw [heq]
    exact ⟨Or.inl rfl, fun hne => absurd rfl hne⟩
  · have hkeep := (mallocLocked_spec ht.good x (requestSize_pos size) (requestSize_lt hsz)).1
    have hser := ht.mallocLocked x (requestSize_pos size) (requestSize_lt hsz) hown'
    rw [← heq] at hkeep hser
    rcases hser with ⟨hzr, hO⟩ | ⟨hne, hO, hfac⟩
    · rw [gain, if_pos hzr]
      exact ⟨Or.inr hO, fun hne => absurd hzr hne⟩
    · rw [gain, if_neg hne, hkeep]
      exact ⟨Or.inr hO, fun _ hsma => hfac hsma⟩

theorem Owns.step (hpag : spanSize ≤ M.pageSize) (h : Owns M s) {call : Call}
    (hcl : call.mallocOrFree = true) (hown : OwnRefill s (x, call))
    (hst : step M s (x, call) = some t) : Owns M t := by
  cases call with
  | malloc size =>
    simp only [Memory.step] at hst
    split_ifs at hst with hsz
    cases hst
    exact (h.malloc hpag hsz hown).1
  | free ptr =>
    simp only [Memory.step] at hst
    split_ifs at hst with hptr
    cases hst
    rcases hptr with rfl | hptr
    · rw [h.ready.free_null]
      exact h
    · obtain ⟨b, hb, rfl⟩ := State.mem_of_holds hptr
      rcases h with rfl | h
      · exact absurd hb not_mem_nil
      · exact .inr (h.free x hb)
  | calloc count size => exact absurd hcl (by simp [Call.mallocOrFree])
  | realloc ptr size => exact absurd hcl (by simp [Call.mallocOrFree])
  | write ptr offset value => exact absurd hcl (by simp [Call.mallocOrFree])

theorem owns_of_run (hpag : spanSize ≤ M.pageSize) {calls : List (Env × Call)}
    (hkin : ∀ l ∈ calls, l.2.mallocOrFree = true)
    (hown : Trans.Meets (Memory.step M) OwnRefill State.initial calls)
    (hrun : Trans.run (Memory.step M) State.initial calls = some s) : Owns M s := by
  have hmee : Trans.Meets (Memory.step M) (fun _ l => l.2.mallocOrFree = true) State.initial
      calls := Trans.meets_of_forall (fun l hl _ => hkin l hl) State.initial
  exact Trans.run_invariant_of_meets (I := Owns M)
    (fun _ _ _ hst hC hI => hI.step hpag hC.1 hC.2 hst) hrun (hmee.and hown) (.inl rfl)

def GoesTo (M : Platform) (y : Env) (d : Bin) (ptr : ℕ) (s : State) : Prop :=
  ∃ t : State, (t.bins d).head = ptr ∧ t.link ptr = (s.bins d).head ∧
    (t.bins d).count = (s.bins d).count + 1 ∧ (∀ e, e ≠ d → t.bins e = s.bins e) ∧
    free M y ptr s = if (t.bins d).count > cacheMax then drainCache M y d.classIndex t else t

theorem cacheGive_same (M : Platform) (d : Bin) (header user : ℕ) (s : State) :
    (cacheGive M d header user s).bins = update s.bins d ⟨user, add (s.bins d).count 1⟩ ∧
      (cacheGive M d header user s).stats = (countCrossPFree d s).stats ∧
      ((s.bins d).head < 2 ^ 64 → (cacheGive M d header user s).link user = (s.bins d).head) := by
  have hbn : (countCrossPFree d s).bins = s.bins := by
    unfold countCrossPFree
    split <;> rfl
  have hpoi : ∀ k, (poison M user k (countCrossPFree d s)).bins = s.bins ∧
      (poison M user k (countCrossPFree d s)).stats = (countCrossPFree d s).stats := by
    intro k
    rw [← hbn]
    unfold poison
    split_ifs <;> exact ⟨rfl, rfl⟩
  unfold cacheGive
  generalize hu : poison M user (s.headers header).capacity (countCrossPFree d s) = u
  obtain ⟨hbins', hstats'⟩ := hpoi (s.headers header).capacity
  rw [hu] at hbins' hstats'
  have hln : (cacheLink M d header user u).bins =
      update u.bins d ⟨user, add (u.bins d).count 1⟩ := rfl
  refine ⟨by rw [hln, hbins'], hstats', fun hhd => ?_⟩
  have hsto : (cacheLink M d header user u).bytes = store u.bytes user 8 (u.bins d).head := rfl
  rw [link, hsto, hbins']
  exact load_store_word _ _ hhd

theorem drainLoop_crossPFrees (x : Env) (d : Bin) : ∀ (n : ℕ) (s : State),
    (drainLoop M x d n s).stats.crossPFrees = s.stats.crossPFrees
  | 0, _ => rfl
  | n + 1, s => by
    have hone : (drainOne M x d s).stats.crossPFrees = s.stats.crossPFrees := by
      unfold drainOne
      dsimp only
      generalize (s.headers ((s.bins d).head - M.headerSize)).span = a
      have hmv : (spanMoveToCentral M a (s.bins d).head (binPop d s)).stats = s.stats := by
        unfold spanMoveToCentral
        split_ifs <;> rfl
      rw [spanReclaimIfEmpty_eq]
      by_cases hcn : a = 0 ∨ ((spanMoveToCentral M a (s.bins d).head
          (binPop d s)).spans a).reclaimable = false
      · rw [if_pos hcn, hmv]
      · rw [if_neg hcn]
        obtain ⟨mapped, mappedBytes, -, heq⟩ := pageHeapRelease_eq x
          ((spanMoveToCentral M a (s.bins d).head (binPop d s)).spans a).mappingBase
          ((spanMoveToCentral M a (s.bins d).head (binPop d s)).spans a).mappingSize
          ((spanMoveToCentral M a (s.bins d).head (binPop d s)).disown a)
        have hcro := congrArg Stats.crossPFrees hmv
        rw [heq]
        exact hcro
    rw [drainLoop]
    by_cases hhd : (s.bins d).head = 0
    · rw [if_pos hhd]
    · rw [if_neg hhd, drainLoop_crossPFrees x d n, hone]

theorem sizeClassCapacity_inj {k k' : ℕ} (hk : k < sizeClassCount) (hk' : k' < sizeClassCount)
    (heq : sizeClassCapacity k = sizeClassCapacity k') : k = k' := by
  have hall : ∀ i < sizeClassCount, ∀ j < sizeClassCount,
      sizeClassCapacity i = sizeClassCapacity j → i = j := by decide +kernel
  exact hall k hk k' hk' heq

theorem Inv.free_goesTo (h : Inv M s loc c) (y : Env) (hb : b ∈ s.live)
    (hsma : (s.headers (b.ptr - M.headerSize)).kind = .small)
    (hwn : (s.headers (b.ptr - M.headerSize)).ownerP = p) (hk : k < sizeClassCount)
    (hcap : (s.headers (b.ptr - M.headerSize)).capacity = sizeClassCapacity k) :
    GoesTo M y (if p = memoryCurrentP y then .cache p k else .remote p k) b.ptr s ∧
      (free M y b.ptr s).stats.crossPFrees =
        if p = memoryCurrentP y then s.stats.crossPFrees else add s.stats.crossPFrees 1 := by
  obtain ⟨a, ha, i, hi, hu, -, heq⟩ | ⟨l, hl, hu, hkn, -⟩ := h.free_cases y hb
  swap
  · rw [hsma] at hkn
    exact absurd hkn (by decide)
  have hsp := h.layout.spans a ha
  have hhea := h.headers.slot a ha i hi
  have hce : b.ptr - M.headerSize = s.cellAt a i := by rw [hu, State.slot_sub]
  rw [hce, hhea.ownerP] at hwn
  rw [hce, hhea.capacity, hsp.capacity] at hcap
  have hcla := sizeClassCapacity_inj hsp.classIndex hk hcap
  have hps := pushBin_eq y hsp.ownerP (s.spans a).classIndex
  rw [hwn, hcla] at hps
  obtain ⟨-, -, hsm⟩ := h.give ha hi hb hu (pushBin_fits y hsp.ownerP a _) rfl
  have hequ := h.cachePush_eq y ha hi rfl rfl
  rw [hwn, hcla, hps] at hsm hequ
  have hal : loc (s.slot M a i) = .allocated := by
    rcases (h.live.mem b.ptr).mp (mem_map_of_mem hb) with ⟨-, hal⟩ | ⟨l, hl, hlar⟩
    · rw [hu] at hal
      exact hal
    · rw [hu] at hlar
      exact absurd (Nat.add_right_cancel hlar) (h.layout.cellAt_ne_large ha hi hl)
  have hcro : (countCrossPFree (if p = memoryCurrentP y then .cache p k else .remote p k)
      (markFree (s.cellAt a i) s)).stats.crossPFrees =
      if p = memoryCurrentP y then s.stats.crossPFrees else add s.stats.crossPFrees 1 := by
    split_ifs <;> rfl
  have hbin : (if p = memoryCurrentP y then Bin.cache p k else Bin.remote p k).classIndex = k := by
    split_ifs <;> rfl
  rw [hsm, ← heq] at hequ
  generalize (if p = memoryCurrentP y then Bin.cache p k else Bin.remote p k) = d
    at hcro hequ hbin ⊢
  obtain ⟨hbn, hsta, hln⟩ := cacheGive_same M d (s.cellAt a i) (s.slot M a i)
    (markFree (s.cellAt a i) s)
  have hls : s.HasList (.bin d) := trivial
  have hhd : (s.bins d).head < 2 ^ 64 := h.lists.head_lt h.layout hls
  have hadd := h.lists.binCount_add h.layout (b := d) ⟨a, ha, i, hi, rfl⟩ (by rw [hal]; simp)
  generalize cacheGive M d (s.cellAt a i) (s.slot M a i) (markFree (s.cellAt a i) s) = t
    at hbn hsta hln hequ
  refine ⟨⟨t, ?_, ?_, ?_, fun e he => ?_, ?_⟩, ?_⟩
  · rw [hbn, update_self, hu]
  · rw [hu]
    exact hln hhd
  · rw [hbn, update_self]
    exact hadd
  · rw [hbn, update_of_ne he]
    rfl
  · rw [hequ, hbin]
  · rw [hequ, ← hcro, ← hsta]
    split_ifs
    · exact drainLoop_crossPFrees y _ cacheRefill t
    · rfl

/-- **Frees are classified by the P that allocated the object** -/
theorem free_classified (hpag : spanSize ≤ M.pageSize) {before between : List (Env × Call)}
    {s₀ s₁ : State} (hkin : ∀ l ∈ before ++ (x, .malloc size) :: between, l.2.mallocOrFree = true)
    (hown : Trans.Meets (Memory.step M) OwnRefill State.initial
      (before ++ (x, .malloc size) :: between))
    (hbef : Trans.run (Memory.step M) State.initial before = some s₀)
    (hbet : Trans.run (Memory.step M) s₀ ((x, .malloc size) :: between) = some s₁)
    (hsma : sizeClassIndex (requestSize size) < sizeClassCount)
    (hptr : (malloc M x size s₀).1 = ptr) (hne : ptr ≠ 0)
    (hhl : ∀ l ∈ between, l.2 ≠ .free ptr) (y : Env) :
    let p := memoryCurrentP x
    let k := sizeClassIndex (requestSize size)
    (p = memoryCurrentP y → GoesTo M y (.cache p k) ptr s₁ ∧
      (free M y ptr s₁).stats.crossPFrees = s₁.stats.crossPFrees) ∧
    (p ≠ memoryCurrentP y → GoesTo M y (.remote p k) ptr s₁ ∧
      (free M y ptr s₁).stats.crossPFrees = add s₁.stats.crossPFrees 1) := by
  dsimp only
  obtain ⟨hwB, hwR⟩ := hown.of_append
  have hwM : RefillsOwn x (sizeClassIndex (requestSize size)) s₀ := (hwR s₀ hbef).1
  have hws : Owns M s₀ := owns_of_run hpag
    (fun l hl => hkin l (mem_append_left _ hl)) hwB hbef
  -- the allocation: the header names the P of the call
  rw [Trans.run_cons, bind_eq_some_iff] at hbet
  obtain ⟨t, hst, hrs⟩ := hbet
  have hrdy := hws.ready.step hpag hst
  simp only [Memory.step] at hst
  split_ifs at hst with hsz
  cases hst
  obtain ⟨-, hfac⟩ := hws.malloc hpag hsz hwM
  rw [hptr] at hfac hrdy hrs
  obtain ⟨hkn, hwn, hcap⟩ := hfac hne hsma
  have hmem : ⟨ptr, requestSize size⟩ ∈ ((malloc M x size s₀).2.gain ptr size).live := by
    rw [gain, if_neg hne]
    exact mem_cons_self
  -- until the free nothing writes into the block
  obtain ⟨hrdy₁, hmem₁, hsr⟩ := run_spares hpag hrdy hrs hmem (by
    intro l hl htarget
    have hcl := hkin l (mem_append_right _ (mem_cons_of_mem _ hl))
    have hnot := hhl l hl
    obtain ⟨z, call⟩ := l
    cases call with
    | malloc size' => exact hne htarget.symm
    | free ptr' => exact hnot (congrArg Call.free htarget)
    | calloc count size' => exact absurd hcl (by simp [Call.mallocOrFree])
    | realloc ptr' size' => exact absurd hcl (by simp [Call.mallocOrFree])
    | write ptr' offset value => exact absurd hcl (by simp [Call.mallocOrFree]))
  have hgai : ((malloc M x size s₀).2.gain ptr size).headers =
      (malloc M x size s₀).2.headers := by
    rw [gain, if_neg hne]
  have hhea := hsr.header
  rw [hgai] at hhea
  obtain ⟨loc, c, hI⟩ := hrdy₁.good hmem₁
  have hgs := hI.free_goesTo (p := memoryCurrentP x) y hmem₁ (by rw [hhea]; exact hkn)
    (by rw [hhea]; exact hwn) hsma (by rw [hhea]; exact hcap)
  refine ⟨fun hsm => ?_, fun hoth => ?_⟩
  · rw [if_pos hsm, if_pos hsm] at hgs
    exact hgs
  · rw [if_neg hoth, if_neg hoth] at hgs
    exact hgs

instance (x : Env) (k : ℕ) (s : State) : Decidable (RefillsOwn x k s) :=
  decidable_of_iff ((s.bins (.cache (memoryCurrentP x) k)).head = 0 →
    (s.bins (.remote (memoryCurrentP x) k)).count < cacheRefill →
      (findRefillSpan k s).all (fun a => (s.spans a).ownerP == memoryCurrentP x) = true) (by
    unfold RefillsOwn
    cases findRefillSpan k s <;> simp)

instance (s : State) : ∀ l, Decidable (OwnRefill s l)
  | (x, .malloc size) =>
    inferInstanceAs (Decidable (RefillsOwn x (sizeClassIndex (requestSize size)) s))
  | (_, .free _) | (_, .calloc _ _) | (_, .realloc _ _) | (_, .write _ _ _) =>
    inferInstanceAs (Decidable True)

def ownSpanCalls : List (Env × Call) :=
  [(⟨0, some 65536, fun _ => true⟩, .malloc 1280), (⟨0, none, fun _ => true⟩, .malloc 1280)]

theorem ownSpanCalls_malloc :
    (Trans.run (Memory.step ⟨false, 4096⟩) State.initial ownSpanCalls).isSome = true ∧
      (malloc ⟨false, 4096⟩ ⟨0, some 65536, fun _ => true⟩ 1280 State.initial).1 = 91472 := by
  decide +kernel

theorem free_classified_ownSpan : ∃ s,
    Trans.run (Memory.step ⟨false, 4096⟩) State.initial ownSpanCalls = some s ∧
      GoesTo ⟨false, 4096⟩ ⟨1, none, fun _ => true⟩ (.remote 0 22) 91472 s ∧
      (free ⟨false, 4096⟩ ⟨1, none, fun _ => true⟩ 91472 s).stats.crossPFrees =
        add s.stats.crossPFrees 1 := by
  obtain ⟨hso, hptr⟩ := ownSpanCalls_malloc
  obtain ⟨s, hrun⟩ := isSome_iff_exists.mp hso
  have hown : Trans.Meets (Memory.step ⟨false, 4096⟩) OwnRefill State.initial ownSpanCalls :=
    Trans.meets_of_checks (c := fun s l => decide (OwnRefill s l)) (fun s l h => of_decide_eq_true h)
      (by decide +kernel)
  have hcla : sizeClassIndex (requestSize 1280) = 22 := by decide +kernel
  have hstar : Trans.run (Memory.step ⟨false, 4096⟩) State.initial [] = some State.initial := rfl
  have hbt := free_classified (by decide) (by decide) hown hstar hrun
    (by rw [hcla]; decide) hptr (by decide) (by simp) ⟨1, none, fun _ => true⟩
  rw [hcla] at hbt
  exact ⟨s, hrun, hbt.2 (by decide)⟩

def foreignSpanCalls : List (Env × Call) :=
  [(⟨0, some 65536, fun _ => true⟩, .malloc 1280), (⟨1, none, fun _ => true⟩, .malloc 1280)]

theorem foreignSpanCalls_free :
    (Trans.run (Memory.step ⟨false, 4096⟩) State.initial foreignSpanCalls).map (fun s =>
      (s.live.map Block.ptr, s.stats.crossPFrees,
        ((free ⟨false, 4096⟩ ⟨1, none, fun _ => true⟩ 69712 s).bins (.remote 0 22)).head,
        (free ⟨false, 4096⟩ ⟨1, none, fun _ => true⟩ 69712 s).stats.crossPFrees)) =
      some ([69712, 91472], 0, 69712, 1) := by
  decide +kernel

/-- **An object that P 1 allocates and frees goes to the remote queue of P 0 and is counted** -/
theorem foreignSpanCalls_misclassified : ∃ s₁ s,
    Trans.run (Memory.step ⟨false, 4096⟩) State.initial (foreignSpanCalls.take 1) = some s₁ ∧
      (malloc ⟨false, 4096⟩ ⟨1, none, fun _ => true⟩ 1280 s₁).1 = 69712 ∧
      Trans.run (Memory.step ⟨false, 4096⟩) State.initial foreignSpanCalls = some s ∧
      s.live.map Block.ptr = [69712, 91472] ∧
      ((free ⟨false, 4096⟩ ⟨1, none, fun _ => true⟩ 69712 s).bins (.remote 0 22)).head = 69712 ∧
      (free ⟨false, 4096⟩ ⟨1, none, fun _ => true⟩ 69712 s).stats.crossPFrees =
        s.stats.crossPFrees + 1 := by
  obtain ⟨s, hrun, heq⟩ := map_eq_some_iff.mp foreignSpanCalls_free
  simp only [Prod.mk.injEq] at heq
  obtain ⟨hlv, hbef, hhd, hcro⟩ := heq
  have hmal : (Trans.run (Memory.step ⟨false, 4096⟩) State.initial (foreignSpanCalls.take 1)).map
      (fun s => (malloc ⟨false, 4096⟩ ⟨1, none, fun _ => true⟩ 1280 s).1) = some 69712 := by
    decide +kernel
  obtain ⟨s₁, hone, hret⟩ := map_eq_some_iff.mp hmal
  exact ⟨s₁, s, hone, hret, hrun, hlv, hhd, by rw [hcro, hbef]⟩

end Veloco.Memory
