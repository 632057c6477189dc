import Veloco.Memory.Clients

/-!
# What a call leaves alone
-/

namespace Veloco.Memory

open Function List
open Veloco.Bytes Veloco.Word

structure Spares (M : Platform) (b : Block) (s t : State) : Prop where
  header : t.headers (b.ptr - M.headerSize) = s.headers (b.ptr - M.headerSize)
  byte : ∀ j < b.size, t.bytes (b.ptr + j) = s.bytes (b.ptr + j)

variable {M : Platform} {x : Env} {s t u : State} {loc : ℕ → Place} {c : Place → List ℕ}
  {a i k l n p v ptr size : ℕ} {b d e : Block} {pl : Place}

theorem Spares.refl (M : Platform) (b : Block) (s : State) : Spares M b s s :=
  ⟨rfl, fun _ _ => rfl⟩

theorem Spares.trans (h : Spares M b s t) (h' : Spares M b t u) : Spares M b s u :=
  ⟨h'.header.trans h.header, fun j hj => (h'.byte j hj).trans (h.byte j hj)⟩

theorem Spares.of_eq (h : Spares M b s t) (hhds : u.headers = t.headers)
    (hbyt : u.bytes = t.bytes) : Spares M b s u := by
  refine ⟨?_, fun j hj => ?_⟩
  · rw [hhds]
    exact h.header
  · rw [hbyt]
    exact h.byte j hj

theorem spares_of_eq (hhds : t.headers = s.headers) (hbyt : t.bytes = s.bytes) :
    Spares M b s t :=
  (Spares.refl M b s).of_eq hhds hbyt

theorem Inv.spares_cell (h : Inv M s loc c) (hb : b ∈ s.live) (hc : Cell s l n)
    (hne : b.ptr ≠ l + M.headerSize)
    (hhds : ∀ l' n', Cell s l' n' → l' ≠ l → t.headers l' = s.headers l')
    (hbyt : Keeps s.bytes t.bytes (l + M.headerSize) (n - M.headerSize)) :
    Spares M b s t := by
  obtain ⟨n', hc', hle, hfit, -⟩ := h.live.cell h.layout h.headers hb
  have hsz := (h.live.block b hb).size_le
  have hft := h.layout.header_fits hc
  have hap := h.layout.cells_apart hc hc' (by omega)
  unfold Apart at hap
  refine ⟨hhds _ _ hc' (by omega), fun j hj => hbyt _ ?_⟩
  omega

theorem Inv.spares_touch (h : Inv M s loc c) (hb : b ∈ s.live) (hc : Cell s l n)
    (hne : b.ptr ≠ l + M.headerSize) (ht : Touches M s t l n) : Spares M b s t :=
  h.spares_cell hb hc hne ht.headers ht.bytes

theorem Inv.spares_head (h : Inv M s loc c) (hb : b ∈ s.live) (hpl : s.HasList pl)
    (hhd : s.head pl ≠ 0) (v : ℕ) : Spares M b s (s.setLink M (s.head pl) v) := by
  obtain ⟨a, ha, i, hi, hu, hloc⟩ := h.lists.head_slot hpl hhd
  have hfr : loc (s.slot M a i) ≠ .allocated := by
    rw [hloc]
    rintro rfl
    exact hpl
  have hbd := h.layout.slot_bounds ha hi
  rw [hu]
  refine h.spares_cell hb (Cell.slot ha hi) (h.live.ptr_ne h.layout ha hi hfr hb)
    (fun _ _ hc _ => h.layout.setLink_header ha hi v hc) ?_
  exact (keeps_store _ _ _ _).widen le_rfl (by unfold State.slot at hbd ⊢; omega)

theorem Inv.spares_addMapping (h : Inv M s loc c) (hb : b ∈ s.live) (hf : s.Fresh a n) :
    Spares M b s (s.addMapping M a n) := by
  obtain ⟨m, hc, hle, hfit, -⟩ := h.live.cell h.layout h.headers hb
  have hsz := (h.live.block b hb).size_le
  have hap := h.layout.fresh_apart_cell hf hc
  unfold Apart at hap
  refine ⟨h.layout.addMapping_header hf hc, fun j hj => keeps_fill _ _ _ _ _ ?_⟩
  omega

theorem Inv.spares_created (h : Inv M s loc c) (hb : b ∈ s.live) {new : List ℕ}
    (hC : Created M s t a new) : Spares M b s t := by
  obtain ⟨m, hc, hle, hfit, -⟩ := h.live.cell h.layout h.headers hb
  have hsz := (h.live.block b hb).size_le
  refine ⟨hC.header _ _ hc, fun j hj => ?_⟩
  have hld := hC.load _ _ hc (b.ptr + j) 1 (by omega) (by omega)
  simp only [load, Nat.mul_zero, Nat.add_zero] at hld
  exact UInt8.toNat_inj.mp hld

theorem refillRemote_spares (p k : ℕ) : ∀ (n count : ℕ) (s : State), Good M s →
    ∀ b ∈ s.live, Spares M b s (refillRemote M p k n count s).2
  | 0, _, s, _ => fun b _ => .refl M b s
  | n + 1, count, s, h => by
    intro b hb
    rw [refillRemote]
    by_cases hhd : (s.bins (.remote p k)).head = 0
    · rw [if_pos hhd]
      exact .refl M b s
    · rw [if_neg hhd]
      obtain ⟨loc, c, hI⟩ := h
      have hone := hI.remoteToCache hhd
      have hls : s.HasList (.bin (.remote p k)) := trivial
      have hln := hI.spares_head hb hls hhd ((binPop (.remote p k) s).bins (.cache p k)).head
      have hste : Spares M b s (binPush M (.cache p k) (s.bins (.remote p k)).head
          (binPop (.remote p k) s)) := hln.of_eq rfl rfl
      refine hste.trans (refillRemote_spares p k n (count + 1) _ hone.good b ?_)
      rw [hone.accounts.live]
      exact hb

theorem refillCentral_spares (hp : p < memoryMaxP) : ∀ (n count : ℕ) (s : State), Good M s →
    a ∈ s.allSpans → (s.spans a).classIndex = k →
      ∀ b ∈ s.live, Spares M b s (refillCentral M p k a n count s).2
  | 0, _, s, _, _, _ => fun b _ => .refl M b s
  | n + 1, count, s, h, ha, hk => by
    intro b hb
    rw [refillCentral]
    by_cases hhd : (s.spans a).centralFree = 0
    · rw [if_pos hhd]
      exact .refl M b s
    · rw [if_neg hhd]
      obtain ⟨loc, c, hI⟩ := h
      have hone := hI.centralToCache ha hk hp hhd
      have hbs : a ≠ 0 := Nat.ne_of_gt (hI.layout.mapped.base _ (hI.layout.spans a ha).region).1
      have hls : s.HasList (.central a) := ha
      have hln := hI.spares_head hb hls hhd (s.bins (.cache p k)).head
      have hste : Spares M b s (binPush M (.cache p k) (spanTakeCentral a s).1
          (spanTakeCentral a s).2) := by
        rw [spanTakeCentral, if_neg (not_or.mpr ⟨hbs, hhd⟩)]
        exact hln.of_eq rfl rfl
      refine hste.trans (refillCentral_spares hp n (count + 1) _ hone.good ?_ ?_ b ?_)
      · rw [hone.layout.allSpans]
        exact ha
      · rw [(hone.layout.spans a ha).classIndex]
        exact hk
      · rw [hone.accounts.live]
        exact hb

theorem refillFromSpan_spares (h : Good M s) (hp : p < memoryMaxP) (ha : a ∈ s.allSpans)
    (hk : (s.spans a).classIndex = k) (count : ℕ) (hb : b ∈ s.live) :
    Spares M b s (refillFromSpan M p k a count s).2 := by
  have hspa := refillCentral_spares hp (cacheRefill - count) count s h ha hk b hb
  unfold refillFromSpan
  generalize refillCentral M p k a (cacheRefill - count) count s = r at hspa
  obtain ⟨_ | total, t⟩ := r
  · exact hspa
  · exact hspa.of_eq rfl rfl

theorem spanCreate_spares (h : Good M s) (x : Env) (hk : k < sizeClassCount) (hb : b ∈ s.live) :
    Spares M b s (spanCreate M x k s).2 := by
  obtain ⟨loc, c, hI⟩ := h
  rcases hI.spanCreate_created x hk with ⟨e, heq⟩ | ⟨a, m, t, new, hf, hI', hC, -, -, heq⟩
  · rw [heq]
    exact .refl M b s
  · rw [heq]
    exact (hI.spares_addMapping hb hf).trans (hI'.spares_created hb hC)

theorem refillCache_spares (h : Good M s) (x : Env) (hk : k < sizeClassCount) (hb : b ∈ s.live) :
    Spares M b s (refillCache M x k s).2 := by
  have hp := memoryCurrentP_lt x
  have hqui := quiet_refillRemote (memoryCurrentP x) k cacheRefill 0 s h
  have hrem := refillRemote_spares (memoryCurrentP x) k cacheRefill 0 s h b hb
  unfold refillCache
  dsimp only
  generalize refillRemote M (memoryCurrentP x) k cacheRefill 0 s = r at hqui hrem ⊢
  obtain ⟨count, s₁⟩ := r
  dsimp only at hqui hrem ⊢
  have hb₁ : b ∈ s₁.live := by
    rw [hqui.accounts.live]
    exact hb
  by_cases hfl : count = cacheRefill
  · rw [if_pos hfl]
    exact hrem
  rw [if_neg hfl]
  cases hfn : findRefillSpan k s with
  | some a =>
    obtain ⟨loc, c, hI⟩ := h
    obtain ⟨ha, hka⟩ := findRefillSpan_mem hI.layout hfn
    refine hrem.trans (refillFromSpan_spares hqui.good hp ?_ ?_ count hb₁)
    · rw [hqui.layout.allSpans]
      exact ha
    · rw [(hqui.layout.spans a ha).classIndex]
      exact hka
  | none =>
    have hcre := spanCreate_spares hqui.good x hk hb₁
    obtain ⟨loc, c, hI⟩ := hqui.good
    obtain ⟨hgd, hacc, -, hok⟩ := hI.spanCreate x hk
    dsimp only
    generalize spanCreate M x k s₁ = r at hcre hgd hacc hok ⊢
    obtain ⟨result, s₂⟩ := r
    cases result with
    | error e => exact hrem.trans hcre
    | ok a =>
      obtain ⟨ha, hka⟩ := hok a rfl
      refine (hrem.trans hcre).trans (refillFromSpan_spares hgd hp ha hka count ?_)
      rw [hacc.live]
      exact hb₁

theorem cachePop_spares (h : Good M s) (x : Env) (hk : k < sizeClassCount) :
    ∃ t, Good M t ∧ SameAccounts s t ∧ (∀ b ∈ s.live, Spares M b s t) ∧
      (cachePop M x k s = (0, t) ∨
        (t.bins (.cache (memoryCurrentP x) k)).head ≠ 0 ∧
          cachePop M x k s = cacheTake M (.cache (memoryCurrentP x) k) t) := by
  unfold cachePop
  dsimp only
  by_cases hemp : (s.bins (.cache (memoryCurrentP x) k)).head = 0
  · rw [if_pos hemp]
    obtain ⟨hgd, hacc, hhd⟩ := good_refillCache h x hk
    have hspa := fun b (hb : b ∈ s.live) => refillCache_spares h x hk hb
    refine ⟨(refillCache M x k s).2, hgd, hacc, hspa, ?_⟩
    generalize refillCache M x k s = r at hhd ⊢
    obtain ⟨status, t⟩ := r
    cases status with
    | ok => exact .inr ⟨hhd rfl, rfl⟩
    | _ => exact .inl rfl
  · rw [if_neg hemp]
    exact ⟨s, h, SameAccounts.refl s, fun b _ => .refl M b s, Or.inr ⟨hemp, rfl⟩⟩

theorem Inv.mallocFinish_spares (h : Inv M t loc c) (x : Env)
    (hhd : (t.bins (.cache p k)).head ≠ 0) (hcap : size ≤ sizeClassCapacity k) (hb : b ∈ t.live) :
    Spares M b t (mallocFinish M x k size (cacheTake M (.cache p k) t).1
      (cacheTake M (.cache p k) t).2) := by
  have hL := h.layout
  have hls : t.HasList (.bin (.cache p k)) := trivial
  obtain ⟨a, ha, i, hi, hu, hloc⟩ := h.lists.head_slot hls hhd
  have hfit := h.lists.fits a ha i hi
  rw [hloc] at hfit
  have hcp : (t.spans a).capacity = sizeClassCapacity k := by
    rw [(hL.spans a ha).capacity, ← hfit.1]
    rfl
  obtain ⟨hfst, hsm, -⟩ := h.take ha hi hu hloc
  have hne := h.live.ptr_ne hL ha hi (by rw [hloc]; simp) hb
  have hc : Cell (cacheTake M (.cache p k) t).2 (t.cellAt a i) (t.spans a).objectStride :=
    hsm.cell (Cell.slot ha hi)
  have hbd := hL.slot_bounds ha hi
  have hst := hL.stride_bounds ha
  have hlar : t.cellAt a i ∉ (cacheTake M (.cache p k) t).2.largeAllocations := by
    rw [hsm.largeAllocations]
    exact fun hmem => hL.cellAt_ne_large ha hi hmem rfl
  rw [hfst]
  have hfra : (cacheTake M (.cache p k) t).2.headers = t.headers ∧
      (cacheTake M (.cache p k) t).2.bytes = t.bytes := ⟨rfl, rfl⟩
  generalize (cacheTake M (.cache p k) t).2 = t₁ at hsm hc hlar hfra ⊢
  have hpr := (hL.same hsm).prepared hc
    { t₁.headers (t.cellAt a i) with
      magic := objectMagic
      kind := .small
      state := .allocated
      requestedSize := size
      capacity := sizeClassCapacity k
      span := (t₁.headers (t.cellAt a i)).span
      mappingBase := 0
      mappingSize := 0
      ownerP := if (t₁.headers (t.cellAt a i)).span ≠ 0 then
        (t₁.spans (t₁.headers (t.cellAt a i)).span).ownerP else memoryCurrentP x }
    (fun hmem => absurd hmem hlar) (by dsimp only; omega)
    { t₁.stats with
      activeBytes := add t₁.stats.activeBytes size
      activeObjects := add t₁.stats.activeObjects 1 }
  have hfin : mallocFinish M x k size (t.slot M a i) t₁ =
      debugPrepare M (t.cellAt a i) (t.cellAt a i + M.headerSize)
        ((initializeHeader x (t.cellAt a i) .small (sizeClassCapacity k) size
          (t₁.headers (t.cellAt a i)).span 0 0 t₁).countAllocation size) := by
    rw [mallocFinish, State.slot_sub]
    rfl
  rw [hfin]
  refine h.spares_cell hb (Cell.slot ha hi) hne (fun l' n' hc' hl' => ?_) ?_
  · rw [← hfra.1]
    exact hpr.touches.headers l' n' (hsm.cell hc') hl'
  · rw [← hfra.2]
    exact hpr.touches.bytes

theorem Inv.spares_adoptLarge (h : Inv M s loc c) (hsp : l ∉ s.allSpans)
    (hlar : l ∉ s.largeAllocations) {hd : Header} (hok : LargeOk M s.mapped l hd)
    (hrm : M.headerSize + hd.requestedSize + M.suffixSize ≤ hd.mappingSize)
    (hb : b ∈ s.live) :
    Spares M b s (debugPrepare M l (l + M.headerSize)
      ((s.adoptLarge l hd).countAllocation size)) := by
  have htou := (h.prepared_adoptLarge hsp hlar hok size hrm).touches
  obtain ⟨n, hc, hle, hfit, -⟩ := h.live.cell h.layout h.headers hb
  obtain ⟨hne, hc'⟩ := h.cell_adoptLarge hsp hlar hok hc
  have hsz := (h.live.block b hb).size_le
  refine ⟨?_, fun j hj => htou.bytes _ ?_⟩
  · rw [htou.headers _ _ hc' hne]
    exact update_of_ne hne _ _
  · have hcl : Cell (s.adoptLarge l hd) l ((s.adoptLarge l hd).headers l).mappingSize :=
      Cell.large mem_cons_self
    have hsl : (s.adoptLarge l hd).headers l = hd := update_self _ _ _
    rw [hsl] at hcl
    have hap := (h.layout_adoptLarge hsp hlar hok).cells_apart hcl hc' hne.symm
    unfold Apart at hap
    omega

theorem mallocLarge_spares (h : Good M s) (x : Env) (size : ℕ) (hb : b ∈ s.live) :
    Spares M b s (mallocLarge M x size s).2 := by
  unfold mallocLarge
  split_ifs with hsz
  · exact .refl M b s
  dsimp only
  split_ifs with htot hpages
  · exact .refl M b s
  · exact .refl M b s
  obtain ⟨loc, c, hI⟩ := h
  have hpag : 0 < s.pageSize := lt_of_lt_of_le (by decide) hI.layout.holdsSpan
  have hft := le_pages_mul (M.headerSize + size + M.suffixSize) hpag
  generalize (M.headerSize + size + M.suffixSize + s.pageSize - 1) / s.pageSize = pages
    at hpages hft
  rcases pageHeapAcquire_cases M x pages s with hnn | ⟨l, hpg, hf, hso⟩
  · rw [hnn]
    exact .refl M b s
  · rw [hso]
    have hn : 0 < pages * s.pageSize := by
      have hhdr := M.headerSize_cases
      omega
    have hmap := hI.spares_addMapping hb hf
    have hI₁ := hI.addMapping hf hn
    obtain ⟨hsp, hlar⟩ := hI.layout.fresh_not_mem hf hn
    have hb₁ : b ∈ (s.addMapping M l (pages * s.pageSize)).live := hb
    have hok : LargeOk M (s.addMapping M l (pages * s.pageSize)).mapped l
        { (s.addMapping M l (pages * s.pageSize)).headers l with
          magic := objectMagic
          kind := .large
          state := .allocated
          requestedSize := size
          capacity := size
          span := 0
          mappingBase := l
          mappingSize := pages * s.pageSize
          ownerP := memoryCurrentP x } := ⟨rfl, rfl, mem_cons_self, hft⟩
    exact hmap.trans (hI₁.spares_adoptLarge hsp hlar hok hft hb₁)

theorem malloc_spares (hpag : spanSize ≤ M.pageSize) (h : Ready M s) (x : Env) (size : ℕ)
    (hb : b ∈ s.live) : Spares M b s (malloc M x size s).2 := by
  rcases malloc_cases hpag h x size with ⟨rfl, -⟩ | ⟨t, ht, rfl | ⟨rfl, -⟩, heq⟩
  · exact absurd hb not_mem_nil
  · rw [heq]
    unfold mallocLocked
    split_ifs with hcan
    · exact .refl M b t
    dsimp only
    split_ifs with hlar
    · exact mallocLarge_spares ht x _ hb
    have hk := not_le.mp hlar
    obtain ⟨hctd, hacc⟩ := ht.countCacheHit x (sizeClassIndex (requestSize size))
    have hhit : Spares M b t (countCacheHit x (sizeClassIndex (requestSize size)) t) := by
      unfold countCacheHit
      split_ifs
      · exact spares_of_eq rfl rfl
      · exact .refl M b t
    obtain ⟨u, hu, hacc', hspa, hnl | ⟨hhd, htk⟩⟩ := cachePop_spares hctd x hk
    · rw [hnl]
      exact hhit.trans (hspa b (by rw [hacc.live]; exact hb))
    · have hbu : b ∈ u.live := by
        rw [hacc'.live, hacc.live]
        exact hb
      obtain ⟨loc, c, hI⟩ := hu
      have hfin := hI.mallocFinish_spares x hhd (le_sizeClassCapacity hk) hbu
      have hbef := hhit.trans (hspa b (by rw [hacc.live]; exact hb))
      rw [htk]
      have htak : Spares M b u
          (cacheTake M (.cache (memoryCurrentP x) (sizeClassIndex (requestSize size))) u).2 :=
        spares_of_eq rfl rfl
      generalize cacheTake M (.cache (memoryCurrentP x) (sizeClassIndex (requestSize size))) u = r
        at hfin htak ⊢
      obtain ⟨_ | user, v⟩ := r
      · exact hbef.trans htak
      · exact hbef.trans hfin
  · exact absurd hb not_mem_nil

theorem Inv.spares_give (h : Inv M s loc c) (ha : a ∈ s.allSpans)
    (hi : i < (s.spans a).objectCount) (hne : e.ptr ≠ s.slot M a i) (he : e ∈ s.live) (d : Bin) :
    Spares M e s (cacheGive M d (s.cellAt a i) (s.slot M a i)
      (markFree (s.cellAt a i) s)) := by
  have hL := h.layout
  have hc : Cell s (s.cellAt a i) (s.spans a).objectStride := Cell.slot ha hi
  have hst := hL.stride_bounds ha
  have hbd := hL.slot_bounds ha hi
  have hlar : s.cellAt a i ∉ s.largeAllocations := fun hmem => hL.cellAt_ne_large ha hi hmem rfl
  have hmr : Touches M s (markFree (s.cellAt a i) s) (s.cellAt a i) (s.spans a).objectStride :=
    (Touches.setHeader _ fun hmem => absurd hmem hlar).trans (Touches.accounts M _ _ _ _ _)
  have hsl : (markFree (s.cellAt a i) s).headers (s.cellAt a i) =
      { s.headers (s.cellAt a i) with state := .free } := update_self _ _ _
  have hcap : ((markFree (s.cellAt a i) s).headers (s.cellAt a i)).capacity =
      (s.spans a).capacity := by
    rw [hsl]
    exact (h.headers.slot a ha i hi).capacity
  obtain ⟨stats, -, -, hcro⟩ := countCrossPFree_eq d (markFree (s.cellAt a i) s)
  have hcnt : Touches M s (countCrossPFree d (markFree (s.cellAt a i) s)) (s.cellAt a i)
      (s.spans a).objectStride := by
    rw [hcro]
    exact hmr.trans (Touches.accounts M _ _ _ _ _)
  unfold cacheGive
  rw [hcap]
  generalize countCrossPFree d (markFree (s.cellAt a i) s) = t at hcnt ⊢
  have hpoi := hcnt.trans (touches_poison (hL.same hcnt.same) (hcnt.same.cell hc)
    (k := (s.spans a).capacity) (by omega))
  have hsr : s.cellAt a i + M.headerSize = s.slot M a i := rfl
  rw [hsr] at hpoi
  generalize poison M (s.slot M a i) (s.spans a).capacity t = u at hpoi ⊢
  -- the link is written into the same cell
  have hln : Touches M u (u.setLink M (s.slot M a i) (u.bins d).head) (s.cellAt a i)
      (s.spans a).objectStride :=
    Touches.overwrite (hL.same hpoi.same) (hpoi.same.cell hc) (Nat.le_of_eq hsr)
      hbd.2.2.1 (keeps_store _ _ _ _)
  exact (h.spares_touch he hc hne (hpoi.trans hln)).of_eq rfl rfl

theorem drainLoop_spares (x : Env) (d : Bin) : ∀ (n : ℕ) (s : State), Good M s →
    ∀ b ∈ s.live, Spares M b s (drainLoop M x d n s)
  | 0, s, _ => fun b _ => .refl M b s
  | n + 1, s, h => by
    intro b hb
    rw [drainLoop]
    by_cases hhd : (s.bins d).head = 0
    · rw [if_pos hhd]
      exact .refl M b s
    · rw [if_neg hhd]
      obtain ⟨loc, c, hI⟩ := h
      obtain ⟨hgd, hacc, a, ha, hone⟩ := hI.drainOne x hhd
      have hbs : a ≠ 0 := Nat.ne_of_gt (hI.layout.mapped.base _ (hI.layout.spans a ha).region).1
      have hls : s.HasList (.bin d) := trivial
      have hln := hI.spares_head hb hls hhd ((binPop d s).spans a).centralFree
      have hmv : Spares M b s (spanMoveToCentral M a (s.bins d).head (binPop d s)) := by
        rw [spanMoveToCentral, if_neg (not_or.mpr ⟨hbs, hhd⟩)]
        exact hln.of_eq rfl rfl
      have htr : Spares M b s (drainOne M x d s) := by
        obtain ⟨-, hhds, -, hbyt⟩ := spanReclaimIfEmpty_same x a
          (spanMoveToCentral M a (s.bins d).head (binPop d s))
        rw [hone]
        exact hmv.of_eq hhds hbyt
      refine htr.trans (drainLoop_spares x d n _ hgd b ?_)
      rw [hacc.live]
      exact hb

theorem free_spares (h : Good M s) (x : Env) (hb : b ∈ s.live) (he : e ∈ s.live)
    (hne : e.ptr ≠ b.ptr) : Spares M e s (free M x b.ptr s) := by
  obtain ⟨loc, c, hI⟩ := h
  have hmem : e ∈ s.live.filter fun e => e.ptr != b.ptr := by
    refine mem_filter.mpr ⟨he, ?_⟩
    simpa using hne
  obtain ⟨a, ha, i, hi, hu, -, heq⟩ | ⟨l, hl, hu, -, heq⟩ := hI.free_cases x hb
  · have hgv := hI.spares_give ha hi (hu ▸ hne) he
      (pushBin x (s.spans a).ownerP (s.spans a).classIndex)
    have hgd : Good M _ :=
      ⟨_, _, (hI.give ha hi hb hu (pushBin_fits x (hI.layout.spans a ha).ownerP a _) rfl).1⟩
    rw [heq, hI.cachePush_eq x ha hi rfl rfl]
    generalize cacheGive M _ (s.cellAt a i) (s.slot M a i) (markFree (s.cellAt a i) s) = t
      at hgv hgd ⊢
    split_ifs
    · -- the drain works on the blocks that are left
      unfold drainCache
      have hdra := drainLoop_spares x (.cache (memoryCurrentP x)
        (t.spans (t.headers (s.cellAt a i)).span).classIndex) cacheRefill _ hgd e hmem
      rw [drainLoop_withLive] at hdra
      exact hgv.trans ⟨hdra.header, hdra.byte⟩
    · exact hgv
  · obtain ⟨mapped, mappedBytes, -, hrel⟩ := pageHeapRelease_eq x l (s.headers l).mappingSize
      (largeRemove l (markFree l s))
    obtain ⟨n, -, hle, -⟩ := hI.live.cell hI.layout hI.headers he
    rw [heq, hrel]
    refine ⟨update_of_ne ?_ _ _, fun _ _ => rfl⟩
    omega

end Veloco.Memory
