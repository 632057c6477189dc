import Mathlib.Data.List.Basic

/-!
# First occurrences in a list, and lines
-/

namespace Veloco.Search

open List Option

variable {α : Type*} [DecidableEq α] {pat l m : List α} {a : α} {k : ℕ}

/-! ## First occurrences -/

def find (pat : List α) : List α → Option ℕ
  | [] => if pat = [] then some 0 else none
  | a :: l => if pat.isPrefixOf (a :: l) then some 0 else (find pat l).map (· + 1)

theorem find_cons_pos (h : pat <+: a :: l) : find pat (a :: l) = some 0 :=
  if_pos ( isPrefixOf_iff_prefix.mpr h)

theorem find_cons_neg (h : ¬ pat <+: a :: l) : find pat (a :: l) = (find pat l).map (· + 1) :=
  if_neg fun hpre => h ( isPrefixOf_iff_prefix.mp hpre)

theorem find_split (h : find pat l = some k) : ∃ b, l = l.take k ++ (pat ++ b) ∧ k ≤ l.length := by
  induction l generalizing k with
  | nil =>
    unfold find at h
    split at h
    · rename_i hnil
      cases h
      exact ⟨[], by simp [hnil], Nat.le_refl _⟩
    · cases h
  | cons a l ih =>
    by_cases hpre : pat <+: a :: l
    · rw [find_cons_pos hpre] at h
      cases h
      obtain ⟨b, hb⟩ := hpre
      exact ⟨b, by simp [hb], Nat.zero_le _⟩
    · rw [find_cons_neg hpre] at h
      obtain ⟨j, hj, rfl⟩ := map_eq_some_iff.mp h
      obtain ⟨b, hb, hle⟩ := ih hj
      exact ⟨b, by rw [take_succ_cons, cons_append, ← hb], Nat.succ_le_succ hle⟩

theorem find_le (h : find pat l = some k) : k + pat.length ≤ l.length := by
  obtain ⟨b, hb, hle⟩ := find_split h
  have hlen := congrArg List.length hb
  simp only [length_append, length_take, Nat.min_eq_left hle] at hlen
  omega

theorem find_take_drop (h : find pat l = some k) :
    l = l.take k ++ (pat ++ l.drop (k + pat.length)) := by
  obtain ⟨b, hb, -⟩ := find_split h
  have hdr : l.drop k = pat ++ b := by
    have hsm : l.take k ++ l.drop k = l.take k ++ (pat ++ b) := (take_append_drop k l).trans hb
    exact append_cancel_left hsm
  rw [← drop_drop, hdr, drop_left]
  exact hb

theorem find_eq_none (h : find pat l = none) : ¬ pat <:+: l := by
  induction l with
  | nil =>
    unfold find at h
    split at h
    · cases h
    · rename_i hne
      exact fun hinf => hne (eq_nil_of_infix_nil hinf)
  | cons a l ih =>
    by_cases hpre : pat <+: a :: l
    · rw [find_cons_pos hpre] at h
      cases h
    · rw [find_cons_neg hpre, map_eq_none_iff] at h
      intro hinf
      rcases infix_cons_iff.mp hinf with hinf | hinf
      · exact hpre hinf
      · exact ih h hinf

theorem find_of_not_infix (h : ¬ pat <:+: l) : find pat l = none := by
  cases hfn : find pat l with
  | none => rfl
  | some k =>
    obtain ⟨b, hb, -⟩ := find_split hfn
    exact absurd ⟨l.take k, b, by rw [append_assoc, ← hb]⟩ h

theorem find_append (h : find pat l = some k) (m : List α) : find pat (l ++ m) = some k := by
  induction l generalizing k with
  | nil =>
    unfold find at h
    split at h
    · rename_i hnil
      cases h
      cases m with
      | nil => simp [find, hnil]
      | cons a m => exact find_cons_pos (hnil ▸ nil_prefix)
    · cases h
  | cons a l ih =>
    by_cases hpre : pat <+: a :: l
    · rw [find_cons_pos hpre] at h
      cases h
      exact find_cons_pos (hpre.trans (prefix_append _ m))
    · rw [find_cons_neg hpre] at h
      obtain ⟨j, hj, rfl⟩ := map_eq_some_iff.mp h
      have hneg : ¬ pat <+: a :: (l ++ m) := by
        intro hlg
        refine hpre (prefix_of_prefix_length_le hlg (prefix_append (a :: l) m) ?_)
        exact Nat.le_succ_of_le (Nat.le_trans (Nat.le_add_left _ _) (find_le hj))
      rw [cons_append, find_cons_neg hneg, ih hj]
      rfl

theorem find_of_append (h : find pat (l ++ m) = some k) (hk : k + pat.length ≤ l.length) :
    find pat l = some k := by
  cases hfn : find pat l with
  | some j =>
    rw [find_append hfn m] at h
    exact h
  | none =>
    refine absurd ?_ (find_eq_none hfn)
    obtain ⟨b, hb, -⟩ := find_split h
    have hpre : (l ++ m).take k ++ pat <+: l := by
      refine prefix_of_prefix_length_le ⟨b, ?_⟩ (prefix_append l m) ?_
      · rw [append_assoc]
        exact hb.symm
      · rw [length_append, length_take]
        omega
    exact (suffix_append _ pat).isInfix.trans hpre.isInfix

theorem find_take {n : ℕ} (h : find pat l = some k) (hn : n < k + pat.length) :
    find pat (l.take n) = none := by
  cases hfn : find pat (l.take n) with
  | none => rfl
  | some i =>
    have hi := find_le hfn
    have hmov := find_append hfn (l.drop n)
    rw [take_append_drop, h] at hmov
    cases hmov
    rw [length_take] at hi
    omega

theorem find_single {c : α} (h : c ∉ l) (m : List α) : find [c] (l ++ c :: m) = some l.length := by
  induction l with
  | nil => exact find_cons_pos (prefix_append [c] m)
  | cons a l ih =>
    have hneg : ¬ [c] <+: a :: (l ++ c :: m) := by
      intro hpre
      exact h ((cons_prefix_cons.mp hpre).1 ▸ mem_cons_self)
    rw [cons_append, find_cons_neg hneg, ih (not_mem_of_not_mem_cons h)]
    rfl

omit [DecidableEq α] in
theorem drop_single (l : List α) (c : α) (m : List α) : (l ++ c :: m).drop (l.length + 1) = m := by
  rw [← drop_drop, drop_left]
  rfl

theorem exists_of_find_single {c : α} (h : find [c] l = some k) :
    l = l.take k ++ c :: l.drop (k + 1) ∧ c ∉ l.take k := by
  refine ⟨find_take_drop h, fun hmem => ?_⟩
  have hnn := find_take h (Nat.lt_succ_self k)
  obtain ⟨a, b, hspl⟩ := append_of_mem hmem
  exact find_eq_none hnn ⟨a, b, by rw [hspl, append_assoc]; rfl⟩

/-! ## Lines -/

section Lines

variable {x y : α} {line first rest first' rest' l' : List α} {lines lines' : List (List α)}

def join (x y : α) (lines : List (List α)) : List α := lines.flatMap (· ++ [x, y])

omit [DecidableEq α] in
theorem join_cons (x y : α) (line : List α) (lines : List (List α)) :
    join x y (line :: lines) = line ++ ([x, y] ++ join x y lines) := by
  simp [join]

structure Block (x y : α) (first : List α) (lines : List (List α)) (l : List α) : Prop where
  eq : l = first ++ ([x, y] ++ (join x y lines ++ [x, y]))
  first_free : find [x, y] first = none
  free : ∀ line ∈ lines, find [x, y] line = none
  ne_nil : ∀ line ∈ lines, line ≠ []

theorem find_line (hxy : x ≠ y) (hfr : find [x, y] line = none) (rest : List α) :
    find [x, y] (line ++ ([x, y] ++ rest)) = some line.length := by
  induction line with
  | nil => exact find_cons_pos (prefix_append [x, y] rest)
  | cons a line ih =>
    have hneg : ¬ [x, y] <+: a :: line := by
      intro hpre
      rw [find_cons_pos hpre] at hfr
      cases hfr
    rw [find_cons_neg hneg, map_eq_none_iff] at hfr
    have hneg' : ¬ [x, y] <+: a :: (line ++ ([x, y] ++ rest)) := by
      cases line with
      | nil =>
        intro hpre
        have hsec := (cons_prefix_cons.mp hpre).2
        exact hxy (cons_prefix_cons.mp hsec).1.symm
      | cons b line =>
        intro hpre
        obtain ⟨hx, hsec⟩ := cons_prefix_cons.mp hpre
        have hy := (cons_prefix_cons.mp hsec).1
        exact hneg (by rw [hx, hy]; exact prefix_append [a, b] line)
    rw [cons_append, find_cons_neg hneg', ih hfr]
    rfl

theorem find_blank_line (hxy : x ≠ y) (hfr : find [x, y] line = none) {m : List α}
    (hm : ¬ [x, y] <+: m) :
    find [x, y, x, y] (line ++ ([x, y] ++ m)) =
      (find [x, y, x, y] m).map (· + (line.length + 2)) := by
  induction line with
  | nil =>
    have hneg : ¬ [x, y, x, y] <+: x :: y :: m := by
      intro hpre
      exact hm (cons_prefix_cons.mp (cons_prefix_cons.mp hpre).2).2
    have hneg' : ¬ [x, y, x, y] <+: y :: m := by
      intro hpre
      exact hxy (cons_prefix_cons.mp hpre).1
    change find [x, y, x, y] (x :: y :: m) = _
    rw [find_cons_neg hneg, find_cons_neg hneg', Option.map_map]
    rfl
  | cons a line ih =>
    have hneg : ¬ [x, y] <+: a :: line := by
      intro hpre
      rw [find_cons_pos hpre] at hfr
      cases hfr
    -- the separator would stand at the start of the line, or across its end
    have hneg' : ¬ [x, y, x, y] <+: a :: (line ++ ([x, y] ++ m)) := by
      intro hpre
      have hsep : [x, y] <+: a :: (line ++ ([x, y] ++ m)) :=
        (prefix_append [x, y] [x, y]).trans hpre
      have hln := find_line hxy hfr m
      rw [cons_append, find_cons_pos hsep] at hln
      cases hln
    rw [find_cons_neg hneg, map_eq_none_iff] at hfr
    rw [List.cons_append, find_cons_neg hneg', ih hfr, Option.map_map]
    congr 1

theorem prefix_join (hxy : x ≠ y) (hfr : find [x, y] line = none) (hne : line ≠ [])
    (m : List α) : ¬ [x, y] <+: line ++ ([x, y] ++ m) := by
  intro hpre
  have hln := find_line hxy hfr m
  cases line with
  | nil => exact hne rfl
  | cons a line =>
    rw [cons_append] at hpre
    rw [cons_append, find_cons_pos hpre] at hln
    cases hln

theorem find_blank_here (hxy : x ≠ y) (hfr : find [x, y] line = none) (rest : List α) :
    find [x, y, x, y] (line ++ ([x, y] ++ ([x, y] ++ rest))) = some line.length := by
  induction line with
  | nil => exact find_cons_pos (prefix_append [x, y, x, y] rest)
  | cons a line ih =>
    have hneg : ¬ [x, y, x, y] <+: a :: (line ++ ([x, y] ++ ([x, y] ++ rest))) := by
      intro hpre
      have hsep := (prefix_append [x, y] [x, y]).trans hpre
      have hln := find_line hxy hfr ([x, y] ++ rest)
      rw [cons_append, find_cons_pos hsep] at hln
      cases hln
    have hfree' : find [x, y] line = none :=
      find_of_not_infix fun hinf => find_eq_none hfr (hinf.trans (suffix_cons a line).isInfix)
    rw [cons_append, find_cons_neg hneg, ih hfree']
    rfl

theorem Block.find_blank (hxy : x ≠ y) (hblo : Block x y first lines l) (rest : List α) :
    find [x, y, x, y] (l ++ rest) = some (l.length - 4) := by
  obtain ⟨rfl, hfir, hfr, hne⟩ := hblo
  have hlen : (first ++ ([x, y] ++ (join x y lines ++ [x, y]))).length - 4 =
      first.length + (join x y lines).length := by
    simp only [length_append, length_cons, length_nil]
    omega
  rw [hlen]
  clear hlen
  induction lines generalizing first with
  | nil =>
    have hhr := find_blank_here hxy hfir rest
    simpa [join] using hhr
  | cons line lines ih =>
    have hln := hfr line mem_cons_self
    have hrs := ih hln (fun l hl => hfr l (mem_cons_of_mem _ hl))
      fun l hl => hne l (mem_cons_of_mem _ hl)
    have hsk := find_blank_line hxy hfir
      (prefix_join hxy hln (hne line mem_cons_self) (join x y lines ++ [x, y] ++ rest))
    rw [join_cons]
    simp only [append_assoc] at hrs hsk ⊢
    rw [hsk, hrs, map_some]
    congr 1
    simp only [length_append, length_cons, length_nil]
    omega

theorem exists_block (hxy : x ≠ y) (h : find [x, y, x, y] l = some k) :
    ∃ first lines rest block, Block x y first lines block ∧ l = block ++ rest := by
  induction hn : l.length using Nat.strongRecOn generalizing l k with
  | ind n ih =>
    -- the first line
    obtain ⟨b, hb, hle⟩ := find_split h
    obtain ⟨j, hj⟩ : ∃ j, find [x, y] l = some j := by
      cases hsep : find [x, y] l with
      | some j => exact ⟨j, rfl⟩
      | none =>
        refine absurd ⟨l.take k, [x, y] ++ b, ?_⟩ (find_eq_none hsep)
        rw [append_assoc]
        exact hb.symm
    obtain ⟨m, hm, hjle⟩ := find_split hj
    have hfir : find [x, y] (l.take j) = none := find_take hj (Nat.lt_add_of_pos_right Nat.two_pos)
    by_cases hbla : [x, y] <+: m
    · obtain ⟨rest, rfl⟩ := hbla
      refine ⟨l.take j, [], rest, l.take j ++ ([x, y] ++ ([] ++ [x, y])), ⟨rfl, hfir, ?_, ?_⟩, ?_⟩
      · exact fun _ hl => absurd hl not_mem_nil
      · exact fun _ hl => absurd hl not_mem_nil
      · simpa using hm
    · -- the other lines, by induction on what follows the first
      rw [hm, find_blank_line hxy hfir hbla] at h
      obtain ⟨i, hi, -⟩ := map_eq_some_iff.mp h
      have hlt : m.length < n := by
        have hlen := congrArg List.length hm
        simp only [length_append, length_cons, length_nil] at hlen
        omega
      obtain ⟨line, lines, rest, block, hblo, hrs⟩ := ih m.length hlt hi rfl
      have hne : line ≠ [] := by
        rintro rfl
        refine hbla ?_
        rw [hrs, hblo.eq]
        exact ⟨join x y lines ++ [x, y] ++ rest, by simp⟩
      refine ⟨l.take j, line :: lines, rest, l.take j ++ ([x, y] ++ block),
        ⟨?_, hfir, ?_, ?_⟩, ?_⟩
      · rw [hblo.eq, join_cons]
        simp
      · exact forall_mem_cons.mpr ⟨hblo.first_free, hblo.free⟩
      · exact forall_mem_cons.mpr ⟨hne, hblo.ne_nil⟩
      · refine hm.trans ?_
        rw [hrs]
        simp only [append_assoc]

theorem line_unique (hxy : x ≠ y) (hfr : find [x, y] first = none)
    (hfree' : find [x, y] first' = none)
    (h : first ++ ([x, y] ++ rest) = first' ++ ([x, y] ++ rest')) : first = first' ∧ rest = rest' := by
  have hfn := find_line hxy hfr rest
  rw [h, find_line hxy hfree' rest'] at hfn
  obtain ⟨hfir, hrs⟩ := append_inj h (some.inj hfn).symm
  exact ⟨hfir, append_cancel_left hrs⟩

theorem join_unique (hxy : x ≠ y) (hfr : ∀ line ∈ lines, find [x, y] line = none)
    (hfree' : ∀ line ∈ lines', find [x, y] line = none) (h : join x y lines = join x y lines') :
    lines = lines' := by
  induction lines generalizing lines' with
  | nil =>
    cases lines' with
    | nil => rfl
    | cons line' lines' =>
      have hlen := congrArg List.length h
      simp [join] at hlen
  | cons line lines ih =>
    cases lines' with
    | nil =>
      have hlen := congrArg List.length h
      simp [join] at hlen
    | cons line' lines' =>
      rw [join_cons, join_cons] at h
      obtain ⟨hln, hrs⟩ := line_unique hxy (hfr line mem_cons_self)
        (hfree' line' mem_cons_self) h
      rw [hln, ih (fun l hl => hfr l (mem_cons_of_mem _ hl))
        (fun l hl => hfree' l (mem_cons_of_mem _ hl)) hrs]

theorem Block.four_le (hblo : Block x y first lines l) : 4 ≤ l.length := by
  rw [hblo.eq]
  simp only [length_append, length_cons, length_nil]
  omega

theorem Block.unique (hxy : x ≠ y) (hblo : Block x y first lines l)
    (hblock' : Block x y first' lines' l') (h : l ++ rest = l' ++ rest') :
    first = first' ∧ lines = lines' ∧ l = l' ∧ rest = rest' := by
  have hfn := hblo.find_blank hxy rest
  rw [h, hblock'.find_blank hxy rest'] at hfn
  have hlen : l.length = l'.length := by
    have hend := some.inj hfn
    have hle := hblo.four_le
    have hle' := hblock'.four_le
    omega
  obtain ⟨rfl, hrs⟩ := append_inj h hlen
  have heq := hblo.eq.symm.trans hblock'.eq
  obtain ⟨hfir, hlin⟩ := line_unique hxy hblo.first_free hblock'.first_free heq
  exact ⟨hfir, join_unique hxy hblo.free hblock'.free (append_cancel_right hlin), rfl, hrs⟩

end Lines

end Veloco.Search
