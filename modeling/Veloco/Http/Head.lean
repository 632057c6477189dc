import Mathlib.Data.List.DropRight
import Mathlib.Data.List.GetD
import Veloco.Http.Parser

/-!
# Heads, read by lines
-/

namespace Veloco.Http

open List Option Http.Parser
open Veloco.Search

variable {m version method : List UInt8}

def strip (l : List UInt8) : List UInt8 := (l.dropWhile isspace).rdropWhile isspace

def readRequestLine (line : List UInt8) : Option (List UInt8 × List UInt8 × ℕ) :=
  match find [32] line with
  | none => none
  | some i =>
    let method := line.take i
    let tail := line.drop (i + 1)
    match find [32] tail with
    | none => none
    | some j =>
      let path := tail.take j
      let version := tail.drop (j + 1)
      if version ≠ versionStart ++ [48] ∧ version ≠ versionStart ++ [49] then none
      else if method ∉ methods then none
      else if path.head? ≠ some 47 then none
      else if maxPath ≤ path.length then none
      else some (method, path, if version = versionStart ++ [49] then 1 else 0)

def readHeader (line : List UInt8) : Option (List UInt8 × List UInt8) :=
  match find [58] line with
  | none => none
  | some i =>
    let name := strip (line.take i)
    let value := strip (line.drop (i + 1))
    if i = 0 ∨ name = [] ∨ maxHeaderName ≤ name.length ∨ value = [] ∨ maxHeaderValue ≤ value.length then
      none
    else some (name, value)

def readHeaders : ℕ → Request → Bool → List (List UInt8) → Request × Status
  | _, request, _, [] => (request, .ok)
  | 0, request, _, _ :: _ => (request, .invalidArgument)
  | room + 1, request, saw, line :: lines =>
    if 0 ∈ line then (request, .invalidArgument)
    else
      match readHeader line with
      | none => (request, .invalidArgument)
      | some (name, value) =>
        match request.addHeader saw name value with
        | (request, saw, .ok) => readHeaders room request saw lines
        | (request, _, status) => (request, status)

def Request.ofLine (method path : List UInt8) (minor : ℕ) : Request :=
  { Request.empty with
    method := method, path := path, httpMajor := 1, httpMinor := minor, keepAlive := minor == 1 }

def readHead (config : Config) (first : List UInt8) (lines : List (List UInt8)) : Request × Status :=
  if 0 ∈ first ∨ config.maxRequestLine < first.length then (.empty, .invalidArgument)
  else
    match readRequestLine first with
    | none => (.empty, .invalidArgument)
    | some (method, path, minor) =>
      match readHeaders maxHeaders (.ofLine method path minor) false lines with
      | (request, .ok) =>
        if config.maxBodyBytes < request.contentLength then (request, .outOfMemory)
        else (request, .ok)
      | (request, _) => (request, .invalidArgument)

section Strings

variable {a b l line seg pre : List UInt8} {c : UInt8} {i n : ℕ}

theorem cstring_append (a l : List UInt8) : cstring (a ++ l) a.length = l.takeWhile (· != 0) := by
  unfold cstring
  rw [drop_left]

theorem takeWhile_nonzero (hl : 0 ∉ l) (b : List UInt8) :
    (l ++ b).takeWhile (· != 0) = l ++ b.takeWhile (· != 0) := by
  refine takeWhile_append_of_pos fun x hx => ?_
  simp only [bne_iff_ne, ne_eq]
  rintro rfl
  exact hl hx

theorem cstring_cut (a : List UInt8) (hl : 0 ∉ l) (b : List UInt8) :
    cstring (a ++ (l ++ 0 :: b)) a.length = l := by
  rw [cstring_append, takeWhile_nonzero hl, takeWhile_cons_of_neg (by simp), append_nil]

theorem strstr_nul (hfr : find crlf line = none) (hnul : 0 ∈ line) (a b : List UInt8) :
    strstr (a ++ (line ++ b)) a.length crlf = none := by
  have hpre : (line ++ b).takeWhile (· != 0) <+: line := by
    refine prefix_of_prefix_length_le ( takeWhile_prefix _) (prefix_append line b) ?_
    by_contra hln
    have hli : line <+: (line ++ b).takeWhile (· != 0) :=
      prefix_of_prefix_length_le (prefix_append line b) ( takeWhile_prefix _) (not_le.mp hln).le
    have hmem := mem_takeWhile_imp (hli.subset hnul)
    simp at hmem
  unfold strstr
  rw [cstring_append, map_eq_none_iff]
  exact find_of_not_infix fun hinf => find_eq_none hfr (hinf.trans hpre.isInfix)

theorem strstr_line (hfr : find crlf line = none) (hnul : 0 ∉ line) (a b : List UInt8) :
    strstr (a ++ (line ++ (crlf ++ b))) a.length crlf = some (a.length + line.length) := by
  have hcr : (0 : UInt8) ∉ crlf := by decide
  unfold strstr
  rw [cstring_append, takeWhile_nonzero hnul, takeWhile_nonzero hcr]
  exact congrArg (Option.map _) (find_line (by decide) hfr _)

theorem set_append (a l : List UInt8) (c d : UInt8) :
    (a ++ c :: l).set a.length d = a ++ d :: l := by
  rw [set_append_right _ _ le_rfl, Nat.sub_self, set_cons_zero]

theorem getD_append (a l : List UInt8) (i : ℕ) (d : UInt8) :
    (a ++ l).getD (a.length + i) d = l.getD i d := by
  rw [getD_append_right _ _ _ _ (Nat.le_add_right _ _), Nat.add_sub_cancel_left]

theorem strchr_cut (a : List UInt8) (hl : 0 ∉ l) (b : List UInt8) (c : UInt8) :
    strchr (a ++ (l ++ 0 :: b)) a.length c = (find [c] l).map (a.length + ·) := by
  unfold strchr
  rw [cstring_cut a hl]

theorem trimStart_eq (a seg b : List UInt8) :
    trimStart (a ++ (seg ++ b)) a.length seg.length =
      a.length + (seg.takeWhile isspace).length := by
  induction seg generalizing a with
  | nil => rfl
  | cons c seg ih =>
    have hget : (a ++ (c :: seg ++ b)).getD a.length 0 = c := getD_append a (c :: seg ++ b) 0 0
    rw [length_cons, trimStart, hget]
    by_cases hc : isspace c = true
    · have hshi := ih (a ++ [c])
      simp only [append_assoc, singleton_append, length_append, length_singleton] at hshi
      rw [if_pos hc, takeWhile_cons_of_pos hc, length_cons]
      exact hshi.trans (by omega)
    · rw [if_neg hc, takeWhile_cons_of_neg hc]
      rfl

theorem trimEnd_eq (a seg b : List UInt8) :
    trimEnd (a ++ (seg ++ b)) a.length seg.length = a.length + (seg.rdropWhile isspace).length := by
  induction seg using List.reverseRecOn generalizing b with
  | nil => rfl
  | append_singleton seg c ih =>
    have hget : (a ++ (seg ++ [c] ++ b)).getD (a.length + seg.length) 0 = c := by
      rw [getD_append, append_assoc]
      exact getD_append seg ([c] ++ b) 0 0
    rw [length_append, length_singleton, trimEnd, hget]
    by_cases hc : isspace c = true
    · rw [if_pos hc, rdropWhile_concat_pos _ _ _ hc, append_assoc]
      exact ih ([c] ++ b)
    · rw [if_neg hc, rdropWhile_concat_neg _ _ _ hc, length_append, length_singleton, Nat.add_assoc]

theorem tokenCopy_trim (size : ℕ) (a seg b : List UInt8) :
    tokenCopy size (a ++ (seg ++ b)) (trim (a ++ (seg ++ b)) a.length (a.length + seg.length)).1
        ((trim (a ++ (seg ++ b)) a.length (a.length + seg.length)).2 -
          (trim (a ++ (seg ++ b)) a.length (a.length + seg.length)).1) =
      if strip seg = [] ∨ size ≤ (strip seg).length then none else some (strip seg) := by
  have hspl : seg.takeWhile isspace ++ seg.dropWhile isspace = seg := takeWhile_append_dropWhile
  have hlg : (seg.takeWhile isspace).length + (seg.dropWhile isspace).length = seg.length := by
    rw [← length_append, hspl]
  have hbuf : a ++ (seg ++ b) = (a ++ seg.takeWhile isspace) ++ (seg.dropWhile isspace ++ b) := by
    rw [append_assoc, ← append_assoc (seg.takeWhile isspace), hspl]
  have htr : trim (a ++ (seg ++ b)) a.length (a.length + seg.length) =
      ((a ++ seg.takeWhile isspace).length,
        (a ++ seg.takeWhile isspace).length + (strip seg).length) := by
    unfold trim
    dsimp only
    rw [Nat.add_sub_cancel_left, trimStart_eq, ← length_append]
    have hrs : a.length + seg.length - (a ++ seg.takeWhile isspace).length =
        (seg.dropWhile isspace).length := by
      rw [length_append]
      omega
    rw [hrs, hbuf, trimEnd_eq]
    rfl
  have hsli : ((a ++ (seg ++ b)).drop (a ++ seg.takeWhile isspace).length).take (strip seg).length =
      strip seg := by
    obtain ⟨t, ht⟩ : strip seg <+: seg.dropWhile isspace := rdropWhile_prefix _ _
    rw [hbuf, drop_left, ← ht, append_assoc, take_left]
  rw [htr]
  unfold tokenCopy
  rw [Nat.add_sub_cancel_left, hsli]
  simp only [length_eq_zero_iff]

end Strings

section Parse

variable {p : Parser} {first line rest pre : List UInt8} {lines : List (List UInt8)} {saw : Bool}
  {room : ℕ}

theorem tokens_line (pre b : List UInt8) {colon : ℕ} (hcol : colon + 1 ≤ line.length) :
    tokenCopy maxHeaderName (pre ++ (line ++ b))
        (trim (pre ++ (line ++ b)) pre.length (pre.length + colon)).1
        ((trim (pre ++ (line ++ b)) pre.length (pre.length + colon)).2 -
          (trim (pre ++ (line ++ b)) pre.length (pre.length + colon)).1) =
      (if strip (line.take colon) = [] ∨ maxHeaderName ≤ (strip (line.take colon)).length then none
        else some (strip (line.take colon))) ∧
    tokenCopy maxHeaderValue (pre ++ (line ++ b))
        (trim (pre ++ (line ++ b)) (pre.length + colon + 1) (pre.length + line.length)).1
        ((trim (pre ++ (line ++ b)) (pre.length + colon + 1) (pre.length + line.length)).2 -
          (trim (pre ++ (line ++ b)) (pre.length + colon + 1) (pre.length + line.length)).1) =
      (if strip (line.drop (colon + 1)) = [] ∨
          maxHeaderValue ≤ (strip (line.drop (colon + 1))).length then none
        else some (strip (line.drop (colon + 1)))) := by
  constructor
  · have hnm := tokenCopy_trim maxHeaderName pre (line.take colon) (line.drop colon ++ b)
    rw [← append_assoc (line.take colon), take_append_drop, length_take,
      Nat.min_eq_left (by omega)] at hnm
    exact hnm
  · have hval := tokenCopy_trim maxHeaderValue (pre ++ line.take (colon + 1))
      (line.drop (colon + 1)) b
    have hst : pre.length + colon + 1 + (line.length - (colon + 1)) =
        pre.length + line.length := by omega
    rw [append_assoc, ← append_assoc (line.take (colon + 1)), take_append_drop,
      length_append, length_take, Nat.min_eq_left hcol, length_drop,
      ← Nat.add_assoc, hst] at hval
    exact hval

theorem headerLine_line (hnul : 0 ∉ line) (hbuf : p.buffer = pre ++ (line ++ 0 :: m)) :
    p.headerLine pre.length (pre.length + line.length) saw =
      match readHeader line with
      | none => (p, saw, .invalidArgument)
      | some (name, value) =>
        let added := p.request.addHeader saw name value
        ({ p with request := added.1 }, added.2) := by
  unfold headerLine readHeader
  rw [hbuf, strchr_cut pre hnul]
  cases hcol : find [58] line with
  | none => rfl
  | some colon =>
    have hle := find_le hcol
    rw [map_some]
    dsimp only
    by_cases hzr : colon = 0
    · rw [if_pos (by omega), if_pos (.inl hzr)]
    obtain ⟨hnm, hval⟩ := tokens_line pre (0 :: m) hle
    rw [if_neg (by omega), hnm, hval]
    by_cases hbadName : strip (line.take colon) = [] ∨ maxHeaderName ≤ (strip (line.take colon)).length
    · have hbad : colon = 0 ∨ strip (line.take colon) = [] ∨
          maxHeaderName ≤ (strip (line.take colon)).length ∨ strip (line.drop (colon + 1)) = [] ∨
          maxHeaderValue ≤ (strip (line.drop (colon + 1))).length := by tauto
      rw [if_pos hbadName, if_pos hbad]
    by_cases hbadValue : strip (line.drop (colon + 1)) = [] ∨
        maxHeaderValue ≤ (strip (line.drop (colon + 1))).length
    · rw [if_neg hbadName, if_pos hbadValue, if_pos (by tauto)]
    · rw [if_neg hbadName, if_neg hbadValue, if_neg (by tauto)]

theorem cut_line (hbuf : p.buffer = pre ++ (line ++ (crlf ++ m))) :
    p.cut (pre.length + line.length) = { p with buffer := pre ++ (line ++ 0 :: 10 :: m) } := by
  have hset := set_append (pre ++ line) (10 :: m) 13 0
  rw [length_append, append_assoc, append_assoc] at hset
  unfold cut
  rw [hbuf]
  exact congrArg (fun b => { p with buffer := b }) hset

theorem parseHeaders_lines (room : ℕ) (saw : Bool) (hfr : ∀ l ∈ lines, find crlf l = none) (hne : ∀ l ∈ lines, l ≠ [])
    (hbuf : p.buffer = pre ++ (join 13 10 lines ++ (crlf ++ rest))) :
    ∃ buffer, Parser.parseHeaders room p pre.length saw =
        ({ p with buffer := buffer, request := (readHeaders room p.request saw lines).1 },
          (readHeaders room p.request saw lines).2) ∧
      ((readHeaders room p.request saw lines).2 = .ok → ∃ pre',
        pre'.length = pre.length + (join 13 10 lines).length ∧ buffer = pre' ++ (crlf ++ rest)) := by
  induction lines generalizing room p pre saw with
  | nil =>
    have hend : strstr p.buffer pre.length crlf = some pre.length := by
      rw [hbuf]
      exact strstr_line (rfl : find crlf [] = none) not_mem_nil pre rest
    refine ⟨p.buffer, ?_, fun _ => ⟨pre, rfl, hbuf⟩⟩
    unfold parseHeaders readHeaders
    rw [hend]
    dsimp only
    rw [if_pos rfl]
  | cons line lines ih =>
    have hli := hfr line mem_cons_self
    have hlineNe := hne line mem_cons_self
    have hpos : 0 < line.length := length_pos_iff.mpr hlineNe
    rw [join_cons, append_assoc, append_assoc] at hbuf
    by_cases hnul : 0 ∈ line
    · -- the end of the line is out of sight
      have hend : strstr p.buffer pre.length crlf = none := by
        rw [hbuf]
        exact strstr_nul hli hnul pre _
      have hrd : readHeaders room p.request saw (line :: lines) =
          (p.request, .invalidArgument) := by
        cases room with
        | zero => rfl
        | succ room => exact if_pos hnul
      refine ⟨p.buffer, ?_, fun hok => ?_⟩
      · unfold parseHeaders
        rw [hend, hrd]
      · rw [hrd] at hok
        cases hok
    have hend : strstr p.buffer pre.length crlf = some (pre.length + line.length) := by
      rw [hbuf]
      exact strstr_line hli hnul pre _
    unfold parseHeaders readHeaders
    rw [hend]
    dsimp only
    rw [if_neg (by omega)]
    cases room with
    | zero => exact ⟨p.buffer, rfl, fun hok => by cases hok⟩
    | succ room =>
      rw [cut_line hbuf]
      dsimp only
      rw [headerLine_line hnul rfl, if_neg hnul]
      cases readHeader line with
      | none => exact ⟨_, rfl, fun hok => by cases hok⟩
      | some token =>
        dsimp only
        rcases hadd : p.request.addHeader saw token.1 token.2 with ⟨request, saw', status⟩
        cases status with
        | ok =>
          have hrs : ({ p with
              buffer := pre ++ (line ++ 0 :: 10 :: (join 13 10 lines ++ (crlf ++ rest)))
              request := request } : Parser).buffer =
              (pre ++ line ++ [0, 10]) ++ (join 13 10 lines ++ (crlf ++ rest)) := by simp
          obtain ⟨buffer, hpar, hok⟩ := ih room saw' (fun l hl => hfr l (mem_cons_of_mem _ hl))
            (fun l hl => hne l (mem_cons_of_mem _ hl)) hrs
          have hlg : (pre ++ line ++ [0, 10]).length = pre.length + line.length + 2 := by
            rw [length_append, length_append]
            rfl
          rw [hlg] at hpar
          refine ⟨buffer, hpar, fun h => ?_⟩
          obtain ⟨pre', hpre', hbuffer'⟩ := hok h
          refine ⟨pre', ?_, hbuffer'⟩
          rw [hpre', hlg, join_cons]
          simp only [length_append, length_cons, length_nil]
          omega
        | _ => exact ⟨_, rfl, fun hok => by cases hok⟩

theorem version_iff (hnul : 0 ∉ version) (b : List UInt8) :
    (version.take 7 ≠ versionStart ∨
      ((version ++ 0 :: b).getD 7 0 ≠ 48 ∧ (version ++ 0 :: b).getD 7 0 ≠ 49) ∨
      (version ++ 0 :: b).getD 8 0 ≠ 0) ↔
    version ≠ versionStart ++ [48] ∧ version ≠ versionStart ++ [49] := by
  by_cases hsta : version.take 7 = versionStart
  · have hspl : version = versionStart ++ version.drop 7 := by
      conv_lhs => rw [← take_append_drop 7 version, hsta]
    generalize version.drop 7 = t at hspl
    subst hspl
    have hsev : (versionStart ++ t ++ 0 :: b).getD 7 0 = (t ++ 0 :: b).getD 0 0 := by
      rw [append_assoc]
      exact getD_append versionStart (t ++ 0 :: b) 0 0
    have heig : (versionStart ++ t ++ 0 :: b).getD 8 0 = (t ++ 0 :: b).getD 1 0 := by
      rw [append_assoc]
      exact getD_append versionStart (t ++ 0 :: b) 1 0
    rw [hsev, heig]
    cases t with
    | nil => simp [versionStart]
    | cons c t =>
      cases t with
      | nil => simp [versionStart]
      | cons d t =>
        have hd : d ≠ 0 := by
          rintro rfl
          exact hnul (by simp)
        simp [hd]
  · have hne : ∀ c, version ≠ versionStart ++ [c] := by
      rintro c rfl
      exact hsta rfl
    simp [hsta, hne]

theorem version_minor (b : List UInt8)
    (hver : version = versionStart ++ [48] ∨ version = versionStart ++ [49]) :
    ((version ++ 0 :: b).getD 7 0).toNat - 48 = if version = versionStart ++ [49] then 1 else 0 := by
  rcases hver with rfl | rfl
  · rfl
  · rfl

theorem length_of_mem_methods (h : method ∈ methods) :
    method.length ≠ 0 ∧ method.length < maxMethod := by
  simp only [methods, mem_cons, not_mem_nil, or_false] at h
  rcases h with rfl | rfl | rfl
  · decide
  · decide
  · decide

theorem requestParts_eq {path : List UInt8} (hmet : 0 ∉ method) (hpt : 0 ∉ path)
    (hver : 0 ∉ version)
    (hbuf : p.buffer = method ++ 0 :: (path ++ 0 :: (version ++ 0 :: m))) :
    p.requestParts 0 (method.length + 1) (method.length + 1 + path.length + 1) =
      if version ≠ versionStart ++ [48] ∧ version ≠ versionStart ++ [49] then (p, .invalidArgument)
      else if method ∉ methods then (p, .invalidArgument)
      else if path.head? ≠ some 47 then (p, .invalidArgument)
      else if maxPath ≤ path.length then
        ({ p with request := { p.request with method := method } }, .invalidArgument)
      else ({ p with request := { p.request with
          method := method
          path := path
          httpMajor := 1
          httpMinor := if version = versionStart ++ [49] then 1 else 0
          keepAlive := (if version = versionStart ++ [49] then 1 else 0) == 1 } }, .ok) := by
  -- the buffer, seen from each of the three parts
  have hsec : p.buffer = (method ++ [0]) ++ (path ++ 0 :: (version ++ 0 :: m)) := by
    rw [hbuf]
    simp
  have hthi : p.buffer = (method ++ [0] ++ path ++ [0]) ++ (version ++ 0 :: m) := by
    rw [hbuf]
    simp
  have hlen₂ : (method ++ [0]).length = method.length + 1 := by simp
  have hlen₃ : (method ++ [0] ++ path ++ [0]).length = method.length + 1 + path.length + 1 := by
    simp
    omega
  have hcme : cstring p.buffer 0 = method := by
    rw [hbuf]
    exact cstring_cut [] hmet _
  have hcpa : cstring p.buffer (method.length + 1) = path := by
    rw [hsec, ← hlen₂]
    exact cstring_cut _ hpt _
  have hcve : cstring p.buffer (method.length + 1 + path.length + 1) = version := by
    rw [hthi, ← hlen₃]
    exact cstring_cut _ hver _
  have hby : ∀ i, p.buffer.getD (method.length + 1 + path.length + 1 + i) 0 =
      (version ++ 0 :: m).getD i 0 := by
    intro i
    rw [hthi, ← hlen₃]
    exact getD_append _ _ i 0
  have hhd : p.buffer.getD (method.length + 1) 0 = 47 ↔ path.head? = some 47 := by
    have hget := getD_append (method ++ [0]) (path ++ 0 :: (version ++ 0 :: m)) 0 0
    rw [← hsec, hlen₂] at hget
    rw [show method.length + 1 = method.length + 1 + 0 from rfl, hget]
    cases path with
    | nil => simp
    | cons c path => simp
  have hsli₁ : (p.buffer.drop 0).take method.length = method := by rw [hbuf, drop_zero, take_left]
  have hsli₂ : (p.buffer.drop (method.length + 1)).take path.length = path := by
    rw [hsec, ← hlen₂, drop_left, take_left]
  unfold requestParts
  rw [hcve, hcme, hby 7, hby 8]
  by_cases hbadVersion : version ≠ versionStart ++ [48] ∧ version ≠ versionStart ++ [49]
  · rw [if_pos ((version_iff hver m).mpr hbadVersion), if_pos hbadVersion]
  rw [if_neg fun h => hbadVersion ((version_iff hver m).mp h), if_neg hbadVersion]
  by_cases hbadMethod : method ∉ methods
  · rw [if_pos hbadMethod, if_pos hbadMethod]
  rw [if_neg hbadMethod, if_neg hbadMethod]
  by_cases hbadPath : path.head? ≠ some 47
  · rw [if_pos fun h => hbadPath (hhd.mp h), if_pos hbadPath]
  rw [if_neg fun h => h (hhd.mpr (not_not.mp hbadPath)), if_neg hbadPath]
  obtain ⟨hpos, hft⟩ := length_of_mem_methods (not_not.mp hbadMethod)
  have hcp : tokenCopy maxMethod p.buffer 0 method.length = some method := by
    unfold tokenCopy
    rw [if_neg (by omega), hsli₁]
  rw [hcp]
  dsimp only
  rw [hcpa]
  have hpat : path.length ≠ 0 := by
    intro hzr
    rw [length_eq_zero_iff.mp hzr] at hbadPath
    exact hbadPath (by simp)
  by_cases hln : maxPath ≤ path.length
  · have hcop : tokenCopy maxPath p.buffer (method.length + 1) path.length = none := by
      unfold tokenCopy
      rw [if_pos (.inr hln)]
    rw [hcop, if_pos hln]
  · have hcop : tokenCopy maxPath p.buffer (method.length + 1) path.length = some path := by
      unfold tokenCopy
      rw [if_neg (by omega), hsli₂]
    have hmin := version_minor m (not_and_or.mp hbadVersion |>.imp not_not.mp not_not.mp)
    rw [hcop, if_neg hln]
    dsimp only
    rw [hby 7, hmin]

theorem parseRequestLine_line (hnul : 0 ∉ first) (hlg : first.length ≤ p.config.maxRequestLine) (hbuf : p.buffer = first ++ 0 :: m) :
    (readRequestLine first = none → ∃ buffer request, p.parseRequestLine 0 =
      ({ p with buffer := buffer, request := request }, .invalidArgument) ∧
        request.contentLength = p.request.contentLength) ∧
    ∀ method path minor, readRequestLine first = some (method, path, minor) →
      ∃ pre, pre.length = first.length ∧ p.parseRequestLine 0 =
        ({ p with
            buffer := pre ++ 0 :: m
            request := { p.request with
              method := method
              path := path
              httpMajor := 1
              httpMinor := minor
              keepAlive := minor == 1 } }, .ok) := by
  have hchr : strchr p.buffer 0 32 = find [32] first := by
    have h := strchr_cut [] hnul m 32
    rw [hbuf]
    refine h.trans ?_
    simp
  unfold parseRequestLine readRequestLine
  rw [hchr]
  cases hspa : find [32] first with
  | none => exact ⟨fun _ => ⟨p.buffer, p.request, rfl, rfl⟩, fun _ _ _ h => by cases h⟩
  | some i =>
    have hle := find_le hspa
    simp only [length_singleton] at hle
    dsimp only
    rw [if_neg (by omega)]
    -- cut off the method
    have hmet : 0 ∉ first.take i := fun h => hnul (mem_of_mem_take h)
    have htl : 0 ∉ first.drop (i + 1) := fun h => hnul (mem_of_mem_drop h)
    have hi : (first.take i).length = i := by
      rw [length_take]
      omega
    have hfir := find_take_drop hspa
    have hlen : first.length = i + 1 + (first.drop (i + 1)).length := by
      rw [length_drop]
      omega
    rw [length_singleton] at hfir
    generalize first.take i = method at hmet hi hfir ⊢
    generalize first.drop (i + 1) = tail at htl hfir hlen ⊢
    subst hi
    rw [hfir] at hbuf
    have hcut : p.cut method.length = { p with buffer := method ++ 0 :: (tail ++ 0 :: m) } := by
      unfold cut
      rw [hbuf, append_assoc]
      exact congrArg (fun b => { p with buffer := b }) (set_append method (tail ++ 0 :: m) 32 0)
    have hchr' : strchr (method ++ 0 :: (tail ++ 0 :: m)) (method.length + 1) 32 =
        (find [32] tail).map (method.length + 1 + ·) := by
      have h := strchr_cut (method ++ [0]) htl m 32
      rw [append_assoc, length_append] at h
      exact h
    rw [hcut]
    dsimp only
    rw [hchr']
    cases hspace' : find [32] tail with
    | none => exact ⟨fun _ => ⟨_, p.request, rfl, rfl⟩, fun _ _ _ h => by cases h⟩
    | some j =>
      -- cut off the path
      have hle' := find_le hspace'
      have hpt : 0 ∉ tail.take j := fun h => htl (mem_of_mem_take h)
      have hver : 0 ∉ tail.drop (j + 1) := fun h => htl (mem_of_mem_drop h)
      have hj : (tail.take j).length = j := by
        rw [length_take]
        omega
      have htail' := find_take_drop hspace'
      rw [length_singleton] at htail'
      rw [map_some]
      dsimp only
      generalize tail.take j = path at hpt hj htail' ⊢
      generalize tail.drop (j + 1) = version at hver htail' ⊢
      subst hj
      have hcut' : ({ p with buffer := method ++ 0 :: (tail ++ 0 :: m) } : Parser).cut
          (method.length + 1 + path.length) =
          { p with buffer := method ++ 0 :: (path ++ 0 :: (version ++ 0 :: m)) } := by
        have h := set_append (method ++ [0] ++ path) (version ++ 0 :: m) 32 0
        rw [length_append, length_append, append_assoc, append_assoc,
          append_assoc, append_assoc] at h
        unfold cut
        rw [htail', append_assoc]
        exact congrArg (fun b => { p with buffer := b }) h
      rw [hcut', requestParts_eq hmet hpt hver rfl]
      by_cases hbadVersion : version ≠ versionStart ++ [48] ∧ version ≠ versionStart ++ [49]
      · rw [if_pos hbadVersion, if_pos hbadVersion]
        exact ⟨fun _ => ⟨_, p.request, rfl, rfl⟩, fun _ _ _ h => by cases h⟩
      rw [if_neg hbadVersion, if_neg hbadVersion]
      by_cases hbadMethod : method ∉ methods
      · rw [if_pos hbadMethod, if_pos hbadMethod]
        exact ⟨fun _ => ⟨_, p.request, rfl, rfl⟩, fun _ _ _ h => by cases h⟩
      rw [if_neg hbadMethod, if_neg hbadMethod]
      by_cases hbadPath : path.head? ≠ some 47
      · rw [if_pos hbadPath, if_pos hbadPath]
        exact ⟨fun _ => ⟨_, p.request, rfl, rfl⟩, fun _ _ _ h => by cases h⟩
      rw [if_neg hbadPath, if_neg hbadPath]
      by_cases hln : maxPath ≤ path.length
      · rw [if_pos hln, if_pos hln]
        exact ⟨fun _ => ⟨_, { p.request with method := method }, rfl, rfl⟩,
          fun _ _ _ h => by cases h⟩
      rw [if_neg hln, if_neg hln]
      refine ⟨fun h => (by cases h), fun method' path' minor h => ?_⟩
      obtain ⟨rfl, hpa⟩ := Prod.mk.inj (some.inj h)
      cases hpa
      refine ⟨method ++ 0 :: (path ++ 0 :: version), ?_, ?_⟩
      · rw [hfir, htail']
        simp
      · simp only [append_assoc, cons_append]

theorem parseHead_block {block : List UInt8} (hblo : Block 13 10 first lines block)
    (hbuf : p.buffer = block ++ rest) (hend : p.headerEnd = block.length)
    (hreq : p.request = .empty) :
    ∃ buffer request, p.parseHead = ({ p with buffer := buffer, request := request },
        (readHead p.config first lines).2) ∧
      request.contentLength = (readHead p.config first lines).1.contentLength ∧
      ((readHead p.config first lines).2 = .ok →
        request = { (readHead p.config first lines).1 with body := some block.length } ∧
        buffer.length = block.length + rest.length ∧ buffer.drop block.length = rest) := by
  have hbl : block.length = first.length + 2 + (join 13 10 lines).length + 2 := by
    rw [hblo.eq]
    simp only [length_append, length_cons, length_nil]
    omega
  have hlin : p.buffer = first ++ (crlf ++ (join 13 10 lines ++ (crlf ++ rest))) := by
    rw [hbuf, hblo.eq]
    simp [crlf]
  unfold parseHead readHead
  by_cases hnul : 0 ∈ first
  · have hstr : strstr p.buffer 0 crlf = none := by
      rw [hlin]
      exact strstr_nul hblo.first_free hnul [] _
    rw [hstr, if_pos (.inl hnul)]
    exact ⟨p.buffer, p.request, rfl, by rw [hreq], fun h => by cases h⟩
  have hstr : strstr p.buffer 0 crlf = some first.length := by
    have h := strstr_line hblo.first_free hnul [] (join 13 10 lines ++ (crlf ++ rest))
    rw [length_nil, Nat.zero_add] at h
    rw [hlin]
    exact h
  rw [hstr]
  dsimp only
  by_cases hln : p.config.maxRequestLine < first.length
  · rw [if_pos hln, if_pos (.inr hln)]
    exact ⟨p.buffer, p.request, rfl, by rw [hreq], fun h => by cases h⟩
  rw [if_neg hln, if_neg (by tauto)]
  have hcut : p.cut first.length =
      { p with buffer := first ++ 0 :: 10 :: (join 13 10 lines ++ (crlf ++ rest)) } := by
    unfold cut
    rw [hlin]
    exact congrArg (fun b => { p with buffer := b }) (set_append first _ 13 0)
  have hfir : (p.cut first.length).buffer =
      first ++ 0 :: 10 :: (join 13 10 lines ++ (crlf ++ rest)) := by rw [hcut]
  have hli := parseRequestLine_line (p := p.cut first.length) hnul (not_lt.mp hln) hfir
  cases hrd : readRequestLine first with
  | none =>
    obtain ⟨buffer, request, hpar, hlg⟩ := hli.1 hrd
    rw [hpar, hcut]
    refine ⟨buffer, request, rfl, ?_, fun h => by cases h⟩
    rw [hlg, hcut, hreq]
  | some parts =>
    obtain ⟨method, path, minor⟩ := parts
    obtain ⟨pre, hpre, hpar⟩ := hli.2 method path minor hrd
    rw [hpar, hcut]
    dsimp only
    rw [hreq]
    -- the header lines stand after the cut
    have hrs : ({ p with
        buffer := pre ++ 0 :: 10 :: (join 13 10 lines ++ (crlf ++ rest))
        request := .ofLine method path minor } : Parser).buffer =
        (pre ++ [0, 10]) ++ (join 13 10 lines ++ (crlf ++ rest)) := by simp
    obtain ⟨buffer, hhds, hok⟩ := parseHeaders_lines maxHeaders false hblo.free hblo.ne_nil hrs
    have hcur : (pre ++ [0, 10]).length = first.length + 2 := by
      rw [length_append, hpre]
      rfl
    rw [hcur] at hhds hok
    have hpr : Parser.parseHeaders maxHeaders { p with
        buffer := pre ++ 0 :: 10 :: (join 13 10 lines ++ (crlf ++ rest))
        request := .ofLine method path minor } (first.length + 2) false = _ := hhds
    rcases hlinesRead : readHeaders maxHeaders (.ofLine method path minor) false lines
      with ⟨request, status⟩
    dsimp only at hpr hok
    rw [hlinesRead] at hpr hok
    unfold Request.ofLine at hpr
    rw [hpr]
    cases status with
    | ok =>
      obtain ⟨pre', hpre', hbuffer'⟩ := hok rfl
      dsimp only
      by_cases hbd : p.config.maxBodyBytes < request.contentLength
      · rw [if_pos hbd, if_pos hbd]
        exact ⟨_, request, rfl, rfl, fun h => by cases h⟩
      rw [if_neg hbd, if_neg hbd, hbuffer', hend]
      -- the byte that is put back lies before the last line end
      have hset : (pre' ++ (crlf ++ rest)).set (block.length - 4) 13 =
          (pre'.set (block.length - 4) 13 ++ crlf) ++ rest := by
        rw [set_append_left _ _ (by omega), append_assoc]
      have hhd : (pre'.set (block.length - 4) 13 ++ crlf).length = block.length := by
        rw [length_append, length_set, hpre', hbl]
        rfl
      rw [hset]
      refine ⟨_, _, rfl, rfl, fun _ => ⟨rfl, ?_, ?_⟩⟩
      · rw [length_append, hhd]
      · exact drop_left' hhd
    | _ => exact ⟨buffer, request, rfl, rfl, fun h => by cases h⟩

end Parse

end Veloco.Http
