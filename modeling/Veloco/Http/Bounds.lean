import Veloco.Http.Fragments

/-!
# The parser stays inside its buffer

`vl_http_parse_head` runs searches for a `NUL`, for `CR LF`, for a blank and for a colon over bytes of
the peer, in a buffer whose separators it overwrites. This file lists what it touches on the way, and
proves that all of it lies inside the head.

* **The trace.** `headAccesses` is what `vl_http_parse_head` reads from the buffer, writes into it, and
  the differences of pointers it takes, in the order of the source and branch by branch; `headTurns`
  gives the turns of the loop of `vl_http_parse_headers`, each with its cursor and its accesses.
* **One line.** A string that starts at or before a cut ends there (`CutAt`), and the search for the
  next `CR LF` stays in its line (`LineWithin`). From the two every access of one turn is safe
  (`safe_lineAccesses`, `safe_requestLineAccesses`).
* **The loop.** `AtLine` is its invariant: from the cursor on, the buffer still holds whole lines and the
  blank line that ends the head. `AtLine.next` carries it over a turn, `headerTurns_bounds` over the loop.
* **The calls.** `Bounded` holds after any sequence of calls of `vl_http_parser_feed`, and `HeadWithin`
  in the call in which the head is found: `parser_bounds`.
-/

namespace Veloco.Http

open List Http.Parser
open Veloco.Search

/-! ## The trace of the accesses -/

/-- A byte of the buffer read or written, or the difference `a - b` of two pointers into it. -/
inductive Access where
  | read (i : ℕ)
  | write (i : ℕ)
  | subtract (a b : ℕ)
  deriving DecidableEq, Repr

/-- The index lies below `n`, and the difference does not wrap around. -/
def Access.Safe (n : ℕ) : Access → Prop
  | .read i => i < n
  | .write i => i < n
  | .subtract a b => b ≤ a

def AllSafe (n : ℕ) (accesses : List Access) : Prop := ∀ a ∈ accesses, a.Safe n

def reads (start stop : ℕ) : List Access := (List.range' start (stop - start)).map .read

/-- `strlen` and `strcmp`: up to the terminator. -/
def stringReads (buffer : List UInt8) (i : ℕ) : List Access :=
  reads i (i + (cstring buffer i).length + 1)

/-- `strchr` and `strstr`: up to the match of `width` bytes, or up to the terminator. -/
def searchReads (buffer : List UInt8) (i width : ℕ) : Option ℕ → List Access
  | some k => reads i (k + width)
  | none => stringReads buffer i

def trimStartReads (buffer : List UInt8) (start : ℕ) : ℕ → List Access
  | 0 => []
  | n + 1 => .read start ::
      if isspace (buffer.getD start 0) then trimStartReads buffer (start + 1) n else []

def trimEndReads (buffer : List UInt8) (start : ℕ) : ℕ → List Access
  | 0 => []
  | n + 1 => .read (start + n) ::
      if isspace (buffer.getD (start + n) 0) then trimEndReads buffer start n else []

/-- `vl_http_trim`; the difference is that of its two arguments. -/
def trimAccesses (buffer : List UInt8) (start stop : ℕ) : List Access :=
  let start' := trimStart buffer start (stop - start)
  .subtract stop start :: (trimStartReads buffer start (stop - start) ++
    trimEndReads buffer start' (stop - start'))

/-- `vl_http_token_copy` of the bytes between two pointers. -/
def copyAccesses (size : ℕ) (token : ℕ × ℕ) : List Access :=
  .subtract token.2 token.1 ::
    if token.2 - token.1 = 0 ∨ size ≤ token.2 - token.1 then [] else reads token.1 token.2

/-- The accesses of `Parser.headerLine`. -/
def lineAccesses (buffer : List UInt8) (cursor lineEnd : ℕ) : List Access :=
  let found := strchr buffer cursor 58
  searchReads buffer cursor 1 found ++
    match found with
    | none => []
    | some colon =>
      if colon = cursor then []
      else
        let name := trim buffer cursor colon
        let value := trim buffer (colon + 1) lineEnd
        trimAccesses buffer cursor colon ++ trimAccesses buffer (colon + 1) lineEnd ++
          copyAccesses maxHeaderName name ++
          match tokenCopy maxHeaderName buffer name.1 (name.2 - name.1) with
          | none => []
          | some _ => copyAccesses maxHeaderValue value

/-- The accesses of `Parser.requestParts`; `strncmp` looks at seven bytes and not behind a `NUL`. -/
def partsAccesses (buffer : List UInt8) (method path version : ℕ) : List Access :=
  reads version (version + min 7 ((cstring buffer version).length + 1)) ++
    if (cstring buffer version).take 7 ≠ versionStart then []
    else .read (version + 7) ::
      if buffer.getD (version + 7) 0 ≠ 48 ∧ buffer.getD (version + 7) 0 ≠ 49 then []
      else .read (version + 8) ::
        if buffer.getD (version + 8) 0 ≠ 0 then []
        else stringReads buffer method ++
          if cstring buffer method ∉ methods then []
          else .read path ::
            if buffer.getD path 0 ≠ 47 then []
            else copyAccesses maxMethod (method, method + (cstring buffer method).length) ++
              match tokenCopy maxMethod buffer method (cstring buffer method).length with
              | none => []
              | some _ => stringReads buffer path ++
                copyAccesses maxPath (path, path + (cstring buffer path).length)

namespace Parser

variable (p : Parser)

/-- The accesses of `Parser.parseRequestLine`. -/
def requestLineAccesses (line : ℕ) : List Access :=
  let found := strchr p.buffer line 32
  searchReads p.buffer line 1 found ++
    match found with
    | none => []
    | some space => .subtract space line ::
      if p.config.maxRequestLine < space - line then []
      else
        let p := p.cut space
        let found := strchr p.buffer (space + 1) 32
        .write space :: (searchReads p.buffer (space + 1) 1 found ++
          match found with
          | none => []
          | some space' => .write space' ::
            partsAccesses (p.cut space').buffer line (space + 1) (space' + 1))

/-- The turns of the loop of `Parser.parseHeaders`, each with its cursor and its accesses. -/
def headerTurns (room : ℕ) (p : Parser) (cursor : ℕ) (saw : Bool) : List (ℕ × List Access) :=
  let found := strstr p.buffer cursor crlf
  let search := searchReads p.buffer cursor 2 found
  match found with
  | none => [(cursor, search)]
  | some lineEnd =>
    if lineEnd = cursor then [(cursor, search)]
    else
      match room with
      | 0 => [(cursor, search)]
      | room + 1 =>
        (cursor, search ++ .write lineEnd :: lineAccesses (p.cut lineEnd).buffer cursor lineEnd) ::
          match (p.cut lineEnd).headerLine cursor lineEnd saw with
          | (p, saw, .ok) => headerTurns room p (lineEnd + 2) saw
          | _ => []

/-- The turns of the header loop in `Parser.parseHead`; none where the request line is refused. -/
def headTurns : List (ℕ × List Access) :=
  match strstr p.buffer 0 crlf with
  | none => []
  | some lineEnd =>
    if p.config.maxRequestLine < lineEnd then []
    else
      match (p.cut lineEnd).parseRequestLine 0 with
      | (p, .ok) => headerTurns maxHeaders p (lineEnd + 2) false
      | _ => []

/-- The accesses of `Parser.parseHead`. The last two, `buffer[header_end - 4]`, are listed also where
the source has returned before. -/
def headAccesses : List Access :=
  let found := strstr p.buffer 0 crlf
  searchReads p.buffer 0 2 found ++
    (match found with
      | none => []
      | some lineEnd =>
        if p.config.maxRequestLine < lineEnd then []
        else .write lineEnd :: (p.cut lineEnd).requestLineAccesses 0) ++
    p.headTurns.flatMap Prod.snd ++ [.subtract p.headerEnd 4, .write (p.headerEnd - 4)]

end Parser

/-! ## One line -/

/-- The buffer has a `NUL` at `i`, seen from before it: a string that starts at or before `i` ends there
at the latest, and so does the version of a request line as far as it is compared. -/
structure CutAt (buffer : List UInt8) (i : ℕ) : Prop where
  strings : ∀ x ≤ i, x + (cstring buffer x).length ≤ i
  version : ∀ x ≤ i, (cstring buffer x).take 7 = versionStart →
    x + 7 ≤ i ∧ (buffer.getD (x + 7) 0 ≠ 0 → x + 8 ≤ i)

/-- The search for the `CR LF` that ends the line at `cursor` stays below `n`, and the line can be cut
there. That is said of every buffer with the same bytes from the cut on: `vl_http_parse_request_line`
writes two more `NUL`s before it. -/
structure LineWithin (p : Parser) (cursor n : ℕ) : Prop where
  search : AllSafe n (searchReads p.buffer cursor 2 (strstr p.buffer cursor crlf))
  cut : ∀ lineEnd, strstr p.buffer cursor crlf = some lineEnd → cursor ≤ lineEnd ∧ lineEnd + 2 ≤ n ∧
    ∀ buffer, buffer.drop lineEnd = (p.cut lineEnd).buffer.drop lineEnd → CutAt buffer lineEnd

/-- Every copied token fits its array with its terminator, and `room` more headers fit theirs. -/
structure Request.Fits (room : ℕ) (r : Request) : Prop where
  method : r.method.length < maxMethod
  path : r.path.length < maxPath
  headers : ∀ header ∈ r.headers,
    header.name.length < maxHeaderName ∧ header.value.length < maxHeaderValue
  count : r.headers.length + room ≤ maxHeaders

section Safety

variable {n start stop cursor lineEnd : ℕ} {buffer : List UInt8} {l m : List Access} {a : Access}

@[simp]
theorem allSafe_nil : AllSafe n [] := forall_mem_nil _

@[simp]
theorem allSafe_cons : AllSafe n (a :: l) ↔ a.Safe n ∧ AllSafe n l := forall_mem_cons

@[simp]
theorem allSafe_append : AllSafe n (l ++ m) ↔ AllSafe n l ∧ AllSafe n m := forall_mem_append

theorem allSafe_reads (h : stop ≤ n) : AllSafe n (reads start stop) := by
  intro a ha
  obtain ⟨i, hi, rfl⟩ := mem_map.mp ha
  have hlt := mem_range'_1.mp hi
  show i < n
  omega

theorem strchr_lt {c : UInt8} {i k : ℕ} (h : strchr buffer i c = some k) :
    i ≤ k ∧ k < i + (cstring buffer i).length := by
  unfold strchr at h
  obtain ⟨j, hj, rfl⟩ := Option.map_eq_some_iff.mp h
  have hle := find_le hj
  rw [length_singleton] at hle
  omega

theorem CutAt.safe_string (hcut : CutAt buffer lineEnd) (hn : lineEnd < n) (h : start ≤ lineEnd) :
    AllSafe n (stringReads buffer start) := by
  have hle := hcut.strings start h
  exact allSafe_reads (by omega)

theorem CutAt.safe_strchr (hcut : CutAt buffer lineEnd) (hn : lineEnd < n) (h : start ≤ lineEnd)
    (c : UInt8) : AllSafe n (searchReads buffer start 1 (strchr buffer start c)) := by
  cases hfou : strchr buffer start c with
  | none => exact hcut.safe_string hn h
  | some k =>
    have hlt := strchr_lt hfou
    have hle := hcut.strings start h
    exact allSafe_reads (by omega)

theorem trimStart_le (buffer : List UInt8) (start k : ℕ) :
    start ≤ trimStart buffer start k ∧ trimStart buffer start k ≤ start + k := by
  induction k generalizing start with
  | zero => exact ⟨le_rfl, le_rfl⟩
  | succ k ih =>
    unfold trimStart
    split
    · have h := ih (start + 1)
      omega
    · omega

theorem trimEnd_le (buffer : List UInt8) (start k : ℕ) :
    start ≤ trimEnd buffer start k ∧ trimEnd buffer start k ≤ start + k := by
  induction k with
  | zero => exact ⟨le_rfl, le_rfl⟩
  | succ k ih =>
    unfold trimEnd
    split <;> omega

/-- The two pointers that `vl_http_trim` leaves are in order and inside those it was given. -/
theorem trim_bounds (buffer : List UInt8) (h : start ≤ stop) :
    (trim buffer start stop).1 ≤ (trim buffer start stop).2 ∧ (trim buffer start stop).2 ≤ stop := by
  have hsta := trimStart_le buffer start (stop - start)
  have hend := trimEnd_le buffer (trimStart buffer start (stop - start))
    (stop - trimStart buffer start (stop - start))
  unfold trim
  dsimp only
  omega

theorem safe_trimStartReads (buffer : List UInt8) (start k : ℕ) (h : start + k ≤ n) :
    AllSafe n (trimStartReads buffer start k) := by
  induction k generalizing start with
  | zero => exact allSafe_nil
  | succ k ih =>
    refine allSafe_cons.mpr ⟨show start < n by omega, ?_⟩
    split
    · exact ih (start + 1) (by omega)
    · exact allSafe_nil

theorem safe_trimEndReads (buffer : List UInt8) (start k : ℕ) (h : start + k ≤ n) :
    AllSafe n (trimEndReads buffer start k) := by
  induction k with
  | zero => exact allSafe_nil
  | succ k ih =>
    refine allSafe_cons.mpr ⟨show start + k < n by omega, ?_⟩
    split
    · exact ih (by omega)
    · exact allSafe_nil

theorem safe_trimAccesses (buffer : List UInt8) (h : start ≤ stop) (hn : stop ≤ n) :
    AllSafe n (trimAccesses buffer start stop) := by
  have hsta := trimStart_le buffer start (stop - start)
  refine allSafe_cons.mpr ⟨h, allSafe_append.mpr ⟨?_, ?_⟩⟩
  · exact safe_trimStartReads buffer start _ (by omega)
  · exact safe_trimEndReads buffer _ _ (by omega)

theorem safe_copyAccesses (size : ℕ) {token : ℕ × ℕ} (h : token.1 ≤ token.2) (hn : token.2 ≤ n) :
    AllSafe n (copyAccesses size token) := by
  refine allSafe_cons.mpr ⟨h, ?_⟩
  split
  · exact allSafe_nil
  · exact allSafe_reads hn

/-- Every access of a turn of the header loop, on a line that is cut below `n`. -/
theorem safe_lineAccesses (hcut : CutAt buffer lineEnd) (hle : cursor ≤ lineEnd) (hn : lineEnd < n) :
    AllSafe n (lineAccesses buffer cursor lineEnd) := by
  refine allSafe_append.mpr ⟨hcut.safe_strchr hn hle 58, ?_⟩
  cases hfou : strchr buffer cursor 58 with
  | none => exact allSafe_nil
  | some colon =>
    -- the colon is a byte of the line, so both tokens lie between the cursor and the cut
    have hlt := strchr_lt hfou
    have hstr := hcut.strings cursor hle
    have hnm := trim_bounds buffer (show cursor ≤ colon by omega)
    have hval := trim_bounds buffer (show colon + 1 ≤ lineEnd by omega)
    dsimp only
    split
    · exact allSafe_nil
    simp only [allSafe_append]
    refine ⟨⟨⟨?_, ?_⟩, ?_⟩, ?_⟩
    · exact safe_trimAccesses buffer (by omega) (by omega)
    · exact safe_trimAccesses buffer (by omega) (by omega)
    · exact safe_copyAccesses _ hnm.1 (by omega)
    · split
      · exact allSafe_nil
      · exact safe_copyAccesses _ hval.1 (by omega)

theorem safe_partsAccesses {method path version : ℕ} (hcut : CutAt buffer lineEnd) (hn : lineEnd < n)
    (hmet : method ≤ lineEnd) (hpt : path ≤ lineEnd) (hver : version ≤ lineEnd) :
    AllSafe n (partsAccesses buffer method path version) := by
  have hstr := hcut.strings
  refine allSafe_append.mpr ⟨allSafe_reads ?_, ?_⟩
  · have hle := hstr version hver
    omega
  split
  · exact allSafe_nil
  rename_i hpre
  obtain ⟨hsev, heig⟩ := hcut.version version hver (not_not.mp hpre)
  refine allSafe_cons.mpr ⟨show version + 7 < n by omega, ?_⟩
  split
  · exact allSafe_nil
  -- the minor version is not a `NUL`, so the byte behind it is still looked at before the cut
  rename_i hmin
  have hby : buffer.getD (version + 7) 0 ≠ 0 := by
    intro hzr
    rw [hzr] at hmin
    exact hmin (by decide)
  have height' := heig hby
  refine allSafe_cons.mpr ⟨show version + 8 < n by omega, ?_⟩
  split
  · exact allSafe_nil
  refine allSafe_append.mpr ⟨hcut.safe_string hn hmet, ?_⟩
  split
  · exact allSafe_nil
  refine allSafe_cons.mpr ⟨show path < n by omega, ?_⟩
  split
  · exact allSafe_nil
  refine allSafe_append.mpr ⟨?_, ?_⟩
  · have hle := hstr method hmet
    exact safe_copyAccesses _ (Nat.le_add_right _ _) (by dsimp only; omega)
  split
  · exact allSafe_nil
  · have hle := hstr path hpt
    exact allSafe_append.mpr ⟨hcut.safe_string hn hpt,
      safe_copyAccesses _ (Nat.le_add_right _ _) (by dsimp only; omega)⟩

end Safety

section Lines

variable {p q : Parser} {cursor n room lineEnd : ℕ} {saw : Bool} {lines : List (List UInt8)}
  {line pre m : List UInt8}

theorem length_takeWhile_nul (l r : List UInt8) :
    ((l ++ 0 :: r).takeWhile (· != 0)).length ≤ l.length := by
  induction l with
  | nil => simp
  | cons c l ih =>
    rw [cons_append, takeWhile_cons]
    split
    · exact Nat.succ_le_succ ih
    · exact Nat.zero_le _

theorem cstring_append_nul (a b : List UInt8) {x : ℕ} (hx : x ≤ a.length) :
    x + (cstring (a ++ 0 :: b) x).length ≤ a.length := by
  have hlen := length_takeWhile_nul (a.drop x) b
  unfold cstring
  rw [drop_append_of_le_length hx]
  rw [length_drop] at hlen
  omega

theorem cutAt_append (a b : List UInt8) : CutAt (a ++ 0 :: b) a.length := by
  refine ⟨fun x hx => cstring_append_nul a b hx, fun x hx hver => ?_⟩
  have hle := cstring_append_nul a b hx
  have hsev := congrArg List.length hver
  rw [length_take] at hsev
  have hlen : versionStart.length = 7 := rfl
  refine ⟨by omega, fun hby => ?_⟩
  by_contra hlg
  obtain hend : x + 7 = a.length + 0 := by omega
  rw [hend, getD_append, getD_cons_zero] at hby
  exact hby rfl

theorem cutAt_cut {i : ℕ} (hi : i < p.buffer.length) {buffer : List UInt8}
    (h : buffer.drop i = (p.cut i).buffer.drop i) : CutAt buffer i := by
  have hset : (p.cut i).buffer = p.buffer.take i ++ 0 :: p.buffer.drop (i + 1) :=
    set_eq_take_cons_drop 0 hi
  have hlen : (p.buffer.take i).length = i := length_take_of_le hi.le
  have hdr : (p.cut i).buffer.drop i = 0 :: p.buffer.drop (i + 1) := by
    have hlf : (p.buffer.take i ++ 0 :: p.buffer.drop (i + 1)).drop (p.buffer.take i).length = _ :=
      drop_left
    rwa [hlen, ← hset] at hlf
  rw [hdr] at h
  have hlg : i ≤ buffer.length := by
    by_contra hsho
    rw [drop_eq_nil_of_le (by omega)] at h
    cases h
  have hcut := cutAt_append (buffer.take i) (p.buffer.drop (i + 1))
  rwa [← h, take_append_drop, length_take_of_le hlg] at hcut

theorem lineWithin (hfree : find crlf line = none) (hbuf : p.buffer = pre ++ (line ++ (crlf ++ m))) :
    LineWithin p pre.length (pre.length + line.length + 2) ∧
      ∀ lineEnd, strstr p.buffer pre.length crlf = some lineEnd → lineEnd = pre.length + line.length := by
  by_cases hnul : 0 ∈ line
  · have hend : strstr p.buffer pre.length crlf = none := by
      rw [hbuf]
      exact strstr_nul hfree hnul pre _
    have hnn : ∀ {lineEnd}, strstr p.buffer pre.length crlf ≠ some lineEnd := fun h => by
      rw [hend] at h
      cases h
    refine ⟨⟨?_, fun _ h => absurd h hnn⟩, fun _ h => absurd h hnn⟩
    -- the search ends at a `NUL` of the line
    obtain ⟨l, r, rfl⟩ := append_of_mem hnul
    have hcut := cstring_append_nul (pre ++ l) (r ++ (crlf ++ m)) (x := pre.length) (by simp)
    rw [hend]
    refine allSafe_reads ?_
    rw [hbuf]
    simp only [append_assoc, cons_append, length_append, length_cons] at hcut ⊢
    omega
  · have hend : strstr p.buffer pre.length crlf = some (pre.length + line.length) := by
      rw [hbuf]
      exact strstr_line hfree hnul pre m
    have hall : ∀ lineEnd, strstr p.buffer pre.length crlf = some lineEnd →
        lineEnd = pre.length + line.length := fun lineEnd h => (Option.some.inj (hend.symm.trans h)).symm
    refine ⟨⟨?_, fun lineEnd h => ?_⟩, hall⟩
    · rw [hend]
      exact allSafe_reads le_rfl
    · obtain rfl := hall lineEnd h
      refine ⟨Nat.le_add_right _ _, le_rfl, fun buffer => cutAt_cut ?_⟩
      rw [hbuf]
      simp only [length_append, crlf, length_cons]
      omega

theorem AllSafe.mono {k : ℕ} {l : List Access} (h : AllSafe k l) (hk : k ≤ n) : AllSafe n l := by
  intro a ha
  have hsf := h a ha
  cases a with
  | read i => exact hsf.trans_le hk
  | write i => exact hsf.trans_le hk
  | subtract a b => exact hsf

theorem LineWithin.mono {k : ℕ} (h : LineWithin p cursor k) (hk : k ≤ n) : LineWithin p cursor n :=
  ⟨h.search.mono hk, fun lineEnd hsm =>
    have hcut := h.cut lineEnd hsm
    ⟨hcut.1, hcut.2.1.trans hk, hcut.2.2⟩⟩

/-- The invariant of the header loop: from the cursor on, the buffer holds `lines` and the blank line,
which ends at `n`. -/
structure AtLine (n : ℕ) (p : Parser) (cursor : ℕ) (lines : List (List UInt8)) : Prop where
  split : ∃ pre rest, p.buffer = pre ++ (join 13 10 lines ++ (crlf ++ rest)) ∧ cursor = pre.length
  end_eq : cursor + (join 13 10 lines).length + 2 = n
  free : ∀ line ∈ lines, find crlf line = none
  ne_nil : ∀ line ∈ lines, line ≠ []

theorem AtLine.within (h : AtLine n p cursor lines) : LineWithin p cursor n ∧
    (strstr p.buffer cursor crlf = some cursor → cursor + 2 = n) := by
  obtain ⟨pre, rest, hbuf, rfl⟩ := h.split
  have hend := h.end_eq
  cases lines with
  | nil =>
    rw [join, flatMap_nil, length_nil, Nat.add_zero] at hend
    have hnil : p.buffer = pre ++ ([] ++ (crlf ++ rest)) := hbuf
    have hln := lineWithin (rfl : find crlf [] = none) hnil
    rw [length_nil, Nat.add_zero, hend] at hln
    exact ⟨hln.1, fun _ => hend⟩
  | cons line lines =>
    rw [join_cons] at hend
    simp only [length_append, length_cons, length_nil] at hend
    rw [join_cons, append_assoc, append_assoc] at hbuf
    obtain ⟨hln, hall⟩ := lineWithin (h.free line mem_cons_self) hbuf
    have hpos := length_pos_iff.mpr (h.ne_nil line mem_cons_self)
    refine ⟨hln.mono (by omega), fun hsm => ?_⟩
    have heq := hall _ hsm
    omega

theorem headerLine_buffer (cursor lineEnd : ℕ) (saw : Bool) :
    (p.headerLine cursor lineEnd saw).1.buffer = p.buffer := by
  unfold headerLine
  split
  · rfl
  · split_ifs
    · rfl
    · dsimp only
      split <;> rfl

/-- The step of the header loop: one line is consumed, and the cursor has advanced. -/
theorem AtLine.next (h : AtLine n p cursor lines) (hsm : strstr p.buffer cursor crlf = some lineEnd)
    (hne : lineEnd ≠ cursor) (hbuffer' : q.buffer = (p.cut lineEnd).buffer) :
    ∃ lines', AtLine n q (lineEnd + 2) lines' ∧ cursor < lineEnd + 2 := by
  obtain ⟨pre, rest, hbuf, rfl⟩ := h.split
  have hend := h.end_eq
  cases lines with
  | nil =>
    have hnil : p.buffer = pre ++ ([] ++ (crlf ++ rest)) := hbuf
    exact absurd ((lineWithin (rfl : find crlf [] = none) hnil).2 lineEnd hsm) hne
  | cons line lines =>
    rw [join_cons, append_assoc, append_assoc] at hbuf
    obtain rfl := (lineWithin (h.free line mem_cons_self) hbuf).2 lineEnd hsm
    refine ⟨lines, ⟨⟨pre ++ line ++ [0, 10], rest, ?_, ?_⟩, ?_, fun l hl => ?_, fun l hl => ?_⟩, by omega⟩
    · rw [hbuffer', cut_line hbuf]
      simp
    · simp only [length_append, length_cons, length_nil]
    · rw [join_cons] at hend
      simp only [length_append, length_cons, length_nil] at hend
      omega
    · exact h.free l (mem_cons_of_mem line hl)
    · exact h.ne_nil l (mem_cons_of_mem line hl)

/-- What holds of the turns of the header loop: there are at most `count`, their cursors ascend, their
accesses are safe, and where the loop succeeds its last cursor is at the blank line that ends at `n`. -/
structure TurnsWithin (n count : ℕ) (ok : Prop) (turns : List (ℕ × List Access)) : Prop where
  length_le : turns.length ≤ count
  ascend : turns.IsChain (fun a b => a.1 < b.1)
  safe : ∀ turn ∈ turns, AllSafe n turn.2
  stops : ok → ∃ turn, turns.getLast? = some turn ∧ turn.1 + 2 = n

theorem TurnsWithin.nil {ok : Prop} (h : ¬ ok) : TurnsWithin n room ok [] :=
  ⟨Nat.zero_le _, .nil, forall_mem_nil _, fun hok => absurd hok h⟩

theorem TurnsWithin.single {ok : Prop} {accesses : List Access} (hsf : AllSafe n accesses)
    (hsto : ok → cursor + 2 = n) : TurnsWithin n (room + 1) ok [(cursor, accesses)] :=
  ⟨Nat.le_add_left _ _, .singleton _, forall_mem_singleton.mpr hsf,
    fun hok => ⟨(cursor, accesses), rfl, hsto hok⟩⟩

theorem TurnsWithin.cons {ok : Prop} {next : ℕ} {accesses : List Access} {turns : List (ℕ × List Access)}
    (h : TurnsWithin n room ok turns) (hhd : turns.head?.map Prod.fst = some next)
    (hlt : cursor < next) (hsf : AllSafe n accesses) :
    TurnsWithin n (room + 1) ok ((cursor, accesses) :: turns) := by
  cases turns with
  | nil => cases hhd
  | cons first turns =>
    cases hhd
    refine ⟨Nat.succ_le_succ h.length_le, .cons_cons hlt h.ascend,
      forall_mem_cons.mpr ⟨hsf, h.safe⟩, fun hok => ?_⟩
    rw [List.getLast?_cons_cons]
    exact h.stops hok

theorem headerTurns_head (room : ℕ) (p : Parser) (cursor : ℕ) (saw : Bool) :
    (Parser.headerTurns room p cursor saw).head?.map Prod.fst = some cursor := by
  unfold headerTurns
  dsimp only
  split
  · rfl
  split_ifs
  · rfl
  split <;> rfl

/-- The run of the header loop. -/
theorem headerTurns_bounds (room : ℕ) (saw : Bool) (h : AtLine n p cursor lines) :
    TurnsWithin n (room + 1) ((Parser.parseHeaders room p cursor saw).2 = .ok)
      (Parser.headerTurns room p cursor saw) := by
  induction room generalizing p cursor saw lines with
  | zero =>
    obtain ⟨hwit, hbla⟩ := h.within
    unfold headerTurns parseHeaders
    cases hsm : strstr p.buffer cursor crlf with
    | none => exact .single (hsm ▸ hwit.search) (fun hok => by cases hok)
    | some lineEnd =>
      dsimp only
      split_ifs with hcur
      · exact .single (hsm ▸ hwit.search) (fun _ => hbla (hcur ▸ hsm))
      · exact .single (hsm ▸ hwit.search) (fun hok => by cases hok)
  | succ room ih =>
    obtain ⟨hwit, hbla⟩ := h.within
    unfold headerTurns parseHeaders
    cases hsm : strstr p.buffer cursor crlf with
    | none => exact .single (hsm ▸ hwit.search) (fun hok => by cases hok)
    | some lineEnd =>
      dsimp only
      split_ifs with hcur
      · exact .single (hsm ▸ hwit.search) (fun _ => hbla (hcur ▸ hsm))
      obtain ⟨hle, hlt, hcut⟩ := hwit.cut lineEnd hsm
      have hsf : AllSafe n (searchReads p.buffer cursor 2 (some lineEnd) ++
          .write lineEnd :: lineAccesses (p.cut lineEnd).buffer cursor lineEnd) :=
        allSafe_append.mpr ⟨hsm ▸ hwit.search, allSafe_cons.mpr
          ⟨show lineEnd < n by omega, safe_lineAccesses (hcut _ rfl) hle (by omega)⟩⟩
      have hbuf := headerLine_buffer (p := p.cut lineEnd) cursor lineEnd saw
      generalize (p.cut lineEnd).headerLine cursor lineEnd saw = result at hbuf ⊢
      obtain ⟨q, saw', status⟩ := result
      cases status with
      | ok =>
        obtain ⟨lines', hnx, hlt'⟩ := h.next hsm hcur hbuf
        exact (ih saw' hnx).cons (headerTurns_head room q _ saw') hlt' hsf
      | _ => exact .single hsf (fun hok => by cases hok)

end Lines

section Head

variable {p : Parser} {room e : ℕ} {buffer token : List UInt8}

theorem parseRequestLine_drop (hcut : ∀ b : List UInt8, b.drop e = p.buffer.drop e → CutAt b e) :
    (p.parseRequestLine 0).1.buffer.drop e = p.buffer.drop e := by
  have hpar : ∀ (q : Parser) i j k, (q.requestParts i j k).1.buffer = q.buffer := by
    intro q i j k
    unfold requestParts
    repeat' split
    any_goals rfl
    dsimp only
    split <;> rfl
  unfold parseRequestLine
  split
  · rfl
  rename_i space hspa
  have hlt := strchr_lt hspa
  have hle := (hcut p.buffer rfl).strings 0 (Nat.zero_le e)
  have hone : (p.cut space).buffer.drop e = p.buffer.drop e := drop_set_of_lt (by omega)
  split_ifs
  · rfl
  dsimp only
  split
  · exact hone
  rename_i space' hspace'
  have hlt' := strchr_lt hspace'
  have hle' := (hcut _ hone).strings (space + 1) (by omega)
  rw [hpar]
  refine Eq.trans (drop_set_of_lt ?_) hone
  omega

/-- Every access of `vl_http_parse_request_line`, on a line that is cut below `n`. -/
theorem safe_requestLineAccesses {n : ℕ} (hn : e < n)
    (hcut : ∀ b : List UInt8, b.drop e = p.buffer.drop e → CutAt b e) :
    AllSafe n (p.requestLineAccesses 0) := by
  have hfir := hcut p.buffer rfl
  refine allSafe_append.mpr ⟨hfir.safe_strchr hn (Nat.zero_le e) 32, ?_⟩
  cases hspa : strchr p.buffer 0 32 with
  | none => exact allSafe_nil
  | some space =>
    have hlt := strchr_lt hspa
    have hle := hfir.strings 0 (Nat.zero_le e)
    have hone : (p.cut space).buffer.drop e = p.buffer.drop e := drop_set_of_lt (by omega)
    have hsec := hcut _ hone
    refine allSafe_cons.mpr ⟨Nat.zero_le space, ?_⟩
    split
    · exact allSafe_nil
    dsimp only
    refine allSafe_cons.mpr ⟨show space < n by omega, allSafe_append.mpr
      ⟨hsec.safe_strchr hn (by omega) 32, ?_⟩⟩
    cases hspace' : strchr (p.cut space).buffer (space + 1) 32 with
    | none => exact allSafe_nil
    | some space' =>
      have hlt' := strchr_lt hspace'
      have hle' := hsec.strings (space + 1) (by omega)
      have htwo : ((p.cut space).cut space').buffer.drop e = p.buffer.drop e :=
        (drop_set_of_lt (by omega)).trans hone
      exact allSafe_cons.mpr ⟨show space' < n by omega,
        safe_partsAccesses (hcut _ htwo) hn (Nat.zero_le e) (by omega) (by omega)⟩

/-- What holds while the head is parsed that ends at `n`: every index read or written lies below `n` and
no difference of pointers wraps around; the header loop takes at most 33 turns, its cursor advances
strictly, and unless the head is refused it stops at the blank line that ends it. -/
structure HeadWithin (p : Parser) (n : ℕ) : Prop where
  four_le : 4 ≤ n
  le_length : n ≤ p.buffer.length
  safe : AllSafe n p.headAccesses
  turns : TurnsWithin n 33 (p.parseHead.2 ≠ .invalidArgument) p.headTurns

theorem head_split {first head rest : List UInt8} {lines : List (List UInt8)}
    (hblo : Block 13 10 first lines head) (hbuf : p.buffer = head ++ rest) :
    p.buffer = [] ++ (first ++ (crlf ++ (join 13 10 lines ++ (crlf ++ rest)))) := by
  rw [hbuf, hblo.eq]
  simp [crlf]

theorem atLine_headers {first head rest : List UInt8} {lines : List (List UInt8)}
    (hblo : Block 13 10 first lines head) (hbuf : p.buffer = head ++ rest)
    (hcut : ∀ b : List UInt8, b.drop first.length = (p.cut first.length).buffer.drop first.length →
      CutAt b first.length) :
    AtLine head.length ((p.cut first.length).parseRequestLine 0).1 (first.length + 2) lines := by
  have hlen := congrArg List.length hblo.eq
  simp only [length_append, length_cons, length_nil] at hlen
  have hset : (p.cut first.length).buffer =
      first ++ (0 :: 10 :: (join 13 10 lines ++ (crlf ++ rest))) := by
    have hln := cut_line (head_split hblo hbuf)
    rw [length_nil, Nat.zero_add] at hln
    rw [hln, nil_append]
  have hdr := parseRequestLine_drop hcut
  rw [hset, drop_left] at hdr
  generalize ((p.cut first.length).parseRequestLine 0).1 = q at hdr ⊢
  have hlg : first.length ≤ q.buffer.length := by
    by_contra hsho
    rw [drop_eq_nil_of_le (by omega)] at hdr
    cases hdr
  refine ⟨⟨q.buffer.take first.length ++ [0, 10], rest, ?_, ?_⟩, by omega, hblo.free, hblo.ne_nil⟩
  · conv_lhs => rw [← take_append_drop first.length q.buffer]
    rw [hdr]
    simp
  · rw [length_append, length_take_of_le hlg]
    rfl

theorem lineWithin_head {first head rest : List UInt8} {lines : List (List UInt8)}
    (hblo : Block 13 10 first lines head) (hbuf : p.buffer = head ++ rest) :
    LineWithin p 0 head.length ∧
      ∀ lineEnd, strstr p.buffer 0 crlf = some lineEnd → lineEnd = first.length := by
  have hlen := congrArg List.length hblo.eq
  simp only [length_append, length_cons, length_nil] at hlen
  obtain ⟨hln, hall⟩ := lineWithin hblo.first_free (head_split hblo hbuf)
  rw [length_nil, Nat.zero_add] at hln hall
  exact ⟨hln.mono (by omega), hall⟩

theorem headTurns_within {first head rest : List UInt8} {lines : List (List UInt8)}
    (hblo : Block 13 10 first lines head) (hbuf : p.buffer = head ++ rest) :
    TurnsWithin head.length 33 (p.parseHead.2 ≠ .invalidArgument) p.headTurns := by
  obtain ⟨hln, hall⟩ := lineWithin_head hblo hbuf
  unfold headTurns parseHead
  cases hsm : strstr p.buffer 0 crlf with
  | none => exact .nil (fun h => h rfl)
  | some lineEnd =>
    obtain rfl := hall lineEnd hsm
    dsimp only
    split_ifs
    · exact .nil (fun h => h rfl)
    have hat := atLine_headers hblo hbuf (hln.cut _ hsm).2.2
    generalize (p.cut first.length).parseRequestLine 0 = result at hat ⊢
    obtain ⟨q, status⟩ := result
    cases status with
    | ok =>
      have htur := headerTurns_bounds maxHeaders false hat
      refine { htur with stops := fun hok => htur.stops ?_ }
      dsimp only at hok
      generalize Parser.parseHeaders maxHeaders q (first.length + 2) false = result at hok ⊢
      obtain ⟨q', status'⟩ := result
      cases status' with
      | ok => rfl
      | _ => exact absurd rfl hok
    | _ => exact .nil (fun h => h rfl)

theorem headWithin {first head rest : List UInt8} {lines : List (List UInt8)}
    (hblo : Block 13 10 first lines head) (hbuf : p.buffer = head ++ rest)
    (hend : p.headerEnd = head.length) : HeadWithin p head.length := by
  have hfr := hblo.four_le
  obtain ⟨hln, -⟩ := lineWithin_head hblo hbuf
  have htur := headTurns_within hblo hbuf
  refine ⟨hfr, by rw [hbuf, length_append]; omega, ?_, htur⟩
  simp only [headAccesses, allSafe_append, allSafe_cons]
  refine ⟨⟨⟨hln.search, ?_⟩, ?_⟩, ?_, ?_, allSafe_nil⟩
  · cases hsm : strstr p.buffer 0 crlf with
    | none => exact allSafe_nil
    | some lineEnd =>
      obtain ⟨-, hlt, hcut⟩ := hln.cut lineEnd hsm
      dsimp only
      split_ifs
      · exact allSafe_nil
      · exact allSafe_cons.mpr ⟨show lineEnd < _ by omega, safe_requestLineAccesses (by omega) hcut⟩
  · intro a ha
    obtain ⟨turn, htr, ha⟩ := mem_flatMap.mp ha
    exact htur.safe turn htr a ha
  · show 4 ≤ p.headerEnd
    omega
  · show p.headerEnd - 4 < head.length
    omega

theorem tokenCopy_lt {size start length : ℕ} (h : tokenCopy size buffer start length = some token) :
    token.length < size := by
  unfold tokenCopy at h
  split_ifs at h with hbad
  cases h
  rw [length_take]
  omega

theorem parseRequestLine_fits (line : ℕ) (h : p.request.Fits room) :
    (p.parseRequestLine line).1.request.Fits room := by
  have hpar : ∀ (q : Parser) i j k, q.request.Fits room → (q.requestParts i j k).1.request.Fits room := by
    intro q i j k h
    unfold requestParts
    split
    · exact h
    split
    · exact h
    split
    · exact h
    split
    · exact h
    rename_i method hmet
    dsimp only
    split
    · exact { h with method := tokenCopy_lt hmet }
    · rename_i path hpt
      exact { h with method := tokenCopy_lt hmet, path := tokenCopy_lt hpt }
  unfold parseRequestLine
  split
  · exact h
  split_ifs
  · exact h
  dsimp only
  split
  · exact h
  · exact hpar _ _ _ _ h

theorem addHeader_fits (saw : Bool) {r : Request} {name value : List UInt8} (h : r.Fits (room + 1))
    (hnm : name.length < maxHeaderName) (hval : value.length < maxHeaderValue) :
    (r.addHeader saw name value).1.Fits room := by
  have hcnt := h.count
  have hdd : ({ r with headers := r.headers ++ [⟨name, value⟩] } : Request).Fits room := by
    refine { h with headers := ?_, count := ?_ }
    · intro header hhdr
      rcases mem_append.mp hhdr with hold | hnew
      · exact h.headers header hold
      · rw [mem_singleton.mp hnew]
        exact ⟨hnm, hval⟩
    · rw [length_append, length_singleton]
      omega
  unfold Request.addHeader
  dsimp only
  split_ifs
  · exact hdd
  · split
    · exact hdd
    · exact { hdd with }
  · exact { hdd with }
  · exact { hdd with }
  · exact hdd
  · exact hdd

theorem Request.Fits.weaken {r : Request} (h : r.Fits room) : r.Fits 0 :=
  { h with count := (Nat.le_add_right _ _).trans h.count }

theorem headerLine_fits (cursor lineEnd : ℕ) (saw : Bool) (h : p.request.Fits (room + 1)) :
    (p.headerLine cursor lineEnd saw).1.request.Fits 0 ∧
      ((p.headerLine cursor lineEnd saw).2.2 = .ok →
        (p.headerLine cursor lineEnd saw).1.request.Fits room) := by
  have hbad : ∀ {q : Parser}, q.request = p.request → q.request.Fits 0 ∧
      (Status.invalidArgument = .ok → q.request.Fits room) := fun hq =>
    ⟨hq ▸ h.weaken, fun hok => by cases hok⟩
  unfold headerLine
  split
  · exact hbad rfl
  split
  · exact hbad rfl
  dsimp only
  split
  · rename_i name value hnm hval
    have hadd := addHeader_fits saw h (tokenCopy_lt hnm) (tokenCopy_lt hval)
    exact ⟨hadd.weaken, fun _ => hadd⟩
  · exact hbad rfl

theorem parseHeaders_fits (cursor : ℕ) (saw : Bool) (h : p.request.Fits room) :
    (Parser.parseHeaders room p cursor saw).1.request.Fits 0 := by
  induction room generalizing p cursor saw with
  | zero =>
    unfold parseHeaders
    split
    · exact h
    · split_ifs <;> exact h
  | succ room ih =>
    unfold parseHeaders
    split
    · exact h.weaken
    rename_i lineEnd _
    split_ifs
    · exact h.weaken
    obtain ⟨hln, hnx⟩ := headerLine_fits (p := p.cut lineEnd) cursor lineEnd saw h
    dsimp only
    generalize (p.cut lineEnd).headerLine cursor lineEnd saw = result at hln hnx ⊢
    obtain ⟨q, saw', status⟩ := result
    cases status with
    | ok => exact ih _ _ (hnx rfl)
    | _ => exact hln

theorem empty_fits (h : room ≤ maxHeaders) : Request.empty.Fits room :=
  ⟨by decide, by decide, fun header hhdr => absurd hhdr not_mem_nil, (Nat.zero_add _).trans_le h⟩

theorem parseHead_fits (h : p.request = .empty) : p.parseHead.1.request.Fits 0 := by
  have hemp : p.request.Fits maxHeaders := h ▸ empty_fits le_rfl
  have hzr : p.request.Fits 0 := h ▸ empty_fits (Nat.zero_le _)
  unfold parseHead
  split
  · exact hzr
  split_ifs
  · exact hzr
  rename_i lineEnd _ _
  have hln : ((p.cut lineEnd).parseRequestLine 0).1.request.Fits maxHeaders :=
    parseRequestLine_fits 0 hemp
  generalize (p.cut lineEnd).parseRequestLine 0 = result at hln ⊢
  obtain ⟨q, status⟩ := result
  have hhds := parseHeaders_fits (lineEnd + 2) false hln
  cases status with
  | ok =>
    dsimp only at hhds ⊢
    generalize Parser.parseHeaders maxHeaders q (lineEnd + 2) false = result at hhds ⊢
    obtain ⟨q', status'⟩ := result
    cases status' with
    | ok =>
      dsimp only
      split_ifs
      · exact hhds
      · exact { hhds with }
    | _ => exact hhds
  | _ => exact hln.weaken

end Head

/-- The invariant over the calls of `vl_http_parser_feed`. The first two fields are also why the
subtractions `capacity - length` and `length - header_end` of the size checks do not wrap around. -/
structure Bounded (p : Parser) : Prop where
  length_le : p.buffer.length ≤ p.capacity
  headerEnd_le : p.headerEnd ≤ p.buffer.length
  four_le : p.headerEnd = 0 ∨ 4 ≤ p.headerEnd
  empty : p.headerEnd = 0 → p.request = .empty
  fits : p.request.Fits 0

section Calls

variable {p : Parser} {data : List UInt8}

theorem bounded_init (config : Config) (malloc : Bool) : Bounded (.init config malloc) :=
  ⟨Nat.zero_le _, le_rfl, Or.inl rfl, fun _ => rfl, empty_fits (Nat.zero_le _)⟩

theorem Bounded.finish (h : Bounded p) : Bounded p.finish.1 := by
  unfold Parser.finish
  split_ifs with hsho
  · exact h
  · refine { h with empty := fun hzr => ?_, fits := { h.fits with } }
    dsimp only at hzr ⊢
    rw [h.empty hzr]
    rfl

theorem Bounded.headEnds (h : Bounded p) (hreq : p.request = .empty) {n : ℕ}
    (hend : findHeaderEnd p.buffer = some n) : Bounded (p.headEnds n).1 := by
  obtain ⟨first, lines, head, rest, hhd, rfl⟩ := exists_headOf hend
  have hfr := hhd.block.four_le
  have hle : head.length ≤ p.buffer.length := by
    rw [hhd.eq, length_append]
    omega
  have hset : Bounded { p with headerEnd := head.length } :=
    ⟨h.length_le, hle, Or.inr hfr, fun hzr => absurd hzr (by dsimp only; omega), h.fits⟩
  unfold Parser.headEnds
  dsimp only
  split
  · exact { hset with }
  have hft := parseHead_fits (p := { p with headerEnd := head.length }) hreq
  have hfra := parseHead_frame (p := { p with headerEnd := head.length })
  generalize ({ p with headerEnd := head.length } : Parser).parseHead = result at hft hfra ⊢
  obtain ⟨q, status⟩ := result
  simp only [frame, Prod.mk.injEq] at hfra hft
  obtain ⟨-, -, hcap, hlen, hhea, -⟩ := hfra
  have hq : Bounded q := by
    refine ⟨?_, ?_, ?_, fun hzr => ?_, hft⟩
    · rw [hlen, hcap]
      exact h.length_le
    · rw [hlen, hhea]
      exact hle
    · rw [hhea]
      exact .inr hfr
    · rw [hhea] at hzr
      omega
  cases status with
  | ok => exact hq.finish
  | _ => exact { hq with }

theorem Bounded.feed (h : Bounded p) : Bounded (p.feed data).1 := by
  unfold Parser.feed
  split
  · exact h
  split
  · exact { h with }
  rename_i hrm
  have hdt := not_lt.mp (not_or.mp hrm).2
  have hlen := h.length_le
  have happ : Bounded { p with buffer := p.buffer ++ data } := by
    refine { h with length_le := ?_, headerEnd_le := ?_ }
    · rw [length_append]
      dsimp only
      omega
    · exact h.headerEnd_le.trans (by rw [length_append]; omega)
  dsimp only
  split
  · rename_i hzr
    split
    · split
      · exact { happ with }
      · exact happ
    · rename_i n hend
      exact happ.headEnds (h.empty hzr) hend
  · exact happ.finish

end Calls

/-- **The parser stays inside its buffer.** After any calls of `vl_http_parser_feed`, under any
configuration, the parser is `Bounded`; and in the call that completes the head, with `data` appended,
the head is parsed inside its `n` bytes. -/
theorem parser_bounds (config : Config) (malloc : Bool) (fed : List (List UInt8)) (data : List UInt8) :
    let p := fed.foldl (fun p data => (p.feed data).1) (.init config malloc)
    Bounded p ∧ ∀ n, p.headerEnd = 0 → findHeaderEnd (p.buffer ++ data) = some n →
      HeadWithin { p with buffer := p.buffer ++ data, headerEnd := n } n := by
  intro p
  refine ⟨?_, fun n _ hend => ?_⟩
  · refine List.foldlRecOn fed _ (bounded_init config malloc) ?_
    exact fun p hp data _ => hp.feed
  · obtain ⟨first, lines, head, rest, hhd, rfl⟩ := exists_headOf hend
    exact headWithin hhd.block hhd.eq rfl

/-- The request in fragments, whose fourth ends the head of 39 bytes. -/
theorem parser_bounds_post :
    let p := (postFragments.take 3).foldl (fun p data => (Parser.feed p data).1)
      (Parser.init .default true)
    p.headerEnd = 0 ∧ findHeaderEnd (p.buffer ++ [10, 120]) = some 39 ∧
      HeadWithin { p with buffer := p.buffer ++ [10, 120], headerEnd := 39 } 39 := by
  intro p
  have hzr : p.headerEnd = 0 := by decide +kernel
  have hend : findHeaderEnd (p.buffer ++ [10, 120]) = some 39 := by decide +kernel
  exact ⟨hzr, hend, (parser_bounds .default true (postFragments.take 3) [10, 120]).2 39 hzr hend⟩

end Veloco.Http
