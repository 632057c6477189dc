import Veloco.Http.Parser
import Veloco.Numeral

/-!
# Writing a response
-/

namespace Veloco.Http

open List
open Veloco.Search Veloco.Numeral

/-! ## Responses -/

def ascii (s : String) : List UInt8 := s.toList.map fun c => c.toNat.toUInt8

def reasonPhrase (status : ℤ) : List UInt8 :=
  ascii (match status with
    | 200 => "OK"
    | 400 => "Bad Request"
    | 404 => "Not Found"
    | 413 => "Payload Too Large"
    | 431 => "Request Header Fields Too Large"
    | 500 => "Internal Server Error"
    | _ => "OK")

structure Response where
  status : ℤ
  reason : List UInt8
  body : List UInt8
  keepAlive : Bool
  chunked : Bool
  deriving DecidableEq, Repr

namespace Response

def init : Response := ⟨200, reasonPhrase 200, [], false, false⟩

def setStatus (r : Response) (status : ℤ) : Status × Response :=
  if status < 100 ∨ 599 < status then (.invalidArgument, r)
  else (.ok, { r with status := status, reason := reasonPhrase status })

def setBody (r : Response) (body : List UInt8) : Status × Response :=
  if 1024 ≤ body.length then (.invalidArgument, r) else (.ok, { r with body := body })

def intText (n : ℤ) : List UInt8 := (if n < 0 then [45] else []) ++ numeral 10 n.natAbs

def lengthField : List UInt8 := ascii "Content-Length: "

def chunkedField : List UInt8 := ascii "Transfer-Encoding: chunked"

def statusLine (r : Response) : List UInt8 := ascii "HTTP/1.1 " ++ (intText r.status ++ 32 :: r.reason)

def framingLine (r : Response) : List UInt8 :=
  if r.chunked then chunkedField else lengthField ++ numeral 10 r.body.length

def connectionLine (r : Response) : List UInt8 :=
  ascii (if r.keepAlive then "Connection: keep-alive" else "Connection: close")

def head (r : Response) : List UInt8 :=
  join 13 10 [r.statusLine, r.framingLine, r.connectionLine] ++ crlf

def chunkHead (r : Response) : List UInt8 := numeral 16 r.body.length ++ crlf

def pieces (r : Response) : List (List UInt8) :=
  let body := if r.body.length ≠ 0 then [r.body] else []
  if r.chunked then r.chunkHead :: (body ++ [[13, 10, 48, 13, 10, 13, 10]]) else body

end Response

/-! ## Sending -/

def sendAll (results : ℕ → ℤ) : ℕ → ℕ → List UInt8 → Option (Status × List UInt8 × ℕ)
  | _, i, [] => some (.ok, [], i)
  | 0, _, _ :: _ => none
  | fuel + 1, i, c :: data =>
    if results i < 0 then some (.system, [], i + 1)
    else
      let n := min (results i).toNat (c :: data).length
      (sendAll results fuel (i + 1) ((c :: data).drop n)).map fun answer =>
        (answer.1, (c :: data).take n ++ answer.2.1, answer.2.2)

def sendPieces (results : ℕ → ℤ) (fuel : ℕ) : ℕ → List (List UInt8) → Option (Status × List UInt8)
  | _, [] => some (.ok, [])
  | i, piece :: rest =>
    match sendAll results fuel i piece with
    | none => none
    | some (.ok, sent, j) =>
      (sendPieces results fuel j rest).map fun answer => (answer.1, sent ++ answer.2)
    | some (_, sent, _) => some (.system, sent)

def Response.write (results : ℕ → ℤ) (fuel : ℕ) (r : Response) : Option (Status × List UInt8) :=
  if 512 ≤ r.head.length then some (.invalidArgument, [])
  else if 1024 < r.body.length then none -- reads behind `body[1024]`
  else if r.chunked ∧ 32 ≤ r.chunkHead.length then
    (sendPieces results fuel 0 [r.head]).map fun answer =>
      (if answer.1 = .ok then .invalidArgument else answer.1, answer.2)
  else sendPieces results fuel 0 (r.head :: r.pieces)

section Sending

variable {results : ℕ → ℤ} {fuel : ℕ}

theorem sendAll_positive (hpos : ∀ i, 0 < results i) (data : List UInt8) (hfl : data.length ≤ fuel)
    (i : ℕ) : ∃ j, sendAll results fuel i data = some (.ok, data, j) := by
  induction fuel generalizing i data with
  | zero =>
    obtain rfl : data = [] := length_eq_zero_iff.mp (Nat.le_zero.mp hfl)
    exact ⟨i, rfl⟩
  | succ fuel ih =>
    cases data with
    | nil => exact ⟨i, rfl⟩
    | cons c data =>
      have hres := hpos i
      have htk : 0 < min (results i).toNat (c :: data).length := by
        rw [length_cons]
        omega
      have hsho : ((c :: data).drop (min (results i).toNat (c :: data).length)).length ≤ fuel := by
        rw [length_drop]
        omega
      obtain ⟨j, hj⟩ := ih _ hsho (i + 1)
      refine ⟨j, ?_⟩
      rw [sendAll, if_neg (not_lt.mpr hres.le)]
      dsimp only
      rw [hj, Option.map_some, take_append_drop]

theorem sendPieces_positive (hpos : ∀ i, 0 < results i) (pieces : List (List UInt8))
    (hfl : ∀ piece ∈ pieces, piece.length ≤ fuel) (i : ℕ) :
    sendPieces results fuel i pieces = some (.ok, pieces.flatten) := by
  induction pieces generalizing i with
  | nil => rfl
  | cons piece pieces ih =>
    obtain ⟨j, hj⟩ := sendAll_positive hpos piece (hfl piece mem_cons_self) i
    unfold sendPieces
    rw [hj]
    dsimp only
    rw [ih (fun x hx => hfl x (mem_cons_of_mem piece hx)) j]
    rfl

end Sending

/-! ## The client -/

def splitLine (l : List UInt8) : Option (List UInt8 × List UInt8) :=
  (find crlf l).map fun k => (l.take k, l.drop (k + 2))

def headLines : ℕ → List UInt8 → Option (List (List UInt8) × List UInt8)
  | 0, _ => none
  | fuel + 1, l =>
    (splitLine l).bind fun first =>
      if first.1 = [] then some ([], first.2)
      else (headLines fuel first.2).map fun more => (first.1 :: more.1, more.2)

inductive Framing where
  | length (n : ℕ)
  | chunked
  deriving DecidableEq, Repr

def framing (fields : List (List UInt8)) : Option Framing :=
  if Response.chunkedField ∈ fields then some .chunked
  else
    (fields.find? Response.lengthField.isPrefixOf).bind fun field =>
      (readNumeral 10 (field.drop Response.lengthField.length)).map .length

def readChunks : ℕ → List UInt8 → Option (List UInt8 × List UInt8)
  | 0, _ => none
  | fuel + 1, l =>
    (splitLine l).bind fun size =>
      (readNumeral 16 size.1).bind fun n =>
        if n = 0 then (if crlf <+: size.2 then some ([], size.2.drop 2) else none)
        else if n ≤ size.2.length ∧ crlf <+: size.2.drop n then
          (readChunks fuel (size.2.drop (n + 2))).map fun more => (size.2.take n ++ more.1, more.2)
        else none

def readBody (rest : List UInt8) : Framing → Option (List UInt8 × List UInt8)
  | .length n => if n ≤ rest.length then some (rest.take n, rest.drop n) else none
  | .chunked => readChunks rest.length rest

def decode (l : List UInt8) : Option (List UInt8 × List UInt8) :=
  (headLines l.length l).bind fun message =>
    if (ascii "HTTP/1.1 ").isPrefixOf (message.1.headD []) then
      (framing message.1.tail).bind (readBody message.2)
    else none

section Client

variable {line rest : List UInt8} {fuel : ℕ}

theorem find_crlf_of_not_mem (h : 13 ∉ line) : find crlf line = none :=
  find_of_not_infix fun hin => h (hin.subset mem_cons_self)

theorem find_crlf_append {pre : List UInt8} (hpre : 13 ∉ pre) (h : find crlf line = none) :
    find crlf (pre ++ line) = none := by
  induction pre with
  | nil => exact h
  | cons c pre ih =>
    obtain ⟨hc, hpre⟩ := not_or.mp (mt mem_cons.mpr hpre)
    have hsta : ¬ crlf <+: c :: (pre ++ line) := fun hin => hc (cons_prefix_cons.mp hin).1
    rw [cons_append, find_cons_neg hsta, ih hpre, Option.map_none]

theorem splitLine_line (hfr : find crlf line = none) (rest : List UInt8) :
    splitLine (line ++ (crlf ++ rest)) = some (line, rest) := by
  have hfn : find crlf (line ++ (crlf ++ rest)) = some line.length := find_line (by decide) hfr rest
  unfold splitLine
  rw [hfn, Option.map_some, take_left, drop_append, drop_of_length_le (by omega),
    Nat.add_sub_cancel_left]
  rfl

theorem headLines_join (lines : List (List UInt8)) (hfr : ∀ line ∈ lines, find crlf line = none)
    (hne : ∀ line ∈ lines, line ≠ []) (rest : List UInt8) (hfl : lines.length < fuel) :
    headLines fuel (join 13 10 lines ++ (crlf ++ rest)) = some (lines, rest) := by
  induction lines generalizing fuel with
  | nil =>
    obtain ⟨fuel, rfl⟩ := Nat.exists_eq_succ_of_ne_zero (Nat.ne_of_gt hfl)
    have hspl : splitLine (crlf ++ rest) = some ([], rest) := splitLine_line (rfl : find crlf [] = none) rest
    rw [headLines, join, flatMap_nil, nil_append, hspl, Option.bind_some, if_pos rfl]
  | cons line lines ih =>
    obtain ⟨fuel, rfl⟩ := Nat.exists_eq_succ_of_ne_zero (Nat.ne_of_gt (Nat.zero_lt_of_lt hfl))
    have hspl : splitLine (line ++ (crlf ++ (join 13 10 lines ++ (crlf ++ rest)))) = some (line, _) :=
      splitLine_line (hfr line mem_cons_self) _
    have hlin : join 13 10 (line :: lines) ++ (crlf ++ rest) =
        line ++ (crlf ++ (join 13 10 lines ++ (crlf ++ rest))) := by
      rw [join_cons, append_assoc, append_assoc]
      rfl
    rw [headLines, hlin, hspl, Option.bind_some, if_neg (hne line mem_cons_self)]
    rw [ih (fun x hx => hfr x (mem_cons_of_mem line hx))
      (fun x hx => hne x (mem_cons_of_mem line hx)) (Nat.lt_of_succ_lt_succ hfl)]
    rfl

theorem numeral_no_cr {b n : ℕ} (hlow : 1 < b) (hb : b ≤ 16) : 13 ∉ numeral b n := by
  intro h
  obtain ⟨d, hd, heq⟩ := mem_numeral hlow hb h
  exact (by decide : ∀ d < 16, (13 : UInt8) ≠ digit d) d hd heq

end Client

/-! ## What is written is read back -/

namespace Response

variable {r : Response}

structure Ok (r : Response) : Prop where
  low : 100 ≤ r.status
  high : r.status ≤ 599
  reason : r.reason = reasonPhrase r.status
  body : r.body.length ≤ 1023

theorem reasonPhrase_ok (status : ℤ) : 13 ∉ reasonPhrase status ∧ (reasonPhrase status).length ≤ 31 := by
  unfold reasonPhrase
  split <;> decide

theorem statusLine_length (h : r.Ok) : r.statusLine.length ≤ 44 := by
  have hrea := (reasonPhrase_ok r.status).2
  have hlow := h.low
  have hhg := h.high
  have hdig : (numeral 10 r.status.natAbs).length ≤ 3 :=
    numeral_length_le (by decide) (by decide) (by omega)
  have hsta : (ascii "HTTP/1.1 ").length = 9 := by decide
  unfold statusLine intText
  rw [h.reason, if_neg (by omega), nil_append, length_append, length_append,
    length_cons, hsta]
  omega

theorem statusLine_free (h : find crlf r.reason = none) : find crlf r.statusLine = none := by
  have hpre : 13 ∉ ascii "HTTP/1.1 " ++ (intText r.status ++ [32]) := by
    have hsta : 13 ∉ ascii "HTTP/1.1 " := by decide
    have hdig : 13 ∉ numeral 10 r.status.natAbs := numeral_no_cr (by decide) (by decide)
    unfold intText
    split_ifs <;> simp [hsta, hdig]
  have hln : r.statusLine = (ascii "HTTP/1.1 " ++ (intText r.status ++ [32])) ++ r.reason := by
    simp [statusLine]
  rw [hln]
  exact find_crlf_append hpre h

theorem framingLine_length (h : r.body.length ≤ 1024) : r.framingLine.length ≤ 26 := by
  have hdig : (numeral 10 r.body.length).length ≤ 4 :=
    numeral_length_le (by decide) (by decide) (by omega)
  have hfie : lengthField.length = 16 := by decide
  unfold framingLine
  split_ifs
  · decide
  · rw [length_append, hfie]
    omega

theorem framingLine_no_cr (r : Response) : 13 ∉ r.framingLine := by
  have hfie : 13 ∉ lengthField := by decide
  have hdig : 13 ∉ numeral 10 r.body.length := numeral_no_cr (by decide) (by decide)
  unfold framingLine
  split_ifs
  · decide
  · simp [hfie, hdig]

theorem connectionLine_ok (r : Response) : 13 ∉ r.connectionLine ∧ r.connectionLine.length ≤ 22 := by
  unfold connectionLine
  cases r.keepAlive <;> decide

theorem head_length (h : r.Ok) : r.head.length < 512 := by
  have hst := statusLine_length h
  have hfra := framingLine_length (Nat.le_succ_of_le h.body)
  have hcon := (connectionLine_ok r).2
  unfold head join
  simp only [flatMap_cons, flatMap_nil, length_append, length_cons, length_nil]
  have hcr : crlf.length = 2 := rfl
  omega

theorem headLines_head (h : find crlf r.reason = none) (rest : List UInt8) :
    headLines (r.head ++ rest).length (r.head ++ rest) =
      some ([r.statusLine, r.framingLine, r.connectionLine], rest) := by
  unfold head
  rw [append_assoc]
  refine headLines_join _ ?_ ?_ rest ?_
  · simp only [forall_mem_cons]
    exact ⟨statusLine_free h, find_crlf_of_not_mem (framingLine_no_cr r),
      find_crlf_of_not_mem (connectionLine_ok r).1, by simp⟩
  · simp only [forall_mem_cons]
    refine ⟨by simp [statusLine], ?_, ?_, by simp⟩
    · unfold framingLine
      split_ifs <;> simp [chunkedField, lengthField, ascii]
    · unfold connectionLine
      cases r.keepAlive <;> decide
  · simp only [join, flatMap_cons, length_append, length_cons, length_nil]
    omega

theorem framing_lines (r : Response) : framing [r.framingLine, r.connectionLine] =
    some (if r.chunked then .chunked else .length r.body.length) := by
  have hcon : chunkedField ≠ r.connectionLine := by
    unfold connectionLine
    cases r.keepAlive <;> decide
  unfold framing framingLine
  by_cases hchu : r.chunked = true
  · rw [if_pos hchu, if_pos hchu, if_pos mem_cons_self]
  · have hnot : chunkedField ∉ [lengthField ++ numeral 10 r.body.length, r.connectionLine] := by
      simp only [mem_cons, not_mem_nil, or_false, not_or]
      refine ⟨fun heq => ?_, hcon⟩
      have hfir : some (84 : UInt8) = some 67 := congrArg List.head? heq
      exact absurd hfir (by decide)
    have hsta : lengthField.isPrefixOf (lengthField ++ numeral 10 r.body.length) = true :=
      isPrefixOf_iff_prefix.mpr (prefix_append _ _)
    rw [if_neg hchu, if_neg hchu, if_neg hnot, List.find?_cons_of_pos hsta, Option.bind_some,
      drop_left, readNumeral_numeral (by decide) (by decide)]
    rfl

theorem readBody_pieces (r : Response) (hch : ¬ (r.chunked = true ∧ r.body = [])) :
    readBody r.pieces.flatten (if r.chunked then .chunked else .length r.body.length) =
      some (r.body, []) := by
  have hpie : (if r.body.length ≠ 0 then [r.body] else []).flatten = r.body := by
    by_cases hnil : r.body = []
    · rw [hnil]
      rfl
    · rw [if_pos (fun h => hnil (length_eq_zero_iff.mp h)), flatten_singleton]
  unfold pieces
  dsimp only
  by_cases hchu : r.chunked = true
  swap
  · rw [if_neg hchu, if_neg hchu, hpie]
    simp [readBody]
  -- one chunk, then the last chunk
  have hne : r.body.length ≠ 0 := fun h => hch ⟨hchu, length_eq_zero_iff.mp h⟩
  rw [if_pos hchu, if_pos hchu, flatten_cons, flatten_append, hpie,
    flatten_singleton]
  have hsz : splitLine (r.chunkHead ++ (r.body ++ [13, 10, 48, 13, 10, 13, 10])) =
      some (numeral 16 r.body.length, r.body ++ [13, 10, 48, 13, 10, 13, 10]) := by
    unfold chunkHead
    rw [append_assoc]
    exact splitLine_line (find_crlf_of_not_mem (numeral_no_cr (by decide) (by decide))) _
  have hls : ∀ fuel, readChunks (fuel + 1) [48, 13, 10, 13, 10] = some ([], []) := by
    intro fuel
    have hspl : splitLine [48, 13, 10, 13, 10] = some ([48], [13, 10]) := by decide
    have hzr : readNumeral 16 [48] = some 0 := by decide
    rw [readChunks, hspl, Option.bind_some, hzr, Option.bind_some, if_pos rfl]
    decide
  obtain ⟨fuel, hfl⟩ : ∃ fuel,
      (r.chunkHead ++ (r.body ++ [13, 10, 48, 13, 10, 13, 10])).length = fuel + 2 := by
    refine Nat.exists_eq_add_of_le' ?_
    simp only [length_append, length_cons]
    omega
  have hdr : (r.body ++ [13, 10, 48, 13, 10, 13, 10]).drop r.body.length = [13, 10, 48, 13, 10, 13, 10] :=
    drop_left
  rw [readBody, hfl, readChunks, hsz, Option.bind_some, readNumeral_numeral (by decide) (by decide),
    Option.bind_some, if_neg hne, if_pos ⟨by rw [length_append]; omega, by rw [hdr]; decide⟩,
    ← drop_drop, hdr, take_left]
  have hrs : ([13, 10, 48, 13, 10, 13, 10] : List UInt8).drop 2 = [48, 13, 10, 13, 10] := rfl
  rw [hrs, hls, Option.map_some, append_nil]

/-- An empty chunked body is ended by its size line, and the trailer ends it once more. -/
theorem readBody_empty (hchu : r.chunked = true) (hnil : r.body = []) :
    readBody r.pieces.flatten .chunked = some ([], ascii "0\r\n\r\n") := by
  have hpie : r.pieces = [numeral 16 0 ++ crlf, [13, 10, 48, 13, 10, 13, 10]] := by
    simp [pieces, chunkHead, hchu, hnil]
  rw [hpie]
  decide +kernel

theorem decode_pieces (h : find crlf r.reason = none) : decode (r.head ++ r.pieces.flatten) =
    some (r.body, if r.chunked = true ∧ r.body = [] then ascii "0\r\n\r\n" else []) := by
  have hsta : (ascii "HTTP/1.1 ").isPrefixOf r.statusLine = true :=
    isPrefixOf_iff_prefix.mpr (prefix_append _ _)
  unfold decode
  rw [headLines_head h, Option.bind_some, headD_cons, if_pos hsta, tail_cons, framing_lines,
    Option.bind_some]
  by_cases hemp : r.chunked = true ∧ r.body = []
  · rw [if_pos hemp.1, if_pos hemp, readBody_empty hemp.1 hemp.2, hemp.2]
  · rw [if_neg hemp]
    exact readBody_pieces r hemp

theorem write_ok (hhd : r.head.length < 512) (hbd : r.body.length ≤ 1024) {results : ℕ → ℤ}
    (hpos : ∀ i, 0 < results i) {fuel : ℕ} (hfl : 1024 ≤ fuel) :
    r.write results fuel = some (.ok, r.head ++ r.pieces.flatten) := by
  have hdig : (numeral 16 r.body.length).length ≤ 3 :=
    numeral_length_le (by decide) (by decide) (by omega)
  have hchunkHead : r.chunkHead.length ≤ 5 := by
    unfold chunkHead
    rw [length_append]
    have hcr : crlf.length = 2 := rfl
    omega
  have hpie : ∀ piece ∈ r.pieces, piece.length ≤ 1024 := by
    unfold pieces
    dsimp only
    split_ifs <;> simp <;> omega
  unfold write
  rw [if_neg (not_le.mpr hhd), if_neg (not_lt.mpr hbd), if_neg (by omega), sendPieces_positive hpos]
  · rfl
  · rw [forall_mem_cons]
    exact ⟨by omega, fun piece hpiece => (hpie piece hpiece).trans (by omega)⟩

def built (status : ℤ) (body : List UInt8) (keepAlive chunked : Bool) : Response :=
  { ((init.setStatus status).2.setBody body).2 with keepAlive := keepAlive, chunked := chunked }

theorem built_eq {status : ℤ} {body : List UInt8} (hlow : 100 ≤ status) (hhg : status ≤ 599)
    (hbd : body.length ≤ 1023) (keepAlive chunked : Bool) :
    built status body keepAlive chunked = ⟨status, reasonPhrase status, body, keepAlive, chunked⟩ := by
  unfold built setStatus setBody
  rw [if_neg (by omega), if_neg (by omega)]

end Response

/-- **Responses round-trip** exactly when they are not both chunked and empty, and one that is both
leaves the five bytes of a second last chunk over. -/
theorem response_roundTrip (status : ℤ) (hlow : 100 ≤ status) (hhg : status ≤ 599) (body : List UInt8)
    (hbd : body.length ≤ 1023) (keepAlive chunked : Bool) (results : ℕ → ℤ) (hpos : ∀ i, 0 < results i)
    (fuel : ℕ) (hfl : 1024 ≤ fuel) :
    ∃ bytes, (Response.built status body keepAlive chunked).write results fuel = some (.ok, bytes) ∧
      (decode bytes = some (body, []) ↔ ¬ (chunked = true ∧ body = [])) ∧
      (chunked = true ∧ body = [] → decode bytes = some ([], ascii "0\r\n\r\n")) := by
  rw [Response.built_eq hlow hhg hbd]
  have hok : (⟨status, reasonPhrase status, body, keepAlive, chunked⟩ : Response).Ok :=
    ⟨hlow, hhg, rfl, hbd⟩
  refine ⟨_, Response.write_ok (Response.head_length hok) (Nat.le_succ_of_le hbd) hpos hfl, ?_⟩
  rw [Response.decode_pieces (find_crlf_of_not_mem (Response.reasonPhrase_ok status).1)]
  dsimp only
  split_ifs with hemp
  · refine ⟨⟨fun h => ?_, fun h => absurd hemp h⟩, fun _ => by rw [hemp.2]⟩
    exact absurd (Prod.mk.inj (Option.some.inj h)).2 (by decide)
  · exact ⟨⟨fun _ => hemp, fun _ => rfl⟩, fun h => absurd h hemp⟩

theorem response_roundTrip_hello : ∃ bytes,
    (Response.built 200 (ascii "hello") true true).write (fun _ => 3) 1024 = some (.ok, bytes) ∧
      decode bytes = some (ascii "hello", []) := by
  obtain ⟨bytes, hwri, hdec, -⟩ := response_roundTrip 200 (by decide) (by decide) (ascii "hello")
    (by decide) true true (fun _ => 3) (fun _ => by decide) 1024 (by decide)
  exact ⟨bytes, hwri, hdec.mpr (by decide)⟩

/-- **An empty chunked body ends twice.** -/
theorem response_empty_chunk :
    (∃ bytes, (Response.built 200 [] true true).write (fun _ => 512) 1024 = some (.ok, bytes) ∧
      decode bytes = some ([], ascii "0\r\n\r\n")) := by
  refine ⟨(Response.built 200 [] true true).head ++ ascii "0\r\n\r\n0\r\n\r\n", ?_, by decide +kernel⟩
  exact Response.write_ok (by decide +kernel) (by decide) (fun _ => by decide) le_rfl

end Veloco.Http
