import Veloco.Http.Head

/-!
# The answer depends on the bytes, not on how they arrive
-/

namespace Veloco.Http

open List Option Http.Parser
open Veloco.Search

structure Verdict where
  status : ParseStatus
  error : Error
  request : Option (Request × List UInt8)
  deriving DecidableEq, Repr

def verdict (result : Parser × ParseStatus) : Verdict :=
  ⟨result.2, result.1.error, result.1.requestOf⟩

/-! ## Answers -/

def Request.completed (request : Request) (headerEnd : ℕ) : Request :=
  { request with body := some headerEnd, bodyLength := request.contentLength }

structure HeadOf (w first : List UInt8) (lines : List (List UInt8)) (head rest : List UInt8) :
    Prop where
  block : Block 13 10 first lines head
  eq : w = head ++ rest

def answerNoHead (config : Config) (w : List UInt8) : Verdict :=
  if config.maxHeaderBytes < w.length then ⟨.error, .headerTooLarge, none⟩
  else ⟨.needMore, .none, none⟩

def answerHead (config : Config) (first : List UInt8) (lines : List (List UInt8)) (headerEnd : ℕ)
    (rest : List UInt8) : Verdict :=
  if config.maxHeaderBytes < headerEnd then ⟨.error, .headerTooLarge, none⟩
  else
    match readHead config first lines with
    | (request, .ok) =>
      if rest.length < request.contentLength then ⟨.needMore, .none, none⟩
      else ⟨.complete, .none, some (request.completed headerEnd, rest.take request.contentLength)⟩
    | (request, _) =>
      ⟨.error, if config.maxBodyBytes < request.contentLength then .payloadTooLarge else .badRequest,
        none⟩

/-- The answer to the bytes `w`. -/
inductive Answers (config : Config) (w : List UInt8) : Verdict → Prop
  | noHead : findHeaderEnd w = none → Answers config w (answerNoHead config w)
  | head {first lines head rest} : HeadOf w first lines head rest →
      Answers config w (answerHead config first lines head.length rest)

section Answers

variable {config : Config} {w first head rest first' head' rest' : List UInt8}
  {lines lines' : List (List UInt8)} {v v' : Verdict}

theorem HeadOf.findHeaderEnd (h : HeadOf w first lines head rest) :
    findHeaderEnd w = some head.length := by
  have hle := h.block.four_le
  unfold Http.findHeaderEnd
  rw [h.eq, h.block.find_blank (by decide) rest, map_some]
  congr 1
  omega

theorem exists_headOf {n : ℕ} (h : findHeaderEnd w = some n) :
    ∃ first lines head rest, HeadOf w first lines head rest ∧ head.length = n := by
  have hso := h
  unfold findHeaderEnd at hso
  obtain ⟨k, hk, -⟩ := map_eq_some_iff.mp hso
  obtain ⟨first, lines, rest, head, hblo, heq⟩ := exists_block (by decide) hk
  have hhd : HeadOf w first lines head rest := ⟨hblo, heq⟩
  refine ⟨first, lines, head, rest, hhd, ?_⟩
  rw [hhd.findHeaderEnd] at h
  exact some.inj h

theorem HeadOf.unique (h : HeadOf w first lines head rest) (h' : HeadOf w first' lines' head' rest') :
    first = first' ∧ lines = lines' ∧ head = head' ∧ rest = rest' :=
  h.block.unique (by decide) h'.block (h.eq.symm.trans h'.eq)

theorem HeadOf.append (h : HeadOf w first lines head rest) (m : List UInt8) :
    HeadOf (w ++ m) first lines head (rest ++ m) :=
  ⟨h.block, by rw [h.eq, append_assoc]⟩

theorem Answers.unique (h : Answers config w v) (h' : Answers config w v') : v = v' := by
  cases h with
  | noHead hend =>
    cases h' with
    | noHead => rfl
    | head hhd =>
      rw [hhd.findHeaderEnd] at hend
      cases hend
  | head hhd =>
    cases h' with
    | noHead hend =>
      rw [hhd.findHeaderEnd] at hend
      cases hend
    | head hhead' =>
      obtain ⟨rfl, rfl, rfl, rfl⟩ := hhd.unique hhead'
      rfl

theorem answerHead_append {n : ℕ} (h : (answerHead config first lines n rest).status ≠ .needMore)
    (m : List UInt8) : answerHead config first lines n (rest ++ m) =
      answerHead config first lines n rest := by
  unfold answerHead at h ⊢
  by_cases hln : config.maxHeaderBytes < n
  · rw [if_pos hln, if_pos hln]
  rw [if_neg hln] at h
  rw [if_neg hln, if_neg hln]
  generalize readHead config first lines = result at h ⊢
  obtain ⟨request, status⟩ := result
  cases status with
  | ok =>
    dsimp only at h ⊢
    have hbd : ¬ rest.length < request.contentLength := by
      intro hsho
      rw [if_pos hsho] at h
      exact h rfl
    have hbody' : ¬ (rest ++ m).length < request.contentLength := by
      rw [length_append]
      omega
    rw [if_neg hbd, if_neg hbody', take_append_of_le_length (not_lt.mp hbd)]
  | _ => rfl

theorem Answers.append (h : Answers config w v) (hfin : v.status ≠ .needMore) (m : List UInt8) :
    Answers config (w ++ m) v := by
  cases h with
  | head hhd =>
    rw [← answerHead_append hfin m]
    exact .head (hhd.append m)
  | noHead hend =>
    unfold answerNoHead at hfin ⊢
    by_cases hln : config.maxHeaderBytes < w.length
    · rw [if_pos hln]
      rcases hend' : findHeaderEnd (w ++ m) with _ | n
      · have hans : answerNoHead config (w ++ m) = ⟨.error, .headerTooLarge, none⟩ :=
          if_pos (by rw [length_append]; omega)
        rw [← hans]
        exact .noHead hend'
      · -- the head ends in the appended bytes, so it is too long as well
        obtain ⟨first, lines, head, rest, hhd, rfl⟩ := exists_headOf hend'
        have hle : w.length < head.length := by
          by_contra hsho
          have hbla := hhd.block.find_blank (by decide) rest
          rw [← hhd.eq] at hbla
          have hfr := hhd.block.four_le
          have hfou := find_of_append hbla (by simp only [length_cons, length_nil]; omega)
          unfold findHeaderEnd at hend
          rw [hfou] at hend
          cases hend
        have hans : answerHead config first lines head.length rest =
            ⟨.error, .headerTooLarge, none⟩ := if_pos (by omega)
        rw [← hans]
        exact .head hhd
    · rw [if_neg hln] at hfin
      exact absurd rfl hfin

end Answers

structure Headed (config : Config) (p : Parser) (w first : List UInt8) (lines : List (List UInt8))
    (head rest : List UInt8) : Prop where
  headOf : HeadOf w first lines head rest
  short : head.length ≤ config.maxHeaderBytes
  ok : (readHead config first lines).2 = .ok
  headerEnd : p.headerEnd = head.length
  request : p.request = { (readHead config first lines).1 with body := some head.length }
  drop : p.buffer.drop head.length = rest

structure Reading (config : Config) (capacity : ℕ) (p : Parser) (acc : List UInt8) : Prop where
  config_eq : p.config = config
  capacity_eq : p.capacity = capacity
  allocated : p.allocated = true
  complete : p.complete = false
  error : p.error = .none
  length_eq : p.buffer.length = acc.length
  head : p.headerEnd = 0 ∧ p.buffer = acc ∧ p.request = .empty ∨
    ∃ first lines head rest, Headed config p acc first lines head rest

section Feed

variable {config : Config} {capacity : ℕ} {p : Parser} {acc data w first head rest : List UInt8}
  {lines : List (List UInt8)}

theorem reading_init (config : Config) : Reading config.normalise
    (config.normalise.maxHeaderBytes + config.normalise.maxBodyBytes) (.init config true) [] :=
  ⟨rfl, rfl, rfl, rfl, rfl, rfl, Or.inl ⟨rfl, rfl, rfl⟩⟩

theorem finish_answers (hrd : Reading config capacity p w)
    (hhea : Headed config p w first lines head rest) :
    verdict p.finish = answerHead config first lines head.length rest ∧
      (p.finish.2 = .needMore → p.finish.1 = p) := by
  have hrs : p.buffer.length - p.headerEnd = rest.length := by
    rw [← hhea.drop, length_drop, hhea.headerEnd]
  unfold finish answerHead
  rw [hrs, if_neg (not_lt.mpr hhea.short), hhea.request]
  have hok := hhea.ok
  have hdr := hhea.drop
  generalize readHead config first lines = result at hok ⊢
  obtain ⟨request, status⟩ := result
  obtain rfl : status = .ok := hok
  dsimp only
  by_cases hbd : rest.length < request.contentLength
  · rw [if_pos hbd, if_pos hbd]
    refine ⟨?_, fun _ => rfl⟩
    unfold verdict requestOf
    rw [hrd.error, if_neg (by rw [hrd.complete]; decide)]
  · rw [if_neg hbd, if_neg hbd]
    refine ⟨?_, fun h => by cases h⟩
    unfold verdict requestOf
    dsimp only
    rw [hrd.error, if_pos rfl, getD_some, hdr]
    rfl

theorem headEnds_answers (hrd : Reading config capacity p w) (hbf : p.buffer = w)
    (hreq : p.request = .empty) (hhd : HeadOf w first lines head rest) :
    verdict (p.headEnds head.length) = answerHead config first lines head.length rest ∧
      ((p.headEnds head.length).2 = .needMore →
        Reading config capacity (p.headEnds head.length).1 w) := by
  obtain rfl := hrd.config_eq
  unfold headEnds
  dsimp only
  by_cases hln : p.config.maxHeaderBytes < head.length
  · rw [if_pos hln]
    refine ⟨?_, fun h => by cases h⟩
    unfold verdict requestOf setError answerHead
    rw [if_pos hln, if_neg (by dsimp only; rw [hrd.complete]; decide)]
  rw [if_neg hln]
  have hblo : ({ p with headerEnd := head.length } : Parser).buffer = head ++ rest := by
    rw [← hhd.eq]
    exact hbf
  obtain ⟨buffer, request, hpar, hlen, hok⟩ := parseHead_block hhd.block hblo rfl hreq
  dsimp only at hpar hlen hok
  rw [hpar]
  by_cases hsta : (readHead p.config first lines).2 = .ok
  · obtain ⟨hrequest', hbuf, hdr⟩ := hok hsta
    rw [hsta]
    dsimp only
    have hhea : Headed p.config
        { p with
          headerEnd := head.length
          buffer := buffer
          request := request } w first lines head rest :=
      ⟨hhd, not_lt.mp hln, hsta, rfl, hrequest', hdr⟩
    have hread' : Reading p.config capacity
        { p with
          headerEnd := head.length
          buffer := buffer
          request := request } w :=
      { hrd with
        length_eq := by rw [hbuf, hhd.eq, length_append]
        head := .inr ⟨first, lines, head, rest, hhea⟩ }
    obtain ⟨hans, hsm⟩ := finish_answers hread' hhea
    refine ⟨hans, fun hmr => ?_⟩
    rw [hsm hmr]
    exact hread'
  · unfold answerHead
    rw [if_neg hln]
    generalize readHead p.config first lines = result at hsta hlen ⊢
    obtain ⟨request', status⟩ := result
    cases status with
    | ok => exact absurd rfl hsta
    | _ =>
      refine ⟨?_, fun h => by cases h⟩
      unfold verdict requestOf setError
      dsimp only at hlen ⊢
      rw [hlen, hrd.complete]
      rfl

theorem feed_answers (data : List UInt8) (hrd : Reading config capacity p acc)
    (hfit : (acc ++ data).length ≤ capacity) :
    Answers config (acc ++ data) (verdict (p.feed data)) ∧
      ((p.feed data).2 = .needMore → Reading config capacity (p.feed data).1 (acc ++ data)) := by
  obtain rfl := hrd.config_eq
  have hgs : ¬ (p.complete ∨ p.error ≠ .none) := by
    rw [hrd.complete, hrd.error]
    simp
  have hrm : ¬ (p.allocated = false ∨ p.capacity - p.buffer.length < data.length) := by
    rw [hrd.allocated, hrd.capacity_eq, hrd.length_eq]
    rw [length_append] at hfit
    simp only [Bool.true_eq_false, false_or, not_lt]
    omega
  unfold feed
  rw [if_neg hgs, if_neg hrm]
  dsimp only
  have hlen : (p.buffer ++ data).length = (acc ++ data).length := by
    rw [length_append, length_append, hrd.length_eq]
  rcases hrd.head with ⟨hzr, rfl, hreq⟩ | ⟨first, lines, head, rest, hhea⟩
  · -- the head has not been complete so far
    have hread' : Reading p.config capacity { p with buffer := p.buffer ++ data } (p.buffer ++ data) :=
      { hrd with
        length_eq := rfl
        head := .inl ⟨hzr, rfl, hreq⟩ }
    rw [if_pos hzr]
    cases hend : findHeaderEnd (p.buffer ++ data) with
    | none =>
      have hans : Answers p.config (p.buffer ++ data) _ := .noHead hend
      unfold answerNoHead at hans
      by_cases hln : p.config.maxHeaderBytes < (p.buffer ++ data).length
      · rw [if_pos hln] at hans
        rw [if_pos hln]
        refine ⟨?_, fun h => by cases h⟩
        unfold verdict requestOf setError
        dsimp only
        rw [if_neg (by rw [hrd.complete]; decide)]
        exact hans
      · rw [if_neg hln] at hans
        rw [if_neg hln]
        refine ⟨?_, fun _ => hread'⟩
        unfold verdict requestOf
        dsimp only
        rw [if_neg (by rw [hrd.complete]; decide), hrd.error]
        exact hans
    | some n =>
      obtain ⟨first, lines, head, rest, hhd, rfl⟩ := exists_headOf hend
      obtain ⟨hans, hmr⟩ := headEnds_answers hread' rfl hreq hhd
      refine ⟨?_, hmr⟩
      rw [hans]
      exact .head hhd
  · -- the body goes on
    have hfr := hhea.headOf.block.four_le
    have hle : head.length ≤ p.buffer.length := by
      rw [hrd.length_eq, hhea.headOf.eq, length_append]
      omega
    have hheaded' : Headed p.config { p with buffer := p.buffer ++ data } (acc ++ data) first lines head
        (rest ++ data) :=
      { hhea with
        headOf := hhea.headOf.append data
        drop := by rw [drop_append_of_le_length hle, hhea.drop] }
    have hread' : Reading p.config capacity { p with buffer := p.buffer ++ data } (acc ++ data) :=
      { hrd with
        length_eq := hlen
        head := .inr ⟨first, lines, head, rest ++ data, hheaded'⟩ }
    rw [if_neg (by rw [hhea.headerEnd]; omega)]
    obtain ⟨hans, hsm⟩ := finish_answers hread' hheaded'
    refine ⟨?_, fun hmr => ?_⟩
    · rw [hans]
      exact .head hheaded'.headOf
    · rw [hsm hmr]
      exact hread'

theorem feedAll_answers (fragments : List (List UInt8)) (hrd : Reading config capacity p acc)
    (hfit : (acc ++ fragments.flatten).length ≤ capacity) (hne : fragments ≠ []) :
    Answers config (acc ++ fragments.flatten) (verdict (feedAll p fragments)) := by
  induction fragments generalizing p acc with
  | nil => exact absurd rfl hne
  | cons data fragments ih =>
    rw [flatten_cons, ← append_assoc] at hfit ⊢
    have hfit' : (acc ++ data).length ≤ capacity := by
      rw [length_append] at hfit
      omega
    obtain ⟨hans, hmr⟩ := feed_answers data hrd hfit'
    unfold feedAll
    generalize p.feed data = result at hans hmr ⊢
    obtain ⟨p', status⟩ := result
    cases status with
    | needMore =>
      cases fragments with
      | nil =>
        rw [flatten_nil, append_nil]
        exact hans
      | cons data' fragments => exact ih (hmr rfl) hfit (cons_ne_nil _ _)
    | complete => exact hans.append (fun h => by cases h) _
    | error => exact hans.append (fun h => by cases h) _

theorem answers_of_taken {malloc : Bool} (h : ((Parser.init config malloc).feed data).2 ≠ .error) :
    malloc = true ∧ data.length ≤ (Parser.init config true).capacity ∧
      Answers config.normalise data (verdict ((Parser.init config malloc).feed data)) := by
  have hrm : ¬ ((Parser.init config malloc).allocated = false ∨
      (Parser.init config malloc).capacity - (Parser.init config malloc).buffer.length < data.length) := by
    intro hfl
    unfold feed at h
    rw [if_neg (by simp [init]), if_pos hfl] at h
    exact h rfl
  obtain ⟨hmal, hsho⟩ := not_or.mp hrm
  obtain rfl : malloc = true := Bool.eq_true_of_not_eq_false hmal
  rw [not_lt] at hsho
  exact ⟨rfl, hsho, (feed_answers data (reading_init config) hsho).1⟩

end Feed

/-! ## A final answer stays -/

section Final

variable {p : Parser} {data : List UInt8}

def Parser.frame (p : Parser) : Config × Bool × ℕ × ℕ × ℕ × Error × Bool :=
  (p.config, p.allocated, p.capacity, p.buffer.length, p.headerEnd, p.error, p.complete)

theorem frame_set (i : ℕ) (c : UInt8) : ({ p with buffer := p.buffer.set i c } : Parser).frame = p.frame := by
  unfold frame
  rw [length_set]

theorem requestParts_frame (method path version : ℕ) :
    (p.requestParts method path version).1.frame = p.frame := by
  unfold requestParts
  split
  · rfl
  split
  · rfl
  split
  · rfl
  split
  · rfl
  · dsimp only
    split <;> rfl

theorem parseRequestLine_frame (line : ℕ) : (p.parseRequestLine line).1.frame = p.frame := by
  unfold parseRequestLine
  split
  · rfl
  · split_ifs
    · rfl
    · dsimp only
      split
      · exact frame_set _ 0
      · exact (requestParts_frame _ _ _).trans ((frame_set _ 0).trans (frame_set _ 0))

theorem headerLine_frame (cursor lineEnd : ℕ) (saw : Bool) :
    (p.headerLine cursor lineEnd saw).1.frame = p.frame := by
  unfold headerLine
  split
  · rfl
  · split_ifs
    · rfl
    · dsimp only
      split <;> rfl

theorem parseHeaders_frame (room cursor : ℕ) (saw : Bool) :
    (Parser.parseHeaders room p cursor saw).1.frame = p.frame := by
  induction room generalizing p cursor saw with
  | zero =>
    unfold parseHeaders
    split
    · rfl
    · split_ifs <;> rfl
  | succ room ih =>
    unfold parseHeaders
    split
    · rfl
    · rename_i lineEnd _
      split_ifs
      · rfl
      · have hli := (headerLine_frame (p := p.cut lineEnd) cursor lineEnd saw).trans (frame_set lineEnd 0)
        dsimp only
        generalize (p.cut lineEnd).headerLine cursor lineEnd saw = result at hli ⊢
        obtain ⟨q, saw', status⟩ := result
        cases status with
        | ok => exact (ih _ _).trans hli
        | _ => exact hli

theorem parseHead_frame : p.parseHead.1.frame = p.frame := by
  unfold parseHead
  split
  · rfl
  · rename_i lineEnd _
    split_ifs
    · rfl
    · have hli := (parseRequestLine_frame (p := p.cut lineEnd) 0).trans (frame_set lineEnd 0)
      generalize (p.cut lineEnd).parseRequestLine 0 = result at hli ⊢
      obtain ⟨p', status⟩ := result
      cases status with
      | ok =>
        have hhds := (parseHeaders_frame (p := p') maxHeaders (lineEnd + 2) false).trans hli
        dsimp only
        generalize Parser.parseHeaders maxHeaders p' (lineEnd + 2) false = result' at hhds ⊢
        obtain ⟨p'', status'⟩ := result'
        cases status' with
        | ok =>
          dsimp only
          split_ifs <;> exact (frame_set _ 13).trans hhds
        | _ => exact hhds
      | _ => exact hli

theorem parseHead_error : p.parseHead.1.error = p.error :=
  congrArg (fun x => x.2.2.2.2.2.1) parseHead_frame

def Settled (result : Parser × ParseStatus) : Prop :=
  result.2 = .needMore ∨ (result.1.complete = true ∨ result.1.error ≠ .none) ∧
    result.2 = if result.1.error = .none then .complete else .error

theorem settled_setError {error : Error} (h : error ≠ .none) : Settled (p.setError error, .error) :=
  Or.inr ⟨Or.inr h, (if_neg h).symm⟩

theorem settled_finish (h : p.error = .none) : Settled p.finish := by
  unfold finish
  split
  · exact .inl rfl
  · exact .inr ⟨Or.inl rfl, (if_pos h).symm⟩

theorem settled_headEnds (h : p.error = .none) (headerEnd : ℕ) : Settled (p.headEnds headerEnd) := by
  unfold headEnds
  dsimp only
  split
  · exact settled_setError (by decide)
  · have herr := (parseHead_error (p := { p with headerEnd := headerEnd })).trans h
    generalize ({ p with headerEnd := headerEnd } : Parser).parseHead = result at herr ⊢
    obtain ⟨p', status⟩ := result
    cases status with
    | ok => exact settled_finish herr
    | _ => exact settled_setError (by split <;> decide)

theorem settled_feed (p : Parser) (data : List UInt8) : Settled (p.feed data) := by
  unfold feed
  by_cases hsto : p.complete ∨ p.error ≠ .none
  · rw [if_pos hsto]
    exact .inr ⟨hsto, rfl⟩
  have herr : p.error = .none := by
    by_contra herr
    exact hsto (.inr herr)
  rw [if_neg hsto]
  split
  · exact settled_setError (by decide)
  dsimp only
  split
  · split
    · split
      · exact settled_setError (by decide)
      · exact .inl rfl
    · refine settled_headEnds ?_ _
      exact herr
  · exact settled_finish herr

theorem feed_again (h : (p.feed data).2 ≠ .needMore) (data' : List UInt8) :
    (p.feed data).1.feed data' = p.feed data := by
  obtain hmr | ⟨hsto, hsta⟩ := settled_feed p data
  · exact absurd hmr h
  · generalize p.feed data = result at hsto hsta ⊢
    obtain ⟨p', status⟩ := result
    unfold feed
    rw [if_pos hsto]
    exact congrArg (p', ·) hsta.symm

end Final

/-- **Fragmentation does not matter.** -/
theorem fragments_irrelevant (config : Config) (malloc : Bool) (w : List UInt8)
    (fragments : List (List UInt8)) (hcut : fragments.flatten = w) (hne : fragments ≠ [])
    (hfit : w.length ≤ (Parser.init config malloc).capacity) :
    verdict (feedAll (.init config malloc) fragments) =
        verdict ((Parser.init config malloc).feed w) ∧
      ∀ (p : Parser) (data data' : List UInt8), (p.feed data).2 ≠ .needMore →
        (p.feed data).1.feed data' = p.feed data := by
  refine ⟨?_, fun p data data' h => feed_again h data'⟩
  subst hcut
  cases malloc with
  | true =>
    have hrd := reading_init config
    have hall := feedAll_answers fragments hrd hfit hne
    have hone := (feed_answers fragments.flatten hrd hfit).1
    exact hall.unique hone
  | false =>
    -- the first fragment is refused, and so is the whole
    cases fragments with
    | nil => exact absurd rfl hne
    | cons data fragments => rfl

def postFragments : List (List UInt8) :=
  [[80, 79, 83, 84, 32, 47, 97, 32, 72, 84, 84, 80, 47, 49, 46, 48, 13], [],
    [10, 67, 111, 110, 116, 101, 110, 116, 45, 76, 101, 110, 103, 116, 104, 58, 32, 50, 13, 10, 13],
    [10, 120],
    [0]]

theorem fragments_irrelevant_post :
    (feedAll (.init .default true) postFragments).2 = .complete ∧
      verdict (feedAll (.init .default true) postFragments) =
        verdict ((Parser.init .default true).feed postFragments.flatten) :=
  ⟨by decide +kernel,
    (fragments_irrelevant .default true _ postFragments rfl (by decide) (by decide)).1⟩

end Veloco.Http
