import Veloco.Http.Fragments

/-!
# The requests the parser accepts
-/

namespace Veloco.Http

open List
open Veloco.Search

structure IsRequestLine (line method path : List UInt8) (minor : ℕ) : Prop where
  eq : ∃ version, line = method ++ 32 :: (path ++ 32 :: version) ∧
    (minor = 0 ∧ version = versionStart ++ [48] ∨ minor = 1 ∧ version = versionStart ++ [49])
  method_mem : method ∈ methods
  path_start : path.head? = some 47
  path_free : 32 ∉ path
  path_short : path.length ≤ 255

structure IsHeader (line : List UInt8) (header : Header) : Prop where
  eq : ∃ left right, line = left ++ 58 :: right ∧ 58 ∉ left ∧ left ≠ [] ∧
    header.name = strip left ∧ header.value = strip right
  name : 1 ≤ header.name.length ∧ header.name.length ≤ 63
  value : 1 ≤ header.value.length ∧ header.value.length ≤ 255

def Header.isContentLength (header : Header) : Bool := equalsCi header.name contentLengthName

def contentLengthOf (headers : List Header) : Option ℕ :=
  match headers.filter Header.isContentLength with
  | [] => some 0
  | [header] => parseContentLength header.value
  | _ => none

def Header.connection (header : Header) : Option Bool :=
  if equalsCi header.name connectionName then
    if equalsCi header.value closeValue then some false
    else if equalsCi header.value keepAliveValue then some true
    else none
  else none

def keepAliveOf (minor : ℕ) (headers : List Header) : Bool :=
  (headers.filterMap Header.connection).getLast?.getD (minor == 1)

structure Parts where
  head : List UInt8
  rest : List UInt8
  first : List UInt8
  lines : List (List UInt8)
  method : List UInt8
  path : List UInt8
  minor : ℕ
  headers : List Header
  contentLength : ℕ

def Parts.request (parts : Parts) : Request where
  method := parts.method
  path := parts.path
  httpMajor := 1
  httpMinor := parts.minor
  headers := parts.headers
  contentLength := parts.contentLength
  keepAlive := keepAliveOf parts.minor parts.headers
  body := some parts.head.length
  bodyLength := parts.contentLength

def Parts.body (parts : Parts) : List UInt8 := parts.rest.take parts.contentLength

structure Accepted (config : Config) (w : List UInt8) (parts : Parts) : Prop where
  eq : w = parts.head ++ parts.rest
  blank : [13, 10, 13, 10] <:+ parts.head
  blank_first : ¬ [13, 10, 13, 10] <:+: parts.head.dropLast
  head_short : parts.head.length ≤ config.maxHeaderBytes
  nul_free : 0 ∉ parts.head
  lines : Block 13 10 parts.first parts.lines parts.head
  first_short : parts.first.length ≤ config.maxRequestLine
  requestLine : IsRequestLine parts.first parts.method parts.path parts.minor
  lines_few : parts.lines.length ≤ 32
  headers : List.Forall₂ IsHeader parts.lines parts.headers
  contentLength : contentLengthOf parts.headers = some parts.contentLength
  body_short : parts.contentLength ≤ config.maxBodyBytes
  body : parts.contentLength ≤ parts.rest.length

section Lines

variable {line first method path name value : List UInt8} {minor : ℕ} {lines : List (List UInt8)}

theorem readRequestLine_iff : readRequestLine line = some (method, path, minor) ↔
    IsRequestLine line method path minor := by
  constructor
  · intro h
    unfold readRequestLine at h
    split at h
    · cases h
    rename_i i hi
    dsimp only at h
    split at h
    · cases h
    rename_i j hj
    obtain ⟨hln, -⟩ := exists_of_find_single hi
    obtain ⟨htl, hfr⟩ := exists_of_find_single hj
    generalize line.take i = method' at h hln
    generalize line.drop (i + 1) = tail at h hln htl hfr
    generalize tail.take j = path' at h htl hfr
    generalize tail.drop (j + 1) = version at h htl
    by_cases hver : version ≠ versionStart ++ [48] ∧ version ≠ versionStart ++ [49]
    · rw [if_pos hver] at h
      cases h
    rw [if_neg hver] at h
    by_cases hmet : method' ∉ methods
    · rw [if_pos hmet] at h
      cases h
    rw [if_neg hmet] at h
    by_cases hpt : path'.head? ≠ some 47
    · rw [if_pos hpt] at h
      cases h
    rw [if_neg hpt] at h
    by_cases hlg : maxPath ≤ path'.length
    · rw [if_pos hlg] at h
      cases h
    rw [if_neg hlg] at h
    obtain ⟨rfl, hpr⟩ := Prod.mk.inj (Option.some.inj h)
    obtain ⟨rfl, rfl⟩ := Prod.mk.inj hpr
    refine ⟨⟨version, by rw [hln, htl], ?_⟩, not_not.mp hmet, not_not.mp hpt, hfr,
      Nat.le_of_lt_succ (not_le.mp hlg)⟩
    by_cases hone : version = versionStart ++ [49]
    · exact Or.inr ⟨if_pos hone, hone⟩
    · exact Or.inl ⟨if_neg hone, by tauto⟩
  · rintro ⟨⟨version, rfl, hver⟩, hmet, hst, hfr, hsho⟩
    have hmt : 32 ∉ method := (by decide : ∀ m ∈ methods, (32 : UInt8) ∉ m) method hmet
    unfold readRequestLine
    rw [find_single hmt]
    dsimp only
    rw [drop_single, find_single hfr]
    dsimp only
    rw [drop_single, take_left, take_left, if_neg (by tauto), if_neg (by tauto), if_neg (by tauto),
      if_neg (by unfold maxPath; omega)]
    obtain ⟨rfl, rfl⟩ | ⟨rfl, rfl⟩ := hver
    · rfl
    · rfl

theorem readHeader_iff {header : Header} : readHeader line = some (header.name, header.value) ↔
    IsHeader line header := by
  constructor
  · intro h
    unfold readHeader at h
    split at h
    · cases h
    rename_i i hi
    obtain ⟨hln, hfr⟩ := exists_of_find_single hi
    dsimp only at h
    split_ifs at h with hbad
    obtain ⟨hnm, hval⟩ := Prod.mk.inj (Option.some.inj h)
    rw [hnm, hval] at hbad
    simp only [not_or, not_le] at hbad
    obtain ⟨hpos, hnameNe, hnam, hvalueNe, hvl⟩ := hbad
    refine ⟨⟨line.take i, line.drop (i + 1), hln, hfr, ?_, hnm.symm, hval.symm⟩,
      ⟨length_pos_iff.mpr hnameNe, Nat.le_of_lt_succ hnam⟩,
      ⟨length_pos_iff.mpr hvalueNe, Nat.le_of_lt_succ hvl⟩⟩
    intro hnil
    have hlen := congrArg List.length hnil
    have hle := find_le hi
    rw [length_take, length_nil] at hlen
    simp only [length_cons, length_nil] at hle
    omega
  · rintro ⟨⟨left, right, rfl, hfr, hlf, hnm, hval⟩, hnames, hvalues⟩
    have hpos := length_pos_iff.mpr hlf
    unfold readHeader
    rw [find_single hfr]
    dsimp only
    rw [drop_single, take_left, ← hnm, ← hval, if_neg]
    rintro (h | h | h | h | h)
    · omega
    · rw [h] at hnames
      exact absurd hnames.1 (by decide)
    · unfold maxHeaderName at h
      omega
    · rw [h] at hvalues
      exact absurd hvalues.1 (by decide)
    · unfold maxHeaderValue at h
      omega

end Lines

/-! ## Headers -/

section Headers

variable {request r : Request} {saw : Bool} {headers : List Header} {lines : List (List UInt8)}

def Request.addHeaders : Request → Bool → List Header → Option Request
  | request, _, [] => some request
  | request, saw, header :: headers =>
    match request.addHeader saw header.name header.value with
    | (request, saw, .ok) => addHeaders request saw headers
    | _ => none

def lengthAfter (saw : Bool) (length : ℕ) (headers : List Header) : Option ℕ :=
  match headers.filter Header.isContentLength with
  | [] => some length
  | [header] => if saw then none else parseContentLength header.value
  | _ => none

theorem equalsCi_map {a b : List UInt8} (h : equalsCi a b = true) : a.map tolower = b.map tolower := by
  induction a generalizing b with
  | nil =>
    cases b with
    | nil => rfl
    | cons y b => cases h
  | cons x a ih =>
    cases b with
    | nil => cases h
    | cons y b =>
      unfold equalsCi at h
      obtain ⟨hhd, htl⟩ := Bool.and_eq_true_iff.mp h
      rw [map_cons, map_cons, ih htl, eq_of_beq hhd]

theorem equalsCi_length {a b : List UInt8} (h : equalsCi a b = true) : a.length = b.length := by
  have hlen := congrArg List.length (equalsCi_map h)
  rwa [length_map, length_map] at hlen

theorem connection_of_contentLength {header : Header} (h : header.isContentLength = true) :
    header.connection = none := by
  unfold Header.connection
  refine if_neg fun hnm => ?_
  have hlen := (equalsCi_length h).symm.trans (equalsCi_length hnm)
  revert hlen
  decide

theorem addHeader_other {header : Header} (h : header.isContentLength = false) :
    request.addHeader saw header.name header.value =
      ({ request with
          headers := request.headers ++ [header]
          keepAlive := header.connection.getD request.keepAlive }, saw, .ok) := by
  unfold Header.isContentLength at h
  unfold Request.addHeader Header.connection
  dsimp only
  rw [h, if_neg Bool.false_ne_true]
  split_ifs <;> rfl

theorem keepAlive_cons (header : Header) (headers : List Header) (k : Bool) :
    ((header :: headers).filterMap Header.connection).getLast?.getD k =
      (headers.filterMap Header.connection).getLast?.getD (header.connection.getD k) := by
  rw [filterMap_cons]
  cases header.connection with
  | none => rfl
  | some a =>
    dsimp only
    rw [List.getLast?_cons, Option.getD_some, Option.getD_some]

theorem lengthAfter_cons {header : Header} (h : header.isContentLength = true) (length : ℕ) :
    lengthAfter saw length (header :: headers) =
      if saw then none
      else (parseContentLength header.value).bind fun n => lengthAfter true n headers := by
  unfold lengthAfter
  rw [filter_cons_of_pos h]
  cases headers.filter Header.isContentLength with
  | nil =>
    dsimp only
    cases saw <;> cases parseContentLength header.value <;> rfl
  | cons header' rest =>
    -- two declarations
    cases rest <;> cases saw <;> cases parseContentLength header.value <;> rfl

theorem addHeaders_eq : request.addHeaders saw headers =
    (lengthAfter saw request.contentLength headers).map fun n =>
      { request with
        headers := request.headers ++ headers
        contentLength := n
        keepAlive := (headers.filterMap Header.connection).getLast?.getD request.keepAlive } := by
  induction headers generalizing request saw with
  | nil => simp [Request.addHeaders, lengthAfter]
  | cons header headers ih =>
    unfold Request.addHeaders
    rw [keepAlive_cons]
    cases hlen : header.isContentLength with
    | false =>
      rw [addHeader_other hlen]
      dsimp only
      rw [ih]
      unfold lengthAfter
      rw [filter_cons_of_neg (by rw [hlen]; decide)]
      dsimp only
      rw [append_assoc]
      rfl
    | true =>
      rw [lengthAfter_cons hlen, connection_of_contentLength hlen, Option.getD_none]
      unfold Header.isContentLength at hlen
      unfold Request.addHeader
      dsimp only
      rw [if_pos hlen]
      cases saw with
      | true => rfl
      | false =>
        cases parseContentLength header.value with
        | none => rfl
        | some n =>
          dsimp only
          rw [if_neg Bool.false_ne_true, if_neg Bool.false_ne_true, Option.bind_some]
          dsimp only
          rw [ih]
          dsimp only
          rw [append_assoc]
          rfl

theorem readHeaders_iff {room : ℕ} : readHeaders room request saw lines = (r, .ok) ↔
    lines.length ≤ room ∧ (∀ line ∈ lines, 0 ∉ line) ∧
      ∃ headers, List.Forall₂ IsHeader lines headers ∧ request.addHeaders saw headers = some r := by
  induction lines generalizing room request saw with
  | nil =>
    have hrd : readHeaders room request saw [] = (request, .ok) := by cases room <;> rfl
    rw [hrd]
    constructor
    · intro h
      obtain ⟨rfl, -⟩ := Prod.mk.inj h
      exact ⟨Nat.zero_le _, fun _ hl => absurd hl not_mem_nil, [], .nil, rfl⟩
    · rintro ⟨-, -, headers, hall, hadd⟩
      cases hall
      rw [Option.some.inj hadd]
  | cons line lines ih =>
    cases room with
    | zero =>
      refine ⟨fun h => ?_, fun h => absurd h.1 (Nat.not_succ_le_zero _)⟩
      cases (Prod.mk.inj h).2
    | succ room =>
      unfold readHeaders
      by_cases hnul : 0 ∈ line
      · rw [if_pos hnul]
        refine ⟨fun h => ?_, fun h => absurd hnul (h.2.1 line mem_cons_self)⟩
        cases (Prod.mk.inj h).2
      rw [if_neg hnul]
      constructor
      · intro h
        cases hrd : readHeader line with
        | none =>
          rw [hrd] at h
          cases (Prod.mk.inj h).2
        | some token =>
          have hhdr : IsHeader line ⟨token.1, token.2⟩ := readHeader_iff.mp hrd
          rw [hrd] at h
          dsimp only at h
          rcases hadd : request.addHeader saw token.1 token.2 with ⟨request', saw', status⟩
          rw [hadd] at h
          cases status with
          | ok =>
            obtain ⟨hfew, hfr, headers, hall, hdd⟩ := ih.mp h
            refine ⟨Nat.succ_le_succ hfew, forall_mem_cons.mpr ⟨hnul, hfr⟩,
              ⟨token.1, token.2⟩ :: headers, .cons hhdr hall, ?_⟩
            unfold Request.addHeaders
            dsimp only
            rw [hadd]
            exact hdd
          | _ => cases (Prod.mk.inj h).2
      · rintro ⟨hfew, hfr, headers, hall, hdd⟩
        cases hall with
        | cons hhdr hall =>
          rename_i header headers
          rw [readHeader_iff.mpr hhdr]
          unfold Request.addHeaders at hdd
          dsimp only
          rcases hadd : request.addHeader saw header.name header.value with ⟨request', saw', status⟩
          rw [hadd] at hdd
          cases status with
          | ok =>
            exact ih.mpr ⟨Nat.le_of_succ_le_succ hfew, (forall_mem_cons.mp hfr).2, headers, hall,
              hdd⟩
          | _ => cases hdd

end Headers

section Head

variable {config : Config} {w first : List UInt8} {lines : List (List UInt8)} {request : Request}

theorem lengthAfter_start (headers : List Header) :
    lengthAfter false 0 headers = contentLengthOf headers := by
  unfold lengthAfter contentLengthOf
  cases headers.filter Header.isContentLength with
  | nil => rfl
  | cons header rest =>
    cases rest with
    | nil => rfl
    | cons header' rest => rfl

theorem readHead_iff : readHead config first lines = (request, .ok) ↔
    0 ∉ first ∧ (∀ line ∈ lines, 0 ∉ line) ∧ first.length ≤ config.maxRequestLine ∧
      lines.length ≤ 32 ∧ ∃ method path minor headers n, IsRequestLine first method path minor ∧
        List.Forall₂ IsHeader lines headers ∧ contentLengthOf headers = some n ∧
        n ≤ config.maxBodyBytes ∧ request = { Request.ofLine method path minor with
          headers := headers
          contentLength := n
          keepAlive := keepAliveOf minor headers } := by
  have hdd : ∀ method path minor headers,
      (Request.ofLine method path minor).addHeaders false headers =
        (contentLengthOf headers).map fun n => { Request.ofLine method path minor with
          headers := headers
          contentLength := n
          keepAlive := keepAliveOf minor headers } := by
    intro method path minor headers
    rw [addHeaders_eq, ← lengthAfter_start]
    rfl
  unfold readHead
  by_cases hbad : 0 ∈ first ∨ config.maxRequestLine < first.length
  · rw [if_pos hbad]
    refine ⟨fun h => ?_, fun ⟨hnul, _, hsho, _⟩ => ?_⟩
    · cases (Prod.mk.inj h).2
    · exact absurd hbad (not_or.mpr ⟨hnul, not_lt.mpr hsho⟩)
  rw [if_neg hbad]
  obtain ⟨hnul, hsho⟩ := not_or.mp hbad
  constructor
  · intro h
    cases hln : readRequestLine first with
    | none =>
      rw [hln] at h
      cases (Prod.mk.inj h).2
    | some parts =>
      obtain ⟨method, path, minor⟩ := parts
      rw [hln] at h
      dsimp only at h
      rcases hrd : readHeaders maxHeaders (.ofLine method path minor) false lines
        with ⟨request', status⟩
      rw [hrd] at h
      cases status with
      | ok =>
        dsimp only at h
        obtain ⟨hfew, hfr, headers, hall, hadd⟩ := readHeaders_iff.mp hrd
        rw [hdd] at hadd
        obtain ⟨n, hn, rfl⟩ := Option.map_eq_some_iff.mp hadd
        dsimp only at h
        split_ifs at h with hbd
        · cases (Prod.mk.inj h).2
        · obtain ⟨rfl, -⟩ := Prod.mk.inj h
          exact ⟨hnul, hfr, not_lt.mp hsho, hfew, method, path, minor, headers, n,
            readRequestLine_iff.mp hln, hall, hn, not_lt.mp hbd, rfl⟩
      | _ => cases (Prod.mk.inj h).2
  · rintro ⟨-, hfr, -, hfew, method, path, minor, headers, n, hln, hall, hn, hbd, rfl⟩
    have hadd := hdd method path minor headers
    rw [hn, Option.map_some] at hadd
    have hrm : lines.length ≤ maxHeaders := hfew
    rw [readRequestLine_iff.mpr hln]
    dsimp only
    rw [readHeaders_iff.mpr ⟨hrm, hfr, headers, hall, hadd⟩]
    exact if_neg (not_lt.mpr hbd)

theorem nul_free_iff (h : Block 13 10 first lines w) :
    0 ∉ w ↔ 0 ∉ first ∧ ∀ line ∈ lines, 0 ∉ line := by
  rw [h.eq]
  simp [join]

theorem blank_of_block (h : Block 13 10 first lines w) :
    [13, 10, 13, 10] <:+ w ∧ ¬ [13, 10, 13, 10] <:+: w.dropLast := by
  have hfn := h.find_blank (by decide) []
  rw [append_nil] at hfn
  have hfo := h.four_le
  constructor
  · have hspl := find_take_drop hfn
    have hnil : w.drop (w.length - 4 + ([13, 10, 13, 10] : List UInt8).length) = [] := by
      refine drop_eq_nil_of_le ?_
      simp only [length_cons, length_nil]
      omega
    rw [hnil, append_nil] at hspl
    exact ⟨_, hspl.symm⟩
  · rw [dropLast_eq_take]
    refine find_eq_none (find_take hfn ?_)
    simp only [length_cons, length_nil]
    omega

theorem answers_accepted {parts : Parts} (h : Accepted config w parts) :
    Answers config w ⟨.complete, .none, some (parts.request, parts.body)⟩ := by
  have hhd : HeadOf w parts.first parts.lines parts.head parts.rest := ⟨h.lines, h.eq⟩
  obtain ⟨hnul, hfr⟩ := (nul_free_iff h.lines).mp h.nul_free
  have hrd := readHead_iff.mpr ⟨hnul, hfr, h.first_short, h.lines_few, parts.method, parts.path,
    parts.minor, parts.headers, parts.contentLength, h.requestLine, h.headers, h.contentLength,
    h.body_short, rfl⟩
  have hans : Answers config w _ := .head hhd
  unfold answerHead at hans
  rw [if_neg (not_lt.mpr h.head_short), hrd] at hans
  dsimp only at hans
  rw [if_neg (not_lt.mpr h.body)] at hans
  exact hans

theorem accepted_of_answers {v : Verdict} (h : Answers config w v) (hsta : v.status = .complete) :
    ∃ parts, Accepted config w parts := by
  cases h with
  | noHead =>
    unfold answerNoHead at hsta
    split_ifs at hsta
  | head hhd =>
    rename_i first lines head rest
    unfold answerHead at hsta
    split_ifs at hsta with hsho
    rcases hrd : readHead config first lines with ⟨request, status⟩
    rw [hrd] at hsta
    cases status with
    | ok =>
      dsimp only at hsta
      split_ifs at hsta with hbd
      obtain ⟨hnul, hfr, hfir, hfew, method, path, minor, headers, n, hln, hall, hn, hbod,
        rfl⟩ := readHead_iff.mp hrd
      obtain ⟨hbl, hbla⟩ := blank_of_block hhd.block
      exact ⟨⟨head, rest, first, lines, method, path, minor, headers, n⟩,
        { eq := hhd.eq
          blank := hbl
          blank_first := hbla
          head_short := not_lt.mp hsho
          nul_free := (nul_free_iff hhd.block).mpr ⟨hnul, hfr⟩
          lines := hhd.block
          first_short := hfir
          requestLine := hln
          lines_few := hfew
          headers := hall
          contentLength := hn
          body_short := hbod
          body := not_lt.mp hbd }⟩
    | _ => cases hsta

end Head

/-- **The parser accepts exactly its grammar.** -/
theorem accepts_iff (config : Config) (malloc : Bool) (w : List UInt8)
    (hfit : w.length ≤ (Parser.init config malloc).capacity) :
    (((Parser.init config malloc).feed w).2 = .complete ↔
        ∃ parts, Accepted config.normalise w parts) ∧
      ∀ parts, Accepted config.normalise w parts →
        ((Parser.init config malloc).feed w).1.requestOf = some (parts.request, parts.body) := by
  cases malloc with
  | true =>
    have hans := (feed_answers w (reading_init config) hfit).1
    rw [nil_append] at hans
    have hvr : ∀ parts, Accepted config.normalise w parts →
        verdict ((Parser.init config true).feed w) =
          ⟨.complete, .none, some (parts.request, parts.body)⟩ :=
      fun parts hpar => hans.unique (answers_accepted hpar)
    refine ⟨⟨fun h => accepted_of_answers hans h, fun ⟨parts, hpar⟩ => ?_⟩, fun parts hpar => ?_⟩
    · exact congrArg Verdict.status (hvr parts hpar)
    · exact congrArg Verdict.request (hvr parts hpar)
  | false =>
    -- without a buffer only the empty string fits, and it has no head
    have hnn : ∀ parts, ¬ Accepted config.normalise w parts := by
      intro parts hpar
      have hfo := hpar.lines.four_le
      have hzr : w.length ≤ 0 := hfit
      rw [hpar.eq, length_append] at hzr
      omega
    refine ⟨⟨fun h => ?_, fun ⟨parts, hpar⟩ => absurd hpar (hnn parts)⟩,
      fun parts hpar => absurd hpar (hnn parts)⟩
    cases h

theorem accepts_iff_post : ∃ parts, Accepted Config.default.normalise postFragments.flatten parts :=
  (accepts_iff .default true _ (by decide)).1.mp (by decide +kernel)

end Veloco.Http
