import Veloco.Common
import Veloco.Search
import Veloco.Word

/-!
# The request parser (`src/http/http_parser.c`)
-/

namespace Veloco.Http

open Veloco.Search

instance instLawfulBEqBytes : LawfulBEq (List UInt8) := inferInstance

/-! ## The C library -/

def cstring (buffer : List UInt8) (i : ℕ) : List UInt8 := (buffer.drop i).takeWhile (· != 0)

def strchr (buffer : List UInt8) (i : ℕ) (c : UInt8) : Option ℕ :=
  (find [c] (cstring buffer i)).map (i + ·)

def strstr (buffer : List UInt8) (i : ℕ) (needle : List UInt8) : Option ℕ :=
  (find needle (cstring buffer i)).map (i + ·)

/-- In the `C` locale. -/
def isspace (c : UInt8) : Bool := c == 32 || (9 ≤ c && c ≤ 13)

def tolower (c : UInt8) : UInt8 := if 65 ≤ c && c ≤ 90 then c + 32 else c

def isdigit (c : UInt8) : Bool := 48 ≤ c && c ≤ 57

/-- What `strtoul` returns. -/
structure Number where
  value : ℕ
  rest : List UInt8
  range : Bool
  deriving DecidableEq, Repr

def decimal (digits : List UInt8) : ℕ := digits.foldl (fun n d => 10 * n + (d.toNat - 48)) 0

def strtoul (s : List UInt8) : Option Number :=
  let s := s.dropWhile isspace
  let negative := s.head? == some 45
  let s := if s.head? == some 45 || s.head? == some 43 then s.tail else s
  let digits := s.takeWhile isdigit
  if digits = [] then none
  else if Word.modulus ≤ decimal digits then
    some ⟨Word.modulus - 1, s.dropWhile isdigit, true⟩
  else some ⟨if negative then Word.sub 0 (decimal digits) else decimal digits,
    s.dropWhile isdigit, false⟩

/-! ## Data (`include/veloco/http.h`) -/

structure Config where
  maxRequestLine : ℕ
  maxHeaderBytes : ℕ
  maxBodyBytes : ℕ
  deriving DecidableEq, Repr

def Config.default : Config := ⟨1024, 8192, 64 * 1024⟩

def Config.normalise (config : Config) : Config where
  maxRequestLine :=
    if config.maxRequestLine = 0 ∨ Config.default.maxHeaderBytes < config.maxRequestLine then
      Config.default.maxRequestLine
    else config.maxRequestLine
  maxHeaderBytes :=
    if config.maxHeaderBytes = 0 ∨ Config.default.maxHeaderBytes < config.maxHeaderBytes then
      Config.default.maxHeaderBytes
    else config.maxHeaderBytes
  maxBodyBytes :=
    if Config.default.maxBodyBytes < config.maxBodyBytes then Config.default.maxBodyBytes
    else config.maxBodyBytes

def maxMethod : ℕ := 8

def maxPath : ℕ := 256

def maxHeaders : ℕ := 32

def maxHeaderName : ℕ := 64

def maxHeaderValue : ℕ := 256

structure Header where
  name : List UInt8
  value : List UInt8
  deriving DecidableEq, Repr

structure Request where
  method : List UInt8
  path : List UInt8
  httpMajor : ℕ
  httpMinor : ℕ
  headers : List Header
  contentLength : ℕ
  keepAlive : Bool
  body : Option ℕ
  bodyLength : ℕ
  deriving DecidableEq, Repr

def Request.empty : Request := ⟨[], [], 0, 0, [], 0, false, none, 0⟩

inductive ParseStatus where
  | needMore
  | complete
  | error
  deriving DecidableEq, Repr

inductive Error where
  | none
  | badRequest
  | lengthRequired
  | payloadTooLarge
  | headerTooLarge
  deriving DecidableEq, Repr

structure Parser where
  config : Config
  request : Request
  allocated : Bool
  buffer : List UInt8
  capacity : ℕ
  headerEnd : ℕ
  error : Error
  complete : Bool
  deriving DecidableEq, Repr

def Parser.init (config : Config) (malloc : Bool) : Parser where
  config := config.normalise
  request := .empty
  allocated := malloc
  buffer := []
  capacity := if malloc then config.normalise.maxHeaderBytes + config.normalise.maxBodyBytes else 0
  headerEnd := 0
  error := .none
  complete := false

/-! ## Tokens -/

def crlf : List UInt8 := [13, 10]

def findHeaderEnd (buffer : List UInt8) : Option ℕ := (find [13, 10, 13, 10] buffer).map (· + 4)

def tokenCopy (size : ℕ) (buffer : List UInt8) (start length : ℕ) : Option (List UInt8) :=
  if length = 0 ∨ size ≤ length then none else some ((buffer.drop start).take length)

def parseContentLength (value : List UInt8) : Option ℕ :=
  if value = [] then none
  else
    match strtoul value with
    | none => none
    | some number => if number.range ∨ number.rest ≠ [] then none else some number.value

def equalsCi : List UInt8 → List UInt8 → Bool
  | a :: left, b :: right => tolower a == tolower b && equalsCi left right
  | [], [] => true
  | _, _ => false

def trimStart (buffer : List UInt8) (start : ℕ) : ℕ → ℕ
  | 0 => start
  | n + 1 => if isspace (buffer.getD start 0) then trimStart buffer (start + 1) n else start

def trimEnd (buffer : List UInt8) (start : ℕ) : ℕ → ℕ
  | 0 => start
  | n + 1 => if isspace (buffer.getD (start + n) 0) then trimEnd buffer start n else start + n + 1

def trim (buffer : List UInt8) (start stop : ℕ) : ℕ × ℕ :=
  let start := trimStart buffer start (stop - start)
  (start, trimEnd buffer start (stop - start))

/-! ## Parsing -/

/-- `"HTTP/1."` -/
def versionStart : List UInt8 := [72, 84, 84, 80, 47, 49, 46]

/-- `"GET"`, `"POST"`, `"HEAD"` -/
def methods : List (List UInt8) := [[71, 69, 84], [80, 79, 83, 84], [72, 69, 65, 68]]

/-- `"Content-Length"` -/
def contentLengthName : List UInt8 := [67, 111, 110, 116, 101, 110, 116, 45, 76, 101, 110, 103, 116, 104]

/-- `"Connection"` -/
def connectionName : List UInt8 := [67, 111, 110, 110, 101, 99, 116, 105, 111, 110]

/-- `"close"` -/
def closeValue : List UInt8 := [99, 108, 111, 115, 101]

/-- `"keep-alive"` -/
def keepAliveValue : List UInt8 := [107, 101, 101, 112, 45, 97, 108, 105, 118, 101]

namespace Parser

variable (p : Parser)

def setError (error : Error) : Parser := { p with error := error }

/-- `*pointer = '\0'` -/
def cut (i : ℕ) : Parser := { p with buffer := p.buffer.set i 0 }

def requestParts (method path version : ℕ) : Parser × Status :=
  if (cstring p.buffer version).take 7 ≠ versionStart ∨
      (p.buffer.getD (version + 7) 0 ≠ 48 ∧ p.buffer.getD (version + 7) 0 ≠ 49) ∨
      p.buffer.getD (version + 8) 0 ≠ 0 then (p, .invalidArgument)
  else if cstring p.buffer method ∉ methods then (p, .invalidArgument)
  else if p.buffer.getD path 0 ≠ 47 then (p, .invalidArgument)
  else
    match tokenCopy maxMethod p.buffer method (cstring p.buffer method).length with
    | none => (p, .invalidArgument)
    | some name =>
      let p := { p with request := { p.request with method := name } }
      match tokenCopy maxPath p.buffer path (cstring p.buffer path).length with
      | none => (p, .invalidArgument)
      | some path =>
        let minor := (p.buffer.getD (version + 7) 0).toNat - 48
        ({ p with request := { p.request with
            path := path
            httpMajor := 1
            httpMinor := minor
            keepAlive := minor == 1 } }, .ok)

def parseRequestLine (line : ℕ) : Parser × Status :=
  match strchr p.buffer line 32 with
  | none => (p, .invalidArgument)
  | some space =>
    if p.config.maxRequestLine < space - line then (p, .invalidArgument)
    else
      let p := p.cut space
      match strchr p.buffer (space + 1) 32 with
      | none => (p, .invalidArgument)
      | some space' => (p.cut space').requestParts line (space + 1) (space' + 1)

end Parser

def Request.addHeader (request : Request) (saw : Bool) (name value : List UInt8) :
    Request × Bool × Status :=
  let request := { request with headers := request.headers ++ [⟨name, value⟩] }
  if equalsCi name contentLengthName then
    if saw then (request, saw, .invalidArgument)
    else
      match parseContentLength value with
      | none => (request, saw, .invalidArgument)
      | some length => ({ request with contentLength := length }, true, .ok)
  else if equalsCi name connectionName then
    if equalsCi value closeValue then ({ request with keepAlive := false }, saw, .ok)
    else if equalsCi value keepAliveValue then ({ request with keepAlive := true }, saw, .ok)
    else (request, saw, .ok)
  else (request, saw, .ok)

namespace Parser

/-- The body of the loop of `vl_http_parse_headers`, on a line that is cut at `lineEnd`. -/
def headerLine (p : Parser) (cursor lineEnd : ℕ) (saw : Bool) : Parser × Bool × Status :=
  match strchr p.buffer cursor 58 with
  | none => (p, saw, .invalidArgument)
  | some colon =>
    if colon = cursor then (p, saw, .invalidArgument)
    else
      let name := trim p.buffer cursor colon
      let value := trim p.buffer (colon + 1) lineEnd
      match tokenCopy maxHeaderName p.buffer name.1 (name.2 - name.1),
        tokenCopy maxHeaderValue p.buffer value.1 (value.2 - value.1) with
      | some name, some value =>
        let added := p.request.addHeader saw name value
        ({ p with request := added.1 }, added.2)
      | _, _ => (p, saw, .invalidArgument)

/-- `room` is what is left of `VL_HTTP_MAX_HEADERS`. -/
def parseHeaders (room : ℕ) (p : Parser) (cursor : ℕ) (saw : Bool) : Parser × Status :=
  match strstr p.buffer cursor crlf with
  | none => (p, .invalidArgument)
  | some lineEnd =>
    if lineEnd = cursor then (p, .ok)
    else
      match room with
      | 0 => (p, .invalidArgument)
      | room + 1 =>
        match (p.cut lineEnd).headerLine cursor lineEnd saw with
        | (p, saw, .ok) => parseHeaders room p (lineEnd + 2) saw
        | (p, _, status) => (p, status)

variable (p : Parser)

def parseHead : Parser × Status :=
  match strstr p.buffer 0 crlf with
  | none => (p, .invalidArgument)
  | some lineEnd =>
    if p.config.maxRequestLine < lineEnd then (p, .invalidArgument)
    else
      match (p.cut lineEnd).parseRequestLine 0 with
      | (p, .ok) =>
        match parseHeaders maxHeaders p (lineEnd + 2) false with
        | (p, .ok) =>
          let p := { p with buffer := p.buffer.set (p.headerEnd - 4) 13 }
          if p.config.maxBodyBytes < p.request.contentLength then (p, .outOfMemory)
          else ({ p with request := { p.request with body := some p.headerEnd } }, .ok)
        | (p, _) => (p, .invalidArgument)
      | (p, _) => (p, .invalidArgument)

def finish : Parser × ParseStatus :=
  if p.buffer.length - p.headerEnd < p.request.contentLength then (p, .needMore)
  else ({ p with
    request := { p.request with bodyLength := p.request.contentLength }
    complete := true }, .complete)

def headEnds (headerEnd : ℕ) : Parser × ParseStatus :=
  let p := { p with headerEnd := headerEnd }
  if p.config.maxHeaderBytes < headerEnd then (p.setError .headerTooLarge, .error)
  else
    match p.parseHead with
    | (p, .ok) => p.finish
    | (p, _) =>
      (p.setError (if p.config.maxBodyBytes < p.request.contentLength then .payloadTooLarge
        else .badRequest), .error)

def feed (data : List UInt8) : Parser × ParseStatus :=
  if p.complete ∨ p.error ≠ .none then (p, if p.error = .none then .complete else .error)
  else if p.allocated = false ∨ p.capacity - p.buffer.length < data.length then
    (p.setError .payloadTooLarge, .error)
  else
    let p := { p with buffer := p.buffer ++ data }
    if p.headerEnd = 0 then
      match findHeaderEnd p.buffer with
      | none =>
        if p.config.maxHeaderBytes < p.buffer.length then (p.setError .headerTooLarge, .error)
        else (p, .needMore)
      | some headerEnd => p.headEnds headerEnd
    else p.finish

def requestOf : Option (Request × List UInt8) :=
  if p.complete then
    some (p.request, (p.buffer.drop (p.request.body.getD 0)).take p.request.bodyLength)
  else none

end Parser

def feedAll (p : Parser) : List (List UInt8) → Parser × ParseStatus
  | [] => (p, .needMore)
  | data :: rest =>
    match p.feed data with
    | (p, .needMore) => feedAll p rest
    | result => result

end Veloco.Http
