import Veloco.Http.Fragments
import Veloco.Http.Response

/-!
# One connection from the first byte to the response
-/

namespace Veloco.Http

open List Option Http.Parser

/-! ## The connection -/

def errorResponse (status : ℤ) : Response :=
  ((Response.init.setStatus status).2.setBody (ascii
    (if status = 400 then "Bad Request"
    else if status = 413 then "Payload Too Large"
    else if status = 431 then "Header Too Large"
    else "Not Found"))).2

inductive Recv where
  | failed
  | eof
  | data (bytes : List UInt8) (shutdown : Bool)

structure Route where
  method : List UInt8
  path : List UInt8
  handler : Request × List UInt8 → Response → Response

def findRoute (routes : List Route) (method path : List UInt8) : Option Route :=
  routes.find? fun route => route.method == method && route.path == path

structure Outcome where
  status : Option Status
  writes : List (Response × Option (Status × List UInt8))
  handled : List Route
  destroyed : ℕ

def delivered : List Recv → List (List UInt8)
  | .data bytes shutdown :: rest => bytes :: if shutdown then [] else delivered rest
  | _ => []

section Read

variable {p : Parser} {data : List UInt8}

end Read

/-! ## The response -/

/-- The head fits `char head[512]`, and the body its array. -/
def Response.Fits (r : Response) : Prop := r.head.length < 512 ∧ r.body.length ≤ 1024

/-- One response on the wire. -/
def Response.bytes (r : Response) : List UInt8 := r.head ++ r.pieces.flatten

section Run

variable {config : Config} {malloc : Bool} (routes : List Route) {results : ℕ → ℤ} {fuel : ℕ}

theorem Response.Ok.write {r : Response} (h : r.Ok) (hpos : ∀ i, 0 < results i) (hfl : 1024 ≤ fuel) :
    r.write results fuel = some (.ok, r.bytes) :=
  write_ok (head_length h) (Nat.le_succ_of_le h.body) hpos hfl

end Run

section Stopped

variable {config : Config} {malloc : Bool} (routes : List Route) {results : ℕ → ℤ} {fuel : ℕ}
  {recvs : List Recv}

end Stopped

def rootRoute (r : Response) : Route := ⟨ascii "GET", [47], fun _ _ => r⟩

/-- The strings fit the arrays of `vl_http_route_entry_t`. -/
def Route.fits (route : Route) : Bool :=
  route.method.length < maxMethod && route.path.length < maxPath

/-- `vl_http_route`. -/
def addRoute (routes : List Route) (route : Route) : Status × List Route :=
  if route.fits = false then (.invalidArgument, routes)
  else if 64 ≤ routes.length then (.outOfMemory, routes)
  else (.ok, routes ++ [route])

def addRoutes (routes : List Route) (calls : List Route) : List Route :=
  calls.foldl (fun routes route => (addRoute routes route).2) routes

theorem addRoutes_eq (calls : List Route) {routes : List Route} (h : routes.length ≤ 64) :
    addRoutes routes calls = routes ++ (calls.filter Route.fits).take (64 - routes.length) := by
  induction calls generalizing routes with
  | nil => simp [addRoutes]
  | cons route calls ih =>
    show addRoutes (addRoute routes route).2 calls = _
    unfold addRoute
    by_cases hft : route.fits = false
    · rw [if_pos hft, ih h, filter_cons_of_neg (by simp [hft])]
    rw [if_neg hft, filter_cons_of_pos (by simpa using hft)]
    by_cases hfu : 64 ≤ routes.length
    · rw [if_pos hfu, ih h, Nat.sub_eq_zero_of_le hfu, take_zero, take_zero]
    have hrm : 64 - routes.length = 64 - (routes ++ [route]).length + 1 := by
      rw [length_append, length_singleton]
      omega
    rw [if_neg hfu, ih (by rw [length_append, length_singleton]; omega), hrm,
      take_succ_cons, append_assoc, singleton_append]

/-- **The first route wins for good.** -/
theorem routes_stable (calls later : List Route) (method path : List UInt8) :
    addRoutes [] calls = (calls.filter Route.fits).take 64 ∧
      ∀ route, findRoute (addRoutes [] calls) method path = some route →
        findRoute (addRoutes [] (calls ++ later)) method path = some route := by
  have htab : addRoutes [] calls = [] ++ _ := addRoutes_eq calls (Nat.zero_le 64)
  refine ⟨htab, fun route hrou => ?_⟩
  have hlen : (addRoutes [] calls).length ≤ 64 := htab ▸ length_take_le _ _
  have hlat : addRoutes [] (calls ++ later) = addRoutes (addRoutes [] calls) later := foldl_append
  unfold findRoute at hrou ⊢
  rw [hlat, addRoutes_eq later hlen, List.find?_append, hrou, some_or]

theorem routes_stable_root : ∃ route,
    findRoute (addRoutes [] [rootRoute .init]) (ascii "GET") [47] = some route ∧
      findRoute (addRoutes [] ([rootRoute .init] ++ [rootRoute (errorResponse 404)])) (ascii "GET") [47] =
        some route :=
  ⟨rootRoute .init, rfl, (routes_stable _ _ _ _).2 (rootRoute .init) rfl⟩

end Veloco.Http
