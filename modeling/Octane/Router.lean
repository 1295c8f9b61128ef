import Octane.Trie
import Octane.HttpRequest
import Octane.HttpResponse

open search

namespace octane

/-- What a handler may throw; the dispatcher catches both kinds. -/
inductive Thrown where
  | std_exception
  | other
deriving DecidableEq

/-- What a handler leaves behind, also where it throws: it works on references. -/
structure HandlerResult where
  req : HttpRequest
  res : HttpResponse
  thrown : Option Thrown := none

/-- The routes, two tiers for each method. Handlers are opaque: what calling
one does is given where the router is used. -/
structure Router (H : Type) where
  static_routes_ : HttpMethod → UnorderedMap Bytes H := fun _ => {}
  dynamic_ : HttpMethod → Trie H := fun _ => {}

namespace Router

variable {H : Type}

def isDynamic (path : Bytes) : Bool := (findSub (ascii ":") path).isSome

def stringToMethod (m : Bytes) : HttpMethod :=
  if m = ascii "GET" then .GET
  else if m = ascii "POST" then .POST
  else if m = ascii "PUT" then .PUT
  else if m = ascii "PATCH" then .PATCH
  else if m = ascii "DELETE" then .DEL
  else if m = ascii "OPTIONS" then .OPTIONS
  else if m = ascii "HEAD" then .HEAD
  else .UNKNOWN

def add (self : Router H) (method path : Bytes) (handler : H) : Router H :=
  let m := stringToMethod method
  if m = .UNKNOWN then self
  else if isDynamic path then
    { self with dynamic_ := Function.update self.dynamic_ m ((self.dynamic_ m).insert path handler) }
  else
    { self with
      static_routes_ :=
        Function.update self.static_routes_ m ((self.static_routes_ m).assign equal_to path handler) }

/-- The lookups of `resolve`: the handler it is about to call, and the request
with the parameters that the search has written into it. -/
def select (self : Router H) (req : HttpRequest) : Option H × HttpRequest :=
  if 7 ≤ req.method.index then (none, req)
  else
    match (self.static_routes_ req.method).get equal_to req.path.bytes with
    | some handler => (some handler, req)
    | none =>
      let found := (self.dynamic_ req.method).search req.path req.params
      (found.1, { req with params := found.2 })

/-- Looking a request up writes its parameters and leaves its method. -/
theorem select_method (self : Router H) (req : HttpRequest) : (self.select req).2.method = req.method := by
  rw [select]
  split_ifs
  · rfl
  · split <;> rfl

/-- `call` is what calling a handler does; the flag is the value returned. -/
def resolve (call : H → HttpRequest → HttpResponse → HandlerResult) (self : Router H)
    (req : HttpRequest) (res : HttpResponse) : Bool × HandlerResult :=
  match self.select req with
  | (some handler, req) => (true, call handler req res)
  | (none, req) => (false, { req, res })

end Router

end octane
