import Octane.Router

namespace octane.core

structure RequestDispatcher (H : Type) where
  router_ : Router H := {}

namespace RequestDispatcher

variable {H : Type}

/-- Both `catch` blocks of the source do the same. -/
def dispatch (call : H → HttpRequest → HttpResponse → HandlerResult) (self : RequestDispatcher H)
    (req : HttpRequest) (res : HttpResponse) : HttpRequest × HttpResponse :=
  let (found, result) := self.router_.resolve call req res
  match result.thrown with
  | some _ => (result.req, (result.res.status 500).text (ascii "Internal Server Error"))
  | none =>
    if found then (result.req, result.res)
    else (result.req, (result.res.status 404).text (ascii "Not Found"))

def dispatch_response (call : H → HttpRequest → HttpResponse → HandlerResult)
    (self : RequestDispatcher H) (req : HttpRequest) (close_connection : Bool := false) :
    HttpRequest × HttpResponse :=
  let (req, res) := self.dispatch call req {}
  (req, if close_connection then res.header (ascii "Connection") (ascii "close") else res)

/-- The overload of `dispatch` that returns the whole response as a string. -/
def dispatch_string (call : H → HttpRequest → HttpResponse → HandlerResult)
    (self : RequestDispatcher H) (req : HttpRequest) (close_connection : Bool := false) :
    HttpRequest × Result Bytes :=
  let (req, res) := self.dispatch_response call req close_connection
  (req, res.serialize (!req.keep_alive || close_connection) (req.method = .HEAD))

def dispatch_to_string (call : H → HttpRequest → HttpResponse → HandlerResult)
    (self : RequestDispatcher H) (req : HttpRequest) : HttpRequest × Result Bytes :=
  self.dispatch_string call req (!req.keep_alive)

end RequestDispatcher

end octane.core
