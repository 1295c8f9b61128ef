import Octane.HttpTypes

namespace octane

/-- A parsed request. Its views point into the head they were parsed from. -/
structure HttpRequest where
  content_length : Nat := 0
  keep_alive : Bool := true
  method : HttpMethod := .UNKNOWN
  path : StringView := {}
  http_version : StringView := .ofBytes (ascii "HTTP/1.1")
  body : Bytes := []
  content_type : ContentType := .UNKNOWN
  params : StringMap := {}
  headers : HeaderMap := {}
  query : StringMap := {}
  cookies : StringMap := {}
deriving DecidableEq

namespace HttpRequest

def param (self : HttpRequest) (k : Bytes) (fb : StringView := {}) : StringView :=
  (self.params.get StringMap.keyEq (.ofBytes k)).getD fb

def q (self : HttpRequest) (k : Bytes) (fb : StringView := {}) : StringView :=
  (self.query.get StringMap.keyEq (.ofBytes k)).getD fb

def header (self : HttpRequest) (k : Bytes) (fb : StringView := {}) : StringView :=
  (self.headers.get HeaderMap.keyEq (.ofBytes k)).getD fb

def cookie (self : HttpRequest) (k : Bytes) (fb : StringView := {}) : StringView :=
  (self.cookies.get StringMap.keyEq (.ofBytes k)).getD fb

end HttpRequest

end octane
