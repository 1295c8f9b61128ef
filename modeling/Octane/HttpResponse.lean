import Octane.Lib.Decimal
import Octane.HttpTypes

namespace octane

def get_content_type_sv : ContentType → Bytes
  | .TEXT_PLAIN => ascii "text/plain"
  | .TEXT_HTML => ascii "text/html"
  | .TEXT_CSS => ascii "text/css"
  | .TEXT_JAVASCRIPT => ascii "text/javascript"
  | .APPLICATION_JSON => ascii "application/json"
  | .APPLICATION_XML => ascii "application/xml"
  | .APPLICATION_FORM_URLENCODED => ascii "application/x-www-form-urlencoded"
  | .MULTIPART_FORM_DATA => ascii "multipart/form-data"
  | .IMAGE_JPEG => ascii "image/jpeg"
  | .IMAGE_PNG => ascii "image/png"
  | .IMAGE_GIF => ascii "image/gif"
  | .IMAGE_WEBP => ascii "image/webp"
  | .IMAGE_SVG => ascii "image/svg+xml"
  | .APPLICATION_PDF => ascii "application/pdf"
  | .OCTET_STREAM => ascii "application/octet-stream"
  | .UNKNOWN => ascii "application/octet-stream"

/-- The status texts of the source; every other code is `Unknown`. -/
def statusTexts : List (Int × String) :=
  [(200, "OK"), (201, "Created"), (204, "No Content"), (301, "Moved Permanently"), (302, "Found"),
    (304, "Not Modified"), (400, "Bad Request"), (401, "Unauthorized"), (403, "Forbidden"),
    (404, "Not Found"), (405, "Method Not Allowed"), (413, "Content Too Large"),
    (417, "Expectation Failed"), (431, "Request Header Fields Too Large"),
    (500, "Internal Server Error"), (501, "Not Implemented"), (505, "HTTP Version Not Supported")]

def get_status_text_sv (code : Int) : Bytes := ascii ((statusTexts.lookup code).getD "Unknown")

/-- `std::to_string` of an integer. -/
def to_string (n : Int) : Bytes :=
  if n < 0 then 45 :: decimal.print n.natAbs else decimal.print n.toNat

inductive BodyType where
  | Dynamic | Owned | Mapped
deriving DecidableEq

structure HttpResponse where
  status_code : Int := 200
  content_type : ContentType := .TEXT_PLAIN
  headers : UnorderedMap Bytes Bytes := {}
  body_type : BodyType := .Dynamic
  body : Bytes := []
  owned_body : Bytes := []
  mapped_body : Bytes := []
  headers_unique : headers.Unique equal_to := by exact UnorderedMap.unique_empty
deriving DecidableEq

namespace HttpResponse

def status (self : HttpResponse) (code : Int) : HttpResponse := { self with status_code := code }

/-- The setters that copy the data; `send` leaves the content type alone. -/
def assignBody (self : HttpResponse) (data : Bytes) (content_type : ContentType) : HttpResponse :=
  { self with body := data, body_type := .Dynamic, content_type }

def json (self : HttpResponse) (data : Bytes) : HttpResponse :=
  self.assignBody data .APPLICATION_JSON

def html (self : HttpResponse) (data : Bytes) : HttpResponse := self.assignBody data .TEXT_HTML

def text (self : HttpResponse) (data : Bytes) : HttpResponse := self.assignBody data .TEXT_PLAIN

def send (self : HttpResponse) (data : Bytes) : HttpResponse :=
  self.assignBody data self.content_type

def image (self : HttpResponse) (data : Bytes) (type : ContentType) : HttpResponse :=
  self.assignBody data type

def header (self : HttpResponse) (key val : Bytes) : HttpResponse :=
  { self with
    headers := self.headers.assign equal_to key val
    headers_unique := self.headers_unique.assign key val }

/-- The setters that keep a view of data the application owns. -/
def viewBody (self : HttpResponse) (data : Bytes) (content_type : ContentType) : HttpResponse :=
  { self with content_type, mapped_body := data, body_type := .Mapped }

def html_view (self : HttpResponse) (data : Bytes) : HttpResponse := self.viewBody data .TEXT_HTML

def image_view (self : HttpResponse) (data : Bytes) (ct : ContentType) : HttpResponse :=
  self.viewBody data ct

def active_body (self : HttpResponse) : Bytes :=
  match self.body_type with
  | .Dynamic => self.body
  | .Owned => self.owned_body
  | .Mapped => self.mapped_body

/-- The test for `Content-Type` among the custom names, with its two shortcuts. -/
def namesContentType (key : Bytes) : Bool :=
  key.length == 12 && (key.head? == some 99 || key.head? == some 67) &&
    CaseInsensitiveEqual key (ascii "content-type")

def custom_content_type (self : HttpResponse) : Bool :=
  self.headers.entries.any fun entry => namesContentType entry.1

/-- The names that the serializer writes itself and skips among the custom ones. -/
def ownedName (key : Bytes) : Bool :=
  CaseInsensitiveEqual key (ascii "content-length") ||
    CaseInsensitiveEqual key (ascii "transfer-encoding") ||
    CaseInsensitiveEqual key (ascii "connection")

def serialize_headers (self : HttpResponse) (close : Bool := false) : Result Bytes :=
  if self.status_code < 200 ∨ 599 < self.status_code then .error .invalid_argument
  else
    let stext := get_status_text_sv self.status_code
    let body_ret := self.active_body
    let response := ascii "HTTP/1.1 " ++ to_string self.status_code ++ ascii " " ++ stext ++ CRLF
    let response :=
      if self.custom_content_type then response
      else response ++ ascii "Content-Type: " ++ get_content_type_sv self.content_type ++ CRLF
    let response :=
      if self.status_code ≠ 204 ∧ self.status_code ≠ 304 then
        response ++ ascii "Content-Length: " ++ to_string body_ret.length ++ CRLF
      else response
    let response :=
      response ++ (if close then ascii "Connection: close" ++ CRLF
        else ascii "Connection: keep-alive" ++ CRLF)
    let response := self.headers.entries.foldl (fun response entry =>
      if ownedName entry.1 then response
      else response ++ entry.1 ++ ascii ": " ++ entry.2 ++ CRLF) response
    .ok (response ++ CRLF)

def serialize (self : HttpResponse) (close : Bool := false) (head : Bool := false) : Result Bytes := do
  let full ← self.serialize_headers close
  .ok (if !head ∧ self.status_code ≠ 204 ∧ self.status_code ≠ 304 then full ++ self.active_body else full)

end HttpResponse

end octane
