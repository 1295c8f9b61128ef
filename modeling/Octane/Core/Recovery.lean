import Octane.Core.RequestDispatcher
import Octane.HttpResponse.Setters

namespace octane

/-- The response that is served where a handler has thrown. -/
structure HttpResponse.InternalError (res : HttpResponse) : Prop where
  status : res.status_code = 500
  content_type : res.content_type = .TEXT_PLAIN
  body : res.active_body = ascii "Internal Server Error"
  no_header : res.headers = {}

/-- Two responses say the same, and nothing about the handler. -/
structure HttpResponse.SameError (res other : HttpResponse) : Prop where
  first : res.InternalError
  second : other.InternalError
  bytes : ∀ close head, res.serialize close head = other.serialize close head

/-- What is written depends on four parts of a response. -/
theorem HttpResponse.serialize_congr {self other : HttpResponse} (hstatus : self.status_code = other.status_code)
    (htype : self.content_type = other.content_type) (hheaders : self.headers = other.headers)
    (hbody : self.active_body = other.active_body) (close head : Bool) :
    self.serialize close head = other.serialize close head := by
  have hfields : self.custom_content_type = other.custom_content_type := by
    rw [custom_content_type, custom_content_type, hheaders]
  unfold serialize serialize_headers
  rw [hbody, hfields, htype, hheaders]
  rw [hstatus]

namespace core.RequestDispatcher

variable {H : Type}

/-- The handler makes these calls on the response and then throws. -/
def Throws (call : H → HttpRequest → HttpResponse → HandlerResult) (handler : H) (req : HttpRequest)
    (calls : List Setter) : Prop :=
  ∃ after thrown, call handler req {} =
    { req := after, res := ({} : HttpResponse).performAll calls, thrown := some thrown }

/-- What the dispatcher makes of the response of a handler that has thrown. -/
def recovered (res : HttpResponse) : HttpResponse := (res.status 500).text (ascii "Internal Server Error")

/-- What the dispatcher makes of a handler that throws: both catch blocks start from
the response as the handler has left it. -/
theorem dispatch_of_throws {self : RequestDispatcher H}
    {call : H → HttpRequest → HttpResponse → HandlerResult} {req matched : HttpRequest} {handler : H}
    {calls : List Setter} (hselect : self.router_.select req = (some handler, matched))
    (h : Throws call handler matched calls) :
    (self.dispatch call req {}).2 = recovered (({} : HttpResponse).performAll calls) := by
  obtain ⟨after, thrown, hcall⟩ := h
  rw [dispatch, Router.resolve, hselect]
  dsimp only
  rw [hcall]
  rfl

/-- The response is the plain 500 exactly where the handler had set no header. -/
theorem recovered_internalError_iff (res : HttpResponse) : (recovered res).InternalError ↔ res.headers = {} :=
  ⟨fun h => h.no_header, fun h => ⟨rfl, rfl, rfl, h⟩⟩

/-- What recovery leaves of a response: its headers, and its storage for views and owned bodies. -/
theorem recovered_eq_iff (res other : HttpResponse) :
    recovered res = recovered other ↔
      res.headers = other.headers ∧ res.mapped_body = other.mapped_body ∧ res.owned_body = other.owned_body := by
  constructor
  · intro h
    have hheaders : (recovered res).headers = (recovered other).headers := by rw [h]
    have hmapped : (recovered res).mapped_body = (recovered other).mapped_body := by rw [h]
    have howned : (recovered res).owned_body = (recovered other).owned_body := by rw [h]
    exact ⟨hheaders, hmapped, howned⟩
  · rintro ⟨hheaders, hmapped, howned⟩
    obtain ⟨_, _, headers, _, _, owned, mapped, _⟩ := res
    obtain ⟨_, _, headers', _, _, owned', mapped', _⟩ := other
    dsimp only at hheaders hmapped howned
    subst hheaders hmapped howned
    rfl

/-- Two handlers that throw are told apart by the headers they had set, and by
nothing else. -/
theorem sameError_recovered_iff (calls calls' : List Setter) :
    (recovered (({} : HttpResponse).performAll calls)).SameError
        (recovered (({} : HttpResponse).performAll calls')) ↔
      Setter.fields calls = [] ∧ Setter.fields calls' = [] := by
  rw [← HttpResponse.performAll_headers_eq_empty_iff, ← HttpResponse.performAll_headers_eq_empty_iff]
  constructor
  · intro h
    exact ⟨h.first.no_header, h.second.no_header⟩
  · rintro ⟨hfirst, hsecond⟩
    refine ⟨(recovered_internalError_iff _).mpr hfirst, (recovered_internalError_iff _).mpr hsecond, ?_⟩
    exact HttpResponse.serialize_congr rfl rfl (hfirst.trans hsecond.symm) rfl

/-- Recovery resets the status, the content type and the body, and never the
headers: two throwing runs are served alike exactly where neither has set one.
The responses are equal in every field where the unused views agree, too. -/
theorem throwing_runs_iff {self : RequestDispatcher H}
    {call call' : H → HttpRequest → HttpResponse → HandlerResult} {req matched : HttpRequest} {handler : H}
    {calls calls' : List Setter} (hselect : self.router_.select req = (some handler, matched))
    (hfirst : Throws call handler matched calls) (hsecond : Throws call' handler matched calls') :
    ((self.dispatch call req {}).2.SameError (self.dispatch call' req {}).2 ↔
        Setter.fields calls = [] ∧ Setter.fields calls' = []) ∧
      ((self.dispatch call req {}).2 = (self.dispatch call' req {}).2 ∧
          (self.dispatch call req {}).2.SameError (self.dispatch call' req {}).2 ↔
        (Setter.fields calls = [] ∧ Setter.fields calls' = []) ∧
          Setter.lastView calls = Setter.lastView calls') := by
  rw [dispatch_of_throws hselect hfirst, dispatch_of_throws hselect hsecond]
  refine ⟨sameError_recovered_iff calls calls', ?_⟩
  rw [sameError_recovered_iff, recovered_eq_iff, HttpResponse.performAll_mapped_body,
    HttpResponse.performAll_mapped_body, HttpResponse.performAll_owned_body,
    HttpResponse.performAll_owned_body]
  constructor
  · rintro ⟨⟨_, hviews, _⟩, hnone⟩
    exact ⟨hnone, hviews⟩
  · rintro ⟨⟨hfirst, hsecond⟩, hviews⟩
    refine ⟨⟨?_, hviews, rfl⟩, hfirst, hsecond⟩
    rw [(HttpResponse.performAll_headers_eq_empty_iff calls).mpr hfirst,
      (HttpResponse.performAll_headers_eq_empty_iff calls').mpr hsecond]

/-- A handler for the home page that makes some calls and throws. -/
def throwing (calls : List Setter) (_ : Unit) (req : HttpRequest) (res : HttpResponse) : HandlerResult :=
  { req, res := res.performAll calls, thrown := some .std_exception }

def throwingHome : RequestDispatcher Unit where
  router_ := Router.add {} (ascii "GET") (ascii "/") ()

def homeRequest : HttpRequest := { method := .GET, path := .ofBytes (ascii "/") }

theorem throwingHome_select : throwingHome.router_.select homeRequest = (some (), homeRequest) := by
  decide +kernel

theorem throwing_runs_iff_text :
    (throwingHome.dispatch (throwing [.text (ascii "partial"), .status 201]) homeRequest {}).2.SameError
      (throwingHome.dispatch (throwing []) homeRequest {}).2 :=
  (throwing_runs_iff throwingHome_select ⟨_, _, rfl⟩ ⟨_, _, rfl⟩).1.mpr ⟨rfl, rfl⟩

/-- A header that the handler has set is served with the failure. -/
theorem thrown_header_served :
    ¬ (throwingHome.dispatch (throwing [.header (ascii "X-User") (ascii "alice")]) homeRequest {}).2.SameError
      (throwingHome.dispatch (throwing []) homeRequest {}).2 := by
  intro hsame
  have hheaders := congrArg UnorderedMap.entries hsame.first.no_header
  have hkept : (throwingHome.dispatch (throwing [.header (ascii "X-User") (ascii "alice")])
      homeRequest {}).2.headers.entries = [(ascii "X-User", ascii "alice")] := by decide +kernel
  rw [hkept] at hheaders
  cases hheaders

end core.RequestDispatcher

end octane
