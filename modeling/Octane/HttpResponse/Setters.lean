import Octane.HttpResponse

namespace octane

/-- The calls by which a handler changes its response. -/
inductive Setter where
  | status (code : Int)
  | json (data : Bytes)
  | html (data : Bytes)
  | text (data : Bytes)
  | send (data : Bytes)
  | image (data : Bytes) (type : ContentType)
  | header (key val : Bytes)
  | html_view (data : Bytes)
  | image_view (data : Bytes) (ct : ContentType)
deriving DecidableEq

namespace HttpResponse

def perform (self : HttpResponse) : Setter → HttpResponse
  | .status code => self.status code
  | .json data => self.json data
  | .html data => self.html data
  | .text data => self.text data
  | .send data => self.send data
  | .image data type => self.image data type
  | .header key val => self.header key val
  | .html_view data => self.html_view data
  | .image_view data ct => self.image_view data ct

def performAll (self : HttpResponse) (calls : List Setter) : HttpResponse := calls.foldl perform self

end HttpResponse

namespace Setter

/-- The name and the value of a `header` call. -/
def field? : Setter → Option (Bytes × Bytes)
  | .header key val => some (key, val)
  | _ => none

/-- The data of a view setter. -/
def view? : Setter → Option Bytes
  | .html_view data => some data
  | .image_view data _ => some data
  | _ => none

def status? : Setter → Option Int
  | .status code => some code
  | _ => none

/-- The `header` calls among some calls. -/
def fields (calls : List Setter) : List (Bytes × Bytes) := calls.filterMap field?

/-- The data of the last view setter among some calls; none leaves the view empty. -/
def lastView (calls : List Setter) : Bytes := ((calls.filterMap view?).getLast?).getD []

/-- The status last set by some calls; none leaves 200. -/
def lastStatus (calls : List Setter) : Int := ((calls.filterMap status?).getLast?).getD 200

end Setter

namespace HttpResponse

/-- What a call does to the headers, to the status and to the storage for views and owned bodies. -/
theorem perform_frame (self : HttpResponse) (call : Setter) :
    (self.perform call).headers =
        call.field?.elim self.headers (fun field => self.headers.assign equal_to field.1 field.2) ∧
      (self.perform call).status_code = call.status?.getD self.status_code ∧
      (self.perform call).mapped_body = call.view?.getD self.mapped_body ∧
      (self.perform call).owned_body = self.owned_body := by
  cases call <;> exact ⟨rfl, rfl, rfl, rfl⟩

/-- After a sequence of calls the headers are those that `header` has assigned, in order. -/
theorem performAll_headers (self : HttpResponse) (calls : List Setter) :
    (self.performAll calls).headers =
      (Setter.fields calls).foldl (fun headers field => headers.assign equal_to field.1 field.2) self.headers := by
  induction calls generalizing self with
  | nil => rfl
  | cons call calls ih =>
    have hrest := ih (self.perform call)
    rw [(self.perform_frame call).1] at hrest
    rw [performAll, List.foldl_cons, Setter.fields, List.filterMap_cons]
    refine hrest.trans ?_
    cases call.field? <;> rfl

/-- A part that calls only overwrite holds what the last of them wrote. -/
theorem performAll_last {α : Type} (part : HttpResponse → α) (written : Setter → Option α)
    (hframe : ∀ (res : HttpResponse) call, part (res.perform call) = (written call).getD (part res))
    (self : HttpResponse) (calls : List Setter) :
    part (self.performAll calls) = ((calls.filterMap written).getLast?).getD (part self) := by
  induction calls generalizing self with
  | nil => rfl
  | cons call calls ih =>
    have hrest := ih (self.perform call)
    rw [hframe self call] at hrest
    rw [performAll, List.foldl_cons, List.filterMap_cons]
    refine hrest.trans ?_
    cases written call with
    | none => rfl
    | some value =>
      rw [List.getLast?_cons]
      cases (calls.filterMap written).getLast? <;> rfl

/-- The last status that was set counts. -/
theorem performAll_status_code (self : HttpResponse) (calls : List Setter) :
    (self.performAll calls).status_code = ((calls.filterMap Setter.status?).getLast?).getD self.status_code :=
  performAll_last HttpResponse.status_code Setter.status? (fun res call => (res.perform_frame call).2.1) self calls

/-- The last view that was set counts, and a text set later does not remove it. -/
theorem performAll_mapped_body (self : HttpResponse) (calls : List Setter) :
    (self.performAll calls).mapped_body = ((calls.filterMap Setter.view?).getLast?).getD self.mapped_body :=
  performAll_last HttpResponse.mapped_body Setter.view? (fun res call => (res.perform_frame call).2.2.1) self calls

/-- No setter writes the owned body. -/
theorem performAll_owned_body (self : HttpResponse) (calls : List Setter) :
    (self.performAll calls).owned_body = self.owned_body := by
  induction calls generalizing self with
  | nil => rfl
  | cons call calls ih => exact (ih (self.perform call)).trans (self.perform_frame call).2.2.2

/-- A response has no headers exactly where no call has set one. -/
theorem performAll_headers_eq_empty_iff (calls : List Setter) :
    (({} : HttpResponse).performAll calls).headers = {} ↔ Setter.fields calls = [] := by
  rw [performAll_headers]
  constructor
  · intro h
    obtain hnil | ⟨earlier, last, hlast⟩ := List.eq_nil_or_concat' (Setter.fields calls)
    · exact hnil
    · rw [hlast, List.foldl_concat] at h
      exact absurd (congrArg UnorderedMap.entries h) (UnorderedMap.assign_entries_ne_nil _ _ _)
  · intro h
    rw [h]
    rfl

end HttpResponse

end octane
