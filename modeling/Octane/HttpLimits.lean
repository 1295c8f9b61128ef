import Octane.StringView

namespace octane

/-- Request bounds and admission policy. Sizes are `size_t` values; the
timeouts are in milliseconds. -/
structure HttpLimits where
  max_header_bytes : Nat := 16 * 1024
  max_body_bytes : Nat := 1024 * 1024
  max_connections : Nat := 4096
  max_requests_per_connection : Nat := 1000
  read_timeout : Int := 10000
  write_timeout : Int := 10000
  shutdown_timeout : Int := 5000
  representable : max_header_bytes < 2 ^ 64 ∧ max_body_bytes < 2 ^ 64 ∧
    max_connections < 2 ^ 64 ∧ max_requests_per_connection < 2 ^ 64 := by decide

namespace HttpLimits

def validate (self : HttpLimits) : Result Unit :=
  if self.max_header_bytes < 4 ∨ self.max_body_bytes > 2 ^ 64 - 1 - self.max_header_bytes ∨
      self.max_connections = 0 ∨ self.max_requests_per_connection = 0 ∨
      self.read_timeout ≤ 0 ∨ self.write_timeout ≤ 0 ∨ self.shutdown_timeout ≤ 0 then
    .error .invalid_argument
  else .ok ()

/-- What a caller may rely on once the limits have been validated. -/
theorem validate_ok {self : HttpLimits} (h : self.validate = .ok ()) :
    4 ≤ self.max_header_bytes ∧ self.max_header_bytes + self.max_body_bytes < 2 ^ 64 ∧
      0 < self.max_connections ∧ 0 < self.max_requests_per_connection := by
  have hrepresentable := self.representable
  by_cases hbad : self.max_header_bytes < 4 ∨ self.max_body_bytes > 2 ^ 64 - 1 - self.max_header_bytes ∨
      self.max_connections = 0 ∨ self.max_requests_per_connection = 0 ∨
      self.read_timeout ≤ 0 ∨ self.write_timeout ≤ 0 ∨ self.shutdown_timeout ≤ 0
  · rw [validate, if_pos hbad] at h
    cases h
  · omega

/-- The limits where none are set. -/
def defaults : HttpLimits := {}

/-- Every default passes the check. -/
theorem validate_defaults : defaults.validate = .ok () := by decide

end HttpLimits

end octane
