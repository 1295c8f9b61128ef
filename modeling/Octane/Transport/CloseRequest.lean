import Octane.HttpParser.KeepAlive
import Octane.Transport.Persistence

open search transition

namespace octane.transport.TcpConnection

variable {H : Type}

/-- The selected handler returns a response that can be serialized, and asks in it
for the close of the connection. -/
def AskedToClose (env : Environment H) (conn : TcpConnection H) : Prop :=
  ∃ result, conn.handled env = some result ∧ result.thrown = none ∧
    200 ≤ result.res.status_code ∧ result.res.status_code ≤ 599 ∧
    ∃ entry ∈ result.res.headers.entries, CaseInsensitiveEqual entry.1 (ascii "connection") = true ∧
      HttpParser.hasElement entry.2 (ascii "close") = true

/-- A finished connection only closes. -/
theorem finished_step {self after : TcpConnection H} {label : Label H} (hself : self.Regular)
    (hfinished : self.finished) (hstep : self.Step label after) :
    after.finished ∧ dispatched after.log = dispatched self.log := by
  have hquiet : ∀ {log effects : List Effect}, (∀ effect ∈ effects, effect.speaks = false) →
      dispatched (log ++ effects) = dispatched log := fun heffects => by
    rw [dispatched_append, dispatched_quiet heffects, Nat.add_zero]
  cases hself.advance hstep with
  | stopped force =>
    obtain ⟨_, heq⟩ | ⟨_, _, heq⟩ := self.stop_cases force
    · obtain ⟨hphase, _, _, effects, hlog, heffects⟩ :=
        ({ self with draining_ := true } : TcpConnection H).close_quiet
      rw [heq, hlog]
      exact ⟨.inl hphase, hquiet heffects⟩
    · rw [heq]
      exact ⟨hfinished, rfl⟩
  | ignored => exact ⟨hfinished, rfl⟩
  | closed header_payload_ body_payload_ owned_body_storage_ =>
    obtain ⟨hphase, _, _, effects, hlog, heffects⟩ := ({ self with
      pending := [], header_payload_, body_payload_, owned_body_storage_ } : TcpConnection H).close_quiet
    rw [hlog]
    exact ⟨.inl hphase, hquiet heffects⟩
  | turned base _ hcompletion => exact absurd hfinished hcompletion.open

/-- A connection that is finished dispatches no more requests, whatever still arrives. -/
theorem finished_run {self final : TcpConnection H} {labels : List (Label H)} (hself : self.Regular)
    (hfinished : self.finished) (hrun : Run Step self labels final) :
    dispatched final.log = dispatched self.log := by
  have hinvariant := hrun.invariant
    (fun _ conn => conn.Regular ∧ conn.finished ∧ dispatched conn.log = dispatched self.log)
    ⟨hself, hfinished, rfl⟩ fun _ before label after ⟨hregular, hbefore, hcount⟩ hstep => by
      obtain ⟨hafter, hsame⟩ := finished_step hregular hbefore hstep
      exact ⟨hregular.step hstep, hafter, hsame.trans hcount⟩
  exact hinvariant.2.2

/-- The response announces the close, the connection closes once it is written,
and in no run is another request dispatched. -/
def Honoured (result : Result (TcpConnection H)) : Prop :=
  ∃ after header body, result = .ok after ∧ (writes after.log).getLast? = some (header, body) ∧
    HttpResponse.announced header = some (ascii "close") ∧
    (∀ env, ∃ closed, after.Step ⟨.written, env⟩ closed ∧ closed.phase_ = .closed) ∧
    ∀ labels final, Run Step after labels final → dispatched final.log = dispatched after.log

/-- Once the last response is written the connection closes. -/
theorem step_written_closes {self : TcpConnection H} (hphase : self.phase_ = .writing)
    (hpending : self.pending = [.write]) (hclose : self.close_after_write_ = true) (env : Environment H) :
    ∃ closed, self.Step ⟨.written, env⟩ closed ∧ closed.phase_ = .closed := by
  refine ⟨({ self with
    pending := [], header_payload_ := [], owned_body_storage_ := [], body_payload_ := [] } :
      TcpConnection H).close, ?_, close_quiet _ |>.1⟩
  rw [Step, TcpConnection.step, hpending]
  dsimp only
  rw [on_write_open hphase, if_pos (.inl hclose)]

/-- The response is what is written last. -/
theorem writes_queued (env : Environment H) (self : TcpConnection H) (total : Nat) (header owned : Bytes) :
    (writes (self.queued env total header owned).log).getLast? =
      some (header, payload (self.exchange env).1 (self.exchange env).2) := by
  rw [queued, writes_append]
  exact List.getLast?_concat

/-- A handler's wish to close is honoured only where the connection closes in any case:
the decision is taken before the handler runs, and the serializer drops its field. -/
theorem close_honoured_iff {env : Environment H} {self base : TcpConnection H} (hready : self.Ready)
    (h : Complete self base) (hasked : AskedToClose env base.withBody) :
    Honoured (self.process_input env) ↔ base.withBody.closing = true := by
  obtain ⟨result, hhandled, hreturns, hlow, hhigh, _⟩ := hasked
  have hsupported : ¬ ((base.withBody.exchange env).2.status_code < 200 ∨
      599 < (base.withBody.exchange env).2.status_code) := by
    rw [exchange_status, hhandled, dispatchedStatus, hreturns, if_neg (by simp)]
    omega
  have hhead := HttpResponse.serialize_headers_eq base.withBody.closing hsupported
  have hannounced := HttpResponse.announced_serialize_headers hhead
  obtain ⟨owned, heq⟩ := respond_ok base.total_req_bytes hhead
  have hrun := (h.process_input_eq env).trans heq
  have hregular := hready.process_input hrun
  have hpending : base.withBody.pending = [] := (h.headed.ready hready).pending
  rw [hrun]
  constructor
  · rintro ⟨after, header, body, hafter, hlast, hclose, _⟩
    cases hafter
    rw [writes_queued] at hlast
    cases hlast
    rw [hannounced] at hclose
    exact token_eq_close_iff.mp (Option.some.inj hclose)
  · intro hclosing
    have hclose := hannounced.trans (congrArg some (token_eq_close_iff.mpr hclosing))
    refine ⟨_, _, _, rfl, writes_queued _ _ _ _ _, hclose, fun env => ?_, fun labels final hlater => ?_⟩
    · exact step_written_closes rfl (congrArg (· ++ [Operation.write]) hpending) hclosing env
    · exact finished_run hregular (.inr ⟨rfl, hclosing⟩) hlater

/-- A response that asks for the close. -/
def farewell : HttpResponse := (({} : HttpResponse).header (ascii "connection") (ascii "foo, Close")).text (ascii "bye")

/-- A handler that answers without looking has answered with its response. -/
theorem handled_answering {response : HttpResponse} {self : TcpConnection Unit} {result : HandlerResult}
    (h : self.handled (answering response) = some result) : result.thrown = none ∧ result.res = response := by
  rw [handled] at h
  split at h
  · cases h
    exact ⟨rfl, rfl⟩
  · cases h

theorem homeBase_asked : AskedToClose (answering farewell) homeBase.withBody := by
  obtain ⟨result, hresult⟩ := Option.isSome_iff_exists.mp
    (show (homeBase.withBody.handled (answering farewell)).isSome = true by decide +kernel)
  obtain ⟨hreturns, hres⟩ := handled_answering hresult
  refine ⟨result, hresult, hreturns, ?_⟩
  rw [hres]
  exact ⟨by decide, by decide, (ascii "connection", ascii "foo, Close"), by decide, by decide, by decide +kernel⟩

theorem delivered_ready : (delivered homePage .defaults homeRequest).Ready :=
  ⟨⟨Nat.zero_le _, by decide, Nat.zero_lt_succ _⟩, fun hbody => (by cases hbody), .inl rfl, rfl⟩

/-- A response that asks for the close, on a connection that would go on. -/
theorem close_honoured_iff_farewell :
    Honoured ((delivered homePage .defaults homeRequest).process_input (answering farewell)) ↔
      homeBase.withBody.closing = true :=
  close_honoured_iff delivered_ready homeBase_complete homeBase_asked

/-- A handler that asks for the close on a connection that may go on is answered
with a response that says `keep-alive`. -/
theorem farewell_kept_alive :
    AskedToClose (answering farewell) homeBase.withBody ∧
      ¬ Honoured ((delivered homePage .defaults homeRequest).process_input (answering farewell)) := by
  have hkept : ((delivered homePage .defaults homeRequest).process_input (answering farewell)).map
      (fun after => (writes after.log).getLast?.map fun written => HttpResponse.announced written.1) =
        .ok (some (some (ascii "keep-alive"))) := by decide +kernel
  refine ⟨homeBase_asked, ?_⟩
  rintro ⟨after, header, body, hrun, hlast, hclose, _⟩
  rw [hrun, Except.map, hlast, Option.map_some, hclose] at hkept
  exact absurd hkept (by decide)

end octane.transport.TcpConnection
