import Octane.Transport.Containment
import Octane.Transport.Steps

open search transition

namespace octane.transport.TcpConnection

variable {H : Type}

/-- The fields that a turn of the loop leaves as they are, with no operation pending. -/
structure Kept (conn other : TcpConnection H) : Prop where
  dispatcher : other.dispatcher_ = conn.dispatcher_
  limits : other.limits_ = conn.limits_
  on_close : other.on_close_ = conn.on_close_
  id : other.id_ = conn.id_
  draining : other.draining_ = conn.draining_
  pending : other.pending = []
  running : other.phase_ ≠ .closed

/-- One turn of `process_input`: what it answers, and the operation that it starts last. -/
inductive Turn (self : TcpConnection H) : TcpConnection H → Prop where
  | answers (before : TcpConnection H) (block : Bytes) (seen : HttpRequest) (response : HttpResponse)
      (hkept : Kept self before)
      (hlog : before.log =
        self.log ++ [.dispatch_response block seen before.close_after_write_ response])
      (hclose : before.close_after_write_ = (self.draining_ || !seen.keep_alive ||
        decide (self.limits_.max_requests_per_connection ≤ self.requests_ + 1)))
      (hcount : before.close_after_write_ = false → before.requests_ = self.requests_ + 1)
      (hhead : response.serialize_headers before.close_after_write_ = .ok before.header_payload_) :
      Turn self before.write
  | fails (before : TcpConnection H) (status : Nat) (hkept : Kept self before)
      (hlog : before.log = self.log ++ [.fail status]) (hclose : before.close_after_write_ = true)
      (hhead : (failure status).serialize_headers true = .ok before.header_payload_) :
      Turn self before.write
  | reads (before : TcpConnection H) (hkept : Kept self before) (hlog : before.log = self.log)
      (hcount : before.requests_ = self.requests_)
      (hphase : before.phase_ = .headers ∨ before.phase_ = .body) : Turn self before.async_read_some

theorem write_log (self : TcpConnection H) :
    self.write.log = self.log ++ [.async_write self.header_payload_ self.body_payload_] := rfl

theorem async_read_some_log (self : TcpConnection H) :
    self.async_read_some.log = self.log ++ [.async_read_some (self.buffer_.size - self.write_pos_)] := rfl

/-- Asking for more is a turn that answers nothing. -/
theorem read_more_turn {self : TcpConnection H} (hphase : self.phase_ = .headers ∨ self.phase_ = .body)
    (hpending : self.pending = []) : Turn self self.read_more := by
  have hopen := open_of_reading hphase
  rw [read_more, grow_frame, compact_frame]
  exact .reads _ ⟨rfl, rfl, rfl, rfl, rfl, hpending, hopen⟩ rfl rfl hphase

/-- A refusal is a turn of its own. -/
theorem fail_turn {self : TcpConnection H} (status : Nat) (hopen : self.phase_ ≠ .closed)
    (hpending : self.pending = []) (hstatus : ¬ ((status : Int) < 200 ∨ 599 < (status : Int))) :
    Turn self (self.fail status) := by
  obtain ⟨header, hhead, _⟩ := fail_eq self status hopen hstatus
  have hfail : self.fail status = write { self with
      header_payload_ := header
      owned_body_storage_ := (failure status).body
      body_payload_ := (failure status).body
      close_after_write_ := true
      log := self.log ++ [.fail status] } := by
    rw [fail, if_neg hopen]
    rw [failure] at hhead ⊢
    dsimp only
    rw [hhead]
  rw [hfail]
  exact .fails _ status ⟨rfl, rfl, rfl, rfl, rfl, hpending, hopen⟩ rfl rfl hhead

/-- An answer is a turn: it logs the dispatch, then the write that it starts. -/
theorem respond_turn {env : Environment H} {self after : TcpConnection H} {total : Nat}
    (hopen : self.phase_ ≠ .closed) (hpending : self.pending = [])
    (h : self.respond env total = .ok after) : Turn self after := by
  obtain ⟨header, owned, hhead, rfl⟩ := respond_inv h
  have hqueued : self.queued env total header owned = write { self with
      requests_ := self.decide_close.requests_
      close_after_write_ := self.closing
      request_ := (self.exchange env).1
      read_pos_ := (self.consume total).read_pos_
      write_pos_ := (self.consume total).write_pos_
      header_payload_ := header
      body_payload_ := payload (self.exchange env).1 (self.exchange env).2
      owned_body_storage_ := owned
      log := self.log ++ [.dispatch_response self.origin.block (self.observe env.freed) self.closing
        (self.exchange env).2] } := by
    rw [queued, write]
    simp only [List.append_assoc, List.singleton_append]
  rw [hqueued]
  refine .answers _ _ _ _ ⟨rfl, rfl, rfl, rfl, rfl, hpending, hopen⟩ rfl rfl
    decide_close_requests hhead

/-- Parsing a head changes nothing that a turn keeps. -/
theorem Headed.kept {self base : TcpConnection H} (h : Headed self base) (hpending : self.pending = []) :
    Kept self base := by
  rw [h.frame]
  exact ⟨rfl, rfl, rfl, rfl, rfl, hpending, by simp⟩

/-- What a later part of a turn does is done by the turn. -/
theorem Turn.of_kept {self base after : TcpConnection H} (h : Turn base after) (hkept : Kept self base)
    (hlog : base.log = self.log) (hcount : base.requests_ = self.requests_) : Turn self after := by
  have htrans : ∀ before, Kept base before → Kept self before := fun before hbefore =>
    ⟨hbefore.dispatcher.trans hkept.dispatcher, hbefore.limits.trans hkept.limits,
      hbefore.on_close.trans hkept.on_close, hbefore.id.trans hkept.id,
      hbefore.draining.trans hkept.draining, hbefore.pending, hbefore.running⟩
  cases h with
  | answers before block seen response hbefore hlog' hclose hcount' hhead =>
    rw [hlog] at hlog'
    rw [hkept.draining, hkept.limits, hcount] at hclose
    rw [hcount] at hcount'
    exact .answers before block seen response (htrans _ hbefore) hlog' hclose hcount' hhead
  | fails before status hbefore hlog' hclose hhead =>
    exact .fails before status (htrans _ hbefore) (hlog ▸ hlog') hclose hhead
  | reads before hbefore hlog' hcount' hphase =>
    exact .reads before (htrans _ hbefore) (hlog'.trans hlog) (hcount'.trans hcount) hphase

/-- Looking at the unconsumed bytes is one turn, with at most one answer: what is
behind it waits until the write has completed. -/
theorem Ready.turn {self after : TcpConnection H} {env : Environment H} (h : self.Ready)
    (hrun : self.process_input env = .ok after) : Turn self after := by
  have hopen := open_of_reading h.phase
  have houtcome := process_input_outcome env self
  generalize self.process_input env = result at hrun houtcome
  cases houtcome with
  | idle hphase =>
    obtain hheaders | hbody := h.phase
    · simp [hheaders] at hphase
    · simp [hbody] at hphase
  | oversized =>
    cases hrun
    exact fail_turn 431 hopen h.pending (by decide)
  | headless =>
    cases hrun
    exact read_more_turn h.phase h.pending
  | refused stop status _ _ _ hstatus =>
    cases hrun
    have hturn : Turn { self with header_size_ := stop + 4 } _ :=
      fail_turn status hopen h.pending (supported_of_parseFailure hstatus)
    exact hturn.of_kept ⟨rfl, rfl, rfl, rfl, rfl, h.pending, hopen⟩ rfl rfl
  | displaced => cases hrun
  | awaits base hbase =>
    cases hrun
    obtain ⟨_, hlog, hcount, _⟩ := hbase.same
    have hkept := hbase.kept h.pending
    exact (read_more_turn (.inr hbase.phase) hkept.pending).of_kept hkept hlog hcount
  | complete base hbase =>
    obtain ⟨_, hlog, hcount, _⟩ := hbase.same
    have hkept := hbase.kept h.pending
    have hbody : Kept self base.withBody :=
      ⟨hkept.dispatcher, hkept.limits, hkept.on_close, hkept.id, hkept.draining, hkept.pending, hkept.running⟩
    exact (respond_turn hbody.running hbody.pending hrun).of_kept hbody hlog hcount

/-- A new connection starts with a turn on its empty buffer. -/
theorem start_turn {env : Environment H} {dispatcher_ : core.RequestDispatcher H} {limits_ : HttpLimits}
    {id_ : Nat} {first : TcpConnection H}
    (hstart : ({ dispatcher_, limits_, id_ } : TcpConnection H).start env = .ok first) :
    Turn { dispatcher_, limits_, id_ } first := by
  rw [start_eq env dispatcher_ limits_ id_] at hstart
  exact (accepted_ready dispatcher_ limits_ id_).turn hstart

/-- A completed operation that the connection goes on from. -/
structure Completion (conn : TcpConnection H) (label : Label H) (base : TcpConnection H) : Prop where
  ready : base.Ready
  kept : Kept conn base
  log : base.log = conn.log
  count : base.requests_ = conn.requests_
  event : (∃ chunk, label.event = .read chunk ∧ (conn.phase_ = .headers ∨ conn.phase_ = .body)) ∨
    (label.event = .written ∧ conn.phase_ = .writing ∧ conn.close_after_write_ = false ∧
      conn.draining_ = false)

/-- Bytes that have arrived let the connection go on. -/
theorem Regular.arrived_completion {self : TcpConnection H} (h : self.Regular) {label : Label H} {chunk : Bytes}
    (hevent : label.event = .read chunk) (hphase : self.phase_ = .headers ∨ self.phase_ = .body)
    (hroom : chunk.length ≤ self.buffer_.size - self.write_pos_) :
    Completion self label (self.arrived chunk) :=
  ⟨(h.arrived hphase hroom).1, ⟨rfl, rfl, rfl, rfl, rfl, rfl, open_of_reading hphase⟩, rfl, rfl,
    .inl ⟨chunk, hevent, hphase⟩⟩

/-- A response that has been written lets it go on, unless it is to close. -/
theorem Regular.resumed_completion {self : TcpConnection H} (h : self.Regular) {label : Label H}
    (hevent : label.event = .written) (hphase : self.phase_ = .writing)
    (hopen : self.close_after_write_ = false ∧ self.draining_ = false) :
    Completion self label self.resumed :=
  ⟨h.resumed, ⟨rfl, rfl, rfl, rfl, rfl, rfl, by simp [TcpConnection.resumed]⟩, rfl, rfl,
    .inr ⟨hevent, hphase, hopen⟩⟩

/-- A step of a regular connection: it is stopped, it has been closed already, it
closes, or an operation completes and a turn follows. -/
inductive Advance (self : TcpConnection H) (label : Label H) : TcpConnection H → Prop where
  | stopped (force : Bool) (hevent : label.event = .stop force) : Advance self label (self.stop force)
  | ignored (mem : Nat → UInt8) (operation : Operation) (pending : List Operation)
      (hphase : self.phase_ = .closed) (hevent : ¬ ∃ force, label.event = .stop force)
      (hpending : self.pending = operation :: pending) :
      Advance self label { self with buffer_ := { self.buffer_ with mem }, pending }
  | closed (header_payload_ body_payload_ owned_body_storage_ : Bytes) (hopen : self.phase_ ≠ .closed)
      (hevent : label.event = .read_error ∨ label.event = .write_error ∨
        (label.event = .written ∧ self.phase_ = .writing ∧
          (self.close_after_write_ = true ∨ self.draining_ = true))) :
      Advance self label
        { self with pending := [], header_payload_, body_payload_, owned_body_storage_ }.close
  | turned (base after : TcpConnection H) (hcompletion : Completion self label base)
      (hturn : Turn base after) : Advance self label after

/-- A stop is carried out at once, and leads to one state. -/
theorem step_stop {self after : TcpConnection H} {label : Label H} {force : Bool}
    (hevent : label.event = .stop force) (hstep : self.Step label after) : after = self.stop force := by
  rw [Step, TcpConnection.step, hevent] at hstep
  dsimp only at hstep
  exact (Except.ok.inj (Option.some.inj hstep)).symm

/-- What completes on a closed connection is ignored. -/
theorem step_ignored {self after : TcpConnection H} {label : Label H} (hclosed : self.phase_ = .closed)
    (hstop : ¬ ∃ force, label.event = .stop force) (hstep : self.Step label after) :
    Advance self label after := by
  obtain ⟨event, env⟩ := label
  rw [Step, TcpConnection.step] at hstep
  dsimp only at hstep hstop
  split at hstep
  · next chunk off room pending hpending =>
    split_ifs at hstep with hroom
    rw [on_read_closed (by exact hclosed)] at hstep
    cases hstep
    exact .ignored _ _ pending hclosed hstop hpending
  · next off room pending hpending =>
    rw [on_read_closed (by exact hclosed)] at hstep
    cases hstep
    exact .ignored self.buffer_.mem _ pending hclosed hstop hpending
  · next pending hpending =>
    rw [on_write_closed (by exact hclosed)] at hstep
    cases hstep
    exact .ignored self.buffer_.mem _ pending hclosed hstop hpending
  · next pending hpending =>
    rw [on_write_closed (by exact hclosed)] at hstep
    cases hstep
    exact .ignored self.buffer_.mem _ pending hclosed hstop hpending
  · next force => exact absurd ⟨force, rfl⟩ hstop
  · cases hstep

/-- A connection that closes on a completion has nothing pending then: the operation
that completed was the only one. -/
theorem Regular.step_closes {self after : TcpConnection H} {label : Label H} (h : self.Regular)
    (hopen : self.phase_ ≠ .closed)
    (hevent : label.event = .read_error ∨ label.event = .write_error ∨
      (label.event = .written ∧ self.phase_ = .writing ∧
        (self.close_after_write_ = true ∨ self.draining_ = true)))
    (hstep : self.Step label after) : Advance self label after := by
  have hcloses := fun header body owned => Advance.closed (H := H) header body owned hopen hevent
  obtain ⟨event, env⟩ := label
  rw [Step, TcpConnection.step] at hstep
  dsimp only at hstep hevent
  split at hstep
  · simp at hevent
  · next off room pending hpending =>
    obtain hclosed | ⟨_, _, _, rfl⟩ := h.read_pending hpending
    · exact absurd hclosed hopen
    · rw [on_read, if_neg (by exact hopen), if_pos rfl] at hstep
      cases hstep
      exact hcloses _ _ _
  · next pending hpending =>
    obtain hclosed | ⟨hphase, rfl⟩ := h.write_pending hpending
    · exact absurd hclosed hopen
    · have hend : self.close_after_write_ = true ∨ self.draining_ = true := by simpa [hphase] using hevent
      rw [on_write_open hphase, if_pos hend] at hstep
      cases hstep
      exact hcloses _ _ _
  · next pending hpending =>
    obtain hclosed | ⟨_, rfl⟩ := h.write_pending hpending
    · exact absurd hclosed hopen
    · rw [on_write, if_neg (by exact hopen)] at hstep
      dsimp only at hstep
      rw [if_pos (.inl rfl)] at hstep
      cases hstep
      exact hcloses _ _ _
  · simp at hevent
  · cases hstep

/-- Every step of a regular connection is one of four: a stop, nothing on a closed
one, a close, or a turn. -/
theorem Regular.advance {self after : TcpConnection H} {label : Label H} (h : self.Regular)
    (hstep : self.Step label after) : Advance self label after := by
  by_cases hstop : ∃ force, label.event = .stop force
  · obtain ⟨force, hevent⟩ := hstop
    rw [step_stop hevent hstep]
    exact .stopped force hevent
  by_cases hclosed : self.phase_ = .closed
  · exact step_ignored hclosed hstop hstep
  cases step_cases h hstep with
  | stopped force hevent => exact .stopped force hevent
  | ignored mem pending hphase => exact absurd hphase hclosed
  | closed before hbefore hevent => exact h.step_closes hclosed hevent hstep
  | received chunk _ hevent hphase hroom hrun =>
    have hcompletion := h.arrived_completion hevent hphase hroom
    exact .turned _ after hcompletion (hcompletion.ready.turn hrun)
  | processed _ hevent hphase hopen hrun =>
    have hcompletion := h.resumed_completion hevent hphase hopen
    exact .turned _ after hcompletion (hcompletion.ready.turn hrun)
  | idle hevent hphase hopen =>
    have hcompletion := h.resumed_completion hevent hphase hopen
    exact .turned _ _ hcompletion (read_more_turn hcompletion.ready.phase hcompletion.ready.pending)

end octane.transport.TcpConnection
