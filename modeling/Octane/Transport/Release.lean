import Octane.Transport.Operations
import Octane.Transport.TcpServer

open transition

namespace octane.transport

theorem closedIds_append (log effects : List Effect) :
    closedIds (log ++ effects) = closedIds log ++ closedIds effects := List.filterMap_append

namespace TcpConnection

variable {H : Type}

/-- A later state of the same connection: what it has done since calls `on_close_`
once where it has closed meanwhile, and not at all where it has not. -/
structure Released (before after : TcpConnection H) (effects : List Effect) : Prop where
  log : after.log = before.log ++ effects
  id : after.id_ = before.id_
  closed : before.phase_ = .closed → after.phase_ = .closed
  calls : closedIds effects =
    if before.phase_ ≠ .closed ∧ after.phase_ = .closed then [before.id_] else []

/-- Between two callbacks a connection still has its `on_close_` unless it has closed. -/
structure Armed (conn : TcpConnection H) : Prop where
  regular : conn.Regular
  on_close : conn.on_close_ = true ↔ conn.phase_ ≠ .closed

/-- Nothing done, nothing released. -/
theorem Released.refl (conn : TcpConnection H) : Released conn conn [] := by
  refine ⟨(List.append_nil _).symm, rfl, fun hphase => hphase, ?_⟩
  rw [if_neg fun h => h.1 h.2]
  rfl

/-- What is released stays so: a connection does not call `on_close_` twice. -/
theorem Released.trans {first second third : TcpConnection H} {effects effects' : List Effect}
    (h : Released first second effects) (h' : Released second third effects') :
    Released first third (effects ++ effects') := by
  refine ⟨?_, h'.id.trans h.id, fun hphase => h'.closed (h.closed hphase), ?_⟩
  · rw [h'.log, h.log, List.append_assoc]
  rw [closedIds_append, h.calls, h'.calls, h.id]
  by_cases hfirst : first.phase_ = .closed
  · simp [hfirst, h.closed hfirst]
  by_cases hsecond : second.phase_ = .closed
  · simp [hfirst, hsecond, h'.closed hsecond]
  · simp [hfirst, hsecond]

/-- Nothing is closed, and nothing calls `on_close_`. -/
theorem Released.of_open {before after : TcpConnection H} {effects : List Effect}
    (hlog : after.log = before.log ++ effects) (hid : after.id_ = before.id_)
    (hphase : after.phase_ = .closed ↔ before.phase_ = .closed) (hcalls : closedIds effects = []) :
    Released before after effects := by
  refine ⟨hlog, hid, hphase.mpr, ?_⟩
  rw [hcalls, if_neg fun h => h.1 (hphase.mp h.2)]

/-- Closing calls `on_close_` once, and only where the connection was open; the
callback is taken out before it is called. -/
theorem close_released (self : TcpConnection H) (harmed : self.on_close_ = true ↔ self.phase_ ≠ .closed) :
    (∃ effects, Released self self.close effects) ∧
      (self.close.on_close_ = true ↔ self.close.phase_ ≠ .closed) := by
  by_cases hclosed : self.phase_ = .closed
  · rw [close, if_pos hclosed]
    exact ⟨⟨[], .refl self⟩, harmed⟩
  · have hcallback := harmed.mpr hclosed
    rw [close, if_neg hclosed, hcallback]
    refine ⟨⟨[.on_close self.id_], rfl, rfl, fun h => absurd h hclosed, ?_⟩, by simp⟩
    rw [if_pos ⟨hclosed, rfl⟩]
    rfl

/-- A turn of the loop calls nothing and leaves the connection open. -/
theorem Turn.released {self after : TcpConnection H} (h : Turn self after) :
    after.phase_ ≠ .closed ∧ after.on_close_ = self.on_close_ ∧ after.id_ = self.id_ ∧
      ∃ effects, after.log = self.log ++ effects ∧ closedIds effects = [] := by
  cases h with
  | answers before block seen response hkept hlog =>
    have hwritten := before.write_log
    rw [hlog, List.append_assoc] at hwritten
    exact ⟨by simp [write], hkept.on_close, hkept.id, _, hwritten, rfl⟩
  | fails before status hkept hlog =>
    have hwritten := before.write_log
    rw [hlog, List.append_assoc] at hwritten
    exact ⟨by simp [write], hkept.on_close, hkept.id, _, hwritten, rfl⟩
  | reads before hkept hlog =>
    have hstarted := before.async_read_some_log
    rw [hlog] at hstarted
    exact ⟨hkept.running, hkept.on_close, hkept.id, _, hstarted, rfl⟩

/-- A stop calls it only where it closes. -/
theorem stop_released {self : TcpConnection H} (harmed : self.on_close_ = true ↔ self.phase_ ≠ .closed)
    (force : Bool) : (∃ effects, Released self (self.stop force) effects) ∧
      ((self.stop force).on_close_ = true ↔ (self.stop force).phase_ ≠ .closed) := by
  obtain ⟨_, heq⟩ | ⟨_, _, heq⟩ := self.stop_cases force
  · rw [heq]
    have hdraining : Released self { self with draining_ := true } [] :=
      .of_open (List.append_nil _).symm rfl Iff.rfl rfl
    obtain ⟨⟨effects, hreleased⟩, harmed'⟩ :=
      close_released { self with draining_ := true } harmed
    exact ⟨⟨_, hdraining.trans hreleased⟩, harmed'⟩
  · rw [heq]
    exact ⟨⟨[], .of_open (List.append_nil _).symm rfl Iff.rfl rfl⟩, harmed⟩

/-- A forced stop closes in every phase. -/
theorem stop_true_closed (self : TcpConnection H) : (self.stop true).phase_ = .closed := by
  obtain ⟨_, heq⟩ | ⟨hforce, _⟩ := self.stop_cases true
  · rw [heq, close_frame]
  · cases hforce

/-- A connection keeps its callback until it has closed. -/
theorem Armed.stop {self : TcpConnection H} (h : self.Armed) (force : Bool) :
    (self.stop force).Armed ∧ ∃ effects, Released self (self.stop force) effects :=
  ⟨⟨stop_regular h.regular force, (stop_released h.on_close force).2⟩, (stop_released h.on_close force).1⟩

/-- Every step that closes a connection calls `on_close_`, and no other step does. The
callback is there exactly while the connection is open. -/
theorem Armed.step {self after : TcpConnection H} {label : Label H} (h : self.Armed)
    (hstep : self.Step label after) : after.Armed ∧ ∃ effects, Released self after effects := by
  have hregular := h.regular.step hstep
  cases h.regular.advance hstep with
  | stopped force => exact h.stop force
  | ignored mem operation pending hphase =>
    exact ⟨⟨hregular, h.on_close⟩, [], .of_open (List.append_nil _).symm rfl Iff.rfl rfl⟩
  | closed header_payload_ body_payload_ owned_body_storage_ =>
    obtain ⟨⟨effects, hreleased⟩, harmed⟩ := close_released { self with
      pending := [], header_payload_, body_payload_, owned_body_storage_ } h.on_close
    exact ⟨⟨hregular, harmed⟩, effects, hreleased.log, hreleased.id, hreleased.closed, hreleased.calls⟩
  | turned base _ hcompletion hturn =>
    obtain ⟨hopen, hon_close, hid, effects, hlog, hcalls⟩ := hturn.released
    have hbefore : self.phase_ ≠ .closed := by
      obtain ⟨_, _, hphase⟩ | ⟨_, hphase, _⟩ := hcompletion.event
      · exact open_of_reading hphase
      · simp [hphase]
    refine ⟨⟨hregular, ?_⟩, effects, .of_open ?_ (hid.trans hcompletion.kept.id) ?_ hcalls⟩
    · rw [hon_close, hcompletion.kept.on_close, h.on_close]
      exact iff_of_true hbefore hopen
    · rw [hlog, hcompletion.log]
    · exact iff_of_false hopen hbefore

/-- A connection that has just been started is open, and has called nothing. -/
theorem start_armed {env : Environment H} {dispatcher_ : core.RequestDispatcher H} {limits_ : HttpLimits}
    {id_ : Nat} {first : TcpConnection H}
    (hstart : ({ dispatcher_, limits_, id_ } : TcpConnection H).start env = .ok first) :
    first.Armed ∧ first.phase_ ≠ .closed ∧ first.id_ = id_ ∧ closedIds first.log = [] := by
  obtain ⟨hopen, hon_close, hid, effects, hlog, hcalls⟩ := (start_turn hstart).released
  rw [start_eq env dispatcher_ limits_ id_] at hstart
  have hregular := (accepted_ready dispatcher_ limits_ id_).process_input hstart
  refine ⟨⟨hregular, iff_of_true hon_close hopen⟩, hopen, hid, ?_⟩
  rw [hlog]
  exact hcalls

end TcpConnection

end octane.transport
