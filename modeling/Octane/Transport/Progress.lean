import Octane.Transport.Framing
import Octane.Transport.Turn

open search transition

namespace octane.transport.TcpConnection

variable {H : Type}

/-- A connection that has closed waits for nothing; so it is as long as nothing stops it. -/
def Settled (conn : TcpConnection H) : Prop := conn.phase_ = .closed → conn.pending = []

theorem answers_append (log effects : List Effect) :
    answers (log ++ effects) = answers log ++ answers effects := List.filterMap_append

/-- Closing answers nothing. -/
theorem close_answers (self : TcpConnection H) : answers self.close.log = answers self.log := by
  rw [close]
  split_ifs <;> simp [answers]

/-- A turn that ends in an operation has not closed. -/
theorem Turn.settled {base after : TcpConnection H} (h : Turn base after) : after.Settled := by
  intro hclosed
  cases h with
  | answers => cases hclosed
  | fails => cases hclosed
  | reads before hkept => exact absurd hclosed hkept.running

/-- A turn answers once and writes, or answers nothing and reads. -/
theorem Turn.answers_length {base after : TcpConnection H} (h : Turn base after) :
    (after.phase_ = .writing ∧
        (TcpConnection.answers after.log).length = (TcpConnection.answers base.log).length + 1) ∨
      (after.phase_ ≠ .writing ∧ TcpConnection.answers after.log = TcpConnection.answers base.log) := by
  cases h with
  | answers before block seen response _ hlog =>
    refine .inl ⟨rfl, ?_⟩
    rw [write_log, answers_append, hlog, answers_append]
    simp [TcpConnection.answers]
  | fails before status _ hlog =>
    refine .inl ⟨rfl, ?_⟩
    rw [write_log, answers_append, hlog, answers_append]
    simp [TcpConnection.answers]
  | reads before _ hlog _ hphase =>
    refine .inr ⟨fun hwriting => ?_, ?_⟩
    · have hbefore : before.phase_ = .writing := hwriting
      simp [hbefore] at hphase
    · rw [async_read_some_log, answers_append, hlog]
      simp [TcpConnection.answers]

/-- Without a stop, a connection closes only in the handler of its one operation, so
that none is left. -/
theorem Settled.step {self after : TcpConnection H} {label : Label H} (h : self.Settled) (hself : self.Regular)
    (hlabel : ∀ force, label.event ≠ .stop force) (hstep : self.Step label after) : after.Settled := by
  cases hself.advance hstep with
  | stopped force hevent => exact absurd hevent (hlabel force)
  | ignored mem operation pending hphase _ hpending =>
    rw [h hphase] at hpending
    cases hpending
  | closed =>
    intro _
    rw [close_frame]
  | turned base _ _ hturn => exact hturn.settled

/-- A write that completes is followed by the next answer, or there is none to give:
what is in the buffer is looked at before anything is read. -/
theorem written_step {self after : TcpConnection H} {label : Label H} (hself : self.Regular)
    (hsettled : self.Settled) (hevent : label.event = .written) (hstep : self.Step label after) :
    self.phase_ = .writing ∧
      ((after.phase_ = .writing ∧ (answers after.log).length = (answers self.log).length + 1) ∨
        (after.phase_ ≠ .writing ∧ answers after.log = answers self.log)) := by
  cases hself.advance hstep with
  | stopped force hstop =>
    rw [hevent] at hstop
    cases hstop
  | ignored mem operation pending hphase _ hpending =>
    rw [hsettled hphase] at hpending
    cases hpending
  | closed header_payload_ body_payload_ owned_body_storage_ _ hwhy =>
    rw [hevent] at hwhy
    obtain hother | hother | ⟨_, hphase, _⟩ := hwhy
    · cases hother
    · cases hother
    · refine ⟨hphase, .inr ⟨?_, close_answers _⟩⟩
      rw [close_frame]
      simp
  | turned base _ hcompletion hturn =>
    obtain ⟨_, hread, _⟩ | ⟨_, hphase, _⟩ := hcompletion.event
    · rw [hevent] at hread
      cases hread
    · rw [← hcompletion.log]
      exact ⟨hphase, hturn.answers_length⟩

/-- However many writes complete one after the other, each but the last has been one
of an answer that was owed. -/
theorem written_run {first final : TcpConnection H} {written : List (Label H)} (hregular : first.Regular)
    (hsettled : first.Settled) (hwritten : ∀ label ∈ written, label.event = .written)
    (hrun : Run Step first written final) :
    written.length + (answers first.log).length ≤
      (answers final.log).length + if final.phase_ = .writing then 0 else 1 := by
  have hinvariant := hrun.invariant (fun labels conn => (∀ label ∈ labels, label.event = .written) →
    conn.Regular ∧ conn.Settled ∧ labels.length + (answers first.log).length ≤
      (answers conn.log).length + if conn.phase_ = .writing then 0 else 1) ?_ ?_
  · exact (hinvariant hwritten).2.2
  · intro _
    exact ⟨hregular, hsettled, by simp⟩
  · intro labels before label after ih hstep hall
    obtain ⟨hbefore, hquiet, hcount⟩ := ih fun label hlabel => hall label (List.mem_append_left _ hlabel)
    have hevent := hall label (List.mem_append_right _ (List.mem_singleton_self label))
    have hgoing : ∀ force, label.event ≠ .stop force := fun force hstop => by
      rw [hevent] at hstop
      cases hstop
    obtain ⟨hphase, hnext⟩ := written_step hbefore hquiet hevent hstep
    refine ⟨hbefore.step hstep, hquiet.step hbefore hgoing hstep, ?_⟩
    rw [if_pos hphase] at hcount
    rw [List.length_append, List.length_singleton]
    obtain ⟨hwriting, hlength⟩ | ⟨hdone, hsame⟩ := hnext
    · rw [if_pos hwriting, hlength]
      omega
    · rw [if_neg hdone, hsame]
      omega

theorem settled_of_run {env : Environment H} {dispatcher_ : core.RequestDispatcher H} {limits_ : HttpLimits}
    {id_ : Nat} {first final : TcpConnection H} {labels : List (Label H)}
    (hstart : ({ dispatcher_, limits_, id_ } : TcpConnection H).start env = .ok first)
    (hrun : Run Step first labels final) (hlabels : ∀ label ∈ labels, label.event.completes) :
    final.Settled := by
  refine (hrun.invariant (fun labels conn => (∀ label ∈ labels, label.event.completes) →
    conn.Regular ∧ conn.Settled)
    (fun _ => ⟨regular_of_run hstart .nil, (start_turn hstart).settled⟩) ?_ hlabels).2
  intro labels before label after ih hstep hall
  obtain ⟨hbefore, hquiet⟩ := ih fun label hlabel => hall label (List.mem_append_left _ hlabel)
  have hcompletes := hall label (List.mem_append_right _ (List.mem_singleton_self label))
  refine ⟨hbefore.step hstep, hquiet.step hbefore (fun force hstop => ?_) hstep⟩
  rw [hstop] at hcompletes
  exact hcompletes

/-- Completed writes bring no bytes. -/
theorem receivedBytes_written {labels written : List (Label H)}
    (hwritten : ∀ label ∈ written, label.event = .written) :
    receivedBytes (labels ++ written) = receivedBytes labels := by
  have hnothing : receivedBytes written = [] := by
    rw [receivedBytes, List.flatMap_eq_nil_iff]
    intro label hlabel
    rw [hwritten label hlabel]
    rfl
  rw [receivedBytes, List.flatMap_append]
  exact (congrArg (receivedBytes labels ++ ·) hnothing).trans (List.append_nil _)

/-- Whatever has arrived is answered without anything more arriving: while a response is
being written its completion leads on, and after at most as many completions as there
are answers to come, and one, all of them have been given. -/
theorem catches_up {env : Environment H} {dispatcher_ : core.RequestDispatcher H} {limits_ : HttpLimits}
    {id_ : Nat} {first final final' : TcpConnection H} {labels written : List (Label H)}
    (hvalid : limits_.validate = .ok ())
    (hstart : ({ dispatcher_, limits_, id_ } : TcpConnection H).start env = .ok first)
    (hrun : Run Step first labels final) (hlabels : ∀ label ∈ labels, label.event.completes)
    (hcontinued : Run Step final written final') (hwritten : ∀ label ∈ written, label.event = .written) :
    written.length + (answers final.log).length ≤ (frame limits_ 0 (receivedBytes labels)).length + 1 ∧
      (final'.phase_ = .writing → ∀ env, Behaved env → ∃ after, final'.Step ⟨.written, env⟩ after) ∧
      (final'.phase_ ≠ .writing → answers final'.log = frame limits_ 0 (receivedBytes labels)) := by
  have hall : ∀ label ∈ labels ++ written, label.event.completes := by
    intro label hlabel
    refine (List.mem_append.mp hlabel).elim (hlabels label) fun hlater => ?_
    rw [hwritten label hlater]
    trivial
  have hregular := regular_of_run hstart hrun
  have hframed := framed_of_run hvalid hstart (hrun.append hcontinued) hall
  rw [receivedBytes_written hwritten] at hframed
  refine ⟨?_, fun hphase env henv => ?_, fun hdone => ?_⟩
  · have hcount := written_run hregular (settled_of_run hstart hrun hlabels) hwritten hcontinued
    have hsome := congrArg List.length (hframed.stream [])
    rw [List.append_nil, List.length_append] at hsome
    split_ifs at hcount <;> omega
  · have hpending := hframed.regular.writing hphase
    obtain ⟨after, hafter⟩ := on_write_ok henv hframed.regular hpending
    refine ⟨after, ?_⟩
    rw [Step, TcpConnection.step, hpending]
    exact congrArg some hafter
  · exact hframed.answers_eq hdone (List.prefix_refl _) fun _ => rfl

theorem catches_up_home :
    ∃ final final', Run Step (async_read_some { dispatcher_ := homePage, limits_ := .defaults })
        [⟨.read (homeRequest ++ homeRequest), answering greeting⟩] final ∧
      Run Step final [⟨.written, answering greeting⟩, ⟨.written, answering greeting⟩] final' ∧
      answers final'.log = frame .defaults 0 (homeRequest ++ homeRequest) := by
  have hstart := start_reading (answering greeting) homePage .defaults (by decide)
  obtain ⟨final, hrun, hchecked⟩ := exists_run_of_check
    (async_read_some { dispatcher_ := homePage, limits_ := .defaults })
    [⟨.read (homeRequest ++ homeRequest), answering greeting⟩]
    (fun final => (final.steps [⟨.written, answering greeting⟩, ⟨.written, answering greeting⟩]).map
      (·.map fun final' => decide (final'.phase_ ≠ .writing)) = some (.ok true)) (by decide +kernel)
  obtain ⟨final', hcontinued, hdone⟩ := exists_run_of_check final
    [⟨.written, answering greeting⟩, ⟨.written, answering greeting⟩]
    (fun final' => final'.phase_ ≠ .writing) hchecked
  have hbytes : receivedBytes [(⟨.read (homeRequest ++ homeRequest), answering greeting⟩ : Label Unit)] =
      homeRequest ++ homeRequest := List.append_nil _
  have hcaught := catches_up HttpLimits.validate_defaults hstart hrun (by simp [Event.completes])
    hcontinued (by simp)
  rw [hbytes] at hcaught
  exact ⟨final, final', hrun, hcontinued, hcaught.2.2 hdone⟩

end octane.transport.TcpConnection
