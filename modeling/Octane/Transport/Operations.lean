import Octane.Transport.Turn
import Octane.Transport.Response

open search transition

namespace octane.transport

def Effect.starts : Effect → Bool
  | .async_read_some _ => true
  | .async_write .. => true
  | _ => false

namespace TcpConnection

variable {H : Type}

/-- How many operations have been started. -/
def started (log : List Effect) : Nat := log.countP Effect.starts

/-- Operations that are started are counted along the log. -/
theorem started_append (log effects : List Effect) : started (log ++ effects) = started log + started effects :=
  List.countP_append

/-- An open connection waits for one operation, as its phase says; at most one is ever pending. -/
structure Waiting (conn : TcpConnection H) : Prop where
  reading : conn.phase_ = .headers ∨ conn.phase_ = .body → ∃ off room, conn.pending = [.read off room]
  writing : conn.phase_ = .writing → conn.pending = [.write]
  one : conn.pending.length ≤ 1

/-- What a step does about the operations. Either it starts none, and the pending
one keeps what it works on; or the pending one has completed, and the next one is
the last thing that the step does. -/
inductive Orderly (self : TcpConnection H) (label : Label H) : TcpConnection H → Prop where
  | quiet (after : TcpConnection H) (hstarted : started after.log = started self.log)
      (hpending : after.pending <:+ self.pending)
      (hreading : ∀ off room, .read off room ∈ after.pending → after.buffer_ = self.buffer_ ∧
        after.read_pos_ = self.read_pos_ ∧ after.write_pos_ = self.write_pos_)
      (hwriting : .write ∈ after.pending → after.header_payload_ = self.header_payload_ ∧
        after.body_payload_ = self.body_payload_ ∧
        after.owned_body_storage_ = self.owned_body_storage_) : Orderly self label after
  | reads (before : TcpConnection H) (operation : Operation) (hopen : self.phase_ ≠ .closed)
      (hcompleted : self.pending = [operation])
      (hevent : (∃ chunk, label.event = .read chunk) ∨ label.event = .written)
      (hbefore : before.phase_ ≠ .closed ∧ before.pending = [])
      (hstarted : started before.log = started self.log) : Orderly self label before.async_read_some
  | writes (before : TcpConnection H) (operation : Operation) (hopen : self.phase_ ≠ .closed)
      (hcompleted : self.pending = [operation])
      (hevent : (∃ chunk, label.event = .read chunk) ∨ label.event = .written)
      (hbefore : before.phase_ ≠ .closed ∧ before.pending = [])
      (hstarted : started before.log = started self.log) : Orderly self label before.write

/-- Between two callbacks there is one operation, or none where the connection has closed. -/
theorem Regular.waiting {self : TcpConnection H} (h : self.Regular) (hone : self.pending.length ≤ 1) :
    Waiting self :=
  ⟨fun hphase => ⟨_, _, h.reading hphase⟩, h.writing, hone⟩

/-- Closing starts none. -/
theorem close_started (self : TcpConnection H) : started self.close.log = started self.log := by
  rw [close]
  split_ifs
  · rfl
  · exact started_append self.log [.on_close self.id_]
  · exact congrArg started (List.append_nil _)

/-- A step that closes starts nothing and leaves the buffers of what is still
pending alone. -/
theorem close_orderly {self : TcpConnection H} {label : Label H} (before : TcpConnection H)
    (hbefore : started before.log = started self.log) (hpending : before.pending <:+ self.pending)
    (hreading : ∀ off room, .read off room ∈ before.pending → before.buffer_ = self.buffer_ ∧
      before.read_pos_ = self.read_pos_ ∧ before.write_pos_ = self.write_pos_)
    (hwriting : .write ∈ before.pending → before.header_payload_ = self.header_payload_ ∧
      before.body_payload_ = self.body_payload_ ∧
      before.owned_body_storage_ = self.owned_body_storage_) : Orderly self label before.close := by
  have hstarted := (close_started before).trans hbefore
  rw [close_frame] at hstarted ⊢
  exact .quiet _ hstarted hpending hreading hwriting

/-- What a turn starts follows the operation that has completed. -/
theorem Turn.orderly {self base after : TcpConnection H} {label : Label H} (hself : self.Regular)
    (hcompletion : Completion self label base) (h : Turn base after) : Orderly self label after := by
  have hevent : (∃ chunk, label.event = .read chunk) ∨ label.event = .written :=
    hcompletion.event.imp (fun ⟨chunk, hread, _⟩ => ⟨chunk, hread⟩) And.left
  obtain ⟨operation, hopen, hpending⟩ : ∃ operation, self.phase_ ≠ .closed ∧ self.pending = [operation] := by
    obtain ⟨_, _, hphase⟩ | ⟨_, hphase, _⟩ := hcompletion.event
    · exact ⟨_, open_of_reading hphase, hself.reading hphase⟩
    · exact ⟨_, by simp [hphase], hself.writing hphase⟩
  cases h with
  | answers before block seen response hkept hlog =>
    refine .writes before operation hopen hpending hevent ⟨hkept.running, hkept.pending⟩ ?_
    rw [hlog, started_append, hcompletion.log]
    rfl
  | fails before status hkept hlog =>
    refine .writes before operation hopen hpending hevent ⟨hkept.running, hkept.pending⟩ ?_
    rw [hlog, started_append, hcompletion.log]
    rfl
  | reads before hkept hlog =>
    refine .reads before operation hopen hpending hevent ⟨hkept.running, hkept.pending⟩ ?_
    rw [hlog, hcompletion.log]

/-- Every way to go on starts at most one operation, and only when none is pending;
what the pending one uses stays in place until it completes. -/
theorem Advance.orderly {self after : TcpConnection H} {label : Label H} (hself : self.Regular)
    (hone : self.pending.length ≤ 1) (h : Advance self label after) : Orderly self label after := by
  cases h with
  | stopped force =>
    obtain ⟨_, heq⟩ | ⟨_, _, heq⟩ := self.stop_cases force
    · rw [heq]
      exact close_orderly _ rfl List.suffix_rfl (fun _ _ _ => ⟨rfl, rfl, rfl⟩) fun _ => ⟨rfl, rfl, rfl⟩
    · rw [heq]
      exact .quiet _ rfl List.suffix_rfl (fun _ _ _ => ⟨rfl, rfl, rfl⟩) fun _ => ⟨rfl, rfl, rfl⟩
  | ignored mem operation pending _ _ hpending =>
    have hnone : pending = [] := by simpa [hpending] using hone
    have hempty : ∀ other : Operation, other ∉ pending := by simp [hnone]
    refine .quiet _ rfl ?_ (fun _ _ hmem => absurd hmem (hempty _)) fun hmem => absurd hmem (hempty _)
    rw [hpending]
    exact List.suffix_cons operation pending
  | closed header body owned =>
    exact close_orderly _ rfl (List.nil_suffix) (fun _ _ hmem => by cases hmem) fun hmem => by cases hmem
  | turned base _ hcompletion hturn => exact hturn.orderly hself hcompletion

/-- At most one operation is pending after a step, too. -/
theorem Orderly.one {self after : TcpConnection H} {label : Label H} (h : Orderly self label after)
    (hone : self.pending.length ≤ 1) : after.pending.length ≤ 1 := by
  cases h with
  | quiet _ _ hpending => exact hpending.length_le.trans hone
  | reads before _ _ _ _ hbefore => simp [async_read_some, hbefore.2]
  | writes before _ _ _ _ hbefore => simp [write, hbefore.2]

/-- Starting a connection starts one operation, last. -/
theorem start_operation {env : Environment H} {dispatcher_ : core.RequestDispatcher H} {limits_ : HttpLimits}
    {id_ : Nat} {first : TcpConnection H}
    (hstart : ({ dispatcher_, limits_, id_ } : TcpConnection H).start env = .ok first) :
    ∃ before : TcpConnection H, before.phase_ ≠ .closed ∧ before.pending = [] ∧ started before.log = 0 ∧
      (first = before.async_read_some ∨ first = before.write) := by
  cases start_turn hstart with
  | answers before block seen response hkept hlog =>
    exact ⟨before, hkept.running, hkept.pending, by rw [hlog]; rfl, .inr rfl⟩
  | fails before status hkept hlog =>
    exact ⟨before, hkept.running, hkept.pending, by rw [hlog]; rfl, .inr rfl⟩
  | reads before hkept hlog =>
    exact ⟨before, hkept.running, hkept.pending, by rw [hlog]; rfl, .inl rfl⟩

/-- An open connection always waits for one operation; none is started while
another is pending, and none is disturbed. -/
theorem one_operation_pending {env : Environment H} {dispatcher_ : core.RequestDispatcher H}
    {limits_ : HttpLimits} {first final : TcpConnection H} {labels : List (Label H)}
    (hstart : ({ dispatcher_, limits_ } : TcpConnection H).start env = .ok first)
    (hrun : Run Step first labels final) :
    (∃ before : TcpConnection H, before.phase_ ≠ .closed ∧ before.pending = [] ∧ started before.log = 0 ∧
      (first = before.async_read_some ∨ first = before.write)) ∧
      Waiting final ∧ ∀ label after, final.Step label after → Orderly final label after := by
  have hbegin := start_operation hstart
  have hregular := regular_of_run hstart .nil
  have hone : first.pending.length ≤ 1 := by
    obtain ⟨before, _, hpending, _, rfl | rfl⟩ := hbegin
    · simp [async_read_some, hpending]
    · simp [write, hpending]
  obtain ⟨hfinal, hlast⟩ := hrun.invariant
    (fun _ conn => conn.Regular ∧ conn.pending.length ≤ 1) ⟨hregular, hone⟩
    fun _ before label after hbefore hstep =>
      ⟨hbefore.1.step hstep, ((hbefore.1.advance hstep).orderly hbefore.1 hbefore.2).one hbefore.2⟩
  exact ⟨hbegin, hfinal.waiting hlast, fun label after hstep => (hfinal.advance hstep).orderly hfinal hlast⟩

theorem one_operation_pending_home :
    ∃ final, Run Step (async_read_some { dispatcher_ := homePage, limits_ := .defaults })
        [⟨.read homeRequest, answering greeting⟩] final ∧ final.pending = [.write] := by
  have hstart := start_reading (answering greeting) homePage .defaults (by decide)
  obtain ⟨final, hrun, hphase⟩ := exists_run_of_check
    (async_read_some { dispatcher_ := homePage, limits_ := .defaults })
    [⟨.read homeRequest, answering greeting⟩] (fun final => final.phase_ = .writing) (by decide +kernel)
  exact ⟨final, hrun, (one_operation_pending hstart hrun).2.1.writing hphase⟩

end TcpConnection

end octane.transport
