import Octane.Transport.Framing
import Octane.Transport.Turn

open search transition

namespace octane.transport

namespace Effect

def dispatches : Effect → Bool
  | .dispatch_response .. => true
  | _ => false

/-- A request is dispatched or refused, or something is written. -/
def speaks : Effect → Bool
  | .dispatch_response .. => true
  | .fail _ => true
  | .async_write .. => true
  | _ => false

/-- A response is written that announces the close. -/
def closes : Effect → Prop
  | .async_write header _ => HttpResponse.announced header = some (ascii "close")
  | _ => False

/-- What neither dispatches nor writes closes nothing. -/
theorem not_closes_of_quiet {effect : Effect} (h : effect.speaks = false) : ¬ effect.closes := by
  cases effect <;> simp_all [speaks, closes]

end Effect

namespace TcpConnection

variable {H : Type}

/-- How many requests have been dispatched. -/
def dispatched (log : List Effect) : Nat := log.countP Effect.dispatches

/-- Dispatches are counted along the log. -/
theorem dispatched_append (log effects : List Effect) :
    dispatched (log ++ effects) = dispatched log + dispatched effects := List.countP_append

theorem writes_append (log effects : List Effect) : writes (log ++ effects) = writes log ++ writes effects :=
  List.filterMap_append

theorem dispatched_quiet {effects : List Effect} (h : ∀ effect ∈ effects, effect.speaks = false) :
    dispatched effects = 0 := by
  rw [dispatched, List.countP_eq_zero]
  intro effect heffect
  have hquiet := h effect heffect
  cases effect <;> simp_all [Effect.speaks, Effect.dispatches]

theorem writes_quiet {effects : List Effect} (h : ∀ effect ∈ effects, effect.speaks = false) :
    writes effects = [] := by
  rw [writes, List.filterMap_eq_nil_iff]
  intro effect heffect
  have hquiet := h effect heffect
  cases effect <;> simp_all [Effect.speaks]

/-- The server has asked the connection to stop. -/
def StopRequested (labels : List (Label H)) : Prop := ∃ label ∈ labels, ∃ force, label.event = .stop force

/-- A stop has been requested before this label or by it. -/
theorem stopRequested_snoc (labels : List (Label H)) (label : Label H) :
    StopRequested (labels ++ [label]) ↔ StopRequested labels ∨ ∃ force, label.event = .stop force := by
  simp only [StopRequested, List.mem_append, List.mem_singleton, or_and_right, exists_or, exists_eq_left]

/-- The connection closes once what it is writing has been written, if it has not closed. -/
def finished (conn : TcpConnection H) : Prop :=
  conn.phase_ = .closed ∨ (conn.phase_ = .writing ∧ conn.close_after_write_ = true)

/-- The close token of a response. -/
def token (close : Bool) : Bytes := ascii (if close then "close" else "keep-alive")

theorem token_eq_close_iff {close : Bool} : token close = ascii "close" ↔ close = true := by
  cases close <;> decide

/-- What the history of a connection says about its end, after these labels. -/
structure Persistent (limits_ : HttpLimits) (labels : List (Label H)) (conn : TcpConnection H) : Prop where
  regular : conn.Regular
  limits : conn.limits_ = limits_
  draining : conn.draining_ = true ↔ StopRequested labels
  bounded : dispatched conn.log ≤ limits_.max_requests_per_connection
  counted : ¬ conn.finished → conn.requests_ = dispatched conn.log ∧
    dispatched conn.log < limits_.max_requests_per_connection
  last : conn.phase_ = .writing → ∃ header body, (writes conn.log).getLast? = some (header, body) ∧
    HttpResponse.announced header = some (token conn.close_after_write_)
  silent : conn.log.Pairwise fun earlier later => earlier.closes → later.speaks = false
  ended : ∀ effect ∈ conn.log, effect.closes → conn.finished

/-- A step that answers nothing keeps to what has been announced, since neither the
count nor the close decision has changed. -/
theorem Persistent.quiet {limits_ : HttpLimits} {labels labels' : List (Label H)}
    {self after : TcpConnection H} (h : Persistent limits_ labels self) (hregular : after.Regular)
    (hlimits : after.limits_ = self.limits_) (hdraining : after.draining_ = true ↔ StopRequested labels')
    (hquiet : ∃ effects, after.log = self.log ++ effects ∧ ∀ effect ∈ effects, effect.speaks = false)
    (hgoing : ¬ after.finished → ¬ self.finished ∧ after.requests_ = self.requests_)
    (hwriting : after.phase_ = .writing →
      self.phase_ = .writing ∧ after.close_after_write_ = self.close_after_write_) :
    Persistent limits_ labels' after := by
  obtain ⟨effects, hlog, hquiet⟩ := hquiet
  have hsame : dispatched after.log = dispatched self.log := by
    rw [hlog, dispatched_append, dispatched_quiet hquiet, Nat.add_zero]
  refine ⟨hregular, hlimits.trans h.limits, hdraining, ?_, fun hopen => ?_, fun hphase => ?_, ?_, ?_⟩
  · rw [hsame]
    exact h.bounded
  · obtain ⟨hbefore, hcount⟩ := hgoing hopen
    rw [hsame, hcount]
    exact h.counted hbefore
  · obtain ⟨hbefore, hflag⟩ := hwriting hphase
    rw [hlog, writes_append, writes_quiet hquiet, List.append_nil, hflag]
    exact h.last hbefore
  · rw [hlog, List.pairwise_append]
    refine ⟨h.silent, List.pairwise_of_forall_mem_list fun earlier hearlier _ _ hcloses => ?_,
      fun _ _ later hlater _ => hquiet later hlater⟩
    exact absurd hcloses (Effect.not_closes_of_quiet (hquiet earlier hearlier))
  · intro effect heffect hcloses
    rw [hlog] at heffect
    obtain hold | hnew := List.mem_append.mp heffect
    · by_contra hopen
      exact (hgoing hopen).1 (h.ended effect hold hcloses)
    · exact absurd hcloses (Effect.not_closes_of_quiet (hquiet effect hnew))

/-- A step that writes one response announces what it then does: the close decision
that is serialized is the one it acts on. -/
theorem Persistent.spoken {limits_ : HttpLimits} {labels labels' : List (Label H)}
    {self before : TcpConnection H} {effect : Effect} (h : Persistent limits_ labels self)
    (hopen : ¬ self.finished) (hregular : before.write.Regular) (hkept : Kept self before)
    (hlabels : StopRequested labels' ↔ StopRequested labels) (hlog : before.log = self.log ++ [effect])
    (heffect : ¬ effect.closes)
    (hheader : HttpResponse.announced before.header_payload_ = some (token before.close_after_write_))
    (hcount : before.close_after_write_ = false →
      before.requests_ = dispatched before.log ∧ dispatched before.log < limits_.max_requests_per_connection) :
    Persistent limits_ labels' before.write := by
  have hnone : ∀ earlier ∈ self.log, ¬ earlier.closes := fun earlier hearlier hcloses =>
    hopen (h.ended earlier hearlier hcloses)
  have hdispatched : dispatched before.write.log = dispatched before.log := by
    rw [write_log, dispatched_append]
    rfl
  refine ⟨hregular, hkept.limits.trans h.limits, ?_, ?_, fun hgoing => ?_, fun _ => ?_, ?_, ?_⟩
  · rw [hlabels, ← h.draining, ← hkept.draining]
    rfl
  · have hone : dispatched [effect] ≤ 1 := List.countP_le_length
    have hless := (h.counted hopen).2
    rw [hdispatched, hlog, dispatched_append]
    omega
  · rw [hdispatched]
    exact hcount (Bool.eq_false_of_not_eq_true fun hflag => hgoing (.inr ⟨rfl, hflag⟩))
  · refine ⟨before.header_payload_, before.body_payload_, ?_, hheader⟩
    rw [write_log, writes_append]
    exact List.getLast?_concat
  · rw [write_log, hlog, List.append_assoc, List.pairwise_append]
    refine ⟨h.silent, ?_, fun earlier hearlier _ _ hcloses => absurd hcloses (hnone earlier hearlier)⟩
    simp [heffect]
  · intro other hother hcloses
    rw [write_log, hlog, List.append_assoc] at hother
    obtain hold | hnew := List.mem_append.mp hother
    · exact absurd hcloses (hnone other hold)
    · obtain rfl | hwritten := List.mem_cons.mp hnew
      · exact absurd hcloses heffect
      · rw [List.mem_singleton.mp hwritten, Effect.closes, hheader] at hcloses
        exact .inr ⟨rfl, token_eq_close_iff.mp (Option.some.inj hcloses)⟩

/-- A connection that closes says nothing more. -/
theorem close_quiet (self : TcpConnection H) :
    self.close.phase_ = .closed ∧ self.close.limits_ = self.limits_ ∧ self.close.draining_ = self.draining_ ∧
      ∃ effects, self.close.log = self.log ++ effects ∧ ∀ effect ∈ effects, effect.speaks = false := by
  obtain ⟨effects, hlog, hcalls⟩ := self.close_log
  refine ⟨by rw [close_frame], by rw [close_frame], by rw [close_frame], effects, hlog, ?_⟩
  intro effect heffect
  obtain ⟨id, rfl⟩ := hcalls effect heffect
  rfl

/-- Closing keeps the invariant: it adds nothing that is announced or counted. -/
theorem Persistent.closed {limits_ : HttpLimits} {labels labels' : List (Label H)} {self : TcpConnection H}
    (h : Persistent limits_ labels self) {before : TcpConnection H} (hregular : before.close.Regular)
    (hlimits : before.limits_ = self.limits_) (hdraining : before.draining_ = true ↔ StopRequested labels')
    (hlog : before.log = self.log) : Persistent limits_ labels' before.close := by
  obtain ⟨hphase, hlimits', hdraining', hquiet⟩ := before.close_quiet
  rw [hlog] at hquiet
  refine h.quiet hregular (hlimits'.trans hlimits) ?_ hquiet (fun hopen => ?_) fun hwriting => ?_
  · rw [hdraining']
    exact hdraining
  · exact absurd (.inl hphase) hopen
  · rw [hphase] at hwriting
    cases hwriting

/-- The close decision of a connection that counts its requests. -/
theorem Persistent.closes_iff {limits_ : HttpLimits} {labels : List (Label H)} {self : TcpConnection H}
    (h : Persistent limits_ labels self) (hopen : ¬ self.finished) (seen : HttpRequest) :
    (self.draining_ || !seen.keep_alive ||
        decide (self.limits_.max_requests_per_connection ≤ self.requests_ + 1)) = true ↔
      seen.keep_alive = false ∨ dispatched self.log + 1 = limits_.max_requests_per_connection ∨
        StopRequested labels := by
  obtain ⟨hcount, hless⟩ := h.counted hopen
  have hlast : limits_.max_requests_per_connection ≤ dispatched self.log + 1 ↔
      dispatched self.log + 1 = limits_.max_requests_per_connection := by omega
  rw [Bool.or_eq_true, Bool.or_eq_true, h.draining, Bool.not_eq_true', decide_eq_true_iff, h.limits, hcount,
    hlast]
  tauto

/-- A connection that goes on is not finished. -/
theorem Completion.open {self base : TcpConnection H} {label : Label H} (h : Completion self label base) :
    ¬ self.finished := by
  rintro (hclosed | ⟨hwriting, hclose⟩)
  · obtain ⟨_, _, hphase⟩ | ⟨_, hphase, _⟩ := h.event
    · exact open_of_reading hphase hclosed
    · rw [hphase] at hclosed
      cases hclosed
  · obtain ⟨_, _, hphase⟩ | ⟨_, _, hopen, _⟩ := h.event
    · rw [hwriting] at hphase
      obtain hphase | hphase := hphase <;> cases hphase
    · rw [hclose] at hopen
      cases hopen

theorem Completion.not_stop {self base : TcpConnection H} {label : Label H} (h : Completion self label base) :
    ¬ ∃ force, label.event = .stop force := by
  rintro ⟨force, hstop⟩
  obtain ⟨chunk, hevent, _⟩ | ⟨hevent, _⟩ := h.event <;> rw [hevent] at hstop <;> cases hstop

/-- What a turn answers is announced by what it writes. -/
theorem Persistent.turn {limits_ : HttpLimits} {labels labels' : List (Label H)}
    {self after : TcpConnection H} (h : Persistent limits_ labels self) (hopen : ¬ self.finished)
    (hlabels : StopRequested labels' ↔ StopRequested labels) (hregular : after.Regular)
    (hturn : Turn self after) : Persistent limits_ labels' after := by
  obtain ⟨hrequests, hless⟩ := h.counted hopen
  cases hturn with
  | answers before block seen response hkept hlog hclose hcount hhead =>
    refine h.spoken hopen hregular hkept hlabels hlog id (HttpResponse.announced_serialize_headers hhead)
      fun hgo => ?_
    have hflag := hclose.symm.trans hgo
    have hone : dispatched [.dispatch_response block seen before.close_after_write_ response] = 1 := rfl
    rw [Bool.or_eq_false_iff, decide_eq_false_iff_not, h.limits] at hflag
    rw [hcount hgo, hlog, dispatched_append, hone]
    omega
  | fails before status hkept hlog hclose hhead =>
    rw [← hclose] at hhead
    refine h.spoken hopen hregular hkept hlabels hlog id (HttpResponse.announced_serialize_headers hhead)
      fun hgo => ?_
    rw [hclose] at hgo
    cases hgo
  | reads before hkept hlog hcount hphase =>
    have hreading : before.async_read_some.phase_ = .headers ∨ before.async_read_some.phase_ = .body := hphase
    refine h.quiet hregular hkept.limits ?_ ⟨_, congrArg (· ++ _) hlog, ?_⟩ (fun _ => ⟨hopen, hcount⟩)
      fun hwriting => ?_
    · rw [hlabels, ← h.draining, ← hkept.draining]
      rfl
    · intro effect heffect
      rw [List.mem_singleton.mp heffect]
      rfl
    · rw [hwriting] at hreading
      obtain hreading | hreading := hreading <;> cases hreading

/-- A connection whose operation has completed has announced what it had before. -/
theorem Persistent.completion {limits_ : HttpLimits} {labels : List (Label H)}
    {self base after : TcpConnection H} {label : Label H} (h : Persistent limits_ labels self)
    (hcompletion : Completion self label base) (hregular : after.Regular) (hturn : Turn base after) :
    Persistent limits_ (labels ++ [label]) after := by
  have hlabels : StopRequested (labels ++ [label]) ↔ StopRequested labels := by
    rw [stopRequested_snoc]
    exact or_iff_left hcompletion.not_stop
  exact h.turn hcompletion.open hlabels hregular
    (hturn.of_kept hcompletion.kept hcompletion.log hcompletion.count)

/-- Every step keeps the bound on the requests, and announces the close exactly
where the connection is about to finish. -/
theorem Persistent.step {limits_ : HttpLimits} {labels : List (Label H)} {self after : TcpConnection H}
    {label : Label H} (h : Persistent limits_ labels self) (hstep : self.Step label after) :
    Persistent limits_ (labels ++ [label]) after := by
  have hregular := h.regular.step hstep
  have hstops := stopRequested_snoc labels label
  cases h.regular.advance hstep with
  | stopped force hevent =>
    have hrequested : true = true ↔ StopRequested (labels ++ [label]) :=
      ⟨fun _ => hstops.mpr (.inr ⟨force, hevent⟩), fun _ => rfl⟩
    obtain ⟨_, heq⟩ | ⟨_, _, heq⟩ := self.stop_cases force
    · rw [heq] at hregular ⊢
      exact h.closed hregular rfl hrequested rfl
    · rw [heq] at hregular ⊢
      exact h.quiet hregular rfl hrequested ⟨[], (List.append_nil _).symm, by simp⟩
        (fun hopen => ⟨hopen, rfl⟩) fun hwriting => ⟨hwriting, rfl⟩
  | ignored mem operation pending hphase hevent =>
    have hlabels := hstops.trans (or_iff_left hevent)
    exact h.quiet hregular rfl (h.draining.trans hlabels.symm) ⟨[], (List.append_nil _).symm, by simp⟩
      (fun hopen => ⟨hopen, rfl⟩) fun hwriting => ⟨hwriting, rfl⟩
  | closed header body owned hopen hevent =>
    have hnotStop : ¬ ∃ force, label.event = .stop force := by
      rintro ⟨force, hstop⟩
      rw [hstop] at hevent
      simp at hevent
    have hlabels := hstops.trans (or_iff_left hnotStop)
    exact h.closed hregular rfl (h.draining.trans hlabels.symm) rfl
  | turned base after hcompletion hturn => exact h.completion hcompletion hregular hturn

/-- A new connection has answered nothing yet. -/
theorem start_persistent {env : Environment H} {dispatcher_ : core.RequestDispatcher H} {limits_ : HttpLimits}
    {id_ : Nat} {first : TcpConnection H} (hvalid : limits_.validate = .ok ())
    (hstart : ({ dispatcher_, limits_, id_ } : TcpConnection H).start env = .ok first) :
    Persistent limits_ [] first := by
  obtain ⟨hheaders, _, _, hmax⟩ := HttpLimits.validate_ok hvalid
  have hregular : first.Regular := regular_of_run hstart .nil
  rw [start_reading env dispatcher_ limits_ (by omega) id_] at hstart
  cases hstart
  refine ⟨hregular, rfl, ?_, Nat.zero_le _, fun _ => ⟨rfl, hmax⟩, fun hwriting => (by cases hwriting),
    List.pairwise_singleton _ _, ?_⟩
  · simp [StopRequested, async_read_some]
  · intro effect heffect hcloses
    rw [List.mem_singleton.mp heffect] at hcloses
    exact hcloses.elim

/-- The response to this request is the last one on its connection. -/
def LastResponse (limits_ : HttpLimits) (labels : List (Label H)) (conn : TcpConnection H)
    (seen : HttpRequest) : Prop :=
  seen.keep_alive = false ∨ dispatched conn.log + 1 = limits_.max_requests_per_connection ∨
    StopRequested labels

/-- What a step writes: one response that says truly whether it is the last one,
a failure that says that it is, or nothing. -/
inductive Written (limits_ : HttpLimits) (labels : List (Label H)) (self after : TcpConnection H) : Prop where
  | keeping (block : Bytes) (seen : HttpRequest) (response : HttpResponse) (header body : Bytes)
      (hlog : after.log = self.log ++
        [.dispatch_response block seen false response, .async_write header body])
      (hkeeps : ¬ LastResponse limits_ labels self seen)
      (hannounced : HttpResponse.announced header = some (ascii "keep-alive"))
  | closing (block : Bytes) (seen : HttpRequest) (response : HttpResponse) (header body : Bytes)
      (hlog : after.log = self.log ++
        [.dispatch_response block seen true response, .async_write header body])
      (hlast : LastResponse limits_ labels self seen)
      (hannounced : HttpResponse.announced header = some (ascii "close"))
  | failure (status : Nat) (header body : Bytes)
      (hlog : after.log = self.log ++ [.fail status, .async_write header body])
      (hannounced : HttpResponse.announced header = some (ascii "close"))
  | nothing (effects : List Effect) (hlog : after.log = self.log ++ effects)
      (hquiet : ∀ effect ∈ effects, effect.speaks = false)

/-- What a turn writes is what the history of the connection calls for. -/
theorem Persistent.written {limits_ : HttpLimits} {labels : List (Label H)} {self after : TcpConnection H}
    (h : Persistent limits_ labels self) (hopen : ¬ self.finished) (hturn : Turn self after) :
    Written limits_ labels self after := by
  cases hturn with
  | answers before block seen response hkept hlog hclose hcount hhead =>
    have hannounced := HttpResponse.announced_serialize_headers hhead
    have hlast := h.closes_iff hopen seen
    rw [← hclose] at hlast
    cases hflag : before.close_after_write_ with
    | true =>
      rw [hflag] at hannounced hlog hlast
      refine .closing block seen response before.header_payload_ before.body_payload_ ?_ (hlast.mp rfl) hannounced
      rw [write_log, hlog, List.append_assoc]
      rfl
    | false =>
      rw [hflag] at hannounced hlog hlast
      refine .keeping block seen response before.header_payload_ before.body_payload_ ?_ (fun hreason => ?_) hannounced
      · rw [write_log, hlog, List.append_assoc]
        rfl
      · cases hlast.mpr hreason
  | fails before status hkept hlog hclose hhead =>
    refine .failure status before.header_payload_ before.body_payload_ ?_ (HttpResponse.announced_serialize_headers hhead)
    rw [write_log, hlog, List.append_assoc]
    rfl
  | reads before hkept hlog hcount hphase =>
    refine .nothing [.async_read_some (before.buffer_.size - before.write_pos_)] (congrArg (· ++ _) hlog) ?_
    intro effect heffect
    rw [List.mem_singleton.mp heffect]
    rfl

theorem Turn.open {self after : TcpConnection H} (h : Turn self after) : after.phase_ ≠ .closed := by
  cases h with
  | answers => simp [write]
  | fails => simp [write]
  | reads before _ _ _ hphase => exact open_of_reading (by exact hphase)

end TcpConnection

end octane.transport
