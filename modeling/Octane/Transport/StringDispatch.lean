import Octane.Transport.Readable

open search transition

namespace octane

namespace HttpResponse

/-- Heads that announce different things about the connection are different. -/
theorem headLines_ne (self : HttpResponse) (rest rest' : Bytes) :
    (self.headLines true).flatMap (· ++ CRLF) ++ CRLF ++ rest ≠
      (self.headLines false).flatMap (· ++ CRLF) ++ CRLF ++ rest' := by
  intro hsame
  simp only [headLines, generatedFields, List.map_append, List.flatMap_cons, List.flatMap_append,
    List.append_assoc, List.append_cancel_left_eq, List.map_cons, List.map_nil, List.flatMap_nil] at hsame
  have hfirst := congrArg (List.take 13) hsame
  rw [List.take_append_of_le_length (by decide), List.take_append_of_le_length (by decide)] at hfirst
  exact absurd hfirst (by decide)

/-- The head and the body of a response, one behind the other, are its whole
serialization where both announce the same about the connection, unless a body stands
behind the head of a status that has none. -/
theorem serialize_eq_append_iff {self : HttpResponse} {close : Bool} {header : Bytes}
    (hhead : self.serialize_headers close = .ok header) (other head : Bool) :
    self.serialize other head = .ok (header ++ if head then [] else self.active_body) ↔
      other = close ∧ (head = true ∨ self.bodiless = false ∨ self.active_body = []) := by
  obtain ⟨hstatus, rfl⟩ := serialize_headers_ok hhead
  rw [serialize_eq other head hstatus, Except.ok.injEq]
  by_cases hsame : other = close
  · subst hsame
    simp only [List.append_cancel_left_eq, sentBody, ← bodiless_iff, true_and]
    cases head with
    | true => simp
    | false =>
      cases hbodiless : self.bodiless with
      | true =>
        rw [if_pos (.inr rfl), if_neg Bool.false_ne_true, eq_comm]
        simp
      | false => simp
  · refine iff_of_false (fun hequal => ?_) fun h => hsame h.1
    cases other with
    | true =>
      obtain rfl : close = false := by simpa using Ne.symm hsame
      exact self.headLines_ne _ _ hequal
    | false =>
      obtain rfl : close = true := by simpa using Ne.symm hsame
      exact self.headLines_ne _ _ hequal.symm

end HttpResponse

namespace transport.TcpConnection

variable {H : Type} {dispatcher_ : core.RequestDispatcher H} {limits_ : HttpLimits} {labels : List (Label H)}

/-- The effect is one that something is written for. -/
def callsForWrite : Effect → Bool
  | .dispatch_response .. => true
  | .fail _ => true
  | _ => false

/-- What is written for an effect on the log. For a request it is what the dispatcher
returns as a string for the request that was dispatched, by the handlers as they
behave at the time; the two differ where the handler takes the keep-alive of the
request back, which only the string announces, and where a status that has no body
is given one, which only the connection writes. -/
def WrittenAs (dispatcher_ : core.RequestDispatcher H) (env : Environment H) (effect : Effect)
    (written : Bytes × Bytes) : Prop :=
  match effect with
  | .fail status => (failure status).serialize true = .ok (written.1 ++ written.2)
  | .dispatch_response _ seen close response =>
    let left := dispatcher_.dispatch_response env.call seen close
    left.2 = response ∧
      (close = !seen.keep_alive →
        dispatcher_.dispatch_to_string env.call seen = dispatcher_.dispatch_string env.call seen close) ∧
      (dispatcher_.dispatch_string env.call seen close = (left.1, .ok (written.1 ++ written.2)) ↔
        (close = true ∨ left.1.keep_alive = true) ∧
          (left.1.method = .HEAD ∨ response.bodiless = false ∨ response.active_body = []))
  | _ => False

/-- A callback writes one thing for each request that it dispatches and each failure. -/
def AsDispatched (dispatcher_ : core.RequestDispatcher H) (env : Environment H) (effects : List Effect) : Prop :=
  List.Forall₂ (WrittenAs dispatcher_ env) (effects.filter callsForWrite) (writes effects)

/-- A failure is written as the response of its status. -/
theorem failure_written {env : Environment H} {status : Nat}
    (hbody : (failure status).bodiless = false) {header : Bytes}
    (hhead : (failure status).serialize_headers true = .ok header) :
    AsDispatched dispatcher_ env [.fail status, .async_write header (failure status).body] :=
  .cons ((HttpResponse.serialize_eq_append_iff hhead true false).mpr ⟨rfl, .inr (.inl hbody)⟩) .nil

/-- No failure has a status without a body. -/
theorem failure_bodied {status : Nat} (hstatus : status ∈ HttpParser.parseFailures) :
    (failure status).bodiless = false := by
  cases hbodiless : (failure status).bodiless with
  | false => rfl
  | true =>
    have hempty : ascii "Request failed" = [] := (failure_sendable hstatus).body hbodiless
    exact absurd hempty (by decide)

/-- A complete request is written as it is dispatched. -/
theorem respond_written {env : Environment H} {self after : TcpConnection H} {total : Nat}
    (hrun : self.respond env total = .ok after) :
    ∃ effects, after.log = self.log ++ effects ∧ AsDispatched self.dispatcher_ env effects := by
  obtain ⟨header, _, hhead, rfl⟩ := respond_inv hrun
  refine ⟨_, rfl, .cons ⟨rfl, fun hsame => ?_, ?_⟩ .nil⟩
  · rw [core.RequestDispatcher.dispatch_to_string, hsame]
  · have hiff := HttpResponse.serialize_eq_append_iff hhead (!(self.exchange env).1.keep_alive || self.closing)
      ((self.exchange env).1.method = .HEAD)
    have hflag : (!(self.exchange env).1.keep_alive || self.closing) = self.closing ↔
        self.closing = true ∨ (self.exchange env).1.keep_alive = true := by
      cases self.closing <;> simp
    simp only [decide_eq_true_eq, hflag] at hiff
    simp only [core.RequestDispatcher.dispatch_string, payload, Prod.mk.injEq, true_and]
    exact hiff

/-- One callback on the input writes for what it has dispatched or refused, once
each, whichever way it ends. -/
theorem process_input_written {env : Environment H} {self after : TcpConnection H}
    (hrun : self.process_input env = .ok after) :
    ∃ effects, after.log = self.log ++ effects ∧ AsDispatched self.dispatcher_ env effects := by
  have houtcome := process_input_outcome env self
  generalize self.process_input env = result at hrun houtcome
  cases houtcome with
  | idle hphase =>
    cases hrun
    exact ⟨[], (List.append_nil _).symm, .nil⟩
  | oversized hphase =>
    cases hrun
    obtain ⟨header, hhead, heq⟩ := fail_eq self 431 (by simp [hphase]) (by decide)
    rw [heq]
    exact ⟨_, rfl, failure_written (failure_bodied (by decide)) hhead⟩
  | headless =>
    cases hrun
    obtain ⟨room, hlog⟩ := self.read_more_log
    exact ⟨_, hlog, .nil⟩
  | refused stop status hphase _ _ hstatus =>
    cases hrun
    obtain ⟨header, hhead, heq⟩ := fail_eq { self with header_size_ := stop + 4 } status (by simp [hphase])
      (supported_of_parseFailure hstatus)
    rw [heq]
    exact ⟨_, rfl, failure_written (failure_bodied hstatus) hhead⟩
  | displaced => cases hrun
  | awaits base hbase =>
    cases hrun
    obtain ⟨room, hlog⟩ := base.read_more_log
    rw [hbase.same.2.1] at hlog
    exact ⟨_, hlog, .nil⟩
  | complete base hbase =>
    obtain ⟨effects, hlog, hwritten⟩ := respond_written hrun
    have hbefore : base.withBody.log = self.log := hbase.same.2.1
    have hdispatcher : base.withBody.dispatcher_ = self.dispatcher_ := by
      rw [hbase.frame]
      rfl
    rw [hbefore] at hlog
    rw [hdispatcher] at hwritten
    exact ⟨effects, hlog, hwritten⟩

/-- A connection that closes writes nothing. -/
theorem close_written (dispatcher_ : core.RequestDispatcher H) (env : Environment H) (self : TcpConnection H) :
    ∃ effects, self.close.log = self.log ++ effects ∧ AsDispatched dispatcher_ env effects := by
  rw [TcpConnection.close]
  split_ifs
  · exact ⟨[], (List.append_nil _).symm, .nil⟩
  · exact ⟨_, rfl, .nil⟩
  · exact ⟨[], rfl, .nil⟩

/-- Each step writes as it dispatches. Only a turn of the loop dispatches or refuses,
and it starts the write itself. -/
theorem step_written {self after : TcpConnection H} {label : Label H} (hself : self.Regular)
    (hstep : self.Step label after) :
    ∃ effects, after.log = self.log ++ effects ∧ AsDispatched self.dispatcher_ label.env effects := by
  cases step_cases hself hstep with
  | stopped force =>
    obtain ⟨_, heq⟩ | ⟨_, _, heq⟩ := self.stop_cases force
    · rw [heq]
      exact close_written self.dispatcher_ label.env { self with draining_ := true }
    · rw [heq]
      exact ⟨[], (List.append_nil _).symm, .nil⟩
  | ignored => exact ⟨[], (List.append_nil _).symm, .nil⟩
  | closed before hbefore =>
    obtain ⟨effects, hlog, hwritten⟩ := close_written self.dispatcher_ label.env before
    rw [hbefore] at hlog ⊢
    exact ⟨effects, hlog, hwritten⟩
  | received chunk _ _ _ _ hrun =>
    obtain ⟨effects, hlog, hwritten⟩ := process_input_written hrun
    exact ⟨effects, hlog, hwritten⟩
  | processed _ _ _ _ hrun =>
    obtain ⟨effects, hlog, hwritten⟩ := process_input_written hrun
    exact ⟨effects, hlog, hwritten⟩
  | idle =>
    obtain ⟨room, hlog⟩ := self.resumed.read_more_log
    exact ⟨_, hlog, .nil⟩

/-- The effect is one that the callback with this label has put on the log of a run. -/
def LoggedBy (first : TcpConnection H) (labels : List (Label H)) (label : Label H) (effect : Effect) : Prop :=
  ∃ earlier before after, earlier ++ [label] <+: labels ∧ Run Step first earlier before ∧ before.Step label after ∧
    effect ∈ after.log.drop before.log.length

/-- Every dispatch on the log of a run is that of a callback, whose handlers have given
the response that is logged with it. -/
theorem dispatched_by {env : Environment H} {id_ : Nat} {first final : TcpConnection H}
    (hvalid : limits_.validate = .ok ())
    (hstart : ({ dispatcher_, limits_, id_ } : TcpConnection H).start env = .ok first)
    (hrun : Run Step first labels final) {block : Bytes} {seen : HttpRequest} {close : Bool}
    {response : HttpResponse} (hmem : .dispatch_response block seen close response ∈ final.log) :
    ∃ label, LoggedBy first labels label (.dispatch_response block seen close response) ∧
      (dispatcher_.dispatch_response label.env.call seen close).2 = response := by
  have hheaders := (HttpLimits.validate_ok hvalid).1
  induction hrun with
  | nil =>
    rw [start_reading env dispatcher_ limits_ (by omega) id_] at hstart
    cases hstart
    cases List.mem_singleton.mp hmem
  | @snoc labels before after label run next ih =>
    obtain ⟨effects, hlog, hwritten⟩ := step_written (regular_of_run hstart run) next
    rw [(told_of_run hvalid hstart run).dispatcher] at hwritten
    rw [hlog] at hmem
    obtain hold | hnew := List.mem_append.mp hmem
    · obtain ⟨own, ⟨earlier, state, reached, hearlier, hlogged⟩, hresponse⟩ := ih hold
      exact ⟨own, ⟨earlier, state, reached, hearlier.trans (List.prefix_append _ _), hlogged⟩, hresponse⟩
    · refine ⟨label, ⟨labels, before, after, List.prefix_refl _, run, next, ?_⟩, ?_⟩
      · rw [hlog, List.drop_left]
        exact hnew
      · obtain ⟨written, _, hwrites⟩ := delimited.exists_of_forall₂ hwritten (List.mem_filter.mpr ⟨hnew, rfl⟩)
        exact hwrites.1

/-- In every run the log is cut into what each callback has done, the start and then
the labels in their order, and each of them has written, for every request it has
dispatched and every failure, what the dispatcher returns as a string for that
request, but for a handler that takes the keep-alive back or gives a body to a status
that has none. -/
theorem written_as_dispatched {env : Environment H} {id_ : Nat} {first final : TcpConnection H}
    (hvalid : limits_.validate = .ok ())
    (hstart : ({ dispatcher_, limits_, id_ } : TcpConnection H).start env = .ok first)
    (hrun : Run Step first labels final) :
    AsDispatched dispatcher_ env first.log ∧
      ∃ parts, List.Forall₂ (fun label part => AsDispatched dispatcher_ label.env part) labels parts ∧
        ∀ earlier before, earlier <+: labels → Run Step first earlier before →
          before.log = first.log ++ (parts.take earlier.length).flatten := by
  have hheaders := (HttpLimits.validate_ok hvalid).1
  have hfirst : AsDispatched dispatcher_ env first.log := by
    rw [start_reading env dispatcher_ limits_ (by omega) id_] at hstart
    cases hstart
    exact .nil
  refine ⟨hfirst, ?_⟩
  induction hrun with
  | nil =>
    refine ⟨[], .nil, fun earlier before hearlier hbefore => ?_⟩
    obtain rfl := List.prefix_nil.mp hearlier
    obtain rfl := hbefore.nil_inv
    exact (List.append_nil _).symm
  | @snoc labels before after label run next ih =>
    obtain ⟨parts, hparts, hlogs⟩ := ih
    obtain ⟨effects, hlog, hwritten⟩ := step_written (regular_of_run hstart run) next
    rw [(told_of_run hvalid hstart run).dispatcher] at hwritten
    have hlength := hparts.length_eq
    refine ⟨parts ++ [effects], List.rel_append hparts (.cons hwritten .nil),
      fun earlier reached hearlier hreached => ?_⟩
    obtain rfl | hshorter := List.prefix_concat_iff.mp hearlier
    · obtain rfl := (run.snoc next).unique step_unique hreached
      have hwhole := hlogs labels before (List.prefix_refl _) run
      rw [hlength, List.take_length] at hwhole
      rw [hlog, hwhole, List.take_of_length_le (by simp [hlength]), List.flatten_append, List.append_assoc]
      simp
    · rw [List.take_append_of_le_length (hlength ▸ hshorter.length_le)]
      exact hlogs earlier reached hshorter hreached

theorem written_as_dispatched_home :
    ∃ final parts, Run Step (async_read_some { dispatcher_ := homePage, limits_ := .defaults }) homeReads final ∧
      (writes final.log).length = 2 ∧
      List.Forall₂ (fun label part => AsDispatched homePage label.env part) homeReads parts ∧
      final.log = .async_read_some 65536 :: parts.flatten := by
  have hstart := start_reading (answering greeting) homePage .defaults (by decide)
  obtain ⟨final, hrun, hcount⟩ := exists_run_of_check
    (async_read_some { dispatcher_ := homePage, limits_ := .defaults }) homeReads
    (fun final => (writes final.log).length = 2) (by decide +kernel)
  obtain ⟨_, parts, hparts, hlogs⟩ := written_as_dispatched HttpLimits.validate_defaults hstart hrun
  have hwhole := hlogs homeReads final (List.prefix_refl _) hrun
  rw [hparts.length_eq, List.take_length] at hwhole
  exact ⟨final, parts, hrun, hcount, hparts, hwhole⟩

end transport.TcpConnection

end octane
