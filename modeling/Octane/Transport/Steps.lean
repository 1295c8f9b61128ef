import Octane.Transport.Outcome

open search transition

namespace octane.transport.TcpConnection

variable {H : Type}

/-- While a body is awaited, the head is still among the unconsumed bytes. -/
def HoldsHead (conn : TcpConnection H) : Prop :=
  conn.phase_ = .body → conn.header_size_ ≤ conn.unconsumed.length

/-- Between two callbacks an open connection waits for one operation, a read
behind the buffered bytes or a write, as its phase says. -/
structure Regular (conn : TcpConnection H) : Prop where
  inBounds : conn.InBounds
  head : conn.HoldsHead
  reading : conn.phase_ = .headers ∨ conn.phase_ = .body →
    conn.pending = [.read conn.write_pos_ (conn.buffer_.size - conn.write_pos_)]
  room : conn.phase_ = .headers ∨ conn.phase_ = .body → conn.write_pos_ < conn.buffer_.size
  writing : conn.phase_ = .writing → conn.pending = [.write]

/-- A connection inside a callback, about to look at its unconsumed bytes. -/
structure Ready (conn : TcpConnection H) : Prop where
  inBounds : conn.InBounds
  head : conn.HoldsHead
  phase : conn.phase_ = .headers ∨ conn.phase_ = .body
  pending : conn.pending = []

theorem open_of_reading {self : TcpConnection H} (h : self.phase_ = .headers ∨ self.phase_ = .body) :
    self.phase_ ≠ .closed := by
  obtain hphase | hphase := h <;> simp [hphase]

/-- The connection when the read it waits for has completed. -/
def arrived (self : TcpConnection H) (chunk : Bytes) : TcpConnection H :=
  { self.receive self.write_pos_ chunk with pending := [], write_pos_ := self.write_pos_ + chunk.length }

theorem arrived_write_pos (self : TcpConnection H) (chunk : Bytes) :
    (self.arrived chunk).write_pos_ = self.write_pos_ + chunk.length := rfl

/-- The connection when the write it waits for has completed, and it goes on. -/
def resumed (self : TcpConnection H) : TcpConnection H :=
  { self with
    pending := []
    header_payload_ := []
    owned_body_storage_ := []
    body_payload_ := []
    phase_ := .headers
    header_size_ := 0
    request_ := {} }

/-- The ways a connection can go on from a regular state. -/
inductive Stepped (self : TcpConnection H) (label : Label H) : TcpConnection H → Prop where
  | stopped (force : Bool) (hevent : label.event = .stop force) : Stepped self label (self.stop force)
  | ignored (mem : Nat → UInt8) (pending : List Operation) (hphase : self.phase_ = .closed) :
      Stepped self label { self with buffer_ := { self.buffer_ with mem }, pending }
  | closed (before : TcpConnection H)
      (hbefore : before = { self with
        pending := before.pending
        header_payload_ := before.header_payload_
        owned_body_storage_ := before.owned_body_storage_
        body_payload_ := before.body_payload_ })
      (hevent : label.event = .read_error ∨ label.event = .write_error ∨
        (label.event = .written ∧ self.phase_ = .writing ∧
          (self.close_after_write_ = true ∨ self.draining_ = true))) :
      Stepped self label before.close
  | received (chunk : Bytes) (after : TcpConnection H) (hevent : label.event = .read chunk)
      (hphase : self.phase_ = .headers ∨ self.phase_ = .body)
      (hroom : chunk.length ≤ self.buffer_.size - self.write_pos_)
      (hrun : (self.arrived chunk).process_input label.env = .ok after) : Stepped self label after
  | processed (after : TcpConnection H) (hevent : label.event = .written) (hphase : self.phase_ = .writing)
      (hopen : self.close_after_write_ = false ∧ self.draining_ = false)
      (hrun : self.resumed.process_input label.env = .ok after) : Stepped self label after
  | idle (hevent : label.event = .written) (hphase : self.phase_ = .writing)
      (hopen : self.close_after_write_ = false ∧ self.draining_ = false)
      (hempty : self.unconsumed = []) : Stepped self label self.resumed.read_more

/-- A read that completes on an open connection adds its bytes and goes on. -/
theorem on_read_open {self : TcpConnection H} (hopen : self.phase_ ≠ .closed) (env : Environment H)
    (bytes : Nat) : self.on_read env false bytes =
      process_input env { self with write_pos_ := self.write_pos_ + bytes } := by
  rw [on_read, if_neg hopen, if_neg Bool.false_ne_true]

/-- On a closed connection a completion does nothing. -/
theorem on_read_closed {self : TcpConnection H} (hclosed : self.phase_ = .closed) (env : Environment H)
    (ec : Bool) (bytes : Nat) : self.on_read env ec bytes = .ok self := by
  rw [on_read, if_pos hclosed]

theorem on_write_closed {self : TcpConnection H} (hclosed : self.phase_ = .closed) (env : Environment H)
    (ec : Bool) : self.on_write env ec = .ok self := by
  rw [on_write, if_pos hclosed]

/-- A completed write closes the connection, or it goes on with what has arrived. -/
theorem on_write_open {self : TcpConnection H} (hphase : self.phase_ = .writing) (env : Environment H) :
    on_write env { self with pending := [] } false =
      if self.close_after_write_ = true ∨ self.draining_ = true then
        .ok { self with
          pending := [], header_payload_ := [], owned_body_storage_ := [], body_payload_ := [] }.close
      else if self.read_pos_ < self.write_pos_ then self.resumed.process_input env
      else .ok self.resumed.read_more := by
  rw [on_write, if_neg (by simp [hphase])]
  dsimp only
  by_cases hend : self.close_after_write_ = true ∨ self.draining_ = true
  · rw [if_pos (.inr hend), if_pos hend]
  · rw [if_neg (by simpa using hend), if_neg hend]
    rfl

/-- A read completes on a closed connection, or on one that waits for it. -/
theorem Regular.read_pending {self : TcpConnection H} (h : self.Regular) {off room : Nat}
    {pending : List Operation} (hpending : self.pending = .read off room :: pending) :
    self.phase_ = .closed ∨ ((self.phase_ = .headers ∨ self.phase_ = .body) ∧ off = self.write_pos_ ∧
      room = self.buffer_.size - self.write_pos_ ∧ pending = []) := by
  have hreading : self.phase_ = .headers ∨ self.phase_ = .body → off = self.write_pos_ ∧
      room = self.buffer_.size - self.write_pos_ ∧ pending = [] := by
    intro hphase
    have hregular := h.reading hphase
    rw [hpending] at hregular
    cases hregular
    exact ⟨rfl, rfl, rfl⟩
  cases hphase : self.phase_ with
  | headers => exact .inr ⟨.inl rfl, hreading (.inl hphase)⟩
  | body => exact .inr ⟨.inr rfl, hreading (.inr hphase)⟩
  | writing =>
    have hregular := h.writing hphase
    rw [hpending] at hregular
    cases hregular
  | closed => exact .inl rfl

/-- A pending write is that of a connection that writes, or of one that has been
closed meanwhile. -/
theorem Regular.write_pending {self : TcpConnection H} (h : self.Regular) {pending : List Operation}
    (hpending : self.pending = .write :: pending) :
    self.phase_ = .closed ∨ (self.phase_ = .writing ∧ pending = []) := by
  have hreading : ¬ (self.phase_ = .headers ∨ self.phase_ = .body) := by
    intro hphase
    have hregular := h.reading hphase
    rw [hpending] at hregular
    cases hregular
  cases hphase : self.phase_ with
  | headers => exact absurd (.inl hphase) hreading
  | body => exact absurd (.inr hphase) hreading
  | writing =>
    have hregular := h.writing hphase
    rw [hpending] at hregular
    cases hregular
    exact .inr ⟨rfl, rfl⟩
  | closed => exact .inl rfl

/-- What the handler of a read can do, each branch of the source once. -/
theorem on_read_cases {self after : TcpConnection H} {label : Label H} {off room : Nat}
    {pending : List Operation} {chunk : Bytes} (hself : self.Regular) (hevent : label.event = .read chunk)
    (hpending : self.pending = .read off room :: pending) (hroom : chunk.length ≤ room)
    (h : ({ self with pending }.receive off chunk).on_read label.env false chunk.length = .ok after) :
    Stepped self label after := by
  obtain hphase | ⟨hphase, rfl, rfl, rfl⟩ := hself.read_pending hpending
  · rw [on_read_closed (by exact hphase)] at h
    cases h
    exact .ignored _ pending hphase
  · rw [on_read_open (by exact open_of_reading hphase)] at h
    exact .received chunk after hevent hphase hroom h

/-- What the handler of a write can do. -/
theorem on_write_cases {self after : TcpConnection H} {label : Label H} {pending : List Operation}
    (hself : self.Regular) (hevent : label.event = .written) (hpending : self.pending = .write :: pending)
    (h : on_write label.env { self with pending } false = .ok after) : Stepped self label after := by
  obtain hphase | ⟨hphase, rfl⟩ := hself.write_pending hpending
  · rw [on_write_closed (by exact hphase)] at h
    cases h
    exact .ignored self.buffer_.mem pending hphase
  · rw [on_write_open hphase] at h
    by_cases hend : self.close_after_write_ = true ∨ self.draining_ = true
    · rw [if_pos hend] at h
      cases h
      exact .closed _ rfl (.inr (.inr ⟨hevent, hphase, hend⟩))
    · have hgo : self.close_after_write_ = false ∧ self.draining_ = false := by simpa using hend
      rw [if_neg hend] at h
      by_cases hmore : self.read_pos_ < self.write_pos_
      · rw [if_pos hmore] at h
        exact .processed after hevent hphase hgo h
      · rw [if_neg hmore] at h
        cases h
        refine .idle hevent hphase hgo (List.eq_nil_of_length_eq_zero ?_)
        rw [length_unconsumed]
        omega

/-- A step from a regular state goes one of the ways. The handlers of the source are
unfolded here; whatever holds of every step is proved by these cases. -/
theorem step_cases {self after : TcpConnection H} {label : Label H} (hself : self.Regular)
    (h : self.Step label after) : Stepped self label after := by
  obtain ⟨event, env⟩ := label
  rw [Step, step] at h
  dsimp only at h
  split at h
  · next chunk off room pending hpending =>
    split_ifs at h with hroom
    exact on_read_cases hself rfl hpending hroom (Option.some.inj h)
  · next off room pending hpending =>
    have hrun := Option.some.inj h
    by_cases hopen : self.phase_ = .closed
    · rw [on_read_closed (by exact hopen)] at hrun
      cases hrun
      exact .ignored self.buffer_.mem pending hopen
    · rw [on_read, if_neg (by exact hopen), if_pos rfl] at hrun
      cases hrun
      exact .closed _ rfl (.inl rfl)
  · next pending hpending => exact on_write_cases hself rfl hpending (Option.some.inj h)
  · next pending hpending =>
    have hrun := Option.some.inj h
    by_cases hopen : self.phase_ = .closed
    · rw [on_write_closed (by exact hopen)] at hrun
      cases hrun
      exact .ignored self.buffer_.mem pending hopen
    · rw [on_write, if_neg (by exact hopen)] at hrun
      dsimp only at hrun
      rw [if_pos (.inl rfl)] at hrun
      cases hrun
      exact .closed _ rfl (.inr (.inl rfl))
  · next force =>
    cases Except.ok.inj (Option.some.inj h)
    exact .stopped force rfl
  · cases h

/-- A closed connection is regular whatever it still waits for. -/
theorem Regular.of_closed {self : TcpConnection H} (hbounds : self.InBounds) (hphase : self.phase_ = .closed) :
    self.Regular := by
  refine ⟨hbounds, ?_, ?_, ?_, ?_⟩ <;> simp [HoldsHead, hphase]

/-- Closing starts nothing and touches nothing that an operation works on. -/
theorem close_frame (self : TcpConnection H) :
    self.close = { self with
      phase_ := .closed
      on_close_ := self.close.on_close_
      log := self.close.log } := by
  by_cases hclosed : self.phase_ = .closed
  · rw [close, if_pos hclosed, ← hclosed]
  · rw [close, if_neg hclosed]

/-- All that closing does outside is to call `on_close_`. -/
theorem close_log (self : TcpConnection H) :
    ∃ effects, self.close.log = self.log ++ effects ∧ ∀ effect ∈ effects, ∃ id, effect = .on_close id := by
  by_cases hclosed : self.phase_ = .closed
  · rw [close, if_pos hclosed]
    exact ⟨[], (List.append_nil _).symm, by simp⟩
  · rw [close, if_neg hclosed]
    refine ⟨_, rfl, fun effect heffect => ?_⟩
    split_ifs at heffect
    · exact ⟨self.id_, List.mem_singleton.mp heffect⟩
    · cases heffect

/-- Closing leaves a regular connection. -/
theorem close_regular {self : TcpConnection H} (hbounds : self.InBounds)
    (hself : self.phase_ = .closed → self.Regular) : self.close.Regular := by
  by_cases hclosed : self.phase_ = .closed
  · rw [close, if_pos hclosed]
    exact hself hclosed
  · rw [close, if_neg hclosed]
    exact .of_closed ⟨hbounds.ordered, hbounds.inside, hbounds.room⟩ rfl

/-- Asking for more leaves one that waits for a read. -/
theorem read_more_regular {self : TcpConnection H} (h : self.Ready) : self.read_more.Regular := by
  obtain ⟨buffer_, read_pos_, write_pos_, heq, hordered, hless, hkept⟩ := read_more_spec h.inBounds
  rw [heq]
  refine ⟨⟨hordered, by exact Nat.le_of_lt hless, by dsimp only; omega⟩, ?_, ?_, fun _ => hless, ?_⟩
  · intro hphase
    exact (h.head hphase).trans_eq (congrArg List.length hkept.symm)
  · intro _
    simp [h.pending]
  · intro hphase
    obtain hheaders | hbody := h.phase
    · exact absurd (hheaders.symm.trans hphase) (by simp)
    · exact absurd (hbody.symm.trans hphase) (by simp)

/-- What a connection has still to do when it has one write to complete. -/
theorem Regular.of_writing {self : TcpConnection H} (hbounds : self.InBounds)
    (hphase : self.phase_ = .writing) (hpending : self.pending = [.write]) : self.Regular := by
  refine ⟨hbounds, ?_, ?_, ?_, fun _ => hpending⟩ <;> simp [HoldsHead, hphase]

/-- A refusal leaves one that writes. -/
theorem fail_regular {self : TcpConnection H} {status : Int} (hbounds : self.InBounds)
    (hopen : self.phase_ ≠ .closed) (hpending : self.pending = [])
    (hstatus : ¬ (status < 200 ∨ 599 < status)) : (self.fail status).Regular := by
  obtain ⟨header_payload_, _, heq⟩ := fail_eq self status hopen hstatus
  rw [heq]
  exact .of_writing ⟨hbounds.ordered, hbounds.inside, hbounds.room⟩ rfl (by simp [hpending])

/-- Parsing a head leaves the connection ready to go on. -/
theorem Headed.ready {self base : TcpConnection H} (hbase : Headed self base) (h : self.Ready) :
    base.Ready := by
  refine ⟨hbase.inBounds h.inBounds, fun _ => ?_, .inr hbase.phase, ?_⟩
  · cases hbase with
    | waiting hphase => exact h.head hphase
    | parsed stop req hphase hfind => exact findSub_add_length_le hfind
  · rw [hbase.frame]
    exact h.pending

/-- A turn of the loop leaves the connection waiting for one operation: it reads on,
or writes a response or a refusal. -/
theorem Ready.process_input {self after : TcpConnection H} {env : Environment H} (h : self.Ready)
    (hrun : self.process_input env = .ok after) : after.Regular := by
  have hopen := open_of_reading h.phase
  have houtcome := process_input_outcome env self
  generalize self.process_input env = result at hrun houtcome
  cases houtcome with
  | idle hphase =>
    obtain hheaders | hbody := h.phase
    · simp [hheaders] at hphase
    · simp [hbody] at hphase
  | oversized =>
    cases hrun
    exact fail_regular h.inBounds hopen h.pending (by omega)
  | headless =>
    cases hrun
    exact read_more_regular h
  | refused stop status _ _ _ hstatus =>
    cases hrun
    exact fail_regular ⟨h.inBounds.ordered, h.inBounds.inside, h.inBounds.room⟩ hopen h.pending
      (supported_of_parseFailure hstatus)
  | displaced => cases hrun
  | awaits base hbase =>
    cases hrun
    exact read_more_regular (hbase.ready h)
  | complete base hbase hhead htotal =>
    have hready := hbase.ready h
    rw [← hbase.unconsumed] at htotal
    obtain ⟨hbounds, _⟩ := consume_spec base.withBody
      ⟨hready.inBounds.ordered, hready.inBounds.inside, hready.inBounds.room⟩ htotal
    obtain ⟨_, _, _, rfl⟩ := respond_inv hrun
    refine .of_writing ⟨hbounds.ordered, ?_, hready.inBounds.room⟩ rfl ?_
    · have hinside := hbounds.inside
      rwa [consume_frame] at hinside
    · exact congrArg (· ++ [Operation.write]) hready.pending

/-- A completed read appends to the unconsumed bytes. -/
theorem Regular.arrived {self : TcpConnection H} (h : self.Regular) {chunk : Bytes}
    (hphase : self.phase_ = .headers ∨ self.phase_ = .body)
    (hroom : chunk.length ≤ self.buffer_.size - self.write_pos_) :
    (self.arrived chunk).Ready ∧ (self.arrived chunk).unconsumed = self.unconsumed ++ chunk := by
  obtain ⟨hbounds, hunconsumed⟩ := receive_spec h.inBounds hroom
  have hsame : (self.arrived chunk).unconsumed = self.unconsumed ++ chunk := hunconsumed
  refine ⟨⟨⟨hbounds.ordered, hbounds.inside, hbounds.room⟩, fun hbody => ?_, hphase, rfl⟩, hsame⟩
  have hhead := h.head hbody
  rw [hsame, List.length_append]
  exact Nat.le_add_right_of_le hhead

theorem Regular.resumed {self : TcpConnection H} (h : self.Regular) : self.resumed.Ready :=
  ⟨⟨h.inBounds.ordered, h.inBounds.inside, h.inBounds.room⟩, fun hbody => (by cases hbody), .inl rfl, rfl⟩

/-- A stop closes the connection or leaves it as it is, but draining. -/
theorem stop_cases (self : TcpConnection H) (force : Bool) :
    ((force = true ∨ self.phase_ = .headers) ∧
        self.stop force = ({ self with draining_ := true } : TcpConnection H).close) ∨
      (force = false ∧ self.phase_ ≠ .headers ∧ self.stop force = { self with draining_ := true }) := by
  by_cases hclose : force = true ∨ self.phase_ = .headers
  · exact .inl ⟨hclose, if_pos hclose⟩
  · rw [not_or] at hclose
    exact .inr ⟨Bool.eq_false_of_not_eq_true hclose.1, hclose.2, if_neg (by simpa using hclose)⟩

/-- A stop leaves a regular connection, forced or not. -/
theorem stop_regular {self : TcpConnection H} (h : self.Regular) (force : Bool) :
    (self.stop force).Regular := by
  have hdraining : ({ self with draining_ := true } : TcpConnection H).Regular :=
    ⟨⟨h.inBounds.ordered, h.inBounds.inside, h.inBounds.room⟩, h.head, h.reading, h.room, h.writing⟩
  obtain ⟨_, heq⟩ | ⟨_, _, heq⟩ := self.stop_cases force
  · rw [heq]
    exact close_regular hdraining.inBounds fun _ => hdraining
  · rw [heq]
    exact hdraining

/-- Regularity is kept by every step, through the ways to go on that `step_cases` lists. -/
theorem Regular.step {self after : TcpConnection H} {label : Label H} (h : self.Regular)
    (hstep : self.Step label after) : after.Regular := by
  cases step_cases h hstep with
  | stopped force => exact stop_regular h force
  | ignored mem pending hphase =>
    exact .of_closed ⟨h.inBounds.ordered, h.inBounds.inside, h.inBounds.room⟩ hphase
  | closed before hbefore =>
    have hbounds : before.InBounds := by
      rw [hbefore]
      exact ⟨h.inBounds.ordered, h.inBounds.inside, h.inBounds.room⟩
    exact close_regular hbounds fun hclosed => .of_closed hbounds hclosed
  | received chunk _ _ hphase hroom hrun => exact (h.arrived hphase hroom).1.process_input hrun
  | processed _ _ _ _ hrun => exact h.resumed.process_input hrun
  | idle => exact read_more_regular h.resumed

/-- A connection as it is when the server has accepted it. -/
theorem accepted_ready (dispatcher_ : core.RequestDispatcher H) (limits_ : HttpLimits) (id_ : Nat := 0) :
    ({ dispatcher_, limits_, id_ } : TcpConnection H).Ready :=
  ⟨⟨Nat.le_refl _, Nat.zero_le _, Nat.zero_lt_succ _⟩, fun hbody => (by cases hbody), .inl rfl, rfl⟩

/-- The state that a sequence of events leads to, where they can all happen. -/
def steps (self : TcpConnection H) : List (Label H) → Option (Result (TcpConnection H))
  | [] => some (.ok self)
  | label :: labels =>
    match self.step label with
    | some (.ok after) => after.steps labels
    | result => result

/-- Evaluated steps make a run. -/
theorem run_steps {first self final : TcpConnection H} {before labels : List (Label H)}
    (hrun : Run Step first before self) (h : self.steps labels = some (.ok final)) :
    Run Step first (before ++ labels) final := by
  induction labels generalizing before self with
  | nil =>
    cases h
    rwa [List.append_nil]
  | cons label labels ih =>
    rw [steps] at h
    split at h
    · next after hstep =>
      rw [List.append_cons]
      exact ih (hrun.snoc hstep) h
    · next hother => exact absurd h (hother final)

/-- A property of the state a sequence of events leads to, evaluated. -/
theorem exists_run_of_check (first : TcpConnection H) (labels : List (Label H)) (p : TcpConnection H → Prop)
    [DecidablePred p] (h : (first.steps labels).map (·.map fun final => decide (p final)) = some (.ok true)) :
    ∃ final, Run Step first labels final ∧ p final := by
  obtain ⟨result, hresult, hcheck⟩ := Option.map_eq_some_iff.mp h
  obtain ⟨final, rfl, hp⟩ := exists_ok_of_check hcheck
  exact ⟨final, run_steps .nil hresult, hp⟩

/-- A label leads a connection to one state. -/
theorem step_unique (before : TcpConnection H) (label : Label H) (after other : TcpConnection H)
    (h : before.Step label after) (h' : before.Step label other) : after = other :=
  Except.ok.inj (Option.some.inj (h.symm.trans h'))

/-- The state that a sequence of events leads to, where a test passes before each of them. -/
def stepsWhile (test : TcpConnection H → Label H → Bool) (self : TcpConnection H) :
    List (Label H) → Option (Result (TcpConnection H))
  | [] => some (.ok self)
  | label :: labels =>
    if test self label then
      match self.step label with
      | some (.ok after) => after.stepsWhile test labels
      | result => result
    else none

/-- Steps that were evaluated under a test make a run under it as a guard. -/
theorem run_stepsWhile {test : TcpConnection H → Label H → Bool} {first self final : TcpConnection H}
    {before labels : List (Label H)}
    (hrun : Run (Guarded (fun conn label => test conn label = true) Step) first before self)
    (h : self.stepsWhile test labels = some (.ok final)) :
    Run (Guarded (fun conn label => test conn label = true) Step) first (before ++ labels) final := by
  induction labels generalizing before self with
  | nil =>
    cases h
    rwa [List.append_nil]
  | cons label labels ih =>
    rw [stepsWhile] at h
    split_ifs at h with htest
    split at h
    · next after hstep =>
      rw [List.append_cons]
      exact ih (hrun.snoc ⟨htest, hstep⟩) h
    · next hother => exact absurd h (hother final)

/-- A guarded run, and a property of the state it leads to, evaluated. -/
theorem exists_guarded_run_of_check (test : TcpConnection H → Label H → Bool) (first : TcpConnection H)
    (labels : List (Label H)) (p : TcpConnection H → Prop) [DecidablePred p]
    (h : (first.stepsWhile test labels).map (·.map fun final => decide (p final)) = some (.ok true)) :
    ∃ final, Run (Guarded (fun conn label => test conn label = true) Step) first labels final ∧ p final := by
  obtain ⟨result, hresult, hcheck⟩ := Option.map_eq_some_iff.mp h
  obtain ⟨final, rfl, hp⟩ := exists_ok_of_check hcheck
  exact ⟨final, run_stepsWhile .nil hresult, hp⟩

/-- A read that fits leads to the callback with its bytes. -/
theorem step_received {self : TcpConnection H} (hself : self.Regular)
    (hphase : self.phase_ = .headers ∨ self.phase_ = .body) {chunk : Bytes}
    (hroom : chunk.length ≤ self.buffer_.size - self.write_pos_) (env : Environment H) :
    self.step ⟨.read chunk, env⟩ = some ((self.arrived chunk).process_input env) := by
  rw [step, hself.reading hphase]
  dsimp only
  rw [if_pos hroom, on_read_open (by exact open_of_reading hphase)]
  rfl

theorem start_eq (env : Environment H) (dispatcher_ : core.RequestDispatcher H) (limits_ : HttpLimits)
    (id_ : Nat := 0) :
    ({ dispatcher_, limits_, id_ } : TcpConnection H).start env =
      ({ dispatcher_, limits_, id_ } : TcpConnection H).process_input env := by
  rw [start, begin_request, if_neg (by simp), if_neg (by simp)]

/-- With limits that leave room for a head, a new connection starts to read. -/
theorem start_reading (env : Environment H) (dispatcher_ : core.RequestDispatcher H) (limits_ : HttpLimits)
    (hlimits : 0 < limits_.max_header_bytes) (id_ : Nat := 0) :
    ({ dispatcher_, limits_, id_ } : TcpConnection H).start env =
      .ok (async_read_some { dispatcher_, limits_, id_ }) := by
  have hnothing : ({ dispatcher_, limits_, id_ } : TcpConnection H).unconsumed = [] := rfl
  have hfind : findSub CRLFCRLF ([] : Bytes) = none := by decide
  have hshort : ¬ limits_.max_header_bytes ≤ ([] : Bytes).length := Nat.not_le.mpr hlimits
  have hmore : ({ dispatcher_, limits_, id_ } : TcpConnection H).read_more =
      async_read_some { dispatcher_, limits_, id_ } := by
    rw [read_more, compact, if_neg (by simp), grow, if_neg (by simp [BUFFER_SIZE])]
  rw [start_eq env dispatcher_ limits_ id_, process_input, if_neg (by simp), if_pos rfl, process_headers,
    hnothing, hfind]
  dsimp only
  rw [if_neg hshort, bind_ok, hmore]
  rfl

/-- In every run an open connection waits for one operation. -/
theorem regular_of_run {env : Environment H} {dispatcher_ : core.RequestDispatcher H}
    {limits_ : HttpLimits} {id_ : Nat} {first final : TcpConnection H} {labels : List (Label H)}
    (hstart : ({ dispatcher_, limits_, id_ } : TcpConnection H).start env = .ok first)
    (hrun : Run Step first labels final) : final.Regular := by
  rw [start_eq env dispatcher_ limits_ id_] at hstart
  exact hrun.invariant (fun _ conn => conn.Regular)
    ((accepted_ready dispatcher_ limits_ id_).process_input hstart)
    fun _ _ _ _ hbefore hstep => hbefore.step hstep

end octane.transport.TcpConnection
