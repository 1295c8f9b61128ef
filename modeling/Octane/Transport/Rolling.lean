import Octane.Transport.Machine

open search transition

namespace octane.transport.machine

variable {H : Type}

-- Where the buffer is smaller than half the address space, the wrapping arithmetic
-- computes what the exact one does.

/-- With positions in order and a buffer below 2 ^ 64 bytes, no subtraction wraps
around: the machine sees the same bytes. -/
theorem unconsumed_eq {self : TcpConnection H} (h : self.InBounds) (hsize : self.buffer_.size < 2 ^ 64) :
    unconsumed self = self.unconsumed := by
  have hinside := h.inside
  rw [unconsumed, TcpConnection.unconsumed, size_t.sub_eq (by omega) h.ordered]

/-- The move to the front subtracts positions that are in order, and compares what is
free with 4096 without overflow. -/
theorem compact_eq {self : TcpConnection H} (h : self.InBounds) (hsize : self.buffer_.size < 2 ^ 63) :
    compact self = self.compact := by
  have hinside := h.inside
  rw [compact, TcpConnection.compact, size_t.sub_eq (by omega) hinside, size_t.sub_eq (by omega) h.ordered]

/-- Below 2 ^ 63 bytes doubling does not overflow. -/
theorem grow_eq {self : TcpConnection H} (hsize : self.buffer_.size < 2 ^ 63) : grow self = self.grow := by
  rw [grow, TcpConnection.grow, size_t.mul_eq (by omega)]

/-- Making room, by a move or by doubling, is computed without overflow. -/
theorem read_more_eq {self : TcpConnection H} (h : self.InBounds) (hsize : self.buffer_.size < 2 ^ 63) :
    read_more self = self.read_more := by
  obtain ⟨hcompact, _⟩ := TcpConnection.compact_spec h
  have hsame := self.compact_size
  obtain ⟨hroom, _⟩ := TcpConnection.grow_spec hcompact
  have hgrown : self.compact.grow.buffer_.size < 2 ^ 64 := by
    rw [TcpConnection.grow]
    split_ifs
    · dsimp only [Buffer.resize]
      omega
    · omega
  rw [read_more, compact_eq h hsize, grow_eq (by omega), TcpConnection.read_more, async_read_some,
    TcpConnection.async_read_some, size_t.sub_eq hgrown (Nat.le_of_lt hroom)]

theorem process_headers_eq {self : TcpConnection H} (h : self.InBounds) (hsize : self.buffer_.size < 2 ^ 63) :
    process_headers self = self.process_headers := by
  rw [process_headers, TcpConnection.process_headers, unconsumed_eq h (by omega)]
  cases hfind : findSub CRLFCRLF self.unconsumed with
  | none =>
    dsimp only
    rw [read_more_eq h hsize]
  | some stop =>
    have hinside := h.inside
    have hlength := self.length_unconsumed
    have hstop : stop + 4 ≤ self.unconsumed.length := findSub_add_length_le hfind
    have hsame : unconsumed { self with header_size_ := stop + 4 } = self.unconsumed :=
      unconsumed_eq ⟨h.ordered, h.inside, h.room⟩ (by dsimp only; omega)
    dsimp only
    rw [size_t.add_eq (by omega), hsame]
    rfl

/-- Consuming adds a total that fits. -/
theorem consume_eq {self : TcpConnection H} {total : Nat} (h : self.read_pos_ + total < 2 ^ 64) :
    consume self total = self.consume total := by
  rw [consume, TcpConnection.consume, size_t.add_eq h]

theorem respond_eq (env : Environment H) {self : TcpConnection H} {total : Nat}
    (h : self.read_pos_ + total < 2 ^ 64) : respond env self total = self.respond env total := by
  have hdecided : self.decide_close.read_pos_ = self.read_pos_ := by rw [TcpConnection.decide_close_frame]
  rw [respond, TcpConnection.respond]
  dsimp only
  rw [consume_eq]
  dsimp only
  rwa [hdecided]

/-- The sizes of a request with its body are compared without overflow. -/
theorem process_body_eq (env : Environment H) {self : TcpConnection H} (h : self.InBounds)
    (hsize : self.buffer_.size < 2 ^ 63) : process_body env self = self.process_body env := by
  have hinside := h.inside
  have hordered := h.ordered
  have hlength := self.length_unconsumed
  rw [process_body, TcpConnection.process_body, unconsumed_eq h (by omega), read_more_eq h hsize]
  dsimp only
  split_ifs with hshort
  · rfl
  · congr 1
    funext body
    exact respond_eq env (by dsimp only; omega)

/-- The whole callback is, in machine arithmetic, what it is in the natural numbers. -/
theorem process_input_eq (env : Environment H) {self : TcpConnection H} (h : self.InBounds)
    (hsize : self.buffer_.size < 2 ^ 63) : process_input env self = self.process_input env := by
  rw [process_input, TcpConnection.process_input, process_headers_eq h hsize, process_body_eq env h hsize]
  split_ifs
  · rfl
  · cases hfind : findSub CRLFCRLF self.unconsumed with
    | none =>
      rw [TcpConnection.process_headers, hfind]
      dsimp only
      split_ifs <;> rfl
    | some stop =>
      obtain ⟨_, _, _, hrefused⟩ | ⟨req, _, hparsed⟩ := TcpConnection.process_headers_found hfind
      · rw [hrefused]
        rfl
      · rw [hparsed, bind_ok, bind_ok]
        exact process_body_eq env ⟨h.ordered, h.inside, h.room⟩ hsize
  · rfl

theorem on_read_error_eq (env : Environment H) (self : TcpConnection H) (bytes : Nat) :
    on_read env self true bytes = self.on_read env true bytes := by
  rw [on_read, TcpConnection.on_read, if_pos rfl, if_pos rfl]

theorem on_write_error_eq (env : Environment H) (self : TcpConnection H) :
    on_write env self true = self.on_write env true := by
  by_cases hclosed : self.phase_ = .closed
  · rw [on_write, if_pos hclosed, TcpConnection.on_write, if_pos hclosed]
  · rw [on_write, if_neg hclosed, TcpConnection.on_write, if_neg hclosed]
    dsimp only
    rw [if_pos (.inl rfl), if_pos (.inl rfl)]

/-- A completed read is within its room, so that the new position fits. -/
theorem on_read_eq (env : Environment H) {self : TcpConnection H} (h : self.Regular)
    (hsize : self.buffer_.size < 2 ^ 63) {off room : Nat} {pending : List Operation} {chunk : Bytes}
    (hpending : self.pending = .read off room :: pending) (hroom : chunk.length ≤ room) :
    on_read env ({ self with pending }.receive off chunk) false chunk.length =
      ({ self with pending }.receive off chunk).on_read env false chunk.length := by
  obtain hclosed | ⟨hphase, rfl, rfl, rfl⟩ := h.read_pending hpending
  · rw [on_read, if_pos (by exact hclosed), TcpConnection.on_read_closed (by exact hclosed)]
  · have hopen := TcpConnection.open_of_reading hphase
    have hinside := h.inBounds.inside
    obtain ⟨hready, _⟩ := h.arrived hphase hroom
    rw [on_read, if_neg (by exact hopen), if_neg Bool.false_ne_true,
      TcpConnection.on_read_open (by exact hopen),
      size_t.add_eq (by exact (by omega : self.write_pos_ + chunk.length < 2 ^ 64))]
    exact process_input_eq env hready.inBounds hsize

/-- A completed write changes no size before it goes on. -/
theorem on_write_eq (env : Environment H) {self : TcpConnection H} (h : self.InBounds)
    (hsize : self.buffer_.size < 2 ^ 63) (pending : List Operation) :
    on_write env { self with pending } false = TcpConnection.on_write env { self with pending } false := by
  rw [on_write, TcpConnection.on_write]
  dsimp only
  rw [process_input_eq env (by exact ⟨h.ordered, h.inside, h.room⟩) (by exact hsize),
    read_more_eq (by exact ⟨h.ordered, h.inside, h.room⟩) (by exact hsize)]

/-- Every step is the one that is taken in exact arithmetic, as long as the buffer is
below 2 ^ 63 bytes: no sum, product or difference of the source wraps around then. -/
theorem step_eq {self : TcpConnection H} (h : self.Regular) (hsize : self.buffer_.size < 2 ^ 63)
    (label : TcpConnection.Label H) : step self label = self.step label := by
  obtain ⟨event, env⟩ := label
  rw [step, TcpConnection.step]
  dsimp only
  cases event with
  | read chunk =>
    cases hpending : self.pending with
    | nil => rfl
    | cons operation pending =>
      cases operation with
      | read off room =>
        dsimp only
        split_ifs with hroom
        · exact congrArg some (on_read_eq env h hsize hpending hroom)
        · rfl
      | write => rfl
  | read_error =>
    cases hpending : self.pending with
    | nil => rfl
    | cons operation pending =>
      cases operation with
      | read off room => exact congrArg some (on_read_error_eq env { self with pending } 0)
      | write => rfl
  | written =>
    cases hpending : self.pending with
    | nil => rfl
    | cons operation pending =>
      cases operation with
      | read off room => rfl
      | write => exact congrArg some (on_write_eq env h.inBounds hsize pending)
  | write_error =>
    cases hpending : self.pending with
    | nil => rfl
    | cons operation pending =>
      cases operation with
      | read off room => rfl
      | write => exact congrArg some (on_write_error_eq env { self with pending })
  | stop force => rfl

/-- The buffer has grown for what is within the limits only, and every read had room. -/
structure Sized (limits_ : HttpLimits) (conn : TcpConnection H) : Prop where
  size : conn.buffer_.size ≤ BUFFER_SIZE ∨
    conn.buffer_.size < 2 * (limits_.max_header_bytes + limits_.max_body_bytes)
  rooms : ∀ room, .async_read_some room ∈ conn.log → 0 < room

variable {limits_ : HttpLimits}

/-- Limits up to 2 ^ 62 keep the buffer below 2 ^ 63, where all of the above applies. -/
theorem Sized.lt {conn : TcpConnection H} (h : Sized limits_ conn)
    (hsum : limits_.max_header_bytes + limits_.max_body_bytes ≤ 2 ^ 62) : conn.buffer_.size < 2 ^ 63 := by
  have hsize := h.size
  rw [BUFFER_SIZE] at hsize
  omega

/-- What neither resizes the buffer nor starts a read keeps the bounds. -/
theorem Sized.of_extra {self after : TcpConnection H} (h : Sized limits_ self)
    (hsize : after.buffer_.size = self.buffer_.size) (extra : List Effect)
    (hlog : after.log = self.log ++ extra) (hextra : ∀ room, .async_read_some room ∉ extra) :
    Sized limits_ after := by
  refine ⟨hsize ▸ h.size, fun room hroom => ?_⟩
  rw [hlog, List.mem_append] at hroom
  obtain hold | hnew := hroom
  · exact h.rooms room hold
  · exact absurd hnew (hextra room)

/-- The bound is about the size and the reads on the log. -/
theorem Sized.of_same {self after : TcpConnection H} (h : Sized limits_ self)
    (hsize : after.buffer_.size = self.buffer_.size) (hlog : after.log = self.log) : Sized limits_ after :=
  h.of_extra hsize [] (hlog.trans (List.append_nil _).symm) fun _ => List.not_mem_nil

/-- More is read only while what is there is shorter than a request may be. -/
theorem Sized.read_more {self : TcpConnection H} (h : Sized limits_ self) (hbounds : self.InBounds)
    (hshort : self.unconsumed.length < limits_.max_header_bytes + limits_.max_body_bytes) :
    Sized limits_ self.read_more := by
  constructor
  · obtain hsame | hgrown := TcpConnection.read_more_size hbounds
    · exact hsame ▸ h.size
    · exact .inr (by omega)
  · obtain ⟨buffer_, _, write_pos_, heq, _, hless, _⟩ := TcpConnection.read_more_spec hbounds
    rw [heq]
    intro room hroom
    obtain hold | hnew := List.mem_append.mp hroom
    · exact h.rooms room hold
    · obtain rfl : room = buffer_.size - write_pos_ := by simpa using hnew
      omega

/-- A refusal leaves the buffer as it is. -/
theorem Sized.fail {self : TcpConnection H} (h : Sized limits_ self) (hopen : self.phase_ ≠ .closed)
    {status : Int} (hstatus : ¬ (status < 200 ∨ 599 < status)) : Sized limits_ (self.fail status) := by
  obtain ⟨header_payload_, _, heq⟩ := self.fail_eq status hopen hstatus
  rw [heq]
  exact h.of_extra rfl [.fail status, .async_write header_payload_ (TcpConnection.failure status).body] rfl
    (by simp)

theorem Sized.close {self : TcpConnection H} (h : Sized limits_ self) : Sized limits_ self.close := by
  obtain ⟨effects, hlog, hcalls⟩ := self.close_log
  refine h.of_extra (by rw [TcpConnection.close_frame]) effects hlog fun room hroom => ?_
  obtain ⟨id, hcall⟩ := hcalls _ hroom
  cases hcall

theorem close_phase (self : TcpConnection H) : self.close.phase_ = .closed := by rw [TcpConnection.close_frame]

/-- Parsing a head grows nothing and reads nothing. -/
theorem Sized.headed {self base : TcpConnection H} (h : Sized limits_ self)
    (hbase : TcpConnection.Headed self base) : Sized limits_ base := by
  rw [hbase.frame]
  exact h.of_same rfl rfl

/-- A head that has been parsed is within the limits. -/
theorem Within.headed {self base : TcpConnection H} (h : Within limits_ self)
    (hbase : TcpConnection.Headed self base) : Within limits_ base := by
  cases hbase with
  | waiting hphase => exact h
  | parsed stop req hphase hfind hparse =>
    obtain ⟨hsize, hbody⟩ := parse_headers_bounds hparse
    have hinside : stop + 4 ≤ self.unconsumed.length := findSub_add_length_le hfind
    rw [List.length_take, Nat.min_eq_left hinside, h.limits] at hsize
    rw [h.limits] at hbody
    exact ⟨h.limits, fun _ => hsize, fun _ => hbody⟩

/-- A turn of the loop keeps the bounds, and where it reads on it has consumed
nothing, so that a full buffer holds one incomplete request. -/
theorem process_input_sized {env : Environment H} {self after : TcpConnection H}
    (hvalid : limits_.validate = .ok ()) (hready : self.Ready) (hwithin : Within limits_ self)
    (h : Sized limits_ self) (hrun : self.process_input env = .ok after) :
    Sized limits_ after ∧
      (after.phase_ = .headers ∨ after.phase_ = .body → after.unconsumed = self.unconsumed) := by
  have hopen := TcpConnection.open_of_reading hready.phase
  have hlimits := hwithin.limits
  have houtcome := TcpConnection.process_input_outcome env self
  generalize self.process_input env = result at hrun houtcome
  cases houtcome with
  | idle =>
    cases hrun
    exact ⟨h, fun _ => rfl⟩
  | oversized =>
    cases hrun
    obtain ⟨_, _, heq⟩ := self.fail_eq 431 hopen (by omega)
    exact ⟨h.fail hopen (by omega), by simp [heq]⟩
  | headless _ _ hshort =>
    cases hrun
    rw [hlimits] at hshort
    exact ⟨h.read_more hready.inBounds (by omega),
      fun _ => TcpConnection.read_more_unconsumed hready.inBounds⟩
  | refused stop status _ _ _ hstatus =>
    cases hrun
    have hsupported := TcpConnection.supported_of_parseFailure hstatus
    obtain ⟨_, _, heq⟩ :=
      TcpConnection.fail_eq { self with header_size_ := stop + 4 } status hopen hsupported
    have hfound : Sized limits_ { self with header_size_ := stop + 4 } := h.of_same rfl rfl
    exact ⟨hfound.fail hopen hsupported, by simp [heq]⟩
  | displaced => cases hrun
  | awaits base hbase hshort =>
    cases hrun
    obtain ⟨_, hsum⟩ := (hwithin.headed hbase).total hvalid hbase.phase
    have hbounds := hbase.inBounds hready.inBounds
    rw [← hbase.unconsumed] at hshort ⊢
    exact ⟨(h.headed hbase).read_more hbounds (by omega),
      fun _ => TcpConnection.read_more_unconsumed hbounds⟩
  | complete base hbase =>
    obtain ⟨_, _, _, rfl⟩ := TcpConnection.respond_inv hrun
    refine ⟨(h.headed hbase).of_extra rfl _ rfl (by simp), fun hphase => ?_⟩
    obtain hphase | hphase := hphase <;> cases hphase

/-- The invariant of the rolling buffer between two callbacks. -/
structure Bounded (limits_ : HttpLimits) (conn : TcpConnection H) : Prop where
  regular : conn.Regular
  within : Within limits_ conn
  sized : Sized limits_ conn

/-- Every step keeps the bounds, and where it reads on the bytes that arrive with
it stand behind what was unconsumed. -/
theorem step_sized {self after : TcpConnection H} {label : TcpConnection.Label H}
    (hvalid : limits_.validate = .ok ()) (h : Bounded limits_ self) (hstep : self.Step label after) :
    Sized limits_ after ∧ (after.phase_ = .headers ∨ after.phase_ = .body →
      after.unconsumed = self.unconsumed ++ label.event.bytes) := by
  cases TcpConnection.step_cases h.regular hstep with
  | stopped force hevent =>
    have hdraining : Sized limits_ { self with draining_ := true } := h.sized.of_same rfl rfl
    rw [hevent]
    obtain ⟨_, heq⟩ | ⟨_, _, heq⟩ := self.stop_cases force
    · rw [heq]
      exact ⟨hdraining.close, by simp [close_phase]⟩
    · rw [heq]
      exact ⟨hdraining, fun _ => (List.append_nil _).symm⟩
  | ignored mem pending hphase => exact ⟨h.sized.of_same rfl rfl, by simp [hphase]⟩
  | closed before hbefore =>
    have hsized : Sized limits_ before := by
      rw [hbefore]
      exact h.sized.of_same rfl rfl
    exact ⟨hsized.close, by simp [close_phase]⟩
  | received chunk _ hevent hphase hroom hrun =>
    obtain ⟨hready, hsame⟩ := h.regular.arrived hphase hroom
    have hwithin : Within limits_ (self.arrived chunk) := ⟨h.within.limits, h.within.head, h.within.body⟩
    rw [hevent, TcpConnection.Event.bytes, ← hsame]
    exact process_input_sized hvalid hready hwithin (h.sized.of_same rfl rfl) hrun
  | processed _ hevent _ _ hrun =>
    have hwithin : Within limits_ self.resumed :=
      .of_other_phase h.within.limits (by simp [TcpConnection.resumed])
    rw [hevent, TcpConnection.Event.bytes_written, List.append_nil]
    have hresumed : Sized limits_ self.resumed := h.sized.of_same rfl rfl
    obtain ⟨hsized, hkept⟩ := process_input_sized hvalid h.regular.resumed hwithin hresumed hrun
    exact ⟨hsized, hkept⟩
  | idle hevent _ _ hempty =>
    have hready := h.regular.resumed
    have hnothing : self.resumed.unconsumed = self.unconsumed := rfl
    have hresumed : Sized limits_ self.resumed := h.sized.of_same rfl rfl
    obtain ⟨hsmall, _⟩ := HttpLimits.validate_ok hvalid
    rw [hevent, TcpConnection.Event.bytes_written, List.append_nil]
    refine ⟨hresumed.read_more hready.inBounds ?_, fun _ => ?_⟩
    · rw [hnothing, hempty, List.length_nil]
      omega
    · rw [TcpConnection.read_more_unconsumed hready.inBounds, hnothing]

/-- One step: the buffer grows only where a request within the limits does not fit,
so to less than twice its size. -/
theorem Bounded.step {self after : TcpConnection H} {label : TcpConnection.Label H}
    (hvalid : limits_.validate = .ok ())
    (hsum : limits_.max_header_bytes + limits_.max_body_bytes ≤ 2 ^ 62) (h : Bounded limits_ self)
    (hstep : Step self label after) : Bounded limits_ after := by
  have hexact : self.Step label after := (step_eq h.regular (h.sized.lt hsum) label).symm.trans hstep
  obtain ⟨hsized, _⟩ := step_sized hvalid h hexact
  exact ⟨h.regular.step hexact, step_within h.within hstep, hsized⟩

variable {env : Environment H} {dispatcher_ : core.RequestDispatcher H} {first final : TcpConnection H}
  {labels : List (TcpConnection.Label H)}

theorem start_eq (env : Environment H) (dispatcher_ : core.RequestDispatcher H) (limits_ : HttpLimits)
    (id_ : Nat := 0) :
    start env { dispatcher_, limits_, id_ } = ({ dispatcher_, limits_, id_ } : TcpConnection H).start env := by
  have hready := TcpConnection.accepted_ready dispatcher_ limits_ id_
  rw [start, begin_request, if_neg (by simp), if_neg (by simp),
    TcpConnection.start_eq env dispatcher_ limits_ id_]
  exact process_input_eq env hready.inBounds (by simp [BUFFER_SIZE])

/-- A new connection has the buffer of the source. -/
theorem start_bounded {id_ : Nat} (hvalid : limits_.validate = .ok ())
    (hstart : start env { dispatcher_, limits_, id_ } = .ok first) : Bounded limits_ first := by
  have hready := TcpConnection.accepted_ready dispatcher_ limits_ id_
  have hwithin : Within limits_ ({ dispatcher_, limits_, id_ } : TcpConnection H) :=
    .of_other_phase rfl (by simp)
  have hsized : Sized limits_ ({ dispatcher_, limits_, id_ } : TcpConnection H) := ⟨.inl le_rfl, by simp⟩
  have hrun := hstart
  rw [start_eq env dispatcher_ limits_ id_, TcpConnection.start_eq env dispatcher_ limits_ id_] at hrun
  exact ⟨hready.process_input hrun, start_within hstart,
    (process_input_sized hvalid hready hwithin hsized hrun).1⟩

/-- The bound on the buffer holds in every reachable state, by induction on the run.
-/
theorem bounded_of_run {id_ : Nat} (hvalid : limits_.validate = .ok ())
    (hsum : limits_.max_header_bytes + limits_.max_body_bytes ≤ 2 ^ 62)
    (hstart : start env { dispatcher_, limits_, id_ } = .ok first) (hrun : Run Step first labels final) :
    Bounded limits_ final :=
  hrun.invariant (fun _ conn => Bounded limits_ conn) (start_bounded hvalid hstart)
    fun _ _ _ _ hbefore hstep => hbefore.step hvalid hsum hstep

/-- A connection whose limits are moderate runs as it does in exact arithmetic. -/
theorem run_iff {id_ : Nat} (hvalid : limits_.validate = .ok ())
    (hsum : limits_.max_header_bytes + limits_.max_body_bytes ≤ 2 ^ 62)
    (hstart : start env { dispatcher_, limits_, id_ } = .ok first) :
    Run Step first labels final ↔ Run TcpConnection.Step first labels final := by
  constructor
  · intro hrun
    induction hrun with
    | nil => exact .nil
    | snoc run next ih =>
      have hbefore := bounded_of_run hvalid hsum hstart run
      exact ih.snoc ((step_eq hbefore.regular (hbefore.sized.lt hsum) _).symm.trans next)
  · intro hrun
    induction hrun with
    | nil => exact .nil
    | snoc run next ih =>
      have hbefore := bounded_of_run hvalid hsum hstart ih
      exact ih.snoc ((step_eq hbefore.regular (hbefore.sized.lt hsum) _).trans next)

/-- The size of the request that is awaited has not wrapped and is within the limits. -/
def SizeExact (limits_ : HttpLimits) (conn : TcpConnection H) : Prop :=
  conn.total_req_bytes = conn.header_size_ + conn.request_.content_length ∧
    conn.header_size_ + conn.request_.content_length ≤ limits_.max_header_bytes + limits_.max_body_bytes

/-- The rolling buffer is in bounds and bounded, and reading on loses nothing. -/
structure BufferSound (limits_ : HttpLimits) (conn : TcpConnection H) : Prop where
  ordered : conn.read_pos_ ≤ conn.write_pos_
  inside : conn.write_pos_ ≤ conn.buffer_.size
  bounded : conn.buffer_.size ≤ max BUFFER_SIZE (2 * (limits_.max_header_bytes + limits_.max_body_bytes))
  room : ∀ room, .async_read_some room ∈ conn.log → 0 < room
  kept : unconsumed (read_more conn) = unconsumed conn
  appended : ∀ label after, Step conn label after → after.phase_ = .headers ∨ after.phase_ = .body →
    unconsumed after = unconsumed conn ++ label.event.bytes

/-- The total of a request under way is exact: head and body were added without overflow. -/
theorem Within.sizeExact {self : TcpConnection H} (h : Within limits_ self)
    (hvalid : limits_.validate = .ok ()) (hphase : self.phase_ = .body) : SizeExact limits_ self := by
  obtain ⟨hexact, hsum⟩ := h.total hvalid hphase
  exact ⟨hexact, hexact ▸ hsum⟩

/-- What the invariant says about the buffer between two callbacks: its positions are
in order, its size is bounded and every read has had room. -/
theorem Bounded.bufferSound {self : TcpConnection H} (hvalid : limits_.validate = .ok ())
    (hsum : limits_.max_header_bytes + limits_.max_body_bytes ≤ 2 ^ 62) (h : Bounded limits_ self) :
    BufferSound limits_ self := by
  have hbounds := h.regular.inBounds
  have hsize := h.sized.lt hsum
  have hbounded := h.sized.size
  refine ⟨hbounds.ordered, hbounds.inside, by omega, h.sized.rooms, ?_,
    fun label after hstep hphase => ?_⟩
  · have hmore : (TcpConnection.read_more self).InBounds := by
      obtain ⟨_, _, _, heq, hordered, hless, _⟩ := TcpConnection.read_more_spec hbounds
      rw [heq]
      exact ⟨hordered, Nat.le_of_lt hless, by dsimp only; omega⟩
    have hgrown : self.read_more.buffer_.size < 2 ^ 64 := by
      have hinside := hbounds.inside
      have hlength := self.length_unconsumed
      obtain hsame | hdoubled := TcpConnection.read_more_size hbounds <;> omega
    rw [read_more_eq hbounds hsize, unconsumed_eq hmore hgrown, unconsumed_eq hbounds (by omega)]
    exact TcpConnection.read_more_unconsumed hbounds
  · have hexact : self.Step label after := (step_eq h.regular hsize label).symm.trans hstep
    have hafter := h.step hvalid hsum hstep
    have hafterSize := hafter.sized.lt hsum
    rw [unconsumed_eq hafter.regular.inBounds (by omega), unconsumed_eq hbounds (by omega)]
    exact (step_sized hvalid h hexact).2 hphase

theorem within_of_run (hstart : start env { dispatcher_, limits_ } = .ok first)
    (hrun : Run Step first labels final) : Within limits_ final :=
  hrun.invariant (fun _ conn => Within limits_ conn) (start_within hstart)
    fun _ _ _ _ hbefore hstep => step_within hbefore hstep

/-- In every run within validated limits the size of a request does not wrap, and
with moderate ones the rolling buffer stays in bounds and bounded. -/
theorem rolling_buffer (hvalid : limits_.validate = .ok ())
    (hstart : start env { dispatcher_, limits_ } = .ok first) (hrun : Run Step first labels final) :
    (final.phase_ = .body → SizeExact limits_ final) ∧
      (∀ conn base : TcpConnection H, conn.limits_ = final.limits_ → conn.phase_ = .headers →
        process_headers conn = .ok (base, true) → SizeExact limits_ base) ∧
      (limits_.max_header_bytes + limits_.max_body_bytes ≤ 2 ^ 62 → BufferSound limits_ final) := by
  have hwithin := within_of_run hstart hrun
  refine ⟨hwithin.sizeExact hvalid, fun conn base hlimits hphase hparsed => ?_, fun hsum => ?_⟩
  · obtain ⟨hbase, htaken⟩ :=
      process_headers_within (by simp [hphase]) (hlimits.trans hwithin.limits) hparsed
    exact hbase.sizeExact hvalid (htaken rfl)
  · exact (bounded_of_run hvalid hsum hstart hrun).bufferSound hvalid hsum

theorem rolling_buffer_home :
    ∃ final, Run Step
      (TcpConnection.async_read_some { dispatcher_ := TcpConnection.homePage, limits_ := .defaults })
      TcpConnection.homeReads final ∧ BufferSound .defaults final := by
  have hvalid := HttpLimits.validate_defaults
  have hstart := TcpConnection.start_reading (TcpConnection.answering TcpConnection.greeting)
    TcpConnection.homePage .defaults (by decide)
  rw [← start_eq] at hstart
  obtain ⟨final, hexact, _⟩ := TcpConnection.exists_run_of_check
    (TcpConnection.async_read_some { dispatcher_ := TcpConnection.homePage, limits_ := .defaults })
    TcpConnection.homeReads (fun final => final.phase_ = .headers) (by decide +kernel)
  have hrun := (run_iff hvalid (by decide) hstart).mpr hexact
  exact ⟨final, hrun, (rolling_buffer hvalid hstart hrun).2.2 (by decide)⟩

end octane.transport.machine
