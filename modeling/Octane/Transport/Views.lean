import Octane.Transport.Containment
import Octane.Transport.Steps

open search transition

namespace octane

/-- The bytes that the views of an entry show. -/
def shown (entry : StringView × StringView) : Bytes × Bytes := (entry.1.bytes, entry.2.bytes)

/-- Two requests show the same path, version, headers, query and cookies. -/
structure SameViews (seen req : HttpRequest) : Prop where
  path : seen.path.bytes = req.path.bytes
  http_version : seen.http_version.bytes = req.http_version.bytes
  headers : seen.headers.entries.map shown = req.headers.entries.map shown
  query : seen.query.entries.map shown = req.query.entries.map shown
  cookies : seen.cookies.entries.map shown = req.cookies.entries.map shown

/-- A view into a block shows the same bytes wherever the block lies in memory. -/
theorem StringView.reread_shift {v : StringView} {block : Bytes} (hpart : v.Part (.ofBytes block))
    {mem : Nat → UInt8} {pos : Nat} (hplace : memory.read mem pos block.length = block) :
    ((v.shift pos).reread mem).bytes = v.bytes := by
  obtain ⟨k, hoff, hbytes⟩ := hpart
  have hblock : (StringView.ofBytes block).bytes = block := rfl
  rw [hblock] at hbytes
  have hlength := hbytes.length_le
  rw [List.length_drop] at hlength
  have hstart : v.off + pos = pos + k := by
    rw [hoff, show (StringView.ofBytes block).off = 0 from rfl]
    omega
  calc
    ((v.shift pos).reread mem).bytes = memory.read mem (pos + k) v.bytes.length := by
      rw [← hstart]
      rfl
    _ = ((memory.read mem pos block.length).drop k).take v.bytes.length := by
      rw [memory.drop_read, memory.take_read _ _ hlength]
    _ = v.bytes := by
      rw [hplace]
      exact (List.prefix_iff_eq_take.mp hbytes).symm

/-- A map of views into a block shows the same bytes wherever the block lies. -/
theorem map_shown_reread {map : UnorderedMap StringView StringView} {block : Bytes}
    (hcut : HttpParser.CutFrom (.ofBytes block) map) {mem : Nat → UInt8} {pos : Nat}
    (hplace : memory.read mem pos block.length = block) :
    ((map.mapEntries (StringView.shift pos) (StringView.shift pos)).mapEntries
      (StringView.reread mem) (StringView.reread mem)).entries.map shown = map.entries.map shown := by
  simp only [UnorderedMap.mapEntries, List.map_map]
  apply List.map_congr_left
  intro entry hentry
  obtain ⟨hkey, hvalue⟩ := hcut entry hentry
  exact Prod.ext (StringView.reread_shift hkey hplace) (StringView.reread_shift hvalue hplace)

/-- A parsed request shows what was parsed as long as its block stays in place. -/
theorem sameViews_reread {block : Bytes} {limits : HttpLimits} {req : HttpRequest}
    (hparse : HttpParser.parse_headers block limits = .ok req) {mem : Nat → UInt8} {pos : Nat}
    (hplace : memory.read mem pos block.length = block) :
    SameViews ((req.mapViews (StringView.shift pos)).mapViews (StringView.reread mem)) req := by
  have hsafe := HttpParser.parse_headers_safe block limits
  rw [hparse] at hsafe
  obtain ⟨hpath, hversion, ⟨hheaders, hquery, hcookies⟩, _⟩ := hsafe
  exact ⟨StringView.reread_shift hpath hplace, StringView.reread_shift hversion hplace,
    map_shown_reread hheaders hplace, map_shown_reread hquery hplace, map_shown_reread hcookies hplace⟩

namespace transport.TcpConnection

variable {H : Type}

/-- The block of the current head is still where the head was parsed, in storage
that has not been reallocated. -/
structure Held (conn : TcpConnection H) (req : HttpRequest) : Prop where
  parse : HttpParser.parse_headers conn.origin.block conn.limits_ = .ok req
  request : conn.request_ = req.mapViews (StringView.shift conn.origin.pos)
  alloc : conn.origin.alloc = conn.buffer_.alloc
  inPlace : memory.read conn.buffer_.mem conn.origin.pos conn.origin.block.length = conn.origin.block
  pos : conn.read_pos_ = 0 ∨ conn.read_pos_ = conn.origin.pos

/-- What a handler is shown while the block is held is what was parsed. -/
theorem Held.observe {self : TcpConnection H} {req : HttpRequest} (h : self.Held req)
    (freed : Nat → UInt8) : SameViews (self.withBody.observe freed) req := by
  obtain ⟨hpath, hversion, hheaders, hquery, hcookies⟩ := sameViews_reread h.parse h.inPlace
  have hmem : (if self.withBody.origin.alloc = self.withBody.buffer_.alloc
      then self.withBody.buffer_.mem else freed) = self.buffer_.mem := if_pos h.alloc
  rw [TcpConnection.observe, hmem, withBody, h.request]
  exact ⟨hpath, hversion, hheaders, hquery, hcookies⟩

/-- A head that has just been parsed is in place. -/
theorem parsedHead_held {self : TcpConnection H} {stop : Nat} {req : HttpRequest}
    (hfind : findSub CRLFCRLF self.unconsumed = some stop)
    (hparse : HttpParser.parse_headers (self.unconsumed.take (stop + 4)) self.limits_ = .ok req) :
    (self.parsedHead stop req).Held req := by
  refine ⟨hparse, rfl, rfl, ?_, .inr rfl⟩
  have hinside : stop + 4 ≤ self.unconsumed.length := findSub_add_length_le hfind
  have hblock : self.unconsumed.take (stop + 4) = memory.read self.buffer_.mem self.read_pos_ (stop + 4) := by
    rw [length_unconsumed] at hinside
    rw [unconsumed, memory.take_read _ _ hinside]
  dsimp only [parsedHead]
  rw [hblock, memory.length_read]

/-- A request whose head has arrived and whose body has not. -/
def AwaitsBody (conn : TcpConnection H) : Prop :=
  ∃ base, Headed conn base ∧ conn.unconsumed.length < base.total_req_bytes

/-- Making room reallocates nothing and moves nothing over the front of the
unconsumed bytes. -/
structure KeepsFront (conn : TcpConnection H) : Prop where
  fits : conn.read_pos_ = 0 → conn.write_pos_ < conn.buffer_.size
  apart : 0 < conn.read_pos_ → conn.buffer_.size - conn.write_pos_ < 4096 →
    conn.write_pos_ - conn.read_pos_ ≤ conn.read_pos_

/-- Making room keeps the block, if it neither grows the storage nor moves other
bytes onto it. -/
theorem read_more_held {self : TcpConnection H} {req : HttpRequest} (hbounds : self.InBounds)
    (h : self.Held req) (hkeeps : self.KeepsFront) : self.read_more.Held req := by
  obtain ⟨hordered, hinside, hroom⟩ := hbounds
  obtain ⟨hfits, hapart⟩ := hkeeps
  obtain ⟨hparse, hrequest, halloc, hplace, hpos⟩ := h
  by_cases hmove : 0 < self.read_pos_ ∧ self.buffer_.size - self.write_pos_ < 4096
  · have hclear := hapart hmove.1 hmove.2
    have hgrow : self.compact.grow = self.compact := by
      rw [grow, compact, if_pos hmove]
      dsimp only
      rw [if_neg (by omega)]
    rw [read_more, hgrow, compact, if_pos hmove]
    refine ⟨hparse, hrequest, halloc, ?_, .inl rfl⟩
    have hbehind : 0 + (self.write_pos_ - self.read_pos_) ≤ self.origin.pos := by omega
    exact (memory.read_move_of_le _ hbehind _ _).trans hplace
  · have hgrow : self.compact.grow = self := by
      rw [compact, if_neg hmove, grow, if_neg (by omega)]
    rw [read_more, hgrow]
    exact ⟨hparse, hrequest, halloc, hplace, hpos⟩

/-- No byte of a chunk is stored over the current head. -/
def Clear (conn : TcpConnection H) (chunk : Bytes) : Prop :=
  ∀ k < chunk.length, conn.write_pos_ + k < conn.origin.pos ∨
    conn.origin.pos + conn.origin.block.length ≤ conn.write_pos_ + k

/-- Bytes that arrive clear of the block leave it where it is. -/
theorem arrived_held {self : TcpConnection H} {req : HttpRequest} {chunk : Bytes}
    (h : self.Held req) (hclear : self.Clear chunk) : (self.arrived chunk).Held req := by
  refine ⟨h.parse, h.request, h.alloc, ?_, h.pos⟩
  exact (memory.read_write_of_clear _ hclear).trans h.inPlace

/-- The connection on which a completed operation goes on to look at its bytes. -/
def completed (self : TcpConnection H) : Event → Option (TcpConnection H)
  | .read chunk =>
    if self.phase_ = .headers ∨ self.phase_ = .body then some (self.arrived chunk) else none
  | .written =>
    if self.phase_ = .writing ∧ self.close_after_write_ = false ∧ self.draining_ = false then
      some self.resumed
    else none
  | _ => none

/-- Nothing is stored, moved or reallocated over the head of a request that
waits for its body. -/
structure Undisturbed (conn : TcpConnection H) (label : Label H) : Prop where
  clear : ∀ chunk, label.event = .read chunk → conn.phase_ = .body → conn.Clear chunk
  keeps : ∀ ready, conn.completed label.event = some ready → ready.AwaitsBody → ready.KeepsFront

/-- Every request that has been dispatched showed what its own head was parsed to. -/
def Faithful (limits_ : HttpLimits) (log : List Effect) : Prop :=
  ∀ block seen close response, Effect.dispatch_response block seen close response ∈ log →
    ∃ req, HttpParser.parse_headers block limits_ = .ok req ∧ SameViews seen req

/-- Effects that dispatch nothing leave the log faithful. -/
theorem Faithful.append {limits_ : HttpLimits} {log effects : List Effect} (h : Faithful limits_ log)
    (heffects : ∀ block seen close response,
      Effect.dispatch_response block seen close response ∉ effects) : Faithful limits_ (log ++ effects) := by
  intro block seen close response hmem
  obtain hold | hnew := List.mem_append.mp hmem
  · exact h block seen close response hold
  · exact absurd hnew (heffects block seen close response)

/-- What holds between the callbacks of an undisturbed run. -/
structure Intact (limits_ : HttpLimits) (conn : TcpConnection H) : Prop where
  regular : conn.Regular
  limits : conn.limits_ = limits_
  held : conn.phase_ = .body → ∃ req, conn.Held req
  log : Faithful limits_ conn.log

theorem read_more_frame (self : TcpConnection H) :
    self.read_more = { self with
      buffer_ := self.read_more.buffer_
      read_pos_ := self.read_more.read_pos_
      write_pos_ := self.read_more.write_pos_
      pending := self.read_more.pending
      log := self.read_more.log } := by
  rw [read_more, async_read_some, grow_frame, compact_frame]

/-- Asking for more dispatches nothing. -/
theorem read_more_faithful {self : TcpConnection H} {limits_ : HttpLimits}
    (h : Faithful limits_ self.log) : Faithful limits_ self.read_more.log := by
  obtain ⟨room, hlog⟩ := self.read_more_log
  rw [hlog]
  exact h.append (by simp)

/-- A refusal dispatches nothing. -/
theorem fail_intact {self : TcpConnection H} {limits_ : HttpLimits} {status : Int}
    (hregular : (self.fail status).Regular) (hopen : self.phase_ ≠ .closed)
    (hstatus : ¬ (status < 200 ∨ 599 < status)) (hlimits : self.limits_ = limits_)
    (hlog : Faithful limits_ self.log) : Intact limits_ (self.fail status) := by
  obtain ⟨_, _, heq⟩ := fail_eq self status hopen hstatus
  rw [heq] at hregular ⊢
  exact ⟨hregular, hlimits, fun hbody => (by cases hbody), hlog.append (by simp)⟩

/-- The head of an undisturbed request is in place when its body is awaited and
when it is dispatched. -/
theorem Headed.held {self base : TcpConnection H} (hbase : Headed self base)
    (hself : self.phase_ = .body → ∃ req, self.Held req) : ∃ req, base.Held req := by
  cases hbase with
  | waiting hphase => exact hself hphase
  | parsed stop req hphase hfind hparse => exact ⟨req, parsedHead_held hfind hparse⟩

/-- One callback: a head parsed now is in place, one parsed before has been kept,
and what is dispatched shows it. -/
theorem process_input_intact {env : Environment H} {self after : TcpConnection H} {limits_ : HttpLimits}
    (hready : self.Ready) (hlimits : self.limits_ = limits_)
    (hheld : self.phase_ = .body → ∃ req, self.Held req) (hlog : Faithful limits_ self.log)
    (hkeeps : self.AwaitsBody → self.KeepsFront) (hrun : self.process_input env = .ok after) :
    Intact limits_ after := by
  have hregular := hready.process_input hrun
  have hopen := open_of_reading hready.phase
  have houtcome := process_input_outcome env self
  generalize self.process_input env = result at hrun houtcome
  cases houtcome with
  | idle hphase =>
    cases hrun
    exact ⟨hregular, hlimits, hheld, hlog⟩
  | oversized =>
    cases hrun
    exact fail_intact hregular hopen (by omega) hlimits hlog
  | headless hphase =>
    cases hrun
    refine ⟨hregular, ?_, fun hbody => ?_, read_more_faithful hlog⟩
    · rw [read_more_frame]
      exact hlimits
    · rw [read_more_frame] at hbody
      exact absurd (hphase.symm.trans hbody) (by simp)
  | refused stop status _ _ _ hstatus =>
    cases hrun
    exact fail_intact hregular hopen (supported_of_parseFailure hstatus) hlimits hlog
  | displaced => cases hrun
  | awaits base hbase hshort =>
    cases hrun
    obtain ⟨req, hreq⟩ := hbase.held hheld
    have hfront := hkeeps ⟨base, hbase, hshort⟩
    have hbasefront : base.KeepsFront := by
      rw [hbase.frame]
      exact ⟨hfront.fits, hfront.apart⟩
    obtain ⟨hsame, hbefore, _⟩ := hbase.same
    refine ⟨hregular, ?_, fun _ => ⟨req, read_more_held (hbase.inBounds hready.inBounds) hreq hbasefront⟩,
      read_more_faithful ?_⟩
    · rw [read_more_frame]
      exact hsame.trans hlimits
    · rw [hbefore]
      exact hlog
  | complete base hbase =>
    obtain ⟨req, hreq⟩ := hbase.held hheld
    obtain ⟨hsame, hbefore, _⟩ := hbase.same
    obtain ⟨_, _, _, rfl⟩ := respond_inv hrun
    refine ⟨hregular, hsame.trans hlimits, fun hbody => (by cases hbody), ?_⟩
    intro block seen close response hmem
    obtain hold | hnew := List.mem_append.mp hmem
    · have hmember : Effect.dispatch_response block seen close response ∈ self.log := by
        rw [← hbefore]
        exact hold
      exact hlog block seen close response hmember
    · obtain hdispatch | hwrite := List.mem_pair.mp hnew
      · cases hdispatch
        refine ⟨req, ?_, hreq.observe env.freed⟩
        rw [← hlimits, ← hsame]
        exact hreq.parse
      · cases hwrite

/-- A connection that closes dispatches nothing more. -/
theorem close_intact {self : TcpConnection H} {limits_ : HttpLimits} (hregular : self.close.Regular)
    (hlimits : self.limits_ = limits_) (hlog : Faithful limits_ self.log) : Intact limits_ self.close := by
  obtain ⟨effects, heffects, hcalls⟩ := self.close_log
  refine ⟨hregular, ?_, fun hbody => ?_, ?_⟩
  · rw [close_frame]
    exact hlimits
  · rw [close_frame] at hbody
    cases hbody
  · rw [heffects]
    refine hlog.append fun block seen close response hmember => ?_
    obtain ⟨id, hcall⟩ := hcalls _ hmember
    cases hcall

theorem stop_intact {self : TcpConnection H} {limits_ : HttpLimits} (h : Intact limits_ self)
    (force : Bool) : Intact limits_ (self.stop force) := by
  have hregular := stop_regular h.regular force
  obtain ⟨_, heq⟩ | ⟨_, _, heq⟩ := self.stop_cases force
  · rw [heq] at hregular ⊢
    exact close_intact hregular h.limits h.log
  · rw [heq] at hregular ⊢
    refine ⟨hregular, h.limits, fun hbody => ?_, h.log⟩
    obtain ⟨req, hreq⟩ := h.held hbody
    exact ⟨req, hreq.parse, hreq.request, hreq.alloc, hreq.inPlace, hreq.pos⟩

/-- An undisturbed step keeps the heads in place. The head of a request that waits for
its body is the only one that views point to. -/
theorem Intact.step {self after : TcpConnection H} {label : Label H} {limits_ : HttpLimits}
    (h : Intact limits_ self) (hguard : self.Undisturbed label) (hstep : self.Step label after) :
    Intact limits_ after := by
  have hregular := h.regular.step hstep
  cases step_cases h.regular hstep with
  | stopped force => exact stop_intact h force
  | ignored mem pending hphase =>
    exact ⟨hregular, h.limits, fun hbody => absurd (hphase.symm.trans hbody) (by simp), h.log⟩
  | closed before hbefore =>
    refine close_intact hregular ?_ ?_
    · rw [hbefore]
      exact h.limits
    · rw [hbefore]
      exact h.log
  | received chunk _ hevent hphase hroom hrun =>
    have hkeeps := hguard.keeps (self.arrived chunk) (by rw [hevent, completed, if_pos hphase])
    refine process_input_intact (h.regular.arrived hphase hroom).1 h.limits ?_ h.log hkeeps hrun
    intro hbody
    obtain ⟨req, hreq⟩ := h.held hbody
    exact ⟨req, arrived_held hreq (hguard.clear chunk hevent hbody)⟩
  | processed _ hevent hphase hopen hrun =>
    have hkeeps := hguard.keeps self.resumed (by rw [hevent, completed, if_pos ⟨hphase, hopen⟩])
    exact process_input_intact h.regular.resumed h.limits (fun hbody => (by cases hbody)) h.log hkeeps hrun
  | idle hevent hphase =>
    refine ⟨hregular, ?_, fun hbody => ?_, read_more_faithful h.log⟩
    · rw [read_more_frame]
      exact h.limits
    · rw [read_more_frame] at hbody
      cases hbody

/-- The heads are in place between the callbacks of an undisturbed run. -/
theorem intact_of_run {env : Environment H} {dispatcher_ : core.RequestDispatcher H} {limits_ : HttpLimits}
    {id_ : Nat} {first final : TcpConnection H} {labels : List (Label H)}
    (hstart : ({ dispatcher_, limits_, id_ } : TcpConnection H).start env = .ok first)
    (hrun : Run (Guarded Undisturbed Step) first labels final) : Intact limits_ final := by
  have hfirst : Intact limits_ first := by
    rw [start_eq env dispatcher_ limits_ id_] at hstart
    refine process_input_intact (accepted_ready dispatcher_ limits_ id_) rfl (fun hbody => (by cases hbody)) ?_
      ?_ hstart
    · intro _ _ _ _ hmem
      cases hmem
    · intro _
      exact ⟨fun _ => Nat.zero_lt_succ _, fun hread => absurd hread (Nat.lt_irrefl 0)⟩
  exact hrun.invariant (fun _ conn => Intact limits_ conn) hfirst
    fun _ _ _ _ hbefore hnext => hbefore.step hnext.1 hnext.2

/-- In an undisturbed run every handler sees its own request: the path, version,
headers, query and cookies that its head was parsed to, however many reads the
body took and whatever the buffer held before. -/
theorem dispatched_request_intact {env : Environment H} {dispatcher_ : core.RequestDispatcher H}
    {limits_ : HttpLimits} {first final : TcpConnection H} {labels : List (Label H)} {block : Bytes}
    {seen : HttpRequest} {close : Bool} {response : HttpResponse}
    (hstart : ({ dispatcher_, limits_ } : TcpConnection H).start env = .ok first)
    (hrun : Run (Guarded Undisturbed Step) first labels final)
    (hdispatch : .dispatch_response block seen close response ∈ final.log) :
    ∃ req, HttpParser.parse_headers block limits_ = .ok req ∧ SameViews seen req :=
  (intact_of_run hstart hrun).log block seen close response hdispatch

/-- A connection whose buffer has room behind its unconsumed bytes, or that need not
move them over the place they leave. -/
def spacious (self : TcpConnection H) : Bool :=
  decide ((self.read_pos_ = 0 → self.write_pos_ < self.buffer_.size) ∧
    (0 < self.read_pos_ → self.buffer_.size - self.write_pos_ < 4096 →
      self.write_pos_ - self.read_pos_ ≤ self.read_pos_))

/-- A test for what disturbs a request: what is read lies behind the head, and
there is room for more. -/
def roomy (self : TcpConnection H) (label : Label H) : Bool :=
  (match label.event with
    | .read _ => decide (self.phase_ = .body → self.origin.pos + self.origin.block.length ≤ self.write_pos_)
    | _ => true) &&
  match self.completed label.event with
  | some ready => ready.spacious
  | none => true

/-- The test is enough: bytes behind the head, and room that is there or made by a
move of fewer bytes than are free in front. -/
theorem roomy_undisturbed (self : TcpConnection H) (label : Label H) (h : self.roomy label = true) :
    self.Undisturbed label := by
  obtain ⟨hbehind, hready⟩ := Bool.and_eq_true_iff.mp h
  refine ⟨fun chunk hevent hbody k _ => ?_, fun ready hcompleted _ => ?_⟩
  · rw [hevent] at hbehind
    have hend := of_decide_eq_true hbehind hbody
    omega
  · rw [hcompleted] at hready
    obtain ⟨hfits, hapart⟩ := of_decide_eq_true hready
    exact ⟨hfits, hapart⟩

/-- A request with a body that arrives in three reads, the second of which ends
within the body. -/
def postRequest : Bytes := ascii "POST /a?b=c HTTP/1.1\r\nHost: x\r\nCookie: d=e\r\nContent-Length: 6\r\n\r\nabcdef"

def postReads : List (Label Unit) :=
  [⟨.read (postRequest.take 30), answering greeting⟩, ⟨.read ((postRequest.drop 30).take 37), answering greeting⟩,
    ⟨.read (postRequest.drop 67), answering greeting⟩]

/-- The effect is a dispatch of a request with this body. -/
def Effect.bringsBody (body : Bytes) : Effect → Bool
  | .dispatch_response _ seen _ _ => decide (seen.body = body)
  | _ => false

theorem dispatched_request_intact_post :
    ∃ final block seen close response,
      Run (Guarded Undisturbed Step) (async_read_some { dispatcher_ := homePage, limits_ := .defaults })
        postReads final ∧
      .dispatch_response block seen close response ∈ final.log ∧ seen.body = ascii "abcdef" ∧
      ∃ req, HttpParser.parse_headers block .defaults = .ok req ∧ SameViews seen req := by
  have hstart := start_reading (answering greeting) homePage .defaults (by decide)
  obtain ⟨final, hroomy, hdispatched⟩ := exists_guarded_run_of_check roomy
    (async_read_some { dispatcher_ := homePage, limits_ := .defaults }) postReads
    (fun final => ∃ effect ∈ final.log, Effect.bringsBody (ascii "abcdef") effect = true) (by decide +kernel)
  have hrun := hroomy.guarded_mono roomy_undisturbed
  obtain ⟨effect, hmem, heffect⟩ := hdispatched
  cases effect with
  | dispatch_response block seen close response =>
    exact ⟨final, block, seen, close, response, hrun, hmem, of_decide_eq_true heffect,
      dispatched_request_intact hstart hrun hmem⟩
  | _ => cases heffect

def uploadHead : Bytes := ascii "POST / HTTP/1.1\r\nHost: x\r\nContent-Length: 65536\r\n\r\n"

def uploadRequest : HttpRequest := (HttpParser.parse_headers uploadHead .defaults).toOption.getD {}

theorem uploadHead_parsed : HttpParser.parse_headers uploadHead .defaults = .ok uploadRequest := by
  decide +kernel

/-- A head followed by as much of its body as fits into the buffer. -/
@[irreducible] def uploadStart : Bytes := uploadHead ++ List.replicate 65485 97

@[irreducible] def uploadRest : Bytes := List.replicate 51 97

theorem length_uploadStart : uploadStart.length = 65536 := by
  rw [uploadStart, List.length_append, List.length_replicate]
  rfl

theorem length_uploadRest : uploadRest.length = 51 := by
  rw [uploadRest, List.length_replicate]

theorem take_uploadStart : uploadStart.take (47 + 4) = uploadHead := by
  rw [uploadStart]
  exact List.take_left' (by decide)

/-- A connection that waits for the rest of an upload in a reallocated buffer. -/
structure Uploading (conn : TcpConnection Unit) : Prop where
  regular : conn.Regular
  phase : conn.phase_ = .body
  unconsumed : conn.unconsumed = uploadStart
  room : 51 ≤ conn.buffer_.size - conn.write_pos_
  total : conn.total_req_bytes = 65587
  block : conn.origin.block = uploadHead
  path : conn.request_.path = uploadRequest.path.shift 0
  reallocated : conn.origin.alloc ≠ conn.buffer_.alloc

/-- The first part of an upload fills the buffer, which is then reallocated. -/
theorem uploadStart_waits {self : TcpConnection Unit} (hself : self.Ready) (hphase : self.phase_ = .headers)
    (hlimits : self.limits_ = .defaults) (hunconsumed : self.unconsumed = uploadStart) (hread : self.read_pos_ = 0)
    (hwrite : self.write_pos_ = 65536) (hsize : self.buffer_.size = 65536) (env : Environment Unit) :
    ∃ waiting, self.process_input env = .ok waiting ∧ waiting.Uploading := by
  have hfind : findSub CRLFCRLF uploadStart = some 47 := by
    rw [uploadStart]
    exact findSub_append (by decide) _
  have hbase : Headed self (self.parsedHead 47 uploadRequest) := by
    refine .parsed 47 uploadRequest hphase (by rw [hunconsumed, hfind]) ?_
    rw [hunconsumed, take_uploadStart, hlimits]
    exact uploadHead_parsed
  have hlength : uploadRequest.content_length = 65536 := by decide +kernel
  have htotal : (self.parsedHead 47 uploadRequest).total_req_bytes = 65587 := by
    rw [total_req_bytes]
    exact congrArg (fun length => (51 + length) % 2 ^ 64) hlength
  have hrun := hbase.process_input_awaits (by rw [hunconsumed, length_uploadStart, htotal]; decide) env
  have hgrown : (self.parsedHead 47 uploadRequest).read_more = async_read_some
      { self.parsedHead 47 uploadRequest with buffer_ := self.buffer_.resize (self.buffer_.size * 2) } := by
    rw [read_more, compact, if_neg (by simp [parsedHead, hread]), grow,
      if_pos (by simp [parsedHead, hwrite, hsize])]
    rfl
  have hkept := (read_more_unconsumed (hbase.inBounds hself.inBounds)).trans hbase.unconsumed
  refine ⟨_, hrun, hself.process_input hrun, ?_, hkept.trans hunconsumed, ?_, ?_, ?_, ?_, ?_⟩ <;> rw [hgrown]
  · rfl
  · show 51 ≤ self.buffer_.size * 2 - self.write_pos_
    omega
  · exact htotal
  · exact (congrArg (List.take (47 + 4)) hunconsumed).trans take_uploadStart
  · show uploadRequest.path.shift self.read_pos_ = uploadRequest.path.shift 0
    rw [hread]
  · exact (Nat.succ_ne_self _).symm

/-- The rest of the upload completes the request, which is dispatched with its views
into the storage that was given up. -/
theorem Uploading.dispatched {self : TcpConnection Unit} (h : self.Uploading) :
    ∃ final seen close response, self.Step ⟨.read uploadRest, answering greeting⟩ final ∧
      .dispatch_response uploadHead seen close response ∈ final.log ∧
      seen.path = (uploadRequest.path.shift 0).reread fun _ => 0 := by
  have hroom : uploadRest.length ≤ self.buffer_.size - self.write_pos_ := by
    rw [length_uploadRest]
    exact h.room
  obtain ⟨hturn, hall⟩ := h.regular.arrived (.inr h.phase) hroom
  have hlength : (self.arrived uploadRest).unconsumed.length = 65587 := by
    rw [hall, h.unconsumed, List.length_append, length_uploadStart, length_uploadRest]
  have hcomplete : Complete (self.arrived uploadRest) (self.arrived uploadRest) := by
    refine ⟨.waiting h.phase, hturn.head h.phase, ?_⟩
    rw [hlength]
    exact h.total.le
  have hpath : ((self.arrived uploadRest).withBody.observe fun _ => 0).path =
      (uploadRequest.path.shift 0).reread fun _ => 0 := by
    rw [observe, if_neg (by exact h.reallocated), ← h.path]
    rfl
  obtain ⟨header, hheader⟩ := answering_serializes greeting (by decide)
    (self.arrived uploadRest).withBody
  obtain ⟨_, hrespond⟩ := respond_ok (self.arrived uploadRest).total_req_bytes hheader
  have hstep := step_received h.regular (.inr h.phase) hroom (answering greeting)
  rw [hcomplete.process_input_eq, hrespond] at hstep
  refine ⟨_, _, (self.arrived uploadRest).withBody.closing,
    ((self.arrived uploadRest).withBody.exchange (answering greeting)).2, hstep, ?_, hpath⟩
  rw [← h.block]
  exact List.mem_append_right _ List.mem_cons_self

/-- The handler of an upload is shown what the freed buffer holds by then: the buffer
was full when its body was not, and growing it moved the bytes elsewhere. -/
theorem reallocated_head_lost :
    ∃ first final seen close response,
      ({ dispatcher_ := homePage, limits_ := .defaults } : TcpConnection Unit).start (answering greeting) =
        .ok first ∧
      Run Step first [⟨.read uploadStart, answering greeting⟩, ⟨.read uploadRest, answering greeting⟩]
        final ∧
      .dispatch_response uploadHead seen close response ∈ final.log ∧
      ¬ ∃ req, HttpParser.parse_headers uploadHead .defaults = .ok req ∧ SameViews seen req := by
  have hstart := start_reading (answering greeting) homePage .defaults (by decide)
  have hregular := regular_of_run hstart .nil
  generalize hreading : async_read_some { dispatcher_ := homePage, limits_ := .defaults } = first at *
  have hphase : first.phase_ = .headers := by rw [← hreading]; rfl
  have hsize : first.buffer_.size = 65536 := by rw [← hreading]; rfl
  have hwrite : first.write_pos_ = 0 := by rw [← hreading]; rfl
  have hroom : uploadStart.length ≤ first.buffer_.size - first.write_pos_ := by
    rw [length_uploadStart, hsize, hwrite]
  obtain ⟨hready, hunconsumed⟩ := hregular.arrived (.inl hphase) hroom
  have hnothing : first.unconsumed = [] := by rw [← hreading]; rfl
  rw [hnothing, List.nil_append] at hunconsumed
  have hfirst := step_received hregular (.inl hphase) hroom (answering greeting)
  obtain ⟨waiting, hwaits, hwaiting⟩ := uploadStart_waits hready hphase (by rw [← hreading]; rfl) hunconsumed
    (by rw [← hreading]; rfl) (by rw [arrived_write_pos, length_uploadStart, hwrite]) hsize
    (answering greeting)
  rw [hwaits] at hfirst
  obtain ⟨final, seen, close, response, hsecond, hdispatch, hpath⟩ := hwaiting.dispatched
  refine ⟨first, final, seen, close, response, hstart, .snoc (.snoc .nil hfirst) hsecond, hdispatch, ?_⟩
  rintro ⟨req, hparse, hsame⟩
  rw [uploadHead_parsed] at hparse
  cases hparse
  have hshown := hsame.path
  rw [hpath] at hshown
  exact absurd hshown (by decide +kernel)

end transport.TcpConnection

end octane
