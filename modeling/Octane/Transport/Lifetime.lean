import Octane.Transport.Isolation

open transition

namespace octane.transport

namespace TcpConnection

variable {H : Type}

/-- The event is the completion of an operation. -/
def Event.completion : Event → Bool
  | .stop _ => false
  | _ => true

/-- Between two callbacks an open connection waits for one operation, and a closed
one for what it still waits for. -/
structure Tended (conn : TcpConnection H) : Prop where
  regular : conn.Regular
  one : conn.pending.length ≤ 1

/-- Closed, with no operation left that could complete. -/
structure Gone (conn : TcpConnection H) : Prop where
  closed : conn.phase_ = .closed
  idle : conn.pending = []

/-- An open connection waits for exactly one operation. -/
theorem Tended.open_pending {conn : TcpConnection H} (h : conn.Tended) (hopen : conn.phase_ ≠ .closed) :
    conn.pending.length = 1 := by
  cases hphase : conn.phase_ with
  | headers => simp [h.regular.reading (.inl hphase)]
  | body => simp [h.regular.reading (.inr hphase)]
  | writing => simp [h.regular.writing hphase]
  | closed => exact absurd hphase hopen

/-- Every step keeps it so. -/
theorem Tended.step {conn after : TcpConnection H} {label : Label H} (h : conn.Tended)
    (hstep : conn.Step label after) : after.Tended :=
  ⟨h.regular.step hstep, ((h.regular.advance hstep).orderly h.regular h.one).one h.one⟩

theorem tended_of_run {env : Environment H} {dispatcher_ : core.RequestDispatcher H} {limits_ : HttpLimits}
    {id_ : Nat} {first final : TcpConnection H} {labels : List (Label H)}
    (hstart : ({ dispatcher_, limits_, id_ } : TcpConnection H).start env = .ok first)
    (hrun : Run Step first labels final) : final.Tended := by
  refine hrun.invariant (fun _ conn => conn.Tended) ⟨regular_of_run hstart .nil, ?_⟩
    fun _ before label after hbefore hstep => hbefore.step hstep
  obtain ⟨before, _, hpending, _, rfl | rfl⟩ := start_operation hstart
  · simp [async_read_some, hpending]
  · simp [write, hpending]

/-- A stop leaves what is pending as it is. -/
theorem stop_pending (conn : TcpConnection H) (force : Bool) : (conn.stop force).pending = conn.pending := by
  obtain ⟨_, heq⟩ | ⟨_, _, heq⟩ := conn.stop_cases force
  · rw [heq, close_frame]
  · rw [heq]

/-- Every other event is the completion of what is pending. -/
theorem Tended.completed {conn after : TcpConnection H} {label : Label H} (h : conn.Tended)
    (hevent : label.event.completion = true) (hstep : conn.Step label after) :
    ∃ operation, conn.pending = [operation] := by
  have hone := h.one
  cases hpending : conn.pending with
  | nil =>
    obtain ⟨event, env⟩ := label
    rw [Step, TcpConnection.step, hpending] at hstep
    cases event <;> cases hstep
    cases hevent
  | cons operation pending =>
    rw [hpending, List.length_cons] at hone
    exact ⟨operation, by rw [List.eq_nil_of_length_eq_zero (by omega : pending.length = 0)]⟩

/-- A stop cancels nothing at once: the handler of the operation is still to run. -/
theorem step_stop_pending {conn after : TcpConnection H} {label : Label H}
    (hevent : label.event.completion = false) (hstep : conn.Step label after) :
    after.pending = conn.pending := by
  obtain ⟨event, env⟩ := label
  cases event with
  | stop force =>
    rw [step_stop rfl hstep]
    exact conn.stop_pending force
  | _ => cases hevent

/-- Nothing but a stop can happen to it any more, and that does nothing. -/
theorem Gone.step {conn after : TcpConnection H} {label : Label H} (h : conn.Gone)
    (hstep : conn.Step label after) : after.Gone ∧ after.log = conn.log := by
  obtain ⟨event, env⟩ := label
  rw [Step, TcpConnection.step, h.idle] at hstep
  cases event <;> cases hstep
  next force =>
    have hclosed : ({ conn with draining_ := true } : TcpConnection H).close =
        { conn with draining_ := true } := by
      rw [close, if_pos h.closed]
    obtain ⟨_, heq⟩ | ⟨_, _, heq⟩ := conn.stop_cases force
    · rw [heq, hclosed]
      exact ⟨⟨h.closed, h.idle⟩, rfl⟩
    · rw [heq]
      exact ⟨⟨h.closed, h.idle⟩, rfl⟩

/-- What is gone does nothing more. -/
theorem Gone.run {conn final : TcpConnection H} {labels : List (Label H)} (h : conn.Gone)
    (hrun : Run Step conn labels final) : final.Gone ∧ final.log = conn.log := by
  refine hrun.invariant (fun _ other => other.Gone ∧ other.log = conn.log) ⟨h, rfl⟩ ?_
  rintro _ before label after ⟨hgone, hlog⟩ hstep
  obtain ⟨hafter, hsame⟩ := hgone.step hstep
  exact ⟨hafter, hsame.trans hlog⟩

end TcpConnection

namespace WorkerContext

variable {H : Type}

/-- How many pointers to a connection there are between two callbacks: those of the
map, and one in the handler of each operation that it waits for. -/
def references (self : WorkerContext H) (object : Nat) : Nat :=
  self.connections.entries.countP (fun entry => entry.2 == object) +
    self.objects[object]?.elim 0 fun conn => conn.pending.length

/-- The map leads to a connection once while it is open. -/
theorem Slots.count_held {worker : WorkerContext H} (h : Slots worker) {k : Nat} {conn : TcpConnection H}
    (hconn : worker.objects[k]? = some conn) :
    worker.connections.entries.countP (fun entry => entry.2 == k) =
      if conn.phase_ = .closed then 0 else 1 := by
  have hdistinct : worker.connections.entries.Nodup :=
    h.unique.imp fun hkeys hsame => id_equal_eq_false_iff.mp hkeys (congrArg Prod.fst hsame)
  have hcount : worker.connections.entries.countP (fun entry => entry.2 == k) =
      worker.connections.entries.count (k, k) := by
    refine List.countP_congr fun entry hentry => ?_
    obtain ⟨hsame, _⟩ := (h.held entry).mp hentry
    rw [beq_iff_eq, beq_iff_eq, Prod.ext_iff, hsame, and_self]
  have hmem : (k, k) ∈ worker.connections.entries ↔ conn.phase_ ≠ .closed := by
    simp [h.held, hconn]
  rw [hcount, hdistinct.count]
  by_cases hclosed : conn.phase_ = .closed
  · rw [if_neg fun hheld => hmem.mp hheld hclosed, if_pos hclosed]
  · rw [if_pos (hmem.mpr hclosed), if_neg hclosed]

/-- The pointers to a connection: one in the map while it is open, and one in the
handler of each pending operation. -/
theorem Slots.references_eq {worker : WorkerContext H} (h : Slots worker) {k : Nat} {conn : TcpConnection H}
    (hconn : worker.objects[k]? = some conn) :
    worker.references k = (if conn.phase_ = .closed then 0 else 1) + conn.pending.length := by
  rw [references, h.count_held hconn, hconn, Option.elim_some]

/-- There is none left exactly when it is closed and waits for nothing. -/
theorem Slots.gone_iff {worker : WorkerContext H} (h : Slots worker) {k : Nat} {conn : TcpConnection H}
    (hconn : worker.objects[k]? = some conn) : worker.references k = 0 ↔ conn.Gone := by
  rw [h.references_eq hconn]
  constructor
  · intro hnone
    split_ifs at hnone with hclosed
    · exact ⟨hclosed, List.eq_nil_of_length_eq_zero (by omega)⟩
    · omega
  · rintro ⟨hclosed, hidle⟩
    rw [if_pos hclosed, hidle]
    rfl

/-- What a step of the worker does to one of its connections: nothing, a step of its
own, or a forced stop by the task. -/
theorem Slots.moved_object {server : TcpServer H} {worker after : WorkerContext H}
    {event : TcpServer.Event H} (h : Slots worker) (hmoved : TcpServer.Moved server worker event after)
    {k : Nat} {conn : TcpConnection H} (hconn : worker.objects[k]? = some conn) :
    ∃ conn', after.objects[k]? = some conn' ∧
      (conn' = conn ∨ (event = .stop ∧ conn' = conn.stop true) ∨
        ∃ label, event = .connection k label ∧ conn.Step label conn') := by
  have hinside := (List.getElem?_eq_some_iff.mp hconn).1
  cases hmoved with
  | completed => exact ⟨conn, hconn, .inl rfl⟩
  | turned_away =>
    rw [start_accept_frame]
    exact ⟨conn, hconn, .inl rfl⟩
  | admitted env accepts first =>
    rw [start_accept_frame]
    exact ⟨conn, (List.getElem?_append_left hinside).trans hconn, .inl rfl⟩
  | advanced object label moving after hobject hstep =>
    rw [settle_frame]
    by_cases hk : object = k
    · subst hk
      obtain rfl : moving = conn := Option.some.inj (hobject.symm.trans hconn)
      exact ⟨after, List.getElem?_set_self hinside, .inr (.inr ⟨label, rfl, hstep⟩)⟩
    · exact ⟨conn, (List.getElem?_set_ne hk).trans hconn, .inl rfl⟩
  | stopped =>
    rw [← h.stop.2.length] at hinside
    have hafter := List.getElem?_eq_getElem hinside
    exact ⟨_, hafter, (h.stop_objects hconn hafter).imp_right fun hstop => .inl ⟨rfl, hstop⟩⟩

end WorkerContext

namespace TcpServer

variable {H : Type}

/-- A connection is pointed to by the map and by the handler of its operation while
it is open, and by the handler alone afterwards; it is the completion of the operation
that frees it, and from then on nothing is done on it. -/
structure Lifetime (server : TcpServer H) (i k : Nat) (worker : WorkerContext H)
    (conn : TcpConnection H) : Prop where
  opened : conn.phase_ ≠ .closed → worker.references k = 2
  closed : conn.phase_ = .closed → worker.references k = conn.pending.length ∧ worker.references k ≤ 1
  freed : ∀ label after worker', server.Step label after → after.workers_[i]? = some worker' →
    worker'.references k < worker.references k → worker'.references k = 0 →
      ∃ own operation, label = ⟨i, .connection k own⟩ ∧ own.event.completion = true ∧
        conn.pending = [operation]
  gone : worker.references k = 0 → ∀ labels later worker', Run Step server labels later →
    later.workers_[i]? = some worker' → worker'.references k = 0 ∧
      ∃ conn', worker'.objects[k]? = some conn' ∧ conn'.log = conn.log

theorem tended_of_run {self final : TcpServer H} {threads : Nat} {labels : List (Label H)}
    (hrun : Run Step (self.listen threads) labels final) {i k : Nat} {worker : WorkerContext H}
    {conn : TcpConnection H} (hworker : final.workers_[i]? = some worker)
    (hconn : worker.objects[k]? = some conn) : conn.Tended := by
  obtain ⟨env, first, labels, hstart, hhistory⟩ := connection_history hrun hworker hconn
  exact TcpConnection.tended_of_run hstart hhistory

/-- A step takes the last pointer away where it completes the last operation. A stop
only takes the pointer of the map, and the handler still holds one. -/
theorem freed_by_completion {self after : TcpServer H} {label : Label H} {i k : Nat}
    {worker worker' : WorkerContext H} {conn : TcpConnection H} (hslots : worker.Slots)
    (htended : conn.Tended)
    (hworker : self.workers_[i]? = some worker) (hconn : worker.objects[k]? = some conn)
    (hstep : self.Step label after) (hafter : after.workers_[i]? = some worker')
    (hless : worker'.references k < worker.references k) (hnone : worker'.references k = 0) :
    ∃ own operation, label = ⟨i, .connection k own⟩ ∧ own.event.completion = true ∧
      conn.pending = [operation] := by
  obtain hsame | ⟨before, rfl, hbefore, hmoved⟩ := hstep.worker hafter
  · obtain rfl : worker = worker' := Option.some.inj (hworker.symm.trans hsame)
    exact absurd hless (Nat.lt_irrefl _)
  obtain rfl : worker = before := Option.some.inj (hworker.symm.trans hbefore)
  obtain ⟨conn', hconn', hchange⟩ := hslots.moved_object hmoved hconn
  have hgone := ((hslots.moved hmoved).1.gone_iff hconn').mp hnone
  have hneither : conn.pending ≠ [] := fun hidle => by
    by_cases hclosed : conn.phase_ = .closed
    · have := (hslots.gone_iff hconn).mpr ⟨hclosed, hidle⟩
      omega
    · have := htended.open_pending hclosed
      simp [hidle] at this
  obtain ⟨worker, event⟩ := label
  obtain rfl | ⟨_, rfl⟩ | ⟨own, hevent, hown⟩ := hchange
  · exact absurd hgone.idle hneither
  · exact absurd ((conn.stop_pending true).symm.trans hgone.idle) hneither
  · dsimp only at hevent
    subst hevent
    cases hcompletion : own.event.completion with
    | false =>
      exact absurd ((TcpConnection.step_stop_pending hcompletion hown).symm.trans hgone.idle) hneither
    | true =>
      obtain ⟨operation, hpending⟩ := htended.completed hcompletion hown
      exact ⟨own, operation, rfl, hcompletion, hpending⟩

/-- A connection that is gone stays so, whatever happens on the server. -/
theorem gone_of_run {self later : TcpServer H} {labels : List (Label H)} {i k : Nat}
    {worker worker' : WorkerContext H} {conn : TcpConnection H} (hslots : worker.Slots)
    (hworker : self.workers_[i]? = some worker) (hconn : worker.objects[k]? = some conn)
    (hgone : conn.Gone)
    (hrun : Run Step self labels later) (hlater : later.workers_[i]? = some worker') :
    worker'.references k = 0 ∧ ∃ conn', worker'.objects[k]? = some conn' ∧ conn'.log = conn.log := by
  have hinvariant := hrun.invariant
    (fun _ (server : TcpServer H) => ∃ other conn', server.workers_[i]? = some other ∧ other.Slots ∧
      other.objects[k]? = some conn' ∧ conn'.Gone ∧ conn'.log = conn.log)
    ⟨worker, conn, hworker, hslots, hconn, hgone, rfl⟩ ?_
  · obtain ⟨other, conn', hother, hslots', hconn', hgone', hlog⟩ := hinvariant
    obtain rfl : worker' = other := Option.some.inj (hlater.symm.trans hother)
    exact ⟨(hslots'.gone_iff hconn').mpr hgone', conn', hconn', hlog⟩
  · rintro _ before label after ⟨other, conn', hother, hslots', hconn', hgone', hlog⟩ hstep
    have hinside := (List.getElem?_eq_some_iff.mp hother).1
    rw [← hstep.server.2] at hinside
    have hafter := List.getElem?_eq_getElem hinside
    obtain hsame | ⟨before', rfl, hbefore, hmoved⟩ := hstep.worker hafter
    · obtain rfl : other = _ := Option.some.inj (hother.symm.trans hsame)
      exact ⟨_, conn', hafter, hslots', hconn', hgone', hlog⟩
    · obtain rfl : other = before' := Option.some.inj (hother.symm.trans hbefore)
      obtain ⟨labels', conn'', hconn'', hown⟩ := WorkerContext.moved_goes_on hmoved k conn' hconn'
      obtain ⟨hgone'', hquiet⟩ := hgone'.run hown
      exact ⟨_, conn'', hafter, (hslots'.moved hmoved).1, hconn'', hgone'', hquiet.trans hlog⟩

/-- In every run the pointers to each connection are those that its phase says: none
is missing while something can still happen to it, and none is left behind. -/
theorem connection_lifetime {self final : TcpServer H} {threads : Nat} {labels : List (Label H)}
    (hrun : Run Step (self.listen threads) labels final) {i k : Nat} {worker : WorkerContext H}
    {conn : TcpConnection H} (hworker : final.workers_[i]? = some worker)
    (hconn : worker.objects[k]? = some conn) : Lifetime final i k worker conn := by
  have hslots := slots_of_run hrun hworker
  have htended := tended_of_run hrun hworker hconn
  have hreferences := hslots.references_eq hconn
  refine ⟨fun hopen => ?_, fun hclosed => ?_, fun label after worker' hstep hafter => ?_,
    fun hnone labels' later worker' hlater => ?_⟩
  · rw [hreferences, if_neg hopen, htended.open_pending hopen]
  · rw [hreferences, if_pos hclosed, Nat.zero_add]
    exact ⟨rfl, htended.one⟩
  · exact freed_by_completion hslots htended hworker hconn hstep hafter
  · exact gone_of_run hslots hworker hconn ((hslots.gone_iff hconn).mp hnone) hlater

/-- The first connection of the first worker is in a phase, with this many pointers to it. -/
def Pointed (count : Nat) (phase : Phase) (server : TcpServer Unit) : Prop :=
  ∃ worker ∈ server.workers_[0]?, worker.references 0 = count ∧ ∃ conn ∈ worker.objects[0]?, conn.phase_ = phase

instance (count : Nat) (phase : Phase) : DecidablePred (Pointed count phase) := fun server =>
  inferInstanceAs (Decidable (∃ worker ∈ server.workers_[0]?, _))

/-- A connection that waits has two pointers and loses both where its read fails;
that read was its last operation, and nothing points to it again. -/
theorem connection_lifetime_visited :
    ∃ waiting final worker conn worker' conn',
      Run Step (defaultServer.listen 1) [⟨0, .accepted false⟩, ⟨0, .on_accept untouched⟩] waiting ∧
      waiting.workers_[0]? = some worker ∧ worker.objects[0]? = some conn ∧ worker.references 0 = 2 ∧
      waiting.Step ⟨0, .connection 0 ⟨.read_error, untouched⟩⟩ final ∧
      (∃ operation, conn.pending = [operation]) ∧
      final.workers_[0]? = some worker' ∧ worker'.objects[0]? = some conn' ∧ conn'.pending = [] ∧
      ∀ labels later last, Run Step final labels later → later.workers_[0]? = some last →
        last.references 0 = 0 := by
  obtain ⟨waiting, hrun, ⟨worker, hworker, _, conn, hconn, hphase⟩, hsteps⟩ :=
    exists_run_of_check (defaultServer.listen 1) [⟨0, .accepted false⟩, ⟨0, .on_accept untouched⟩]
      (fun waiting => Pointed 2 .headers waiting ∧
        (waiting.steps [⟨0, .connection 0 ⟨.read_error, untouched⟩⟩]).map
          (·.map fun final => decide (Pointed 0 .closed final)) = some (.ok true)) (by decide +kernel)
  obtain ⟨final, hlast, worker', hworker', hnone, conn', hconn', hclosed⟩ := exists_run_of_check _ _ _ hsteps
  have hread := hlast.single_inv
  have hwaits := connection_lifetime hrun hworker hconn
  have hcloses := connection_lifetime (hrun.snoc hread) hworker' hconn'
  have htwo := hwaits.opened (by simp [hphase])
  obtain ⟨operation, _, _, _, hpending⟩ := hwaits.freed _ _ _ hread hworker' (by omega) hnone
  have hfreed := (hcloses.closed hclosed).1
  rw [hnone] at hfreed
  exact ⟨waiting, final, worker, conn, worker', conn', hrun, hworker, hconn, htwo, hread, ⟨_, hpending⟩, hworker',
    hconn', List.length_eq_zero_iff.mp hfreed.symm, fun labels later last hlater hthere =>
      (hcloses.gone hnone labels later last hlater hthere).1⟩

end TcpServer

end octane.transport
