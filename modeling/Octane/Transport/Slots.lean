import Octane.Transport.Workers

open transition

namespace octane.transport

namespace WorkerContext

variable {H : Type}

/-- Each connection ever made has the id of its position, and the map leads to
those that have not closed. -/
structure Slots (worker : WorkerContext H) : Prop where
  next : worker.next_id = worker.objects.length
  armed : ∀ (k : Nat) conn, worker.objects[k]? = some conn → conn.Armed
  id : ∀ (k : Nat) conn, worker.objects[k]? = some conn → conn.id_ = k
  calls : ∀ (k : Nat) conn, worker.objects[k]? = some conn →
    closedIds conn.log = if conn.phase_ = .closed then [k] else []
  unique : worker.connections.Unique id_equal
  held : ∀ entry, entry ∈ worker.connections.entries ↔
    entry.1 = entry.2 ∧ ∃ conn, worker.objects[entry.2]? = some conn ∧ conn.phase_ ≠ .closed

/-- The worker goes on with the connections that it has. -/
structure Settled (worker after : WorkerContext H) : Prop where
  length : after.objects.length = worker.objects.length
  kept : ∀ (k : Nat) conn, worker.objects[k]? = some conn →
    ∃ conn' effects, after.objects[k]? = some conn' ∧ TcpConnection.Released conn conn' effects

theorem start_accept_frame (worker : WorkerContext H) :
    worker.start_accept = { worker with accepts := worker.start_accept.accepts } := by
  rw [start_accept]
  split_ifs <;> rfl

theorem Settled.refl (worker : WorkerContext H) : Settled worker worker :=
  ⟨rfl, fun _ conn hconn => ⟨conn, [], hconn, .refl conn⟩⟩

/-- Connections go on one step after the other. -/
theorem Settled.trans {first second third : WorkerContext H} (h : Settled first second)
    (h' : Settled second third) : Settled first third := by
  refine ⟨h'.length.trans h.length, fun k conn hconn => ?_⟩
  obtain ⟨conn', effects, hconn', hreleased⟩ := h.kept k conn hconn
  obtain ⟨conn'', effects', hconn'', hreleased'⟩ := h'.kept k conn' hconn'
  exact ⟨conn'', _, hconn'', hreleased.trans hreleased'⟩

/-- The slots depend on the connections, and on nothing else of the worker. -/
theorem Slots.congr {worker other : WorkerContext H} (h : Slots worker)
    (hnext : other.next_id = worker.next_id) (hobjects : other.objects = worker.objects)
    (hconnections : other.connections = worker.connections) : Slots other := by
  refine ⟨?_, ?_, ?_, ?_, ?_, ?_⟩
  · rw [hnext, hobjects]
    exact h.next
  · rw [hobjects]
    exact h.armed
  · rw [hobjects]
    exact h.id
  · rw [hobjects]
    exact h.calls
  · rw [hconnections]
    exact h.unique
  · rw [hconnections, hobjects]
    exact h.held

theorem start_accept_slots {worker : WorkerContext H} (h : Slots worker) : Slots worker.start_accept := by
  rw [start_accept_frame]
  exact h.congr rfl rfl rfl

theorem new_slots : Slots (({} : WorkerContext H).start_accept) := by
  refine start_accept_slots ⟨rfl, ?_, ?_, ?_, UnorderedMap.unique_empty, ?_⟩ <;> simp

/-- The connection of an event goes on, with the calls of `on_close_` that it makes;
the others stay. -/
theorem settle_settled {worker : WorkerContext H} {k : Nat} {conn after : TcpConnection H}
    {effects : List Effect} (hconn : worker.objects[k]? = some conn)
    (hreleased : TcpConnection.Released conn after effects) :
    Settled worker (worker.settle k conn after) := by
  rw [settle_released hreleased]
  refine ⟨List.length_set, fun j other hother => ?_⟩
  by_cases hj : k = j
  · subst hj
    obtain rfl : conn = other := Option.some.inj (hconn.symm.trans hother)
    exact ⟨after, effects, List.getElem?_set_self (List.getElem?_eq_some_iff.mp hconn).1, hreleased⟩
  · exact ⟨other, [], by rw [List.getElem?_set_ne hj]; exact hother, .refl other⟩

/-- A connection that goes on keeps its slot, and gives it back where it closes. Ids
are positions, so that erasing one entry touches no other connection. -/
theorem Slots.settle {worker : WorkerContext H} (h : Slots worker) {k : Nat}
    {conn after : TcpConnection H} {effects : List Effect} (hconn : worker.objects[k]? = some conn)
    (harmed : after.Armed) (hreleased : TcpConnection.Released conn after effects) :
    Slots (worker.settle k conn after) := by
  have hid := h.id k conn hconn
  have hat : ∀ (j : Nat) other, (worker.objects.set k after)[j]? = some other →
      (j = k ∧ other = after) ∨ (j ≠ k ∧ worker.objects[j]? = some other) := by
    intro j other hother
    by_cases hj : k = j
    · subst hj
      rw [List.getElem?_set_self (List.getElem?_eq_some_iff.mp hconn).1] at hother
      exact .inl ⟨rfl, (Option.some.inj hother).symm⟩
    · rw [List.getElem?_set_ne hj] at hother
      exact .inr ⟨fun hk => hj hk.symm, hother⟩
  rw [settle_released hreleased]
  refine ⟨h.next.trans List.length_set.symm, fun j other hother => ?_, fun j other hother => ?_,
    fun j other hother => ?_, ?_, fun entry => ?_⟩
  · obtain ⟨_, rfl⟩ | ⟨_, hold⟩ := hat j other hother
    · exact harmed
    · exact h.armed j other hold
  · obtain ⟨rfl, rfl⟩ | ⟨_, hold⟩ := hat j other hother
    · exact hreleased.id.trans hid
    · exact h.id j other hold
  · obtain ⟨rfl, rfl⟩ | ⟨_, hold⟩ := hat j other hother
    · rw [hreleased.log, closedIds_append, hreleased.calls, h.calls j conn hconn, hid]
      by_cases hclosed : conn.phase_ = .closed
      · simp [hclosed, hreleased.closed hclosed]
      · simp [hclosed]
    · exact h.calls j other hold
  · dsimp only
    split_ifs
    · exact h.unique.erase conn.id_
    · exact h.unique
  · obtain ⟨id, object⟩ := entry
    dsimp only
    by_cases hk : object = k
    · subst hk
      rw [List.getElem?_set_self (List.getElem?_eq_some_iff.mp hconn).1]
      have hheld : (id, object) ∈ worker.connections.entries ↔ id = object ∧ conn.phase_ ≠ .closed := by
        simp [h.held, hconn]
      simp only [Option.some.injEq, exists_eq_left']
      split_ifs with hcloses
      · rw [UnorderedMap.mem_erase, id_equal_eq_false_iff, hid]
        exact iff_of_false (fun hmem => hmem.2 (hheld.mp hmem.1).1) fun hopen => hopen.2 hcloses.2
      · rw [hheld]
        refine and_congr_right fun _ => not_congr ⟨hreleased.closed, fun hclosed => ?_⟩
        by_contra hopen
        exact hcloses ⟨hopen, hclosed⟩
    · rw [List.getElem?_set_ne fun hsame => hk hsame.symm]
      split_ifs
      · rw [UnorderedMap.mem_erase, id_equal_eq_false_iff, hid, h.held]
        exact ⟨And.left, fun hmem => ⟨hmem, fun hsame => hk (hmem.1.symm.trans hsame)⟩⟩
      · exact h.held (id, object)

/-- No connection has the next id yet. -/
theorem Slots.find_next {worker : WorkerContext H} (h : Slots worker) :
    worker.connections.find id_equal worker.next_id = none := by
  rw [UnorderedMap.find_eq_none_iff]
  intro entry hentry
  obtain ⟨hsame, conn, hconn, _⟩ := (h.held entry).mp hentry
  have hless := (List.getElem?_eq_some_iff.mp hconn).1
  rw [id_equal_eq_false_iff, h.next]
  omega

/-- A connection that is taken in gets the next slot, under an id that no entry has.
-/
theorem Slots.enter {worker : WorkerContext H} (h : Slots worker) {first : TcpConnection H}
    (harmed : first.Armed) (hopen : first.phase_ ≠ .closed) (hid : first.id_ = worker.next_id)
    (hcalls : closedIds first.log = []) : Slots (worker.enter first) := by
  have hnew := h.find_next
  refine ⟨?_, fun k conn hconn => ?_, fun k conn hconn => ?_, fun k conn hconn => ?_, ?_, fun entry => ?_⟩
  · simp [WorkerContext.enter, h.next]
  · obtain hold | ⟨_, rfl⟩ := enter_object hconn
    · exact h.armed k conn hold
    · exact harmed
  · obtain hold | ⟨rfl, rfl⟩ := enter_object hconn
    · exact h.id k conn hold
    · exact hid.trans h.next
  · obtain hold | ⟨rfl, rfl⟩ := enter_object hconn
    · exact h.calls k conn hold
    · rw [hcalls, if_neg hopen]
  · exact h.unique.try_emplace worker.next_id worker.objects.length
  · have hentries : (worker.enter first).connections.entries =
        worker.connections.entries ++ [(worker.objects.length, worker.objects.length)] := by
      rw [WorkerContext.enter, UnorderedMap.try_emplace, hnew, h.next]
    rw [hentries, List.mem_append, List.mem_singleton, h.held]
    constructor
    · rintro (⟨hsame, conn, hconn, hrunning⟩ | rfl)
      · exact ⟨hsame, conn, List.getElem?_append_left (List.getElem?_eq_some_iff.mp hconn).1 ▸ hconn, hrunning⟩
      · exact ⟨rfl, first, by simp [WorkerContext.enter], hopen⟩
    · rintro ⟨hsame, conn, hconn, hrunning⟩
      obtain hold | ⟨hlast, rfl⟩ := enter_object hconn
      · exact .inl ⟨hsame, conn, hold, hrunning⟩
      · exact .inr (Prod.ext (hsame.trans hlast) hlast)

/-- A turn of the stop loop stops one connection, and gives back its slot. -/
theorem Slots.stop_each {worker : WorkerContext H} (h : Slots worker) (entry : Nat × Nat) :
    Slots (worker.stop_each entry) ∧ Settled worker (worker.stop_each entry) ∧
      ∀ conn, (worker.stop_each entry).objects[entry.2]? = some conn → conn.phase_ = .closed := by
  rw [WorkerContext.stop_each]
  cases hconn : worker.objects[entry.2]? with
  | none => exact ⟨h, .refl worker, fun conn hconn' => absurd (hconn.symm.trans hconn') (by simp)⟩
  | some conn =>
    obtain ⟨harmed, effects, hreleased⟩ := (h.armed _ conn hconn).stop true
    have hsettled := settle_settled hconn hreleased
    refine ⟨(h.settle hconn harmed hreleased).congr rfl rfl rfl, ⟨hsettled.length, hsettled.kept⟩, ?_⟩
    intro conn' hconn'
    have hset : (worker.settle entry.2 conn (conn.stop true)).objects = worker.objects.set entry.2 (conn.stop true) := by
      rw [settle_released hreleased]
    dsimp only at hconn'
    rw [hset, List.getElem?_set_self (List.getElem?_eq_some_iff.mp hconn).1] at hconn'
    obtain rfl := Option.some.inj hconn'
    exact TcpConnection.stop_true_closed conn

/-- The stop loop gives back the slots of the connections that it visits. -/
theorem Slots.stop_loop {worker : WorkerContext H} (h : Slots worker) (entries : List (Nat × Nat)) :
    Slots (entries.foldl WorkerContext.stop_each worker) ∧
      Settled worker (entries.foldl WorkerContext.stop_each worker) ∧
      ∀ entry ∈ entries, ∀ conn,
        (entries.foldl WorkerContext.stop_each worker).objects[entry.2]? = some conn →
          conn.phase_ = .closed := by
  induction entries generalizing worker with
  | nil => exact ⟨h, .refl worker, fun entry hentry => by cases hentry⟩
  | cons first entries ih =>
    obtain ⟨hslots, hsettled, hclosed⟩ := h.stop_each first
    obtain ⟨hslots', hsettled', hclosed'⟩ := ih hslots
    refine ⟨hslots', hsettled.trans hsettled', fun entry hentry conn hconn => ?_⟩
    obtain rfl | hrest := List.mem_cons.mp hentry
    · have hlength := (List.getElem?_eq_some_iff.mp hconn).1
      rw [List.foldl_cons, hsettled'.length] at hlength
      obtain ⟨before, hbefore⟩ : ∃ before, (worker.stop_each entry).objects[entry.2]? = some before :=
        ⟨_, List.getElem?_eq_getElem hlength⟩
      obtain ⟨conn', effects, hconn', hreleased⟩ := hsettled'.kept _ before hbefore
      obtain rfl : conn' = conn := Option.some.inj (hconn'.symm.trans hconn)
      exact hreleased.closed (hclosed before hbefore)
    · exact hclosed' entry hrest conn hconn

/-- The stop task frees the slots of the connections that it closes, and of no others. -/
theorem Slots.stop {worker : WorkerContext H} (h : Slots worker) :
    Slots worker.stop ∧ Settled worker worker.stop := by
  rw [WorkerContext.stop]
  split_ifs
  · exact ⟨h, .refl worker⟩
  · have hbegin : Slots { worker with
        stopping := true, is_open := false, accepts := worker.accepts.map Accept.cancel } :=
      h.congr rfl rfl rfl
    obtain ⟨hslots, hsettled, _⟩ := hbegin.stop_loop worker.connections.entries
    exact ⟨hslots, hsettled.length, hsettled.kept⟩

/-- The map leads by their ids to the connections that have not closed, no id is
that of two connections, and `on_close_` has been called once for each that has closed. -/
structure Accounted (worker : WorkerContext H) : Prop where
  held : ∀ id object, (id, object) ∈ worker.connections.entries ↔
    ∃ conn, worker.objects[object]? = some conn ∧ conn.phase_ ≠ .closed ∧ conn.id_ = id
  single : (worker.connections.entries.map Prod.fst).Nodup
  ids : ∀ (j k : Nat) conn other, worker.objects[j]? = some conn → worker.objects[k]? = some other →
    conn.id_ = other.id_ → j = k
  called : ∀ (k : Nat) conn, worker.objects[k]? = some conn →
    closedIds conn.log = if conn.phase_ = .closed then [conn.id_] else []

/-- A step calls `on_close_` once for each connection that it closes and for no
other, and the connections that it makes are open. -/
structure Accounts (worker after : WorkerContext H) : Prop where
  kept : ∀ (k : Nat) conn, worker.objects[k]? = some conn →
    ∃ conn' effects, after.objects[k]? = some conn' ∧ TcpConnection.Released conn conn' effects
  fresh : ∀ (k : Nat) conn, worker.objects.length ≤ k → after.objects[k]? = some conn →
    conn.phase_ ≠ .closed ∧ closedIds conn.log = []

/-- With the slots in order, each open connection has one entry under its own id. -/
theorem Slots.accounted {worker : WorkerContext H} (h : Slots worker) : Accounted worker := by
  refine ⟨fun id object => ?_, ?_, fun j k conn other hconn hother hsame => ?_, fun k conn hconn => ?_⟩
  · rw [h.held]
    constructor
    · rintro ⟨hsame, conn, hconn, hopen⟩
      exact ⟨conn, hconn, hopen, (h.id object conn hconn).trans hsame.symm⟩
    · rintro ⟨conn, hconn, hopen, hid⟩
      exact ⟨hid.symm.trans (h.id object conn hconn), conn, hconn, hopen⟩
  · rw [List.Nodup, List.pairwise_map]
    exact h.unique.imp fun hkeys => id_equal_eq_false_iff.mp hkeys
  · rw [h.id j conn hconn, h.id k other hother] at hsame
    exact hsame
  · rw [h.calls k conn hconn, h.id k conn hconn]

theorem Settled.accounts {worker after : WorkerContext H} (h : Settled worker after) :
    Accounts worker after := by
  refine ⟨h.kept, fun k conn hk hconn => ?_⟩
  have hless := (List.getElem?_eq_some_iff.mp hconn).1
  rw [h.length] at hless
  omega

/-- A new connection takes the next id, which no other has had. -/
theorem enter_accounts (worker : WorkerContext H) {first : TcpConnection H}
    (hopen : first.phase_ ≠ .closed) (hcalls : closedIds first.log = []) :
    Accounts worker (worker.enter first) := by
  refine ⟨fun k conn hconn => ⟨conn, [], ?_, .refl conn⟩, fun k conn hk hconn => ?_⟩
  · exact (List.getElem?_append_left (List.getElem?_eq_some_iff.mp hconn).1).trans hconn
  · obtain hold | ⟨_, rfl⟩ := enter_object hconn
    · exact absurd hk (Nat.not_le_of_lt (List.getElem?_eq_some_iff.mp hold).1)
    · exact ⟨hopen, hcalls⟩

/-- What a worker does accounts for its slots. -/
theorem Slots.moved {server : TcpServer H} {worker after : WorkerContext H} {event : TcpServer.Event H}
    (h : Slots worker) (hmoved : TcpServer.Moved server worker event after) :
    Slots after ∧ Accounts worker after := by
  cases hmoved with
  | completed => exact ⟨h.congr rfl rfl rfl, (Settled.refl worker).kept, (Settled.refl worker).accounts.fresh⟩
  | turned_away =>
    rw [start_accept_frame]
    exact ⟨h.congr rfl rfl rfl, (Settled.refl worker).kept, (Settled.refl worker).accounts.fresh⟩
  | admitted env accepts first _ _ hstart =>
    obtain ⟨harmed, hopen, hid, hcalls⟩ := TcpConnection.start_armed hstart
    have haccounts := enter_accounts worker hopen hcalls
    rw [start_accept_frame]
    exact ⟨(h.enter harmed hopen hid hcalls).congr rfl rfl rfl, haccounts.kept, haccounts.fresh⟩
  | advanced object label conn after hobject hstep =>
    obtain ⟨harmed, effects, hreleased⟩ := (h.armed object conn hobject).step hstep
    exact ⟨h.settle hobject harmed hreleased, (settle_settled hobject hreleased).accounts⟩
  | stopped => exact ⟨h.stop.1, h.stop.2.accounts⟩

end WorkerContext

namespace TcpServer

variable {H : Type}

/-- In every reachable state the slots are in order, on every worker. -/
theorem slots_of_run {self final : TcpServer H} {threads : Nat} {labels : List (Label H)}
    (hrun : Run Step (self.listen threads) labels final) {i : Nat} {worker : WorkerContext H}
    (hworker : final.workers_[i]? = some worker) : worker.Slots :=
  (workers_of_run WorkerContext.Slots WorkerContext.new_slots
    (fun _ _ _ _ _ _ hslots hmoved => (hslots.moved hmoved).1) hrun).2 i worker hworker

/-- In every run each worker's map holds exactly the connections that are open, each
of which gives back its slot in the step that closes it. -/
theorem connections_accounted {self final : TcpServer H} {threads : Nat} {labels : List (Label H)}
    (hrun : Run Step (self.listen threads) labels final) {i : Nat} {worker : WorkerContext H}
    (hworker : final.workers_[i]? = some worker) :
    worker.Accounted ∧ ∀ label after worker', final.Step label after →
      after.workers_[i]? = some worker' → WorkerContext.Accounts worker worker' := by
  have hslots := slots_of_run hrun hworker
  refine ⟨hslots.accounted, fun label after worker' hstep hworker' => ?_⟩
  obtain hsame | ⟨before, rfl, hbefore, hmoved⟩ := hstep.worker hworker'
  · obtain rfl : worker = worker' := Option.some.inj (hworker.symm.trans hsame)
    exact (WorkerContext.Settled.refl worker).accounts
  · obtain rfl : worker = before := Option.some.inj (hworker.symm.trans hbefore)
    exact (hslots.moved hmoved).2

theorem connections_accounted_one :
    ∃ labels final worker, Run Step (defaultServer.listen 1) labels final ∧
      final.workers_[0]? = some worker ∧ worker.objects.length = 1 ∧ worker.Accounted := by
  obtain ⟨labels, final, worker, hrun, hworker, _, hobjects⟩ :=
    exists_run_admitted defaultServer (by decide) untouched
  exact ⟨labels, final, worker, hrun, hworker, by rw [hobjects]; rfl, (connections_accounted hrun hworker).1⟩

end TcpServer

end octane.transport
