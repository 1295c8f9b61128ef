import Octane.Transport.Acceptor

open transition

namespace octane.transport

namespace WorkerContext

variable {H : Type}

/-- A turn of the loop, with the connection on which it calls `stop`. -/
def stop_each_recorded (state : WorkerContext H × List Nat) (entry : Nat × Nat) : WorkerContext H × List Nat :=
  match state.1.objects[entry.2]? with
  | none => state
  | some _ => (state.1.stop_each entry, state.2 ++ [entry.2])

/-- The task with the connections on which it calls `stop`, in this order. -/
def stop_recorded (self : WorkerContext H) : WorkerContext H × List Nat :=
  if self.stopping then (self, [])
  else
    let worker := { self with
      stopping := true
      is_open := false
      accepts := self.accepts.map Accept.cancel }
    worker.connections.entries.foldl stop_each_recorded (worker, [])

/-- The task stops each open connection once and takes those that it closes out
of the map, without advancing over an entry that is gone. -/
structure StopsSafely (worker : WorkerContext H) : Prop where
  once : ∀ (k : Nat) conn, worker.objects[k]? = some conn → conn.phase_ ≠ .closed →
    worker.stop_recorded.2.count k = 1
  removed : ∀ entry, entry ∈ worker.stop.connections.entries ↔
    entry ∈ worker.connections.entries ∧
      ∀ after, worker.stop.objects[entry.2]? = some after → after.phase_ ≠ .closed
  valid : ({ worker with invalidated := false }).stop.invalidated = false

/-- What the task does first. -/
theorem Slots.begin_stop {worker : WorkerContext H} (h : Slots worker) : Slots { worker with
    stopping := true, is_open := false, accepts := worker.accepts.map Accept.cancel } :=
  h.congr rfl rfl rfl

/-- The map holds what the task has left open, and nothing else of what it held. -/
theorem Slots.stop_removes {worker : WorkerContext H} (h : Slots worker) (entry : Nat × Nat) :
    entry ∈ worker.stop.connections.entries ↔ entry ∈ worker.connections.entries ∧
      ∀ after, worker.stop.objects[entry.2]? = some after → after.phase_ ≠ .closed := by
  obtain ⟨hslots, hsettled⟩ := h.stop
  rw [hslots.held, h.held]
  constructor
  · rintro ⟨hsame, after, hafter, hopen⟩
    have hless := (List.getElem?_eq_some_iff.mp hafter).1
    rw [hsettled.length] at hless
    obtain ⟨after', effects, hafter', hreleased⟩ :=
      hsettled.kept entry.2 _ (List.getElem?_eq_getElem hless)
    obtain rfl : after = after' := Option.some.inj (hafter.symm.trans hafter')
    refine ⟨⟨hsame, _, List.getElem?_eq_getElem hless, fun hclosed => hopen (hreleased.closed hclosed)⟩, ?_⟩
    intro other hother
    rwa [← Option.some.inj (hafter.symm.trans hother)]
  · rintro ⟨⟨hsame, conn, hconn, _⟩, hopen⟩
    obtain ⟨after, _, hafter, _⟩ := hsettled.kept entry.2 conn hconn
    exact ⟨hsame, after, hafter, hopen after hafter⟩

/-- A turn of the loop erases the entry on which it stands. -/
theorem Slots.stop_each_invalidates {worker : WorkerContext H} (h : Slots worker) {entry : Nat × Nat}
    (hentry : entry ∈ worker.connections.entries) : (worker.stop_each entry).invalidated = true := by
  obtain ⟨hsame, conn, hconn, _⟩ := (h.held entry).mp hentry
  obtain ⟨hslots, _, hclosed⟩ := h.stop_each entry
  have hgone : (worker.stop_each entry).connections.find id_equal entry.1 = none := by
    rw [UnorderedMap.find_eq_none_iff]
    intro other hother
    obtain ⟨hsame', after, hafter, hopen⟩ := (hslots.held other).mp hother
    rw [id_equal_eq_false_iff]
    intro hid
    rw [← hsame', hid, hsame] at hafter
    exact hopen (hclosed after hafter)
  rw [WorkerContext.stop_each, hconn] at hgone ⊢
  dsimp only at hgone ⊢
  rw [hgone, Option.isNone_none, Bool.or_true]

/-- An iterator that has been invalidated stays so for the rest of the loop. -/
theorem stop_each_invalidated {worker : WorkerContext H} (h : worker.invalidated = true) (entry : Nat × Nat) :
    (worker.stop_each entry).invalidated = true := by
  rw [stop_each]
  cases hconn : worker.objects[entry.2]? with
  | none => exact h
  | some conn =>
    have hframe := worker.settle_frame entry.2 conn (conn.stop true)
    dsimp only
    rw [hframe]
    simp [h]

/-- Over a connection the task advances an iterator to an erased entry. -/
theorem Slots.stop_invalidates {worker : WorkerContext H} (h : Slots worker) (hgoing : worker.stopping = false)
    {entry : Nat × Nat} (hentry : entry ∈ worker.connections.entries) : worker.stop.invalidated = true := by
  have hsticky : ∀ (entries : List (Nat × Nat)) (worker : WorkerContext H), worker.invalidated = true →
      (entries.foldl WorkerContext.stop_each worker).invalidated = true := by
    intro entries
    induction entries with
    | nil => exact fun worker h => h
    | cons entry entries ih => exact fun worker h => ih _ (stop_each_invalidated h entry)
  rw [WorkerContext.stop, if_neg (by simp [hgoing])]
  dsimp only
  cases hentries : worker.connections.entries with
  | nil =>
    rw [hentries] at hentry
    cases hentry
  | cons first entries =>
    have hfirst : first ∈ worker.connections.entries := by simp [hentries]
    exact hsticky entries _ (h.begin_stop.stop_each_invalidates hfirst)

/-- The stop task is safe where it finds no open connection: a worker that has
stopped before leaves the connections it was given since, and any other worker
loses the entry on which its loop stands. -/
theorem Slots.stopsSafely_iff {worker : WorkerContext H} (h : Slots worker) :
    StopsSafely worker ↔ ∀ (k : Nat) conn, worker.objects[k]? = some conn → conn.phase_ = .closed := by
  have hcleared : Slots { worker with invalidated := false } := h.congr rfl rfl rfl
  constructor
  · intro hsafe k conn hconn
    by_contra hopen
    cases hstopping : worker.stopping with
    | true =>
      have hcalls := hsafe.once k conn hconn hopen
      rw [stop_recorded, if_pos hstopping] at hcalls
      cases hcalls
    | false =>
      have hentry := (h.held (k, k)).mpr ⟨rfl, conn, hconn, hopen⟩
      have hinvalid := hcleared.stop_invalidates hstopping hentry
      rw [hsafe.valid] at hinvalid
      cases hinvalid
  · intro hclosed
    have hempty : worker.connections.entries = [] := by
      rw [List.eq_nil_iff_forall_not_mem]
      intro entry hentry
      obtain ⟨_, conn, hconn, hopen⟩ := (h.held entry).mp hentry
      exact hopen (hclosed entry.2 conn hconn)
    refine ⟨fun k conn hconn hopen => absurd (hclosed k conn hconn) hopen, h.stop_removes, ?_⟩
    rw [WorkerContext.stop]
    split_ifs
    · rfl
    · dsimp only
      rw [hempty]
      rfl

end WorkerContext

namespace TcpServer

variable {H : Type}

/-- In every reachable state the stop task is safe exactly where each connection that
the worker ever had has closed: over an open one the range-for of the source goes on
from the entry that `on_close_` has just erased. -/
theorem stops_safely_iff {self final : TcpServer H} {threads : Nat} {labels : List (Label H)}
    (hrun : Run Step (self.listen threads) labels final) {i : Nat} {worker : WorkerContext H}
    (hworker : final.workers_[i]? = some worker) :
    worker.StopsSafely ↔ ∀ (k : Nat) conn, worker.objects[k]? = some conn → conn.phase_ = .closed :=
  (slots_of_run hrun hworker).stopsSafely_iff

/-- A connection has come and gone before the task runs, and the map is empty again. -/
theorem stops_safely_iff_visited :
    ∃ final worker, Run Step (defaultServer.listen 1) visitLabels final ∧ final.workers_[0]? = some worker ∧
      worker.stopping = false ∧ worker.objects.length = 1 ∧ worker.StopsSafely := by
  obtain ⟨final, worker, hrun, hworker, hgoing, _, hone, hclosed⟩ := run_visited
  refine ⟨final, worker, hrun, hworker, hgoing, hone, (stops_safely_iff hrun hworker).mpr ?_⟩
  exact fun k conn hconn => hclosed conn (List.mem_of_getElem? hconn)

/-- With one connection, which waits for a request, the loop goes on from an erased entry. -/
theorem idle_connection_invalidates :
    ∃ labels final worker, Run Step (defaultServer.listen 1) labels final ∧
      final.workers_[0]? = some worker ∧ worker.stopping = false ∧ worker.objects.length = 1 ∧
        worker.stop.invalidated = true ∧ ¬ worker.StopsSafely := by
  obtain ⟨labels, final, worker, hrun, hworker, hgoing, hobjects⟩ :=
    exists_run_admitted defaultServer (by decide) untouched
  have hslots := slots_of_run hrun hworker
  have hconn : worker.objects[0]? = some (defaultServer.make_connection 0).async_read_some := by
    rw [hobjects]
    rfl
  have hopen : (defaultServer.make_connection 0).async_read_some.phase_ ≠ .closed := by decide
  have hentry := (hslots.held (0, 0)).mpr ⟨rfl, _, hconn, hopen⟩
  refine ⟨labels, final, worker, hrun, hworker, hgoing, by rw [hobjects]; rfl,
    hslots.stop_invalidates hgoing hentry, fun hsafe => ?_⟩
  exact hopen (hslots.stopsSafely_iff.mp hsafe 0 _ hconn)

end TcpServer

end octane.transport
