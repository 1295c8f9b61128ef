import Octane.Transport.Acceptor

open transition

namespace octane.transport

namespace WorkerContext

variable {H : Type}

/-- Each connection of the worker goes on by steps of its own. -/
def GoesOn (worker after : WorkerContext H) : Prop :=
  ∀ (k : Nat) conn, worker.objects[k]? = some conn →
    ∃ labels conn', after.objects[k]? = some conn' ∧ Run TcpConnection.Step conn labels conn'

theorem GoesOn.of_same {worker after : WorkerContext H} (hobjects : after.objects = worker.objects) :
    GoesOn worker after :=
  fun _ conn hconn => ⟨[], conn, hobjects ▸ hconn, .nil⟩

/-- Connections go on one step after the other. -/
theorem GoesOn.trans {first second third : WorkerContext H} (h : GoesOn first second)
    (h' : GoesOn second third) : GoesOn first third := by
  intro k conn hconn
  obtain ⟨labels, conn', hconn', hrun⟩ := h k conn hconn
  obtain ⟨labels', conn'', hconn'', hrun'⟩ := h' k conn' hconn'
  exact ⟨labels ++ labels', conn'', hconn'', hrun.append hrun'⟩

/-- The connection of an event goes on by that event, the others stay as they are. -/
theorem settle_goes_on {worker : WorkerContext H} {object : Nat} {conn after : TcpConnection H}
    {label : TcpConnection.Label H} (hobject : worker.objects[object]? = some conn)
    (hstep : conn.Step label after) : GoesOn worker (worker.settle object conn after) := by
  rw [settle_frame]
  intro k other hother
  dsimp only
  by_cases hk : object = k
  · subst hk
    obtain rfl : conn = other := Option.some.inj (hobject.symm.trans hother)
    exact ⟨[label], after, List.getElem?_set_self (List.getElem?_eq_some_iff.mp hobject).1, .single hstep⟩
  · exact ⟨[], other, (List.getElem?_set_ne hk).trans hother, .nil⟩

/-- A turn of the stop loop stops one connection. -/
theorem stop_each_goes_on (worker : WorkerContext H) (entry : Nat × Nat) :
    GoesOn worker (worker.stop_each entry) := by
  unfold stop_each
  cases hconn : worker.objects[entry.2]? with
  | none => exact .of_same rfl
  | some conn =>
    have hstep : conn.Step ⟨.stop true, TcpServer.untouched⟩ (conn.stop true) := rfl
    exact (settle_goes_on hconn hstep).trans (.of_same rfl)

/-- By induction on the loop, the stop task does nothing to a connection but stop it. -/
theorem stop_goes_on (worker : WorkerContext H) : GoesOn worker worker.stop := by
  suffices hloop : ∀ (entries : List (Nat × Nat)) (other : WorkerContext H),
      GoesOn other (entries.foldl stop_each other) by
    rw [stop]
    split_ifs
    · exact .of_same rfl
    · exact hloop worker.connections.entries { worker with
        stopping := true, is_open := false, accepts := worker.accepts.map Accept.cancel }
  intro entries
  induction entries with
  | nil => exact fun other => .of_same rfl
  | cons entry entries ih => exact fun other => (other.stop_each_goes_on entry).trans (ih _)

/-- A connection that enters leaves the others alone. -/
theorem enter_goes_on (worker : WorkerContext H) (first : TcpConnection H) :
    GoesOn worker (worker.enter first) := by
  intro k conn hconn
  have hold : (worker.objects ++ [first])[k]? = some conn :=
    (List.getElem?_append_left (List.getElem?_eq_some_iff.mp hconn).1).trans hconn
  exact ⟨[], conn, hold, .nil⟩

/-- Every event of a worker lets its connections go on by steps of their own; this
is what lifts results about one connection to the server. -/
theorem moved_goes_on {server : TcpServer H} {worker after : WorkerContext H} {event : TcpServer.Event H}
    (h : TcpServer.Moved server worker event after) : GoesOn worker after := by
  cases h with
  | completed => exact .of_same rfl
  | turned_away =>
    rw [start_accept_frame]
    exact .of_same rfl
  | admitted env accepts first =>
    rw [start_accept_frame]
    exact (GoesOn.of_same rfl).trans (enter_goes_on { worker with accepts } first)
  | advanced object label conn after hobject hstep => exact settle_goes_on hobject hstep
  | stopped => exact worker.stop_goes_on

end WorkerContext

namespace TcpServer

variable {H : Type}

/-- The connection has come from its start by steps of its own. -/
def Started (self : TcpServer H) (k : Nat) (conn : TcpConnection H) : Prop :=
  ∃ env first labels, (self.make_connection k).start env = .ok first ∧
    Run TcpConnection.Step first labels conn

/-- A step keeps the histories of a worker's connections, and begins those of new
ones. This is how what holds in the runs of a connection holds on a server. -/
theorem Moved.started {self : TcpServer H} {worker after : WorkerContext H} {event : Event H}
    (h : Moved self worker event after) (hslots : worker.Slots)
    (hstarted : ∀ (k : Nat) conn, worker.objects[k]? = some conn → self.Started k conn) :
    ∀ (k : Nat) conn, after.objects[k]? = some conn → self.Started k conn := by
  intro k conn hconn
  obtain hk | hk := Nat.lt_or_ge k worker.objects.length
  · have hbefore := List.getElem?_eq_getElem hk
    obtain ⟨env, first, labels, hstart, hrun⟩ := hstarted k _ hbefore
    obtain ⟨labels', conn', hconn', hrun'⟩ := WorkerContext.moved_goes_on h k _ hbefore
    obtain rfl : conn = conn' := Option.some.inj (hconn.symm.trans hconn')
    exact ⟨env, first, labels ++ labels', hstart, hrun.append hrun'⟩
  · have hless := (List.getElem?_eq_some_iff.mp hconn).1
    cases h with
    | completed => exact absurd hk (Nat.not_le_of_lt hless)
    | turned_away =>
      rw [WorkerContext.start_accept_frame] at hless
      exact absurd hk (Nat.not_le_of_lt hless)
    | admitted env accepts first _ _ hstart =>
      rw [WorkerContext.start_accept_frame] at hconn
      obtain hold | ⟨rfl, rfl⟩ := WorkerContext.enter_object hconn
      · exact absurd hk (Nat.not_le_of_lt (List.getElem?_eq_some_iff.mp hold).1)
      · rw [hslots.next] at hstart
        exact ⟨env, conn, [], hstart, .nil⟩
    | advanced object label conn after =>
      rw [WorkerContext.settle_frame] at hless
      exact absurd hk (Nat.not_le_of_lt (by simpa using hless))
    | stopped =>
      rw [hslots.stop.2.length] at hless
      exact absurd hk (Nat.not_le_of_lt hless)

/-- Whatever is proved of every run of a connection holds of the connections of the
workers: each is at the end of such a run. -/
theorem connection_history {self final : TcpServer H} {threads : Nat} {labels : List (Label H)}
    (hrun : Run Step (self.listen threads) labels final) {i k : Nat} {worker : WorkerContext H}
    {conn : TcpConnection H} (hworker : final.workers_[i]? = some worker)
    (hconn : worker.objects[k]? = some conn) : self.Started k conn := by
  obtain ⟨_, hworkers⟩ := workers_of_run
    (fun worker => worker.Slots ∧ ∀ (k : Nat) conn, worker.objects[k]? = some conn → self.Started k conn)
    ⟨WorkerContext.new_slots, fun k conn hconn => by cases hconn⟩
    (fun server worker event after hserver _ hinv hmoved => by
      have hstarted := hmoved.started hinv.1 (by rw [hserver]; exact hinv.2)
      rw [hserver] at hstarted
      exact ⟨(hinv.1.moved hmoved).1, hstarted⟩) hrun
  exact (hworkers i worker hworker).2 k conn hconn

end TcpServer

end octane.transport
