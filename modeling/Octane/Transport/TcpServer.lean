import Octane.Transport.Turn

open transition

namespace octane.transport

/-- An accept whose handler has not run: it waits, or it has completed and the handler is queued. -/
inductive Accept where
  | pending | succeeded | failed
deriving DecidableEq

/-- What closing the acceptor does to an accept; one that has completed stays as it is. -/
def Accept.cancel : Accept → Accept
  | .pending => .failed
  | accept => accept

/-- `std::equal_to` of ids, the key equality of `connections`. -/
def id_equal (a b : Nat) : Bool := a == b

/-- The fields of the source, of the acceptor whether it is open; `connections` leads to
positions of `objects`, where every connection ever made stays. The accepts that are
under way are recorded, and whether an iterator was advanced that had been invalidated. -/
structure WorkerContext (H : Type) where
  is_open : Bool := true
  connections : UnorderedMap Nat Nat := {}
  -- A `size_t` of the source: the number of accepts on one worker stays below 2 ^ 64.
  next_id : Nat := 0
  stopping : Bool := false
  accepts : List Accept := []
  objects : List (TcpConnection H) := []
  invalidated : Bool := false

/-- The ids with which `on_close_` has been called. -/
def closedIds (effects : List Effect) : List Nat :=
  effects.filterMap fun
    | .on_close id => some id
    | _ => none

namespace WorkerContext

variable {H : Type}

/-- The callback that every connection of the worker is given. -/
def on_close (self : WorkerContext H) (conn_id : Nat) : WorkerContext H :=
  { self with connections := self.connections.erase id_equal conn_id }

/-- A connection goes on, with the calls of `on_close` that it makes meanwhile. -/
def settle (self : WorkerContext H) (object : Nat) (before after : TcpConnection H) : WorkerContext H :=
  (closedIds (after.log.drop before.log.length)).foldl on_close
    { self with objects := self.objects.set object after }

def start_accept (self : WorkerContext H) : WorkerContext H :=
  if self.stopping ∨ ¬ self.is_open then self
  else { self with accepts := self.accepts ++ [.pending] }

/-- A turn of the loop over `connections`. The loop goes on from the entry it
has visited, which must not have been erased meanwhile. -/
def stop_each (self : WorkerContext H) (entry : Nat × Nat) : WorkerContext H :=
  match self.objects[entry.2]? with
  | none => self
  | some conn =>
    let worker := self.settle entry.2 conn (conn.stop true)
    { worker with
      invalidated := worker.invalidated || (worker.connections.find id_equal entry.1).isNone }

/-- The task that `TcpServer::stop` posts to the worker. -/
def stop (self : WorkerContext H) : WorkerContext H :=
  if self.stopping then self
  else
    let worker := { self with
      stopping := true
      is_open := false
      accepts := self.accepts.map Accept.cancel }
    worker.connections.entries.foldl stop_each worker

end WorkerContext

structure TcpServer (H : Type) where
  router_ : Router H := {}
  limits_ : HttpLimits
  workers_ : List (WorkerContext H) := []

namespace TcpServer

variable {H : Type}

def worker_limit (self : TcpServer H) : Nat :=
  max 1024 (self.limits_.max_connections / max 1 self.workers_.length)

/-- The workers that `listen` makes, each with its first accept. -/
def listen (self : TcpServer H) (threads : Nat) : TcpServer H :=
  { self with workers_ := List.replicate threads (({} : WorkerContext H).start_accept) }

/-- The connection made for a socket. -/
def make_connection (self : TcpServer H) (id_ : Nat) : TcpConnection H :=
  { dispatcher_ := { router_ := self.router_ }, limits_ := self.limits_, id_ }

/-- The part of the accept handler that takes the socket in. -/
def take_in (env : Environment H) (self : TcpServer H) (worker : WorkerContext H) :
    Result (WorkerContext H) := do
  let id := worker.next_id
  let conn := self.make_connection id
  let worker := { worker with
    next_id := id + 1
    connections := (worker.connections.try_emplace id_equal id worker.objects.length).1
    objects := worker.objects ++ [conn] }
  let started ← conn.start env
  .ok (worker.settle (worker.objects.length - 1) conn started)

/-- The accept handler. A socket that is not taken in is closed with it. -/
def on_accept (env : Environment H) (self : TcpServer H) (worker : WorkerContext H) (ec : Bool) :
    Result (WorkerContext H) := do
  let worker ←
    if ¬ ec ∧ worker.connections.size < self.worker_limit then self.take_in env worker else .ok worker
  .ok (if ¬ worker.stopping ∧ worker.is_open then worker.start_accept else worker)

/-- What happens on a worker: an accept completes or its handler runs, something
happens to a connection, or the stop task runs. -/
inductive Event (H : Type) where
  | accepted (ec : Bool)
  | on_accept (env : Environment H)
  | connection (object : Nat) (label : TcpConnection.Label H)
  | stop

/-- The step of a worker for an event, where it can happen. -/
def worker_step (self : TcpServer H) (worker : WorkerContext H) (event : Event H) :
    Option (Result (WorkerContext H)) :=
  match event, worker.accepts with
  | .accepted ec, .pending :: accepts =>
    some (.ok { worker with accepts := (if ec then .failed else .succeeded) :: accepts })
  | .on_accept env, .succeeded :: accepts => some (self.on_accept env { worker with accepts } false)
  | .on_accept env, .failed :: accepts => some (self.on_accept env { worker with accepts } true)
  | .connection object label, _ =>
    match worker.objects[object]? with
    | none => none
    | some conn => (conn.step label).map fun result => result.map (worker.settle object conn)
  | .stop, _ => some (.ok worker.stop)
  | _, _ => none

/-- A worker of the server and what happens on it. -/
structure Label (H : Type) where
  worker : Nat
  event : Event H

/-- A step of one worker whose callback lets no exception out. -/
def Step (self : TcpServer H) (label : Label H) (after : TcpServer H) : Prop :=
  ∃ worker worker', self.workers_[label.worker]? = some worker ∧
    self.worker_step worker label.event = some (.ok worker') ∧
    after = { self with workers_ := self.workers_.set label.worker worker' }

end TcpServer

end octane.transport
