import Octane.Transport.Slots

open transition

namespace octane.transport

namespace WorkerContext

variable {H : Type}

/-- A connection that closes makes room. -/
theorem size_on_close_le (ids : List Nat) (worker : WorkerContext H) :
    (ids.foldl on_close worker).connections.size ≤ worker.connections.size := by
  induction ids generalizing worker with
  | nil => exact Nat.le_refl _
  | cons id ids ih => exact (ih (worker.on_close id)).trans (UnorderedMap.size_erase_le _ id)

/-- A connection that goes on takes no slot. -/
theorem size_settle_le (worker : WorkerContext H) (object : Nat) (before after : TcpConnection H) :
    (worker.settle object before after).connections.size ≤ worker.connections.size :=
  size_on_close_le _ _

/-- A connection that is stopped makes room, and takes none. -/
theorem size_stop_each_le (worker : WorkerContext H) (entry : Nat × Nat) :
    (worker.stop_each entry).connections.size ≤ worker.connections.size := by
  rw [stop_each]
  cases worker.objects[entry.2]? with
  | none => exact Nat.le_refl _
  | some conn => exact size_settle_le worker entry.2 conn (conn.stop true)

theorem size_stop_le (worker : WorkerContext H) : worker.stop.connections.size ≤ worker.connections.size := by
  rw [stop]
  split_ifs
  · exact Nat.le_refl _
  · suffices hloop : ∀ (entries : List (Nat × Nat)) (other : WorkerContext H),
        (entries.foldl stop_each other).connections.size ≤ other.connections.size by
      exact hloop worker.connections.entries _
    intro entries
    induction entries with
    | nil => exact fun other => Nat.le_refl _
    | cons entry entries ih => exact fun other => (ih _).trans (size_stop_each_le other entry)

/-- A connection that enters takes one place. -/
theorem size_enter_le (worker : WorkerContext H) (first : TcpConnection H) :
    (worker.enter first).connections.size ≤ worker.connections.size + 1 :=
  UnorderedMap.size_try_emplace_le _ _ _

/-- No connection is made, and none is added to the map. -/
structure NoAdmission (worker after : WorkerContext H) : Prop where
  made : after.objects.length = worker.objects.length
  added : ∀ entry ∈ after.connections.entries, entry ∈ worker.connections.entries

end WorkerContext

namespace TcpServer

variable {H : Type}

/-- The number of connections that the workers hold. -/
def active (self : TcpServer H) : Nat := (self.workers_.map fun worker => worker.connections.size).sum

/-- A worker admits no more than its share. -/
theorem Moved.size_le {self : TcpServer H} {worker after : WorkerContext H} {event : Event H}
    (h : Moved self worker event after) (hbefore : worker.connections.size ≤ self.worker_limit) :
    after.connections.size ≤ self.worker_limit := by
  cases h with
  | completed => exact hbefore
  | turned_away =>
    rw [WorkerContext.start_accept_frame]
    exact hbefore
  | admitted env accepts first hqueued hroom =>
    rw [WorkerContext.start_accept_frame]
    exact (WorkerContext.size_enter_le _ first).trans hroom
  | advanced object label conn after => exact (worker.size_settle_le object conn after).trans hbefore
  | stopped => exact worker.size_stop_le.trans hbefore

/-- Where the shares add up to no more than the limit, so do the connections. The
invariant is that of each worker, summed up. -/
theorem active_le_of_run {self final : TcpServer H} {threads : Nat} {labels : List (Label H)}
    (hshares : 1024 * threads ≤ self.limits_.max_connections) (hthreads : 0 < threads)
    (hrun : Run Step (self.listen threads) labels final) :
    final.active ≤ self.limits_.max_connections := by
  have hshare : max 1024 (self.limits_.max_connections / max 1 threads) =
      self.limits_.max_connections / threads := by
    rw [Nat.max_eq_right hthreads, Nat.max_eq_right]
    exact (Nat.le_div_iff_mul_le hthreads).mpr hshares
  obtain ⟨⟨_, hlength⟩, hworkers⟩ := workers_of_run
    (fun worker => worker.connections.size ≤ self.limits_.max_connections / threads)
    (Nat.zero_le _) (fun server worker event after hserver hlength hsize hmoved => by
      have hlimit : server.worker_limit = self.limits_.max_connections / threads := by
        rw [worker_limit, hlength, hserver, hshare]
      rw [← hlimit] at hsize ⊢
      exact hmoved.size_le hsize) hrun
  calc final.active
      ≤ (final.workers_.map fun worker => worker.connections.size).length •
          (self.limits_.max_connections / threads) := by
        refine List.sum_le_card_nsmul _ _ fun size hsize => ?_
        obtain ⟨worker, hworker, rfl⟩ := List.mem_map.mp hsize
        obtain ⟨i, hi⟩ := List.mem_iff_getElem?.mp hworker
        exact hworkers i worker hi
    _ = threads * (self.limits_.max_connections / threads) := by rw [List.length_map, hlength, smul_eq_mul]
    _ ≤ self.limits_.max_connections := Nat.mul_div_le _ _

/-- A worker that has taken in some connections and waits for the next. -/
structure Listening (worker : WorkerContext H) : Prop where
  slots : worker.Slots
  is_open : worker.is_open = true
  going : worker.stopping = false
  accepts : worker.accepts = [.pending]

theorem new_listening : Listening (({} : WorkerContext H).start_accept) :=
  ⟨WorkerContext.new_slots, rfl, rfl, rfl⟩

/-- A listening worker that has taken in a connection listens again. -/
theorem Listening.next {worker : WorkerContext H} (h : Listening worker) (self : TcpServer H)
    {env : Environment H} {first : TcpConnection H}
    (hstart : (self.make_connection worker.next_id).start env = .ok first) :
    Listening (({ worker with accepts := [] }.enter first).start_accept) ∧
      (({ worker with accepts := [] }.enter first).start_accept).connections.size =
        worker.connections.size + 1 := by
  obtain ⟨harmed, hopen, hid, hcalls⟩ := TcpConnection.start_armed hstart
  have hslots : WorkerContext.Slots ({ worker with accepts := [] }.enter first) :=
    (h.slots.enter harmed hopen hid hcalls).congr rfl rfl rfl
  have hnew := h.slots.find_next
  rw [start_accept_armed (by exact h.is_open) (by exact h.going)]
  refine ⟨⟨hslots.congr rfl rfl rfl, h.is_open, h.going, rfl⟩, ?_⟩
  simp [WorkerContext.enter, UnorderedMap.try_emplace, hnew, UnorderedMap.size]

/-- What one worker changes in the number of active connections; the others keep theirs. -/
theorem active_set {self : TcpServer H} {i : Nat} {worker : WorkerContext H}
    (hworker : self.workers_[i]? = some worker) (worker' : WorkerContext H) :
    active { self with workers_ := self.workers_.set i worker' } + worker.connections.size =
      self.active + worker'.connections.size := by
  rw [active, active]
  generalize self.workers_ = workers at hworker
  induction workers generalizing i with
  | nil => cases hworker
  | cons first workers ih =>
    cases i with
    | zero =>
      cases hworker
      simp only [List.set_cons_zero, List.map_cons, List.sum_cons]
      omega
    | succ i =>
      have hrest := ih (i := i) hworker
      simp only [List.set_cons_succ, List.map_cons, List.sum_cons]
      dsimp only at hrest
      omega

/-- Every number of connections up to 1024 a worker is reached: a worker takes one in
after the other, and the workers do so in turn. -/
theorem exists_run_active (self : TcpServer H) (hlimits : 0 < self.limits_.max_header_bytes)
    {threads n : Nat} (hn : n ≤ 1024 * threads) :
    ∃ labels final, Run Step (self.listen threads) labels final ∧ final.active = n ∧
      ∀ worker ∈ final.workers_, Listening worker := by
  induction n with
  | zero =>
    refine ⟨[], _, .nil, ?_, fun worker hworker => ?_⟩
    · rw [active, listen, List.map_replicate, List.sum_replicate]
      rfl
    · obtain ⟨_, rfl⟩ := List.mem_replicate.mp hworker
      exact new_listening
  | succ n ih =>
    obtain ⟨labels, before, hrun, hactive, hlistening⟩ := ih (by omega)
    obtain ⟨⟨hbefore, hlength⟩, _⟩ := workers_of_run (fun _ => True) trivial (fun _ _ _ _ _ _ _ _ => trivial) hrun
    obtain ⟨worker, hworker, hfew⟩ : ∃ worker ∈ before.workers_, worker.connections.size < 1024 := by
      by_contra hnone
      have hfull := List.card_nsmul_le_sum (before.workers_.map fun worker => worker.connections.size) 1024
        fun size hsize => by
          obtain ⟨worker, hworker, rfl⟩ := List.mem_map.mp hsize
          exact Nat.le_of_not_lt fun hfew => hnone ⟨worker, hworker, hfew⟩
      rw [List.length_map, hlength, smul_eq_mul] at hfull
      rw [active] at hactive
      omega
    obtain ⟨i, hi⟩ := List.mem_iff_getElem?.mp hworker
    have hself := hlistening worker hworker
    have hinside := (List.getElem?_eq_some_iff.mp hi).1
    have hroom : worker.connections.size < before.worker_limit := hfew.trans_le (Nat.le_max_left _ _)
    have haccepted := accepted_step hi hself.accepts
    obtain ⟨first, hstart, htaken⟩ := take_in_step { before with
        workers_ := before.workers_.set i { worker with accepts := [.succeeded] } } (by rwa [hbefore])
      (List.getElem?_set_self hinside) rfl (by simpa [worker_limit] using hroom)
      untouched
    dsimp only at htaken
    rw [List.set_set] at htaken
    obtain ⟨hnext, hsize⟩ := hself.next before hstart
    refine ⟨_, _, (hrun.snoc haccepted).snoc htaken, ?_, fun other hother => ?_⟩
    · have hsum := active_set hi (({ worker with accepts := [] }.enter first).start_accept)
      rw [hsize, hactive] at hsum
      omega
    · obtain hold | rfl := List.mem_or_eq_of_mem_set hother
      · exact hlistening other hold
      · exact hnext

/-- The connections of all workers stay within the limit, whatever is accepted and
closed, exactly where the least share of 1024 a worker does. -/
theorem admission_limit_iff {self : TcpServer H} (hvalid : self.limits_.validate = .ok ()) {threads : Nat}
    (hthreads : 0 < threads) :
    (∀ labels final, Run Step (self.listen threads) labels final →
      final.active ≤ self.limits_.max_connections) ↔
      1024 * threads ≤ self.limits_.max_connections := by
  constructor
  · intro hbounded
    obtain ⟨hheader, _⟩ := HttpLimits.validate_ok hvalid
    obtain ⟨labels, final, hrun, hactive, _⟩ :=
      exists_run_active self (by omega) (Nat.le_refl (1024 * threads))
    rw [← hactive]
    exact hbounded labels final hrun
  · intro hshares labels final hrun
    exact active_le_of_run hshares hthreads hrun

/-- Four workers share the default limit exactly. -/
theorem admission_limit_four :
    HttpLimits.defaults.validate = .ok () ∧ ∀ labels final,
      Run Step (defaultServer.listen 4) labels final → final.active ≤ HttpLimits.defaults.max_connections :=
  ⟨HttpLimits.validate_defaults,
    (admission_limit_iff HttpLimits.validate_defaults (by decide)).mpr (by decide)⟩

/-- Eight workers with the default limits take in twice as many connections. -/
theorem admission_limit_exceeded :
    HttpLimits.defaults.validate = .ok () ∧ ∃ labels final,
      Run Step (defaultServer.listen 8) labels final ∧
        HttpLimits.defaults.max_connections < final.active := by
  obtain ⟨labels, final, hrun, hactive, _⟩ := exists_run_active
    defaultServer (by decide) (Nat.le_refl (1024 * 8))
  refine ⟨HttpLimits.validate_defaults, labels, final, hrun, ?_⟩
  rw [hactive]
  decide

end TcpServer

end octane.transport
