import Octane.Transport.Conversation
import Octane.Transport.History

open transition

namespace octane.transport

namespace TcpServer

variable {H : Type}

/-- What happens to one connection, among all that happens on the server. -/
def own (i k : Nat) (labels : List (Label H)) : List (TcpConnection.Label H) :=
  labels.filterMap fun label =>
    match label.event with
    | .connection object own => if label.worker = i ∧ object = k then some own else none
    | _ => none

/-- The same, with a forced stop for each stop task of its worker. -/
def ownOrStopped (i k : Nat) (labels : List (Label H)) : List (TcpConnection.Label H) :=
  labels.filterMap fun label =>
    match label.event with
    | .connection object own => if label.worker = i ∧ object = k then some own else none
    | .stop => if label.worker = i then some ⟨.stop true, untouched⟩ else none
    | _ => none

end TcpServer

namespace WorkerContext

variable {H : Type}

/-- A turn of the stop loop stops one connection and leaves the others alone. -/
theorem stop_each_objects (worker : WorkerContext H) (entry : Nat × Nat) (k : Nat) :
    (worker.stop_each entry).objects[k]? =
      (worker.objects[k]?).map fun conn => if k = entry.2 then conn.stop true else conn := by
  rw [stop_each]
  cases hentry : worker.objects[entry.2]? with
  | none =>
    by_cases hk : k = entry.2
    · rw [hk, hentry]
      rfl
    · simp [hk]
  | some conn =>
    dsimp only
    rw [settle_frame]
    by_cases hk : k = entry.2
    · have hinside := (List.getElem?_eq_some_iff.mp hentry).1
      rw [hk, hentry, List.getElem?_set_self hinside]
      simp
    · rw [List.getElem?_set_ne fun hsame => hk hsame.symm]
      simp [hk]

/-- The stop loop stops the connections of its entries, each once, and no others. -/
theorem stop_loop_objects {entries : List (Nat × Nat)} (hdistinct : (entries.map Prod.snd).Nodup)
    (worker : WorkerContext H) (k : Nat) :
    (entries.foldl stop_each worker).objects[k]? =
      (worker.objects[k]?).map fun conn => if k ∈ entries.map Prod.snd then conn.stop true else conn := by
  induction entries generalizing worker with
  | nil => simp
  | cons entry entries ih =>
    rw [List.map_cons, List.nodup_cons] at hdistinct
    rw [List.foldl_cons, ih hdistinct.2, stop_each_objects, Option.map_map]
    congr 1
    funext conn
    by_cases hk : k = entry.2
    · subst hk
      simp [hdistinct.1]
    · have hmem : k ∈ (entry :: entries).map Prod.snd ↔ k ∈ entries.map Prod.snd := by
        rw [List.map_cons, List.mem_cons, or_iff_right hk]
      simp only [Function.comp_apply, if_neg hk, hmem]

/-- The stop task leaves each connection as it was, or stops it once. -/
theorem Slots.stop_objects {worker : WorkerContext H} (h : Slots worker) {k : Nat} {conn conn' : TcpConnection H}
    (hconn : worker.objects[k]? = some conn) (hafter : worker.stop.objects[k]? = some conn') :
    conn' = conn ∨ conn' = conn.stop true := by
  rw [WorkerContext.stop] at hafter
  split_ifs at hafter
  · exact .inl (Option.some.inj (hafter.symm.trans hconn))
  · have hdistinct : (worker.connections.entries.map Prod.snd).Nodup := by
      rw [List.Nodup, List.pairwise_map]
      refine h.unique.imp_of_mem fun hfirst hsecond hkeys => ?_
      rw [← ((h.held _).mp hfirst).1, ← ((h.held _).mp hsecond).1]
      exact id_equal_eq_false_iff.mp hkeys
    dsimp only at hafter
    rw [stop_loop_objects hdistinct] at hafter
    dsimp only at hafter
    rw [hconn, Option.map_some, Option.some.injEq] at hafter
    split_ifs at hafter
    · exact .inr hafter.symm
    · exact .inl hafter.symm

end WorkerContext

namespace TcpServer

variable {H : Type}

theorem own_snoc (i k : Nat) (labels : List (Label H)) (label : Label H) :
    own i k (labels ++ [label]) = own i k labels ++ own i k [label] := List.filterMap_append

theorem ownOrStopped_snoc (i k : Nat) (labels : List (Label H)) (label : Label H) :
    ownOrStopped i k (labels ++ [label]) = ownOrStopped i k labels ++ ownOrStopped i k [label] :=
  List.filterMap_append

/-- What happens elsewhere is not about a connection. -/
theorem own_elsewhere {i k : Nat} {label : Label H} (h : label.worker ≠ i) :
    own i k [label] = [] ∧ ownOrStopped i k [label] = [] := by
  obtain ⟨worker, event⟩ := label
  cases event <;> simp_all [own, ownOrStopped]

/-- A connection has come by steps of its own that happened to it, and by the stop task. -/
def Traced (self : TcpServer H) (labels : List (Label H)) (i k : Nat) (conn : TcpConnection H) : Prop :=
  ∃ env first trace, (self.make_connection k).start env = .ok first ∧
    Run TcpConnection.Step first trace conn ∧ (own i k labels).Sublist trace ∧
    trace.Sublist (ownOrStopped i k labels)

/-- Each connection of a worker has come by its own steps, and nothing has happened
to those that it has not made yet. -/
structure Isolated (server : TcpServer H) (labels : List (Label H)) (i : Nat) (worker : WorkerContext H) : Prop where
  slots : worker.Slots
  unmade : ∀ k, worker.objects.length ≤ k → own i k labels = []
  traced : ∀ (k : Nat) conn, worker.objects[k]? = some conn → server.Traced labels i k conn

/-- What happens to others is not part of a connection's history. -/
theorem Traced.quiet {self : TcpServer H} {labels : List (Label H)} {i k : Nat} {conn : TcpConnection H}
    (h : self.Traced labels i k conn) {label : Label H} (hown : own i k [label] = []) :
    self.Traced (labels ++ [label]) i k conn := by
  obtain ⟨env, first, trace, hstart, hrun, hall, honly⟩ := h
  refine ⟨env, first, trace, hstart, hrun, ?_, ?_⟩
  · rw [own_snoc, hown, List.append_nil]
    exact hall
  · rw [ownOrStopped_snoc]
    exact honly.trans (List.sublist_append_left _ _)

/-- What happens to a connection is: it takes a step of its own. -/
theorem Traced.goes_on {self : TcpServer H} {labels : List (Label H)} {i k : Nat} {conn after : TcpConnection H}
    (h : self.Traced labels i k conn) {label : Label H} {own' : TcpConnection.Label H}
    (hown : (own i k [label]).Sublist [own']) (honly' : ownOrStopped i k [label] = [own'])
    (hstep : conn.Step own' after) : self.Traced (labels ++ [label]) i k after := by
  obtain ⟨env, first, trace, hstart, hrun, hall, honly⟩ := h
  refine ⟨env, first, trace ++ [own'], hstart, hrun.snoc hstep, ?_, ?_⟩
  · rw [own_snoc]
    exact hall.append hown
  · rw [ownOrStopped_snoc, honly']
    exact honly.append (List.Sublist.refl _)

/-- An event that concerns no connection leaves all of them isolated. -/
theorem Isolated.quiet {self : TcpServer H} {labels : List (Label H)} {i : Nat} {worker after : WorkerContext H}
    (h : self.Isolated labels i worker) {label : Label H} (hslots : after.Slots)
    (hobjects : after.objects = worker.objects) (hown : ∀ k, own i k [label] = []) :
    self.Isolated (labels ++ [label]) i after := by
  refine ⟨hslots, fun k hk => ?_, fun k conn hconn => (h.traced k conn (hobjects ▸ hconn)).quiet (hown k)⟩
  rw [own_snoc, hown k, h.unmade k (hobjects ▸ hk)]
  rfl

/-- A step of the worker is one of a connection of its own, of the stop task or of
none; in each case every connection has done what happened to it and no more. -/
theorem Isolated.moved {self server : TcpServer H} {labels : List (Label H)} {i : Nat}
    {worker after : WorkerContext H} {event : Event H} (h : self.Isolated labels i worker)
    (hserver : server = { self with workers_ := server.workers_ }) (hmoved : Moved server worker event after) :
    self.Isolated (labels ++ [⟨i, event⟩]) i after := by
  have hslots := (h.slots.moved hmoved).1
  cases hmoved with
  | completed ec accepts hpending => exact h.quiet hslots rfl fun k => rfl
  | turned_away env accept accepts hqueued =>
    refine h.quiet hslots ?_ fun k => rfl
    rw [WorkerContext.start_accept_frame]
  | admitted env accepts first hqueued hroom hstart =>
    have hnone : ∀ k, own i k [(⟨i, .on_accept env⟩ : Label H)] = [] := fun k => rfl
    refine ⟨hslots, fun k hk => ?_, fun k conn hconn => ?_⟩
    · rw [WorkerContext.start_accept_frame] at hk
      have hbefore : worker.objects.length ≤ k := by
        simp only [WorkerContext.enter, List.length_append, List.length_singleton] at hk
        omega
      rw [own_snoc, hnone k, h.unmade k hbefore]
      rfl
    · rw [WorkerContext.start_accept_frame] at hconn
      obtain hold | ⟨rfl, rfl⟩ := WorkerContext.enter_object hconn
      · exact (h.traced k conn hold).quiet (hnone k)
      · rw [h.slots.next, hserver] at hstart
        refine ⟨env, conn, [], hstart, .nil, ?_, List.nil_sublist _⟩
        rw [own_snoc, hnone, h.unmade _ (le_refl worker.objects.length)]
        exact List.Sublist.refl _
  | advanced object label conn after hobject hstep =>
    have hframe := worker.settle_frame object conn after
    have helsewhere : ∀ k, k ≠ object → own i k [(⟨i, .connection object label⟩ : Label H)] = [] := by
      intro k hk
      simp [own, hk.symm]
    refine ⟨hslots, fun k hk => ?_, fun k other hother => ?_⟩
    · rw [hframe, List.length_set] at hk
      have hinside := (List.getElem?_eq_some_iff.mp hobject).1
      rw [own_snoc, helsewhere k (by omega), h.unmade k hk]
      rfl
    · rw [hframe] at hother
      dsimp only at hother
      by_cases hk : object = k
      · subst hk
        rw [List.getElem?_set_self (List.getElem?_eq_some_iff.mp hobject).1, Option.some.injEq] at hother
        subst hother
        exact (h.traced object conn hobject).goes_on (by simp [own]) (by simp [ownOrStopped]) hstep
      · rw [List.getElem?_set_ne hk] at hother
        exact (h.traced k other hother).quiet (helsewhere k fun hsame => hk hsame.symm)
  | stopped =>
    have hnone : ∀ k, own i k [(⟨i, .stop⟩ : Label H)] = [] := fun k => rfl
    have hlength := h.slots.stop.2.length
    refine ⟨hslots, fun k hk => ?_, fun k conn hconn => ?_⟩
    · rw [own_snoc, hnone k, h.unmade k (hlength ▸ hk)]
      rfl
    · have hinside := (List.getElem?_eq_some_iff.mp hconn).1
      rw [hlength] at hinside
      have hbefore := List.getElem?_eq_getElem hinside
      obtain heq | heq := h.slots.stop_objects hbefore hconn
      · rw [heq]
        exact (h.traced k _ hbefore).quiet (hnone k)
      · have hstep : worker.objects[k].Step ⟨.stop true, untouched⟩ conn := by
          rw [heq]
          rfl
        exact (h.traced k _ hbefore).goes_on (List.nil_sublist _) (by simp [ownOrStopped]) hstep

theorem new_isolated (self : TcpServer H) (i : Nat) :
    self.Isolated [] i (({} : WorkerContext H).start_accept) :=
  ⟨WorkerContext.new_slots, fun k _ => rfl, fun k conn hconn => by cases hconn⟩

/-- What happens on another worker leaves the connections of this one isolated. -/
theorem Isolated.elsewhere {self : TcpServer H} {labels : List (Label H)} {i : Nat} {worker : WorkerContext H}
    (h : self.Isolated labels i worker) {label : Label H} (hi : label.worker ≠ i) :
    self.Isolated (labels ++ [label]) i worker :=
  h.quiet h.slots rfl fun _ => (own_elsewhere hi).1

/-- In every run of the server each connection has come by what happened to it. -/
theorem isolated_of_run {self final : TcpServer H} {threads : Nat} {labels : List (Label H)}
    (hrun : Run Step (self.listen threads) labels final) {i : Nat} {worker : WorkerContext H}
    (hworker : final.workers_[i]? = some worker) : self.Isolated labels i worker := by
  have hinvariant := hrun.invariant (fun labels (server : TcpServer H) =>
    server = { self with workers_ := server.workers_ } ∧
      ∀ (i : Nat) worker, server.workers_[i]? = some worker → self.Isolated labels i worker) ?_ ?_
  · exact hinvariant.2 i worker hworker
  · refine ⟨rfl, fun i worker hworker => ?_⟩
    obtain ⟨_, rfl⟩ := List.mem_replicate.mp (List.mem_of_getElem? hworker)
    exact self.new_isolated i
  · rintro labels before ⟨j, event⟩ after ⟨hserver, hworkers⟩ hstep
    obtain ⟨moving, moved, hmoving, hmoves, rfl⟩ := hstep
    refine ⟨by rw [hserver], fun i worker hworker => ?_⟩
    by_cases hi : j = i
    · subst hi
      rw [List.getElem?_set_self (List.getElem?_eq_some_iff.mp hmoving).1, Option.some.injEq] at hworker
      subst hworker
      exact (hworkers j moving hmoving).moved hserver (worker_step_cases hmoves)
    · rw [List.getElem?_set_ne hi] at hworker
      exact (hworkers i worker hworker).elsewhere hi

/-- The worker has not been asked to stop. -/
def Going (i : Nat) (labels : List (Label H)) : Prop :=
  ∀ label ∈ labels, label.worker = i → label.event ≠ .stop

/-- Where no stop task has run, a connection has been stopped by none. -/
theorem ownOrStopped_of_going {i k : Nat} {labels : List (Label H)} (h : Going i labels) :
    ownOrStopped i k labels = own i k labels := by
  refine List.filterMap_congr fun label hlabel => ?_
  have hnot := h label hlabel
  obtain ⟨worker, event⟩ := label
  cases event with
  | stop => exact if_neg fun hworker => hnot hworker rfl
  | _ => rfl

/-- A connection of a worker that has not been asked to stop has come by exactly
what happened to it. -/
theorem Isolated.run {self : TcpServer H} {labels : List (Label H)} {i k : Nat} {worker : WorkerContext H}
    {conn : TcpConnection H} (h : self.Isolated labels i worker) (hgoing : Going i labels)
    (hconn : worker.objects[k]? = some conn) :
    ∃ env first, (self.make_connection k).start env = .ok first ∧
      Run TcpConnection.Step first (own i k labels) conn := by
  obtain ⟨env, first, trace, hstart, hrun, hall, honly⟩ := h.traced k conn hconn
  rw [ownOrStopped_of_going hgoing] at honly
  rw [hall.antisymm honly]
  exact ⟨env, first, hstart, hrun⟩

/-- A connection starts with a read, whatever its environment is. -/
theorem start_same {self : TcpServer H} {k : Nat} {env env' : Environment H} {first first' : TcpConnection H}
    (hheaders : 0 < self.limits_.max_header_bytes) (hstart : (self.make_connection k).start env = .ok first)
    (hstart' : (self.make_connection k).start env' = .ok first') : first = first' := by
  have hreading := fun env => TcpConnection.start_reading env { router_ := self.router_ } self.limits_ hheaders k
  exact Except.ok.inj ((hstart.symm.trans (hreading env)).trans ((hreading env').symm.trans hstart'))

/-- What a connection has become depends on what happened to it alone. Two runs of the
server have done the same to the connection with the same number on its worker: the
same completions, with what the handlers returned and what freed storage held. Then it
is in the same state, however many workers and other connections there are, whatever
they do, and whichever worker it is on. -/
theorem connection_noninterference {self final final' : TcpServer H} {threads threads' i j k : Nat}
    {labels labels' : List (Label H)} {worker worker' : WorkerContext H} {conn conn' : TcpConnection H}
    (hvalid : self.limits_.validate = .ok ())
    (hrun : Run Step (self.listen threads) labels final) (hrun' : Run Step (self.listen threads') labels' final')
    (hworker : final.workers_[i]? = some worker) (hworker' : final'.workers_[j]? = some worker')
    (hconn : worker.objects[k]? = some conn) (hconn' : worker'.objects[k]? = some conn')
    (hgoing : Going i labels) (hgoing' : Going j labels') (hown : own i k labels = own j k labels') :
    conn = conn' := by
  have hheaders := (HttpLimits.validate_ok hvalid).1
  obtain ⟨env, first, hstart, hhistory⟩ := (isolated_of_run hrun hworker).run hgoing hconn
  obtain ⟨env', first', hstart', hhistory'⟩ := (isolated_of_run hrun' hworker').run hgoing' hconn'
  obtain rfl : first = first' := start_same (by omega) hstart hstart'
  rw [← hown] at hhistory'
  exact hhistory.unique TcpConnection.step_unique hhistory'

/-- What happens to one connection, as events of its worker. -/
def hosted (i k : Nat) (labels : List (TcpConnection.Label H)) : List (Label H) :=
  labels.map fun label => ⟨i, .connection k label⟩

theorem going_append {i : Nat} {labels labels' : List (Label H)} :
    Going i (labels ++ labels') ↔ Going i labels ∧ Going i labels' := List.forall_mem_append

theorem going_hosted (i j k : Nat) (labels : List (TcpConnection.Label H)) : Going i (hosted j k labels) := by
  intro label hlabel _ hstop
  obtain ⟨own, _, rfl⟩ := List.mem_map.mp hlabel
  cases hstop

/-- A server with the one route `GET /`. -/
def homeServer : TcpServer Unit := { router_ := TcpConnection.homePage.router_, limits_ := .defaults }

open TcpConnection in
/-- Two clients of the first worker: between the reads of the first the second is
answered and lost. -/
def crowdedLabels : List (Label Unit) :=
  [⟨0, .accepted false⟩, ⟨0, .on_accept untouched⟩, ⟨0, .accepted false⟩, ⟨0, .on_accept untouched⟩] ++
    hosted 0 1 [⟨.read homeRequest, answering greeting⟩] ++ hosted 0 0 (noteReads.take 1) ++
    hosted 0 1 [⟨.written, answering greeting⟩, ⟨.read_error, answering greeting⟩] ++ hosted 0 0 (noteReads.drop 1)

/-- The first of these clients, alone on the second worker of another server. -/
def lonelyLabels : List (Label Unit) :=
  [⟨1, .accepted false⟩, ⟨1, .on_accept untouched⟩] ++ hosted 1 0 TcpConnection.noteReads

theorem own_crowded : own 0 0 crowdedLabels = TcpConnection.noteReads := rfl

theorem own_lonely : own 1 0 lonelyLabels = TcpConnection.noteReads := rfl

/-- Nobody asks the worker to stop. -/
theorem going_crowded : Going 0 crowdedLabels := by
  simp only [crowdedLabels, going_append, going_hosted, and_true]
  simp [Going]

/-- The connection `k` of worker `i` waits for the next request, and the worker has made `count`. -/
def Waits (i k count : Nat) (server : TcpServer Unit) : Prop :=
  ∃ worker ∈ server.workers_[i]?, worker.objects.length = count ∧
    ∃ conn ∈ worker.objects[k]?, conn.phase_ = .headers

instance (i k count : Nat) : DecidablePred (Waits i k count) := fun server =>
  inferInstanceAs (Decidable (∃ worker ∈ server.workers_[i]?, _))

/-- Both clients are served, and the first waits again. -/
theorem run_crowded : ∃ final, Run Step (homeServer.listen 1) crowdedLabels final ∧ Waits 0 0 2 final :=
  exists_run_of_check _ _ _ (by decide +kernel)

/-- The first client beside another on one worker, and alone on another worker of
another server, are in the same state. -/
theorem connection_noninterference_crowded :
    ∃ final final' worker worker' conn, Run Step (homeServer.listen 1) crowdedLabels final ∧
      Run Step (homeServer.listen 2) lonelyLabels final' ∧
      final.workers_[0]? = some worker ∧ final'.workers_[1]? = some worker' ∧
      worker.objects.length = 2 ∧ worker'.objects.length = 1 ∧
      worker.objects[0]? = some conn ∧ worker'.objects[0]? = some conn := by
  obtain ⟨final, hrun, worker, hworker, htwo, conn, hconn, _⟩ := run_crowded
  obtain ⟨final', hrun', worker', hworker', hone, conn', hconn', _⟩ :=
    exists_run_of_check (homeServer.listen 2) lonelyLabels (Waits 1 0 1) (by decide +kernel)
  have hgoing : Going 1 lonelyLabels := by
    rw [lonelyLabels, going_append]
    exact ⟨by simp [Going], going_hosted 1 1 0 _⟩
  obtain rfl : conn = conn' := connection_noninterference HttpLimits.validate_defaults hrun hrun' hworker hworker'
    hconn hconn' going_crowded hgoing (own_crowded.trans own_lonely.symm)
  exact ⟨final, final', worker, worker', conn, hrun, hrun', hworker, hworker', htwo, hone, hconn, hconn'⟩

open HttpParser in
/-- Among any number of other clients, on any worker and whatever they do: a client
that sends requests, in any pieces, has once the last write has completed been sent
one response for each request, up to the one after which the connection closes. Each
is what the router and the handler made of this request as it was sent, they come in
the order of the requests, and each announces truly whether it is the last. The
handlers are polite, the worker goes on, and no head is disturbed while its body comes. -/
theorem every_client_served {self final : TcpServer H} {threads i k : Nat} {labels : List (Label H)}
    {worker : WorkerContext H} {env : Environment H} {first conn : TcpConnection H} {sents : List SentRequest}
    (hvalid : self.limits_.validate = .ok ()) (hrun : Run Step (self.listen threads) labels final)
    (hworker : final.workers_[i]? = some worker) (hconn : worker.objects[k]? = some conn)
    (hgoing : Going i labels) (hstart : (self.make_connection k).start env = .ok first)
    (hlabels : ∀ label ∈ own i k labels, label.event.completes ∧ core.RequestDispatcher.Polite label.env.call)
    (hundisturbed : Throughout TcpConnection.Undisturbed TcpConnection.Step first (own i k labels))
    (hsents : ∀ sent ∈ sents, sent.Valid self.limits_)
    (hdelivered : TcpConnection.receivedBytes (own i k labels) <+: sents.flatMap SentRequest.encode)
    (hall : conn.phase_ ≠ .closed →
      TcpConnection.receivedBytes (own i k labels) = sents.flatMap SentRequest.encode)
    (hwritten : conn.phase_ ≠ .writing) :
    ∃ readings, delimited.readAll HttpResponse.readReply
          ((served self.limits_ 0 sents).map fun sent => decide (toMethod sent.1.head.method = .HEAD))
          (TcpConnection.sentBytes conn.log) = some (readings, []) ∧
      List.Forall₂ (TcpConnection.Answered { router_ := self.router_ } first (own i k labels))
        (served self.limits_ 0 sents) readings := by
  have hheaders := (HttpLimits.validate_ok hvalid).1
  obtain ⟨_, first', hstart', hhistory⟩ := (isolated_of_run hrun hworker).run hgoing hconn
  obtain rfl : first' = first := start_same (by omega) hstart' hstart
  exact TcpConnection.conversation_of_run hvalid hstart hhistory hlabels hundisturbed hsents hdelivered hall hwritten

open HttpParser TcpConnection in
/-- Two requests on a connection of the server, the first read ending within the
first body, while another client comes and goes. -/
theorem every_client_served_notes :
    ∃ final worker conn readings, Run Step (homeServer.listen 1) crowdedLabels final ∧
      final.workers_[0]? = some worker ∧ worker.objects.length = 2 ∧ worker.objects[0]? = some conn ∧
      delimited.readAll HttpResponse.readReply [false, false] (sentBytes conn.log) = some (readings, []) ∧
      List.Forall₂
        (Answered { router_ := homeServer.router_ } (homeServer.make_connection 0).async_read_some noteReads)
        (served .defaults 0 sentNotes) readings := by
  obtain ⟨final, hrun, worker, hworker, htwo, conn, hconn, hphase⟩ := run_crowded
  have hbytes : receivedBytes noteReads = sentNotes.flatMap SentRequest.encode := by decide +kernel
  have hlabels : ∀ label ∈ noteReads, label.event.completes ∧ core.RequestDispatcher.Polite label.env.call := by
    simp [noteReads, TcpConnection.Event.completes, answering_polite greeting_sendable]
  obtain ⟨_, hroomy, _⟩ := exists_guarded_run_of_check roomy (homeServer.make_connection 0).async_read_some noteReads
    (fun final => final.phase_ = .headers) (by decide +kernel)
  have hundisturbed := (hroomy.guarded_mono roomy_undisturbed).throughout step_unique
  have hstart : (homeServer.make_connection 0).start (answering greeting) = .ok _ :=
    start_reading (answering greeting) homePage .defaults (by decide) 0
  have hserved : (served .defaults 0 sentNotes).map (fun sent => decide (toMethod sent.1.head.method = .HEAD)) =
      [false, false] := by decide +kernel
  rw [← hserved]
  rw [← own_crowded] at hbytes hlabels hundisturbed
  obtain ⟨readings, hread, hanswered⟩ := every_client_served HttpLimits.validate_defaults hrun hworker hconn
    going_crowded hstart hlabels hundisturbed sentNotes_valid (by rw [hbytes]) (fun _ => hbytes) (by simp [hphase])
  exact ⟨final, worker, conn, readings, hrun, hworker, htwo, hconn, hread, hanswered⟩

end TcpServer

end octane.transport
