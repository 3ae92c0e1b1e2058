import Urn.Relay.Entries

/-!
# Three entry points for a packet from the peer

The executions in which packets from the peer come in by any of the three entry
points, compared with those in which all of them go through
`on_peer_received(src, packet)`.
-/

namespace Urn.Relay.Service

open Execution (Throughout)

variable {Thread Endpoint : Type} [DecidableEq Thread]

/-- The same event by way of `on_peer_received(src, packet)`. -/
def Event.reference : Event Thread Endpoint → Event Thread Endpoint
  | .peerReceived thread _ packet => .peerReceived thread .startsSend packet
  | event => event

/-- `receive_peer_data` gets a packet which has no session. -/
def Misses (process : Process Thread Endpoint) : Event Thread Endpoint → Prop
  | .peerReceived _ .peerData packet => process.worker.relay.route packet = none
  | _ => False

/-- More receives have been started. -/
def Record.addPeerReceives (record : Record Endpoint) (more : ℕ) : Record Endpoint :=
  { record with peerReceives := record.peerReceives + more }

def Process.addPeerReceives (process : Process Thread Endpoint) (more : ℕ) :
    Process Thread Endpoint :=
  { process with
    worker := { process.worker with io := process.worker.io.addPeerReceives more } }

omit [DecidableEq Thread] in
theorem onThread_addPeerReceives {process after : Process Thread Endpoint} {thread : Thread}
    {left right : UInt16 → Worker Endpoint (Record Endpoint) →
      Except Fault (Worker Endpoint (Record Endpoint))} {before more : ℕ}
    (same : ∀ slot worker, left slot process.worker = .ok worker →
      right slot { process.worker with io := process.worker.io.addPeerReceives before } =
        .ok { worker with io := worker.io.addPeerReceives more })
    (ran : process.onThread thread left = .ok after) :
    (process.addPeerReceives before).onThread thread right = .ok (after.addPeerReceives more) := by
  rcases onThread_ok ran with ⟨slot, worker, started, ranOnSlot, rfl⟩
  have startedToo : (process.addPeerReceives before).thisThreadStatistics thread = some slot :=
    started
  have ranToo := same slot worker ranOnSlot
  simp only [Process.onThread, startedToo]
  simp only [Process.addPeerReceives, ranToo]

theorem Record.peerReceived_reference (record : Record Endpoint) (entry : PeerEntry)
    (packet : List UInt8) (routed : Option (SessionPtr × Endpoint)) (before : ℕ) :
    (record.addPeerReceives before).peerReceived .startsSend packet routed =
      (record.peerReceived entry packet routed).addPeerReceives
        (before + if entry = .peerData ∧ routed = none then 1 else 0) := by
  cases routed with
  | some target => simp [peerReceived, send, addPeerReceives]
  | none =>
      cases entry <;>
        simp [peerReceived, peerStartReceive, addPeerReceives, Nat.add_right_comm, Nat.add_assoc]

/-- An event which misses leaves one receive behind, and no other event does. -/
theorem step_reference {threadCount : UInt16} {process after : Process Thread Endpoint}
    {event : Event Thread Endpoint} (before : ℕ)
    (stepped : step threadCount process event = .ok after) :
    ∃ more, step threadCount (process.addPeerReceives before) event.reference =
        .ok (after.addPeerReceives (before + more)) ∧
      (Misses process event → more = 1) ∧ (¬Misses process event → more = 0) := by
  cases event with
  | threadStart thread index =>
      refine ⟨0, ?_, by simp [Misses], by simp⟩
      rcases step_threadStart stepped with ⟨below, rfl⟩
      simp [step, Event.reference, below, Process.addPeerReceives]
  | clientReceived thread src packet =>
      refine ⟨0, ?_, by simp [Misses], by simp⟩
      simp only [step, Event.reference] at stepped ⊢
      apply onThread_addPeerReceives ?_ stepped
      intro slot worker ran
      rw [(recorder Endpoint).runOnClientReceived_eq] at ran ⊢
      simp only [Except.map, Except.ok.injEq] at ran ⊢
      subst ran
      simp only [recorder, Record.clientStartReceive]
      by_cases registered : (process.worker.relay.clientReceived slot src packet).1 = true
      · simp [registered, Record.peerStartReceive, Record.addPeerReceives, Nat.add_right_comm]
      · simp [registered, Record.addPeerReceives]
  | peerReceived thread entry packet =>
      refine ⟨if entry = .peerData ∧ process.worker.relay.route packet = none then 1 else 0,
        ?_, ?_, ?_⟩
      · simp only [step, Event.reference] at stepped ⊢
        apply onThread_addPeerReceives ?_ stepped
        intro slot worker ran
        simp only [runPeerEntry_eq, Except.ok.injEq] at ran ⊢
        subst ran
        simp [Record.peerReceived_reference _ entry]
      · cases entry <;> simp +contextual [Misses]
      · cases entry <;> simp [Misses]
  | sessionSent thread packet =>
      refine ⟨0, ?_, by simp [Misses], by simp⟩
      simp only [step, Event.reference] at stepped ⊢
      apply onThread_addPeerReceives ?_ stepped
      intro slot worker ran
      rw [(recorder Endpoint).runOnSessionSent_eq] at ran ⊢
      simp only [Except.map, Except.ok.injEq] at ran ⊢
      subst ran
      simp [recorder, Record.peerStartReceive, Record.addPeerReceives, Nat.add_right_comm]
  | loadStatistics =>
      refine ⟨0, ?_, by simp [Misses], by simp⟩
      simp only [step, Event.reference, Except.ok.injEq] at stepped ⊢
      simp [← stepped, Process.addPeerReceives]

/-! ## Whole executions -/

variable {threadCount : UInt16}

theorem run_reference {events : List (Event Thread Endpoint)} {process : Process Thread Endpoint}
    (ran : run threadCount events = .ok process) :
    ∃ more, run threadCount (events.map Event.reference) = .ok (process.addPeerReceives more) := by
  apply Execution.execute_invariant (fun events process => ∃ more,
    run threadCount (events.map Event.reference) = .ok (process.addPeerReceives more)) ?_ ?_ ran
  · exact ⟨0, rfl⟩
  · rintro events process event after _ ⟨before, ranReference⟩ stepped
    rcases step_reference before stepped with ⟨more, steppedReference, _⟩
    refine ⟨before + more, ?_⟩
    rw [List.map_append]
    exact Execution.execute_snoc.mpr ⟨_, ranReference, steppedReference⟩

/-- Both have the same sessions and statistics, and have asked for the same. -/
structure Alike (left right : Process Thread Endpoint) : Prop where
  sessions : left.worker.relay.sessions = right.worker.relay.sessions
  perThreadStatistics :
    left.worker.relay.perThreadStatistics = right.worker.relay.perThreadStatistics
  sends : left.worker.io.sends = right.worker.io.sends
  peerReceives : left.worker.io.peerReceives = right.worker.io.peerReceives

/-- After every event the execution and the one through a single entry point are alike. -/
def Interchangeable (threadCount : UInt16) (events : List (Event Thread Endpoint)) : Prop :=
  ∀ before after, events = before ++ after → ∃ left right,
    run threadCount before = .ok left ∧
      run threadCount (before.map Event.reference) = .ok right ∧ Alike left right

theorem run_reference_of_no_miss {events : List (Event Thread Endpoint)}
    {process : Process Thread Endpoint} (ran : run threadCount events = .ok process)
    (noMiss : Throughout (step threadCount) (fun process event => ¬Misses process event) .initial
      events) :
    run threadCount (events.map Event.reference) = .ok process := by
  have invariant := Execution.execute_invariant (fun events process =>
    Throughout (step threadCount) (fun process event => ¬Misses process event) .initial events →
      run threadCount (events.map Event.reference) = .ok process) ?_ ?_ ran
  · exact invariant noMiss
  · intro _
    rfl
  · intro events process event after ranBefore same stepped noMiss
    have hits := noMiss.last ranBefore
    rcases step_reference 0 stepped with ⟨more, steppedReference, _, none_more⟩
    have none_more := none_more hits
    subst none_more
    rw [List.map_append]
    exact Execution.execute_snoc.mpr ⟨process, same noMiss.of_append, steppedReference⟩

/-- A miss is seen in the number of receives started. -/
theorem Interchangeable.no_miss {events : List (Event Thread Endpoint)}
    (interchangeable : Interchangeable threadCount events) :
    Throughout (step threadCount) (fun process event => ¬Misses process event) .initial
      events := by
  intro before event after process events_eq ran misses
  subst events_eq
  rcases interchangeable before (event :: after) rfl with ⟨left, right, ranLeft, ranRight, alike⟩
  rcases interchangeable (before ++ [event]) after (by simp) with
    ⟨leftAfter, rightAfter, ranLeftAfter, ranRightAfter, alikeAfter⟩
  have left_eq : process = left := Except.ok.inj (ran.symm.trans ranLeft)
  subst left_eq
  have stepped : step threadCount process event = .ok leftAfter := by
    rcases Execution.execute_snoc.mp ranLeftAfter with ⟨same, ranSame, stepped⟩
    have same_eq : same = process := Except.ok.inj (ranSame.symm.trans ran)
    exact same_eq ▸ stepped
  rcases run_reference ran with ⟨more, ranReference⟩
  rcases step_reference more stepped with ⟨missed, steppedReference, one_more, _⟩
  have ranReferenceAfter : run threadCount ((before ++ [event]).map Event.reference) =
      .ok (leftAfter.addPeerReceives (more + missed)) := by
    rw [List.map_append]
    exact Execution.execute_snoc.mpr ⟨_, ranReference, steppedReference⟩
  have right_eq := Except.ok.inj (ranRight.symm.trans ranReference)
  have rightAfter_eq := Except.ok.inj (ranRightAfter.symm.trans ranReferenceAfter)
  have receives := alike.peerReceives
  have receivesAfter := alikeAfter.peerReceives
  have missed_eq := one_more misses
  simp only [right_eq, rightAfter_eq, Process.addPeerReceives, Record.addPeerReceives]
    at receives receivesAfter
  omega

/-- The entry points for packets of the peer do the same in a run exactly if `receive_peer_data`
never gets a packet which has no session. -/
theorem entries_interchangeable_iff_no_miss {events : List (Event Thread Endpoint)}
    {process : Process Thread Endpoint} (ran : run threadCount events = .ok process) :
    Interchangeable threadCount events ↔
      Throughout (step threadCount) (fun process event => ¬Misses process event) .initial
        events := by
  constructor
  · intro interchangeable
    exact interchangeable.no_miss
  · intro noMiss before after events_eq
    subst events_eq
    rcases Execution.execute_append.mp ran with ⟨state, ranBefore, _⟩
    have ranReference := run_reference_of_no_miss ranBefore noMiss.of_append
    exact ⟨state, state, ranBefore, ranReference, rfl, rfl, rfl, rfl⟩

theorem entries_interchangeable_with_session :
    let events : List (Event Unit ℕ) :=
      [.threadStart () 0, .clientReceived () 7 [1, 0, 0, 0, 0, 0, 0, 0],
        .peerReceived () .withSession [1, 0, 0, 0, 0, 0, 0, 0, 42]]
    Interchangeable 1 events := by
  intro events
  have succeeds : Execution.succeedsWith (run 1 events)
      (fun process => process.worker.io.sends.length = 1) = true := by
    decide +kernel
  rcases Execution.exists_of_succeedsWith succeeds with ⟨process, ran, _⟩
  apply (entries_interchangeable_iff_no_miss ran).mpr
  intro before event after state events_eq _
  have event_mem : event ∈ events := by simp [events_eq]
  simp only [events, List.mem_cons, List.not_mem_nil, or_false] at event_mem
  rcases event_mem with rfl | rfl | rfl <;> simp [Misses]

/-- A short packet given to `receive_peer_data` leaves the peer without a receive. -/
theorem entries_not_interchangeable :
    let events : List (Event Unit ℕ) := [.threadStart () 0, .peerReceived () .peerData [1, 2]]
    (∃ process, run 1 events = .ok process) ∧ ¬Interchangeable 1 events := by
  intro events
  have succeeds : Execution.succeedsWith (run 1 events) (fun _ => true) = true := by
    decide +kernel
  rcases Execution.exists_of_succeedsWith succeeds with ⟨process, ran, _⟩
  refine ⟨⟨process, ran⟩, ?_⟩
  intro interchangeable
  have ranBoth : run 1 (([.threadStart () 0] : List (Event Unit ℕ)) ++
      [.peerReceived () .peerData [1, 2]]) = .ok process := ran
  rcases Execution.execute_append.mp ranBoth with ⟨state, started, _⟩
  have noMiss := interchangeable.no_miss [.threadStart () 0] _ [] state rfl started
  exact noMiss (by simp [Misses, State.route, sessionIdSize])

end Urn.Relay.Service
