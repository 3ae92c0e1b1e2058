import Urn.Relay.Holdings
import Urn.Uring.Egress
import Urn.Uring.Service

/-!
# The statistics of the io_uring workers

The timer belongs to the ring of the main worker.  When its completion is processed, it
takes the statistics of all workers, between any two completions of the others.  A
datagram is counted as sent when the completion of its send is processed, whatever the
result.
-/

namespace Urn.Uring

open Relay Execution

variable {Endpoint : Type}

/-- The datagram that a completion hands to the relay. -/
def Completion.datagrams (completion : Completion Endpoint) : List (List UInt8) :=
  match completion.operation.opcode, completion.received with
  | .recvmsg _, some (_, bytes) => [bytes]
  | _, _ => []

/-- What `on_statistics_tick` takes when the completion is processed. -/
def Completion.loads (completion : Completion Endpoint) (threads : List UInt16)
    (relay : State UInt16 Endpoint) : Statistics :=
  if completion.operation.opcode = .timeout then (relay.loadStatistics threads).1 else .zero

/-- The datagram that an event hands to the relay. -/
def received (worker : Worker Endpoint (Io Endpoint)) (event : Event Endpoint) :
    List (List UInt8) :=
  match processed? worker event with
  | none => []
  | some completion => completion.datagrams

/-- What an event takes from the threads. -/
def loaded (threads : List UInt16) (worker : Worker Endpoint (Io Endpoint))
    (event : Event Endpoint) : Statistics :=
  match processed? worker event with
  | none => .zero
  | some completion => completion.loads threads worker.relay

/-- The sends whose completions the worker has still to process. -/
def Io.unconfirmed (io : Io Endpoint) : UInt64 := UInt64.ofNat (io.posted .peerTx)

section Steps

variable {thread : UInt16} {threads : List UInt16} {main : Bool}
  {worker after : Worker Endpoint (Io Endpoint)} {event : Event Endpoint}
  {completion : Completion Endpoint} {cq : List (Completion Endpoint)}

/-- What an event moves: datagrams come in, sends are queued and confirmed, and the
timer takes what is held. -/
structure Moves (threads : List UInt16) (worker : Worker Endpoint (Io Endpoint))
    (event : Event Endpoint) (after : Worker Endpoint (Io Endpoint)) : Prop where
  inbound : ∀ measure, (loaded threads worker event).get .inbound measure +
      after.relay.held threads .inbound measure =
    worker.relay.held threads .inbound measure + amounts measure (received worker event)
  outbound : (loaded threads worker event).get .outbound .packets +
      (after.relay.held threads .outbound .packets + after.io.unconfirmed) =
    worker.relay.held threads .outbound .packets + worker.io.unconfirmed +
      amounts .packets ((sent worker.io event after.io).map Prod.snd)

theorem unconfirmed_add {io io' : Io Endpoint} {count : ℕ}
    (posted : io'.posted .peerTx = io.posted .peerTx + count) :
    io'.unconfirmed = io.unconfirmed + UInt64.ofNat count := by
  rw [Io.unconfirmed, posted, UInt64.ofNat_add]
  rfl

theorem amounts_sent (sends : List (Endpoint × List UInt8)) :
    amounts .packets (sends.map Prod.snd) = UInt64.ofNat sends.length := by
  rw [amounts_packets, List.length_map]

theorem moves_of_idle (nothing : processed? worker event = none)
    (idle : Idle worker after event) (unsent : sent worker.io event after.io = []) :
    Moves threads worker event after := by
  have held_eq (flow : Flow) (measure : Measure) : after.relay.held threads flow measure =
      worker.relay.held threads flow measure := State.held_congr idle.statistics flow measure
  have posted : after.io.posted .peerTx = worker.io.posted .peerTx :=
    (idle.operations.map Operation.kind).count_eq _
  constructor
  · intro measure
    simp [loaded, received, nothing, held_eq, amounts]
  · simp [loaded, nothing, held_eq, unsent, Io.unconfirmed, posted, amounts]

/-- A datagram has been received, and perhaps forwarded. -/
theorem moves_of_received (nodup : threads.Nodup) (thread_mem : thread ∈ threads)
    {bytes : List UInt8} (received_eq : received worker event = [bytes])
    (loaded_eq : loaded threads worker event = .zero)
    (statistics : after.relay.perThreadStatistics =
      (worker.relay.updateIoStatistics thread .inbound bytes.length).perThreadStatistics)
    (posted : after.io.posted .peerTx =
      worker.io.posted .peerTx + (sent worker.io event after.io).length) :
    Moves threads worker event after := by
  have held_eq (flow : Flow) (measure : Measure) :=
    (State.held_congr statistics flow measure).trans
      (State.held_updateIoStatistics nodup thread_mem worker.relay .inbound flow _ measure)
  constructor
  · intro measure
    simp [loaded_eq, received_eq, held_eq, amounts]
  · rw [loaded_eq, held_eq, amounts_sent, unconfirmed_add posted]
    simp [add_assoc]

theorem sent_of_ne_peer (sound : worker.io.Sound main)
    (isNext : processed? worker event = some completion)
    (notPeer : completion.operation.opcode ≠ .recvmsg .peer)
    (stepped : step thread threads worker event = .ok after) :
    sent worker.io event after.io = [] := by
  rcases processed_of_step sound.balanced isNext stepped with ⟨cq, cq_eq, -⟩
  have asked_eq : asked worker.io event = completion.asked := by
    cases event with
    | process => simp only [asked, cq_eq]
    | _ => contradiction
  rw [(serves_of_step sound stepped).sent_eq, asked_eq, answers_asked_of_ne_peer _ notPeer]

theorem sent_of_idle (sound : worker.io.Sound main) (nothing : processed? worker event = none)
    (stepped : step thread threads worker event = .ok after) :
    sent worker.io event after.io = [] := by
  rw [(serves_of_step sound stepped).sent_eq]
  cases event with
  | process =>
      have empty : worker.io.cq = [] := List.head?_eq_none_iff.mp nothing
      simp only [asked, empty]
      rfl
  | _ => rfl

end Steps

section Completions

variable {thread : UInt16} {threads : List UInt16} {main : Bool}
  {worker after : Worker Endpoint (Io Endpoint)} {completion : Completion Endpoint}
  {cq : List (Completion Endpoint)}

theorem processed?_eq (cq_eq : worker.io.cq = completion :: cq) :
    processed? worker .process = some completion := by
  simp [processed?, cq_eq]

theorem received_eq (cq_eq : worker.io.cq = completion :: cq) :
    received worker .process = completion.datagrams := by
  simp only [received, processed?_eq cq_eq]

theorem loaded_eq_zero (cq_eq : worker.io.cq = completion :: cq)
    (notTimer : completion.operation.opcode ≠ .timeout) :
    loaded threads worker .process = .zero := by
  simp only [loaded, processed?_eq cq_eq, Completion.loads, if_neg notTimer]

theorem process_of_step (cq_eq : worker.io.cq = completion :: cq)
    (stepped : step thread threads worker .process = .ok after) :
    process thread threads completion (taken worker cq) = .ok after := by
  simpa [step, cq_eq, taken] using stepped

theorem succeeded_of_step {socket : Socket} (sound : worker.io.Sound main)
    (cq_eq : worker.io.cq = completion :: cq)
    (opcode : completion.operation.opcode = .recvmsg socket)
    (stepped : step thread threads worker .process = .ok after) : 0 ≤ completion.res := by
  apply le_of_not_gt
  intro failed
  have result := process_of_step cq_eq stepped
  rw [process_failed_receive thread threads sound.balanced cq_eq opcode failed] at result
  contradiction

theorem moves_of_client (nodup : threads.Nodup) (thread_mem : thread ∈ threads)
    (sound : worker.io.Sound main) (cq_eq : worker.io.cq = completion :: cq)
    (opcode : completion.operation.opcode = .recvmsg .client)
    (stepped : step thread threads worker .process = .ok after) :
    Moves threads worker .process after := by
  have balanced := sound.balanced
  have succeeded := succeeded_of_step sound cq_eq opcode stepped
  have completion_mem : completion ∈ worker.io.cq := cq_eq ▸ List.mem_cons_self
  rcases balanced.delivered completion completion_mem .client opcode succeeded with
    ⟨src, bytes, stored, res, -⟩
  have datagram : received worker .process = [bytes] := by
    simp only [received_eq cq_eq, Completion.datagrams, opcode, stored]
  have unsent := sent_of_ne_peer sound (processed?_eq cq_eq) (by simp [opcode]) stepped
  have result := process_of_step cq_eq stepped
  rcases process_client thread threads balanced cq_eq opcode succeeded with
    ⟨relay, statistics, expected⟩
  simp only [expected, Except.ok.injEq] at result
  subst result
  refine moves_of_received nodup thread_mem datagram
    (loaded_eq_zero cq_eq (by simp [opcode])) ?_ ?_
  · simpa [res] using statistics
  · rw [unsent, posted_again, Io.Sound.posted_take cq_eq]
    simp [Operation.kind, opcode, Socket.receiveType, taken]

theorem moves_of_peer (nodup : threads.Nodup) (thread_mem : thread ∈ threads)
    (sound : worker.io.Sound main) (cq_eq : worker.io.cq = completion :: cq)
    (opcode : completion.operation.opcode = .recvmsg .peer)
    (stepped : step thread threads worker .process = .ok after) :
    Moves threads worker .process after := by
  have balanced := sound.balanced
  have succeeded := succeeded_of_step sound cq_eq opcode stepped
  rcases reportsPeer balanced cq_eq opcode succeeded with ⟨src, bytes, reports⟩
  have datagram : received worker .process = [bytes] := by
    simp only [received_eq cq_eq, Completion.datagrams, opcode, reports.received]
  have nothing : loaded threads worker .process = .zero :=
    loaded_eq_zero cq_eq (by simp [opcode])
  have pending := Io.Sound.posted_take cq_eq .peerTx
  have result := process_of_step cq_eq stepped
  cases routed : worker.relay.route bytes with
  | none =>
      rcases process_unrouted thread threads balanced reports routed with
        ⟨relay, statistics, expected⟩
      simp only [expected, Except.ok.injEq] at result
      subst result
      apply moves_of_received nodup thread_mem datagram nothing statistics
      rw [posted_again, pending]
      simp [Operation.kind, opcode, Socket.receiveType, sent, Io.again, Io.armed,
        Io.releaseEvent, taken]
  | some target =>
      rcases sq_of_forwards sound reports routed stepped with ⟨txEvent, rxEvent, sq_eq⟩
      cases free : worker.io.freeEventIds with
      | nil =>
          have failed := process_routed_full thread threads balanced reports routed free
          rw [failed] at result
          contradiction
      | cons txEvent rest =>
          rcases process_routed thread threads balanced reports routed free with
            ⟨relay, statistics, expected⟩
          simp only [expected, Except.ok.injEq] at result
          subst result
          apply moves_of_received nodup thread_mem datagram nothing statistics
          rw [sent, sq_eq, List.drop_left, posted_again, Io.posted_transmitting, pending]
          simp [Operation.kind, opcode, Socket.receiveType, taken]

/-- A send is counted, even if it has failed. -/
theorem moves_of_sent (nodup : threads.Nodup) (thread_mem : thread ∈ threads)
    (sound : worker.io.Sound main) (cq_eq : worker.io.cq = completion :: cq)
    (opcode : completion.operation.opcode = .sendmsg .client)
    (stepped : step thread threads worker .process = .ok after) :
    Moves threads worker .process after := by
  have unsent := sent_of_ne_peer sound (processed?_eq cq_eq) (by simp [opcode]) stepped
  have nothing : loaded threads worker .process = .zero :=
    loaded_eq_zero cq_eq (by simp [opcode])
  have result := process_of_step cq_eq stepped
  rcases process_sent thread threads sound.balanced cq_eq opcode with
    ⟨relay, statistics, expected⟩
  simp only [expected, Except.ok.injEq] at result
  subst result
  have held_eq (flow : Flow) (measure : Measure) :=
    (State.held_congr statistics flow measure).trans
      (State.held_updateIoStatistics nodup thread_mem worker.relay .outbound flow _ measure)
  constructor
  · intro measure
    simp [nothing, received_eq cq_eq, Completion.datagrams, opcode, held_eq, amounts]
  · have confirmed : worker.io.unconfirmed =
        ((taken worker cq).io.releaseEvent completion.operation.userData).unconfirmed +
          UInt64.ofNat 1 := by
      apply unconfirmed_add
      rw [Io.Sound.posted_take cq_eq]
      simp [Operation.kind, opcode, Io.releaseEvent, Io.posted, Io.operations, taken]
    have one : Measure.packets.amount64 (toUInt32 completion.res) = UInt64.ofNat 1 := rfl
    rw [nothing, held_eq, unsent, confirmed, if_pos rfl, one]
    simp [amounts, add_assoc, add_comm, add_left_comm]

theorem moves_of_timer (sound : worker.io.Sound main) (cq_eq : worker.io.cq = completion :: cq)
    (opcode : completion.operation.opcode = .timeout)
    (stepped : step thread threads worker .process = .ok after) :
    Moves threads worker .process after := by
  have unsent := sent_of_ne_peer sound (processed?_eq cq_eq) (by simp [opcode]) stepped
  have loads : loaded threads worker .process = (worker.relay.loadStatistics threads).1 := by
    simp only [loaded, processed?_eq cq_eq, Completion.loads, if_pos opcode]
  have result := process_of_step cq_eq stepped
  rcases process_timer thread threads sound.balanced cq_eq opcode with
    ⟨relay, statistics, expected⟩
  simp only [expected, Except.ok.injEq] at result
  subst result
  have held_eq (flow : Flow) (measure : Measure) : relay.held threads flow measure =
      (worker.relay.loadStatistics threads).2.held threads flow measure :=
    State.held_congr statistics flow measure
  have all := State.held_loadStatistics worker.relay threads
  constructor
  · intro measure
    rw [loads, held_eq, all, received_eq cq_eq]
    simp [Completion.datagrams, opcode, amounts]
  · have posted : ((taken worker cq).io.timed completion.operation.userData).posted .peerTx =
        worker.io.posted .peerTx := by
      rw [Io.Sound.posted_take cq_eq, Io.posted_of_perm (Io.operations_timed _ _)]
      simp [Operation.kind, opcode, taken]
    rw [loads, held_eq, ← add_assoc, all, unsent, Io.unconfirmed, posted]
    simp [Io.unconfirmed, amounts]

theorem moves_of_step {event : Event Endpoint} (nodup : threads.Nodup)
    (thread_mem : thread ∈ threads) (sound : worker.io.Sound main)
    (stepped : step thread threads worker event = .ok after) :
    Moves threads worker event after := by
  cases next : processed? worker event with
  | none =>
      exact moves_of_idle next (idle_of_step sound.balanced next stepped)
        (sent_of_idle sound next stepped)
  | some completion =>
      rcases processed_of_step sound.balanced next stepped with ⟨cq, cq_eq, -⟩
      have isProcess : event = .process := by
        cases event <;> first | rfl | contradiction
      subst isProcess
      have valid := (sound.balanced.intact _ (head_mem_operations cq_eq)).valid
      cases opcode : completion.operation.opcode with
      | recvmsg socket =>
          cases socket with
          | client => exact moves_of_client nodup thread_mem sound cq_eq opcode stepped
          | peer => exact moves_of_peer nodup thread_mem sound cq_eq opcode stepped
      | sendmsg socket =>
          cases socket with
          | client => exact moves_of_sent nodup thread_mem sound cq_eq opcode stepped
          | peer => simp [Operation.kind, opcode] at valid
      | timeout => exact moves_of_timer sound cq_eq opcode stepped

end Completions

section Workers

variable {threads : List UInt16} {team after : Team UInt16 (State UInt16 Endpoint) (Io Endpoint)}
  {relay : State UInt16 Endpoint} {events : List (UInt16 × Event Endpoint)}

/-- The sends whose completions the workers have still to process. -/
def unconfirmed (threads : List UInt16)
    (team : Team UInt16 (State UInt16 Endpoint) (Io Endpoint)) : UInt64 :=
  (threads.map fun thread => (team.own thread).unconfirmed).sum

/-- What an event of a worker takes from all of them. -/
def teamLoads (threads : List UInt16) (flow : Flow) (measure : Measure)
    (team : Team UInt16 (State UInt16 Endpoint) (Io Endpoint)) (event : UInt16 × Event Endpoint)
    (_after : Team UInt16 (State UInt16 Endpoint) (Io Endpoint)) : UInt64 :=
  (loaded threads ⟨team.shared, team.own event.1⟩ event.2).get flow measure

/-- What an event of a worker hands to the relay. -/
def teamReceives (team : Team UInt16 (State UInt16 Endpoint) (Io Endpoint))
    (event : UInt16 × Event Endpoint) (_after : Team UInt16 (State UInt16 Endpoint) (Io Endpoint)) :
    List (List UInt8) :=
  received ⟨team.shared, team.own event.1⟩ event.2

theorem balanced_of_turn {event : UInt16 × Event Endpoint} (nodup : threads.Nodup)
    (thread_mem : event.1 ∈ threads)
    (sound : ∀ thread, (team.own thread).Sound (isMainWorker thread))
    (taken : Team.step (turn threads) team event = .ok after) :
    (∀ measure, teamLoads threads .inbound measure team event after +
        after.shared.held threads .inbound measure =
      team.shared.held threads .inbound measure +
        amounts measure (teamReceives team event after)) ∧
    teamLoads threads .outbound .packets team event after +
        (after.shared.held threads .outbound .packets + unconfirmed threads after) =
      team.shared.held threads .outbound .packets + unconfirmed threads team +
        amounts .packets ((sent (team.own event.1) event.2 (after.own event.1)).map Prod.snd) := by
  rcases Team.step_eq_ok.mp taken with ⟨shared, own, stepped, rfl⟩
  have moves := moves_of_step nodup thread_mem (sound event.1) (turn_eq_ok stepped)
  refine ⟨moves.inbound, ?_⟩
  rcases Team.split_sum nodup thread_mem team.own own Io.unconfirmed with
    ⟨rest, before_eq, after_eq⟩
  rw [unconfirmed, unconfirmed, before_eq, after_eq]
  simp only [Function.update_self]
  exact framed moves.outbound

variable [Inhabited Endpoint]

/-- What the timer has taken. -/
def allLoaded (threads : List UInt16) (relay : State UInt16 Endpoint)
    (events : List (UInt16 × Event Endpoint)) (flow : Flow) (measure : Measure) : UInt64 :=
  total (Team.step (turn threads)) (teamLoads threads flow measure) (Workers.initial relay) events

/-- What all events have handed to the relay. -/
def allReceived (threads : List UInt16) (relay : State UInt16 Endpoint)
    (events : List (UInt16 × Event Endpoint)) : List (List UInt8) :=
  observe (Team.step (turn threads)) teamReceives (Workers.initial relay) events

theorem startIo_unconfirmed (thread : UInt16) :
    (startIo thread : Io Endpoint).unconfirmed = 0 := by
  rcases start_sound thread (State.initial : State UInt16 Endpoint) with
    ⟨worker, started, sound, -, -, unsent⟩
  have nothing : worker.io.posted .peerTx = 0 := by
    rw [Io.posted, List.count_eq_zero]
    intro mem
    rcases List.mem_map.mp mem with ⟨operation, operation_mem, isTx⟩
    rcases (sound.balanced.intact operation operation_mem).send isTx with ⟨_, _, isSend, -⟩
    rw [unsent operation operation_mem] at isSend
    contradiction
  simp [startIo, started, Io.unconfirmed, nothing]

/-- However the completions of the workers interleave with those of the timer: what the
timer has taken, what the threads hold and what is not confirmed are as many datagrams
as the directory delivers, and the datagrams taken and held as received are those which
the workers have received. -/
theorem packets_account_for_directory (nodup : threads.Nodup)
    (members : ∀ event ∈ events, event.1 ∈ threads)
    (ran : execute (Team.step (turn threads)) (Workers.initial relay) events = .ok team) :
    (∀ measure, allLoaded threads relay events .inbound measure +
        team.shared.held threads .inbound measure =
      relay.held threads .inbound measure +
        amounts measure (allReceived threads relay events)) ∧
    allLoaded threads relay events .outbound .packets +
        (team.shared.held threads .outbound .packets + unconfirmed threads team) =
      relay.held threads .outbound .packets +
        amounts .packets ((answers relay.table (requests threads relay events)).map Prod.snd) := by
  have balanced (before : List (UInt16 × Event Endpoint)) (event : UInt16 × Event Endpoint)
      (rest : List (UInt16 × Event Endpoint))
      (state next : Team UInt16 (State UInt16 Endpoint) (Io Endpoint))
      (events_eq : events = before ++ event :: rest)
      (ranBefore : execute (Team.step (turn threads)) (Workers.initial relay) before = .ok state)
      (taken : Team.step (turn threads) state event = .ok next) :=
    balanced_of_turn nodup (members event (by simp [events_eq]))
      (Team.invariant startIo_sound (serves threads).preserved (fun _ _ => trivial) ranBefore)
      taken
  constructor
  · intro measure
    have sums : amounts measure (allReceived threads relay events) = _ := sum_observe _ _ _
    rw [sums]
    apply conserved ran
    intro before event rest state next events_eq ranBefore taken
    exact (balanced before event rest state next events_eq ranBefore taken).1 measure
  · have sums : amounts .packets ((sends threads relay events).map Prod.snd) =
        total (Team.step (turn threads)) (fun team event after =>
          amounts .packets ((sent (team.own event.1) event.2 (after.own event.1)).map Prod.snd))
          (Workers.initial relay) events := by
      simp only [amounts, List.map_map]
      exact sum_observe _ _ _
    have start : unconfirmed threads (Workers.initial relay) = 0 := by
      apply List.sum_eq_zero
      intro value value_mem
      rcases List.mem_map.mp value_mem with ⟨thread, -, rfl⟩
      exact startIo_unconfirmed thread
    have sends_eq : sends threads relay events =
        answers relay.table (requests threads relay events) :=
      (Team.answered (serves threads) startIo_sound (fun _ _ => trivial) ran).2
    have settled := conserved ran fun before event rest state next events_eq ranBefore taken =>
      (balanced before event rest state next events_eq ranBefore taken).2
    rw [start, add_zero, ← sums, sends_eq] at settled
    exact settled

/-- The timer fires when one of two sends has been confirmed. -/
def timerBetween : List (UInt16 × Event ℕ) :=
  twoWorkers ++ [(1, .complete 1 (.result 9)), (1, .process),
    (0, .complete 1 (.result (-62))), (0, .process)]

theorem timerBetween_packets_account_for_directory :
    ∃ team : Team UInt16 (State UInt16 ℕ) (Io ℕ),
      execute (Team.step (turn [0, 1])) (Workers.initial .initial) timerBetween = .ok team ∧
        allLoaded [0, 1] .initial timerBetween .outbound .packets = 1 ∧
        allLoaded [0, 1] .initial timerBetween .outbound .packets +
          (team.shared.held [0, 1] .outbound .packets + unconfirmed [0, 1] team) = 2 := by
  have succeeds : succeedsWith (execute (Team.step (turn [0, 1])) (Workers.initial .initial)
      timerBetween) (fun _ => true) = true := by
    decide +kernel
  rcases exists_of_succeedsWith succeeds with ⟨team, ran, -⟩
  refine ⟨team, ran, ?_, ?_⟩
  · decide +kernel
  · have nodup : [(0 : UInt16), 1].Nodup := by decide
    rw [(packets_account_for_directory nodup (by simp [timerBetween, twoWorkers]) ran).2]
    decide +kernel

end Workers

end Urn.Uring
