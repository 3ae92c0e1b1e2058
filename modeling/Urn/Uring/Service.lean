import Urn.Foundation.Team
import Urn.Relay.Directory
import Urn.Uring.Payload

/-!
# The io_uring workers serve the directory

A receive asks when its completion is processed, which may be long after the kernel
has stored the datagram.  In whatever order operations complete on the rings of the
workers, the workers submit the sends that the directory answers.
-/

namespace Urn.Uring

open Relay Execution

variable {Endpoint : Type}

/-- What a completion asks for. -/
def Completion.asked (completion : Completion Endpoint) : List (Request Endpoint) :=
  match completion.operation.opcode, completion.received with
  | .recvmsg .client, some (src, bytes) => askedByClient src bytes
  | .recvmsg .peer, some (_, bytes) => askedByPeer bytes
  | _, _ => []

/-- What the relay is asked by an event. -/
def asked (io : Io Endpoint) : Event Endpoint → List (Request Endpoint)
  | .process =>
      match io.cq with
      | [] => []
      | completion :: _ => completion.asked
  | .otherRegisters id src => [.claim id src]
  | _ => []

/-- The sends which an event has queued for submission. -/
def sent (io : Io Endpoint) (_event : Event Endpoint) (after : Io Endpoint) :
    List (Endpoint × List UInt8) :=
  (after.sq.drop io.sq.length).filterMap Operation.sent

/-- One event of one of the workers, which share the relay. -/
def turn (threads : List UInt16) (thread : UInt16) (relay : State UInt16 Endpoint)
    (io : Io Endpoint) (event : Event Endpoint) :
    Except Abort (State UInt16 Endpoint × Io Endpoint) :=
  (step thread threads ⟨relay, io⟩ event).map fun worker => (worker.relay, worker.io)

section Tables

variable {thread : UInt16} {threads : List UInt16} {event : EventPtr} {res : ℤ}
  {worker after : Worker Endpoint (Io Endpoint)}

theorem table_of_peerRx (ran : peerRx thread event res worker = .ok after) :
    after.relay.table = worker.relay.table := by
  rw [peerRx] at ran
  split at ran
  · contradiction
  · split at ran
    · contradiction
    · rcases bind_eq_ok.mp ran with ⟨⟨reused, middle⟩, received, rest⟩
      rcases bind_eq_ok.mp rest with ⟨io, -, last⟩
      have table_eq := (backend Endpoint).table_of_runOnPeerReceived thread received
      rw [← Except.ok.inj last]
      exact table_eq

theorem table_of_peerTx (ran : peerTx thread event res worker = .ok after) :
    after.relay.table = worker.relay.table := by
  rw [peerTx] at ran
  split at ran
  · contradiction
  · rcases bind_eq_ok.mp ran with ⟨⟨value, middle⟩, handled, last⟩
    have table_eq := (backend Endpoint).table_of_runOnSessionSent thread handled
    rw [← Except.ok.inj last]
    exact table_eq

theorem table_of_timer (ran : timer threads event worker = .ok after) :
    after.relay.table = worker.relay.table := by
  rcases bind_eq_ok.mp ran with ⟨io, -, last⟩
  rw [← Except.ok.inj last]
  rfl

theorem table_of_clientRx (ran : clientRx thread event res worker = .ok after) :
    0 ≤ res ∧ ∃ vector, worker.io.vector? event = some vector ∧
      after.relay.table = worker.relay.table.afterAll
        (askedByClient (worker.io.ioEvents event).address
          (worker.io.read ⟨vector.base, res.toNat⟩)) := by
  rw [clientRx] at ran
  split at ran
  · contradiction
  · rename_i succeeded
    split at ran
    · contradiction
    · rename_i vector found
      rcases bind_eq_ok.mp ran with ⟨⟨value, middle⟩, received, rest⟩
      rcases bind_eq_ok.mp rest with ⟨io, -, last⟩
      have table_eq := (backend Endpoint).table_of_runOnClientReceived thread received
      refine ⟨not_lt.mp succeeded, vector, found, ?_⟩
      rw [← Except.ok.inj last]
      exact table_eq

end Tables

section Processing

variable {thread : UInt16} {threads : List UInt16} {worker after : Worker Endpoint (Io Endpoint)}
  {completion : Completion Endpoint} {cq : List (Completion Endpoint)}

theorem afterAll_asked_of_ne_client (table : Directory.Table SessionId Endpoint)
    (notClient : completion.operation.opcode ≠ .recvmsg .client) :
    table.afterAll completion.asked = table := by
  unfold Completion.asked
  split
  · exact absurd ‹_› notClient
  · exact afterAll_askedByPeer _ _
  · rfl

theorem table_of_process (balanced : worker.io.Balanced [])
    (cq_eq : worker.io.cq = completion :: cq)
    (processed : process thread threads completion (taken worker cq) = .ok after) :
    after.relay.table = worker.relay.table.afterAll completion.asked := by
  have intact := balanced.intact _ (head_mem_operations cq_eq)
  have type := intact.type
  have valid := intact.valid
  have message := intact.message
  cases opcode : completion.operation.opcode with
  | recvmsg socket =>
      cases socket with
      | client =>
          simp only [Operation.kind, opcode] at type message
          simp only [process, taken, type] at processed
          rcases table_of_clientRx processed with ⟨succeeded, vector, found, table_eq⟩
          have completion_mem : completion ∈ worker.io.cq := cq_eq ▸ List.mem_cons_self
          rcases balanced.delivered completion completion_mem .client opcode succeeded with
            ⟨src, bytes, received, res, short, address, stored⟩
          simp only [Io.vector?, message (by simp), ownHeader, Option.map_some,
            intact.receive .client opcode, ownVector, Option.some.injEq] at found
          subst found
          rw [table_eq]
          simp only [Completion.asked, opcode, received, address, Io.read, res, Int.toNat_natCast,
            stored]
      | peer =>
          simp only [Operation.kind, opcode] at type
          simp only [process, taken, type] at processed
          rw [table_of_peerRx processed, afterAll_asked_of_ne_client _ (by simp [opcode])]
  | sendmsg socket =>
      cases socket with
      | peer => simp [Operation.kind, opcode] at valid
      | client =>
          simp only [Operation.kind, opcode] at type
          simp only [process, taken, type] at processed
          rw [table_of_peerTx processed, afterAll_asked_of_ne_client _ (by simp [opcode])]
  | timeout =>
      simp only [Operation.kind, opcode] at type
      simp only [process, taken, type] at processed
      rw [table_of_timer processed, afterAll_asked_of_ne_client _ (by simp [opcode])]

theorem answers_asked_of_ne_peer (table : Directory.Table SessionId Endpoint)
    (notPeer : completion.operation.opcode ≠ .recvmsg .peer) :
    answers table completion.asked = [] := by
  unfold Completion.asked
  split
  · exact answers_askedByClient _ _ _
  · exact absurd ‹_› notPeer
  · rfl

/-- A send is queued for a completion exactly if the directory answers it. -/
theorem sent_of_process {main : Bool} (sound : worker.io.Sound main)
    (cq_eq : worker.io.cq = completion :: cq)
    (processed : process thread threads completion (taken worker cq) = .ok after) :
    sent worker.io .process after.io = answers worker.relay.table completion.asked := by
  have balanced := sound.balanced
  have valid := (balanced.intact _ (head_mem_operations cq_eq)).valid
  cases opcode : completion.operation.opcode with
  | recvmsg socket =>
      have succeeded : 0 ≤ completion.res := by
        apply le_of_not_gt
        intro failed
        rw [process_failed_receive thread threads balanced cq_eq opcode failed] at processed
        contradiction
      cases socket with
      | client =>
          rcases process_client thread threads balanced cq_eq opcode succeeded with
            ⟨relay, -, result⟩
          simp only [result, Except.ok.injEq] at processed
          rw [answers_asked_of_ne_peer _ (by simp [opcode]), ← processed]
          simp [sent, Io.again, Io.armed, Io.releaseEvent, taken]
      | peer =>
          rcases reportsPeer balanced cq_eq opcode succeeded with ⟨src, bytes, reports⟩
          have asked_eq : completion.asked = askedByPeer bytes := by
            simp only [Completion.asked, opcode, reports.received]
          rw [asked_eq, answers_askedByPeer]
          cases routed : worker.relay.route bytes with
          | none =>
              rcases process_unrouted thread threads balanced reports routed with
                ⟨relay, -, result⟩
              simp only [result, Except.ok.injEq] at processed
              rw [← processed]
              simp [sent, Io.again, Io.armed, Io.releaseEvent, taken]
          | some target =>
              have stepped : step thread threads worker .process = .ok after := by
                simpa [step, cq_eq, taken] using processed
              rcases sq_of_forwards sound reports routed stepped with ⟨txEvent, rxEvent, sq_eq⟩
              rw [sent, sq_eq, List.drop_left]
              rfl
  | sendmsg socket =>
      cases socket with
      | peer => simp [Operation.kind, opcode] at valid
      | client =>
          rcases process_sent thread threads balanced cq_eq opcode with ⟨relay, -, result⟩
          simp only [result, Except.ok.injEq] at processed
          rw [answers_asked_of_ne_peer _ (by simp [opcode]), ← processed]
          simp [sent, Io.releaseEvent, taken]
  | timeout =>
      rcases process_timer thread threads balanced cq_eq opcode with ⟨relay, -, result⟩
      simp only [result, Except.ok.injEq] at processed
      rw [answers_asked_of_ne_peer _ (by simp [opcode]), ← processed]
      simp [sent, Io.timed, Io.modifyEvent, taken]

end Processing

section Steps

variable {thread : UInt16} {threads : List UInt16} {main : Bool}
  {worker after : Worker Endpoint (Io Endpoint)} {event : Event Endpoint}

/-- The event is answered as the directory answers it. -/
structure Serves (worker : Worker Endpoint (Io Endpoint)) (event : Event Endpoint)
    (after : Worker Endpoint (Io Endpoint)) : Prop where
  table_eq : after.relay.table = worker.relay.table.afterAll (asked worker.io event)
  sent_eq : sent worker.io event after.io = answers worker.relay.table (asked worker.io event)

theorem serves_of_quiet (quiet : asked worker.io event = [])
    (relay_eq : after.relay = worker.relay) (shorter : after.io.sq.length ≤ worker.io.sq.length) :
    Serves worker event after := by
  constructor
  · rw [quiet, relay_eq]
    rfl
  · rw [quiet, sent, List.drop_eq_nil_of_le shorter]
    rfl

@[simp]
theorem sq_complete (io : Io Endpoint) (index : ℕ) (reply : Reply Endpoint) :
    (io.complete index reply).sq = io.sq := by
  unfold Io.complete
  split
  · rfl
  · split
    · unfold Io.recvmsg
      split <;> rfl
    · split <;> rfl
    all_goals rfl

theorem serves_of_step (sound : worker.io.Sound main)
    (processed : step thread threads worker event = .ok after) : Serves worker event after := by
  cases event with
  | submit =>
      simp only [step, Except.ok.injEq] at processed
      subst processed
      exact serves_of_quiet rfl rfl (Nat.zero_le _)
  | complete index reply =>
      simp only [step, Except.ok.injEq] at processed
      subst processed
      refine serves_of_quiet rfl rfl ?_
      rw [sq_complete]
  | otherRegisters id src =>
      simp only [step, Except.ok.injEq] at processed
      subst processed
      constructor
      · exact table_tryRegisterSession worker.relay id src
      · simp [sent, asked, Directory.Table.answers, Directory.Table.answer]
  | process =>
      cases cq_eq : worker.io.cq with
      | nil =>
          simp only [step, cq_eq, Except.ok.injEq] at processed
          subst processed
          exact serves_of_quiet (by simp [asked, cq_eq]) rfl (Nat.le_refl _)
      | cons completion cq =>
          have asked_eq : asked worker.io .process = completion.asked := by
            simp only [asked, cq_eq]
          have ran : process thread threads completion (taken worker cq) = .ok after := by
            simpa [step, cq_eq, taken] using processed
          constructor
          · rw [asked_eq]
            exact table_of_process sound.balanced cq_eq ran
          · rw [asked_eq]
            exact sent_of_process sound cq_eq ran

end Steps

section Workers

variable {threads : List UInt16}

theorem turn_eq_ok {thread : UInt16} {relay relay' : State UInt16 Endpoint} {io io' : Io Endpoint}
    {event : Event Endpoint} (taken : turn threads thread relay io event = .ok (relay', io')) :
    step thread threads ⟨relay, io⟩ event = .ok ⟨relay', io'⟩ := by
  rw [turn] at taken
  cases stepped : step thread threads ⟨relay, io⟩ event with
  | error reason =>
      rw [stepped] at taken
      contradiction
  | ok worker =>
      simp only [stepped, Except.map, Except.ok.injEq, Prod.mk.injEq] at taken
      rw [← taken.1, ← taken.2]

theorem serves (threads : List UInt16) :
    Team.Serves getSessionId (State.table : State UInt16 Endpoint → _) asked sent
      (fun thread => Io.Sound (isMainWorker thread)) (fun _ => True) (turn threads) := by
  constructor
  · intro thread relay io event relay' io' sound _ taken
    exact sound_of_step sound (turn_eq_ok taken)
  · intro thread relay io event relay' io' sound _ taken
    exact (serves_of_step sound (turn_eq_ok taken)).table_eq
  · intro thread relay io event relay' io' sound _ taken
    exact (serves_of_step sound (turn_eq_ok taken)).sent_eq

variable [Inhabited Endpoint]

/-- A worker before its first event; `start` does not fail. -/
def startIo (thread : UInt16) : Io Endpoint :=
  match start thread .initial with
  | .ok worker => worker.io
  | .error _ => listenContextInitialize

theorem startIo_sound (thread : UInt16) :
    (startIo thread : Io Endpoint).Sound (isMainWorker thread) := by
  rcases start_sound thread (State.initial : State UInt16 Endpoint) with ⟨worker, started, sound, -⟩
  rw [startIo, started]
  exact sound

/-- The workers before their first events. -/
def Workers.initial (relay : State UInt16 Endpoint) :
    Team UInt16 (State UInt16 Endpoint) (Io Endpoint) :=
  ⟨relay, startIo⟩

/-- What the relay is asked by the events of all workers, in order. -/
def requests (threads : List UInt16) (relay : State UInt16 Endpoint)
    (events : List (UInt16 × Event Endpoint)) : List (Request Endpoint) :=
  Team.requests (turn threads) asked (Workers.initial relay) events

/-- The sends which all workers have queued, in order. -/
def sends (threads : List UInt16) (relay : State UInt16 Endpoint)
    (events : List (UInt16 × Event Endpoint)) : List (Endpoint × List UInt8) :=
  Team.deliveries (turn threads) sent (Workers.initial relay) events

/-- In whatever order operations complete and workers take turns, the workers send what
the directory answers. -/
theorem workers_serve_directory {relay : State UInt16 Endpoint}
    {events : List (UInt16 × Event Endpoint)}
    {team : Team UInt16 (State UInt16 Endpoint) (Io Endpoint)}
    (ran : execute (Team.step (turn threads)) (Workers.initial relay) events = .ok team) :
    team.shared.table = relay.table.afterAll (requests threads relay events) ∧
      sends threads relay events = answers relay.table (requests threads relay events) :=
  Team.answered (serves threads) startIo_sound (fun _ _ => trivial) ran

/-- A client registers with one worker, and another one forwards two datagrams to it. -/
def twoWorkers : List (UInt16 × Event ℕ) :=
  [(0, .submit), (1, .submit), (1, .complete 1 (.received 9 [1, 0, 0, 0, 0, 0, 0, 0, 42])),
    (0, .complete 0 (.received 7 [1, 0, 0, 0, 0, 0, 0, 0])), (0, .process), (1, .process),
    (1, .submit), (1, .complete 2 (.received 9 [1, 0, 0, 0, 0, 0, 0, 0, 43])), (1, .process)]

theorem ran_twoWorkers : succeedsWith
    (execute (Team.step (turn [0, 1])) (Workers.initial .initial) twoWorkers) (fun _ => true) =
      true := by
  decide +kernel

theorem twoWorkers_serve_directory : sends [0, 1] .initial twoWorkers =
    [(7, [1, 0, 0, 0, 0, 0, 0, 0, 42]), (7, [1, 0, 0, 0, 0, 0, 0, 0, 43])] := by
  rcases exists_of_succeedsWith ran_twoWorkers with ⟨team, ran, -⟩
  rw [(workers_serve_directory ran).2]
  decide +kernel

end Workers

end Urn.Uring
