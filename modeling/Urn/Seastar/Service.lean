import Urn.Relay.Directory
import Urn.Seastar

/-!
# The seastar server serves the directory

A datagram asks what its first fragment asks: a fragment of eight bytes from a
client is a registration, and a datagram from the peer is delivered as a whole if
its first fragment holds the id.
-/

namespace Urn

namespace Seastar

open Execution
open Relay (State Request askedByClient askedByPeer answers)

variable {Endpoint : Type}

/-- What the relay is asked by an event. -/
def Event.asked : Event Endpoint Fragments → List (Request Endpoint)
  | .clientReceived _ src (frag :: _) => askedByClient src frag
  | .peerReceived _ (frag :: rest) =>
      if sessionIdSize ≤ frag.length then [.deliver (frag :: rest).flatten] else []
  | _ => []

theorem getSessionId_flatten {frag : List UInt8} (long : sessionIdSize ≤ frag.length)
    (rest : Fragments) : getSessionId (frag :: rest).flatten = getSessionId frag := by
  rw [getSessionId, getSessionId, List.flatten_cons, List.take_append_of_le_length long]

/-- The relay routes by the first fragment, and all fragments are sent. -/
theorem answers_peerReceived (relay : State UInt16 Endpoint) (shard : UInt16) (frag : List UInt8)
    (rest : Fragments) :
    answers relay.table (Event.asked (.peerReceived shard (frag :: rest))) =
      ((relay.route frag).map fun target => (target.2, (frag :: rest).flatten)).toList := by
  by_cases long : sessionIdSize ≤ frag.length
  · simp only [Event.asked, if_pos long, answers, Directory.Table.answers,
      Directory.Table.answer, getSessionId_flatten long, State.route, State.table]
    cases relay.clientEndpoint? ⟨getSessionId frag⟩ <;> rfl
  · simp only [Event.asked, State.route, if_neg long]
    rfl

theorem afterAll_peerReceived (table : Directory.Table SessionId Endpoint) (shard : UInt16)
    (data : Fragments) :
    table.afterAll (Event.asked (.peerReceived shard data : Event Endpoint Fragments)) = table := by
  cases data with
  | nil => rfl
  | cons frag rest =>
      simp only [Event.asked]
      split <;> rfl

/-- One event sends what the directory answers. -/
structure Serves (server : Server Endpoint) (event : Event Endpoint Fragments)
    (after : Server Endpoint) : Prop where
  table_eq : after.worker.relay.table = server.worker.relay.table.afterAll event.asked
  sent_eq : after.sent = server.sent ++ answers server.worker.relay.table event.asked

theorem serves_of_step {server after : Server Endpoint} {event : Event Endpoint Fragments}
    (stepped : step server event = .ok after) : Serves server event after := by
  cases event with
  | clientReceived shard src data =>
      cases data with
      | nil => contradiction
      | cons frag rest =>
          simp only [step, Server.clientReceived, (api Endpoint).runOnClientReceived_eq,
            Except.ok.injEq] at stepped
          subst stepped
          constructor
          · exact Relay.table_clientReceived _ _ _ _
          · simp [Event.asked]
  | peerReceived shard data =>
      cases pending : server.pending shard with
      | some statPacket => simp [step, Server.peerReceived, pending] at stepped
      | none =>
          cases data with
          | nil => simp [step, Server.peerReceived, pending] at stepped
          | cons frag rest =>
              have read_eq : (api Endpoint).read server.worker.io frag = frag := rfl
              simp only [step, Server.peerReceived, pending,
                (api Endpoint).runReceivePeerData_eq, read_eq] at stepped
              cases routed : server.worker.relay.route frag with
              | none =>
                  simp only [routed, Option.map_none, Except.ok.injEq] at stepped
                  subst stepped
                  constructor
                  · rw [afterAll_peerReceived]
                    rfl
                  · simp [answers_peerReceived, routed]
              | some target =>
                  simp only [routed, Option.map_some, Except.ok.injEq] at stepped
                  subst stepped
                  constructor
                  · rw [afterAll_peerReceived]
                    rfl
                  · simp [answers_peerReceived, routed]
  | sendCompleted shard =>
      cases pending : server.pending shard with
      | none => simp [step, Server.sendCompleted, pending] at stepped
      | some statPacket =>
          simp only [step, Server.sendCompleted, pending, (api Endpoint).runOnSessionSent_eq,
            Except.ok.injEq] at stepped
          subst stepped
          constructor
          · rfl
          · simp [Event.asked, answers, Directory.Table.answers]

/-- From any state on the server sends what the directory of that state answers. -/
theorem serves_from {server after : Server Endpoint} {events : List (Event Endpoint Fragments)}
    (ran : execute step server events = .ok after) :
    after.worker.relay.table = server.worker.relay.table.afterAll (events.flatMap Event.asked) ∧
      after.sent = server.sent ++
        answers server.worker.relay.table (events.flatMap Event.asked) := by
  apply Directory.recorded_of_steps getSessionId ?_ ran
  intro _ _ _ _ _ stepped
  have served := serves_of_step stepped
  exact ⟨served.table_eq, served.sent_eq⟩

/-- In a run on any number of shards the server sends what the directory answers. -/
theorem shards_serve_directory {events : List (Event Endpoint Fragments)}
    {server : Server Endpoint} (ran : run events = .ok server) :
    server.worker.relay.table = Directory.Table.empty.afterAll (events.flatMap Event.asked) ∧
      server.sent = answers .empty (events.flatMap Event.asked) :=
  serves_from ran

/-- A client registers on one shard, and another one forwards two fragments to it. -/
def twoShards : List (Event ℕ Fragments) :=
  [.clientReceived 0 7 [[1, 0, 0, 0, 0, 0, 0, 0]],
    .peerReceived 1 [[1, 0, 0, 0, 0, 0, 0, 0], [42]], .peerReceived 2 [[1, 0, 0, 0], [0, 0, 0, 0]]]

theorem twoShards_serve_directory :
    ∃ server : Server ℕ, run twoShards = .ok server ∧
      server.sent = [(7, [1, 0, 0, 0, 0, 0, 0, 0, 42])] := by
  have succeeds : succeedsWith (run twoShards) (fun _ => true) = true := by
    decide +kernel
  rcases exists_of_succeedsWith succeeds with ⟨server, ran, -⟩
  refine ⟨server, ran, ?_⟩
  rw [(shards_serve_directory ran).2]
  decide +kernel

end Seastar

end Urn
