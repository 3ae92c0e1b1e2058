import Urn.Relay.Entries

/-!
# The seastar back end

`relay_worker` of `seastar/main.cpp`.  A seastar packet is a list of fragments.  The
relay is shown the first one of them; what is sent is all of them.  The loop over the
packets from the peer goes on when its send has been completed.
-/

namespace Urn

namespace Seastar

open Relay (State Worker Backend)

/-- `seastar::net::packet`, whose payload is the concatenation. -/
abbrev Fragments := List (List UInt8)

inductive Fault
  /-- `frag(0)` of a packet without fragments. -/
  | noFragment
  /-- A session which does not exist is used. -/
  | dangling
  /-- The loop over the packets of the peer waits for its send. -/
  | busy
  /-- There is no send to be completed. -/
  | idle
deriving DecidableEq

/-- `seastar_api`: none of the calls of the relay does anything. -/
def api (Endpoint : Type) : Backend Endpoint (List UInt8) Unit Fault where
  read _ packet := packet
  read_length _ _ := rfl
  clientStartReceive io := io
  peerStartReceive io := io
  startSend _ _ _ io := .ok (false, io)
  dangling := .dangling

structure Server (Endpoint : Type) where
  worker : Worker Endpoint Unit
  /-- The `stat_packet` of the send that the loop of a shard waits for. -/
  pending : UInt16 → Option (List UInt8)
  /-- What `client_chan.send` has been given, the payload with its destination. -/
  sent : List (Endpoint × List UInt8)

/-- What happens on a shard, where a datagram is given as `Data`. -/
inductive Event (Endpoint Data : Type)
  | clientReceived (shard : UInt16) (src : Endpoint) (data : Data)
  | peerReceived (shard : UInt16) (data : Data)
  | sendCompleted (shard : UInt16)

variable {Endpoint : Type}

def Server.initial : Server Endpoint := ⟨⟨.initial, ()⟩, fun _ => none, []⟩

def Server.clientReceived (server : Server Endpoint) (shard : UInt16) (src : Endpoint)
    (data : Fragments) : Except Fault (Server Endpoint) :=
  match data with
  | [] => .error .noFragment
  | frag :: _ =>
      match (api Endpoint).runOnClientReceived shard src frag server.worker with
      | .error fault => .error fault
      | .ok (_, worker) => .ok { server with worker }

def Server.peerReceived (server : Server Endpoint) (shard : UInt16) (data : Fragments) :
    Except Fault (Server Endpoint) :=
  match server.pending shard with
  | some _ => .error .busy
  | none =>
      match data with
      | [] => .error .noFragment
      | frag :: _ =>
          match (api Endpoint).runReceivePeerData shard frag server.worker with
          | .error fault => .error fault
          | .ok (none, worker) => .ok { server with worker }
          | .ok (some session, worker) =>
              .ok {
                worker
                pending := Function.update server.pending shard (some frag)
                sent := server.sent ++ [(session.clientEndpoint, data.flatten)] }

def Server.sendCompleted (server : Server Endpoint) (shard : UInt16) :
    Except Fault (Server Endpoint) :=
  match server.pending shard with
  | none => .error .idle
  | some statPacket =>
      match (api Endpoint).runOnSessionSent shard statPacket server.worker with
      | .error fault => .error fault
      | .ok (_, worker) =>
          .ok { server with worker, pending := Function.update server.pending shard none }

def step (server : Server Endpoint) :
    Event Endpoint Fragments → Except Fault (Server Endpoint)
  | .clientReceived shard src data => server.clientReceived shard src data
  | .peerReceived shard data => server.peerReceived shard data
  | .sendCompleted shard => server.sendCompleted shard

def run (events : List (Event Endpoint Fragments)) : Except Fault (Server Endpoint) :=
  Execution.execute step .initial events

/-! ## Two ways to cut a datagram -/

/-- A datagram which has been cut in two ways; its length is a `size_t`. -/
structure Datagram where
  left : Fragments
  right : Fragments
  same : left.flatten = right.flatten
  small : left.flatten.length < 2 ^ 64

/-- Both ways begin with a fragment, and with fragments of the same size. -/
def Datagram.AgreesFirst (datagram : Datagram) : Prop :=
  ∃ frag other, datagram.left.head? = some frag ∧ datagram.right.head? = some other ∧
    frag.length = other.length

namespace Event

def map {Data Other : Type} (cut : Data → Other) : Event Endpoint Data → Event Endpoint Other
  | clientReceived shard src data => clientReceived shard src (cut data)
  | peerReceived shard data => peerReceived shard (cut data)
  | sendCompleted shard => sendCompleted shard

def data {Data : Type} : Event Endpoint Data → Option Data
  | clientReceived _ _ data => some data
  | peerReceived _ data => some data
  | sendCompleted _ => none

def shard {Data : Type} : Event Endpoint Data → UInt16
  | clientReceived shard _ _ => shard
  | peerReceived shard _ => shard
  | sendCompleted shard => shard

theorem data_map {Data Other : Type} (cut : Data → Other) (event : Event Endpoint Data) :
    (event.map cut).data = event.data.map cut := by
  cases event <;> rfl

theorem shard_map {Data Other : Type} (cut : Data → Other) (event : Event Endpoint Data) :
    (event.map cut).shard = event.shard := by
  cases event <;> rfl

end Event

/-- The bytes that a shard has counted as received. -/
def Server.bytesIn (server : Server Endpoint) (shard : UInt16) : UInt64 :=
  (server.worker.relay.perThreadStatistics shard).inbound.bytes

theorem head_isPrefix {data : Fragments} {frag : List UInt8} (first : data.head? = some frag) :
    frag <+: data.flatten := by
  cases data with
  | nil => contradiction
  | cons head rest =>
      have head_eq : head = frag := by simpa using first
      subst head_eq
      exact ⟨rest.flatten, by simp⟩

theorem Datagram.first_eq {datagram : Datagram} (agrees : datagram.AgreesFirst) :
    ∃ frag rest other, datagram.left = frag :: rest ∧ datagram.right = frag :: other := by
  rcases agrees with ⟨frag, other, left, right, lengths⟩
  have leftPrefix := head_isPrefix left
  have rightPrefix := head_isPrefix right
  rw [← datagram.same] at rightPrefix
  have frag_eq : frag = other :=
    (List.prefix_of_prefix_length_le leftPrefix rightPrefix (Nat.le_of_eq lengths)).eq_of_length
      lengths
  subst frag_eq
  rcases List.head?_eq_some_iff.mp left with ⟨rest, left_eq⟩
  rcases List.head?_eq_some_iff.mp right with ⟨others, right_eq⟩
  exact ⟨frag, rest, others, left_eq, right_eq⟩

/-- The relay is shown the same, and the same is sent. -/
theorem step_of_agreesFirst (server : Server Endpoint) {event : Event Endpoint Datagram}
    (agrees : ∀ datagram ∈ event.data, datagram.AgreesFirst) :
    step server (event.map Datagram.left) = step server (event.map Datagram.right) := by
  cases event with
  | sendCompleted shard => rfl
  | clientReceived shard src datagram =>
      rcases Datagram.first_eq (agrees datagram rfl) with ⟨frag, rest, other, left, right⟩
      simp only [Event.map, step, Server.clientReceived, left, right]
  | peerReceived shard datagram =>
      rcases Datagram.first_eq (agrees datagram rfl) with ⟨frag, rest, other, left, right⟩
      have same := datagram.same
      rw [left, right] at same
      simp only [Event.map, step, Server.peerReceived, left, right, same]

theorem execute_of_agreesFirst {events : List (Event Endpoint Datagram)}
    (agree : ∀ event ∈ events, ∀ datagram ∈ event.data, datagram.AgreesFirst) :
    run (events.map (Event.map Datagram.left)) = run (events.map (Event.map Datagram.right)) := by
  unfold run
  generalize Server.initial = server
  induction events generalizing server with
  | nil => rfl
  | cons event events ih =>
      have first := step_of_agreesFirst server (agree event List.mem_cons_self)
      have rest := ih fun other other_mem => agree other (List.mem_cons_of_mem event other_mem)
      simp only [List.map_cons, Execution.execute, first]
      split
      · rfl
      · exact rest _

/-! ## What the relay is shown -/

theorem step_noFragment {server : Server Endpoint} {event : Event Endpoint Fragments}
    (failed : step server event = .error .noFragment) : event.data = some [] := by
  cases event with
  | clientReceived shard src data =>
      cases data with
      | nil => rfl
      | cons frag rest =>
          simp only [step, Server.clientReceived, (api Endpoint).runOnClientReceived_eq] at failed
          contradiction
  | peerReceived shard data =>
      cases data with
      | nil => rfl
      | cons frag rest =>
          simp only [step, Server.peerReceived, (api Endpoint).runReceivePeerData_eq] at failed
          cases pending : server.pending shard with
          | some _ => simp [pending] at failed
          | none =>
              simp only [pending] at failed
              split at failed <;> simp_all
  | sendCompleted shard =>
      simp only [step, Server.sendCompleted, (api Endpoint).runOnSessionSent_eq] at failed
      split at failed <;> simp_all

theorem updateIoStatistics_bytesIn (relay : State UInt16 Endpoint) (shard : UInt16)
    (frag : List UInt8) :
    ((relay.updateIoStatistics shard .inbound frag.length).perThreadStatistics
        shard).inbound.bytes =
      (relay.perThreadStatistics shard).inbound.bytes + UInt64.ofNat frag.length := by
  simp [State.updateIoStatistics, Relay.Statistics.count, Relay.Direction.count]

/-- The first fragment is counted. -/
theorem step_bytesIn {server after : Server Endpoint} {event : Event Endpoint Fragments}
    {data : Fragments} (isData : event.data = some data) (stepped : step server event = .ok after) :
    ∃ frag, data.head? = some frag ∧
      after.bytesIn event.shard = server.bytesIn event.shard + UInt64.ofNat frag.length := by
  cases event with
  | clientReceived shard src datagram =>
      have data_eq : datagram = data := Option.some.inj isData
      subst data_eq
      cases datagram with
      | nil => contradiction
      | cons frag rest =>
          simp only [step, Server.clientReceived, (api Endpoint).runOnClientReceived_eq,
            Except.ok.injEq] at stepped
          subst stepped
          refine ⟨frag, rfl, ?_⟩
          simp only [Server.bytesIn, State.clientReceived_perThreadStatistics]
          exact updateIoStatistics_bytesIn _ _ _
  | peerReceived shard datagram =>
      have data_eq : datagram = data := Option.some.inj isData
      subst data_eq
      cases pending : server.pending shard with
      | some statPacket => simp [step, Server.peerReceived, pending] at stepped
      | none =>
          cases datagram with
          | nil => simp [step, Server.peerReceived, pending] at stepped
          | cons frag rest =>
              refine ⟨frag, rfl, ?_⟩
              simp only [step, Server.peerReceived, pending,
                (api Endpoint).runReceivePeerData_eq] at stepped
              split at stepped
              · contradiction
              · rename_i worker received
                simp only [Except.ok.injEq, Prod.mk.injEq] at received stepped
                simp only [← stepped, ← received.2, Server.bytesIn]
                exact updateIoStatistics_bytesIn _ _ _
              · rename_i session worker received
                simp only [Except.ok.injEq, Prod.mk.injEq] at received stepped
                simp only [← stepped, ← received.2, Server.bytesIn]
                exact updateIoStatistics_bytesIn _ _ _
  | sendCompleted shard => contradiction

/-! ## Two executions -/

structure Alike (left right : Server Endpoint) : Prop where
  sessions : left.worker.relay.sessions = right.worker.relay.sessions
  perThreadStatistics :
    left.worker.relay.perThreadStatistics = right.worker.relay.perThreadStatistics
  sent : left.sent = right.sent

/-- After every event the two ways to cut the datagrams have led to the same. -/
def Independent (events : List (Event Endpoint Datagram)) : Prop :=
  ∀ before after, events = before ++ after → ∃ left right,
    run (before.map (Event.map Datagram.left)) = .ok left ∧
      run (before.map (Event.map Datagram.right)) = .ok right ∧ Alike left right

theorem Independent.agreesFirst {events : List (Event Endpoint Datagram)}
    (independent : Independent events) {event : Event Endpoint Datagram}
    (event_mem : event ∈ events) {datagram : Datagram} (isData : event.data = some datagram) :
    datagram.AgreesFirst := by
  rcases List.append_of_mem event_mem with ⟨before, after, rfl⟩
  rcases independent before (event :: after) rfl with ⟨left, right, ranLeft, ranRight, alike⟩
  rcases independent (before ++ [event]) after (by simp) with
    ⟨leftAfter, rightAfter, ranLeftAfter, ranRightAfter, alikeAfter⟩
  rw [List.map_append] at ranLeftAfter ranRightAfter
  rcases Execution.execute_snoc.mp ranLeftAfter with ⟨left', ranLeft', leftStep⟩
  rcases Execution.execute_snoc.mp ranRightAfter with ⟨right', ranRight', rightStep⟩
  have left_eq : left' = left := Except.ok.inj (ranLeft'.symm.trans ranLeft)
  have right_eq : right' = right := Except.ok.inj (ranRight'.symm.trans ranRight)
  subst left_eq right_eq
  have leftData : (event.map Datagram.left).data = some datagram.left := by
    simp [Event.data_map, isData]
  have rightData : (event.map Datagram.right).data = some datagram.right := by
    simp [Event.data_map, isData]
  rcases step_bytesIn leftData leftStep with ⟨frag, leftFirst, leftBytes⟩
  rcases step_bytesIn rightData rightStep with ⟨other, rightFirst, rightBytes⟩
  refine ⟨frag, other, leftFirst, rightFirst, ?_⟩
  have bytes : UInt64.ofNat frag.length = UInt64.ofNat other.length := by
    simp only [Server.bytesIn, Event.shard_map, alike.perThreadStatistics,
      alikeAfter.perThreadStatistics] at leftBytes rightBytes
    exact add_left_cancel (leftBytes.symm.trans rightBytes)
  have leftSmall := (head_isPrefix leftFirst).length_le
  have rightSmall := (head_isPrefix rightFirst).length_le
  have small := datagram.small
  rw [← datagram.same] at rightSmall
  have values := congrArg UInt64.toNat bytes
  rwa [UInt64.toNat_ofNat_of_lt' (Nat.lt_of_le_of_lt leftSmall small),
    UInt64.toNat_ofNat_of_lt' (Nat.lt_of_le_of_lt rightSmall small)] at values

/-- How the datagrams are cut makes no difference exactly if both ways begin with fragments of the
same size, as only these are read. -/
theorem independent_iff_first_fragments_agree {events : List (Event Endpoint Datagram)}
    (scheduled : ∀ fault, run (events.map (Event.map Datagram.left)) = .error fault →
      fault = .noFragment) :
    Independent events ↔
      ∀ event ∈ events, ∀ datagram ∈ event.data, datagram.AgreesFirst := by
  constructor
  · intro independent event event_mem datagram isData
    exact independent.agreesFirst event_mem isData
  · intro agree
    cases ran : run (events.map (Event.map Datagram.left)) with
    | error fault =>
        have fault_eq := scheduled fault ran
        subst fault_eq
        rcases Execution.execute_error_iff.mp ran with ⟨_, event, _, server, events_eq, _, failed⟩
        have event_mem : event ∈ events.map (Event.map Datagram.left) := by simp [events_eq]
        rcases List.mem_map.mp event_mem with ⟨original, original_mem, rfl⟩
        have empty := step_noFragment failed
        rw [Event.data_map, Option.map_eq_some_iff] at empty
        rcases empty with ⟨datagram, isData, left_eq⟩
        rcases agree original original_mem datagram isData with ⟨frag, _, first, _⟩
        rw [left_eq] at first
        contradiction
    | ok final =>
        intro before after events_eq
        subst events_eq
        rw [List.map_append] at ran
        rcases Execution.execute_append.mp ran with ⟨server, ranBefore, _⟩
        have same := execute_of_agreesFirst fun event event_mem =>
          agree event (List.mem_append_left after event_mem)
        exact ⟨server, server, ranBefore, same.symm.trans ranBefore, rfl, rfl, rfl⟩

/-- A registration, and a packet for it, where the two cuttings differ behind the id. -/
theorem independent_divided_tail :
    let events : List (Event ℕ Datagram) :=
      [.clientReceived 0 7 ⟨[[1, 0, 0, 0, 0, 0, 0, 0]], [[1, 0, 0, 0, 0, 0, 0, 0], []],
          rfl, by decide⟩,
        .peerReceived 1 ⟨[[1, 0, 0, 0, 0, 0, 0, 0], [5, 6]],
          [[1, 0, 0, 0, 0, 0, 0, 0], [5], [6]], rfl, by decide⟩]
    Independent events := by
  intro events
  apply (independent_iff_first_fragments_agree ?_).mpr
  · intro event event_mem datagram isData
    simp only [events, List.mem_cons, List.not_mem_nil, or_false] at event_mem
    rcases event_mem with rfl | rfl
    · simp only [Event.data, Option.mem_def, Option.some.injEq] at isData
      subst isData
      exact ⟨_, _, rfl, rfl, rfl⟩
    · simp only [Event.data, Option.mem_def, Option.some.injEq] at isData
      subst isData
      exact ⟨_, _, rfl, rfl, rfl⟩
  · intro fault failed
    have succeeds : Execution.succeedsWith (run (events.map (Event.map Datagram.left)))
        (fun _ => true) = true := by
      decide +kernel
    rcases Execution.exists_of_succeedsWith succeeds with ⟨server, ran, _⟩
    rw [ran] at failed
    contradiction

/-- A registration which comes in two fragments is none. -/
theorem not_independent_divided_registration :
    ¬Independent ([.clientReceived 0 7 ⟨[[1, 0, 0, 0, 0, 0, 0, 0]], [[1, 0, 0, 0], [0, 0, 0, 0]],
      rfl, by decide⟩] : List (Event ℕ Datagram)) := by
  intro independent
  rcases independent.agreesFirst List.mem_cons_self rfl with ⟨frag, other, left, right, lengths⟩
  have frag_eq : [1, 0, 0, 0, 0, 0, 0, 0] = frag := by simpa using left
  have other_eq : [1, 0, 0, 0] = other := by simpa using right
  rw [← frag_eq, ← other_eq] at lengths
  contradiction

end Seastar

end Urn
