import Urn.Relay.Basic

/-!
# One worker of a back end

The handlers of `urn::relay` as one thread of a concrete back end runs them: to
their end, on the relay and on the I/O state of that thread.  A `Backend` says
how packets are read and what the relay's calls do to the I/O state.

Other threads share the sessions.  They only ever add sessions, so a registration
of theirs during a handler has the same effect as one before or after it; each
back end lets them register between the calls of its handlers.
-/

namespace Urn.Relay

section Pure

variable {Endpoint : Type} (relay : State UInt16 Endpoint)

/-- The effect of `on_client_received` on the relay, and whether it has registered
a session. -/
def State.clientReceived (thread : UInt16) (src : Endpoint) (bytes : List UInt8) :
    Bool × State UInt16 Endpoint :=
  let counted := relay.updateIoStatistics thread .inbound bytes.length
  if bytes.length = sessionIdSize then
    counted.tryRegisterSession (getSessionId bytes) src
  else
    (false, counted)

/-- The session to which a packet from the peer belongs, and its endpoint. -/
def State.route (bytes : List UInt8) : Option (SessionPtr × Endpoint) :=
  if sessionIdSize ≤ bytes.length then
    (relay.clientEndpoint? ⟨getSessionId bytes⟩).map fun endpoint =>
      (⟨getSessionId bytes⟩, endpoint)
  else
    none

variable {relay}

@[simp]
theorem State.clientEndpoint?_updateIoStatistics (thread : UInt16) (flow : Flow) (size : ℕ)
    (session : SessionPtr) :
    (relay.updateIoStatistics thread flow size).clientEndpoint? session =
      relay.clientEndpoint? session := rfl

theorem State.route_eq_some {bytes : List UInt8} {session : SessionPtr} {endpoint : Endpoint} :
    relay.route bytes = some (session, endpoint) ↔
      sessionIdSize ≤ bytes.length ∧ session = ⟨getSessionId bytes⟩ ∧
        relay.clientEndpoint? session = some endpoint := by
  by_cases long : sessionIdSize ≤ bytes.length
  · rw [State.route, if_pos long, Option.map_eq_some_iff]
    constructor
    · rintro ⟨other, bound, pair_eq⟩
      rcases Prod.mk.inj pair_eq with ⟨rfl, rfl⟩
      exact ⟨long, rfl, bound⟩
    · rintro ⟨-, rfl, bound⟩
      exact ⟨endpoint, bound, rfl⟩
  · simp [State.route, long]

theorem State.clientReceived_perThreadStatistics (relay : State UInt16 Endpoint) (thread : UInt16)
    (src : Endpoint) (bytes : List UInt8) :
    (relay.clientReceived thread src bytes).2.perThreadStatistics =
      (relay.updateIoStatistics thread .inbound bytes.length).perThreadStatistics := by
  simp only [State.clientReceived]
  split
  · simp only [State.tryRegisterSession]
    split <;> rfl
  · rfl

end Pure

/-- What a thread of a back end does for the handlers. -/
structure Backend (Endpoint Packet Io Failure : Type) [PacketType Packet] where
  /-- The bytes at `packet.data()`. -/
  read : Io → Packet → List UInt8
  read_length : ∀ io packet, (read io packet).length = PacketType.size packet
  clientStartReceive : Io → Io
  peerStartReceive : Io → Io
  /-- `session::start_send`, and whether it has completed the send. -/
  startSend : SessionPtr → Endpoint → Packet → Io → Except Failure (Bool × Io)
  /-- The use of a session which does not exist. -/
  dangling : Failure

/-- A thread together with the relay. -/
structure Worker (Endpoint Io : Type) where
  relay : State UInt16 Endpoint
  io : Io

namespace Backend

variable {Endpoint Packet Io Failure : Type} [PacketType Packet]
  (backend : Backend Endpoint Packet Io Failure) (thread : UInt16)

/-- One operation of a handler on the given thread. -/
def handle : (op : Op Endpoint Packet) → Worker Endpoint Io →
    Except Failure (op.Result × Worker Endpoint Io)
  | .updateIoStatistics flow packet, worker =>
      .ok ((), { worker with
        relay := worker.relay.updateIoStatistics thread flow (PacketType.size packet) })
  | .readSessionId packet, worker => .ok (getSessionId (backend.read worker.io packet), worker)
  | .tryRegisterSession id src, worker =>
      let registration := worker.relay.tryRegisterSession id src
      .ok (registration.1, { worker with relay := registration.2 })
  | .findSession id, worker => .ok (worker.relay.findSession id, worker)
  | .clientStartReceive, worker =>
      .ok ((), { worker with io := backend.clientStartReceive worker.io })
  | .peerStartReceive, worker =>
      .ok ((), { worker with io := backend.peerStartReceive worker.io })
  | .clientEndpoint session, worker =>
      match worker.relay.clientEndpoint? session with
      | none => .error backend.dangling
      | some endpoint => .ok (endpoint, worker)
  | .send session endpoint packet, worker =>
      match backend.startSend session endpoint packet worker.io with
      | .error failure => .error failure
      | .ok (completed, io) => .ok (completed, { worker with io })

def runOnClientReceived (src : Endpoint) (packet : Packet) (worker : Worker Endpoint Io) :
    Except Failure (Unit × Worker Endpoint Io) :=
  (onClientReceived src packet).run (backend.handle thread) worker

def runOnPeerReceived (packet : Packet) (worker : Worker Endpoint Io) :
    Except Failure (Bool × Worker Endpoint Io) :=
  (onPeerReceived packet).run (backend.handle thread) worker

def runOnSessionSent (packet : Packet) (worker : Worker Endpoint Io) :
    Except Failure (Unit × Worker Endpoint Io) :=
  (onSessionSent packet).run (backend.handle thread) worker

theorem runOnClientReceived_eq (src : Endpoint) (packet : Packet) (worker : Worker Endpoint Io) :
    backend.runOnClientReceived thread src packet worker =
      let registration :=
        worker.relay.clientReceived thread src (backend.read worker.io packet)
      .ok ((), ⟨registration.2, backend.clientStartReceive
        (if registration.1 = true then backend.peerStartReceive worker.io else worker.io)⟩) := by
  simp only [runOnClientReceived, onClientReceived_eq, Atomic.Program.run_perform, handle,
    State.clientReceived, backend.read_length]
  by_cases exact_size : PacketType.size packet = sessionIdSize
  · simp only [if_pos exact_size, Atomic.Program.run_perform, handle]
    split <;> simp [Atomic.Program.run_perform, handle, *]
  · simp [if_neg exact_size, Atomic.Program.run_perform, handle]

theorem runOnSessionSent_eq (packet : Packet) (worker : Worker Endpoint Io) :
    backend.runOnSessionSent thread packet worker =
      .ok ((), ⟨worker.relay.updateIoStatistics thread .outbound (PacketType.size packet),
        backend.peerStartReceive worker.io⟩) := by
  simp [runOnSessionSent, onSessionSent_eq, Atomic.Program.run_perform, handle]

theorem runOnPeerReceived_of_none {packet : Packet} {worker : Worker Endpoint Io}
    (unrouted : worker.relay.route (backend.read worker.io packet) = none) :
    backend.runOnPeerReceived thread packet worker =
      .ok (false, ⟨worker.relay.updateIoStatistics thread .inbound (PacketType.size packet),
        backend.peerStartReceive worker.io⟩) := by
  simp only [runOnPeerReceived, onPeerReceived_eq, Atomic.Program.run_perform, handle]
  by_cases long : sessionIdSize ≤ PacketType.size packet
  · rw [State.route, backend.read_length, if_pos long, Option.map_eq_none_iff] at unrouted
    have unknown : getSessionId (backend.read worker.io packet) ∉ worker.relay.sessions := by
      intro known
      rcases State.mem_sessions_iff.mp known with ⟨endpoint, bound⟩
      rw [bound] at unrouted
      contradiction
    have missing : (worker.relay.updateIoStatistics thread .inbound
        (PacketType.size packet)).findSession (getSessionId (backend.read worker.io packet)) =
          none := State.findSession_eq_none.mpr unknown
    simp [long, Atomic.Program.run_perform, handle, missing]
  · simp [long, Atomic.Program.run_perform, handle]

/-- A packet with a session is given to `start_send` of that session. -/
theorem runOnPeerReceived_of_some {packet : Packet} {worker : Worker Endpoint Io}
    {session : SessionPtr} {endpoint : Endpoint}
    (routed : worker.relay.route (backend.read worker.io packet) = some (session, endpoint)) :
    backend.runOnPeerReceived thread packet worker =
      match backend.startSend session endpoint packet worker.io with
      | .error failure => .error failure
      | .ok (completed, io) =>
          let counted := worker.relay.updateIoStatistics thread .inbound (PacketType.size packet)
          .ok (true, if completed = true then
            ⟨counted.updateIoStatistics thread .outbound (PacketType.size packet),
              backend.peerStartReceive io⟩
          else
            ⟨counted, io⟩) := by
  rcases State.route_eq_some.mp routed with ⟨long, rfl, bound⟩
  rw [backend.read_length] at long
  have known := State.mem_sessions_iff.mpr ⟨endpoint, bound⟩
  have found : (worker.relay.updateIoStatistics thread .inbound
      (PacketType.size packet)).findSession (getSessionId (backend.read worker.io packet)) =
        some ⟨getSessionId (backend.read worker.io packet)⟩ :=
    State.findSession_eq_some.mpr ⟨known, rfl⟩
  simp only [runOnPeerReceived, onPeerReceived_eq, Atomic.Program.run_perform, handle, long,
    if_true, found, State.clientEndpoint?_updateIoStatistics, bound]
  cases backend.startSend ⟨getSessionId (backend.read worker.io packet)⟩ endpoint packet
      worker.io with
  | error failure => rfl
  | ok sent =>
      rcases sent with ⟨completed, io⟩
      cases completed <;> simp [Atomic.Program.run_perform, handle]

end Backend

end Urn.Relay
