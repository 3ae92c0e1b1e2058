import Urn.Foundation.FirstClaim
import Urn.Foundation.Interleaving
import Urn.Relay.Basic

/-!
# The relay on several threads

The handlers of `urn::relay` for any Library on any number of threads, as a
machine whose steps are the atomic operations of the handlers.  A step of one
thread may come between any two operations of another.

A `Library` is what surrounds the relay: a state of its own, the calls it may
make on the relay, and the effect of the relay's calls on it.  Nothing is assumed
of it here, so a result about every Library covers every order of packets and of
send completions.
-/

namespace Urn.Relay

/-- The calls that a Library makes on the relay. -/
inductive Call (Endpoint Packet : Type) where
  | clientReceived (src : Endpoint) (packet : Packet)
  | peerReceived (src : Endpoint) (packet : Packet)
  | sessionSent (session : SessionPtr) (packet : Packet)

/-- The handler of a call.  Only `on_peer_received` returns a value. -/
def Call.body {Endpoint Packet : Type} [PacketType Packet] :
    Call Endpoint Packet → Handler Endpoint Packet (Option Bool)
  | .clientReceived src packet => do
      onClientReceived src packet
      return none
  | .peerReceived _ packet => do
      let reused ← onPeerReceived packet
      return some reused
  | .sessionSent _ packet => do
      onSessionSent packet
      return none

/-- What surrounds the relay. -/
structure Library (Thread Endpoint Packet : Type) where
  State : Type
  /-- The Library may make the call. -/
  invoke : Thread → Call Endpoint Packet → State → State → Prop
  clientStartReceive : State → State → Prop
  peerStartReceive : State → State → Prop
  /-- `start_send` of a session, and whether the send is completed at once. -/
  send : SessionPtr → Endpoint → Packet → State → Bool → State → Prop

/-- The Library which makes any call at any time. -/
def Library.unconstrained (Thread Endpoint Packet : Type) : Library Thread Endpoint Packet where
  State := Unit
  invoke _ _ _ _ := True
  clientStartReceive _ _ := True
  peerStartReceive _ _ := True
  send _ _ _ _ _ _ := True

/-- The relay and the Library around it. -/
structure Shared {Thread Endpoint Packet : Type} (library : Library Thread Endpoint Packet) where
  relay : State Thread Endpoint
  library : library.State

variable {Thread Endpoint : Type} [DecidableEq Thread]

/-- The effect and the result of one operation of a thread.  A packet is the
byte string it holds. -/
def Library.execute (library : Library Thread Endpoint (List UInt8)) (thread : Thread) :
    (op : Op Endpoint (List UInt8)) → Shared library → op.Result → Shared library → Prop
  | .updateIoStatistics flow packet, shared, _, after =>
      after = { shared with
        relay := shared.relay.updateIoStatistics thread flow (PacketType.size packet) }
  | .readSessionId packet, shared, id, after => id = getSessionId packet ∧ after = shared
  | .tryRegisterSession id src, shared, registered, after =>
      shared.relay.tryRegisterSession id src = (registered, after.relay) ∧
        after.library = shared.library
  | .findSession id, shared, found, after =>
      found = shared.relay.findSession id ∧ after = shared
  | .clientStartReceive, shared, _, after =>
      after.relay = shared.relay ∧ library.clientStartReceive shared.library after.library
  | .peerStartReceive, shared, _, after =>
      after.relay = shared.relay ∧ library.peerStartReceive shared.library after.library
  | .clientEndpoint session, shared, endpoint, after =>
      shared.relay.clientEndpoint? session = some endpoint ∧ after = shared
  | .send session endpoint packet, shared, completed, after =>
      after.relay = shared.relay ∧
        library.send session endpoint packet shared.library completed after.library

/-- The relay on several threads. -/
def Library.machine (library : Library Thread Endpoint (List UInt8)) :
    Atomic.Machine Thread (Call Endpoint (List UInt8)) (@Op.Result Endpoint (List UInt8))
      (Option Bool) (Shared library) where
  body := Call.body
  invoke thread call shared after :=
    after.relay = shared.relay ∧ library.invoke thread call shared.library after.library
  execute := library.execute

/-- The runs of a relay which is constructed with a Library in the given state. -/
abbrev Library.Run (library : Library Thread Endpoint (List UInt8)) (start : library.State) :=
  library.machine.Run ⟨State.initial, start⟩

/-- The labels of the steps of a relay. -/
abbrev Label (Thread Endpoint : Type) :=
  Atomic.Label Thread (Call Endpoint (List UInt8)) (@Op.Result Endpoint (List UInt8)) (Option Bool)

section Bodies

variable {Packet : Type} [PacketType Packet]

theorem body_clientReceived (src : Endpoint) (packet : Packet) :
    (Call.clientReceived src packet).body =
      .perform (.updateIoStatistics .inbound packet) fun _ =>
        if PacketType.size packet = sessionIdSize then
          .perform (.readSessionId packet) fun id =>
            .perform (.tryRegisterSession id src) fun registered =>
              if registered = true then
                .perform .peerStartReceive fun _ =>
                  .perform .clientStartReceive fun _ => .done none
              else
                .perform .clientStartReceive fun _ => .done none
        else
          .perform .clientStartReceive fun _ => .done none := by
  simp [Call.body, onClientReceived_eq]

theorem body_sessionSent (session : SessionPtr) (packet : Packet) :
    (Call.sessionSent session packet : Call Endpoint Packet).body =
      .perform (.updateIoStatistics .outbound packet) fun _ =>
        .perform .peerStartReceive fun _ => .done none := rfl

theorem body_peerReceived (src : Endpoint) (packet : Packet) :
    (Call.peerReceived src packet).body =
      .perform (.updateIoStatistics .inbound packet) fun _ =>
        if sessionIdSize ≤ PacketType.size packet then
          .perform (.readSessionId packet) fun id =>
            .perform (.findSession id) fun found =>
              match found with
              | some session =>
                  .perform (.clientEndpoint session) fun endpoint =>
                    .perform (.send session endpoint packet) fun completed =>
                      if completed = true then
                        .perform (.updateIoStatistics .outbound packet) fun _ =>
                          .perform .peerStartReceive fun _ => .done (some true)
                      else
                        .done (some true)
              | none => .perform .peerStartReceive fun _ => .done (some false)
        else
          .perform .peerStartReceive fun _ => .done (some false) := by
  simp only [Call.body, onPeerReceived_eq, Atomic.Program.perform_bind, Atomic.Program.ite_bind,
    Atomic.Program.pure_eq_done, Atomic.Program.done_bind]
  congr
  funext _
  congr
  funext id
  congr
  funext found
  cases found <;> simp

end Bodies

end Urn.Relay
