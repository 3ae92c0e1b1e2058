import Mathlib.Algebra.BigOperators.Group.Finset.Basic
import Mathlib.Data.List.AList
import Mathlib.Data.UInt
import Urn.Foundation.LittleEndian
import Urn.Foundation.Program

/-!
# The relay

`urn::relay<Library, MultiThreaded>` of `urn/relay.hpp`: its state, its handlers
and the operations by which the handlers act on state that other threads may use
at the same time.

A handler is a `Handler`, the program of its atomic operations.  The sections
under `sessions_mutex_` (`try_register_session`, `find_session`) are one
operation each.  The calls into the Library (`start_receive` of the client and
of the peer, `start_send` of a session) are operations as well; what they do is
chosen by each back end.  A session is handed around by pointer.  The pointer
stays valid because `std::unordered_map` never moves its nodes and the relay
never erases one, so it is modelled by the key of the node, and the endpoint is
read through it only where the Library's `start_send` reads `client_endpoint`.
-/

namespace Urn

abbrev SessionId := UInt64

/-- `sizeof(session_id)`. -/
def sessionIdSize : ℕ := 8

/-- `relay::get_session_id`: the first eight bytes, loaded on a little-endian machine. -/
def getSessionId (data : List UInt8) : SessionId :=
  UInt64.ofNat (LittleEndian.value (data.take sessionIdSize))

theorem getSessionId_inj {left right : List UInt8} (leftLong : sessionIdSize ≤ left.length)
    (rightLong : sessionIdSize ≤ right.length) :
    getSessionId left = getSessionId right ↔
      left.take sessionIdSize = right.take sessionIdSize := by
  constructor
  · intro same
    have small (bytes : List UInt8) (long : sessionIdSize ≤ bytes.length) :
        LittleEndian.value (bytes.take sessionIdSize) < 2 ^ 64 := by
      have bound := LittleEndian.value_lt (bytes.take sessionIdSize)
      rwa [List.length_take, Nat.min_eq_left long] at bound
    apply LittleEndian.value_injective
    · simp [Nat.min_eq_left leftLong, Nat.min_eq_left rightLong]
    · have values := congrArg UInt64.toNat same
      rwa [getSessionId, getSessionId, UInt64.toNat_ofNat_of_lt' (small left leftLong),
        UInt64.toNat_ofNat_of_lt' (small right rightLong)] at values
  · intro same
    rw [getSessionId, getSessionId, same]

/-- A packet type of a Library, as far as the relay looks at it outside of memory. -/
class PacketType (Packet : Type) where
  /-- `packet.size()`. -/
  size : Packet → ℕ

instance : PacketType (List UInt8) := ⟨List.length⟩

@[simp]
theorem size_bytes (bytes : List UInt8) : PacketType.size bytes = bytes.length := rfl

namespace Relay

/-- `relay::statistics::direction`, counters of type `size_t`. -/
structure Direction where
  packets : UInt64
  bytes : UInt64
deriving DecidableEq, Inhabited

/-- `relay::statistics`, with `in` and `out` spelled `inbound` and `outbound`. -/
structure Statistics where
  inbound : Direction
  outbound : Direction
deriving DecidableEq, Inhabited

/-- The two members of `relay::statistics`. -/
inductive Flow where
  | inbound
  | outbound
deriving DecidableEq

namespace Direction

def zero : Direction := ⟨0, 0⟩

/-- The effect of `update_io_statistics` on one direction. -/
def count (direction : Direction) (size : ℕ) : Direction where
  packets := direction.packets + 1
  bytes := direction.bytes + UInt64.ofNat size

def add (left right : Direction) : Direction where
  packets := left.packets + right.packets
  bytes := left.bytes + right.bytes

end Direction

namespace Statistics

def zero : Statistics := ⟨.zero, .zero⟩

def count (statistics : Statistics) (flow : Flow) (size : ℕ) : Statistics :=
  match flow with
  | .inbound => { statistics with inbound := statistics.inbound.count size }
  | .outbound => { statistics with outbound := statistics.outbound.count size }

/-- `statistics::get_and_reset_into`: the counters taken and the counters left. -/
def getAndReset (statistics : Statistics) : Statistics × Statistics :=
  (statistics, zero)

def sumInto (statistics dest : Statistics) : Statistics where
  inbound := dest.inbound.add statistics.inbound
  outbound := dest.outbound.add statistics.outbound

end Statistics

/-- `Library::session`: every Library's session holds the endpoint it was constructed with. -/
structure Session (Endpoint : Type) where
  clientEndpoint : Endpoint
deriving DecidableEq

/-- `session_type *`, the address of the map node with the given key. -/
structure SessionPtr where
  id : SessionId
deriving DecidableEq

abbrev SessionMap (Endpoint : Type) := AList fun _ : SessionId => Session Endpoint

/-- The data members of the relay which its threads share. -/
structure State (Thread Endpoint : Type) where
  sessions : SessionMap Endpoint
  perThreadStatistics : Thread → Statistics

namespace State

variable {Thread Endpoint : Type}

/-- The relay as it is constructed. -/
def initial : State Thread Endpoint where
  sessions := ∅
  perThreadStatistics := fun _ => .zero

/-- `relay::try_register_session`: `sessions_.try_emplace(id, src).second`. -/
def tryRegisterSession (state : State Thread Endpoint) (id : SessionId) (src : Endpoint) :
    Bool × State Thread Endpoint :=
  if id ∈ state.sessions then
    (false, state)
  else
    (true, { state with sessions := state.sessions.insert id ⟨src⟩ })

def findSession (state : State Thread Endpoint) (id : SessionId) : Option SessionPtr :=
  if id ∈ state.sessions then some ⟨id⟩ else none

/-- Read `session->client_endpoint`; a dangling pointer has no value. -/
def clientEndpoint? (state : State Thread Endpoint) (session : SessionPtr) : Option Endpoint :=
  (state.sessions.lookup session.id).map Session.clientEndpoint

/-- `relay::update_io_statistics` on the slot `this_thread_statistics_` of a thread. -/
def updateIoStatistics [DecidableEq Thread] (state : State Thread Endpoint) (thread : Thread)
    (flow : Flow) (size : ℕ) : State Thread Endpoint where
  sessions := state.sessions
  perThreadStatistics := Function.update state.perThreadStatistics thread
    ((state.perThreadStatistics thread).count flow size)

/-- `relay::load_statistics` over the slots of the given threads: the total, and the relay
whose slots have been reset.  The source resets the slots in its vector, and no thread has
another one; here the slots of all indices are reset. -/
def loadStatistics (state : State Thread Endpoint) (threads : List Thread) :
    Statistics × State Thread Endpoint :=
  (threads.foldl (fun total thread =>
      (state.perThreadStatistics thread).getAndReset.1.sumInto total) .zero,
    { state with
      perThreadStatistics := fun thread => (state.perThreadStatistics thread).getAndReset.2 })

@[simp]
theorem updateIoStatistics_sessions [DecidableEq Thread] (state : State Thread Endpoint)
    (thread : Thread) (flow : Flow) (size : ℕ) :
    (state.updateIoStatistics thread flow size).sessions = state.sessions := rfl

@[simp]
theorem loadStatistics_sessions (state : State Thread Endpoint) (threads : List Thread) :
    (state.loadStatistics threads).2.sessions = state.sessions := rfl

theorem tryRegisterSession_of_mem {state : State Thread Endpoint} {id : SessionId}
    (known : id ∈ state.sessions) (src : Endpoint) :
    state.tryRegisterSession id src = (false, state) := by
  simp [tryRegisterSession, known]

theorem tryRegisterSession_of_notMem {state : State Thread Endpoint} {id : SessionId}
    (unknown : id ∉ state.sessions) (src : Endpoint) :
    state.tryRegisterSession id src =
      (true, { state with sessions := state.sessions.insert id ⟨src⟩ }) := by
  simp [tryRegisterSession, unknown]

theorem findSession_eq_some {state : State Thread Endpoint} {id : SessionId}
    {session : SessionPtr} :
    state.findSession id = some session ↔ id ∈ state.sessions ∧ session = ⟨id⟩ := by
  simp [findSession, eq_comm]

theorem findSession_eq_none {state : State Thread Endpoint} {id : SessionId} :
    state.findSession id = none ↔ id ∉ state.sessions := by
  simp [findSession]

theorem mem_sessions_iff {state : State Thread Endpoint} {id : SessionId} :
    id ∈ state.sessions ↔ ∃ endpoint, state.clientEndpoint? ⟨id⟩ = some endpoint := by
  rw [← AList.lookup_isSome, Option.isSome_iff_exists]
  constructor
  · rintro ⟨session, found⟩
    exact ⟨session.clientEndpoint, by simp [clientEndpoint?, found]⟩
  · rintro ⟨endpoint, found⟩
    simp only [clientEndpoint?, Option.map_eq_some_iff] at found
    exact ⟨found.choose, found.choose_spec.1⟩

/-- A session keeps its endpoint, and an identifier without a session gets one only by its
own registration. -/
theorem clientEndpoint?_tryRegisterSession_eq (state : State Thread Endpoint)
    (id other : SessionId) (src : Endpoint) :
    (state.tryRegisterSession id src).2.clientEndpoint? ⟨other⟩ =
      (state.clientEndpoint? ⟨other⟩).or (if id = other then some src else none) := by
  by_cases known : id ∈ state.sessions
  · rw [tryRegisterSession_of_mem known]
    rcases mem_sessions_iff.mp known with ⟨endpoint, bound⟩
    by_cases same : id = other
    · subst same
      simp [bound]
    · simp [same]
  · rw [tryRegisterSession_of_notMem known]
    by_cases same : id = other
    · subst same
      simp [clientEndpoint?, AList.lookup_eq_none.mpr known]
    · simp [clientEndpoint?, AList.lookup_insert_ne (Ne.symm same), same]

/-- Whatever is registered, an existing session keeps its endpoint. -/
theorem clientEndpoint?_tryRegisterSession {state : State Thread Endpoint} {session : SessionPtr}
    {endpoint : Endpoint} (bound : state.clientEndpoint? session = some endpoint) (id : SessionId)
    (src : Endpoint) :
    (state.tryRegisterSession id src).2.clientEndpoint? session = some endpoint := by
  rw [clientEndpoint?_tryRegisterSession_eq, bound, Option.some_or]

end State

/-- The atomic operations of the handlers. -/
inductive Op (Endpoint Packet : Type) where
  | updateIoStatistics (flow : Flow) (packet : Packet)
  | readSessionId (packet : Packet)
  | tryRegisterSession (id : SessionId) (src : Endpoint)
  | findSession (id : SessionId)
  | clientStartReceive
  | peerStartReceive
  | clientEndpoint (session : SessionPtr)
  | send (session : SessionPtr) (endpoint : Endpoint) (packet : Packet)

/-- What an operation returns.  For `send` this is whether the Library completes
the send at once, so that it calls `on_session_sent` from inside `start_send`. -/
@[reducible]
def Op.Result {Endpoint Packet : Type} : Op Endpoint Packet → Type
  | .updateIoStatistics _ _ => Unit
  | .readSessionId _ => SessionId
  | .tryRegisterSession _ _ => Bool
  | .findSession _ => Option SessionPtr
  | .clientStartReceive => Unit
  | .peerStartReceive => Unit
  | .clientEndpoint _ => Endpoint
  | .send _ _ _ => Bool

/-- The code of a member function of the relay. -/
abbrev Handler (Endpoint Packet Outcome : Type) :=
  Atomic.Program (@Op.Result Endpoint Packet) Outcome

section Handlers

variable {Endpoint Packet : Type}

/-- `update_io_statistics(this_thread_statistics_->flow, packet)`. -/
def updateIoStatistics (flow : Flow) (packet : Packet) : Handler Endpoint Packet Unit :=
  .op (.updateIoStatistics flow packet : Op Endpoint Packet)

/-- `get_session_id(packet.data())`. -/
def readSessionId (packet : Packet) : Handler Endpoint Packet SessionId :=
  .op (.readSessionId packet : Op Endpoint Packet)

def tryRegisterSession (id : SessionId) (src : Endpoint) : Handler Endpoint Packet Bool :=
  .op (.tryRegisterSession id src : Op Endpoint Packet)

def findSession (id : SessionId) : Handler Endpoint Packet (Option SessionPtr) :=
  .op (.findSession id : Op Endpoint Packet)

/-- `client_.start_receive()`. -/
def clientStartReceive : Handler Endpoint Packet Unit :=
  .op (.clientStartReceive : Op Endpoint Packet)

/-- `peer_.start_receive()`. -/
def peerStartReceive : Handler Endpoint Packet Unit :=
  .op (.peerStartReceive : Op Endpoint Packet)

variable [PacketType Packet]

def onClientReceived (src : Endpoint) (packet : Packet) : Handler Endpoint Packet Unit := do
  updateIoStatistics .inbound packet
  if PacketType.size packet = sessionIdSize then
    let id ← readSessionId packet
    if ← tryRegisterSession id src then
      peerStartReceive
  clientStartReceive

/-- Both overloads of `relay::on_session_sent`; neither looks at a session. -/
def onSessionSent (packet : Packet) : Handler Endpoint Packet Unit := do
  updateIoStatistics .outbound packet
  peerStartReceive

/-- `Library::session::start_send`, which a Library may complete at once. -/
def startSend (session : SessionPtr) (packet : Packet) : Handler Endpoint Packet Unit := do
  let endpoint ← Atomic.Program.op (.clientEndpoint session : Op Endpoint Packet)
  if ← Atomic.Program.op (.send session endpoint packet : Op Endpoint Packet) then
    onSessionSent packet

/-- `relay::on_peer_received(src, packet)`; the relay does not look at `src`. -/
def onPeerReceived (packet : Packet) : Handler Endpoint Packet Bool := do
  updateIoStatistics .inbound packet
  if sessionIdSize ≤ PacketType.size packet then
    let id ← readSessionId packet
    if let some session ← findSession id then
      startSend session packet
      return true
  peerStartReceive
  return false

theorem onClientReceived_eq (src : Endpoint) (packet : Packet) :
    onClientReceived src packet =
      .perform (.updateIoStatistics .inbound packet) fun _ =>
        if PacketType.size packet = sessionIdSize then
          .perform (.readSessionId packet) fun id =>
            .perform (.tryRegisterSession id src) fun registered =>
              if registered = true then
                .perform .peerStartReceive fun _ =>
                  .perform .clientStartReceive fun _ => .done ()
              else
                .perform .clientStartReceive fun _ => .done ()
        else
          .perform .clientStartReceive fun _ => .done () := rfl

omit [PacketType Packet] in
theorem onSessionSent_eq (packet : Packet) :
    (onSessionSent packet : Handler Endpoint Packet Unit) =
      .perform (.updateIoStatistics .outbound packet) fun _ =>
        .perform .peerStartReceive fun _ => .done () := rfl

theorem onPeerReceived_eq (packet : Packet) :
    (onPeerReceived packet : Handler Endpoint Packet Bool) =
      .perform (.updateIoStatistics .inbound packet) fun _ =>
        if sessionIdSize ≤ PacketType.size packet then
          .perform (.readSessionId packet) fun id =>
            .perform (.findSession id) fun found =>
              match found with
              | some session =>
                  .perform (.clientEndpoint session) fun endpoint =>
                    .perform (.send session endpoint packet) fun completed =>
                      if completed = true then
                        .perform (.updateIoStatistics .outbound packet) fun _ =>
                          .perform .peerStartReceive fun _ => .done true
                      else
                        .done true
              | none => .perform .peerStartReceive fun _ => .done false
        else
          .perform .peerStartReceive fun _ => .done false := by
  simp only [onPeerReceived, startSend, onSessionSent, updateIoStatistics, readSessionId,
    findSession, peerStartReceive, Atomic.Program.op_bind, Atomic.Program.perform_bind,
    Atomic.Program.ite_bind, Atomic.Program.pure_eq_done, Atomic.Program.done_bind]
  congr
  funext _
  congr
  funext id
  congr
  funext found
  cases found <;> rfl

end Handlers

end Relay

end Urn
