import Urn.Foundation.Execution
import Urn.Foundation.Memory
import Urn.Relay.Worker

/-!
# The io_uring back end

One worker of `uring/relay.cpp` and the kernel's side of its ring.

An event of the table `io_events` belongs to at most one operation.  The worker
queues operations in the submission queue, the kernel takes them when they are
submitted, completes them in any order and reports each in the completion queue,
and the worker processes the reports one at a time.  These steps, and the
registrations by other workers, are the events of an execution.

The kernel reads and writes the message header of an operation through the
pointer that the worker passed, so it sees what the worker does to the event in
the meantime.
-/

namespace Urn.Uring

open Relay

def numEvents : ℕ := 16

def memoryPerPacket : ℕ := 1024

/-- The entries that `io_uring_queue_init_params` is asked for. -/
def queueEntries : ℕ := 4096

/-- `sizeof(sockaddr_in)`. -/
def addressSize : ℕ := 16

def statisticsTimeoutMs : ℕ := 5000

inductive RingEventType where
  | invalid
  | clientRx
  | peerRx
  | peerTx
  | timer
deriving DecidableEq

/-- `ring_event *`, the index in `io_events`. -/
abbrev EventPtr := ℕ

/-- `uring::packet`; `content` is an address in `messages_buffer`. -/
structure Packet where
  content : ℕ
  length : ℕ
deriving DecidableEq

instance : PacketType Packet := ⟨Packet.length⟩

structure Iovec where
  base : ℕ
  len : ℕ
deriving DecidableEq

/-- `msghdr`.  `name` and `iov` point to the address and the vector of an event. -/
structure Msghdr where
  name : Option EventPtr
  namelen : ℕ
  iov : Option EventPtr
  iovlen : ℕ
deriving DecidableEq

/-- `ring_event`.  The union's member `timeout` overlays the two words of `iov`. -/
structure RingEvent (Endpoint : Type) where
  type : RingEventType
  index : ℕ
  iov : Iovec
  address : Endpoint
  message : Msghdr

/-- What `alloc_event` writes to an event; the address is left as it is. -/
def RingEvent.allocated {Endpoint : Type} (event : RingEvent Endpoint) (freeId : EventPtr)
    (type : RingEventType) : RingEvent Endpoint where
  type := type
  index := freeId
  iov := ⟨freeId * memoryPerPacket, memoryPerPacket⟩
  address := event.address
  message := ⟨some freeId, addressSize, some freeId, 1⟩

inductive Socket where
  | client
  | peer
deriving DecidableEq

inductive Opcode where
  | recvmsg (socket : Socket)
  | sendmsg (socket : Socket)
  | timeout
deriving DecidableEq

/-- A submission queue entry.  Its address is in the event that is its `user_data`.
`sent` is what `start_send` was called with; nothing reads it. -/
structure Operation (Endpoint : Type) where
  opcode : Opcode
  userData : EventPtr
  sent : Option (Endpoint × List UInt8)

/-- A completion queue entry.  `received` is the datagram that a receive has stored;
nothing reads it. -/
structure Completion (Endpoint : Type) where
  operation : Operation Endpoint
  res : ℤ
  received : Option (Endpoint × List UInt8)

/-- `listen_context`, and the operations that the kernel is working on.  The vector
`free_event_ids` is listed from its back. -/
structure Io (Endpoint : Type) where
  ioEvents : EventPtr → RingEvent Endpoint
  freeEventIds : List EventPtr
  messagesBuffer : Memory
  sq : List (Operation Endpoint)
  inFlight : List (Operation Endpoint)
  cq : List (Completion Endpoint)

/-- The ways to `abort`, and the use of a pointer that points nowhere. -/
inductive Abort where
  | outOfFreeEvents
  | noSqe
  | receiveFailed
  | invalidPointer
deriving DecidableEq

namespace Io

variable {Endpoint : Type}

def modifyEvent (io : Io Endpoint) (ev : EventPtr)
    (change : RingEvent Endpoint → RingEvent Endpoint) : Io Endpoint :=
  { io with ioEvents := Function.update io.ioEvents ev (change (io.ioEvents ev)) }

def allocEvent (io : Io Endpoint) (type : RingEventType) :
    Except Abort (EventPtr × Io Endpoint) :=
  match io.freeEventIds with
  | [] => .error .outOfFreeEvents
  | freeId :: freeEventIds =>
      .ok (freeId, { io with freeEventIds }.modifyEvent freeId fun event =>
        event.allocated freeId type)

def releaseEvent (io : Io Endpoint) (ev : EventPtr) : Io Endpoint :=
  { io with freeEventIds := (io.ioEvents ev).index :: io.freeEventIds }

/-- `io_uring_get_sqe`, and what is written to the entry. -/
def prepare (io : Io Endpoint) (operation : Operation Endpoint) : Except Abort (Io Endpoint) :=
  if io.sq.length = queueEntries then
    .error .noSqe
  else
    .ok { io with sq := io.sq ++ [operation] }

def addRecvmsg (io : Io Endpoint) (ev : EventPtr) (socket : Socket) : Except Abort (Io Endpoint) :=
  io.prepare ⟨.recvmsg socket, ev, none⟩

def addSendmsg (io : Io Endpoint) (ev : EventPtr) (socket : Socket)
    (sent : Endpoint × List UInt8) : Except Abort (Io Endpoint) :=
  io.prepare ⟨.sendmsg socket, ev, some sent⟩

/-- `create_timeout`, written over the first words of the union. -/
def createTimeout (milliseconds : ℕ) : Iovec where
  base := milliseconds / 1000
  len := milliseconds % 1000 * 1000000

def addTimeout (io : Io Endpoint) (ev : EventPtr) (milliseconds : ℕ) :
    Except Abort (Io Endpoint) :=
  (io.modifyEvent ev fun event => { event with iov := createTimeout milliseconds }).prepare
    ⟨.timeout, ev, none⟩

/-- The bytes of a packet. -/
def read (io : Io Endpoint) (packet : Packet) : List UInt8 :=
  io.messagesBuffer.load packet.content packet.length

def startSend (_ : SessionPtr) (endpoint : Endpoint) (packet : Packet) (io : Io Endpoint) :
    Except Abort (Bool × Io Endpoint) := do
  let (txEvent, io) ← io.allocEvent .peerTx
  let io := io.modifyEvent txEvent fun event => { event with address := endpoint }
  let bytes := io.read packet
  let io : Io Endpoint := { io with
    messagesBuffer := io.messagesBuffer.store (io.ioEvents txEvent).iov.base bytes }
  let io := io.modifyEvent txEvent fun event =>
    { event with iov := { event.iov with len := packet.length } }
  let io ← io.addSendmsg txEvent .client (endpoint, bytes)
  return (false, io)

/-- Allocate an event of the given type, and receive with it. -/
def receiveAgain (io : Io Endpoint) (type : RingEventType) (socket : Socket) :
    Except Abort (Io Endpoint) := do
  let (rxEvent, io) ← io.allocEvent type
  io.addRecvmsg rxEvent socket

/-- The part of a `msghdr` that `msg_iov` points to. -/
def vector? (io : Io Endpoint) (ev : EventPtr) : Option Iovec :=
  (io.ioEvents ev).message.iov.map fun vector => (io.ioEvents vector).iov

end Io

/-- The worker as the relay sees it.  `start_receive` of the client and of the peer
are empty. -/
def backend (Endpoint : Type) : Backend Endpoint Packet (Io Endpoint) Abort where
  read := Io.read
  read_length _ _ := Memory.load_length _ _ _
  clientStartReceive io := io
  peerStartReceive io := io
  startSend := Io.startSend
  dangling := .invalidPointer

section Worker

variable {Endpoint : Type} (thread : UInt16)

/-- The worker before it posts its first operations: `listen_context_initialize`. -/
def listenContextInitialize [Inhabited Endpoint] : Io Endpoint where
  ioEvents := fun _ => ⟨.invalid, 0, ⟨0, 0⟩, default, ⟨none, 0, none, 0⟩⟩
  freeEventIds := (List.range numEvents).reverse
  messagesBuffer := fun _ => 0
  sq := []
  inFlight := []
  cq := []

def isMainWorker : Bool := thread = 0

/-- The operations that `worker` posts before its loop. -/
def start [Inhabited Endpoint] (relay : State UInt16 Endpoint) :
    Except Abort (Worker Endpoint (Io Endpoint)) := do
  let io ← listenContextInitialize.receiveAgain .clientRx .client
  let io ← io.receiveAgain .peerRx .peer
  if isMainWorker thread then
    let (ev, io) ← io.allocEvent .timer
    let io ← io.addTimeout ev statisticsTimeoutMs
    return ⟨relay, io⟩
  else
    return ⟨relay, io⟩

/-- `(uint32_t) res`. -/
def toUInt32 (res : ℤ) : ℕ := (res % 2 ^ 32).toNat

/-- The case `ring_event_type_peer_rx`. -/
def peerRx (event : EventPtr) (res : ℤ) (worker : Worker Endpoint (Io Endpoint)) :
    Except Abort (Worker Endpoint (Io Endpoint)) :=
  if res < 0 then
    .error .receiveFailed
  else
    match worker.io.vector? event with
    | none => .error .invalidPointer
    | some vector => do
        let packet : Packet := ⟨vector.base, toUInt32 res⟩
        let (_, worker) ← (backend Endpoint).runOnPeerReceived thread packet worker
        let io ← (worker.io.releaseEvent event).receiveAgain .peerRx .peer
        return { worker with io }

/-- The case `ring_event_type_peer_tx`. -/
def peerTx (event : EventPtr) (res : ℤ) (worker : Worker Endpoint (Io Endpoint)) :
    Except Abort (Worker Endpoint (Io Endpoint)) :=
  match worker.io.vector? event with
  | none => .error .invalidPointer
  | some vector => do
      let packet : Packet := ⟨vector.base, toUInt32 res⟩
      let (_, worker) ← (backend Endpoint).runOnSessionSent thread packet worker
      return { worker with io := worker.io.releaseEvent event }

/-- The case `ring_event_type_client_rx`. -/
def clientRx (event : EventPtr) (res : ℤ) (worker : Worker Endpoint (Io Endpoint)) :
    Except Abort (Worker Endpoint (Io Endpoint)) :=
  if res < 0 then
    .error .receiveFailed
  else
    match worker.io.vector? event with
    | none => .error .invalidPointer
    | some vector => do
        let packet : Packet := ⟨vector.base, res.toNat⟩
        let (_, worker) ← (backend Endpoint).runOnClientReceived thread
          (worker.io.ioEvents event).address packet worker
        let io ← (worker.io.releaseEvent event).receiveAgain .clientRx .client
        return { worker with io }

/-- The case `ring_event_type_timer`; `threads` are the workers of the relay. -/
def timer (threads : List UInt16) (event : EventPtr) (worker : Worker Endpoint (Io Endpoint)) :
    Except Abort (Worker Endpoint (Io Endpoint)) := do
  let relay := (worker.relay.loadStatistics threads).2
  let io ← worker.io.addTimeout event statisticsTimeoutMs
  return ⟨relay, io⟩

/-- The loop body of `io_uring_for_each_cqe`. -/
def process (threads : List UInt16) (completion : Completion Endpoint)
    (worker : Worker Endpoint (Io Endpoint)) : Except Abort (Worker Endpoint (Io Endpoint)) :=
  let event := completion.operation.userData
  match (worker.io.ioEvents event).type with
  | .peerRx => peerRx thread event completion.res worker
  | .peerTx => peerTx thread event completion.res worker
  | .clientRx => clientRx thread event completion.res worker
  | .timer => timer threads event worker
  | .invalid => .ok { worker with io := worker.io.releaseEvent event }

end Worker

/-- How the kernel completes an operation: a datagram, or a result code. -/
inductive Reply (Endpoint : Type) where
  | received (src : Endpoint) (datagram : List UInt8)
  | result (res : ℤ)

/-- What happens to a worker. -/
inductive Event (Endpoint : Type) where
  | submit
  | complete (index : ℕ) (reply : Reply Endpoint)
  | process
  | otherRegisters (id : SessionId) (src : Endpoint)

namespace Io

variable {Endpoint : Type}

/-- The operation at the given place is reported. -/
def report (io : Io Endpoint) (index : ℕ) (completion : Completion Endpoint) : Io Endpoint :=
  { io with inFlight := io.inFlight.eraseIdx index, cq := io.cq ++ [completion] }

/-- The kernel stores a datagram where the message header points to, as far as it fits. -/
def recvmsg (io : Io Endpoint) (index : ℕ) (operation : Operation Endpoint) (src : Endpoint)
    (datagram : List UInt8) : Io Endpoint :=
  match io.vector? operation.userData, (io.ioEvents operation.userData).message.name with
  | some vector, some name =>
      let bytes := datagram.take vector.len
      let io : Io Endpoint := { io with
        messagesBuffer := io.messagesBuffer.store vector.base bytes }
      let io := io.modifyEvent name fun event => { event with address := src }
      let io := io.modifyEvent operation.userData fun event =>
        { event with message := { event.message with namelen := addressSize } }
      io.report index ⟨operation, bytes.length, some (src, bytes)⟩
  | _, _ => io.report index ⟨operation, -14, none⟩

/-- The kernel completes the operation at the given place, if the reply is one to it. -/
def complete (io : Io Endpoint) (index : ℕ) (reply : Reply Endpoint) : Io Endpoint :=
  match io.inFlight[index]? with
  | none => io
  | some operation =>
      match operation.opcode, reply with
      | .recvmsg _, .received src datagram => io.recvmsg index operation src datagram
      | .recvmsg _, .result res => if res < 0 then io.report index ⟨operation, res, none⟩ else io
      | .sendmsg _, .result res => io.report index ⟨operation, res, none⟩
      | .timeout, .result res => io.report index ⟨operation, res, none⟩
      | .sendmsg _, .received _ _ => io
      | .timeout, .received _ _ => io

/-- `io_uring_submit`. -/
def submit (io : Io Endpoint) : Io Endpoint :=
  { io with sq := [], inFlight := io.inFlight ++ io.sq }

end Io

/-- One event.  A reply which is not one to the operation does nothing. -/
def step {Endpoint : Type} (thread : UInt16) (threads : List UInt16)
    (worker : Worker Endpoint (Io Endpoint)) :
    Event Endpoint → Except Abort (Worker Endpoint (Io Endpoint))
  | .submit => .ok { worker with io := worker.io.submit }
  | .complete index reply => .ok { worker with io := worker.io.complete index reply }
  | .process =>
      match worker.io.cq with
      | [] => .ok worker
      | completion :: cq =>
          process thread threads completion { worker with io := { worker.io with cq } }
  | .otherRegisters id src =>
      .ok { worker with relay := (worker.relay.tryRegisterSession id src).2 }

/-- A worker from its start on. -/
def run {Endpoint : Type} [Inhabited Endpoint] (thread : UInt16) (threads : List UInt16)
    (relay : State UInt16 Endpoint) (events : List (Event Endpoint)) :
    Except Abort (Worker Endpoint (Io Endpoint)) :=
  match start thread relay with
  | .error reason => .error reason
  | .ok worker => Execution.execute (step thread threads) worker events

end Urn.Uring
