import Urn.Foundation.Execution
import Urn.Foundation.Memory
import Urn.Relay.Worker

/-!
# The mmsg back end

One worker of `mmsg/relay.cpp` and the kernel's side of its sockets.

A worker runs in frames.  A frame receives a batch from the clients and a batch
from the peer, if `poll` reports them, and passes the datagrams to the relay one
by one; `start_send` only queues a pointer to the packet.  The frame ends with
`sendmmsg`, repeated until the queue is empty.

All vectors, of both sockets and both directions, lie in one slab of memory.
-/

namespace Urn.Mmsg

open Relay

def memoryPerPacket : ℕ := 1024

def mmsgCapacity : ℕ := 65536

/-- `sizeof(endpoint_t)`. -/
def endpointSize : ℕ := 16

/-- `mmsg::packet`; `content` is an address in `message_mem`. -/
structure Packet where
  content : ℕ
  length : ℕ
deriving DecidableEq

instance : PacketType Packet := ⟨Packet.length⟩

structure Iovec where
  base : ℕ
  len : ℕ
deriving DecidableEq

/-- `mmsghdr`.  `name` and `iov` are indices in the arrays of the same `io_vectors`. -/
structure Mmsghdr where
  name : ℕ
  namelen : ℕ
  iov : ℕ
  iovlen : ℕ
  msgLen : ℕ
deriving DecidableEq

/-- `io_vectors`.  The arrays have `capacity` entries. -/
structure IoVectors (Endpoint : Type) where
  capacity : ℕ
  packetSize : ℕ
  addresses : ℕ → Endpoint
  vectors : ℕ → Iovec
  messages : ℕ → Mmsghdr

def ioVectorsInit {Endpoint : Type} [Inhabited Endpoint] (mem capacity packetSize : ℕ) :
    IoVectors Endpoint where
  capacity := capacity
  packetSize := packetSize
  addresses := fun _ => default
  vectors := fun i => ⟨mem + packetSize * i, packetSize⟩
  messages := fun i => ⟨i, endpointSize, i, 1, 0⟩

structure IoState (Endpoint : Type) where
  txLength : ℕ
  rx : IoVectors Endpoint
  tx : IoVectors Endpoint

def ioStateInit {Endpoint : Type} [Inhabited Endpoint] (mem capacity : ℕ) : IoState Endpoint where
  txLength := 0
  rx := ioVectorsInit mem capacity memoryPerPacket
  tx := ioVectorsInit mem capacity memoryPerPacket

/-- `io_worker`, and the datagrams which the kernel has taken from it so far. -/
structure Io (Endpoint : Type) where
  messageMem : Memory
  peersIo : IoState Endpoint
  clientsIo : IoState Endpoint
  wire : List (Endpoint × List UInt8)

/-- `io_worker_init`; addresses count from the start of `message_mem`. -/
def ioWorkerInit {Endpoint : Type} [Inhabited Endpoint] : Io Endpoint where
  messageMem := fun _ => 0
  peersIo := ioStateInit 0 mmsgCapacity
  clientsIo := ioStateInit 0 mmsgCapacity
  wire := []

/-- Why a worker does not get to its next frame.  The last three are not ways to
abort: a write or a call outside the arrays or the queue, and a frame which waits
for the next result of `sendmmsg`. -/
inductive Stop where
  | receiveFailed
  | timerFailed
  | sendFailed
  | invalidPointer
  | outOfBounds
  | outsideQueue
  | unfinished
deriving DecidableEq

/-- The result of a system call which the worker passes to `ensure_success`. -/
inductive Syscall (Value : Type) where
  | failed
  | returned (value : Value)

inductive Errno where
  | eintr
  | ewouldblock
  | other
deriving DecidableEq

/-- The result of `sendmmsg`. -/
inductive SendResult where
  | sent (count : ℕ)
  | failed (errno : Errno)
deriving DecidableEq

/-- A datagram, and what the other workers register before it is processed. -/
structure Message (Endpoint : Type) where
  registrations : List (SessionId × Endpoint)
  src : Endpoint
  datagram : List UInt8

/-- The bytes of a datagram which are received. -/
def Message.bytes {Endpoint : Type} (message : Message Endpoint) : List UInt8 :=
  message.datagram.take memoryPerPacket

/-- What the kernel does in a frame; `none` where `poll` does not report `POLLIN`. -/
structure Frame (Endpoint : Type) where
  client : Option (Syscall (List (Message Endpoint)))
  peer : Option (Syscall (List (Message Endpoint)))
  timer : Option (Syscall Unit)
  sends : List SendResult

namespace IoVectors

variable {Endpoint : Type}

/-- The packet that the message with the given index describes. -/
def packet (vectors : IoVectors Endpoint) (i : ℕ) : Packet :=
  ⟨(vectors.vectors (vectors.messages i).iov).base, (vectors.messages i).msgLen⟩

/-- The address that `msg_name` points to. -/
def messageFrom (vectors : IoVectors Endpoint) (i : ℕ) : Endpoint :=
  vectors.addresses (vectors.messages i).name

/-- The kernel's part of `recvmmsg`: the datagrams are stored where the messages from
the given one on point to, each as far as it fits. -/
def recvmmsg : List (Message Endpoint) → ℕ → IoVectors Endpoint → Memory →
    IoVectors Endpoint × Memory
  | [], _, vectors, memory => (vectors, memory)
  | message :: batch, i, vectors, memory =>
      let header := vectors.messages i
      let vector := vectors.vectors header.iov
      let bytes := message.datagram.take vector.len
      recvmmsg batch (i + 1)
        { vectors with
          addresses := Function.update vectors.addresses header.name message.src
          messages := Function.update vectors.messages i
            { header with namelen := endpointSize, msgLen := bytes.length } }
        (memory.store vector.base bytes)

/-- What the message with the given index hands to the kernel. -/
def outgoing (vectors : IoVectors Endpoint) (memory : Memory) (i : ℕ) : Endpoint × List UInt8 :=
  let header := vectors.messages i
  let vector := vectors.vectors header.iov
  (vectors.addresses header.name, memory.load vector.base vector.len)

end IoVectors

namespace Io

variable {Endpoint : Type}

/-- The bytes of a packet. -/
def read (io : Io Endpoint) (packet : Packet) : List UInt8 :=
  io.messageMem.load packet.content packet.length

/-- `mmsg::session::start_send`, up to the call of `on_session_sent`. -/
def startSend (_ : SessionPtr) (endpoint : Endpoint) (packet : Packet) (io : Io Endpoint) :
    Except Stop (Bool × Io Endpoint) :=
  let index := io.clientsIo.txLength
  let tx := io.clientsIo.tx
  if index < tx.capacity then
    .ok (true, { io with
      clientsIo := { io.clientsIo with
        txLength := index + 1
        tx := { tx with
          addresses := Function.update tx.addresses index endpoint
          vectors := Function.update tx.vectors index ⟨packet.content, packet.length⟩ } } })
  else
    .error .outOfBounds

/-- `io_worker_begin_frame`. -/
def beginFrame (io : Io Endpoint) : Io Endpoint :=
  { io with clientsIo := { io.clientsIo with txLength := 0 } }

/-- `sendmmsg` of the messages from `offset` on.  The kernel takes at least one of
them and at most the number requested, or none if the call fails. -/
def sendmmsg (io : Io Endpoint) (offset requested : ℕ) (result : SendResult) :
    Except Stop (SendResult × Io Endpoint) :=
  if offset + requested ≤ io.clientsIo.txLength then
    match result with
    | .sent count =>
        let count := max 1 (min count requested)
        .ok (.sent count, { io with
          wire := io.wire ++ (List.range count).map fun i =>
            io.clientsIo.tx.outgoing io.messageMem (offset + i) })
    | .failed errno => .ok (.failed errno, io)
  else
    .error .outsideQueue

/-- The loop of `io_run_client_send_frame`. -/
def sendLoop : List SendResult → (remaining offset : ℕ) → Io Endpoint → Except Stop (Io Endpoint)
  | [], remaining, _, io => if 0 < remaining then .error .unfinished else .ok io
  | result :: results, remaining, offset, io =>
      if 0 < remaining then
        match io.sendmmsg offset remaining result with
        | .error reason => .error reason
        | .ok (.sent sent, io) => sendLoop results (remaining - sent) (offset + sent) io
        | .ok (.failed .eintr, io) => sendLoop results remaining offset io
        | .ok (.failed .ewouldblock, io) => sendLoop results remaining offset io
        | .ok (.failed .other, _) => .error .sendFailed
      else
        .ok io

/-- `io_run_client_send_frame`. -/
def runClientSendFrame (results : List SendResult) (io : Io Endpoint) :
    Except Stop (Io Endpoint) :=
  sendLoop results io.clientsIo.txLength 0 io

end Io

/-- The worker as the relay sees it.  `start_receive` of the client and of the peer
are empty, and a send is completed at once. -/
def backend (Endpoint : Type) : Backend Endpoint Packet (Io Endpoint) Stop where
  read := Io.read
  read_length _ _ := Memory.load_length _ _ _
  clientStartReceive io := io
  peerStartReceive io := io
  startSend := Io.startSend
  dangling := .invalidPointer

section Frames

variable {Endpoint : Type}

/-- The registrations by other workers. -/
def registerAll (registrations : List (SessionId × Endpoint)) (relay : State UInt16 Endpoint) :
    State UInt16 Endpoint :=
  registrations.foldl
    (fun relay registration => (relay.tryRegisterSession registration.1 registration.2).2) relay

/-- The loop over the messages received, from the given index on. -/
def forEach (handle : ℕ → Worker Endpoint (Io Endpoint) →
      Except Stop (Worker Endpoint (Io Endpoint))) :
    List (Message Endpoint) → ℕ → Worker Endpoint (Io Endpoint) →
      Except Stop (Worker Endpoint (Io Endpoint))
  | [], _, worker => .ok worker
  | message :: batch, i, worker =>
      match handle i { worker with relay := registerAll message.registrations worker.relay } with
      | .error reason => .error reason
      | .ok after => forEach handle batch (i + 1) after

variable (thread : UInt16)

/-- One turn of the loop of `io_run_peer_receive_frame`. -/
def peerReceived (i : ℕ) (worker : Worker Endpoint (Io Endpoint)) :
    Except Stop (Worker Endpoint (Io Endpoint)) :=
  match (backend Endpoint).runOnPeerReceived thread (worker.io.peersIo.rx.packet i) worker with
  | .error reason => .error reason
  | .ok (_, after) => .ok after

/-- One turn of the loop of `io_run_client_receive_frame`. -/
def clientReceived (i : ℕ) (worker : Worker Endpoint (Io Endpoint)) :
    Except Stop (Worker Endpoint (Io Endpoint)) :=
  match (backend Endpoint).runOnClientReceived thread (worker.io.clientsIo.rx.messageFrom i)
      (worker.io.clientsIo.rx.packet i) worker with
  | .error reason => .error reason
  | .ok (_, after) => .ok after

/-- `recvmmsg` into `peers_io.rx`. -/
def Io.recvFromPeer (io : Io Endpoint) (batch : List (Message Endpoint)) : Io Endpoint :=
  let received := IoVectors.recvmmsg batch 0 io.peersIo.rx io.messageMem
  { io with messageMem := received.2, peersIo := { io.peersIo with rx := received.1 } }

/-- `recvmmsg` into `clients_io.rx`. -/
def Io.recvFromClient (io : Io Endpoint) (batch : List (Message Endpoint)) : Io Endpoint :=
  let received := IoVectors.recvmmsg batch 0 io.clientsIo.rx io.messageMem
  { io with messageMem := received.2, clientsIo := { io.clientsIo with rx := received.1 } }

/-- `io_run_peer_receive_frame`; a batch has at most `capacity` messages. -/
def runPeerReceiveFrame (result : Syscall (List (Message Endpoint)))
    (worker : Worker Endpoint (Io Endpoint)) : Except Stop (Worker Endpoint (Io Endpoint)) :=
  match result with
  | .failed => .error .receiveFailed
  | .returned messages =>
      let batch := messages.take worker.io.peersIo.rx.capacity
      forEach (peerReceived thread) batch 0 { worker with io := worker.io.recvFromPeer batch }

/-- `io_run_client_receive_frame`. -/
def runClientReceiveFrame (result : Syscall (List (Message Endpoint)))
    (worker : Worker Endpoint (Io Endpoint)) : Except Stop (Worker Endpoint (Io Endpoint)) :=
  match result with
  | .failed => .error .receiveFailed
  | .returned messages =>
      let batch := messages.take worker.io.clientsIo.rx.capacity
      forEach (clientReceived thread) batch 0 { worker with io := worker.io.recvFromClient batch }

/-- The part of a frame which depends on one entry of `poll`. -/
def whenReady {Value : Type} (entry : Option Value)
    (run : Value → Worker Endpoint (Io Endpoint) → Except Stop (Worker Endpoint (Io Endpoint)))
    (worker : Worker Endpoint (Io Endpoint)) : Except Stop (Worker Endpoint (Io Endpoint)) :=
  match entry with
  | none => .ok worker
  | some result => run result worker

/-- The tick of the statistics timer; `threads` are the workers of the relay. -/
def statisticsTick (threads : List UInt16) (result : Syscall Unit)
    (worker : Worker Endpoint (Io Endpoint)) : Except Stop (Worker Endpoint (Io Endpoint)) :=
  match result with
  | .failed => .error .timerFailed
  | .returned _ => .ok { worker with relay := (worker.relay.loadStatistics threads).2 }

/-- The loop body of `worker`. -/
def step (threads : List UInt16) (worker : Worker Endpoint (Io Endpoint))
    (frame : Frame Endpoint) : Except Stop (Worker Endpoint (Io Endpoint)) := do
  let worker : Worker Endpoint (Io Endpoint) := { worker with io := worker.io.beginFrame }
  let worker ← whenReady frame.client (runClientReceiveFrame thread) worker
  let worker ← whenReady frame.peer (runPeerReceiveFrame thread) worker
  let worker ← whenReady frame.timer (statisticsTick threads) worker
  let io ← worker.io.runClientSendFrame frame.sends
  return { worker with io }

/-- A worker from its start on. -/
def run [Inhabited Endpoint] (threads : List UInt16) (relay : State UInt16 Endpoint)
    (frames : List (Frame Endpoint)) : Except Stop (Worker Endpoint (Io Endpoint)) :=
  Execution.execute (step thread threads) ⟨relay, ioWorkerInit⟩ frames

end Frames

end Urn.Mmsg
