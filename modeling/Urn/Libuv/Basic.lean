import Urn.Foundation.Execution
import Urn.Foundation.Memory
import Urn.IntrusiveStack
import Urn.Relay.Worker

/-!
# The libuv back end

One thread of `libuv/relay.cpp`, in the `mmsg` build and in the plain build, and
what libuv does to it.

libuv receives in frames.  It asks for a buffer (`relay::alloc_buffer`), has the
kernel store one or more datagrams there and makes one receive callback for each
of them.  In a frame of chunks all callbacks carry `UV_UDP_MMSG_CHUNK`, and one
more callback without the flag and without data follows.  Completions of sends
are reported between frames.  Every event is one of these steps, or a
registration by another thread; an event which libuv does not produce in the
current state does nothing.
-/

namespace Urn.Libuv

open Relay

/-- The number of elements of `io_buf::chunks`. -/
def chunksSize (haveMmsg : Bool) : ℕ := if haveMmsg then 32 else 1

def dataSize (haveMmsg : Bool) : ℕ := if haveMmsg then 2 * 64 * 1024 else 64 * 1024

/-- The part of a buffer that libuv uses for one chunk. -/
def chunkSize : ℕ := 64 * 1024

/-- `io_buf *`.  Buffers are numbered in the order of their creation. -/
abbrev BufPtr := ℕ

/-- `libuv::packet`, with `base` split into the buffer and the offset in its data. -/
structure Packet where
  buf : BufPtr
  offset : ℕ
  len : ℕ
deriving DecidableEq

instance : PacketType Packet := ⟨Packet.len⟩

structure Send where
  requestData : BufPtr
  packet : Packet
  session : SessionPtr
deriving DecidableEq

/-- `io_buf` without its hook.  An element of `chunks` is `none` until it is written. -/
structure IoBuf where
  chunks : ℕ → Option Send
  refCount : ℕ
  data : Memory

structure IoBufPool where
  pool : IntrusiveStack BufPtr
  lastAlloc : Option BufPtr

/-- A send that libuv has been asked for: the chunk whose `request` was passed, with
libuv's copies of the other arguments.  `session` and `payload` are what
`start_send` was called with; nothing reads them. -/
structure Request (Endpoint : Type) where
  buf : BufPtr
  slot : ℕ
  packet : Packet
  endpoint : Endpoint
  session : SessionPtr
  payload : List UInt8

/-- The I/O state of a thread, and the requests that libuv holds.  `started` and
`reported` record the calls of `start_send` and of `on_session_sent`; nothing
reads them. -/
structure Io (Endpoint : Type) where
  bufs : BufPtr → IoBuf
  next : Hooks BufPtr
  created : ℕ
  ioBufs : IoBufPool
  inFlight : List (Request Endpoint)
  started : List (SessionPtr × Packet)
  reported : List (SessionPtr × Packet)

/-- The ways to `abort`, and the use of a pointer that points nowhere. -/
inductive Abort where
  | noBufs
  | receiveFailed
  | sendFailed
  | invalidPointer
deriving DecidableEq

namespace Io

variable {Endpoint : Type}

/-- The state of a thread before its first event. -/
def initial : Io Endpoint where
  bufs := fun _ => ⟨fun _ => none, 0, fun _ => 0⟩
  next := fun _ => none
  created := 0
  ioBufs := ⟨.initial, none⟩
  inFlight := []
  started := []
  reported := []

def setBuf (io : Io Endpoint) (b : BufPtr) (buf : IoBuf) : Io Endpoint :=
  { io with bufs := Function.update io.bufs b buf }

def alloc (io : Io Endpoint) : BufPtr × Io Endpoint :=
  match io.ioBufs.pool.tryPop io.next with
  | (some b, pool) =>
      (b, { io with
        bufs := Function.update io.bufs b { io.bufs b with refCount := 0 }
        ioBufs := ⟨pool, some b⟩ })
  | (none, pool) =>
      (io.created, { io with
        bufs := Function.update io.bufs io.created
          ⟨fun _ => none, 0, (io.bufs io.created).data⟩
        next := Function.update io.next io.created none
        created := io.created + 1
        ioBufs := ⟨pool, some io.created⟩ })

def release (io : Io Endpoint) (b : BufPtr) : Io Endpoint :=
  let (pool, next) := io.ioBufs.pool.push io.next b
  { io with next, ioBufs := { io.ioBufs with pool } }

/-- The bytes of a packet. -/
def read (io : Io Endpoint) (packet : Packet) : List UInt8 :=
  (io.bufs packet.buf).data.load packet.offset packet.len

/-- The kernel stores the datagrams of a frame in a buffer. -/
def fill (io : Io Endpoint) (b : BufPtr) (datagrams : List (ℕ × List UInt8)) : Io Endpoint :=
  io.setBuf b { io.bufs b with data := (io.bufs b).data.storeAll datagrams }

/-- The slot that `start_send` takes, and the request it passes to libuv. -/
def fillSlot (io : Io Endpoint) (b : BufPtr) (session : SessionPtr) (endpoint : Endpoint)
    (packet : Packet) : Io Endpoint :=
  let buf := io.bufs b
  { io.setBuf b { buf with
      chunks := Function.update buf.chunks buf.refCount (some ⟨b, packet, session⟩)
      refCount := buf.refCount + 1 } with
    inFlight := io.inFlight ++ [⟨b, buf.refCount, packet, endpoint, session, io.read packet⟩]
    started := io.started ++ [(session, packet)] }

def startSend (haveMmsg : Bool) (session : SessionPtr) (endpoint : Endpoint) (packet : Packet)
    (io : Io Endpoint) : Except Abort (Bool × Io Endpoint) :=
  match io.ioBufs.lastAlloc with
  | none => .error .invalidPointer
  | some b =>
      if (io.bufs b).refCount = chunksSize haveMmsg then
        .error .noBufs
      else
        .ok (false, io.fillSlot b session endpoint packet)

/-- `--ref_count` of type `size_t`. -/
def decrement (refCount : ℕ) : ℕ := if refCount = 0 then 2 ^ 64 - 1 else refCount - 1

/-- The request at the given place has completed, and its chunk is as given. -/
def leaveSlot (io : Io Endpoint) (index : ℕ) (send : Send) : Io Endpoint :=
  let buf := io.bufs send.requestData
  { io.setBuf send.requestData { buf with refCount := decrement buf.refCount } with
    inFlight := io.inFlight.eraseIdx index
    reported := io.reported ++ [(send.session, send.packet)] }

/-- Release a buffer unless a send refers to it. -/
def releaseUnused (io : Io Endpoint) (b : BufPtr) : Io Endpoint :=
  if (io.bufs b).refCount = 0 then io.release b else io

end Io

/-- The thread as the relay sees it.  `start_receive` of the client and of the peer
are empty. -/
def backend (Endpoint : Type) (haveMmsg : Bool) :
    Backend Endpoint Packet (Io Endpoint) Abort where
  read := Io.read
  read_length _ _ := Memory.load_length _ _ _
  clientStartReceive io := io
  peerStartReceive io := io
  startSend := Io.startSend haveMmsg
  dangling := .invalidPointer

/-- The socket of a receive callback. -/
inductive Handle where
  | client
  | peer
deriving DecidableEq

/-- A datagram with the endpoint it came from. -/
structure Arrival (Endpoint : Type) where
  src : Endpoint
  datagram : List UInt8

/-- What libuv receives into one buffer. -/
inductive Frame (Endpoint : Type) where
  | nothing
  | single (arrival : Arrival Endpoint)
  | chunks (arrivals : List (Arrival Endpoint))
  | failed

/-- The receive callbacks that libuv has still to make for a buffer: those with
`UV_UDP_MMSG_CHUNK`, each with its offset, and the one without. -/
structure Delivery (Endpoint : Type) where
  handle : Handle
  buf : BufPtr
  chunks : List (ℕ × Arrival Endpoint)
  last : Option (Arrival Endpoint)

/-- The offsets at which libuv has chunks stored. -/
def chunkOffsets {Endpoint : Type} (arrivals : List (Arrival Endpoint)) :
    List (ℕ × Arrival Endpoint) :=
  arrivals.mapIdx fun index arrival => (index * chunkSize, arrival)

namespace Delivery

variable {Endpoint : Type}

/-- The callbacks of a frame, unless it is reported as an error. -/
def ofFrame (handle : Handle) (buf : BufPtr) : Frame Endpoint → Option (Delivery Endpoint)
  | .nothing => some ⟨handle, buf, [], none⟩
  | .single arrival => some ⟨handle, buf, [], some arrival⟩
  | .chunks arrivals => some ⟨handle, buf, chunkOffsets arrivals, none⟩
  | .failed => none

/-- The datagrams still to be delivered, with their offsets. -/
def arrivals (delivery : Delivery Endpoint) : List (ℕ × Arrival Endpoint) :=
  delivery.chunks ++ delivery.last.toList.map fun arrival => (0, arrival)

/-- The datagrams as the kernel stores them. -/
def datagrams (delivery : Delivery Endpoint) : List (ℕ × List UInt8) :=
  delivery.arrivals.map fun arrival => (arrival.1, arrival.2.datagram)

end Delivery

/-- A thread, the relay, and the frame which libuv is delivering. -/
structure World (Endpoint : Type) extends Worker Endpoint (Io Endpoint) where
  frame : Option (Delivery Endpoint)

/-- A thread before its first event, in a relay which other threads may have used. -/
def World.initial {Endpoint : Type} (relay : State UInt16 Endpoint) : World Endpoint where
  relay := relay
  io := .initial
  frame := none

section Callbacks

variable {Endpoint : Type} (haveMmsg : Bool) (thread : UInt16)

/-- The packet of a receive callback. -/
def Arrival.packet (arrival : Arrival Endpoint) (buf : BufPtr) (offset : ℕ) : Packet :=
  ⟨buf, offset, arrival.datagram.length⟩

/-- The part of the client callback which is run if `nread > 0`. -/
def clientReceived (buf : BufPtr) (offset : ℕ) (received : Option (Arrival Endpoint))
    (worker : Worker Endpoint (Io Endpoint)) :
    Except Abort (Worker Endpoint (Io Endpoint)) :=
  match received with
  | none => .ok worker
  | some arrival =>
      if 0 < arrival.datagram.length then
        ((backend Endpoint haveMmsg).runOnClientReceived thread arrival.src
          (arrival.packet buf offset) worker).map Prod.snd
      else
        .ok worker

/-- The part of the peer callback which is run if `nread > 0`, and `packet_reused`. -/
def peerReceived (buf : BufPtr) (offset : ℕ) (received : Option (Arrival Endpoint))
    (worker : Worker Endpoint (Io Endpoint)) :
    Except Abort (Bool × Worker Endpoint (Io Endpoint)) :=
  match received with
  | none => .ok (false, worker)
  | some arrival =>
      if 0 < arrival.datagram.length then
        (backend Endpoint haveMmsg).runOnPeerReceived thread (arrival.packet buf offset) worker
      else
        .ok (false, worker)

/-- The client's receive callback; `chunk` is the flag `UV_UDP_MMSG_CHUNK`. -/
def clientCallback (buf : BufPtr) (offset : ℕ) (received : Option (Arrival Endpoint))
    (chunk : Bool) (worker : Worker Endpoint (Io Endpoint)) :
    Except Abort (Worker Endpoint (Io Endpoint)) := do
  let worker ← clientReceived haveMmsg thread buf offset received worker
  if chunk then
    return worker
  match worker.io.ioBufs.lastAlloc with
  | none => throw .invalidPointer
  | some lastAlloc => return { worker with io := worker.io.release lastAlloc }

/-- The peer's receive callback. -/
def peerCallback (buf : BufPtr) (offset : ℕ) (received : Option (Arrival Endpoint))
    (chunk : Bool) (worker : Worker Endpoint (Io Endpoint)) :
    Except Abort (Worker Endpoint (Io Endpoint)) := do
  let (packetReused, worker) ← peerReceived haveMmsg thread buf offset received worker
  if packetReused || chunk then
    return worker
  match worker.io.ioBufs.lastAlloc with
  | none => throw .invalidPointer
  | some lastAlloc => return { worker with io := worker.io.releaseUnused lastAlloc }

def callback (handle : Handle) : BufPtr → ℕ → Option (Arrival Endpoint) → Bool →
    Worker Endpoint (Io Endpoint) → Except Abort (Worker Endpoint (Io Endpoint)) :=
  match handle with
  | .client => clientCallback haveMmsg thread
  | .peer => peerCallback haveMmsg thread

/-- The completion callback of `uv_udp_send` for the request at the given place. -/
def sendCallback (index : ℕ) (request : Request Endpoint)
    (worker : Worker Endpoint (Io Endpoint)) :
    Except Abort (Worker Endpoint (Io Endpoint)) :=
  match (worker.io.bufs request.buf).chunks request.slot with
  | none => .error .invalidPointer
  | some send => do
      let (_, worker) ← (backend Endpoint haveMmsg).runOnSessionSent thread send.packet worker
      return { worker with io := (worker.io.leaveSlot index send).releaseUnused send.requestData }

end Callbacks

/-- What happens to a thread. -/
inductive Event (Endpoint : Type) where
  | receive (handle : Handle) (frame : Frame Endpoint)
  | deliver
  | complete (index : ℕ) (status : ℤ)
  | otherRegisters (id : SessionId) (src : Endpoint)

variable {Endpoint : Type}

/-- libuv gets a buffer and the kernel stores a frame there. -/
def receive (handle : Handle) (frame : Frame Endpoint) (world : World Endpoint) :
    Except Abort (World Endpoint) :=
  let (b, io) := world.io.alloc
  match Delivery.ofFrame handle b frame with
  | none => .error .receiveFailed
  | some delivery =>
      .ok { relay := world.relay, io := io.fill b delivery.datagrams, frame := some delivery }

/-- libuv makes the next receive callback. -/
def deliver (haveMmsg : Bool) (thread : UInt16) (delivery : Delivery Endpoint)
    (world : World Endpoint) : Except Abort (World Endpoint) :=
  match delivery.chunks with
  | (offset, arrival) :: chunks => do
      let worker ← callback haveMmsg thread delivery.handle delivery.buf offset (some arrival)
        true world.toWorker
      return { toWorker := worker, frame := some { delivery with chunks } }
  | [] => do
      let worker ← callback haveMmsg thread delivery.handle delivery.buf 0 delivery.last
        false world.toWorker
      return { toWorker := worker, frame := none }

/-- libuv reports a completion. -/
def complete (haveMmsg : Bool) (thread : UInt16) (index : ℕ) (status : ℤ)
    (world : World Endpoint) : Except Abort (World Endpoint) :=
  match world.io.inFlight[index]? with
  | none => .ok world
  | some request =>
      if status < 0 then
        .error .sendFailed
      else do
        let worker ← sendCallback haveMmsg thread index request world.toWorker
        return { toWorker := worker, frame := none }

/-- One event.  Sends complete, and frames start, only between frames. -/
def step (haveMmsg : Bool) (thread : UInt16) (world : World Endpoint) :
    Event Endpoint → Except Abort (World Endpoint)
  | .receive handle frame =>
      match world.frame with
      | none => receive handle frame world
      | some _ => .ok world
  | .deliver =>
      match world.frame with
      | none => .ok world
      | some delivery => deliver haveMmsg thread delivery world
  | .complete index status =>
      match world.frame with
      | none => complete haveMmsg thread index status world
      | some _ => .ok world
  | .otherRegisters id src =>
      .ok { world with relay := (world.relay.tryRegisterSession id src).2 }

end Urn.Libuv
