import Urn.Uring.Operations

/-!
# Processing a completion

What the loop body of an io_uring worker does with each kind of completion.  The
worker holds the event of the completion while it runs the relay's handler.  A
datagram from the peer that belongs to a session needs a second event for its
send before the first one is released.
-/

namespace Urn.Uring

open Relay

variable {Endpoint : Type}

/-- The completion has left the queue. -/
def taken (worker : Worker Endpoint (Io Endpoint)) (cq : List (Completion Endpoint)) :
    Worker Endpoint (Io Endpoint) :=
  { worker with io := { worker.io with cq } }

/-- The packet of a completed receive or send. -/
def Completion.packet (completion : Completion Endpoint) (length : ℕ) : Packet :=
  ⟨completion.operation.userData * memoryPerPacket, length⟩

/-- The event is released, and receives again from the socket. -/
def Io.again (io : Io Endpoint) (ev : EventPtr) (socket : Socket) : Io Endpoint :=
  (io.releaseEvent ev).armed ev io.freeEventIds socket

section Processing

variable (thread : UInt16) (threads : List UInt16) {worker : Worker Endpoint (Io Endpoint)}
  {completion : Completion Endpoint} {cq : List (Completion Endpoint)}

theorem head_mem_operations (cq_eq : worker.io.cq = completion :: cq) :
    completion.operation ∈ worker.io.operations := by
  rw [Io.operations, cq_eq]
  exact List.mem_append_right _ List.mem_cons_self

theorem process_failed_receive {socket : Socket} (balanced : worker.io.Balanced [])
    (cq_eq : worker.io.cq = completion :: cq)
    (opcode : completion.operation.opcode = .recvmsg socket) (failed : completion.res < 0) :
    process thread threads completion (taken worker cq) = .error .receiveFailed := by
  have type := (balanced.intact _ (head_mem_operations cq_eq)).type
  cases socket with
  | client =>
      simp only [Operation.kind, opcode] at type
      simp [process, taken, type, clientRx, failed]
  | peer =>
      simp only [Operation.kind, opcode] at type
      simp [process, taken, type, peerRx, failed]

theorem process_client (balanced : worker.io.Balanced [])
    (cq_eq : worker.io.cq = completion :: cq)
    (opcode : completion.operation.opcode = .recvmsg .client) (succeeded : 0 ≤ completion.res) :
    ∃ relay, relay.perThreadStatistics = (worker.relay.updateIoStatistics thread .inbound
          completion.res.toNat).perThreadStatistics ∧
      process thread threads completion (taken worker cq) =
        .ok ⟨relay, (taken worker cq).io.again completion.operation.userData .client⟩ := by
  have intact := balanced.intact _ (head_mem_operations cq_eq)
  have type := intact.type
  have message := intact.message (by simp [Operation.kind, opcode])
  simp only [Operation.kind, opcode] at type
  have rearmed := (balanced.take cq_eq).rearm intact.index .client
  simp only [process, taken, type, clientRx, if_neg (not_lt.mpr succeeded), Io.vector?, message,
    ownHeader, Option.map_some, Backend.runOnClientReceived_eq, bind, Except.bind, backend,
    ite_self]
  have received := rearmed.1
  rw [Socket.receiveType] at received
  refine ⟨_, ?_, by rw [received]; rfl⟩
  simp only [State.clientReceived_perThreadStatistics, Io.read, Memory.load_length]

theorem process_sent (balanced : worker.io.Balanced [])
    (cq_eq : worker.io.cq = completion :: cq)
    (opcode : completion.operation.opcode = .sendmsg .client) :
    ∃ relay, relay.perThreadStatistics = (worker.relay.updateIoStatistics thread .outbound
          (toUInt32 completion.res)).perThreadStatistics ∧
      process thread threads completion (taken worker cq) =
        .ok ⟨relay, (taken worker cq).io.releaseEvent completion.operation.userData⟩ := by
  have intact := balanced.intact _ (head_mem_operations cq_eq)
  have type := intact.type
  have message := intact.message (by simp [Operation.kind, opcode])
  simp only [Operation.kind, opcode] at type
  simp only [process, taken, type, peerTx, Io.vector?, message, ownHeader, Option.map_some,
    Backend.runOnSessionSent_eq, bind, Except.bind, backend]
  exact ⟨_, rfl, rfl⟩

theorem process_timer (balanced : worker.io.Balanced [])
    (cq_eq : worker.io.cq = completion :: cq)
    (opcode : completion.operation.opcode = .timeout) :
    ∃ relay, relay.perThreadStatistics =
          (worker.relay.loadStatistics threads).2.perThreadStatistics ∧
      process thread threads completion (taken worker cq) =
        .ok ⟨relay, (taken worker cq).io.timed completion.operation.userData⟩ := by
  have type := (balanced.intact _ (head_mem_operations cq_eq)).type
  simp only [Operation.kind, opcode] at type
  have added : Io.addTimeout _ completion.operation.userData _ = _ :=
    Io.addTimeout_eq (balanced.take cq_eq).room
  simp only [process, taken, type, timer, added, bind, Except.bind]
  exact ⟨_, rfl, rfl⟩

theorem peer_packet {bytes : List UInt8} (res : completion.res = bytes.length)
    (short : bytes.length ≤ memoryPerPacket) : toUInt32 completion.res = bytes.length := by
  simp only [memoryPerPacket] at short
  rw [toUInt32, res]
  omega

section Peer

variable {src : Endpoint} {bytes : List UInt8}

/-- The completion reports a datagram from the peer, and the datagram is in place. -/
structure ReportsPeer (worker : Worker Endpoint (Io Endpoint)) (completion : Completion Endpoint)
    (cq : List (Completion Endpoint)) (src : Endpoint) (bytes : List UInt8) : Prop where
  head : worker.io.cq = completion :: cq
  opcode : completion.operation.opcode = .recvmsg .peer
  res : completion.res = bytes.length
  received : completion.received = some (src, bytes)
  short : bytes.length ≤ memoryPerPacket
  stored : worker.io.messagesBuffer.load (completion.operation.userData * memoryPerPacket)
    bytes.length = bytes

/-- Every successful receive from the peer does. -/
theorem reportsPeer (balanced : worker.io.Balanced []) (cq_eq : worker.io.cq = completion :: cq)
    (opcode : completion.operation.opcode = .recvmsg .peer) (succeeded : 0 ≤ completion.res) :
    ∃ src bytes, ReportsPeer worker completion cq src bytes := by
  have completion_mem : completion ∈ worker.io.cq := cq_eq ▸ List.mem_cons_self
  rcases balanced.delivered completion completion_mem .peer opcode succeeded with
    ⟨src, bytes, received, res, short, -, stored⟩
  exact ⟨src, bytes, cq_eq, opcode, res, received, short, stored⟩

theorem process_peer (balanced : worker.io.Balanced [])
    (reports : ReportsPeer worker completion cq src bytes) :
    process thread threads completion (taken worker cq) =
      (do
        let (_, after) ← (backend Endpoint).runOnPeerReceived thread
          (completion.packet bytes.length) (taken worker cq)
        let io ← (after.io.releaseEvent completion.operation.userData).receiveAgain .peerRx .peer
        return { after with io }) := by
  have intact := balanced.intact _ (head_mem_operations reports.head)
  have type := intact.type
  have message := intact.message (by simp [Operation.kind, reports.opcode])
  have iov := intact.receive .peer reports.opcode
  have succeeded : ¬completion.res < 0 := by
    rw [reports.res]
    omega
  simp only [Operation.kind, reports.opcode] at type
  simp only [process, taken, type, peerRx, if_neg succeeded, Io.vector?, message, ownHeader,
    Option.map_some, iov, ownVector, peer_packet reports.res reports.short, Completion.packet]

theorem process_unrouted (balanced : worker.io.Balanced [])
    (reports : ReportsPeer worker completion cq src bytes)
    (unrouted : worker.relay.route bytes = none) :
    ∃ relay, relay.perThreadStatistics = (worker.relay.updateIoStatistics thread .inbound
          bytes.length).perThreadStatistics ∧
      process thread threads completion (taken worker cq) =
        .ok ⟨relay, (taken worker cq).io.again completion.operation.userData .peer⟩ := by
  have intact := balanced.intact _ (head_mem_operations reports.head)
  have rearmed := (balanced.take reports.head).rearm intact.index .peer
  have read : (taken worker cq).relay.route ((backend Endpoint).read (taken worker cq).io
      (completion.packet bytes.length)) = none := by
    simpa [backend, Io.read, Completion.packet, taken, reports.stored] using unrouted
  rw [process_peer thread threads balanced reports, Backend.runOnPeerReceived_of_none _ _ read]
  simp only [bind, Except.bind, backend, taken]
  have received := rearmed.1
  rw [Socket.receiveType] at received
  exact ⟨_, rfl, by rw [received]; rfl⟩

theorem process_routed_full (balanced : worker.io.Balanced [])
    (reports : ReportsPeer worker completion cq src bytes) {target : SessionPtr × Endpoint}
    (routed : worker.relay.route bytes = some target) (full : worker.io.freeEventIds = []) :
    process thread threads completion (taken worker cq) = .error .outOfFreeEvents := by
  have read : (taken worker cq).relay.route ((backend Endpoint).read (taken worker cq).io
      (completion.packet bytes.length)) = some (target.1, target.2) := by
    simpa [backend, Io.read, Completion.packet, taken, reports.stored] using routed
  rw [process_peer thread threads balanced reports, Backend.runOnPeerReceived_of_some _ _ read]
  have fullTaken : (taken worker cq).io.freeEventIds = [] := full
  have failed : (backend Endpoint).startSend target.1 target.2 (completion.packet bytes.length)
      (taken worker cq).io = .error .outOfFreeEvents :=
    Io.startSend_of_full fullTaken target.1 _ _
  rw [failed]
  rfl

theorem process_routed (balanced : worker.io.Balanced [])
    (reports : ReportsPeer worker completion cq src bytes) {target : SessionPtr × Endpoint}
    (routed : worker.relay.route bytes = some target) {txEvent : EventPtr} {rest : List EventPtr}
    (free : worker.io.freeEventIds = txEvent :: rest) :
    ∃ relay, relay.perThreadStatistics = (worker.relay.updateIoStatistics thread .inbound
          bytes.length).perThreadStatistics ∧
      process thread threads completion (taken worker cq) =
        .ok ⟨relay, ((taken worker cq).io.transmitting txEvent rest target.2
          (completion.packet bytes.length)).again completion.operation.userData .peer⟩ := by
  have intact := balanced.intact _ (head_mem_operations reports.head)
  have held : (taken worker cq).io.Balanced [completion.operation.userData] :=
    balanced.take reports.head
  have freeTaken : (taken worker cq).io.freeEventIds = txEvent :: rest := free
  have short : (completion.packet bytes.length).length ≤ memoryPerPacket := reports.short
  have read : (taken worker cq).relay.route ((backend Endpoint).read (taken worker cq).io
      (completion.packet bytes.length)) = some (target.1, target.2) := by
    simpa [backend, Io.read, Completion.packet, taken, reports.stored] using routed
  have sent : (backend Endpoint).startSend target.1 target.2 (completion.packet bytes.length)
      (taken worker cq).io = .ok (false, (taken worker cq).io.transmitting txEvent rest target.2
        (completion.packet bytes.length)) :=
    Io.startSend_of_free freeTaken held.room target.1 _ _
  have transmits := held.transmitting freeTaken target.2 short
  have different : completion.operation.userData ≠ txEvent :=
    held.held_ne_free (freeTaken ▸ List.mem_cons_self) List.mem_cons_self
  have index : ((taken worker cq).io.ioEvents completion.operation.userData).index =
      completion.operation.userData := intact.index
  have rearmed := transmits.1.rearm
    ((congrArg RingEvent.index (transmits.2 _ different).event).trans index) .peer
  rw [process_peer thread threads balanced reports, Backend.runOnPeerReceived_of_some _ _ read,
    sent]
  simp only [bind, Except.bind, Bool.false_eq_true, if_false]
  have received := rearmed.1
  rw [Socket.receiveType] at received
  exact ⟨_, rfl, by rw [received]; rfl⟩

end Peer

end Processing

end Urn.Uring
