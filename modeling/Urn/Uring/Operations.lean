import Urn.Uring.Balance

/-!
# What the worker and the kernel do to the table

The effects of the compound operations of an io_uring worker, each with the proof
that it keeps the table balanced: receiving again with an event from the free
list, sending with one, setting the timer again, submitting, and completing.
-/

namespace Urn.Uring

open Relay

variable {Endpoint : Type}

namespace Io

/-- A receive has been queued for the event `ev`, which was free. -/
def armed (io : Io Endpoint) (ev : EventPtr) (rest : List EventPtr) (socket : Socket) :
    Io Endpoint :=
  { io.modifyEvent ev fun event => event.allocated ev socket.receiveType with
    freeEventIds := rest
    sq := io.sq ++ [⟨.recvmsg socket, ev, none⟩] }

/-- The send of a packet has been queued for the event `ev`, which was free. -/
def transmitting (io : Io Endpoint) (ev : EventPtr) (rest : List EventPtr) (endpoint : Endpoint)
    (packet : Packet) : Io Endpoint :=
  { io.modifyEvent ev fun event =>
      { event.allocated ev .peerTx with
        address := endpoint
        iov := ⟨ev * memoryPerPacket, packet.length⟩ } with
    freeEventIds := rest
    messagesBuffer := io.messagesBuffer.store (ev * memoryPerPacket) (io.read packet)
    sq := io.sq ++ [⟨.sendmsg .client, ev, some (endpoint, io.read packet)⟩] }

/-- The timer has been queued again. -/
def timed (io : Io Endpoint) (ev : EventPtr) : Io Endpoint :=
  { io.modifyEvent ev fun event => { event with iov := createTimeout statisticsTimeoutMs } with
    sq := io.sq ++ [⟨.timeout, ev, none⟩] }

section Effects

variable {io : Io Endpoint} {ev : EventPtr} {rest : List EventPtr}

theorem receiveAgain_of_free (free : io.freeEventIds = ev :: rest)
    (room : io.sq.length ≠ queueEntries) (socket : Socket) :
    io.receiveAgain socket.receiveType socket = .ok (io.armed ev rest socket) := by
  simp [receiveAgain, allocEvent, free, addRecvmsg, prepare, modifyEvent, room, bind, Except.bind,
    armed]

theorem startSend_of_free (free : io.freeEventIds = ev :: rest)
    (room : io.sq.length ≠ queueEntries) (session : SessionPtr) (endpoint : Endpoint)
    (packet : Packet) :
    startSend session endpoint packet io =
      .ok (false, io.transmitting ev rest endpoint packet) := by
  simp [startSend, allocEvent, free, addSendmsg, prepare, modifyEvent, room, bind, Except.bind,
    pure, Except.pure, transmitting, RingEvent.allocated, read]

theorem startSend_of_full (full : io.freeEventIds = []) (session : SessionPtr)
    (endpoint : Endpoint) (packet : Packet) :
    startSend session endpoint packet io = .error .outOfFreeEvents := by
  simp [startSend, allocEvent, full, bind, Except.bind]

theorem addTimeout_eq (room : io.sq.length ≠ queueEntries) :
    io.addTimeout ev statisticsTimeoutMs = .ok (io.timed ev) := by
  simp [addTimeout, prepare, modifyEvent, room, timed]

end Effects

section Counts

variable {io after : Io Endpoint}

theorem posted_of_perm {operation : Operation Endpoint}
    (operations : after.operations.Perm (operation :: io.operations)) (kind : RingEventType) :
    after.posted kind = io.posted kind + if operation.kind = kind then 1 else 0 := by
  simp [posted, (operations.map Operation.kind).count_eq, List.count_cons]

theorem operations_prepare (io : Io Endpoint) (operation : Operation Endpoint) :
    ((io.sq ++ [operation]) ++ io.inFlight ++ io.cq.map Completion.operation).Perm
      (operation :: io.operations) := by
  rw [operations, List.append_assoc, List.append_assoc, List.append_assoc]
  exact List.perm_middle

theorem operations_armed (io : Io Endpoint) (ev : EventPtr) (rest : List EventPtr)
    (socket : Socket) :
    (io.armed ev rest socket).operations.Perm (⟨.recvmsg socket, ev, none⟩ :: io.operations) :=
  operations_prepare io _

theorem operations_transmitting (io : Io Endpoint) (ev : EventPtr) (rest : List EventPtr)
    (endpoint : Endpoint) (packet : Packet) :
    (io.transmitting ev rest endpoint packet).operations.Perm
      (⟨.sendmsg .client, ev, some (endpoint, io.read packet)⟩ :: io.operations) :=
  operations_prepare io _

theorem operations_timed (io : Io Endpoint) (ev : EventPtr) :
    (io.timed ev).operations.Perm (⟨.timeout, ev, none⟩ :: io.operations) :=
  operations_prepare io _

theorem posted_armed (io : Io Endpoint) (ev : EventPtr) (rest : List EventPtr) (socket : Socket)
    (kind : RingEventType) :
    (io.armed ev rest socket).posted kind =
      io.posted kind + if socket.receiveType = kind then 1 else 0 := by
  rw [posted_of_perm (operations_armed io ev rest socket)]
  cases socket <;> rfl

theorem posted_transmitting (io : Io Endpoint) (ev : EventPtr) (rest : List EventPtr)
    (endpoint : Endpoint) (packet : Packet) (kind : RingEventType) :
    (io.transmitting ev rest endpoint packet).posted kind =
      io.posted kind + if RingEventType.peerTx = kind then 1 else 0 :=
  posted_of_perm (operations_transmitting io ev rest endpoint packet) kind

theorem operations_take {completion : Completion Endpoint} {cq : List (Completion Endpoint)}
    (cq_eq : io.cq = completion :: cq) :
    io.operations.Perm (completion.operation :: ({ io with cq } : Io Endpoint).operations) := by
  rw [operations, cq_eq]
  exact List.perm_middle

end Counts

namespace Balanced

variable {io : Io Endpoint} {held : List EventPtr} {ev : EventPtr} {rest : List EventPtr}

theorem room (balanced : io.Balanced held) : io.sq.length ≠ queueEntries := by
  have length := balanced.length
  simp only [operations, List.length_append, numEvents] at length
  simp only [queueEntries]
  omega

theorem armed (balanced : io.Balanced held) (free : io.freeEventIds = ev :: rest)
    (socket : Socket) : (io.armed ev rest socket).Balanced held := by
  have ev_mem : ev ∈ io.freeEventIds := free ▸ List.mem_cons_self
  refine balanced.enqueue (operations_prepare io _) rfl ?_ ?_ ?_
  · intro other
    simp only [free, List.count_cons, Io.armed, beq_iff_eq]
    omega
  · intro operation operation_mem
    have different := balanced.owner_ne_free ev_mem operation_mem
    exact ⟨by simp [Io.armed, modifyEvent, Function.update_of_ne different], fun _ _ => rfl⟩
  · refine ⟨?_, ?_, ?_, ?_, ?_, ?_⟩
    · cases socket <;>
        simp [Io.armed, modifyEvent, RingEvent.allocated, Operation.kind, Socket.receiveType]
    · simp [Io.armed, modifyEvent, RingEvent.allocated]
    · cases socket <;> simp [Operation.kind]
    · simp [Io.armed, modifyEvent, RingEvent.allocated, ownHeader]
    · simp [Io.armed, modifyEvent, RingEvent.allocated, ownVector]
    · cases socket <;> simp [Operation.kind]

/-- A packet is copied to the memory of a free event, and its send is queued. -/
theorem transmitting (balanced : io.Balanced held) (free : io.freeEventIds = ev :: rest)
    (endpoint : Endpoint) {packet : Packet} (short : packet.length ≤ memoryPerPacket) :
    (io.transmitting ev rest endpoint packet).Balanced held ∧
      ∀ other, other ≠ ev → io.SameAt (io.transmitting ev rest endpoint packet) other := by
  have ev_mem : ev ∈ io.freeEventIds := free ▸ List.mem_cons_self
  have length : (io.read packet).length = packet.length := Memory.load_length _ _ _
  have same (other : EventPtr) (different : other ≠ ev) :
      io.SameAt (io.transmitting ev rest endpoint packet) other := by
    refine ⟨by simp [Io.transmitting, modifyEvent, Function.update_of_ne different], ?_⟩
    intro count countShort
    exact load_store_of_ne different (length.trans_le short) countShort
  refine ⟨balanced.enqueue (operations_prepare io _) rfl ?_ ?_ ?_, same⟩
  · intro other
    simp only [free, List.count_cons, Io.transmitting, beq_iff_eq]
    omega
  · intro operation operation_mem
    exact same _ (balanced.owner_ne_free ev_mem operation_mem)
  · refine ⟨?_, ?_, ?_, ?_, ?_, ?_⟩
    · simp [Io.transmitting, modifyEvent, RingEvent.allocated, Operation.kind]
    · simp [Io.transmitting, modifyEvent, RingEvent.allocated]
    · simp [Operation.kind]
    · simp [Io.transmitting, modifyEvent, RingEvent.allocated, ownHeader]
    · simp
    · intro _
      refine ⟨endpoint, io.read packet, rfl, length.trans_le short, ?_, ?_, ?_⟩
      · simp [Io.transmitting, modifyEvent]
      · simp [Io.transmitting, modifyEvent, length]
      · exact Memory.load_store _ _ _

theorem alloc (balanced : io.Balanced held) (free : io.freeEventIds = ev :: rest)
    (type : RingEventType) :
    io.allocEvent type = .ok (ev, { io with freeEventIds := rest }.modifyEvent ev
        fun event => event.allocated ev type) ∧
      ({ io with freeEventIds := rest }.modifyEvent ev
        fun event => event.allocated ev type).Balanced (ev :: held) := by
  have ev_mem : ev ∈ io.freeEventIds := free ▸ List.mem_cons_self
  have same (operation : Operation Endpoint) (operation_mem : operation ∈ io.operations) :
      io.SameAt ({ io with freeEventIds := rest }.modifyEvent ev
        fun event => event.allocated ev type) operation.userData := by
    have different := balanced.owner_ne_free ev_mem operation_mem
    exact ⟨by simp [modifyEvent, Function.update_of_ne different], fun _ _ => rfl⟩
  refine ⟨by simp [allocEvent, free], ⟨?_, ?_, ?_⟩⟩
  · intro other
    have partition := balanced.partition other
    rw [free, List.count_cons] at partition
    simp only [modifyEvent, owners, operations, List.count_cons] at partition ⊢
    omega
  · intro operation operation_mem
    exact (balanced.intact operation operation_mem).of_sameAt (same operation operation_mem)
  · intro completion completion_mem
    have operation_mem := Io.mem_operations_of_completed completion_mem
    exact (balanced.delivered completion completion_mem).of_sameAt (same _ operation_mem)

theorem timed (balanced : io.Balanced [ev]) (type : (io.ioEvents ev).type = .timer)
    (index : (io.ioEvents ev).index = ev) : (io.timed ev).Balanced [] := by
  refine balanced.enqueue (operations_prepare io _) rfl ?_ ?_ ?_
  · intro other
    simp [Io.timed, modifyEvent, List.count_cons]
  · intro operation operation_mem
    have different := balanced.owner_ne_held operation_mem
    exact ⟨by simp [Io.timed, modifyEvent, Function.update_of_ne different], fun _ _ => rfl⟩
  · refine ⟨?_, ?_, ?_, ?_, ?_, ?_⟩
    · simp [Io.timed, modifyEvent, Operation.kind, type]
    · simp [Io.timed, modifyEvent, index]
    · simp [Operation.kind]
    · simp [Operation.kind]
    · simp
    · simp [Operation.kind]

theorem rearm (balanced : io.Balanced (ev :: held)) (index : (io.ioEvents ev).index = ev)
    (socket : Socket) :
    (io.releaseEvent ev).receiveAgain socket.receiveType socket =
        .ok ((io.releaseEvent ev).armed ev io.freeEventIds socket) ∧
      ((io.releaseEvent ev).armed ev io.freeEventIds socket).Balanced held := by
  have released := balanced.release index
  have free : (io.releaseEvent ev).freeEventIds = ev :: io.freeEventIds := by
    rw [releaseEvent, index]
  exact ⟨receiveAgain_of_free free released.room socket, released.armed free socket⟩

theorem submit (balanced : io.Balanced held) :
    io.submit.Balanced held ∧ io.submit.operations.Perm io.operations := by
  have perm : io.submit.operations.Perm io.operations := by
    apply List.Perm.append_right
    have swapped : (io.inFlight ++ io.sq).Perm (io.sq ++ io.inFlight) := List.perm_append_comm
    exact swapped
  refine ⟨⟨?_, ?_, ?_⟩, perm⟩
  · intro other
    have partition := balanced.partition other
    rw [owners, (perm.map _).count_eq]
    exact partition
  · intro operation operation_mem
    have intact := balanced.intact operation (perm.mem_iff.mp operation_mem)
    exact intact.of_sameAt ⟨rfl, fun _ _ => rfl⟩
  · intro completion completion_mem
    exact (balanced.delivered completion completion_mem).of_sameAt ⟨rfl, fun _ _ => rfl⟩

end Balanced

/-- A datagram has been stored with the event of a receive. -/
def deposited (io : Io Endpoint) (ev : EventPtr) (src : Endpoint) (bytes : List UInt8) :
    Io Endpoint :=
  { io.modifyEvent ev fun event =>
      { event with
        address := src
        message := { event.message with namelen := addressSize } } with
    messagesBuffer := io.messagesBuffer.store (ev * memoryPerPacket) bytes }

namespace Balanced

variable {io after : Io Endpoint} {held : List EventPtr}

theorem owners_nodup (balanced : io.Balanced held) : io.owners.Nodup := by
  apply List.nodup_iff_count_le_one.mpr
  intro ev
  have partition := balanced.partition ev
  split at partition <;> omega

theorem owner_inj (balanced : io.Balanced held) {left right : Operation Endpoint}
    (left_mem : left ∈ io.operations) (right_mem : right ∈ io.operations)
    (same : left.userData = right.userData) : left = right :=
  List.inj_on_of_nodup_map balanced.owners_nodup left_mem right_mem same

theorem completed_ne (balanced : io.Balanced held) {operation : Operation Endpoint}
    (inFlight : operation ∈ io.inFlight) {completion : Completion Endpoint}
    (completion_mem : completion ∈ io.cq) :
    completion.operation.userData ≠ operation.userData := by
  intro same
  have nodup := balanced.owners_nodup
  rw [owners, operations, List.map_append, List.nodup_append] at nodup
  have left : operation.userData ∈ (io.sq ++ io.inFlight).map Operation.userData :=
    List.mem_map_of_mem (List.mem_append_right _ inFlight)
  have right : completion.operation.userData ∈
      (io.cq.map Completion.operation).map Operation.userData :=
    List.mem_map_of_mem (List.mem_map_of_mem completion_mem)
  exact nodup.2.2 _ left _ right same.symm

/-- The kernel reports an operation and writes only to its event and memory. -/
theorem report (balanced : io.Balanced held) {index : ℕ} {operation : Operation Endpoint}
    {completion : Completion Endpoint} (inFlight : io.inFlight[index]? = some operation)
    (completes : completion.operation = operation)
    (queues : after.freeEventIds = io.freeEventIds ∧ after.sq = io.sq ∧
      after.inFlight = io.inFlight ∧ after.cq = io.cq)
    (same : ∀ ev, ev ≠ operation.userData → io.SameAt after ev)
    (intact : after.Intact operation) (delivered : after.Delivered completion) :
    (after.report index completion).Balanced held ∧
      (after.report index completion).operations.Perm io.operations := by
  rcases queues with ⟨free, sq, inFlightEq, cq⟩
  have operation_mem := List.mem_of_getElem? inFlight
  rcases List.getElem?_eq_some_iff.mp inFlight with ⟨inRange, operation_eq⟩
  have perm : (after.report index completion).operations.Perm io.operations := by
    have erased := List.getElem_cons_eraseIdx_perm inRange
    rw [operation_eq] at erased
    simp only [operations, Io.report, sq, inFlightEq, cq, completes, List.map_append,
      List.map_cons, List.map_nil, List.append_assoc]
    apply List.Perm.append_left
    refine List.Perm.trans ?_ (erased.append_right _)
    rw [← List.append_assoc, List.cons_append]
    exact List.perm_append_singleton _ _
  refine ⟨⟨?_, ?_, ?_⟩, perm⟩
  · intro ev
    have partition := balanced.partition ev
    rw [owners, (perm.map _).count_eq]
    simpa only [Io.report, free, owners] using partition
  · intro other other_mem
    have old := perm.mem_iff.mp other_mem
    by_cases isOperation : other.userData = operation.userData
    · have here : operation ∈ io.operations :=
        List.mem_append_left _ (List.mem_append_right _ operation_mem)
      rw [balanced.owner_inj old here isOperation]
      exact intact.of_sameAt ⟨rfl, fun _ _ => rfl⟩
    · have kept := (balanced.intact other old).of_sameAt (same _ isOperation)
      exact kept.of_sameAt ⟨rfl, fun _ _ => rfl⟩
  · intro other other_mem
    rw [Io.report, cq] at other_mem
    rcases List.mem_append.mp other_mem with old | new
    · have different := balanced.completed_ne operation_mem old
      have kept := (balanced.delivered other old).of_sameAt (same _ different)
      exact kept.of_sameAt ⟨rfl, fun _ _ => rfl⟩
    · rw [List.mem_singleton] at new
      subst new
      exact delivered.of_sameAt ⟨rfl, fun _ _ => rfl⟩

end Balanced

theorem mem_cq_report {io : Io Endpoint} {index : ℕ} {completion new : Completion Endpoint} :
    completion ∈ (io.report index new).cq ↔ completion ∈ io.cq ∨ completion = new := by
  simp [report]

theorem recvmsg_eq {io : Io Endpoint} {index : ℕ} {operation : Operation Endpoint}
    {socket : Socket} (intact : io.Intact operation)
    (isReceive : operation.opcode = .recvmsg socket) (src : Endpoint) (datagram : List UInt8) :
    io.recvmsg index operation src datagram =
      (io.deposited operation.userData src (datagram.take memoryPerPacket)).report index
        ⟨operation, (datagram.take memoryPerPacket).length,
          some (src, datagram.take memoryPerPacket)⟩ := by
  have notTimer : operation.kind ≠ .timer := by
    cases socket <;> simp [Operation.kind, isReceive]
  have message := intact.message notTimer
  have iov := intact.receive socket isReceive
  simp [recvmsg, vector?, message, iov, ownHeader, ownVector, modifyEvent, deposited]

namespace Balanced

variable {io : Io Endpoint} {held : List EventPtr}

/-- Whatever the kernel completes, the table stays balanced. -/
theorem complete (balanced : io.Balanced held) (index : ℕ) (reply : Reply Endpoint) :
    (io.complete index reply).Balanced held ∧
      (io.complete index reply).operations.Perm io.operations := by
  cases inFlight : io.inFlight[index]? with
  | none => simpa [Io.complete, inFlight] using balanced
  | some operation =>
      have operation_mem := Io.mem_operations_of_inFlight inFlight
      have intact := balanced.intact operation operation_mem
      have unwritten (res : ℤ) (noDatagram : ∀ socket, operation.opcode = .recvmsg socket →
          res < 0) : (io.report index ⟨operation, res, none⟩).Balanced held ∧
            (io.report index ⟨operation, res, none⟩).operations.Perm io.operations := by
        apply balanced.report inFlight rfl ⟨rfl, rfl, rfl, rfl⟩ (fun ev _ => .refl io ev) intact
        intro socket isReceive succeeded
        have failed := noDatagram socket isReceive
        simp only at succeeded
        omega
      cases opcode : operation.opcode with
      | recvmsg socket =>
          cases reply with
          | received src datagram =>
              simp only [Io.complete, inFlight, opcode, recvmsg_eq intact opcode]
              have short : (datagram.take memoryPerPacket).length ≤ memoryPerPacket :=
                List.length_take_le _ _
              refine balanced.report inFlight ?_ ?_ ?_ ?_ ?_
              · rfl
              · exact ⟨rfl, rfl, rfl, rfl⟩
              · intro ev different
                refine ⟨by simp [deposited, modifyEvent, Function.update_of_ne different], ?_⟩
                intro length lengthShort
                exact load_store_of_ne different short lengthShort
              · have notTimer : operation.kind ≠ .timer := by
                  cases socket <;> simp [Operation.kind, opcode]
                have message := intact.message notTimer
                refine ⟨?_, ?_, intact.valid, ?_, ?_, ?_⟩
                · simpa [deposited, modifyEvent] using intact.type
                · simpa [deposited, modifyEvent] using intact.index
                · intro _
                  simp [deposited, modifyEvent, message, ownHeader]
                · intro other isReceive
                  simpa [deposited, modifyEvent] using intact.receive other isReceive
                · intro isTx
                  cases socket <;> simp [Operation.kind, opcode] at isTx
              · intro other isReceive succeeded
                refine ⟨src, datagram.take memoryPerPacket, rfl, rfl, short, ?_, ?_⟩
                · simp [deposited, modifyEvent]
                · exact Memory.load_store _ _ _
          | result res =>
              by_cases failed : res < 0
              · simp only [Io.complete, inFlight, opcode, if_pos failed]
                exact unwritten res fun _ _ => failed
              · simpa [Io.complete, inFlight, opcode, failed] using balanced
      | sendmsg socket =>
          cases reply with
          | received src datagram => simpa [Io.complete, inFlight, opcode] using balanced
          | result res =>
              simp only [Io.complete, inFlight, opcode]
              exact unwritten res (by simp [opcode])
      | timeout =>
          cases reply with
          | received src datagram => simpa [Io.complete, inFlight, opcode] using balanced
          | result res =>
              simp only [Io.complete, inFlight, opcode]
              exact unwritten res (by simp [opcode])

/-- A completion in the queue was there before, or answers the operation in flight: with the
code of the reply, or with the beginning of a datagram. -/
theorem mem_cq_complete (balanced : io.Balanced held) {index : ℕ} {reply : Reply Endpoint}
    {completion : Completion Endpoint}
    (completion_mem : completion ∈ (io.complete index reply).cq) :
    completion ∈ io.cq ∨ (io.inFlight[index]? = some completion.operation ∧
      ((reply = .result completion.res ∧
          ∀ socket, completion.operation.opcode = .recvmsg socket → completion.res < 0) ∨
        ∃ socket src datagram, completion.operation.opcode = .recvmsg socket ∧
          reply = .received src datagram ∧
          completion.received = some (src, datagram.take memoryPerPacket))) := by
  cases inFlight : io.inFlight[index]? with
  | none =>
      left
      simpa only [Io.complete, inFlight] using completion_mem
  | some operation =>
      cases opcode : operation.opcode with
      | recvmsg socket =>
          cases reply with
          | received src datagram =>
              have operation_mem := Io.mem_operations_of_inFlight inFlight
              have intact := balanced.intact operation operation_mem
              simp only [Io.complete, inFlight, opcode, recvmsg_eq intact opcode] at completion_mem
              rcases mem_cq_report.mp completion_mem with old | rfl
              · exact Or.inl old
              · exact Or.inr ⟨rfl, Or.inr ⟨socket, src, datagram, opcode, rfl, rfl⟩⟩
          | result res =>
              simp only [Io.complete, inFlight, opcode] at completion_mem
              split at completion_mem
              · rename_i failed
                rcases mem_cq_report.mp completion_mem with old | rfl
                · exact Or.inl old
                · exact Or.inr ⟨rfl, Or.inl ⟨rfl, fun _ _ => failed⟩⟩
              · exact Or.inl completion_mem
      | sendmsg socket =>
          cases reply with
          | received src datagram =>
              left
              simpa only [Io.complete, inFlight, opcode] using completion_mem
          | result res =>
              simp only [Io.complete, inFlight, opcode] at completion_mem
              rcases mem_cq_report.mp completion_mem with old | rfl
              · exact Or.inl old
              · exact Or.inr ⟨rfl, Or.inl ⟨rfl, by simp [opcode]⟩⟩
      | timeout =>
          cases reply with
          | received src datagram =>
              left
              simpa only [Io.complete, inFlight, opcode] using completion_mem
          | result res =>
              simp only [Io.complete, inFlight, opcode] at completion_mem
              rcases mem_cq_report.mp completion_mem with old | rfl
              · exact Or.inl old
              · exact Or.inr ⟨rfl, Or.inl ⟨rfl, by simp [opcode]⟩⟩

end Balanced

end Io

end Urn.Uring
