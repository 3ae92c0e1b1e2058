import Urn.Mmsg.Basic

/-!
# Frame integrity

In each frame the kernel is handed exactly what the relay forwards of the batch
from the peer, in order, with the bytes which have been received.

The queue only points into the slab, and both receive paths write to the same
slab.  What is queued stays intact because the slab is not written any more once
the batch from the peer has been received, and the queue is empty before.
-/

namespace Urn.Mmsg

open Relay Execution

variable {Endpoint : Type}

/-- The relay after a batch from the clients. -/
def clientBatch (thread : UInt16) (batch : List (Message Endpoint))
    (relay : State UInt16 Endpoint) : State UInt16 Endpoint :=
  batch.foldl (fun relay message =>
    ((registerAll message.registrations relay).clientReceived thread message.src
      message.bytes).2) relay

/-- What the relay forwards of a batch from the peer: the endpoint of the session and
the bytes received, for each message which names a session. -/
def forwarded : List (Message Endpoint) → State UInt16 Endpoint → List (Endpoint × List UInt8)
  | [], _ => []
  | message :: batch, relay =>
      let registered := registerAll message.registrations relay
      ((registered.route message.bytes).map fun target => (target.2, message.bytes)).toList ++
        forwarded batch registered

/-- The batch that a frame receives from a socket. -/
def received : Option (Syscall (List (Message Endpoint))) → List (Message Endpoint)
  | some (.returned messages) => messages.take mmsgCapacity
  | some .failed => []
  | none => []

/-- What a frame hands to the kernel. -/
def Frame.forwarded (thread : UInt16) (relay : State UInt16 Endpoint) (frame : Frame Endpoint) :
    List (Endpoint × List UInt8) :=
  Mmsg.forwarded (received frame.peer) (clientBatch thread (received frame.client) relay)

/-- Accesses outside the arrays or the queue, or through no pointer. -/
def Stop.IsFault : Stop → Prop
  | .outOfBounds => True
  | .outsideQueue => True
  | .invalidPointer => True
  | .receiveFailed => False
  | .timerFailed => False
  | .sendFailed => False
  | .unfinished => False

/-- The call takes something from the queue. -/
def SendResult.takes : SendResult → Bool
  | .sent _ => true
  | .failed _ => false

section Relay

variable {left right : State UInt16 Endpoint}

theorem route_congr (same : left.sessions = right.sessions) (bytes : List UInt8) :
    left.route bytes = right.route bytes := by
  simp [State.route, State.clientEndpoint?, same]

theorem registerAll_congr (same : left.sessions = right.sessions)
    (registrations : List (SessionId × Endpoint)) :
    (registerAll registrations left).sessions = (registerAll registrations right).sessions := by
  induction registrations generalizing left right with
  | nil => exact same
  | cons registration registrations ih =>
      apply ih
      by_cases known : registration.1 ∈ right.sessions
      · simp [State.tryRegisterSession, same, known]
      · simp [State.tryRegisterSession, same, known]

theorem forwarded_congr (same : left.sessions = right.sessions)
    (batch : List (Message Endpoint)) : forwarded batch left = forwarded batch right := by
  induction batch generalizing left right with
  | nil => rfl
  | cons message batch ih =>
      have registered := registerAll_congr same message.registrations
      simp only [forwarded, route_congr registered, ih registered]

end Relay

namespace IoVectors

/-- Each message has its own address and its own vector. -/
structure Own (vectors : IoVectors Endpoint) : Prop where
  capacity : vectors.capacity = mmsgCapacity
  name : ∀ i, (vectors.messages i).name = i
  iov : ∀ i, (vectors.messages i).iov = i

/-- Each vector is its own part of the slab. -/
structure Partitioned (vectors : IoVectors Endpoint) : Prop extends vectors.Own where
  vectors_eq : ∀ i, vectors.vectors i = ⟨memoryPerPacket * i, memoryPerPacket⟩

theorem ioVectorsInit_partitioned [Inhabited Endpoint] :
    (ioVectorsInit 0 mmsgCapacity memoryPerPacket : IoVectors Endpoint).Partitioned where
  capacity := rfl
  name _ := rfl
  iov _ := rfl
  vectors_eq i := by simp [ioVectorsInit]

/-- What a worker reads at one message. -/
def entry (vectors : IoVectors Endpoint) (memory : Memory) (i : ℕ) : Endpoint × List UInt8 :=
  (vectors.messageFrom i, memory.load (vectors.packet i).content (vectors.packet i).length)

/-- The message after the kernel has received into it. -/
def receiveInto (vectors : IoVectors Endpoint) (i : ℕ) (src : Endpoint) (length : ℕ) :
    IoVectors Endpoint :=
  { vectors with
    addresses := Function.update vectors.addresses (vectors.messages i).name src
    messages := Function.update vectors.messages i
      { vectors.messages i with namelen := endpointSize, msgLen := length } }

variable {vectors : IoVectors Endpoint} {memory : Memory}

theorem Partitioned.receiveInto (partitioned : vectors.Partitioned) (i : ℕ) (src : Endpoint)
    (length : ℕ) : (vectors.receiveInto i src length).Partitioned := by
  constructor
  · constructor
    · exact partitioned.capacity
    · intro j
      by_cases same : j = i
      · subst same
        simpa [IoVectors.receiveInto] using partitioned.name j
      · simpa [IoVectors.receiveInto, Function.update_of_ne same] using partitioned.name j
    · intro j
      by_cases same : j = i
      · subst same
        simpa [IoVectors.receiveInto] using partitioned.iov j
      · simpa [IoVectors.receiveInto, Function.update_of_ne same] using partitioned.iov j
  · exact partitioned.vectors_eq

theorem Partitioned.recvmmsg_cons (partitioned : vectors.Partitioned) (message : Message Endpoint)
    (batch : List (Message Endpoint)) (i : ℕ) :
    recvmmsg (message :: batch) i vectors memory =
      recvmmsg batch (i + 1) (vectors.receiveInto i message.src message.bytes.length)
        (memory.store (memoryPerPacket * i) message.bytes) := by
  have vector_eq : vectors.vectors (vectors.messages i).iov =
      ⟨memoryPerPacket * i, memoryPerPacket⟩ := by
    rw [partitioned.iov, partitioned.vectors_eq]
  simp only [recvmmsg, vector_eq]
  rfl

theorem Partitioned.recvmmsg (partitioned : vectors.Partitioned)
    (batch : List (Message Endpoint)) (i : ℕ) :
    (recvmmsg batch i vectors memory).1.Partitioned := by
  induction batch generalizing i vectors memory with
  | nil => exact partitioned
  | cons message batch ih =>
      rw [partitioned.recvmmsg_cons]
      exact ih (partitioned.receiveInto i _ _) (i + 1)

theorem bytes_length_le (message : Message Endpoint) :
    message.bytes.length ≤ memoryPerPacket := by
  simp [Message.bytes]

theorem Partitioned.entry_receiveInto (partitioned : vectors.Partitioned)
    (message : Message Endpoint) (i : ℕ) :
    (vectors.receiveInto i message.src message.bytes.length).entry
        (memory.store (memoryPerPacket * i) message.bytes) i = (message.src, message.bytes) := by
  simp [entry, messageFrom, packet, IoVectors.receiveInto, partitioned.name, partitioned.iov,
    partitioned.vectors_eq]

/-- What is received later, at larger indices, leaves an entry as it is. -/
theorem Partitioned.entry_recvmmsg_of_lt (partitioned : vectors.Partitioned)
    (batch : List (Message Endpoint)) {i j : ℕ} (before : j < i)
    (fits : (vectors.packet j).length ≤ memoryPerPacket) :
    (IoVectors.recvmmsg batch i vectors memory).1.entry
        (IoVectors.recvmmsg batch i vectors memory).2 j = vectors.entry memory j := by
  induction batch generalizing i vectors memory with
  | nil => rfl
  | cons message batch ih =>
      have packet_eq : (vectors.receiveInto i message.src message.bytes.length).packet j =
          vectors.packet j := by
        simp [packet, IoVectors.receiveInto, Function.update_of_ne before.ne]
      have apart : memoryPerPacket * j + (vectors.packet j).length ≤ memoryPerPacket * i := by
        have next := Nat.mul_le_mul_left memoryPerPacket (Nat.succ_le_of_lt before)
        rw [Nat.mul_succ] at next
        exact (Nat.add_le_add_left fits _).trans next
      rw [partitioned.recvmmsg_cons]
      rw [ih (partitioned.receiveInto i _ _) (by omega) (by rwa [packet_eq])]
      have content : (vectors.packet j).content = memoryPerPacket * j := by
        simp [packet, partitioned.iov, partitioned.vectors_eq]
      have kept : (memory.store (memoryPerPacket * i) message.bytes).load
          (vectors.packet j).content (vectors.packet j).length =
            memory.load (vectors.packet j).content (vectors.packet j).length := by
        apply Memory.load_store_of_disjoint
        left
        rwa [content]
      simp only [entry, packet_eq, kept]
      simp [messageFrom, IoVectors.receiveInto, partitioned.name,
        Function.update_of_ne before.ne]

/-- A worker reads the batch which has been received. -/
theorem Partitioned.entries_recvmmsg (partitioned : vectors.Partitioned) (memory : Memory)
    (batch : List (Message Endpoint)) (i : ℕ) :
    (List.range' i batch.length).map ((IoVectors.recvmmsg batch i vectors memory).1.entry
        (IoVectors.recvmmsg batch i vectors memory).2) =
      batch.map fun message => (message.src, message.bytes) := by
  induction batch generalizing i vectors memory with
  | nil => rfl
  | cons message batch ih =>
      have next := partitioned.receiveInto i message.src message.bytes.length
      have first : (vectors.receiveInto i message.src message.bytes.length).packet i =
          ⟨memoryPerPacket * i, message.bytes.length⟩ := by
        simp [packet, IoVectors.receiveInto, partitioned.iov, partitioned.vectors_eq]
      rw [partitioned.recvmmsg_cons, List.length_cons, List.range'_succ, List.map_cons,
        List.map_cons]
      congr 1
      · have fits : ((vectors.receiveInto i message.src message.bytes.length).packet i).length ≤
            memoryPerPacket := by
          simpa [first] using bytes_length_le message
        exact (next.entry_recvmmsg_of_lt batch (Nat.lt_succ_self i) fits).trans
          (partitioned.entry_receiveInto message i)
      · exact ih next _ (i + 1)

end IoVectors

namespace Io

/-- The datagrams which are queued for the clients. -/
def queued (io : Io Endpoint) : List (Endpoint × List UInt8) :=
  (List.range io.clientsIo.txLength).map (io.clientsIo.tx.outgoing io.messageMem)

@[simp]
theorem queued_length (io : Io Endpoint) : io.queued.length = io.clientsIo.txLength := by
  simp [queued]

/-- The arrays of a worker are as they have been initialised, apart from the vectors
which are queued. -/
structure Sound (io : Io Endpoint) : Prop where
  peersRx : io.peersIo.rx.Partitioned
  clientsRx : io.clientsIo.rx.Partitioned
  clientsTx : io.clientsIo.tx.Own

theorem ioWorkerInit_sound [Inhabited Endpoint] : (ioWorkerInit : Io Endpoint).Sound where
  peersRx := IoVectors.ioVectorsInit_partitioned
  clientsRx := IoVectors.ioVectorsInit_partitioned
  clientsTx := IoVectors.ioVectorsInit_partitioned.toOwn

/-- Nothing has happened but that the given datagrams have been queued. -/
structure Queues (before after : Io Endpoint) (datagrams : List (Endpoint × List UInt8)) :
    Prop where
  messageMem : after.messageMem = before.messageMem
  peersIo : after.peersIo = before.peersIo
  wire : after.wire = before.wire
  sound : after.Sound
  queued : after.queued = before.queued ++ datagrams

variable {io : Io Endpoint}

theorem Sound.queues_nil (sound : io.Sound) : io.Queues io [] where
  messageMem := rfl
  peersIo := rfl
  wire := rfl
  sound := sound
  queued := by simp

theorem Queues.trans {before middle after : Io Endpoint}
    {first second : List (Endpoint × List UInt8)} (queuesFirst : before.Queues middle first)
    (queuesSecond : middle.Queues after second) : before.Queues after (first ++ second) where
  messageMem := queuesSecond.messageMem.trans queuesFirst.messageMem
  peersIo := queuesSecond.peersIo.trans queuesFirst.peersIo
  wire := queuesSecond.wire.trans queuesFirst.wire
  sound := queuesSecond.sound
  queued := by rw [queuesSecond.queued, queuesFirst.queued, List.append_assoc]

theorem Queues.txLength_eq {before after : Io Endpoint}
    {datagrams : List (Endpoint × List UInt8)} (queues : before.Queues after datagrams) :
    after.clientsIo.txLength = before.clientsIo.txLength + datagrams.length := by
  have lengths := congrArg List.length queues.queued
  simpa using lengths

/-- What `start_send` does if there is room in the queue. -/
def enqueue (io : Io Endpoint) (endpoint : Endpoint) (packet : Packet) : Io Endpoint :=
  { io with
    clientsIo := { io.clientsIo with
      txLength := io.clientsIo.txLength + 1
      tx := { io.clientsIo.tx with
        addresses := Function.update io.clientsIo.tx.addresses io.clientsIo.txLength endpoint
        vectors := Function.update io.clientsIo.tx.vectors io.clientsIo.txLength
          ⟨packet.content, packet.length⟩ } } }

theorem Sound.startSend_eq (sound : io.Sound) (room : io.clientsIo.txLength < mmsgCapacity)
    (session : SessionPtr) (endpoint : Endpoint) (packet : Packet) :
    Io.startSend session endpoint packet io = .ok (true, io.enqueue endpoint packet) := by
  have inBounds : io.clientsIo.txLength < io.clientsIo.tx.capacity := by
    rwa [sound.clientsTx.capacity]
  simp only [Io.startSend, if_pos inBounds]
  rfl

theorem Sound.queues_enqueue (sound : io.Sound) (endpoint : Endpoint) (packet : Packet) :
    io.Queues (io.enqueue endpoint packet) [(endpoint, io.read packet)] where
  messageMem := rfl
  peersIo := rfl
  wire := rfl
  sound := ⟨sound.peersRx, sound.clientsRx,
    ⟨sound.clientsTx.capacity, sound.clientsTx.name, sound.clientsTx.iov⟩⟩
  queued := by
    have earlier : (List.range io.clientsIo.txLength).map
        ((io.enqueue endpoint packet).clientsIo.tx.outgoing io.messageMem) = io.queued := by
      apply List.map_congr_left
      intro i i_mem
      have different : i ≠ io.clientsIo.txLength := (List.mem_range.mp i_mem).ne
      simp [IoVectors.outgoing, enqueue, sound.clientsTx.name, sound.clientsTx.iov,
        Function.update_of_ne different]
    have last : (io.enqueue endpoint packet).clientsIo.tx.outgoing io.messageMem
        io.clientsIo.txLength = (endpoint, io.read packet) := by
      simp [IoVectors.outgoing, enqueue, sound.clientsTx.name, sound.clientsTx.iov, Io.read]
    change (List.range (io.clientsIo.txLength + 1)).map
      ((io.enqueue endpoint packet).clientsIo.tx.outgoing io.messageMem) = _
    rw [List.range_succ, List.map_append, earlier, List.map_singleton, last]

end Io

section Batches

variable (thread : UInt16) (relay : State UInt16 Endpoint) {io : Io Endpoint}

theorem peerReceived_queues (sound : io.Sound) (room : io.clientsIo.txLength < mmsgCapacity)
    {i : ℕ} {bytes : List UInt8} (stored : io.read (io.peersIo.rx.packet i) = bytes) :
    ∃ after, peerReceived thread i ⟨relay, io⟩ = .ok after ∧
      after.relay.sessions = relay.sessions ∧
      io.Queues after.io ((relay.route bytes).map fun target => (target.2, bytes)).toList := by
  cases routed : relay.route bytes with
  | none =>
      have unrouted : (⟨relay, io⟩ : Worker Endpoint (Io Endpoint)).relay.route
          ((backend Endpoint).read io (io.peersIo.rx.packet i)) = none := by
        rw [← routed, ← stored]
        rfl
      have ran := Backend.runOnPeerReceived_of_none (backend Endpoint) thread unrouted
      refine ⟨_, by rw [peerReceived, ran], rfl, ?_⟩
      exact sound.queues_nil
  | some target =>
      rcases target with ⟨session, endpoint⟩
      have found : (⟨relay, io⟩ : Worker Endpoint (Io Endpoint)).relay.route
          ((backend Endpoint).read io (io.peersIo.rx.packet i)) = some (session, endpoint) := by
        rw [← routed, ← stored]
        rfl
      have queues := sound.queues_enqueue endpoint (io.peersIo.rx.packet i)
      have sends : (backend Endpoint).startSend session endpoint (io.peersIo.rx.packet i) io =
          .ok (true, io.enqueue endpoint (io.peersIo.rx.packet i)) :=
        sound.startSend_eq room session endpoint _
      have ran := Backend.runOnPeerReceived_of_some (backend Endpoint) thread found
      rw [sends] at ran
      refine ⟨_, by rw [peerReceived, ran], rfl, ?_⟩
      rw [stored] at queues
      exact queues

theorem clientReceived_eq {i : ℕ} {src : Endpoint} {bytes : List UInt8}
    (stored : io.clientsIo.rx.entry io.messageMem i = (src, bytes)) :
    clientReceived thread i ⟨relay, io⟩ =
      .ok ⟨(relay.clientReceived thread src bytes).2, io⟩ := by
  rcases Prod.mk.inj stored with ⟨src_eq, bytes_eq⟩
  have read_eq : (backend Endpoint).read io (io.clientsIo.rx.packet i) = bytes := bytes_eq
  simp only [clientReceived, Backend.runOnClientReceived_eq, src_eq, read_eq]
  congr 2
  exact ite_self io

/-- The loop over a batch from the peer queues what the relay forwards. -/
theorem forEach_peerReceived {batch : List (Message Endpoint)} {i : ℕ} (sound : io.Sound)
    (short : io.clientsIo.txLength ≤ i) (fits : i + batch.length ≤ mmsgCapacity)
    (stored : (List.range' i batch.length).map (io.peersIo.rx.entry io.messageMem) =
      batch.map fun message => (message.src, message.bytes)) :
    ∃ after, forEach (peerReceived thread) batch i ⟨relay, io⟩ = .ok after ∧
      io.Queues after.io (forwarded batch relay) := by
  induction batch generalizing i relay io with
  | nil => exact ⟨_, rfl, sound.queues_nil⟩
  | cons message batch ih =>
      rw [List.length_cons, List.range'_succ, List.map_cons, List.map_cons,
        List.cons.injEq] at stored
      rcases stored with ⟨first, rest⟩
      have room : io.clientsIo.txLength < mmsgCapacity := by
        rw [List.length_cons] at fits
        omega
      have read_eq : io.read (io.peersIo.rx.packet i) = message.bytes := (Prod.mk.inj first).2
      rcases peerReceived_queues thread (registerAll message.registrations relay) sound room
        read_eq with ⟨middle, handled, sessions_eq, queues⟩
      have atMostOne : (((registerAll message.registrations relay).route message.bytes).map
          fun target => (target.2, message.bytes)).toList.length ≤ 1 := by
        cases (registerAll message.registrations relay).route message.bytes <;> simp
      have short' : middle.io.clientsIo.txLength ≤ i + 1 := by
        have length_eq := queues.txLength_eq
        omega
      have fits' : i + 1 + batch.length ≤ mmsgCapacity := by
        rw [List.length_cons] at fits
        omega
      have stored' : (List.range' (i + 1) batch.length).map
          (middle.io.peersIo.rx.entry middle.io.messageMem) =
            batch.map fun message => (message.src, message.bytes) := by
        rw [queues.peersIo, queues.messageMem]
        exact rest
      rcases ih middle.relay queues.sound short' fits' stored' with
        ⟨after, ran, queuesRest⟩
      refine ⟨after, ?_, ?_⟩
      · simp only [forEach, handled]
        exact ran
      · rw [forwarded_congr sessions_eq] at queuesRest
        exact queues.trans queuesRest

theorem forEach_clientReceived {batch : List (Message Endpoint)} {i : ℕ}
    (stored : (List.range' i batch.length).map (io.clientsIo.rx.entry io.messageMem) =
      batch.map fun message => (message.src, message.bytes)) :
    forEach (clientReceived thread) batch i ⟨relay, io⟩ =
      .ok ⟨clientBatch thread batch relay, io⟩ := by
  induction batch generalizing i relay with
  | nil => rfl
  | cons message batch ih =>
      rw [List.length_cons, List.range'_succ, List.map_cons, List.map_cons,
        List.cons.injEq] at stored
      rcases stored with ⟨first, rest⟩
      have handled := clientReceived_eq thread (registerAll message.registrations relay) first
      simp only [forEach, handled]
      exact ih _ rest

theorem runPeerReceiveFrame_returned (sound : io.Sound) (empty : io.clientsIo.txLength = 0)
    (messages : List (Message Endpoint)) :
    ∃ after, runPeerReceiveFrame thread (.returned messages) ⟨relay, io⟩ = .ok after ∧
      after.io.Sound ∧ after.io.wire = io.wire ∧
      after.io.queued = forwarded (messages.take mmsgCapacity) relay := by
  have batch_eq : messages.take io.peersIo.rx.capacity = messages.take mmsgCapacity := by
    rw [sound.peersRx.capacity]
  have sound' : (io.recvFromPeer (messages.take mmsgCapacity)).Sound :=
    ⟨sound.peersRx.recvmmsg _ _, sound.clientsRx, sound.clientsTx⟩
  have fits : 0 + (messages.take mmsgCapacity).length ≤ mmsgCapacity := by
    rw [Nat.zero_add]
    exact List.length_take_le _ _
  have stored := sound.peersRx.entries_recvmmsg io.messageMem (messages.take mmsgCapacity) 0
  rcases forEach_peerReceived thread relay sound' empty.le fits stored with
    ⟨after, ran, queues⟩
  refine ⟨after, ?_, queues.sound, queues.wire, ?_⟩
  · simpa only [runPeerReceiveFrame, batch_eq] using ran
  · have none_queued : (io.recvFromPeer (messages.take mmsgCapacity)).queued = [] := by
      apply List.eq_nil_of_length_eq_zero
      simpa [Io.recvFromPeer] using empty
    simpa [none_queued] using queues.queued

theorem runClientReceiveFrame_returned (sound : io.Sound) (messages : List (Message Endpoint)) :
    ∃ after, runClientReceiveFrame thread (.returned messages) ⟨relay, io⟩ =
        .ok ⟨clientBatch thread (messages.take mmsgCapacity) relay, after⟩ ∧
      after.Sound ∧ after.wire = io.wire ∧
      after.clientsIo.txLength = io.clientsIo.txLength := by
  have batch_eq : messages.take io.clientsIo.rx.capacity = messages.take mmsgCapacity := by
    rw [sound.clientsRx.capacity]
  have stored := sound.clientsRx.entries_recvmmsg io.messageMem (messages.take mmsgCapacity) 0
  refine ⟨io.recvFromClient (messages.take mmsgCapacity), ?_, ?_, rfl, rfl⟩
  · simp only [runClientReceiveFrame, batch_eq]
    exact forEach_clientReceived thread relay stored
  · exact ⟨sound.peersRx, sound.clientsRx.recvmmsg _ _, sound.clientsTx⟩

end Batches

namespace Io

/-- The worker after the kernel has taken the given datagrams. -/
def handOver (io : Io Endpoint) (datagrams : List (Endpoint × List UInt8)) : Io Endpoint :=
  { io with wire := io.wire ++ datagrams }

theorem handOver_handOver (io : Io Endpoint) (first second : List (Endpoint × List UInt8)) :
    (io.handOver first).handOver second = io.handOver (first ++ second) := by
  simp [handOver]

theorem take_drop_queued {io : Io Endpoint} {offset count : ℕ}
    (inside : offset + count ≤ io.clientsIo.txLength) :
    (io.queued.drop offset).take count =
      (List.range count).map fun i => io.clientsIo.tx.outgoing io.messageMem (offset + i) := by
  apply List.ext_getElem
  · simp
    omega
  · intro i inLeft inRight
    simp [queued]

theorem handOver_drop_of_le {io : Io Endpoint} {offset : ℕ}
    (all : io.clientsIo.txLength ≤ offset) : io.handOver (io.queued.drop offset) = io := by
  have dropped : io.queued.drop offset = [] := by
    apply List.drop_eq_nil_of_le
    simpa using all
  simp [handOver, dropped]

/-- The loop hands over the rest of the queue, unless it does not end. -/
theorem sendLoop_result {io : Io Endpoint} {results : List SendResult} {remaining offset : ℕ}
    (whole : offset + remaining = io.clientsIo.txLength) :
    sendLoop results remaining offset io = .ok (io.handOver (io.queued.drop offset)) ∨
      sendLoop results remaining offset io = .error .sendFailed ∨
      sendLoop results remaining offset io = .error .unfinished := by
  induction results generalizing remaining offset io with
  | nil =>
      by_cases more : 0 < remaining
      · simp [sendLoop, more]
      · have all : io.clientsIo.txLength ≤ offset := by omega
        simp [sendLoop, more, handOver_drop_of_le all]
  | cons result results ih =>
      by_cases more : 0 < remaining
      · have inside := whole.le
        cases result with
        | failed errno =>
            cases errno with
            | eintr => simpa only [sendLoop, if_pos more, sendmmsg, if_pos inside] using ih whole
            | ewouldblock =>
                simpa only [sendLoop, if_pos more, sendmmsg, if_pos inside] using ih whole
            | other => simp [sendLoop, more, sendmmsg, inside]
        | sent count =>
            have taken_le : max 1 (min count remaining) ≤ remaining := by omega
            have fits : offset + max 1 (min count remaining) ≤ io.clientsIo.txLength := by omega
            have taken := take_drop_queued fits
            simp only [sendLoop, if_pos more, sendmmsg, if_pos inside, ← taken]
            generalize max 1 (min count remaining) = sent at taken_le
            have split_eq : io.handOver (io.queued.drop offset) =
                (io.handOver ((io.queued.drop offset).take sent)).handOver
                  (io.queued.drop (offset + sent)) := by
              rw [handOver_handOver, ← List.drop_drop, List.take_append_drop]
            have whole' : offset + sent + (remaining - sent) = io.clientsIo.txLength := by omega
            rw [split_eq]
            exact ih whole'
      · have all : io.clientsIo.txLength ≤ offset := by omega
        simp [sendLoop, more, handOver_drop_of_le all]

theorem sendLoop_ends {io : Io Endpoint} {results : List SendResult} {remaining offset : ℕ}
    (whole : offset + remaining = io.clientsIo.txLength)
    (noError : SendResult.failed .other ∉ results)
    (enough : remaining ≤ results.countP SendResult.takes) :
    ∃ after, sendLoop results remaining offset io = .ok after := by
  induction results generalizing remaining offset io with
  | nil =>
      have none_remains : remaining = 0 := by simpa using enough
      exact ⟨io, by simp [sendLoop, none_remains]⟩
  | cons result results ih =>
      have noErrorLater : SendResult.failed .other ∉ results := by
        intro later
        exact noError (List.mem_cons_of_mem _ later)
      by_cases more : 0 < remaining
      · have inside := whole.le
        cases result with
        | failed errno =>
            have enoughLater : remaining ≤ results.countP SendResult.takes := by
              simpa [SendResult.takes] using enough
            cases errno with
            | eintr =>
                simpa only [sendLoop, if_pos more, sendmmsg, if_pos inside] using
                  ih whole noErrorLater enoughLater
            | ewouldblock =>
                simpa only [sendLoop, if_pos more, sendmmsg, if_pos inside] using
                  ih whole noErrorLater enoughLater
            | other => exact absurd List.mem_cons_self noError
        | sent count =>
            have enoughLater : remaining - 1 ≤ results.countP SendResult.takes := by
              rw [List.countP_cons_of_pos rfl] at enough
              omega
            simp only [sendLoop, if_pos more, sendmmsg, if_pos inside]
            apply ih
            · simp only
              omega
            · exact noErrorLater
            · omega
      · exact ⟨io, by simp [sendLoop, more]⟩

theorem runClientSendFrame_result (io : Io Endpoint) (results : List SendResult) :
    io.runClientSendFrame results = .ok (io.handOver io.queued) ∨
      io.runClientSendFrame results = .error .sendFailed ∨
      io.runClientSendFrame results = .error .unfinished := by
  have whole : 0 + io.clientsIo.txLength = io.clientsIo.txLength := Nat.zero_add _
  simpa [runClientSendFrame] using sendLoop_result whole

end Io

section Frames

variable (thread : UInt16) (threads : List UInt16) (relay : State UInt16 Endpoint)
  {io : Io Endpoint}

theorem clientEntry_result (sound : io.Sound)
    (entry : Option (Syscall (List (Message Endpoint)))) :
    (∃ after, whenReady entry (runClientReceiveFrame thread) ⟨relay, io⟩ =
        .ok ⟨clientBatch thread (received entry) relay, after⟩ ∧
        after.Sound ∧ after.wire = io.wire ∧
        after.clientsIo.txLength = io.clientsIo.txLength) ∨
      entry = some .failed ∧
        whenReady entry (runClientReceiveFrame thread) ⟨relay, io⟩ = .error .receiveFailed := by
  cases entry with
  | none =>
      left
      exact ⟨io, rfl, sound, rfl, rfl⟩
  | some result =>
      cases result with
      | failed =>
          right
          exact ⟨rfl, rfl⟩
      | returned messages =>
          left
          exact runClientReceiveFrame_returned thread relay sound messages

theorem peerEntry_result (sound : io.Sound) (empty : io.clientsIo.txLength = 0)
    (entry : Option (Syscall (List (Message Endpoint)))) :
    (∃ after, whenReady entry (runPeerReceiveFrame thread) ⟨relay, io⟩ = .ok after ∧
        after.io.Sound ∧ after.io.wire = io.wire ∧
        after.io.queued = forwarded (received entry) relay) ∨
      entry = some .failed ∧
        whenReady entry (runPeerReceiveFrame thread) ⟨relay, io⟩ = .error .receiveFailed := by
  cases entry with
  | none =>
      left
      refine ⟨_, rfl, sound, rfl, ?_⟩
      apply List.eq_nil_of_length_eq_zero
      simpa using empty
  | some result =>
      cases result with
      | failed =>
          right
          exact ⟨rfl, rfl⟩
      | returned messages =>
          left
          exact runPeerReceiveFrame_returned thread relay sound empty messages

theorem timerEntry_result (worker : Worker Endpoint (Io Endpoint))
    (entry : Option (Syscall Unit)) :
    (∃ relay, whenReady entry (statisticsTick threads) worker = .ok ⟨relay, worker.io⟩) ∨
      entry = some .failed ∧
        whenReady entry (statisticsTick threads) worker = .error .timerFailed := by
  cases entry with
  | none =>
      left
      exact ⟨worker.relay, rfl⟩
  | some result =>
      cases result with
      | failed =>
          right
          exact ⟨rfl, rfl⟩
      | returned value =>
          left
          exact ⟨_, rfl⟩

/-- A call by which a frame receives has failed. -/
def Frame.ReceiveFails (frame : Frame Endpoint) : Prop :=
  frame.client = some .failed ∨ frame.peer = some .failed ∨ frame.timer = some .failed

/-- A frame up to its loop which sends. -/
def receiveAll (worker : Worker Endpoint (Io Endpoint)) (frame : Frame Endpoint) :
    Except Stop (Worker Endpoint (Io Endpoint)) := do
  let worker : Worker Endpoint (Io Endpoint) := { worker with io := worker.io.beginFrame }
  let worker ← whenReady frame.client (runClientReceiveFrame thread) worker
  let worker ← whenReady frame.peer (runPeerReceiveFrame thread) worker
  whenReady frame.timer (statisticsTick threads) worker

theorem step_eq_receiveAll (worker : Worker Endpoint (Io Endpoint)) (frame : Frame Endpoint) :
    step thread threads worker frame = (do
      let worker ← receiveAll thread threads worker frame
      let io ← worker.io.runClientSendFrame frame.sends
      return { worker with io }) := by
  simp only [step, receiveAll, bind_assoc]

theorem step_of_receiveAll {worker before : Worker Endpoint (Io Endpoint)}
    {frame : Frame Endpoint} (received : receiveAll thread threads worker frame = .ok before) :
    step thread threads worker frame =
      match before.io.runClientSendFrame frame.sends with
      | .error reason => .error reason
      | .ok after => .ok ⟨before.relay, after⟩ := by
  simp only [step_eq_receiveAll, received, bind, Except.bind]
  cases before.io.runClientSendFrame frame.sends <;> rfl

theorem step_of_receiveAll_error {worker : Worker Endpoint (Io Endpoint)}
    {frame : Frame Endpoint} {stop : Stop}
    (failed : receiveAll thread threads worker frame = .error stop) :
    step thread threads worker frame = .error stop := by
  simp only [step_eq_receiveAll, failed, bind, Except.bind]

/-- A frame comes to the loop which sends, with what the relay forwards in the queue. -/
theorem receiveAll_cases {worker : Worker Endpoint (Io Endpoint)} (sound : worker.io.Sound)
    (frame : Frame Endpoint) :
    (∃ before, receiveAll thread threads worker frame = .ok before ∧ before.io.Sound ∧
        before.io.wire = worker.io.wire ∧
        before.io.queued = frame.forwarded thread worker.relay) ∨
      frame.ReceiveFails ∧
        ∃ stop, receiveAll thread threads worker frame = .error stop ∧ ¬stop.IsFault := by
  have begun : worker.io.beginFrame.Sound := ⟨sound.peersRx, sound.clientsRx, sound.clientsTx⟩
  rcases clientEntry_result thread worker.relay begun frame.client with
    ⟨io, clientRan, clientSound, clientWire, clientEmpty⟩ | ⟨entry, failed⟩
  · rcases peerEntry_result thread (clientBatch thread (received frame.client) worker.relay)
      clientSound clientEmpty frame.peer with
      ⟨after, peerRan, peerSound, peerWire, peerQueued⟩ | ⟨entry, failed⟩
    · rcases timerEntry_result threads after frame.timer with
        ⟨relay, timerRan⟩ | ⟨entry, failed⟩
      · left
        refine ⟨⟨relay, after.io⟩, ?_, peerSound, peerWire.trans clientWire, peerQueued⟩
        simp only [receiveAll, bind, Except.bind, clientRan, peerRan, timerRan]
      · right
        refine ⟨Or.inr (Or.inr entry), .timerFailed, ?_, id⟩
        simp only [receiveAll, bind, Except.bind, clientRan, peerRan, failed]
    · right
      refine ⟨Or.inr (Or.inl entry), .receiveFailed, ?_, id⟩
      simp only [receiveAll, bind, Except.bind, clientRan, failed]
  · right
    refine ⟨Or.inl entry, .receiveFailed, ?_, id⟩
    simp only [receiveAll, bind, Except.bind, failed]

/-- A frame hands over what the relay forwards, or ends the worker without a fault. -/
theorem step_result {worker : Worker Endpoint (Io Endpoint)} (sound : worker.io.Sound)
    (frame : Frame Endpoint) :
    (∃ after, step thread threads worker frame = .ok after ∧ after.io.Sound ∧
        after.io.wire = worker.io.wire ++ frame.forwarded thread worker.relay) ∨
      ∃ stop, step thread threads worker frame = .error stop ∧ ¬stop.IsFault := by
  rcases receiveAll_cases thread threads sound frame with
    ⟨before, received, ioSound, wire_eq, queued_eq⟩ | ⟨-, stop, failed, harmless⟩
  · have step_eq := step_of_receiveAll thread threads received
    rcases before.io.runClientSendFrame_result frame.sends with sent | failed | waits
    · left
      refine ⟨⟨before.relay, before.io.handOver before.io.queued⟩, by rw [step_eq, sent], ?_, ?_⟩
      · exact ⟨ioSound.peersRx, ioSound.clientsRx, ioSound.clientsTx⟩
      · rw [Io.handOver, wire_eq, queued_eq]
    · right
      exact ⟨.sendFailed, by rw [step_eq, failed], id⟩
    · right
      exact ⟨.unfinished, by rw [step_eq, waits], id⟩
  · right
    exact ⟨stop, step_of_receiveAll_error thread threads failed, harmless⟩

/-- A frame ends if no call fails for good and `sendmmsg` takes something often enough. -/
theorem step_ends {worker : Worker Endpoint (Io Endpoint)} (sound : worker.io.Sound)
    {frame : Frame Endpoint} (receives : ¬frame.ReceiveFails)
    (noError : SendResult.failed .other ∉ frame.sends)
    (enough : (frame.forwarded thread worker.relay).length ≤
      frame.sends.countP SendResult.takes) :
    ∃ after, step thread threads worker frame = .ok after := by
  rcases receiveAll_cases thread threads sound frame with
    ⟨before, received, -, -, queued_eq⟩ | ⟨failed, -⟩
  · have length_eq : before.io.clientsIo.txLength =
        (frame.forwarded thread worker.relay).length := by
      rw [← queued_eq, Io.queued_length]
    have whole : 0 + before.io.clientsIo.txLength = before.io.clientsIo.txLength :=
      Nat.zero_add _
    rcases Io.sendLoop_ends whole noError (length_eq ▸ enough) with ⟨after, sent⟩
    have ends : before.io.runClientSendFrame frame.sends = .ok after := sent
    refine ⟨⟨before.relay, after⟩, ?_⟩
    rw [step_of_receiveAll thread threads received, ends]
  · exact absurd failed receives

end Frames

section Runs

variable [Inhabited Endpoint] (thread : UInt16) (threads : List UInt16)
  (relay : State UInt16 Endpoint) (frames : List (Frame Endpoint))

theorem run_sound {worker : Worker Endpoint (Io Endpoint)}
    (ran : run thread threads relay frames = .ok worker) : worker.io.Sound := by
  refine execute_invariant (fun _ worker => worker.io.Sound) Io.ioWorkerInit_sound ?_ ran
  intro events before frame after _ sound processed
  rcases step_result thread threads sound frame with
    ⟨next, result, sound', -⟩ | ⟨stop, result, -⟩
  · simp only [result, Except.ok.injEq] at processed
    exact processed ▸ sound'
  · rw [result] at processed
    contradiction

/-- A run has no access outside the arrays and no call outside the queue, and every
frame which ends has handed over, in order, one datagram for each message that the relay
forwards: the bytes received, to the endpoint of the session. -/
theorem frame_integrity :
    (∀ stop, run thread threads relay frames = .error stop → ¬stop.IsFault) ∧
      ∀ worker, run thread threads relay frames = .ok worker →
        ∀ frame after, step thread threads worker frame = .ok after →
          after.io.wire = worker.io.wire ++ frame.forwarded thread worker.relay := by
  constructor
  · intro stop failed
    rcases execute_error_iff.mp failed with ⟨before, frame, rest, worker, rfl, ran, last⟩
    have sound := run_sound thread threads relay before ran
    rcases step_result thread threads sound frame with
      ⟨after, result, -⟩ | ⟨reason, result, harmless⟩
    · rw [result] at last
      contradiction
    · rw [result, Except.error.injEq] at last
      exact last ▸ harmless
  · intro worker ran frame after processed
    have sound := run_sound thread threads relay frames ran
    rcases step_result thread threads sound frame with
      ⟨next, result, -, wire_eq⟩ | ⟨stop, result, -⟩
    · simp only [result, Except.ok.injEq] at processed
      exact processed ▸ wire_eq
    · rw [result] at processed
      contradiction

/-- A client registers. -/
def registration : Frame ℕ :=
  ⟨some (.returned [⟨[], 7, [1, 0, 0, 0, 0, 0, 0, 0]⟩]), none, none, []⟩

/-- A second client registers, and two of three datagrams from the peer are forwarded,
one to each client. -/
def echo : Frame ℕ :=
  ⟨some (.returned [⟨[], 8, [2, 0, 0, 0, 0, 0, 0, 0]⟩]),
    some (.returned [⟨[], 9, [1, 0, 0, 0, 0, 0, 0, 0, 42]⟩, ⟨[], 9, [3, 0, 0, 0, 0, 0, 0, 0]⟩,
      ⟨[], 9, [2, 0, 0, 0, 0, 0, 0, 0, 43]⟩]),
    none, [.failed .eintr, .sent 1, .failed .ewouldblock, .sent 1]⟩

theorem frame_integrity_of_echo :
    ∃ worker after, run 0 [0] State.initial [registration] = .ok worker ∧
      step 0 [0] worker echo = .ok after ∧
      after.io.wire = [(7, [1, 0, 0, 0, 0, 0, 0, 0, 42]), (8, [2, 0, 0, 0, 0, 0, 0, 0, 43])] ∧
      after.io.wire = worker.io.wire ++ echo.forwarded 0 worker.relay := by
  have succeeds : succeedsWith (run 0 [0] State.initial ([registration] ++ [echo]))
      (fun worker => worker.io.wire =
        [(7, [1, 0, 0, 0, 0, 0, 0, 0, 42]), (8, [2, 0, 0, 0, 0, 0, 0, 0, 43])]) = true := by
    decide +kernel
  rcases exists_of_succeedsWith succeeds with ⟨after, ran, test⟩
  rcases execute_snoc.mp ran with ⟨worker, ranBefore, processed⟩
  have integrity := frame_integrity 0 [0] State.initial [registration]
  exact ⟨worker, after, ranBefore, processed, of_decide_eq_true test,
    integrity.2 worker ranBefore echo after processed⟩

end Runs

end Urn.Mmsg
