import Urn.Libuv.Basic

/-!
# The steps of a libuv thread

What one receive callback and one completion do to the buffers.  A receive
callback either forwards its datagram, which takes a slot of the buffer, or
leaves the buffers alone.  After the last callback of a frame the buffer is
released unless a send refers to it.
-/

namespace Urn.Libuv

open Relay

variable {Endpoint : Type}

/-- What `start_send` is called with. -/
structure Forward (Endpoint : Type) where
  session : SessionPtr
  endpoint : Endpoint
  packet : Packet

namespace Delivery

/-- The datagram of the next callback, with its offset. -/
def next (delivery : Delivery Endpoint) : Option (ℕ × Arrival Endpoint) :=
  match delivery.chunks with
  | chunk :: _ => some chunk
  | [] => delivery.last.map fun arrival => (0, arrival)

/-- What is left of the frame after the next callback. -/
def rest (delivery : Delivery Endpoint) : Option (Delivery Endpoint) :=
  match delivery.chunks with
  | _ :: chunks => some { delivery with chunks }
  | [] => none

/-- The call of `start_send` which the next callback leads to. -/
def forward (delivery : Delivery Endpoint) (worker : Worker Endpoint (Io Endpoint)) :
    Option (Forward Endpoint) :=
  match delivery.handle, delivery.next with
  | .peer, some (offset, arrival) =>
      (worker.relay.route (worker.io.read (arrival.packet delivery.buf offset))).map fun target =>
        ⟨target.1, target.2, arrival.packet delivery.buf offset⟩
  | _, _ => none

/-- The end of the frame, if the next callback is the last one. -/
def settle (delivery : Delivery Endpoint) (io : Io Endpoint) : Io Endpoint :=
  match delivery.rest with
  | some _ => io
  | none => io.releaseUnused delivery.buf

theorem forward_packet {delivery : Delivery Endpoint} {worker : Worker Endpoint (Io Endpoint)}
    {target : Forward Endpoint} (forwarded : delivery.forward worker = some target) :
    delivery.handle = .peer ∧ target.packet.buf = delivery.buf := by
  unfold forward at forwarded
  split at forwarded
  · rcases Option.map_eq_some_iff.mp forwarded with ⟨route, -, rfl⟩
    exact ⟨‹_›, rfl⟩
  · contradiction

end Delivery

theorem Io.releaseUnused_of_ne {io : Io Endpoint} {b : BufPtr}
    (used : (io.bufs b).refCount ≠ 0) : io.releaseUnused b = io :=
  if_neg used

theorem Io.releaseUnused_of_eq {io : Io Endpoint} {b : BufPtr}
    (unused : (io.bufs b).refCount = 0) : io.releaseUnused b = io.release b :=
  if_pos unused

section Callbacks

variable (haveMmsg : Bool) (thread : UInt16) {buf : BufPtr} {offset : ℕ}
  {received : Option (Arrival Endpoint)} {worker : Worker Endpoint (Io Endpoint)}

theorem clientReceived_eq (buf : BufPtr) (offset : ℕ) (received : Option (Arrival Endpoint))
    (worker : Worker Endpoint (Io Endpoint)) :
    ∃ relay, clientReceived haveMmsg thread buf offset received worker =
      .ok ⟨relay, worker.io⟩ := by
  cases received with
  | none => exact ⟨worker.relay, rfl⟩
  | some arrival =>
      rw [clientReceived]
      split
      · rw [Backend.runOnClientReceived_eq]
        refine ⟨_, congrArg Except.ok (congrArg (Worker.mk _) ?_)⟩
        exact ite_self worker.io
      · exact ⟨worker.relay, rfl⟩

theorem peerReceived_of_none
    (unrouted : ∀ arrival, received = some arrival →
      worker.relay.route (worker.io.read (arrival.packet buf offset)) = none) :
    ∃ relay, peerReceived haveMmsg thread buf offset received worker =
      .ok (false, ⟨relay, worker.io⟩) := by
  cases received with
  | none => exact ⟨worker.relay, rfl⟩
  | some arrival =>
      rw [peerReceived]
      split
      · rw [Backend.runOnPeerReceived_of_none _ _ (unrouted arrival rfl)]
        exact ⟨_, rfl⟩
      · exact ⟨worker.relay, rfl⟩

theorem peerReceived_of_some {arrival : Arrival Endpoint} {session : SessionPtr}
    {endpoint : Endpoint} (current : worker.io.ioBufs.lastAlloc = some buf)
    (routed : worker.relay.route (worker.io.read (arrival.packet buf offset)) =
      some (session, endpoint)) :
    ((worker.io.bufs buf).refCount = chunksSize haveMmsg →
      peerReceived haveMmsg thread buf offset (some arrival) worker = .error .noBufs) ∧
    ((worker.io.bufs buf).refCount ≠ chunksSize haveMmsg →
      ∃ relay, peerReceived haveMmsg thread buf offset (some arrival) worker =
        .ok (true, ⟨relay, worker.io.fillSlot buf session endpoint
          (arrival.packet buf offset)⟩)) := by
  have nonempty : 0 < arrival.datagram.length := by
    have long := (State.route_eq_some.mp routed).1
    have length_eq : (worker.io.read (arrival.packet buf offset)).length =
        arrival.datagram.length := Memory.load_length _ _ _
    rw [length_eq] at long
    exact Nat.lt_of_lt_of_le (by decide) long
  have received_eq := Backend.runOnPeerReceived_of_some (backend Endpoint haveMmsg) thread routed
  rw [peerReceived, if_pos nonempty, received_eq]
  constructor
  · intro full
    simp [backend, Io.startSend, current, full]
  · intro free
    simp [backend, Io.startSend, current, free]

theorem clientCallback_eq (offset : ℕ) (received : Option (Arrival Endpoint)) (chunk : Bool)
    (current : worker.io.ioBufs.lastAlloc = some buf)
    (unused : (worker.io.bufs buf).refCount = 0) :
    ∃ relay, clientCallback haveMmsg thread buf offset received chunk worker =
      .ok ⟨relay, if chunk = true then worker.io else worker.io.releaseUnused buf⟩ := by
  rcases clientReceived_eq haveMmsg thread buf offset received worker with ⟨relay, handled⟩
  refine ⟨relay, ?_⟩
  rw [clientCallback, handled]
  cases chunk
  · simp [bind, Except.bind, current, Io.releaseUnused_of_eq unused, pure, Except.pure]
  · rfl

theorem peerCallback_of_none (chunk : Bool)
    (current : worker.io.ioBufs.lastAlloc = some buf)
    (unrouted : ∀ arrival, received = some arrival →
      worker.relay.route (worker.io.read (arrival.packet buf offset)) = none) :
    ∃ relay, peerCallback haveMmsg thread buf offset received chunk worker =
      .ok ⟨relay, if chunk = true then worker.io else worker.io.releaseUnused buf⟩ := by
  rcases peerReceived_of_none haveMmsg thread unrouted with ⟨relay, handled⟩
  refine ⟨relay, ?_⟩
  rw [peerCallback, handled]
  cases chunk
  · simp [bind, Except.bind, current, pure, Except.pure]
  · rfl

theorem peerCallback_of_some {arrival : Arrival Endpoint} {session : SessionPtr}
    {endpoint : Endpoint} (chunk : Bool) (current : worker.io.ioBufs.lastAlloc = some buf)
    (routed : worker.relay.route (worker.io.read (arrival.packet buf offset)) =
      some (session, endpoint)) :
    ((worker.io.bufs buf).refCount = chunksSize haveMmsg →
      peerCallback haveMmsg thread buf offset (some arrival) chunk worker = .error .noBufs) ∧
    ((worker.io.bufs buf).refCount ≠ chunksSize haveMmsg →
      ∃ relay, peerCallback haveMmsg thread buf offset (some arrival) chunk worker =
        .ok ⟨relay, worker.io.fillSlot buf session endpoint (arrival.packet buf offset)⟩) := by
  rcases peerReceived_of_some haveMmsg thread current routed with ⟨whenFull, whenFree⟩
  constructor
  · intro full
    rw [peerCallback, whenFull full]
    rfl
  · intro free
    rcases whenFree free with ⟨relay, handled⟩
    refine ⟨relay, ?_⟩
    rw [peerCallback, handled]
    rfl

theorem deliver_of_none {delivery : Delivery Endpoint} {world : World Endpoint}
    (current : world.io.ioBufs.lastAlloc = some delivery.buf)
    (unused : delivery.handle = .client → (world.io.bufs delivery.buf).refCount = 0)
    (unforwarded : delivery.forward world.toWorker = none) :
    ∃ relay, deliver haveMmsg thread delivery world =
      .ok ⟨⟨relay, delivery.settle world.io⟩, delivery.rest⟩ := by
  rcases delivery with ⟨handle, buf, chunks, last⟩
  cases handle with
  | client =>
      cases chunks with
      | nil =>
          rcases clientCallback_eq haveMmsg thread 0 last false current (unused rfl) with
            ⟨relay, called⟩
          refine ⟨relay, ?_⟩
          simp [deliver, callback, called, bind, Except.bind, pure, Except.pure, Delivery.settle,
            Delivery.rest]
      | cons chunk chunks =>
          rcases clientCallback_eq haveMmsg thread chunk.1 (some chunk.2) true current
            (unused rfl) with ⟨relay, called⟩
          refine ⟨relay, ?_⟩
          simp [deliver, callback, called, bind, Except.bind, pure, Except.pure, Delivery.settle,
            Delivery.rest]
  | peer =>
      cases chunks with
      | nil =>
          have unrouted : ∀ arrival, last = some arrival →
              world.relay.route (world.io.read (arrival.packet buf 0)) = none := by
            rintro arrival rfl
            simpa [Delivery.forward, Delivery.next] using unforwarded
          rcases peerCallback_of_none haveMmsg thread false current unrouted with ⟨relay, called⟩
          refine ⟨relay, ?_⟩
          simp [deliver, callback, called, bind, Except.bind, pure, Except.pure, Delivery.settle,
            Delivery.rest]
      | cons chunk chunks =>
          have unrouted : ∀ arrival, some chunk.2 = some arrival →
              world.relay.route (world.io.read (arrival.packet buf chunk.1)) = none := by
            rintro arrival arrival_eq
            rw [Option.some.injEq] at arrival_eq
            simpa [Delivery.forward, Delivery.next, ← arrival_eq] using unforwarded
          rcases peerCallback_of_none haveMmsg thread true current unrouted with ⟨relay, called⟩
          refine ⟨relay, ?_⟩
          simp [deliver, callback, called, bind, Except.bind, pure, Except.pure, Delivery.settle,
            Delivery.rest]

theorem deliver_of_some {delivery : Delivery Endpoint} {world : World Endpoint}
    {target : Forward Endpoint} (current : world.io.ioBufs.lastAlloc = some delivery.buf)
    (forwarded : delivery.forward world.toWorker = some target) :
    ((world.io.bufs delivery.buf).refCount = chunksSize haveMmsg →
      deliver haveMmsg thread delivery world = .error .noBufs) ∧
    ((world.io.bufs delivery.buf).refCount ≠ chunksSize haveMmsg →
      ∃ relay, deliver haveMmsg thread delivery world =
        .ok ⟨⟨relay, world.io.fillSlot delivery.buf target.session target.endpoint
          target.packet⟩, delivery.rest⟩) := by
  rcases delivery with ⟨handle, buf, chunks, last⟩
  have handle_eq : handle = .peer := (Delivery.forward_packet forwarded).1
  subst handle_eq
  cases chunks with
  | nil =>
      cases last with
      | none => simp [Delivery.forward, Delivery.next] at forwarded
      | some arrival =>
          simp only [Delivery.forward, Delivery.next, Option.map_some,
            Option.map_eq_some_iff] at forwarded
          rcases forwarded with ⟨route, routed, rfl⟩
          rcases peerCallback_of_some haveMmsg thread false current routed with
            ⟨whenFull, whenFree⟩
          constructor
          · intro full
            simp [deliver, callback, whenFull full, bind, Except.bind]
          · intro free
            rcases whenFree free with ⟨relay, called⟩
            refine ⟨relay, ?_⟩
            simp [deliver, callback, called, bind, Except.bind, pure, Except.pure, Delivery.rest]
  | cons chunk chunks =>
      simp only [Delivery.forward, Delivery.next, Option.map_eq_some_iff] at forwarded
      rcases forwarded with ⟨route, routed, rfl⟩
      rcases peerCallback_of_some haveMmsg thread true current routed with ⟨whenFull, whenFree⟩
      constructor
      · intro full
        simp [deliver, callback, whenFull full, bind, Except.bind]
      · intro free
        rcases whenFree free with ⟨relay, called⟩
        refine ⟨relay, ?_⟩
        simp [deliver, callback, called, bind, Except.bind, pure, Except.pure, Delivery.rest]

/-- A completion whose chunk is intact gives the slot back. -/
theorem complete_eq {world : World Endpoint} {index : ℕ} {status : ℤ}
    {request : Request Endpoint} {send : Send}
    (inFlight : world.io.inFlight[index]? = some request)
    (chunk_eq : (world.io.bufs request.buf).chunks request.slot = some send)
    (succeeded : 0 ≤ status) :
    ∃ relay, complete haveMmsg thread index status world =
      .ok ⟨⟨relay, (world.io.leaveSlot index send).releaseUnused send.requestData⟩, none⟩ := by
  simp only [complete, inFlight, sendCallback, chunk_eq, Backend.runOnSessionSent_eq]
  rw [if_neg (by omega)]
  exact ⟨_, rfl⟩

end Callbacks

end Urn.Libuv
