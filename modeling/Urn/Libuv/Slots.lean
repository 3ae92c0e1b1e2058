import Urn.Libuv.Ownership

/-!
# The slots of a buffer

`start_send` takes `ref_count` for the index of the next free slot, and the
completion of a send takes it for the number of sends outstanding.  Both are right
as long as libuv delivers a frame without completing sends in between, and
delivers no more datagrams from one buffer than the buffer has room for
(`Frame.Fits`).  Then `start_send` always finds a slot, and the slot, the packet
and the bytes it points to stay as they are until the send completes.
-/

namespace Urn.Libuv

open Relay Execution

variable {Endpoint : Type}

/-- A buffer is divided into chunks of 64 KiB, which hold a datagram each, or holds
a single datagram. -/
def Frame.Fits (haveMmsg : Bool) : Frame Endpoint → Prop
  | .nothing => True
  | .single arrival => arrival.datagram.length ≤ dataSize haveMmsg
  | .chunks arrivals =>
      haveMmsg = true ∧ arrivals.length * chunkSize ≤ dataSize haveMmsg ∧
        ∀ arrival ∈ arrivals, arrival.datagram.length ≤ chunkSize
  | .failed => True

/-- libuv receives no more into a buffer than fits. -/
def Event.Fits (haveMmsg : Bool) : Event Endpoint → Prop
  | .receive _ frame => frame.Fits haveMmsg
  | .deliver => True
  | .complete _ _ => True
  | .otherRegisters _ _ => True

/-- The datagrams still to be delivered are in their places, and there is a slot for
each of them. -/
structure Io.Loaded (haveMmsg : Bool) (io : Io Endpoint) (delivery : Delivery Endpoint) : Prop where
  room : references io.inFlight delivery.buf + delivery.arrivals.length ≤ chunksSize haveMmsg
  stored : ∀ arrival ∈ delivery.arrivals,
    (io.bufs delivery.buf).data.load arrival.1 arrival.2.datagram.length = arrival.2.datagram

section Deliveries

variable {delivery rest : Delivery Endpoint} {offset : ℕ} {arrival : Arrival Endpoint}

theorem Delivery.arrivals_of_rest (rest_eq : delivery.rest = some rest) :
    ∃ next, delivery.next = some next ∧ delivery.arrivals = next :: rest.arrivals := by
  rcases delivery with ⟨handle, buf, chunks, last⟩
  cases chunks with
  | nil => contradiction
  | cons chunk chunks =>
      rw [Delivery.rest, Option.some.injEq] at rest_eq
      subst rest_eq
      exact ⟨chunk, rfl, rfl⟩

theorem Delivery.next_mem (next : delivery.next = some (offset, arrival)) :
    (offset, arrival) ∈ delivery.arrivals := by
  rcases delivery with ⟨handle, buf, chunks, last⟩
  cases chunks with
  | nil =>
      rw [Delivery.next, Option.map_eq_some_iff] at next
      rcases next with ⟨only, rfl, pair_eq⟩
      rw [← pair_eq]
      exact List.mem_cons_self
  | cons chunk chunks =>
      rw [Delivery.next, Option.some.injEq] at next
      rw [← next]
      exact List.mem_cons_self

theorem chunkOffsets_apart {arrivals : List (Arrival Endpoint)}
    (short : ∀ arrival ∈ arrivals, arrival.datagram.length ≤ chunkSize) :
    ((chunkOffsets arrivals).map fun arrival => (arrival.1, arrival.2.datagram)).Pairwise
      Memory.Apart := by
  apply List.pairwise_iff_getElem.mpr
  intro left right leftInRange rightInRange less
  simp only [chunkOffsets, List.getElem_map, List.getElem_mapIdx]
  have inArrivals : left < arrivals.length := by simpa [chunkOffsets] using leftInRange
  have bound := short arrivals[left] (List.getElem_mem inArrivals)
  have next : (left + 1) * chunkSize ≤ right * chunkSize := Nat.mul_le_mul_right _ less
  left
  rw [Nat.add_mul, Nat.one_mul] at next
  exact (Nat.add_le_add_left bound _).trans next

/-- The datagrams of a frame that fits have a slot each, and do not overlap. -/
theorem Delivery.of_fits {haveMmsg : Bool} {handle : Handle} {b : BufPtr}
    {frame : Frame Endpoint} (fits : frame.Fits haveMmsg)
    (delivered : Delivery.ofFrame handle b frame = some delivery) :
    delivery.arrivals.length ≤ chunksSize haveMmsg ∧
      delivery.datagrams.Pairwise Memory.Apart := by
  cases frame with
  | failed => contradiction
  | nothing =>
      rw [Delivery.ofFrame, Option.some.injEq] at delivered
      subst delivered
      exact ⟨Nat.zero_le _, List.Pairwise.nil⟩
  | single arrival =>
      rw [Delivery.ofFrame, Option.some.injEq] at delivered
      subst delivered
      refine ⟨?_, List.pairwise_singleton _ _⟩
      have one : 1 ≤ chunksSize haveMmsg := by cases haveMmsg <;> decide
      exact one
  | chunks arrivals =>
      rw [Delivery.ofFrame, Option.some.injEq] at delivered
      subst delivered
      rcases fits with ⟨rfl, few, short⟩
      constructor
      · simp only [dataSize, chunkSize, if_true] at few
        simp only [Delivery.arrivals, chunkOffsets, Option.toList_none, List.map_nil,
          List.append_nil, List.length_mapIdx, chunksSize, if_true]
        omega
      · simpa [Delivery.datagrams, Delivery.arrivals] using chunkOffsets_apart short

end Deliveries

section Loading

variable {haveMmsg : Bool} {thread : UInt16} {world after : World Endpoint}
  {delivery : Delivery Endpoint}

theorem Io.Loaded.read {io : Io Endpoint} (loaded : io.Loaded haveMmsg delivery) {offset : ℕ}
    {arrival : Arrival Endpoint} (next : delivery.next = some (offset, arrival)) :
    io.read (arrival.packet delivery.buf offset) = arrival.datagram :=
  loaded.stored _ (Delivery.next_mem next)

theorem loaded_of_receive {handle : Handle} {frame : Frame Endpoint}
    (sound : world.Sound haveMmsg) (between : world.frame = none) (fits : frame.Fits haveMmsg)
    (received : receive handle frame world = .ok after)
    (inFrame : after.frame = some delivery) : after.io.Loaded haveMmsg delivery := by
  rcases sound.consistent with ⟨pooled, consistent⟩
  rw [between] at consistent
  rcases consistent.alloc with ⟨pooled', allocated, lastAlloc, unreferenced, inFlight, created⟩
  cases delivered : Delivery.ofFrame handle world.io.alloc.1 frame with
  | none => simp [Libuv.receive, delivered] at received
  | some other =>
      simp only [Libuv.receive, delivered, Except.ok.injEq] at received
      subst received
      rw [Option.some.injEq] at inFrame
      subst inFrame
      have buf := (Delivery.ofFrame_eq_some delivered).2
      rcases Delivery.of_fits fits delivered with ⟨few, apart⟩
      constructor
      · have nothing : references world.io.alloc.2.inFlight other.buf = 0 := by
          rw [inFlight, buf]
          exact unreferenced
        change references world.io.alloc.2.inFlight other.buf + other.arrivals.length ≤ _
        omega
      · intro arrival arrival_mem
        have datagram_mem : (arrival.1, arrival.2.datagram) ∈ other.datagrams :=
          List.mem_map_of_mem arrival_mem
        simp only [Io.fill, Io.setBuf, buf, Function.update_self]
        exact Memory.load_storeAll apart datagram_mem

theorem loaded_of_deliver {rest : Delivery Endpoint} (sound : world.Sound haveMmsg)
    (inFrame : world.frame = some delivery) (loaded : world.io.Loaded haveMmsg delivery)
    (delivered : deliver haveMmsg thread delivery world = .ok after)
    (goesOn : after.frame = some rest) : after.io.Loaded haveMmsg rest := by
  have filling := sound.filling delivery inFrame
  have refCount := sound.refCount inFrame
  cases forwarded : delivery.forward world.toWorker with
  | none =>
      have unused (ofClient : delivery.handle = .client) :
          (world.io.bufs delivery.buf).refCount = 0 :=
        refCount.trans (sound.client delivery inFrame ofClient)
      rcases deliver_of_none haveMmsg thread filling.lastAlloc unused forwarded with ⟨relay, result⟩
      simp only [result, Except.ok.injEq] at delivered
      subst delivered
      have rest_eq : delivery.rest = some rest := goesOn
      rcases Delivery.arrivals_of_rest rest_eq with ⟨next, next_eq, arrivals⟩
      have room := loaded.room
      have stored := loaded.stored
      rw [arrivals] at room stored
      have buf := (Delivery.rest_eq_some rest_eq).2
      simp only [Delivery.settle, rest_eq]
      constructor
      · rw [buf]
        rw [List.length_cons] at room
        omega
      · intro arrival arrival_mem
        rw [buf]
        exact stored arrival (List.mem_cons_of_mem _ arrival_mem)
  | some target =>
      rcases deliver_of_some haveMmsg thread filling.lastAlloc forwarded with ⟨whenFull, whenFree⟩
      have free : (world.io.bufs delivery.buf).refCount ≠ chunksSize haveMmsg := by
        intro full
        rw [whenFull full] at delivered
        contradiction
      rcases whenFree free with ⟨relay, result⟩
      simp only [result, Except.ok.injEq] at delivered
      subst delivered
      have rest_eq : delivery.rest = some rest := goesOn
      rcases Delivery.arrivals_of_rest rest_eq with ⟨next, next_eq, arrivals⟩
      have room := loaded.room
      have stored := loaded.stored
      rw [arrivals] at room stored
      have buf := (Delivery.rest_eq_some rest_eq).2
      constructor
      · rw [buf, references_fillSlot, if_pos rfl]
        rw [List.length_cons] at room
        omega
      · intro arrival arrival_mem
        rw [buf]
        simpa [Io.fillSlot, Io.setBuf] using
          stored arrival (List.mem_cons_of_mem _ arrival_mem)

theorem free_of_forward (sound : world.Sound haveMmsg) (inFrame : world.frame = some delivery)
    (loaded : world.io.Loaded haveMmsg delivery) {target : Forward Endpoint}
    (forwarded : delivery.forward world.toWorker = some target) :
    (world.io.bufs delivery.buf).refCount < chunksSize haveMmsg := by
  cases next_eq : delivery.next with
  | none => simp [Delivery.forward, next_eq] at forwarded
  | some next =>
      have nonempty := List.length_pos_of_mem (Delivery.next_mem next_eq)
      have room := loaded.room
      have refCount := sound.refCount inFrame
      omega

theorem step_error {event : Event Endpoint} {reason : Abort}
    (sound : world.Sound haveMmsg)
    (loaded : ∀ delivery, world.frame = some delivery → world.io.Loaded haveMmsg delivery)
    (failed : step haveMmsg thread world event = .error reason) :
    reason = .receiveFailed ∨ reason = .sendFailed := by
  cases frame_eq : world.frame with
  | none =>
      cases event with
      | receive handle frame =>
          left
          simp only [Libuv.step, frame_eq, Libuv.receive] at failed
          split at failed
          · exact (Except.error.inj failed).symm
          · contradiction
      | deliver => simp [Libuv.step, frame_eq] at failed
      | complete index status =>
          right
          simp only [Libuv.step, frame_eq] at failed
          cases inFlight : world.io.inFlight[index]? with
          | none => simp [Libuv.complete, inFlight] at failed
          | some request =>
              by_cases negative : status < 0
              · simp only [Libuv.complete, inFlight, if_pos negative] at failed
                exact (Except.error.inj failed).symm
              · rcases sound.complete_eq inFlight (not_lt.mp negative) with ⟨relay, result⟩
                rw [result] at failed
                contradiction
      | otherRegisters id src => simp [Libuv.step] at failed
  | some delivery =>
      cases event with
      | receive handle frame => simp [Libuv.step, frame_eq] at failed
      | deliver =>
          simp only [Libuv.step, frame_eq] at failed
          have filling := sound.filling delivery frame_eq
          cases forwarded : delivery.forward world.toWorker with
          | none =>
              have unused (ofClient : delivery.handle = .client) :
                  (world.io.bufs delivery.buf).refCount = 0 :=
                (sound.refCount frame_eq).trans (sound.client delivery frame_eq ofClient)
              rcases deliver_of_none haveMmsg thread filling.lastAlloc unused forwarded with
                ⟨relay, result⟩
              rw [result] at failed
              contradiction
          | some target =>
              have free := free_of_forward sound frame_eq (loaded delivery frame_eq) forwarded
              rcases (deliver_of_some haveMmsg thread filling.lastAlloc forwarded).2 free.ne with
                ⟨relay, result⟩
              rw [result] at failed
              contradiction
      | complete index status => simp [Libuv.step, frame_eq] at failed
      | otherRegisters id src => simp [Libuv.step] at failed

theorem loaded_of_step {event : Event Endpoint} (sound : world.Sound haveMmsg)
    (loaded : ∀ delivery, world.frame = some delivery → world.io.Loaded haveMmsg delivery)
    (fits : event.Fits haveMmsg) (processed : step haveMmsg thread world event = .ok after) :
    ∀ delivery, after.frame = some delivery → after.io.Loaded haveMmsg delivery := by
  intro delivery inFrame
  have unchanged (same : Except.ok world = (Except.ok after : Except Abort (World Endpoint))) :
      after.io.Loaded haveMmsg delivery := by
    simp only [Except.ok.injEq] at same
    subst same
    exact loaded delivery inFrame
  cases event with
  | receive handle frame =>
      cases frame_eq : world.frame with
      | none =>
          exact loaded_of_receive sound frame_eq fits
            (by simpa [Libuv.step, frame_eq] using processed) inFrame
      | some other => exact unchanged (by simpa [Libuv.step, frame_eq] using processed)
  | deliver =>
      cases frame_eq : world.frame with
      | none => exact unchanged (by simpa [Libuv.step, frame_eq] using processed)
      | some other =>
          exact loaded_of_deliver sound frame_eq (loaded other frame_eq)
            (by simpa [Libuv.step, frame_eq] using processed) inFrame
  | complete index status =>
      cases frame_eq : world.frame with
      | none =>
          cases inFlight : world.io.inFlight[index]? with
          | none =>
              exact unchanged (by simpa [Libuv.step, frame_eq, complete, inFlight] using processed)
          | some request =>
              by_cases negative : status < 0
              · simp [Libuv.step, frame_eq, complete, inFlight, negative] at processed
              · rcases sound.complete_eq inFlight (not_lt.mp negative) with ⟨relay, result⟩
                simp only [Libuv.step, frame_eq] at processed
                rw [result, Except.ok.injEq] at processed
                subst processed
                contradiction
      | some other => exact unchanged (by simpa [Libuv.step, frame_eq] using processed)
  | otherRegisters id src =>
      simp only [Libuv.step, Except.ok.injEq] at processed
      subst processed
      exact loaded delivery inFrame

end Loading

section Integrity

variable {haveMmsg : Bool} {thread : UInt16} {relay : State UInt16 Endpoint}
  {events : List (Event Endpoint)} {world : World Endpoint}

theorem loaded_of_execute (fits : ∀ event ∈ events, event.Fits haveMmsg)
    (ran : execute (step haveMmsg thread) (World.initial relay) events = .ok world) :
    ∀ delivery, world.frame = some delivery → world.io.Loaded haveMmsg delivery := by
  refine execute_invariant (fun events (world : World Endpoint) =>
      (∀ event ∈ events, event.Fits haveMmsg) →
        ∀ delivery, world.frame = some delivery → world.io.Loaded haveMmsg delivery)
    ?_ ?_ ran fits
  · intro _ delivery inFrame
    contradiction
  · intro events world event after ranBefore loaded processed fits
    have sound := sound_of_execute ranBefore
    apply loaded_of_step sound _ (fits event (by simp)) processed
    exact loaded fun earlier earlier_mem => fits earlier (List.mem_append_left _ earlier_mem)

/-- The slots in use are left alone, and there is one for every datagram. -/
structure SlotIntegrity (haveMmsg : Bool) (thread : UInt16) (world : World Endpoint) : Prop where
  free : ∀ delivery target, world.frame = some delivery →
    delivery.forward world.toWorker = some target →
    world.io.ioBufs.lastAlloc = some delivery.buf ∧
    (world.io.bufs delivery.buf).refCount < chunksSize haveMmsg ∧
    ∀ request ∈ world.io.inFlight,
      ¬(request.buf = delivery.buf ∧ request.slot = (world.io.bufs delivery.buf).refCount)
  /-- A datagram of a session is sent as it was received, and no other datagram is. -/
  delivered : ∀ delivery offset arrival after, world.frame = some delivery →
    delivery.handle = .peer → delivery.next = some (offset, arrival) →
    step haveMmsg thread world .deliver = .ok after →
    after.io.inFlight = world.io.inFlight ++
      ((world.relay.route arrival.datagram).map fun target =>
        ⟨delivery.buf, (world.io.bufs delivery.buf).refCount, arrival.packet delivery.buf offset,
          target.2, target.1, arrival.datagram⟩).toList
  intact : ∀ request ∈ world.io.inFlight,
    (world.io.bufs request.buf).chunks request.slot =
      some ⟨request.buf, request.packet, request.session⟩ ∧
    world.io.read request.packet = request.payload
  completed : ∀ (index : ℕ) (status : ℤ) request, world.frame = none →
    world.io.inFlight[index]? = some request → 0 ≤ status →
    ∃ after, step haveMmsg thread world (.complete index status) = .ok after ∧
      after.io.inFlight = world.io.inFlight.eraseIdx index ∧
      after.io.reported = world.io.reported ++ [(request.session, request.packet)]
  once : world.io.started.Perm (world.io.reported ++
    world.io.inFlight.map fun request => (request.session, request.packet))

@[simp]
theorem inFlight_releaseUnused (io : Io Endpoint) (b : BufPtr) :
    (io.releaseUnused b).inFlight = io.inFlight := by
  rw [Io.releaseUnused]
  split <;> rfl

@[simp]
theorem reported_releaseUnused (io : Io Endpoint) (b : BufPtr) :
    (io.releaseUnused b).reported = io.reported := by
  rw [Io.releaseUnused]
  split <;> rfl

theorem inFlight_settle (delivery : Delivery Endpoint) (io : Io Endpoint) :
    (delivery.settle io).inFlight = io.inFlight := by
  rw [Delivery.settle]
  split
  · rfl
  · exact inFlight_releaseUnused _ _

theorem inFlight_of_deliver {delivery : Delivery Endpoint} {offset : ℕ}
    {arrival : Arrival Endpoint} {after : World Endpoint} (sound : world.Sound haveMmsg)
    (inFrame : world.frame = some delivery) (loaded : world.io.Loaded haveMmsg delivery)
    (ofPeer : delivery.handle = .peer) (next : delivery.next = some (offset, arrival))
    (delivered : deliver haveMmsg thread delivery world = .ok after) :
    after.io.inFlight = world.io.inFlight ++
      ((world.relay.route arrival.datagram).map fun target =>
        ⟨delivery.buf, (world.io.bufs delivery.buf).refCount, arrival.packet delivery.buf offset,
          target.2, target.1, arrival.datagram⟩).toList := by
  have filling := sound.filling delivery inFrame
  have read := loaded.read next
  have forward_eq : delivery.forward world.toWorker =
      (world.relay.route arrival.datagram).map fun target =>
        ⟨target.1, target.2, arrival.packet delivery.buf offset⟩ := by
    simp only [Delivery.forward, ofPeer, next, read]
  cases routed : world.relay.route arrival.datagram with
  | none =>
      rw [routed, Option.map_none] at forward_eq
      rcases deliver_of_none haveMmsg thread filling.lastAlloc (by simp [ofPeer]) forward_eq with
        ⟨relay, result⟩
      simp only [result, Except.ok.injEq] at delivered
      subst delivered
      simpa using inFlight_settle delivery world.io
  | some target =>
      rw [routed, Option.map_some] at forward_eq
      have free := free_of_forward sound inFrame loaded forward_eq
      rcases (deliver_of_some haveMmsg thread filling.lastAlloc forward_eq).2 free.ne with
        ⟨relay, result⟩
      simp only [result, Except.ok.injEq] at delivered
      subst delivered
      simp [Io.fillSlot, read]

/-- If libuv receives no more into a buffer than fits, `start_send` never runs out of
slots, and what it has put into a slot reaches `on_session_sent` unchanged. -/
theorem slot_integrity (fits : ∀ event ∈ events, event.Fits haveMmsg) :
    execute (step haveMmsg thread) (World.initial relay) events ≠ .error .noBufs ∧
    execute (step haveMmsg thread) (World.initial relay) events ≠ .error .invalidPointer ∧
    ∀ world, execute (step haveMmsg thread) (World.initial relay) events = .ok world →
      SlotIntegrity haveMmsg thread world := by
  have only_libuv (reason : Abort)
      (failed : execute (step haveMmsg thread) (World.initial relay) events = .error reason) :
      reason = .receiveFailed ∨ reason = .sendFailed := by
    rcases execute_error_iff.mp failed with ⟨before, event, after, world, rfl, ran, last⟩
    have loaded := loaded_of_execute
      (fun earlier earlier_mem => fits earlier (List.mem_append_left _ earlier_mem)) ran
    exact step_error (sound_of_execute ran) loaded last
  refine ⟨?_, ?_, ?_⟩
  · intro failed
    simpa using only_libuv _ failed
  · intro failed
    simpa using only_libuv _ failed
  · intro world ran
    have sound := sound_of_execute ran
    have loaded := loaded_of_execute fits ran
    rcases sound.consistent with ⟨pooled, consistent⟩
    refine ⟨?_, ?_, ?_, ?_, consistent.calls⟩
    · intro delivery target inFrame forwarded
      have filling := sound.filling delivery inFrame
      have free := free_of_forward sound inFrame (loaded delivery inFrame) forwarded
      refine ⟨filling.lastAlloc, free, ?_⟩
      rintro request request_mem ⟨same, slot⟩
      have behind := filling.behind request request_mem same
      omega
    · intro delivery offset arrival after inFrame ofPeer next processed
      simp only [step, inFrame] at processed
      exact inFlight_of_deliver sound inFrame (loaded delivery inFrame) ofPeer next processed
    · intro request request_mem
      have intact := consistent.intact request request_mem
      exact ⟨intact.chunk, intact.payload⟩
    · intro index status request between inFlight succeeded
      have completes : ∃ relay, complete haveMmsg thread index status world = _ :=
        sound.complete_eq inFlight succeeded
      rcases completes with ⟨relay, result⟩
      refine ⟨_, by simpa only [step, between] using result, ?_, ?_⟩
      · rw [inFlight_releaseUnused]
        rfl
      · rw [reported_releaseUnused]
        rfl

theorem slot_integrity_of_twoChunks :
    execute (step true 0) (World.initial .initial) twoChunks ≠ .error .noBufs ∧
    ∃ world : World ℕ, execute (step true 0) (World.initial .initial) twoChunks = .ok world ∧
      SlotIntegrity true 0 world := by
  have fits : ∀ event ∈ twoChunks, event.Fits true := by
    simp [twoChunks, Event.Fits, Frame.Fits, chunkSize, dataSize]
  have ended : succeedsWith (execute (step true 0) (World.initial .initial) twoChunks)
      (fun _ => true) = true := by
    decide +kernel
  rcases exists_of_succeedsWith ended with ⟨world, ran, -⟩
  exact ⟨(slot_integrity fits).1, world, ran, (slot_integrity fits).2.2 world ran⟩

end Integrity

end Urn.Libuv
