import Urn.Mmsg.Frame
import Urn.Uring.Egress
import Urn.Uring.Payload

/-!
# Truncated datagrams

The slots into which the mmsg and the io_uring back ends receive have 1024 bytes.
The kernel discards what does not fit and says so in `msg_flags`, which neither
back end looks at.  The session id is in the first bytes, so the beginning of a
longer datagram is still forwarded.

A `Capture` follows a worker and writes down, besides what the kernel takes from
it, the datagrams as their senders have sent them.  What is captured is always the
first 1024 bytes of the whole datagram.
-/

namespace Urn

open Relay Execution

variable {Endpoint : Type}

namespace Relay

/-- The beginning of a datagram, as far as it fits. -/
def clip (room : ℕ) (datagram : Endpoint × List UInt8) : Endpoint × List UInt8 :=
  (datagram.1, datagram.2.take room)

theorem clip_eq_self_iff {room : ℕ} {datagram : Endpoint × List UInt8} :
    clip room datagram = datagram ↔ datagram.2.length ≤ room := by
  simp [clip, Prod.ext_iff]

theorem map_clip_eq_self_iff {room : ℕ} {datagrams : List (Endpoint × List UInt8)} :
    datagrams.map (clip room) = datagrams ↔
      ∀ datagram ∈ datagrams, datagram.2.length ≤ room := by
  have compared : datagrams.map (clip room) = datagrams.map id ↔
      ∀ datagram ∈ datagrams, clip room datagram = id datagram := List.map_inj_left
  simpa [clip_eq_self_iff] using compared

/-- The session is found in the beginning of a datagram. -/
theorem State.route_take {room : ℕ} (fits : sessionIdSize ≤ room)
    (relay : State UInt16 Endpoint) (bytes : List UInt8) :
    relay.route (bytes.take room) = relay.route bytes := by
  have long : sessionIdSize ≤ (bytes.take room).length ↔ sessionIdSize ≤ bytes.length := by
    simp only [List.length_take]
    omega
  have id : getSessionId (bytes.take room) = getSessionId bytes := by
    simp only [getSessionId, List.take_take, Nat.min_eq_left fits]
  simp only [State.route, id, long]

end Relay

namespace Mmsg

/-- What a batch from the peer would be forwarded as, did every datagram fit. -/
def whole : List (Message Endpoint) → State UInt16 Endpoint → List (Endpoint × List UInt8)
  | [], _ => []
  | message :: batch, relay =>
      let registered := registerAll message.registrations relay
      ((registered.route message.datagram).map fun target =>
        (target.2, message.datagram)).toList ++ whole batch registered

def Frame.whole (thread : UInt16) (relay : State UInt16 Endpoint) (frame : Frame Endpoint) :
    List (Endpoint × List UInt8) :=
  Mmsg.whole (received frame.peer) (clientBatch thread (received frame.client) relay)

theorem forwarded_eq (batch : List (Message Endpoint)) (relay : State UInt16 Endpoint) :
    forwarded batch relay = (whole batch relay).map (clip memoryPerPacket) := by
  induction batch generalizing relay with
  | nil => rfl
  | cons message batch ih =>
      have fits : sessionIdSize ≤ memoryPerPacket := by decide
      have routed := State.route_take fits (registerAll message.registrations relay)
        message.datagram
      simp only [forwarded, whole, Message.bytes, routed, ih, List.map_append]
      cases (registerAll message.registrations relay).route message.datagram <;> rfl

/-- A worker, and the datagrams for its sessions as the peer has sent them. -/
structure Capture (Endpoint : Type) where
  worker : Worker Endpoint (Io Endpoint)
  whole : List (Endpoint × List UInt8)

section Capture

variable (thread : UInt16) (threads : List UInt16)

def Capture.step (capture : Capture Endpoint) (frame : Frame Endpoint) :
    Except Stop (Capture Endpoint) :=
  match Mmsg.step thread threads capture.worker frame with
  | .error reason => .error reason
  | .ok worker => .ok ⟨worker, capture.whole ++ frame.whole thread capture.worker.relay⟩

def Capture.begin [Inhabited Endpoint] (relay : State UInt16 Endpoint) : Capture Endpoint :=
  ⟨⟨relay, ioWorkerInit⟩, []⟩

/-- The kernel has taken the datagrams as the peer has sent them. -/
def Capture.Whole (capture : Capture Endpoint) : Prop :=
  capture.worker.io.wire = capture.whole

/-- Every datagram for a session fits into its slot. -/
def Capture.Fits (capture : Capture Endpoint) (frame : Frame Endpoint) : Prop :=
  ∀ datagram ∈ frame.whole thread capture.worker.relay, datagram.2.length ≤ memoryPerPacket

instance decidableFits (capture : Capture Endpoint) (frame : Frame Endpoint) :
    Decidable (capture.Fits thread frame) :=
  inferInstanceAs (Decidable (∀ datagram ∈ frame.whole thread capture.worker.relay,
    datagram.2.length ≤ memoryPerPacket))

end Capture

section Runs

variable {thread : UInt16} {threads : List UInt16} {relay : State UInt16 Endpoint}
  {frames : List (Frame Endpoint)} {capture next : Capture Endpoint}

/-- What the kernel takes are the beginnings of the datagrams. -/
structure Capture.Clipped (capture : Capture Endpoint) : Prop where
  sound : capture.worker.io.Sound
  wire : capture.worker.io.wire = capture.whole.map (clip memoryPerPacket)

theorem Capture.Clipped.after_step {frame : Frame Endpoint} (clipped : capture.Clipped)
    (stepped : Capture.step thread threads capture frame = .ok next) :
    next.Clipped ∧ next.whole = capture.whole ++ frame.whole thread capture.worker.relay := by
  simp only [Capture.step] at stepped
  rcases step_result thread threads clipped.sound frame with
    ⟨after, result, sound, wire⟩ | ⟨stop, result, -⟩
  · simp only [result, Except.ok.injEq] at stepped
    subst stepped
    refine ⟨⟨sound, ?_⟩, rfl⟩
    simp only [wire, clipped.wire, Frame.forwarded, Frame.whole, forwarded_eq, List.map_append]
  · rw [result] at stepped
    contradiction

theorem clipped_of_execute [Inhabited Endpoint]
    (ran : execute (Capture.step thread threads) (.begin relay) frames = .ok capture) :
    capture.Clipped := by
  refine execute_invariant (fun _ (capture : Capture Endpoint) => capture.Clipped) ?_ ?_ ran
  · exact ⟨Io.ioWorkerInit_sound, rfl⟩
  · intro _ _ _ _ _ clipped stepped
    exact (clipped.after_step stepped).1

theorem Capture.Clipped.whole_iff (clipped : capture.Clipped) :
    capture.Whole ↔ ∀ datagram ∈ capture.whole, datagram.2.length ≤ memoryPerPacket := by
  rw [Capture.Whole, clipped.wire, map_clip_eq_self_iff]

theorem Capture.Clipped.stays_whole_iff {frame : Frame Endpoint} (clipped : capture.Clipped)
    (isWhole : capture.Whole) (stepped : Capture.step thread threads capture frame = .ok next) :
    next.Whole ↔ capture.Fits thread frame := by
  rcases clipped.after_step stepped with ⟨clippedNext, whole_eq⟩
  have fitted := clipped.whole_iff.mp isWhole
  rw [clippedNext.whole_iff, whole_eq, List.forall_mem_append]
  constructor
  · intro fits
    exact fits.2
  · intro fits
    exact ⟨fitted, fits⟩

theorem always_whole_iff [Inhabited Endpoint] {worker : Worker Endpoint (Io Endpoint)}
    (ran : run thread threads relay frames = .ok worker) :
    Always (Capture.step thread threads) Capture.Whole (.begin relay) frames ↔
      Throughout (Capture.step thread threads) (Capture.Fits thread) (.begin relay) frames := by
  have lifted : ∃ capture, execute (Capture.step thread threads) (.begin relay) frames =
      .ok capture ∧ capture.worker = worker := by
    refine execute_lifts ?_ ran
    intro capture frame after stepped
    exact ⟨⟨after, capture.whole ++ frame.whole thread capture.worker.relay⟩,
      by simp only [Capture.step, stepped], rfl⟩
  rcases lifted with ⟨capture, captured, _⟩
  have initially : (Capture.begin relay : Capture Endpoint).Whole := rfl
  apply always_iff_throughout captured initially
  intro before frame after state next _ ranBefore stepped isWhole
  exact (clipped_of_execute ranBefore).stays_whole_iff isWhole stepped

/-- The queue of a frame which comes to its loop, whether or not the loop ends. -/
theorem queued_whole_iff [Inhabited Endpoint] {worker before : Worker Endpoint (Io Endpoint)}
    (ran : run thread threads relay frames = .ok worker) {frame : Frame Endpoint}
    (received : receiveAll thread threads worker frame = .ok before) :
    before.io.queued = frame.whole thread worker.relay ↔
      ∀ datagram ∈ frame.whole thread worker.relay, datagram.2.length ≤ memoryPerPacket := by
  have sound := run_sound thread threads relay frames ran
  rcases receiveAll_cases thread threads sound frame with
    ⟨other, receivedToo, _, _, queued⟩ | ⟨_, stop, failed, _⟩
  · have same : other = before := Except.ok.inj (receivedToo.symm.trans received)
    have queued_eq : before.io.queued =
        (frame.whole thread worker.relay).map (clip memoryPerPacket) := by
      simp only [← same, queued, Frame.forwarded, Frame.whole, forwarded_eq]
    rw [queued_eq, map_clip_eq_self_iff]
  · rw [failed] at received
    contradiction

end Runs

end Mmsg

namespace Uring

/-- What the kernel finds through the message header of a send. -/
def Io.outgoing (io : Io Endpoint) (operation : Operation Endpoint) :
    Option (Endpoint × List UInt8) :=
  match (io.ioEvents operation.userData).message.name, io.vector? operation.userData with
  | some name, some vector =>
      some ((io.ioEvents name).address, io.messagesBuffer.load vector.base vector.len)
  | _, _ => none

/-- A worker, and the whole datagrams of its events: the one received with the event, or the
one that its send forwards, with the endpoint of the session.  `wire` lists what the kernel
has taken, beside what it should have. -/
structure Capture (Endpoint : Type) where
  worker : Worker Endpoint (Io Endpoint)
  whole : EventPtr → Option (Endpoint × List UInt8)
  wire : List (Option (Endpoint × List UInt8) × Option (Endpoint × List UInt8))

section Capture

variable (thread : UInt16) (threads : List UInt16)

/-- The kernel completes a receive with the datagram or takes a datagram for a send. -/
def Capture.complete (capture : Capture Endpoint) (index : ℕ) (reply : Reply Endpoint) :
    Capture Endpoint :=
  match capture.worker.io.inFlight[index]? with
  | none => capture
  | some operation =>
      match operation.opcode, reply with
      | .recvmsg _, .received src datagram =>
          { capture with
            whole := Function.update capture.whole operation.userData (some (src, datagram)) }
      | .sendmsg _, .result res =>
          if 0 ≤ res then
            { capture with
              wire := capture.wire ++
                [(capture.worker.io.outgoing operation, capture.whole operation.userData)] }
          else
            capture
      | _, _ => capture

/-- The datagram from the peer, with the endpoint of its session, that the worker processes. -/
def Capture.forwards? (capture : Capture Endpoint) (event : Event Endpoint) :
    Option (Endpoint × List UInt8) :=
  match processed? capture.worker event with
  | none => none
  | some completion =>
      if completion.operation.opcode = .recvmsg .peer ∧ 0 ≤ completion.res then
        (capture.whole completion.operation.userData).bind fun received =>
          (capture.worker.relay.route received.2).map fun target => (target.2, received.2)
      else
        none

/-- A datagram which is forwarded belongs to the event that the worker allocates next. -/
def Capture.note (capture : Capture Endpoint) : Event Endpoint → Capture Endpoint
  | .complete index reply => capture.complete index reply
  | .process =>
      match capture.forwards? .process, capture.worker.io.freeEventIds with
      | some datagram, txEvent :: _ =>
          { capture with whole := Function.update capture.whole txEvent (some datagram) }
      | _, _ => capture
  | .submit => capture
  | .otherRegisters _ _ => capture

def Capture.step (capture : Capture Endpoint) (event : Event Endpoint) :
    Except Abort (Capture Endpoint) :=
  match Uring.step thread threads capture.worker event with
  | .error reason => .error reason
  | .ok worker => .ok { capture.note event with worker }

def Capture.begin (worker : Worker Endpoint (Io Endpoint)) : Capture Endpoint :=
  ⟨worker, fun _ => none, []⟩

/-- The kernel has taken whole datagrams, and will find whole datagrams for the sends which
are queued or in flight. -/
structure Capture.Whole (capture : Capture Endpoint) : Prop where
  wire : ∀ taken ∈ capture.wire, taken.1 = taken.2
  sends : ∀ operation ∈ capture.worker.io.operations, operation.opcode = .sendmsg .client →
    capture.worker.io.outgoing operation = capture.whole operation.userData

/-- The datagram which the worker forwards, if it does, fits into the memory of an event. -/
def Capture.Fits (capture : Capture Endpoint) (event : Event Endpoint) : Prop :=
  ∀ datagram ∈ capture.forwards? event, datagram.2.length ≤ memoryPerPacket

instance decidableFits (capture : Capture Endpoint) (event : Event Endpoint) :
    Decidable (capture.Fits event) :=
  inferInstanceAs (Decidable (∀ datagram ∈ capture.forwards? event,
    datagram.2.length ≤ memoryPerPacket))

end Capture

section Steps

variable {thread : UInt16} {threads : List UInt16} {main : Bool} {capture next : Capture Endpoint}
  {completion : Completion Endpoint} {cq : List (Completion Endpoint)}

theorem Io.Intact.outgoing_eq {io : Io Endpoint} {operation : Operation Endpoint}
    (intact : io.Intact operation) (isSend : operation.opcode = .sendmsg .client) :
    io.outgoing operation = operation.sent := by
  have message := intact.message (by simp [Operation.kind, isSend])
  rcases intact.send (by simp [Operation.kind, isSend]) with
    ⟨endpoint, bytes, sent, -, address, iov, stored⟩
  simp [Io.outgoing, Io.vector?, message, ownHeader, address, iov, stored, sent]

/-- Receives and sends carry the beginnings of the datagrams. -/
structure Capture.Clipped (main : Bool) (capture : Capture Endpoint) : Prop where
  sound : capture.worker.io.Sound main
  arrived : ∀ completion ∈ capture.worker.io.cq, ∀ socket,
    completion.operation.opcode = .recvmsg socket → 0 ≤ completion.res →
      ∃ datagram, capture.whole completion.operation.userData = some datagram ∧
        completion.received = some (clip memoryPerPacket datagram)
  sends : ∀ operation ∈ capture.worker.io.operations, operation.opcode = .sendmsg .client →
    ∃ datagram, capture.whole operation.userData = some datagram ∧
      operation.sent = some (clip memoryPerPacket datagram)
  wire : ∀ taken ∈ capture.wire, ∃ datagram,
    taken = (some (clip memoryPerPacket datagram), some datagram)

/-- What a step does to the datagrams that are received and sent. -/
structure Capture.Moves (capture next : Capture Endpoint) (event : Event Endpoint) : Prop where
  arrived : ∀ completion ∈ next.worker.io.cq, ∀ socket,
    completion.operation.opcode = .recvmsg socket → 0 ≤ completion.res →
      (completion ∈ capture.worker.io.cq ∧ next.whole completion.operation.userData =
        capture.whole completion.operation.userData) ∨
      ∃ datagram, next.whole completion.operation.userData = some datagram ∧
        completion.received = some (clip memoryPerPacket datagram)
  sends : ∀ operation ∈ next.worker.io.operations, operation.opcode = .sendmsg .client →
    (operation ∈ capture.worker.io.operations ∧
      next.whole operation.userData = capture.whole operation.userData) ∨
    ∃ datagram ∈ capture.forwards? event, next.whole operation.userData = some datagram ∧
      operation.sent = some (clip memoryPerPacket datagram)
  forwarded : ∀ datagram ∈ capture.forwards? event, ∃ operation ∈ next.worker.io.operations,
    operation.opcode = .sendmsg .client ∧ next.whole operation.userData = some datagram
  wire : ∀ taken ∈ next.wire, taken ∈ capture.wire ∨
    ∃ operation ∈ capture.worker.io.operations, operation.opcode = .sendmsg .client ∧
      taken = (capture.worker.io.outgoing operation, capture.whole operation.userData)

theorem Capture.Clipped.after_move {event : Event Endpoint} (clipped : capture.Clipped main)
    (moves : capture.Moves next event) (sound : next.worker.io.Sound main) :
    next.Clipped main where
  sound := sound
  arrived completion completion_mem socket opcode succeeded := by
    rcases moves.arrived completion completion_mem socket opcode succeeded with
      ⟨old, same⟩ | new
    · simpa only [same] using clipped.arrived completion old socket opcode succeeded
    · exact new
  sends operation operation_mem isSend := by
    rcases moves.sends operation operation_mem isSend with ⟨old, same⟩ | ⟨datagram, _, new⟩
    · simpa only [same] using clipped.sends operation old isSend
    · exact ⟨datagram, new⟩
  wire taken taken_mem := by
    rcases moves.wire taken taken_mem with old | ⟨operation, operation_mem, isSend, rfl⟩
    · exact clipped.wire taken old
    · have intact := clipped.sound.balanced.intact operation operation_mem
      rcases clipped.sends operation operation_mem isSend with ⟨datagram, whole, sent⟩
      exact ⟨datagram, by simp only [intact.outgoing_eq isSend, sent, whole]⟩

/-- A captured send is whole exactly if its datagram fits. -/
theorem Capture.Clipped.send_whole_iff (clipped : capture.Clipped main)
    {operation : Operation Endpoint} (operation_mem : operation ∈ capture.worker.io.operations)
    (isSend : operation.opcode = .sendmsg .client) {datagram : Endpoint × List UInt8}
    (whole : capture.whole operation.userData = some datagram) :
    capture.worker.io.outgoing operation = capture.whole operation.userData ↔
      datagram.2.length ≤ memoryPerPacket := by
  have intact := clipped.sound.balanced.intact operation operation_mem
  rcases clipped.sends operation operation_mem isSend with ⟨other, wholeToo, sent⟩
  have same : other = datagram := Option.some.inj (wholeToo.symm.trans whole)
  simp only [intact.outgoing_eq isSend, sent, whole, same, Option.some.injEq, clip_eq_self_iff]

theorem Capture.Clipped.stays_whole_iff {event : Event Endpoint} (clipped : capture.Clipped main)
    (clippedNext : next.Clipped main) (moves : capture.Moves next event)
    (isWhole : capture.Whole) : next.Whole ↔ capture.Fits event := by
  constructor
  · intro wholeNext datagram forwards
    rcases moves.forwarded datagram forwards with ⟨operation, operation_mem, isSend, whole⟩
    apply (clippedNext.send_whole_iff operation_mem isSend whole).mp
    exact wholeNext.sends operation operation_mem isSend
  · intro fits
    constructor
    · intro taken taken_mem
      rcases moves.wire taken taken_mem with old | ⟨operation, operation_mem, isSend, rfl⟩
      · exact isWhole.wire taken old
      · exact isWhole.sends operation operation_mem isSend
    · intro operation operation_mem isSend
      rcases moves.sends operation operation_mem isSend with
        ⟨old, same⟩ | ⟨datagram, forwards, whole, _⟩
      · rcases clipped.sends operation old isSend with ⟨datagram, whole, _⟩
        apply (clippedNext.send_whole_iff operation_mem isSend (same.trans whole)).mpr
        apply (clipped.send_whole_iff old isSend whole).mp
        exact isWhole.sends operation old isSend
      · apply (clippedNext.send_whole_iff operation_mem isSend whole).mpr
        exact fits datagram forwards

theorem moves_of_unchanged {event : Event Endpoint} {worker : Worker Endpoint (Io Endpoint)}
    (forwards : capture.forwards? event = none)
    (operations : worker.io.operations.Perm capture.worker.io.operations)
    (cq : worker.io.cq = capture.worker.io.cq) :
    capture.Moves { capture with worker } event where
  arrived completion completion_mem _ _ _ := Or.inl ⟨cq ▸ completion_mem, rfl⟩
  sends operation operation_mem _ := Or.inl ⟨operations.mem_iff.mp operation_mem, rfl⟩
  forwarded datagram isForward := by simp [forwards] at isForward
  wire _ := Or.inl

/-- A completed receive which has not failed carries the beginning of a datagram. -/
theorem received_of_complete {io : Io Endpoint} (balanced : io.Balanced []) {index : ℕ}
    {reply : Reply Endpoint} {completion : Completion Endpoint}
    (completion_mem : completion ∈ (io.complete index reply).cq) {socket : Socket}
    (opcode : completion.operation.opcode = .recvmsg socket) (succeeded : 0 ≤ completion.res) :
    completion ∈ io.cq ∨ ∃ src datagram, reply = .received src datagram ∧
      io.inFlight[index]? = some completion.operation ∧
      completion.received = some (clip memoryPerPacket (src, datagram)) := by
  rcases balanced.mem_cq_complete completion_mem with
    old | ⟨inFlight, ⟨_, failed⟩ | ⟨_, src, datagram, _, reply_eq, received⟩⟩
  · exact Or.inl old
  · have negative := failed socket opcode
    omega
  · exact Or.inr ⟨src, datagram, reply_eq, inFlight, received⟩

/-- Only the event of a receive gets another datagram. -/
theorem Capture.whole_complete (capture : Capture Endpoint) (index : ℕ) (reply : Reply Endpoint)
    {ev : EventPtr} (other : ∀ operation socket,
      capture.worker.io.inFlight[index]? = some operation → operation.opcode = .recvmsg socket →
        ev ≠ operation.userData) :
    (capture.complete index reply).whole ev = capture.whole ev := by
  unfold Capture.complete
  split
  · rfl
  · rename_i operation inFlight
    split
    · rename_i socket src datagram opcode
      exact Function.update_of_ne (other operation socket inFlight opcode) _ _
    · split <;> rfl
    · rfl

theorem Capture.whole_complete_received {index : ℕ} {operation : Operation Endpoint}
    {socket : Socket} (inFlight : capture.worker.io.inFlight[index]? = some operation)
    (opcode : operation.opcode = .recvmsg socket) (src : Endpoint) (datagram : List UInt8) :
    (capture.complete index (.received src datagram)).whole operation.userData =
      some (src, datagram) := by
  simp [Capture.complete, inFlight, opcode]

theorem Capture.wire_complete {index : ℕ} {reply : Reply Endpoint}
    {taken : Option (Endpoint × List UInt8) × Option (Endpoint × List UInt8)}
    (taken_mem : taken ∈ (capture.complete index reply).wire) :
    taken ∈ capture.wire ∨ ∃ operation socket,
      capture.worker.io.inFlight[index]? = some operation ∧ operation.opcode = .sendmsg socket ∧
      taken = (capture.worker.io.outgoing operation, capture.whole operation.userData) := by
  unfold Capture.complete at taken_mem
  split at taken_mem
  · exact Or.inl taken_mem
  · rename_i operation inFlight
    split at taken_mem
    · exact Or.inl taken_mem
    · rename_i socket res opcode
      split at taken_mem
      · rcases List.mem_append.mp taken_mem with old | new
        · exact Or.inl old
        · exact Or.inr ⟨operation, socket, inFlight, opcode, List.mem_singleton.mp new⟩
      · exact Or.inl taken_mem
    · exact Or.inl taken_mem

theorem moves_of_complete (balanced : capture.worker.io.Balanced []) (index : ℕ)
    (reply : Reply Endpoint) :
    capture.Moves { capture.complete index reply with
      worker := { capture.worker with io := capture.worker.io.complete index reply } }
      (.complete index reply) where
  arrived completion completion_mem socket opcode succeeded := by
    rcases received_of_complete balanced completion_mem opcode succeeded with
      old | ⟨src, datagram, rfl, inFlight, received⟩
    · left
      refine ⟨old, capture.whole_complete index reply ?_⟩
      intro operation other inFlight _
      exact balanced.completed_ne (List.mem_of_getElem? inFlight) old
    · right
      exact ⟨(src, datagram), Capture.whole_complete_received inFlight opcode src datagram,
        received⟩
  sends operation operation_mem isSend := by
    left
    have old := (balanced.complete index reply).2.mem_iff.mp operation_mem
    refine ⟨old, capture.whole_complete index reply ?_⟩
    intro other socket inFlight isReceive same
    have other_mem := Io.mem_operations_of_inFlight inFlight
    rw [balanced.owner_inj old other_mem same, isReceive] at isSend
    contradiction
  forwarded datagram forwards := by simp [Capture.forwards?, processed?] at forwards
  wire taken taken_mem := by
    rcases Capture.wire_complete taken_mem with old | ⟨operation, socket, inFlight, opcode, rfl⟩
    · exact Or.inl old
    · right
      have operation_mem := Io.mem_operations_of_inFlight inFlight
      have valid := (balanced.intact operation operation_mem).valid
      cases socket with
      | client => exact ⟨operation, operation_mem, opcode, rfl⟩
      | peer => simp [Operation.kind, opcode] at valid

/-- What is forwarded is the beginning of the datagram. -/
theorem Capture.Clipped.reports_of_forwards (clipped : capture.Clipped main)
    (cq_eq : capture.worker.io.cq = completion :: cq) {datagram : Endpoint × List UInt8}
    (forwards : capture.forwards? .process = some datagram) :
    ∃ src target, ReportsPeer capture.worker completion cq src
        (datagram.2.take memoryPerPacket) ∧
      capture.worker.relay.route (datagram.2.take memoryPerPacket) = some target ∧
      target.2 = datagram.1 := by
  have fits : sessionIdSize ≤ memoryPerPacket := by decide
  have completion_mem : completion ∈ capture.worker.io.cq := cq_eq ▸ List.mem_cons_self
  simp only [forwards?, processed?, cq_eq, List.head?_cons] at forwards
  split at forwards
  · rename_i received
    rcases received with ⟨opcode, succeeded⟩
    rcases Option.bind_eq_some_iff.mp forwards with ⟨received, whole, mapped⟩
    rcases Option.map_eq_some_iff.mp mapped with ⟨target, routed, rfl⟩
    rcases clipped.arrived completion completion_mem .peer opcode succeeded with
      ⟨other, wholeToo, clip_eq⟩
    have same : other = received := Option.some.inj (wholeToo.symm.trans whole)
    rcases reportsPeer clipped.sound.balanced cq_eq opcode succeeded with ⟨src, bytes, reports⟩
    have stored := Option.some.inj (reports.received.symm.trans clip_eq)
    have bytes_eq : bytes = received.2.take memoryPerPacket := same ▸ congrArg Prod.snd stored
    exact ⟨src, target, bytes_eq ▸ reports, (State.route_take fits _ _).trans routed, rfl⟩
  · contradiction

theorem Capture.Clipped.not_forwards (clipped : capture.Clipped main)
    (cq_eq : capture.worker.io.cq = completion :: cq)
    (forwards : capture.forwards? .process = none) :
    ¬completion.Forwards capture.worker.relay := by
  rintro ⟨opcode, succeeded, src, bytes, target, received, routed⟩
  have fits : sessionIdSize ≤ memoryPerPacket := by decide
  have completion_mem : completion ∈ capture.worker.io.cq := cq_eq ▸ List.mem_cons_self
  rcases clipped.arrived completion completion_mem .peer opcode succeeded with
    ⟨datagram, whole, clip_eq⟩
  have stored := Option.some.inj (received.symm.trans clip_eq)
  have bytes_eq : bytes = datagram.2.take memoryPerPacket := congrArg Prod.snd stored
  have routedWhole : capture.worker.relay.route datagram.2 = some target :=
    (State.route_take fits _ _).symm.trans (bytes_eq ▸ routed)
  simp [forwards?, processed?, cq_eq, opcode, succeeded, whole, routedWhole] at forwards

theorem Io.mem_operations_again {io : Io Endpoint} {ev : EventPtr} {socket : Socket}
    {operation : Operation Endpoint} :
    operation ∈ (io.again ev socket).operations ↔
      operation = ⟨.recvmsg socket, ev, none⟩ ∨ operation ∈ io.operations := by
  have armed := operations_armed (io.releaseEvent ev) ev io.freeEventIds socket
  exact armed.mem_iff.trans List.mem_cons

theorem Io.mem_operations_transmitting {io : Io Endpoint} {ev : EventPtr} {rest : List EventPtr}
    {endpoint : Endpoint} {packet : Packet} {operation : Operation Endpoint} :
    operation ∈ (io.transmitting ev rest endpoint packet).operations ↔
      operation = ⟨.sendmsg .client, ev, some (endpoint, io.read packet)⟩ ∨
        operation ∈ io.operations :=
  (operations_transmitting io ev rest endpoint packet).mem_iff.trans List.mem_cons

theorem moves_of_forwards (clipped : capture.Clipped main)
    (cq_eq : capture.worker.io.cq = completion :: cq) {datagram : Endpoint × List UInt8}
    (forwards : capture.forwards? .process = some datagram)
    {after : Worker Endpoint (Io Endpoint)}
    (processed : process thread threads completion (taken capture.worker cq) = .ok after) :
    capture.Moves { capture.note .process with worker := after } .process := by
  have balanced := clipped.sound.balanced
  rcases clipped.reports_of_forwards cq_eq forwards with ⟨src, target, reports, routed, endpoint⟩
  cases free : capture.worker.io.freeEventIds with
  | nil =>
      have failed := process_routed_full thread threads balanced reports routed free
      rw [failed] at processed
      contradiction
  | cons txEvent rest =>
      rcases process_routed thread threads balanced reports routed free with ⟨relay, -, result⟩
      simp only [result, Except.ok.injEq] at processed
      subst processed
      have read : (taken capture.worker cq).io.read
          (completion.packet (datagram.2.take memoryPerPacket).length) =
          datagram.2.take memoryPerPacket := reports.stored
      have whole : (capture.note .process).whole =
          Function.update capture.whole txEvent (some datagram) := by
        simp [Capture.note, forwards, free]
      have wire : (capture.note .process).wire = capture.wire := by
        simp [Capture.note, forwards, free]
      have kept {operation : Operation Endpoint}
          (operation_mem : operation ∈ capture.worker.io.operations) :
          (capture.note .process).whole operation.userData = capture.whole operation.userData := by
        have different := balanced.owner_ne_free (free ▸ List.mem_cons_self) operation_mem
        rw [whole, Function.update_of_ne different]
      have remaining {operation : Operation Endpoint}
          (operation_mem : operation ∈ (taken capture.worker cq).io.operations) :
          operation ∈ capture.worker.io.operations := by
        apply (Io.operations_take cq_eq).mem_iff.mpr
        exact List.mem_cons_of_mem _ operation_mem
      constructor
      · intro other other_mem _ _ _
        left
        have old : other ∈ capture.worker.io.cq := cq_eq ▸ List.mem_cons_of_mem _ other_mem
        exact ⟨old, kept (Io.mem_operations_of_completed old)⟩
      · intro operation operation_mem isSend
        rcases Io.mem_operations_again.mp operation_mem with rfl | queued
        · contradiction
        rcases Io.mem_operations_transmitting.mp queued with rfl | old
        · right
          refine ⟨datagram, forwards, ?_, ?_⟩
          · simp [whole]
          · simp only [read, clip, endpoint]
        · exact Or.inl ⟨remaining old, kept (remaining old)⟩
      · intro other forwardsToo
        have same : other = datagram := Option.some.inj (forwardsToo.symm.trans forwards)
        refine ⟨_, Io.mem_operations_again.mpr (Or.inr
          (Io.mem_operations_transmitting.mpr (Or.inl rfl))), rfl, ?_⟩
        simp [whole, same]
      · intro taken taken_mem
        left
        exact wire ▸ taken_mem

theorem moves_of_not_forwards (clipped : capture.Clipped main)
    (cq_eq : capture.worker.io.cq = completion :: cq)
    (forwards : capture.forwards? .process = none) {after : Worker Endpoint (Io Endpoint)}
    (processed : process thread threads completion (taken capture.worker cq) = .ok after) :
    capture.Moves { capture.note .process with worker := after } .process := by
  have step_eq : Uring.step thread threads capture.worker .process = .ok after := by
    simpa [Uring.step, cq_eq, taken] using processed
  have notForwards : ¬ForwardsNext capture.worker .process := by
    simpa [ForwardsNext, cq_eq] using clipped.not_forwards cq_eq forwards
  have remaining := (processed_of_process clipped.sound.balanced cq_eq processed).cq_eq
  have unchanged : capture.note .process = capture := by simp [Capture.note, forwards]
  rw [unchanged]
  constructor
  · intro other other_mem _ _ _
    left
    have old : other ∈ capture.worker.io.cq := by
      rw [cq_eq]
      exact List.mem_cons_of_mem _ (remaining ▸ other_mem)
    exact ⟨old, rfl⟩
  · intro operation operation_mem isSend
    left
    exact ⟨sends_of_not_forwards clipped.sound notForwards step_eq operation_mem isSend, rfl⟩
  · simp [forwards]
  · intro taken
    exact Or.inl

theorem Capture.Clipped.moves {event : Event Endpoint} (clipped : capture.Clipped main)
    (stepped : Capture.step thread threads capture event = .ok next) :
    capture.Moves next event ∧ next.worker.io.Sound main := by
  have balanced := clipped.sound.balanced
  cases result : Uring.step thread threads capture.worker event with
  | error reason => simp [Capture.step, result] at stepped
  | ok worker =>
      have sound := sound_of_step clipped.sound result
      simp only [Capture.step, result, Except.ok.injEq] at stepped
      subst stepped
      refine ⟨?_, sound⟩
      cases event with
      | submit =>
          simp only [Uring.step, Except.ok.injEq] at result
          subst result
          exact moves_of_unchanged rfl balanced.submit.2 rfl
      | complete index reply =>
          simp only [Uring.step, Except.ok.injEq] at result
          subst result
          exact moves_of_complete balanced index reply
      | otherRegisters id src =>
          simp only [Uring.step, Except.ok.injEq] at result
          subst result
          exact moves_of_unchanged rfl (.refl _) rfl
      | process =>
          cases cq_eq : capture.worker.io.cq with
          | nil =>
              simp only [Uring.step, cq_eq, Except.ok.injEq] at result
              subst result
              have nothing : capture.forwards? .process = none := by
                simp [forwards?, processed?, cq_eq]
              have unchanged : capture.note .process = capture := by
                simp [Capture.note, nothing]
              rw [unchanged]
              exact moves_of_unchanged nothing (.refl _) rfl
          | cons completion cq =>
              simp only [Uring.step, cq_eq] at result
              cases forwards : capture.forwards? .process with
              | none => exact moves_of_not_forwards clipped cq_eq forwards result
              | some datagram => exact moves_of_forwards clipped cq_eq forwards result

end Steps

section Runs

variable [Inhabited Endpoint] {thread : UInt16} {threads : List UInt16}
  {relay : State UInt16 Endpoint} {events : List (Event Endpoint)}
  {first : Worker Endpoint (Io Endpoint)} {capture : Capture Endpoint}

theorem begin_clipped (started : start thread relay = .ok first) :
    (Capture.begin first).Clipped (isMainWorker thread) ∧ (Capture.begin first).Whole := by
  rcases start_sound thread relay with ⟨worker, startedToo, sound, -, cq, unsent⟩
  have same : worker = first := Except.ok.inj (startedToo.symm.trans started)
  subst same
  have noSend (operation : Operation Endpoint) (operation_mem : operation ∈ worker.io.operations) :
      operation.opcode ≠ .sendmsg .client := by
    intro isSend
    have intact := sound.balanced.intact operation operation_mem
    rcases intact.send (by simp [Operation.kind, isSend]) with ⟨endpoint, bytes, sent, -⟩
    rw [unsent operation operation_mem] at sent
    contradiction
  constructor
  · constructor
    · exact sound
    · simp [Capture.begin, cq]
    · intro operation operation_mem isSend
      exact absurd isSend (noSend operation operation_mem)
    · simp [Capture.begin]
  · constructor
    · simp [Capture.begin]
    · intro operation operation_mem isSend
      exact absurd isSend (noSend operation operation_mem)

theorem clipped_of_execute (started : start thread relay = .ok first)
    (ran : execute (Capture.step thread threads) (.begin first) events = .ok capture) :
    capture.Clipped (isMainWorker thread) := by
  refine execute_invariant (fun _ (capture : Capture Endpoint) =>
    capture.Clipped (isMainWorker thread)) (begin_clipped started).1 ?_ ran
  intro _ _ _ _ _ clipped stepped
  rcases clipped.moves stepped with ⟨moves, sound⟩
  exact clipped.after_move moves sound

theorem always_whole_iff {worker : Worker Endpoint (Io Endpoint)}
    (started : start thread relay = .ok first)
    (ran : run thread threads relay events = .ok worker) :
    Always (Capture.step thread threads) Capture.Whole (.begin first) events ↔
      Throughout (Capture.step thread threads) Capture.Fits (.begin first) events := by
  have lifted : ∃ capture, execute (Capture.step thread threads) (.begin first) events =
      .ok capture ∧ capture.worker = worker := by
    simp only [run, started] at ran
    refine execute_lifts ?_ ran
    intro capture event after stepped
    exact ⟨{ capture.note event with worker := after }, by simp only [Capture.step, stepped], rfl⟩
  rcases lifted with ⟨capture, captured, _⟩
  apply always_iff_throughout captured (begin_clipped started).2
  intro before event after state next _ ranBefore stepped isWhole
  have clipped := clipped_of_execute started ranBefore
  rcases clipped.moves stepped with ⟨moves, sound⟩
  exact clipped.stays_whole_iff (clipped.after_move moves sound) moves isWhole

end Runs

end Uring

/-- In every run, both back ends forward whole datagrams exactly if the datagrams that they
forward have at most 1024 bytes.  A frame of the mmsg back end may be the last one of its
worker, so its queue is looked at before the loop which sends. -/
theorem forwards_whole_iff_fits [Inhabited Endpoint] (thread : UInt16) (threads : List UInt16)
    (relay : State UInt16 Endpoint) :
    (∀ frames worker, Mmsg.run thread threads relay frames = .ok worker →
      (Always (Mmsg.Capture.step thread threads) Mmsg.Capture.Whole (.begin relay) frames ↔
        Throughout (Mmsg.Capture.step thread threads) (Mmsg.Capture.Fits thread) (.begin relay)
          frames) ∧
      ∀ frame before, Mmsg.receiveAll thread threads worker frame = .ok before →
        (before.io.queued = frame.whole thread worker.relay ↔
          ∀ datagram ∈ frame.whole thread worker.relay,
            datagram.2.length ≤ Mmsg.memoryPerPacket)) ∧
    ∀ events first worker, Uring.start thread relay = .ok first →
      Uring.run thread threads relay events = .ok worker →
      (Always (Uring.Capture.step thread threads) Uring.Capture.Whole (.begin first) events ↔
        Throughout (Uring.Capture.step thread threads) Uring.Capture.Fits (.begin first)
          events) := by
  constructor
  · intro frames worker ran
    refine ⟨Mmsg.always_whole_iff ran, ?_⟩
    intro frame before received
    exact Mmsg.queued_whole_iff ran received
  · intro events first worker started ran
    exact Uring.always_whole_iff started ran

/-- A datagram of at least eight bytes for the session `1`. -/
def datagramOf (length : ℕ) : List UInt8 :=
  [1, 0, 0, 0, 0, 0, 0, 0] ++ List.replicate (length - sessionIdSize) 42

theorem length_datagramOf (length : ℕ) :
    (datagramOf length).length = sessionIdSize + (length - sessionIdSize) := by
  simp only [datagramOf, List.length_append, List.length_replicate]
  rfl

/-- A client registers, and a datagram from the peer is forwarded to it by both back ends. -/
def deliveredFrames (length : ℕ) : List (Mmsg.Frame ℕ) :=
  [Mmsg.registration, ⟨none, some (.returned [⟨[], 9, datagramOf length⟩]), none, [.sent 1]⟩]

def deliveredEvents (length : ℕ) : List (Uring.Event ℕ) :=
  [.submit, .complete 0 (.received 7 [1, 0, 0, 0, 0, 0, 0, 0]), .process,
    .submit, .complete 0 (.received 9 (datagramOf length)), .process,
    .submit, .complete 2 (.result 1024), .process]

theorem whole_of_1024 :
    (Always (Mmsg.Capture.step 0 [0]) Mmsg.Capture.Whole (.begin State.initial)
      (deliveredFrames 1024)) ∧
    ∃ first, Uring.start 0 (State.initial : State UInt16 ℕ) = .ok first ∧
      Always (Uring.Capture.step 0 [0]) Uring.Capture.Whole (.begin first)
        (deliveredEvents 1024) := by
  have either := forwards_whole_iff_fits 0 [0] (State.initial : State UInt16 ℕ)
  have frames : succeedsWith (Mmsg.run 0 [0] (State.initial : State UInt16 ℕ)
      (deliveredFrames 1024)) (fun _ => true) = true := by
    decide +kernel
  have events : succeedsWith (Uring.run 0 [0] (State.initial : State UInt16 ℕ)
      (deliveredEvents 1024)) (fun _ => true) = true := by
    decide +kernel
  have starts : succeedsWith (Uring.start 0 (State.initial : State UInt16 ℕ)) (fun first =>
      Throughout (Uring.Capture.step 0 [0]) Uring.Capture.Fits (.begin first)
        (deliveredEvents 1024)) = true := by
    decide +kernel
  rcases exists_of_succeedsWith frames with ⟨mmsgWorker, mmsgRan, -⟩
  rcases exists_of_succeedsWith events with ⟨uringWorker, uringRan, -⟩
  rcases exists_of_succeedsWith starts with ⟨first, started, fits⟩
  refine ⟨(either.1 _ mmsgWorker mmsgRan).1.mpr (by decide +kernel), first, started, ?_⟩
  exact (either.2 _ first uringWorker started uringRan).mpr (of_decide_eq_true fits)

/-- Of 1025 bytes, both back ends forward the first 1024. -/
theorem truncated_of_1025 :
    (∃ capture, execute (Mmsg.Capture.step 0 [0]) (.begin State.initial)
        (deliveredFrames 1025) = .ok capture ∧
      capture.worker.io.wire = [(7, (datagramOf 1025).take 1024)] ∧ ¬capture.Whole) ∧
    ∃ first capture, Uring.start 0 State.initial = .ok first ∧
      execute (Uring.Capture.step 0 [0]) (.begin first) (deliveredEvents 1025) = .ok capture ∧
      capture.wire = [(some (7, (datagramOf 1025).take 1024), some (7, datagramOf 1025))] ∧
      ¬capture.Whole := by
  have long : ¬(datagramOf 1025).length ≤ 1024 := by
    rw [length_datagramOf]
    decide
  constructor
  · have succeeds : succeedsWith (execute (Mmsg.Capture.step 0 [0]) (.begin State.initial)
        (deliveredFrames 1025)) (fun capture => capture.whole = [(7, datagramOf 1025)]) =
          true := by
      decide +kernel
    rcases exists_of_succeedsWith succeeds with ⟨capture, ran, test⟩
    have clipped := Mmsg.clipped_of_execute ran
    have whole_eq := of_decide_eq_true test
    refine ⟨capture, ran, ?_, ?_⟩
    · simp only [clipped.wire, whole_eq]
      rfl
    · intro whole
      have fits := clipped.whole_iff.mp whole (7, datagramOf 1025) (by simp [whole_eq])
      exact long fits
  · have succeeds : succeedsWith (Uring.start 0 (State.initial : State UInt16 ℕ)) (fun first =>
        succeedsWith (execute (Uring.Capture.step 0 [0]) (.begin first) (deliveredEvents 1025))
          (fun capture => capture.wire.map Prod.snd = [some (7, datagramOf 1025)])) = true := by
      decide +kernel
    rcases exists_of_succeedsWith succeeds with ⟨first, started, runs⟩
    rcases exists_of_succeedsWith runs with ⟨capture, ran, test⟩
    have clipped := Uring.clipped_of_execute started ran
    rcases List.map_eq_singleton_iff.mp (of_decide_eq_true test) with ⟨taken, wire_eq, owed⟩
    have taken_mem : taken ∈ capture.wire := wire_eq ▸ List.mem_singleton_self taken
    rcases clipped.wire taken taken_mem with ⟨datagram, rfl⟩
    have same : datagram = (7, datagramOf 1025) := Option.some.inj owed
    subst same
    refine ⟨first, capture, started, ran, wire_eq, ?_⟩
    intro whole
    have fits := clip_eq_self_iff.mp (Option.some.inj (whole.wire _ taken_mem))
    exact long fits

end Urn
