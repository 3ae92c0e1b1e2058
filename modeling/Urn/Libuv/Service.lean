import Urn.Foundation.Team
import Urn.Libuv.Slots
import Urn.Relay.Directory

/-!
# The libuv threads serve the directory

What libuv delivers to the callbacks of all threads is asked of the directory, and
what the threads pass to `uv_udp_send` is what the directory answers, whatever
buffers and slots the datagrams have gone through.
-/

namespace Urn.Libuv

open Relay Execution

variable {Endpoint : Type}

/-- What a datagram asks for. -/
def Arrival.asked (arrival : Arrival Endpoint) : Handle → List (Relay.Request Endpoint)
  | .client => askedByClient arrival.src arrival.datagram
  | .peer => askedByPeer arrival.datagram

/-- What the next callback of a frame asks for. -/
def Delivery.asked (delivery : Delivery Endpoint) : List (Relay.Request Endpoint) :=
  match delivery.next with
  | none => []
  | some (_, arrival) => arrival.asked delivery.handle

/-- What a thread does not share with others. -/
structure Own (Endpoint : Type) where
  io : Io Endpoint
  frame : Option (Delivery Endpoint)

def World.own (world : World Endpoint) : Own Endpoint := ⟨world.io, world.frame⟩

def Own.world (own : Own Endpoint) (relay : State UInt16 Endpoint) : World Endpoint :=
  ⟨⟨relay, own.io⟩, own.frame⟩

def Own.initial : Own Endpoint := ⟨.initial, none⟩

/-- What the relay is asked by an event. -/
def asked (own : Own Endpoint) : Event Endpoint → List (Relay.Request Endpoint)
  | .deliver =>
      match own.frame with
      | none => []
      | some delivery => delivery.asked
  | .otherRegisters id src => [.claim id src]
  | _ => []

/-- The sends which an event has libuv asked for. -/
def sent (own : Own Endpoint) (_event : Event Endpoint) (after : Own Endpoint) :
    List (Endpoint × List UInt8) :=
  (after.io.inFlight.drop own.io.inFlight.length).map fun request =>
    (request.endpoint, request.payload)

/-- One event of one of the threads, which share the relay. -/
def turn (haveMmsg : Bool) (thread : UInt16) (relay : State UInt16 Endpoint) (own : Own Endpoint)
    (event : Event Endpoint) : Except Abort (State UInt16 Endpoint × Own Endpoint) :=
  (step haveMmsg thread (own.world relay) event).map fun world => (world.relay, world.own)

/-- What a datagram does to the relay. -/
def Arrival.handled (arrival : Arrival Endpoint) (thread : UInt16) (handle : Handle)
    (relay : State UInt16 Endpoint) : State UInt16 Endpoint :=
  if 0 < arrival.datagram.length then
    match handle with
    | .client => (relay.clientReceived thread arrival.src arrival.datagram).2
    | .peer => relay.updateIoStatistics thread .inbound arrival.datagram.length
  else
    relay

theorem Arrival.table_handled (arrival : Arrival Endpoint) (thread : UInt16) (handle : Handle)
    (relay : State UInt16 Endpoint) :
    (arrival.handled thread handle relay).table = relay.table.afterAll (arrival.asked handle) := by
  cases handle with
  | client =>
      by_cases nonempty : 0 < arrival.datagram.length
      · simp only [handled, if_pos nonempty]
        exact table_clientReceived _ _ _ _
      · have nothing : arrival.asked .client = [] := by
          apply if_neg
          simp only [sessionIdSize]
          omega
        simp only [handled, if_neg nonempty, nothing]
        rfl
  | peer =>
      rw [asked, afterAll_askedByPeer, handled]
      split <;> rfl

section Relays

variable {haveMmsg : Bool} {thread : UInt16} {buf : BufPtr} {offset : ℕ}
  {received : Option (Arrival Endpoint)} {chunk : Bool}
  {worker after : Worker Endpoint (Io Endpoint)}

theorem relay_of_clientReceived
    (handled : clientReceived haveMmsg thread buf offset received worker = .ok after)
    (stored : ∀ arrival, received = some arrival →
      worker.io.read (arrival.packet buf offset) = arrival.datagram) :
    after.relay = received.elim worker.relay
      fun arrival => arrival.handled thread .client worker.relay := by
  cases received with
  | none =>
      rw [clientReceived, Except.ok.injEq] at handled
      rw [← handled]
      rfl
  | some arrival =>
      rw [clientReceived] at handled
      rw [Option.elim_some, Arrival.handled]
      split at handled
      · rename_i nonempty
        have read : (backend Endpoint haveMmsg).read worker.io (arrival.packet buf offset) =
            arrival.datagram := stored arrival rfl
        simp only [Backend.runOnClientReceived_eq, read, Except.map, Except.ok.injEq] at handled
        rw [← handled, if_pos nonempty]
      · rename_i empty
        rw [Except.ok.injEq] at handled
        rw [← handled, if_neg empty]

theorem relay_of_peerReceived {reused : Bool}
    (handled : peerReceived haveMmsg thread buf offset received worker = .ok (reused, after)) :
    after.relay = received.elim worker.relay
      fun arrival => arrival.handled thread .peer worker.relay := by
  cases received with
  | none =>
      simp only [peerReceived, Except.ok.injEq, Prod.mk.injEq] at handled
      rw [← handled.2]
      rfl
  | some arrival =>
      rw [peerReceived] at handled
      rw [Option.elim_some, Arrival.handled]
      split at handled
      · rename_i nonempty
        rw [if_pos nonempty]
        cases routed : worker.relay.route ((backend Endpoint haveMmsg).read worker.io
            (arrival.packet buf offset)) with
        | none =>
            simp only [Backend.runOnPeerReceived_of_none _ thread routed, Except.ok.injEq,
              Prod.mk.injEq] at handled
            rw [← handled.2]
            rfl
        | some target =>
            rw [Backend.runOnPeerReceived_of_some _ thread routed] at handled
            -- a send completes later
            cases lastAlloc : worker.io.ioBufs.lastAlloc with
            | none => simp [backend, Io.startSend, lastAlloc] at handled
            | some b =>
                by_cases full : (worker.io.bufs b).refCount = chunksSize haveMmsg
                · simp [backend, Io.startSend, lastAlloc, full] at handled
                · simp only [backend, Io.startSend, lastAlloc, if_neg full, Bool.false_eq_true,
                    if_false, Except.ok.injEq, Prod.mk.injEq] at handled
                  rw [← handled.2]
                  rfl
      · rename_i empty
        simp only [Except.ok.injEq, Prod.mk.injEq] at handled
        rw [← handled.2, if_neg empty]

theorem relay_of_callback (handle : Handle)
    (called : callback haveMmsg thread handle buf offset received chunk worker = .ok after)
    (stored : ∀ arrival, received = some arrival →
      worker.io.read (arrival.packet buf offset) = arrival.datagram) :
    after.relay = received.elim worker.relay
      fun arrival => arrival.handled thread handle worker.relay := by
  cases handle with
  | client =>
      rcases bind_eq_ok.mp called with ⟨middle, handled, rest⟩
      rw [← relay_of_clientReceived handled stored]
      cases chunk with
      | true =>
          simp only [if_true, pure, Except.pure, Except.ok.injEq] at rest
          rw [rest]
      | false =>
          cases lastAlloc : middle.io.ioBufs.lastAlloc with
          | none => simp [lastAlloc, throw, throwThe, MonadExceptOf.throw] at rest
          | some b =>
              simp only [lastAlloc, Bool.false_eq_true, if_false, pure, Except.pure,
                Except.ok.injEq] at rest
              rw [← rest]
  | peer =>
      rcases bind_eq_ok.mp called with ⟨⟨reused, middle⟩, handled, rest⟩
      rw [← relay_of_peerReceived handled]
      cases kept : reused || chunk with
      | true =>
          simp only [kept, if_true, pure, Except.pure, Except.ok.injEq] at rest
          rw [rest]
      | false =>
          cases lastAlloc : middle.io.ioBufs.lastAlloc with
          | none => simp [kept, lastAlloc, throw, throwThe, MonadExceptOf.throw] at rest
          | some b =>
              simp only [kept, lastAlloc, Bool.false_eq_true, if_false, pure, Except.pure,
                Except.ok.injEq] at rest
              rw [← rest]

end Relays

section Steps

variable {haveMmsg : Bool} {thread : UInt16} {relay : State UInt16 Endpoint}
  {world after : World Endpoint} {delivery : Delivery Endpoint}

theorem relay_of_deliver (loaded : world.io.Loaded haveMmsg delivery)
    (delivered : deliver haveMmsg thread delivery world = .ok after) :
    after.relay = delivery.next.elim world.relay
      fun next => next.2.handled thread delivery.handle world.relay := by
  rcases delivery with ⟨handle, buf, chunks, last⟩
  cases chunks with
  | nil =>
      have stored (arrival : Arrival Endpoint) (arrival_eq : last = some arrival) :
          world.io.read (arrival.packet buf 0) = arrival.datagram :=
        loaded.read (by simp [Delivery.next, arrival_eq])
      rcases bind_eq_ok.mp delivered with ⟨worker, called, rest⟩
      simp only [pure, Except.pure, Except.ok.injEq] at rest
      rw [← rest]
      have relay_eq := relay_of_callback handle called stored
      cases last <;> exact relay_eq
  | cons chunk chunks =>
      have stored (arrival : Arrival Endpoint) (arrival_eq : some chunk.2 = some arrival) :
          world.io.read (arrival.packet buf chunk.1) = arrival.datagram := by
        rw [Option.some.injEq] at arrival_eq
        exact loaded.read (by simp [Delivery.next, ← arrival_eq])
      rcases bind_eq_ok.mp delivered with ⟨worker, called, rest⟩
      simp only [pure, Except.pure, Except.ok.injEq] at rest
      rw [← rest]
      exact relay_of_callback handle called stored

theorem table_of_deliver (loaded : world.io.Loaded haveMmsg delivery)
    (delivered : deliver haveMmsg thread delivery world = .ok after) :
    after.relay.table = world.relay.table.afterAll delivery.asked := by
  rw [relay_of_deliver loaded delivered, Delivery.asked]
  cases delivery.next with
  | none => rfl
  | some next => exact next.2.table_handled thread delivery.handle world.relay

/-- A callback passes to libuv what the directory answers. -/
theorem sent_of_deliver (sound : world.Sound haveMmsg) (inFrame : world.frame = some delivery)
    (loaded : world.io.Loaded haveMmsg delivery)
    (delivered : deliver haveMmsg thread delivery world = .ok after) :
    sent world.own .deliver after.own = answers world.relay.table delivery.asked := by
  have unsent (unforwarded : delivery.forward world.toWorker = none) :
      sent world.own .deliver after.own = [] := by
    have filling := sound.filling delivery inFrame
    have unused (ofClient : delivery.handle = .client) :
        (world.io.bufs delivery.buf).refCount = 0 :=
      (sound.refCount inFrame).trans (sound.client delivery inFrame ofClient)
    rcases deliver_of_none haveMmsg thread filling.lastAlloc unused unforwarded with
      ⟨relay, result⟩
    simp only [result, Except.ok.injEq] at delivered
    simp [sent, World.own, ← delivered, inFlight_settle]
  cases next_eq : delivery.next with
  | none =>
      rw [unsent (by simp [Delivery.forward, next_eq])]
      simp [Delivery.asked, next_eq, Directory.Table.answers]
  | some next =>
      rcases next with ⟨offset, arrival⟩
      have asked_eq : delivery.asked = arrival.asked delivery.handle := by
        simp only [Delivery.asked, next_eq]
      cases handle_eq : delivery.handle with
      | client =>
          rw [unsent (by simp [Delivery.forward, handle_eq]), asked_eq, handle_eq]
          exact (answers_askedByClient _ _ _).symm
      | peer =>
          have grown := inFlight_of_deliver sound inFrame loaded handle_eq next_eq delivered
          rw [sent, World.own, World.own, grown, List.drop_left, asked_eq, handle_eq,
            Arrival.asked, answers_askedByPeer]
          cases world.relay.route arrival.datagram <;> rfl

/-- The event is answered as the directory answers it. -/
structure Serves (world : World Endpoint) (event : Event Endpoint) (after : World Endpoint) :
    Prop where
  table_eq : after.relay.table = world.relay.table.afterAll (asked world.own event)
  sent_eq : sent world.own event after.own = answers world.relay.table (asked world.own event)

theorem serves_of_quiet {event : Event Endpoint} (quiet : asked world.own event = [])
    (table_eq : after.relay.table = world.relay.table)
    (shorter : after.io.inFlight.length ≤ world.io.inFlight.length) :
    Serves world event after := by
  constructor
  · rw [quiet, table_eq]
    rfl
  · have nothing : after.own.io.inFlight.drop world.own.io.inFlight.length = [] :=
      List.drop_eq_nil_of_le shorter
    rw [quiet, sent, nothing]
    rfl

theorem table_of_complete {index : ℕ} {status : ℤ}
    (completed : complete haveMmsg thread index status world = .ok after) :
    after.relay.table = world.relay.table := by
  cases inFlight : world.io.inFlight[index]? with
  | none =>
      simp only [complete, inFlight, Except.ok.injEq] at completed
      rw [← completed]
  | some request =>
      by_cases failed : status < 0
      · simp [complete, inFlight, failed] at completed
      · cases chunk_eq : (world.io.bufs request.buf).chunks request.slot with
        | none => simp [complete, inFlight, failed, sendCallback, chunk_eq, bind, Except.bind]
            at completed
        | some send =>
            simp only [complete, inFlight, if_neg failed, sendCallback, chunk_eq,
              Backend.runOnSessionSent_eq, bind, Except.bind, pure, Except.pure,
              Except.ok.injEq] at completed
            rw [← completed]
            rfl

theorem length_of_complete (sound : world.Sound haveMmsg) {index : ℕ} {status : ℤ}
    (completed : complete haveMmsg thread index status world = .ok after) :
    after.io.inFlight.length ≤ world.io.inFlight.length := by
  cases inFlight : world.io.inFlight[index]? with
  | none =>
      simp only [complete, inFlight, Except.ok.injEq] at completed
      rw [completed]
  | some request =>
      by_cases failed : status < 0
      · simp [complete, inFlight, failed] at completed
      · rcases sound.complete_eq inFlight (not_lt.mp failed) with ⟨relay, result⟩
        rw [result, Except.ok.injEq] at completed
        rw [← completed, inFlight_releaseUnused]
        exact List.length_eraseIdx_le _ _

theorem serves_of_complete {index : ℕ} {status : ℤ} (sound : world.Sound haveMmsg)
    (completed : complete haveMmsg thread index status world = .ok after) :
    Serves world (.complete index status) after :=
  serves_of_quiet rfl (table_of_complete completed) (length_of_complete sound completed)

theorem serves_of_receive {handle : Handle} {frame : Frame Endpoint}
    (sound : world.Sound haveMmsg) (between : world.frame = none)
    (received : receive handle frame world = .ok after) :
    Serves world (.receive handle frame) after := by
  rcases sound.consistent with ⟨pooled, consistent⟩
  rw [between] at consistent
  rcases consistent.alloc with ⟨pooled', allocated, lastAlloc, unreferenced, inFlight, created⟩
  cases delivered : Delivery.ofFrame handle world.io.alloc.1 frame with
  | none => simp [receive, delivered] at received
  | some delivery =>
      simp only [receive, delivered, Except.ok.injEq] at received
      rw [← received]
      exact serves_of_quiet rfl rfl (congrArg List.length inFlight).le

theorem serves_of_register (world : World Endpoint) (id : SessionId) (src : Endpoint) :
    Serves world (.otherRegisters id src)
      { world with relay := (world.relay.tryRegisterSession id src).2 } := by
  constructor
  · exact table_tryRegisterSession world.relay id src
  · simp [sent, asked, World.own, Directory.Table.answers, Directory.Table.answer]

theorem serves_of_step {event : Event Endpoint} (sound : world.Sound haveMmsg)
    (loaded : ∀ delivery, world.frame = some delivery → world.io.Loaded haveMmsg delivery)
    (processed : step haveMmsg thread world event = .ok after) : Serves world event after := by
  have ignored (quiet : asked world.own event = [])
      (same : Except.ok world = (Except.ok after : Except Abort (World Endpoint))) :
      Serves world event after := by
    rw [Except.ok.injEq] at same
    subst same
    exact serves_of_quiet quiet rfl (Nat.le_refl _)
  cases event with
  | receive handle frame =>
      cases frame_eq : world.frame with
      | none =>
          exact serves_of_receive sound frame_eq (by simpa [step, frame_eq] using processed)
      | some delivery => exact ignored rfl (by simpa [step, frame_eq] using processed)
  | deliver =>
      cases frame_eq : world.frame with
      | none =>
          apply ignored
          · simp [asked, World.own, frame_eq]
          · simpa [step, frame_eq] using processed
      | some delivery =>
          have inFrame := loaded delivery frame_eq
          have asked_eq : asked world.own .deliver = delivery.asked := by
            simp only [asked, World.own, frame_eq]
          simp only [step, frame_eq] at processed
          constructor
          · rw [asked_eq]
            exact table_of_deliver inFrame processed
          · rw [asked_eq]
            exact sent_of_deliver sound frame_eq inFrame processed
  | complete index status =>
      cases frame_eq : world.frame with
      | none => exact serves_of_complete sound (by simpa [step, frame_eq] using processed)
      | some delivery => exact ignored rfl (by simpa [step, frame_eq] using processed)
  | otherRegisters id src =>
      simp only [step, Except.ok.injEq] at processed
      subst processed
      exact serves_of_register world id src

end Steps

section Threads

variable {haveMmsg : Bool} {relay : State UInt16 Endpoint}
  {events : List (UInt16 × Event Endpoint)}

/-- The invariant of a thread, which does not depend on the relay. -/
structure Own.Sound (haveMmsg : Bool) (own : Own Endpoint) : Prop where
  world : (own.world .initial).Sound haveMmsg
  loaded : ∀ delivery, own.frame = some delivery → own.io.Loaded haveMmsg delivery

theorem Own.Sound.world_of {own : Own Endpoint} (sound : own.Sound haveMmsg)
    (relay : State UInt16 Endpoint) : (own.world relay).Sound haveMmsg :=
  ⟨sound.world.consistent, sound.world.filling, sound.world.client⟩

theorem turn_eq_ok {thread : UInt16} {own own' : Own Endpoint} {relay' : State UInt16 Endpoint}
    {event : Event Endpoint} (taken : turn haveMmsg thread relay own event = .ok (relay', own')) :
    step haveMmsg thread (own.world relay) event = .ok (own'.world relay') := by
  rw [turn] at taken
  cases stepped : step haveMmsg thread (own.world relay) event with
  | error reason =>
      rw [stepped] at taken
      contradiction
  | ok world =>
      simp only [stepped, Except.map, Except.ok.injEq, Prod.mk.injEq] at taken
      rw [← taken.1, ← taken.2]
      rfl

theorem serves (haveMmsg : Bool) :
    Team.Serves getSessionId (State.table : State UInt16 Endpoint → _) asked sent
      (fun _ => Own.Sound haveMmsg) (Event.Fits haveMmsg) (turn haveMmsg) := by
  have served {thread : UInt16} {relay relay' : State UInt16 Endpoint} {own own' : Own Endpoint}
      {event : Event Endpoint} (sound : own.Sound haveMmsg)
      (taken : turn haveMmsg thread relay own event = .ok (relay', own')) :
      Serves (own.world relay) event (own'.world relay') :=
    serves_of_step (sound.world_of relay) sound.loaded (turn_eq_ok taken)
  constructor
  · intro thread relay own event relay' own' sound fits taken
    have stepped := turn_eq_ok taken
    have sound' := ((sound.world_of relay).step stepped).1
    exact ⟨⟨sound'.consistent, sound'.filling, sound'.client⟩,
      loaded_of_step (sound.world_of relay) sound.loaded fits stepped⟩
  · intro thread relay own event relay' own' sound _ taken
    exact (served sound taken).table_eq
  · intro thread relay own event relay' own' sound _ taken
    exact (served sound taken).sent_eq

theorem initial_sound (haveMmsg : Bool) : (Own.initial : Own Endpoint).Sound haveMmsg where
  world := World.Sound.initial haveMmsg .initial
  loaded _ inFrame := by contradiction

/-- The threads before their first events. -/
def Threads.initial (relay : State UInt16 Endpoint) :
    Team UInt16 (State UInt16 Endpoint) (Own Endpoint) :=
  ⟨relay, fun _ => .initial⟩

/-- What the relay is asked by the events of all threads, in order. -/
def requests (haveMmsg : Bool) (relay : State UInt16 Endpoint)
    (events : List (UInt16 × Event Endpoint)) : List (Relay.Request Endpoint) :=
  Team.requests (turn haveMmsg) asked (Threads.initial relay) events

/-- The sends which all threads have libuv asked for, in order. -/
def sends (haveMmsg : Bool) (relay : State UInt16 Endpoint)
    (events : List (UInt16 × Event Endpoint)) : List (Endpoint × List UInt8) :=
  Team.deliveries (turn haveMmsg) sent (Threads.initial relay) events

/-- In whatever order libuv calls back on the threads, they send what the directory
answers. -/
theorem threads_serve_directory {team : Team UInt16 (State UInt16 Endpoint) (Own Endpoint)}
    (fits : ∀ event ∈ events, event.2.Fits haveMmsg)
    (ran : execute (Team.step (turn haveMmsg)) (Threads.initial relay) events = .ok team) :
    team.shared.table = relay.table.afterAll (requests haveMmsg relay events) ∧
      sends haveMmsg relay events = answers relay.table (requests haveMmsg relay events) :=
  Team.answered (serves haveMmsg) (fun _ => initial_sound haveMmsg) fits ran

/-- A client registers with one thread, and another one forwards two chunks to it. -/
def twoThreads : List (UInt16 × Event ℕ) :=
  [(0, .receive .client (.chunks [⟨7, [1, 0, 0, 0, 0, 0, 0, 0]⟩])),
    (1, .receive .peer (.chunks
      [⟨9, [1, 0, 0, 0, 0, 0, 0, 0, 42]⟩, ⟨9, [1, 0, 0, 0, 0, 0, 0, 0, 43]⟩])),
    (0, .deliver), (1, .deliver), (0, .deliver), (1, .deliver), (1, .deliver), (1, .complete 0 0)]

theorem fits_twoThreads : ∀ event ∈ twoThreads, event.2.Fits true := by
  simp [twoThreads, Event.Fits, Frame.Fits, chunkSize, dataSize]

theorem ran_twoThreads : succeedsWith
    (execute (Team.step (turn true)) (Threads.initial .initial) twoThreads) (fun _ => true) =
      true := by
  decide +kernel

theorem twoThreads_serve_directory : sends true .initial twoThreads =
    [(7, [1, 0, 0, 0, 0, 0, 0, 0, 42]), (7, [1, 0, 0, 0, 0, 0, 0, 0, 43])] := by
  rcases exists_of_succeedsWith ran_twoThreads with ⟨team, ran, -⟩
  rw [(threads_serve_directory fits_twoThreads ran).2]
  decide +kernel

end Threads

end Urn.Libuv
