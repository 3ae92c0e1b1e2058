import Urn.Libuv.Service
import Urn.Relay.Holdings

/-!
# The statistics of the libuv threads

The main thread takes the statistics when its timer fires, between any two callbacks
of the threads.  A datagram is counted as sent when libuv reports its completion.
What has been taken, what the threads hold and what libuv has still to send are what
the directory delivers.
-/

namespace Urn.Libuv

open Relay Execution

variable {Endpoint : Type}

/-- The datagrams that libuv has still to send for the thread. -/
def Own.waiting (own : Own Endpoint) : List (List UInt8) :=
  own.io.inFlight.map Request.payload

/-- The datagram that an event hands to the relay. -/
def received (own : Own Endpoint) : Event Endpoint → List (List UInt8)
  | .deliver =>
      match own.frame with
      | none => []
      | some delivery =>
          match delivery.next with
          | none => []
          | some (_, arrival) => if 0 < arrival.datagram.length then [arrival.datagram] else []
  | _ => []

section Events

variable {haveMmsg : Bool} {thread : UInt16} {threads : List UInt16} {world after : World Endpoint}
  {delivery : Delivery Endpoint}

theorem held_handled (nodup : threads.Nodup) (thread_mem : thread ∈ threads)
    (arrival : Arrival Endpoint) (handle : Handle) (relay : State UInt16 Endpoint) (flow : Flow)
    (measure : Measure) :
    (arrival.handled thread handle relay).held threads flow measure =
      relay.held threads flow measure +
        if flow = .inbound ∧ 0 < arrival.datagram.length then
          measure.amount64 arrival.datagram.length else 0 := by
  by_cases nonempty : 0 < arrival.datagram.length
  · simp only [nonempty, and_true]
    unfold Arrival.handled
    rw [if_pos nonempty]
    cases handle with
    | client => exact State.held_clientReceived nodup thread_mem relay _ _ flow measure
    | peer =>
        have counted := State.held_updateIoStatistics nodup thread_mem relay .inbound flow
          arrival.datagram.length measure
        cases flow <;> exact counted
  · simp [Arrival.handled, nonempty]

theorem held_of_deliver (nodup : threads.Nodup) (thread_mem : thread ∈ threads)
    (inFrame : world.frame = some delivery) (loaded : world.io.Loaded haveMmsg delivery)
    (delivered : deliver haveMmsg thread delivery world = .ok after) (flow : Flow)
    (measure : Measure) :
    after.relay.held threads flow measure = world.relay.held threads flow measure +
      if flow = .inbound then amounts measure (received world.own .deliver) else 0 := by
  have own_frame : world.own.frame = some delivery := inFrame
  rw [relay_of_deliver loaded delivered]
  simp only [received, own_frame]
  cases next : delivery.next with
  | none => simp [amounts]
  | some found =>
      rw [Option.elim_some, held_handled nodup thread_mem]
      by_cases inbound : flow = .inbound <;> by_cases nonempty : 0 < found.2.datagram.length <;>
        simp [inbound, nonempty, amounts]

/-- A callback leaves the sends in flight, and may add to them. -/
theorem prefix_of_deliver (sound : world.Sound haveMmsg) (inFrame : world.frame = some delivery)
    (loaded : world.io.Loaded haveMmsg delivery)
    (delivered : deliver haveMmsg thread delivery world = .ok after) :
    world.io.inFlight <+: after.io.inFlight := by
  have filling := sound.filling delivery inFrame
  cases forwarded : delivery.forward world.toWorker with
  | none =>
      have unused (ofClient : delivery.handle = .client) :
          (world.io.bufs delivery.buf).refCount = 0 :=
        (sound.refCount inFrame).trans (sound.client delivery inFrame ofClient)
      rcases deliver_of_none haveMmsg thread filling.lastAlloc unused forwarded with
        ⟨relay, result⟩
      simp only [result, Except.ok.injEq] at delivered
      rw [← delivered, inFlight_settle]
  | some target =>
      have free := free_of_forward sound inFrame loaded forwarded
      rcases (deliver_of_some haveMmsg thread filling.lastAlloc forwarded).2 free.ne with
        ⟨relay, result⟩
      simp only [result, Except.ok.injEq] at delivered
      rw [← delivered]
      exact List.prefix_append _ _

theorem amounts_eraseIdx {requests : List (Request Endpoint)} {index : ℕ}
    {request : Request Endpoint} (found : requests[index]? = some request) (measure : Measure) :
    amounts measure (requests.map Request.payload) =
      measure.amount64 request.payload.length +
        amounts measure ((requests.eraseIdx index).map Request.payload) := by
  rcases List.getElem?_eq_some_iff.mp found with ⟨inRange, request_eq⟩
  have perm := List.getElem_cons_eraseIdx_perm inRange
  rw [amounts, ← ((perm.map Request.payload).map _).sum_eq, request_eq]
  rfl

/-- A completion moves a datagram from those in flight to those counted as sent. -/
theorem held_of_complete (nodup : threads.Nodup) (thread_mem : thread ∈ threads)
    (sound : world.Sound haveMmsg) {index : ℕ} {status : ℤ}
    (completed : complete haveMmsg thread index status world = .ok after) (measure : Measure) :
    after.relay.held threads .inbound measure = world.relay.held threads .inbound measure ∧
    after.relay.held threads .outbound measure + amounts measure after.own.waiting =
      world.relay.held threads .outbound measure + amounts measure world.own.waiting := by
  cases inFlight : world.io.inFlight[index]? with
  | none =>
      simp only [complete, inFlight, Except.ok.injEq] at completed
      rw [completed]
      exact ⟨rfl, rfl⟩
  | some request =>
      by_cases failed : status < 0
      · simp [complete, inFlight, failed] at completed
      · rcases sound.consistent with ⟨pooled, consistent⟩
        have intact := consistent.intact request (List.mem_of_getElem? inFlight)
        have size : PacketType.size request.packet = request.payload.length := by
          rw [← intact.payload]
          exact (Memory.load_length _ _ _).symm
        simp only [complete, inFlight, if_neg failed, sendCallback, intact.chunk,
          Backend.runOnSessionSent_eq, bind, Except.bind, pure, Except.pure,
          Except.ok.injEq] at completed
        have counted (flow : Flow) := State.held_updateIoStatistics nodup thread_mem world.relay
          .outbound flow (PacketType.size request.packet) measure
        rw [← completed]
        constructor
        · simpa using counted .inbound
        · have sent := counted .outbound
          rw [if_pos rfl, size] at sent
          simp only [Own.waiting, World.own, inFlight_releaseUnused]
          rw [amounts_eraseIdx inFlight, ← add_assoc, ← sent, size]
          rfl

theorem waiting_of_prefix {own own' : Own Endpoint} {event : Event Endpoint}
    (grown : own.io.inFlight <+: own'.io.inFlight) (measure : Measure) :
    amounts measure own'.waiting =
      amounts measure own.waiting + amounts measure ((sent own event own').map Prod.snd) := by
  rcases grown with ⟨new, inFlight_eq⟩
  rw [← amounts_append, Own.waiting, Own.waiting, sent, ← inFlight_eq, List.drop_left,
    List.map_append, List.map_map]
  rfl

/-- What an event moves: datagrams come in, and sends go out by way of libuv. -/
structure Moves (threads : List UInt16) (measure : Measure) (world : World Endpoint)
    (event : Event Endpoint) (after : World Endpoint) : Prop where
  inbound : after.relay.held threads .inbound measure =
    world.relay.held threads .inbound measure + amounts measure (received world.own event)
  outbound : after.relay.held threads .outbound measure + amounts measure after.own.waiting =
    world.relay.held threads .outbound measure + amounts measure world.own.waiting +
      amounts measure ((sent world.own event after.own).map Prod.snd)

theorem moves_of_quiet {event : Event Endpoint} {measure : Measure}
    (quiet : received world.own event = [])
    (held_eq : ∀ flow, after.relay.held threads flow measure =
      world.relay.held threads flow measure)
    (same : after.io.inFlight = world.io.inFlight) : Moves threads measure world event after where
  inbound := by
    rw [held_eq, quiet]
    exact (add_zero _).symm
  outbound := by
    have grown : world.own.io.inFlight <+: after.own.io.inFlight := by
      rw [World.own, World.own, same]
    rw [held_eq, waiting_of_prefix grown measure, add_assoc]

theorem moves_of_step (nodup : threads.Nodup) (thread_mem : thread ∈ threads)
    {event : Event Endpoint} (sound : world.Sound haveMmsg)
    (loaded : ∀ delivery, world.frame = some delivery → world.io.Loaded haveMmsg delivery)
    (processed : step haveMmsg thread world event = .ok after) (measure : Measure) :
    Moves threads measure world event after := by
  have ignored (quiet : received world.own event = [])
      (same : Except.ok world = (Except.ok after : Except Abort (World Endpoint))) :
      Moves threads measure world event after := by
    rw [Except.ok.injEq] at same
    subst same
    exact moves_of_quiet quiet (fun _ => rfl) rfl
  cases event with
  | receive handle frame =>
      cases frame_eq : world.frame with
      | none =>
          rcases sound.consistent with ⟨pooled, consistent⟩
          rw [frame_eq] at consistent
          rcases consistent.alloc with ⟨-, -, -, -, inFlight, -⟩
          simp only [step, frame_eq, receive] at processed
          split at processed
          · contradiction
          · rw [Except.ok.injEq] at processed
            rw [← processed]
            exact moves_of_quiet rfl (fun _ => rfl) inFlight
      | some delivery => exact ignored rfl (by simpa [step, frame_eq] using processed)
  | deliver =>
      cases frame_eq : world.frame with
      | none =>
          apply ignored
          · simp [received, World.own, frame_eq]
          · simpa [step, frame_eq] using processed
      | some delivery =>
          simp only [step, frame_eq] at processed
          have inFrame := loaded delivery frame_eq
          have held_eq (flow : Flow) :=
            held_of_deliver nodup thread_mem frame_eq inFrame processed flow measure
          constructor
          · simpa using held_eq .inbound
          · have grown : world.own.io.inFlight <+: after.own.io.inFlight :=
              prefix_of_deliver sound frame_eq inFrame processed
            have unchanged := held_eq .outbound
            rw [if_neg (by simp), add_zero] at unchanged
            rw [unchanged, waiting_of_prefix grown measure, add_assoc]
  | complete index status =>
      cases frame_eq : world.frame with
      | none =>
          simp only [step, frame_eq] at processed
          have moved := held_of_complete nodup thread_mem sound processed measure
          have nothing : sent world.own (.complete index status) after.own = [] := by
            have shorter := length_of_complete sound processed
            rw [sent, List.map_eq_nil_iff]
            exact List.drop_eq_nil_of_le shorter
          constructor
          · rw [moved.1]
            exact (add_zero _).symm
          · rw [moved.2, nothing]
            exact (add_zero _).symm
      | some delivery => exact ignored rfl (by simpa [step, frame_eq] using processed)
  | otherRegisters id src =>
      simp only [step, Except.ok.injEq] at processed
      rw [← processed]
      exact moves_of_quiet rfl (fun flow => State.held_tryRegisterSession _ _ _ flow measure) rfl

end Events

section Process

/-- What happens in the process: an event of a thread, or the timer of the main thread. -/
inductive Turn (Endpoint : Type) where
  | onThread (thread : UInt16) (event : Event Endpoint)
  | statisticsTick

/-- The threads, with the relay that they share. -/
abbrev Process (Endpoint : Type) := Team UInt16 (State UInt16 Endpoint) (Own Endpoint)

variable (haveMmsg : Bool) (threads : List UInt16)

/-- One turn; `on_statistics_tick` takes the statistics of all threads. -/
def Process.step (process : Process Endpoint) : Turn Endpoint → Except Abort (Process Endpoint)
  | .onThread thread event => Team.step (turn haveMmsg) process (thread, event)
  | .statisticsTick =>
      .ok { process with shared := (process.shared.loadStatistics threads).2 }

/-- What the turn has taken from the threads. -/
def taken (flow : Flow) (measure : Measure) (process : Process Endpoint) (turn : Turn Endpoint)
    (_after : Process Endpoint) : UInt64 :=
  match turn with
  | .onThread _ _ => 0
  | .statisticsTick => (process.shared.loadStatistics threads).1.get flow measure

def Turn.received (process : Process Endpoint) : Turn Endpoint → List (List UInt8)
  | .onThread thread event => Libuv.received (process.own thread) event
  | .statisticsTick => []

def Turn.asked (process : Process Endpoint) : Turn Endpoint → List (Relay.Request Endpoint)
  | .onThread thread event => Libuv.asked (process.own thread) event
  | .statisticsTick => []

def Turn.sent (process : Process Endpoint) (turn : Turn Endpoint) (after : Process Endpoint) :
    List (Endpoint × List UInt8) :=
  match turn with
  | .onThread thread event => Libuv.sent (process.own thread) event (after.own thread)
  | .statisticsTick => []

/-- What libuv has still to send for the threads. -/
def waiting (measure : Measure) (process : Process Endpoint) : UInt64 :=
  (threads.map fun thread => amounts measure (process.own thread).waiting).sum

/-- The events of a turn belong to one of the threads, and libuv receives no more into a
buffer than fits. -/
def Turn.Fits : Turn Endpoint → Prop
  | .onThread thread event => thread ∈ threads ∧ event.Fits haveMmsg
  | .statisticsTick => True

variable {haveMmsg : Bool} {threads : List UInt16} {process after : Process Endpoint}
  {turn : Turn Endpoint} {turns : List (Turn Endpoint)}

/-- A turn takes, moves or adds datagrams. -/
theorem balanced_of_step (nodup : threads.Nodup) (fits : turn.Fits haveMmsg threads)
    (sound : ∀ thread, (process.own thread).Sound haveMmsg)
    (processed : process.step haveMmsg threads turn = .ok after) (measure : Measure) :
    taken threads .inbound measure process turn after +
        after.shared.held threads .inbound measure =
      process.shared.held threads .inbound measure + amounts measure (turn.received process) ∧
    taken threads .outbound measure process turn after +
        (after.shared.held threads .outbound measure + waiting threads measure after) =
      process.shared.held threads .outbound measure + waiting threads measure process +
        amounts measure ((turn.sent process after).map Prod.snd) := by
  cases turn with
  | statisticsTick =>
      simp only [Process.step, Except.ok.injEq] at processed
      have loaded := State.held_loadStatistics process.shared threads
      rw [← processed]
      constructor
      · simpa [taken, Turn.received, amounts] using loaded .inbound measure
      · simp only [taken, Turn.sent]
        rw [← add_assoc, loaded .outbound measure]
        exact (add_zero _).symm
  | onThread thread event =>
      rcases Team.step_eq_ok.mp processed with ⟨shared, own, stepped, rfl⟩
      have moves := moves_of_step nodup fits.1 ((sound thread).world_of process.shared)
        (sound thread).loaded (turn_eq_ok stepped) measure
      constructor
      · rw [taken, zero_add]
        exact moves.inbound
      · rcases Team.split_sum nodup fits.1 process.own own
            (fun own => amounts measure own.waiting) with ⟨rest, before_eq, after_eq⟩
        have moved : 0 + (shared.held threads .outbound measure + amounts measure own.waiting) =
            process.shared.held threads .outbound measure +
              amounts measure (process.own thread).waiting +
                amounts measure ((sent (process.own thread) event own).map Prod.snd) :=
          (zero_add _).trans moves.outbound
        rw [waiting, waiting, before_eq, after_eq]
        simp only [Turn.sent, Function.update_self]
        exact framed moved

/-- What all turns have handed to the relay. -/
def allReceived (haveMmsg : Bool) (threads : List UInt16) (relay : State UInt16 Endpoint)
    (turns : List (Turn Endpoint)) : List (List UInt8) :=
  observe (Process.step haveMmsg threads) (fun process turn _ => turn.received process)
    (Threads.initial relay) turns

/-- What all turns have asked of the relay. -/
def allAsked (haveMmsg : Bool) (threads : List UInt16) (relay : State UInt16 Endpoint)
    (turns : List (Turn Endpoint)) : List (Relay.Request Endpoint) :=
  observe (Process.step haveMmsg threads) (fun process turn _ => turn.asked process)
    (Threads.initial relay) turns

/-- What all ticks have taken. -/
def allTaken (haveMmsg : Bool) (threads : List UInt16) (relay : State UInt16 Endpoint)
    (turns : List (Turn Endpoint)) (flow : Flow) (measure : Measure) : UInt64 :=
  total (Process.step haveMmsg threads) (taken threads flow measure) (Threads.initial relay) turns

theorem sound_of_turns {relay : State UInt16 Endpoint}
    (fits : ∀ turn ∈ turns, turn.Fits haveMmsg threads)
    (ran : execute (Process.step haveMmsg threads) (Threads.initial relay) turns = .ok process)
    (thread : UInt16) : (process.own thread).Sound haveMmsg := by
  refine execute_invariant (fun turns (process : Process Endpoint) =>
    (∀ turn ∈ turns, turn.Fits haveMmsg threads) → ∀ thread, (process.own thread).Sound haveMmsg)
    (fun _ _ => initial_sound haveMmsg) ?_ ran fits thread
  intro before process turn after _ holds processed fits thread
  have holds := holds fun earlier earlier_mem => fits earlier (List.mem_append_left _ earlier_mem)
  have turnFits := fits turn (by simp)
  cases turn with
  | statisticsTick =>
      simp only [Process.step, Except.ok.injEq] at processed
      rw [← processed]
      exact holds thread
  | onThread mover event =>
      rcases Team.step_eq_ok.mp processed with ⟨shared, own, stepped, rfl⟩
      by_cases same : thread = mover
      · subst same
        simpa using (serves haveMmsg).preserved (holds thread) turnFits.2 stepped
      · simpa [Function.update_of_ne same] using holds thread

section Runs

variable {relay : State UInt16 Endpoint}

theorem answered_of_turns (fits : ∀ turn ∈ turns, turn.Fits haveMmsg threads)
    (ran : execute (Process.step haveMmsg threads) (Threads.initial relay) turns = .ok process) :
    observe (Process.step haveMmsg threads) (fun process turn after => turn.sent process after)
        (Threads.initial relay) turns =
      answers relay.table (allAsked haveMmsg threads relay turns) := by
  have each (before : List (Turn Endpoint)) (turn : Turn Endpoint) (rest : List (Turn Endpoint))
      (state next : Process Endpoint) (turns_eq : turns = before ++ turn :: rest)
      (ranBefore : execute (Process.step haveMmsg threads) (Threads.initial relay) before =
        .ok state) (processed : state.step haveMmsg threads turn = .ok next) :
      Directory.Answered getSessionId (fun process : Process Endpoint => process.shared.table)
        (fun process turn => turn.asked process)
        (fun process turn after => turn.sent process after) state turn next := by
    have sound := sound_of_turns (fun earlier earlier_mem =>
      fits earlier (by simp [turns_eq, earlier_mem])) ranBefore
    have turnFits := fits turn (by simp [turns_eq])
    cases turn with
    | statisticsTick =>
        simp only [Process.step, Except.ok.injEq] at processed
        rw [← processed]
        exact ⟨rfl, rfl⟩
    | onThread thread event =>
        rcases Team.step_eq_ok.mp processed with ⟨shared, own, stepped, rfl⟩
        constructor
        · exact (serves haveMmsg).table_eq (sound thread) turnFits.2 stepped
        · simpa [Turn.sent, Turn.asked] using
            (serves haveMmsg).delivered_eq (sound thread) turnFits.2 stepped
  exact (Directory.answered_of_steps getSessionId each ran).2

theorem amounts_observe {see : Process Endpoint → Turn Endpoint → Process Endpoint →
      List (List UInt8)} (measure : Measure) :
    amounts measure (observe (Process.step haveMmsg threads) see (Threads.initial relay) turns) =
      total (Process.step haveMmsg threads)
        (fun process turn after => amounts measure (see process turn after))
        (Threads.initial relay) turns :=
  sum_observe _ _ _

theorem waiting_initial (measure : Measure) (relay : State UInt16 Endpoint) :
    waiting threads measure (Threads.initial relay) = 0 := by
  apply List.sum_eq_zero
  intro value value_mem
  rcases List.mem_map.mp value_mem with ⟨thread, -, rfl⟩
  rfl

/-- Whenever the timer fires: what it has reported, what the threads hold and what libuv
has still to send are the datagrams which the directory delivers, and the datagrams
reported and held as received are those which libuv has received. -/
theorem statistics_account_for_directory (nodup : threads.Nodup)
    (fits : ∀ turn ∈ turns, turn.Fits haveMmsg threads)
    (ran : execute (Process.step haveMmsg threads) (Threads.initial relay) turns = .ok process)
    (measure : Measure) :
    allTaken haveMmsg threads relay turns .inbound measure +
        process.shared.held threads .inbound measure =
      relay.held threads .inbound measure +
        amounts measure (allReceived haveMmsg threads relay turns) ∧
    allTaken haveMmsg threads relay turns .outbound measure +
        (process.shared.held threads .outbound measure + waiting threads measure process) =
      relay.held threads .outbound measure +
        amounts measure ((answers relay.table (allAsked haveMmsg threads relay turns)).map
          Prod.snd) := by
  have balanced (before : List (Turn Endpoint)) (turn : Turn Endpoint)
      (rest : List (Turn Endpoint)) (state next : Process Endpoint)
      (turns_eq : turns = before ++ turn :: rest)
      (ranBefore : execute (Process.step haveMmsg threads) (Threads.initial relay) before =
        .ok state) (processed : state.step haveMmsg threads turn = .ok next) :=
    balanced_of_step nodup (fits turn (by simp [turns_eq]))
      (sound_of_turns (fun earlier earlier_mem => fits earlier (by simp [turns_eq, earlier_mem]))
        ranBefore) processed measure
  constructor
  · rw [allReceived, amounts_observe]
    apply conserved ran
    intro before turn rest state next turns_eq ranBefore processed
    exact (balanced before turn rest state next turns_eq ranBefore processed).1
  · have sums : amounts measure ((answers relay.table
        (allAsked haveMmsg threads relay turns)).map Prod.snd) =
        total (Process.step haveMmsg threads)
          (fun process turn after => amounts measure ((turn.sent process after).map Prod.snd))
          (Threads.initial relay) turns := by
      rw [← answered_of_turns fits ran]
      simp only [amounts, List.map_map]
      exact sum_observe _ _ _
    have start : relay.held threads .outbound measure = (Threads.initial relay :
        Process Endpoint).shared.held threads .outbound measure +
          waiting threads measure (Threads.initial relay) := by
      rw [waiting_initial]
      exact (add_zero _).symm
    rw [sums, start]
    apply conserved ran
    intro before turn rest state next turns_eq ranBefore processed
    exact (balanced before turn rest state next turns_eq ranBefore processed).2

/-- The timer fires when one of two forwarded datagrams is still in flight. -/
def tickBetween : List (Turn ℕ) :=
  twoThreads.map (fun event => .onThread event.1 event.2) ++ [.statisticsTick]

theorem fits_tickBetween : ∀ turn ∈ tickBetween, turn.Fits true [0, 1] := by
  simp [tickBetween, twoThreads, Turn.Fits, Event.Fits, Frame.Fits, chunkSize, dataSize]

/-- What is reported and what is in flight are two datagrams of nine bytes. -/
theorem tickBetween_accounts_for_directory : ∃ process : Process ℕ,
    execute (Process.step true [0, 1]) (Threads.initial .initial) tickBetween = .ok process ∧
      allTaken true [0, 1] .initial tickBetween .outbound .bytes +
        (process.shared.held [0, 1] .outbound .bytes + waiting [0, 1] .bytes process) = 18 := by
  have succeeds : succeedsWith (execute (Process.step true [0, 1]) (Threads.initial .initial)
      tickBetween) (fun _ => true) = true := by
    decide +kernel
  rcases exists_of_succeedsWith succeeds with ⟨process, ran, -⟩
  refine ⟨process, ran, ?_⟩
  have nodup : [(0 : UInt16), 1].Nodup := by decide
  rw [(statistics_account_for_directory nodup fits_tickBetween ran .bytes).2]
  decide +kernel

end Runs

end Process

end Urn.Libuv
