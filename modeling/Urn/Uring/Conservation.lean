import Urn.Uring.Processing

/-!
# Conservation of events

Between two steps of an io_uring worker every event is free or belongs to exactly
one operation.  One operation receives from the client socket, one from the peer
socket, one is the timer if the worker is the main one, and all others send.  So
a completion is always processed in the role for which its operation was queued,
the worker keeps listening on both sockets, and the submission queue never fills.
-/

namespace Urn.Uring

open Relay Execution

variable {Endpoint : Type}

/-- The invariant of a worker between two steps. -/
structure Io.Sound (main : Bool) (io : Io Endpoint) : Prop where
  balanced : io.Balanced []
  clientRx : io.posted .clientRx = 1
  peerRx : io.posted .peerRx = 1
  timer : io.posted .timer = if main = true then 1 else 0

theorem length_eq_count (kinds : List RingEventType) (valid : ∀ kind ∈ kinds, kind ≠ .invalid) :
    kinds.length =
      kinds.count .clientRx + kinds.count .peerRx + kinds.count .timer + kinds.count .peerTx := by
  induction kinds with
  | nil => rfl
  | cons kind kinds ih =>
      have rest := ih fun other other_mem => valid other (List.mem_cons_of_mem _ other_mem)
      have here := valid kind List.mem_cons_self
      cases kind with
      | invalid => contradiction
      | clientRx => simp; omega
      | peerRx => simp; omega
      | peerTx => simp; omega
      | timer => simp; omega

theorem Io.Balanced.length_eq_posted {io : Io Endpoint} {held : List EventPtr}
    (balanced : io.Balanced held) :
    io.operations.length =
      io.posted .clientRx + io.posted .peerRx + io.posted .timer + io.posted .peerTx := by
  have lengths := length_eq_count (io.operations.map Operation.kind) (by
    intro kind kind_mem
    rcases List.mem_map.mp kind_mem with ⟨operation, operation_mem, rfl⟩
    exact (balanced.intact operation operation_mem).valid)
  rwa [List.length_map] at lengths

namespace Io.Sound

variable {main : Bool} {io after : Io Endpoint}

theorem of_perm (sound : io.Sound main) (balanced : after.Balanced [])
    (operations : after.operations.Perm io.operations) : after.Sound main := by
  have posted (kind : RingEventType) : after.posted kind = io.posted kind := by
    simp [Io.posted, (operations.map Operation.kind).count_eq]
  refine ⟨balanced, ?_, ?_, ?_⟩
  · rw [posted, sound.clientRx]
  · rw [posted, sound.peerRx]
  · rw [posted, sound.timer]

theorem posted_take {completion : Completion Endpoint} {cq : List (Completion Endpoint)}
    (cq_eq : io.cq = completion :: cq) (kind : RingEventType) :
    io.posted kind =
      ({ io with cq } : Io Endpoint).posted kind +
        if completion.operation.kind = kind then 1 else 0 :=
  posted_of_perm (operations_take cq_eq) kind

/-- What replaces a processed operation keeps the table balanced, and has its role. -/
theorem replace {completion : Completion Endpoint} {cq : List (Completion Endpoint)}
    (sound : io.Sound main) (cq_eq : io.cq = completion :: cq) (balanced : after.Balanced [])
    (posted : ∀ kind, kind ≠ .peerTx → after.posted kind =
      ({ io with cq } : Io Endpoint).posted kind +
        if completion.operation.kind = kind then 1 else 0) : after.Sound main := by
  refine ⟨balanced, ?_, ?_, ?_⟩
  · rw [posted _ (by simp), ← posted_take cq_eq, sound.clientRx]
  · rw [posted _ (by simp), ← posted_take cq_eq, sound.peerRx]
  · rw [posted _ (by simp), ← posted_take cq_eq, sound.timer]

end Io.Sound

section Start

theorem balanced_initialize [Inhabited Endpoint] :
    (listenContextInitialize : Io Endpoint).Balanced [] where
  partition ev := by
    simp [listenContextInitialize, Io.owners, Io.operations, List.count_range]
  intact := by simp [listenContextInitialize, Io.operations]
  delivered := by simp [listenContextInitialize]

theorem start_sound [Inhabited Endpoint] (thread : UInt16) (relay : State UInt16 Endpoint) :
    ∃ worker, start thread relay = .ok worker ∧ worker.io.Sound (isMainWorker thread) ∧
      worker.relay = relay ∧ worker.io.cq = [] ∧
      ∀ operation ∈ worker.io.operations, operation.sent = none := by
  have initial : (listenContextInitialize : Io Endpoint).Balanced [] := balanced_initialize
  have clientFree : (listenContextInitialize : Io Endpoint).freeEventIds =
      15 :: (List.range 15).reverse := rfl
  have client : listenContextInitialize.receiveAgain .clientRx .client = .ok _ :=
    Io.receiveAgain_of_free clientFree initial.room .client
  have clientBalanced := initial.armed clientFree .client
  have peerFree : ((listenContextInitialize : Io Endpoint).armed 15 (List.range 15).reverse
      .client).freeEventIds = 14 :: (List.range 14).reverse := rfl
  have peer : Io.receiveAgain _ .peerRx .peer = .ok _ :=
    Io.receiveAgain_of_free peerFree clientBalanced.room .peer
  have peerBalanced := clientBalanced.armed peerFree .peer
  by_cases main : isMainWorker thread = true
  · have timerFree : (((listenContextInitialize : Io Endpoint).armed 15 (List.range 15).reverse
        .client).armed 14 (List.range 14).reverse .peer).freeEventIds =
          13 :: (List.range 13).reverse := rfl
    rcases peerBalanced.alloc timerFree .timer with ⟨allocated, heldBalanced⟩
    have added : Io.addTimeout _ 13 statisticsTimeoutMs = .ok _ :=
      Io.addTimeout_eq heldBalanced.room
    have timed := heldBalanced.timed (by simp [Io.modifyEvent, RingEvent.allocated])
      (by simp [Io.modifyEvent, RingEvent.allocated])
    refine ⟨⟨relay, _⟩, ?_, ⟨timed, ?_, ?_, ?_⟩, rfl, rfl, ?_⟩
    · simp only [start, client, peer, bind, Except.bind, main, if_true, allocated, added]
      rfl
    · rfl
    · rfl
    · simp only [main, if_true]
      rfl
    · exact List.forall_mem_cons.mpr ⟨rfl, List.forall_mem_cons.mpr ⟨rfl,
        List.forall_mem_singleton.mpr rfl⟩⟩
  · refine ⟨⟨relay, _⟩, ?_, ⟨peerBalanced, ?_, ?_, ?_⟩, rfl, rfl, ?_⟩
    · simp only [start, client, peer, bind, Except.bind, main, Bool.false_eq_true, if_false]
      rfl
    · rfl
    · rfl
    · rw [if_neg main]
      rfl
    · exact List.forall_mem_cons.mpr ⟨rfl, List.forall_mem_singleton.mpr rfl⟩

end Start

/-- The completion is a datagram from the peer that belongs to a session. -/
def Completion.Forwards (completion : Completion Endpoint) (relay : State UInt16 Endpoint) :
    Prop :=
  completion.operation.opcode = .recvmsg .peer ∧ 0 ≤ completion.res ∧
    ∃ src bytes target, completion.received = some (src, bytes) ∧ relay.route bytes = some target

/-- The event makes the worker process such a completion. -/
def ForwardsNext (worker : Worker Endpoint (Io Endpoint)) (event : Event Endpoint) : Prop :=
  match event, worker.io.cq with
  | .process, completion :: _ => completion.Forwards worker.relay
  | _, _ => False

section Steps

variable {thread : UInt16} {threads : List UInt16} {main : Bool}
  {worker : Worker Endpoint (Io Endpoint)} {completion : Completion Endpoint}
  {cq : List (Completion Endpoint)}

theorem posted_again (io : Io Endpoint) (ev : EventPtr) (socket : Socket) (kind : RingEventType) :
    (io.again ev socket).posted kind =
      io.posted kind + if socket.receiveType = kind then 1 else 0 :=
  Io.posted_armed (io.releaseEvent ev) ev io.freeEventIds socket kind

/-- An operation other than a send is queued again after its completion. -/
def Completion.Requeues (completion : Completion Endpoint) (io after : Io Endpoint) : Prop :=
  (completion.operation.kind = .peerTx ∧ after.operations = io.operations) ∨
    (completion.operation.kind ≠ .peerTx ∧ ∃ ev,
      after.operations.Perm (⟨completion.operation.opcode, ev, none⟩ :: io.operations))

/-- Processing a completion which is not forwarded fails only if a receive has failed. -/
theorem process_of_not_forwards (thread : UInt16) (threads : List UInt16)
    (balanced : worker.io.Balanced []) (cq_eq : worker.io.cq = completion :: cq)
    (kept : ¬completion.Forwards worker.relay) :
    process thread threads completion (taken worker cq) = .error .receiveFailed ∨
      ∃ after, process thread threads completion (taken worker cq) = .ok after ∧
        after.io.Balanced [] ∧ completion.Requeues (taken worker cq).io after.io := by
  have intact := balanced.intact _ (head_mem_operations cq_eq)
  have held := balanced.take cq_eq
  cases opcode : completion.operation.opcode with
  | recvmsg socket =>
      have rearmed := held.rearm intact.index socket
      have requeues : completion.Requeues (taken worker cq).io
          ((taken worker cq).io.again completion.operation.userData socket) := by
        right
        constructor
        · cases socket <;> simp [Operation.kind, opcode]
        · rw [opcode]
          exact ⟨_, Io.operations_armed _ _ _ socket⟩
      by_cases failed : completion.res < 0
      · exact Or.inl (process_failed_receive thread threads balanced cq_eq opcode failed)
      · right
        cases socket with
        | client =>
            rcases process_client thread threads balanced cq_eq opcode (not_lt.mp failed) with
              ⟨relay, -, result⟩
            exact ⟨_, result, rearmed.2, requeues⟩
        | peer =>
            rcases reportsPeer balanced cq_eq opcode (not_lt.mp failed) with ⟨src, bytes, reports⟩
            cases routed : worker.relay.route bytes with
            | some target =>
                exact absurd ⟨opcode, not_lt.mp failed, src, bytes, target, reports.received,
                  routed⟩ kept
            | none =>
                rcases process_unrouted thread threads balanced reports routed with
                  ⟨relay, -, result⟩
                exact ⟨_, result, rearmed.2, requeues⟩
  | sendmsg socket =>
      right
      have valid := intact.valid
      cases socket with
      | peer => simp [Operation.kind, opcode] at valid
      | client =>
          rcases process_sent thread threads balanced cq_eq opcode with ⟨relay, -, result⟩
          refine ⟨_, result, held.release intact.index, Or.inl ⟨?_, rfl⟩⟩
          simp [Operation.kind, opcode]
  | timeout =>
      right
      have type := intact.type
      simp only [Operation.kind, opcode] at type
      rcases process_timer thread threads balanced cq_eq opcode with ⟨relay, -, result⟩
      refine ⟨_, result, held.timed type intact.index, Or.inr ⟨?_, ?_⟩⟩
      · simp [Operation.kind, opcode]
      · rw [opcode]
        exact ⟨_, Io.operations_timed _ _⟩

theorem Completion.Requeues.posted {io after : Io Endpoint}
    (requeues : completion.Requeues io after) {kind : RingEventType} (notTx : kind ≠ .peerTx) :
    after.posted kind = io.posted kind + if completion.operation.kind = kind then 1 else 0 := by
  rcases requeues with ⟨isTx, same⟩ | ⟨-, ev, queued⟩
  · rw [Io.posted, Io.posted, same, isTx, if_neg (Ne.symm notTx), Nat.add_zero]
  · exact Io.posted_of_perm queued kind

/-- Processing a completion which is forwarded needs a free event. -/
theorem process_of_forwards (thread : UInt16) (threads : List UInt16)
    (sound : worker.io.Sound main) (cq_eq : worker.io.cq = completion :: cq)
    (forwards : completion.Forwards worker.relay) :
    (worker.io.freeEventIds = [] ∧
      process thread threads completion (taken worker cq) = .error .outOfFreeEvents) ∨
    (worker.io.freeEventIds ≠ [] ∧
      ∃ after, process thread threads completion (taken worker cq) = .ok after ∧
        after.io.Sound main) := by
  have balanced := sound.balanced
  rcases forwards with ⟨opcode, succeeded, src, bytes, target, received, routed⟩
  rcases reportsPeer balanced cq_eq opcode succeeded with ⟨src', bytes', reports⟩
  have same := reports.received
  rw [received, Option.some.injEq, Prod.mk.injEq] at same
  rcases same with ⟨rfl, rfl⟩
  cases free : worker.io.freeEventIds with
  | nil => exact Or.inl ⟨rfl, process_routed_full thread threads balanced reports routed free⟩
  | cons txEvent rest =>
      right
      rcases process_routed thread threads balanced reports routed free with ⟨relay, -, result⟩
      have intact := balanced.intact _ (head_mem_operations cq_eq)
      have held : (taken worker cq).io.Balanced [completion.operation.userData] :=
        balanced.take cq_eq
      have freeTaken : (taken worker cq).io.freeEventIds = txEvent :: rest := free
      have short : (completion.packet bytes.length).length ≤ memoryPerPacket := reports.short
      have transmits := held.transmitting freeTaken target.2 short
      have different : completion.operation.userData ≠ txEvent :=
        held.held_ne_free (freeTaken ▸ List.mem_cons_self) List.mem_cons_self
      have index : ((taken worker cq).io.ioEvents completion.operation.userData).index =
          completion.operation.userData := intact.index
      have rearmed := transmits.1.rearm
        ((congrArg RingEvent.index (transmits.2 _ different).event).trans index) .peer
      refine ⟨by simp, _, result, sound.replace cq_eq rearmed.2 ?_⟩
      intro kind notTx
      rw [posted_again, Io.posted_transmitting, if_neg (Ne.symm notTx), Operation.kind, opcode]
      rfl

theorem step_outcome (thread : UInt16) (threads : List UInt16) (sound : worker.io.Sound main)
    (event : Event Endpoint) :
    (step thread threads worker event = .error .outOfFreeEvents ∧
      ForwardsNext worker event ∧ worker.io.freeEventIds = []) ∨
    ((step thread threads worker event = .error .receiveFailed ∨
        ∃ after, step thread threads worker event = .ok after ∧ after.io.Sound main) ∧
      (ForwardsNext worker event → worker.io.freeEventIds ≠ [])) := by
  cases event with
  | submit =>
      right
      have submitted := sound.balanced.submit
      exact ⟨Or.inr ⟨_, rfl, sound.of_perm submitted.1 submitted.2⟩, False.elim⟩
  | complete index reply =>
      right
      have completed := sound.balanced.complete index reply
      exact ⟨Or.inr ⟨_, rfl, sound.of_perm completed.1 completed.2⟩, False.elim⟩
  | otherRegisters id src => exact Or.inr ⟨Or.inr ⟨_, rfl, sound⟩, False.elim⟩
  | process =>
      cases cq_eq : worker.io.cq with
      | nil =>
          right
          have idle : step thread threads worker .process = .ok worker := by simp [step, cq_eq]
          exact ⟨Or.inr ⟨_, idle, sound⟩, by simp [ForwardsNext, cq_eq]⟩
      | cons completion cq =>
          have processed : step thread threads worker .process =
              process thread threads completion (taken worker cq) := by
            simp [step, cq_eq, taken]
          have forwardsNext : ForwardsNext worker .process ↔
              completion.Forwards worker.relay := by
            simp [ForwardsNext, cq_eq]
          rw [processed, forwardsNext]
          by_cases forwards : completion.Forwards worker.relay
          · rcases process_of_forwards thread threads sound cq_eq forwards with
              ⟨full, failed⟩ | ⟨free, succeeded⟩
            · exact Or.inl ⟨failed, forwards, full⟩
            · exact Or.inr ⟨Or.inr succeeded, fun _ => free⟩
          · right
            refine ⟨?_, fun isForward => absurd isForward forwards⟩
            rcases process_of_not_forwards thread threads sound.balanced cq_eq forwards with
              failed | ⟨after, result, balanced, requeues⟩
            · exact Or.inl failed
            · refine Or.inr ⟨after, result, sound.replace cq_eq balanced ?_⟩
              intro kind notTx
              exact requeues.posted notTx

theorem sound_of_step {after : Worker Endpoint (Io Endpoint)} {event : Event Endpoint}
    (sound : worker.io.Sound main) (processed : step thread threads worker event = .ok after) :
    after.io.Sound main := by
  rcases step_outcome thread threads sound event with ⟨failed, -⟩ | ⟨failed | ⟨_, result, next⟩, -⟩
  · rw [failed] at processed
    contradiction
  · rw [failed] at processed
    contradiction
  · simp only [result, Except.ok.injEq] at processed
    exact processed ▸ next

theorem sound_of_execute {first : Worker Endpoint (Io Endpoint)} {events : List (Event Endpoint)}
    (sound : first.io.Sound main)
    (ran : execute (step thread threads) first events = .ok worker) : worker.io.Sound main := by
  refine execute_invariant (fun _ (worker : Worker Endpoint (Io Endpoint)) =>
    worker.io.Sound main) sound ?_ ran
  intro _ _ _ _ _ sound processed
  exact sound_of_step sound processed

end Steps

section Conservation

variable [Inhabited Endpoint] {thread : UInt16} {threads : List UInt16}
  {relay : State UInt16 Endpoint} {events : List (Event Endpoint)}
  {worker : Worker Endpoint (Io Endpoint)}

theorem run_eq (thread : UInt16) (threads : List UInt16) (relay : State UInt16 Endpoint)
    (events : List (Event Endpoint)) :
    ∃ first, start thread relay = .ok first ∧ first.io.Sound (isMainWorker thread) ∧
      run thread threads relay events = execute (step thread threads) first events := by
  rcases start_sound thread relay with ⟨first, started, sound, -⟩
  exact ⟨first, started, sound, by simp [run, started]⟩

theorem sound_of_run (ran : run thread threads relay events = .ok worker) :
    worker.io.Sound (isMainWorker thread) := by
  rcases run_eq thread threads relay events with ⟨first, -, sound, run_eq⟩
  rw [run_eq] at ran
  exact sound_of_execute sound ran

/-- The events of the table between two steps. -/
structure EventConservation (main : Bool) (io : Io Endpoint) : Prop where
  free_nodup : io.freeEventIds.Nodup
  partition : (io.freeEventIds ++ io.owners).Perm (List.range numEvents)
  distinct : io.owners.Nodup
  matching : ∀ operation ∈ io.operations,
    (io.ioEvents operation.userData).type = operation.kind ∧
    (io.ioEvents operation.userData).index = operation.userData
  clientRx : io.posted .clientRx = 1
  peerRx : io.posted .peerRx = 1
  timer : io.posted .timer = if main = true then 1 else 0
  others : io.operations.length =
    io.posted .clientRx + io.posted .peerRx + io.posted .timer + io.posted .peerTx
  handled : ∀ operation ∈ io.operations, operation.kind ≠ .invalid
  room : io.sq.length < queueEntries

/-- In every run, and for every order of completions, the events are conserved, and
the submission queue does not fill. -/
theorem event_conservation (thread : UInt16) (threads : List UInt16)
    (relay : State UInt16 Endpoint) (events : List (Event Endpoint)) :
    run thread threads relay events ≠ .error .noSqe ∧
    ∀ worker, run thread threads relay events = .ok worker →
      EventConservation (isMainWorker thread) worker.io := by
  constructor
  · rcases run_eq thread threads relay events with ⟨first, -, sound, run_eq⟩
    rw [run_eq]
    intro failed
    rcases execute_error_iff.mp failed with ⟨before, event, after, worker, rfl, ran, last⟩
    rcases step_outcome thread threads (sound_of_execute sound ran) event with
      ⟨result, -⟩ | ⟨result | ⟨_, result, -⟩, -⟩
    · simp [result] at last
    · simp [result] at last
    · simp [result] at last
  · intro worker ran
    have sound := sound_of_run ran
    have balanced := sound.balanced
    have partition : (worker.io.freeEventIds ++ worker.io.owners).Perm (List.range numEvents) := by
      apply List.perm_iff_count.mpr
      intro ev
      have balance := balanced.partition ev
      rw [List.count_nil, Nat.add_zero] at balance
      rw [List.count_append, balance, List.count_range]
    refine ⟨?_, partition, balanced.owners_nodup, ?_, sound.clientRx, sound.peerRx, sound.timer,
      sound.balanced.length_eq_posted, ?_, ?_⟩
    · exact (List.nodup_append.mp (partition.nodup_iff.mpr List.nodup_range)).1
    · intro operation operation_mem
      have intact := balanced.intact operation operation_mem
      exact ⟨intact.type, intact.index⟩
    · intro operation operation_mem
      exact (balanced.intact operation operation_mem).valid
    · have length := balanced.length
      simp only [Io.operations, List.length_append, numEvents] at length
      simp only [queueEntries]
      omega

end Conservation

end Urn.Uring
