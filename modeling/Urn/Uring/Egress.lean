import Urn.Relay.Accounting
import Urn.Uring.Conservation

/-!
# Egress accounting of an io_uring worker

What the statistics of a worker say about its sends, compared with the sends that
have succeeded.  An `Audit` follows a worker, writes down the sizes of the datagrams
which it has received and of those which it has sent, and keeps what `load_statistics`
has taken from its slot, be it called by the timer of the worker or by another one.
-/

namespace Urn.Uring

open Relay Execution

variable {Endpoint : Type}

/-- The size of what `start_send` was called with. -/
def Operation.payload (operation : Operation Endpoint) : ℕ :=
  match operation.sent with
  | some (_, bytes) => bytes.length
  | none => 0

/-- The size of the datagram that a receive has stored. -/
def Completion.size (completion : Completion Endpoint) : ℕ :=
  match completion.received with
  | some (_, bytes) => bytes.length
  | none => 0

structure Audit (Endpoint : Type) where
  worker : Worker Endpoint (Io Endpoint)
  taken : List Statistics
  received : List ℕ
  succeeded : List ℕ

inductive AuditEvent (Endpoint : Type) where
  | own (event : Event Endpoint)
  /-- The main worker calls `load_statistics`. -/
  | otherLoads

/-- The completion that the event makes the worker process. -/
def processed? (worker : Worker Endpoint (Io Endpoint)) (event : Event Endpoint) :
    Option (Completion Endpoint) :=
  match event with
  | .process => worker.io.cq.head?
  | _ => none

section Audit

variable (thread : UInt16) (threads : List UInt16)

/-- What the processing of a completion adds to the books. -/
def Audit.note (audit : Audit Endpoint) (completion : Completion Endpoint) : Audit Endpoint :=
  match completion.operation.kind with
  | .clientRx | .peerRx => { audit with received := audit.received ++ [completion.size] }
  | .peerTx =>
      if 0 ≤ completion.res then
        { audit with succeeded := audit.succeeded ++ [completion.operation.payload] }
      else
        audit
  | .timer =>
      { audit with taken := audit.taken ++ [audit.worker.relay.perThreadStatistics thread] }
  | .invalid => audit

def Audit.step (audit : Audit Endpoint) : AuditEvent Endpoint → Except Abort (Audit Endpoint)
  | .own event =>
      match Uring.step thread threads audit.worker event with
      | .error reason => .error reason
      | .ok worker =>
          match processed? audit.worker event with
          | none => .ok { audit with worker }
          | some completion => .ok { audit.note thread completion with worker }
  | .otherLoads =>
      .ok { audit with
        worker := { audit.worker with
          relay := (audit.worker.relay.loadStatistics threads).2 }
        taken := audit.taken ++ [audit.worker.relay.perThreadStatistics thread] }

def Audit.begin (worker : Worker Endpoint (Io Endpoint)) : Audit Endpoint := ⟨worker, [], [], []⟩

def Audit.run [Inhabited Endpoint] (events : List (AuditEvent Endpoint)) :
    Except Abort (Audit Endpoint) :=
  match start thread State.initial with
  | .error reason => .error reason
  | .ok worker => execute (Audit.step thread threads) (.begin worker) events

/-- What has been recorded in the slot of the worker since its start. -/
def Audit.recorded (audit : Audit Endpoint) (flow : Flow) (measure : Measure) : UInt64 :=
  (audit.taken.map fun statistics => statistics.get flow measure).sum +
    (audit.worker.relay.perThreadStatistics thread).get flow measure

/-- The records agree with the books: the sends that have succeeded, the datagrams that have
been received, and no more bytes sent than received. -/
structure Audit.Truthful (audit : Audit Endpoint) : Prop where
  outPackets : audit.recorded thread .outbound .packets = UInt64.ofNat audit.succeeded.length
  outBytes : audit.recorded thread .outbound .bytes = UInt64.ofNat audit.succeeded.sum
  inBytes : audit.recorded thread .inbound .bytes = UInt64.ofNat audit.received.sum
  sent_le : audit.succeeded.sum ≤ audit.received.sum

end Audit

/-- The kernel answers a send with the size of the datagram or with a negative code. -/
def KernelReports (audit : Audit Endpoint) : AuditEvent Endpoint → Prop
  | .own (.complete index (.result res)) => ∀ operation,
      audit.worker.io.inFlight[index]? = some operation →
      operation.opcode = .sendmsg .client → res < 0 ∨ res = operation.payload
  | _ => True

/-- The worker processes a send that has failed. -/
def FailedSend (audit : Audit Endpoint) : AuditEvent Endpoint → Prop
  | .own event => ∃ completion, processed? audit.worker event = some completion ∧
      completion.operation.kind = .peerTx ∧ completion.res < 0
  | .otherLoads => False

instance decidableKernelReports (audit : Audit Endpoint) :
    (event : AuditEvent Endpoint) → Decidable (KernelReports audit event)
  | .own (.complete index (.result res)) =>
      inferInstanceAs (Decidable (∀ operation ∈ audit.worker.io.inFlight[index]?,
        operation.opcode = .sendmsg .client → res < 0 ∨ res = operation.payload))
  | .own (.complete _ (.received _ _)) => isTrue trivial
  | .own .submit => isTrue trivial
  | .own .process => isTrue trivial
  | .own (.otherRegisters _ _) => isTrue trivial
  | .otherLoads => isTrue trivial

instance decidableFailedSend (audit : Audit Endpoint) :
    (event : AuditEvent Endpoint) → Decidable (FailedSend audit event)
  | .own event =>
      inferInstanceAs (Decidable (∃ completion ∈ processed? audit.worker event,
        completion.operation.kind = .peerTx ∧ completion.res < 0))
  | .otherLoads => isFalse id

/-! ## Processing a completion -/

section Processing

variable {thread : UInt16} {threads : List UInt16} {worker after : Worker Endpoint (Io Endpoint)}
  {completion : Completion Endpoint} {cq : List (Completion Endpoint)}

/-- The bytes of the sends which have not been processed. -/
def Io.pendingBytes (io : Io Endpoint) : ℕ := (io.operations.map Operation.payload).sum

theorem Io.pendingBytes_of_perm {io after : Io Endpoint}
    (operations : after.operations.Perm io.operations) : after.pendingBytes = io.pendingBytes :=
  (operations.map Operation.payload).sum_eq

theorem Io.pendingBytes_of_perm_cons {io after : Io Endpoint} {operation : Operation Endpoint}
    (operations : after.operations.Perm (operation :: io.operations)) :
    after.pendingBytes = operation.payload + io.pendingBytes := by
  simp [pendingBytes, (operations.map Operation.payload).sum_eq]

/-- What is counted for the completion in the slot of the thread. -/
def Completion.charge (completion : Completion Endpoint) (statistics : Statistics) : Statistics :=
  match completion.operation.kind with
  | .clientRx | .peerRx => statistics.count .inbound completion.size
  | .peerTx => statistics.count .outbound (toUInt32 completion.res)
  | .timer => .zero
  | .invalid => statistics

/-- The bytes that the processing of the completion takes from those that are pending. -/
structure Processed (thread : UInt16) (worker after : Worker Endpoint (Io Endpoint))
    (completion : Completion Endpoint) (cq : List (Completion Endpoint)) : Prop where
  statistics : after.relay.perThreadStatistics thread =
    completion.charge (worker.relay.perThreadStatistics thread)
  cq_eq : after.io.cq = cq
  pending : after.io.pendingBytes + (if completion.operation.kind = .peerTx then
      completion.operation.payload else 0) ≤
    worker.io.pendingBytes + (if completion.operation.kind = .clientRx ∨
      completion.operation.kind = .peerRx then completion.size else 0)

theorem Io.pendingBytes_again (io : Io Endpoint) (ev : EventPtr) (socket : Socket) :
    (io.again ev socket).pendingBytes = io.pendingBytes := by
  have armed := pendingBytes_of_perm_cons
    (operations_armed (io.releaseEvent ev) ev io.freeEventIds socket)
  exact armed.trans (Nat.zero_add _)

theorem pendingBytes_taken (cq_eq : worker.io.cq = completion :: cq) :
    worker.io.pendingBytes =
      completion.operation.payload + (taken worker cq).io.pendingBytes :=
  Io.pendingBytes_of_perm_cons (Io.operations_take cq_eq)

theorem size_of_delivered {socket : Socket} (balanced : worker.io.Balanced [])
    (cq_eq : worker.io.cq = completion :: cq)
    (opcode : completion.operation.opcode = .recvmsg socket) (succeeded : 0 ≤ completion.res) :
    completion.res = completion.size := by
  have completion_mem : completion ∈ worker.io.cq := cq_eq ▸ List.mem_cons_self
  rcases balanced.delivered completion completion_mem socket opcode succeeded with
    ⟨src, bytes, received, res, -⟩
  simpa [Completion.size, received] using res

theorem processed_client (balanced : worker.io.Balanced [])
    (cq_eq : worker.io.cq = completion :: cq)
    (opcode : completion.operation.opcode = .recvmsg .client) (succeeded : 0 ≤ completion.res)
    (result : process thread threads completion (taken worker cq) = .ok after) :
    Processed thread worker after completion cq := by
  have size := size_of_delivered balanced cq_eq opcode succeeded
  have pending := pendingBytes_taken cq_eq
  rcases process_client thread threads balanced cq_eq opcode succeeded with
    ⟨relay, statistics, expected⟩
  simp only [expected, Except.ok.injEq] at result
  subst result
  constructor
  · have res_eq : completion.res.toNat = completion.size := by omega
    simp [statistics, State.updateIoStatistics, Completion.charge, Operation.kind, opcode, res_eq]
  · rfl
  · rw [Io.pendingBytes_again]
    simp only [Operation.kind, opcode]
    simp
    omega

theorem processed_peer (balanced : worker.io.Balanced [])
    (cq_eq : worker.io.cq = completion :: cq)
    (opcode : completion.operation.opcode = .recvmsg .peer) (succeeded : 0 ≤ completion.res)
    (result : process thread threads completion (taken worker cq) = .ok after) :
    Processed thread worker after completion cq := by
  have pending := pendingBytes_taken cq_eq
  rcases reportsPeer balanced cq_eq opcode succeeded with ⟨src, bytes, reports⟩
  have size : completion.size = bytes.length := by simp [Completion.size, reports.received]
  cases routed : worker.relay.route bytes with
  | none =>
      rcases process_unrouted thread threads balanced reports routed with
        ⟨relay, statistics, expected⟩
      simp only [expected, Except.ok.injEq] at result
      subst result
      constructor
      · simp [statistics, State.updateIoStatistics, Completion.charge, Operation.kind, opcode, size]
      · rfl
      · rw [Io.pendingBytes_again]
        simp only [Operation.kind, opcode]
        simp
        omega
  | some target =>
      cases free : worker.io.freeEventIds with
      | nil =>
          have failed := process_routed_full thread threads balanced reports routed free
          rw [failed] at result
          contradiction
      | cons txEvent rest =>
          rcases process_routed thread threads balanced reports routed free with
            ⟨relay, statistics, expected⟩
          simp only [expected, Except.ok.injEq] at result
          subst result
          have queued := Io.pendingBytes_of_perm_cons (Io.operations_transmitting
            (taken worker cq).io txEvent rest target.2 (completion.packet bytes.length))
          have sent : (Operation.payload ⟨.sendmsg .client, txEvent, some (target.2,
              (taken worker cq).io.read (completion.packet bytes.length))⟩) = bytes.length := by
            simp [Operation.payload, Io.read, Completion.packet]
          constructor
          · simp [statistics, State.updateIoStatistics, Completion.charge, Operation.kind, opcode,
              size]
          · rfl
          · rw [Io.pendingBytes_again, queued, sent]
            simp only [Operation.kind, opcode]
            simp
            omega

theorem processed_sent (balanced : worker.io.Balanced [])
    (cq_eq : worker.io.cq = completion :: cq)
    (opcode : completion.operation.opcode = .sendmsg .client)
    (result : process thread threads completion (taken worker cq) = .ok after) :
    Processed thread worker after completion cq := by
  have pending := pendingBytes_taken cq_eq
  rcases process_sent thread threads balanced cq_eq opcode with ⟨relay, statistics, expected⟩
  simp only [expected, Except.ok.injEq] at result
  subst result
  have released : ((taken worker cq).io.releaseEvent
      completion.operation.userData).pendingBytes = (taken worker cq).io.pendingBytes := rfl
  constructor
  · simp [statistics, State.updateIoStatistics, Completion.charge, Operation.kind, opcode]
  · rfl
  · rw [released]
    simp only [Operation.kind, opcode]
    simp
    omega

theorem processed_timer (balanced : worker.io.Balanced [])
    (cq_eq : worker.io.cq = completion :: cq)
    (opcode : completion.operation.opcode = .timeout)
    (result : process thread threads completion (taken worker cq) = .ok after) :
    Processed thread worker after completion cq := by
  have pending := pendingBytes_taken cq_eq
  rcases process_timer thread threads balanced cq_eq opcode with ⟨relay, statistics, expected⟩
  simp only [expected, Except.ok.injEq] at result
  subst result
  have queued := Io.pendingBytes_of_perm_cons (Io.operations_timed (taken worker cq).io
    completion.operation.userData)
  constructor
  · simp [statistics, State.loadStatistics, Statistics.getAndReset, Completion.charge,
      Operation.kind, opcode]
  · rfl
  · rw [queued]
    simp only [Operation.kind, opcode, Operation.payload]
    simp
    omega

theorem processed_of_process (balanced : worker.io.Balanced [])
    (cq_eq : worker.io.cq = completion :: cq)
    (result : process thread threads completion (taken worker cq) = .ok after) :
    Processed thread worker after completion cq := by
  have valid := (balanced.intact _ (head_mem_operations cq_eq)).valid
  cases opcode : completion.operation.opcode with
  | recvmsg socket =>
      have succeeded : 0 ≤ completion.res := by
        by_contra failed
        rw [process_failed_receive thread threads balanced cq_eq opcode (not_le.mp failed)]
          at result
        contradiction
      cases socket with
      | client => exact processed_client balanced cq_eq opcode succeeded result
      | peer => exact processed_peer balanced cq_eq opcode succeeded result
  | sendmsg socket =>
      cases socket with
      | client => exact processed_sent balanced cq_eq opcode result
      | peer => simp [Operation.kind, opcode] at valid
  | timeout => exact processed_timer balanced cq_eq opcode result

end Processing

/-! ## The steps of an audit -/

section Steps

variable {thread : UInt16} {threads : List UInt16} {worker after : Worker Endpoint (Io Endpoint)}
  {audit next : Audit Endpoint}

/-- Without a completion to process, statistics and sends stay as they are. -/
structure Idle (worker after : Worker Endpoint (Io Endpoint)) (event : Event Endpoint) :
    Prop where
  statistics : after.relay.perThreadStatistics = worker.relay.perThreadStatistics
  operations : after.io.operations.Perm worker.io.operations
  cq : ∀ completion ∈ after.io.cq, completion ∈ worker.io.cq ∨
    (∃ index, event = .complete index (.result completion.res) ∧
      worker.io.inFlight[index]? = some completion.operation) ∨
    ∃ socket, completion.operation.opcode = .recvmsg socket

theorem idle_of_step {event : Event Endpoint} (balanced : worker.io.Balanced [])
    (nothing : processed? worker event = none)
    (stepped : step thread threads worker event = .ok after) : Idle worker after event := by
  cases event with
  | submit =>
      simp only [step, Except.ok.injEq] at stepped
      subst stepped
      exact ⟨rfl, balanced.submit.2, fun _ => Or.inl⟩
  | complete index reply =>
      simp only [step, Except.ok.injEq] at stepped
      subst stepped
      refine ⟨rfl, (balanced.complete index reply).2, ?_⟩
      intro completion completion_mem
      rcases balanced.mem_cq_complete completion_mem with
        old | ⟨inFlight, ⟨rfl, _⟩ | ⟨socket, _, _, opcode, _⟩⟩
      · exact Or.inl old
      · exact Or.inr (Or.inl ⟨index, rfl, inFlight⟩)
      · exact Or.inr (Or.inr ⟨socket, opcode⟩)
  | otherRegisters id src =>
      simp only [step, Except.ok.injEq] at stepped
      subst stepped
      refine ⟨?_, .refl _, fun _ => Or.inl⟩
      simp only [State.tryRegisterSession]
      split <;> rfl
  | process =>
      have empty : worker.io.cq = [] := List.head?_eq_none_iff.mp nothing
      simp only [step, empty, Except.ok.injEq] at stepped
      subst stepped
      exact ⟨rfl, .refl _, fun _ => Or.inl⟩

theorem processed_of_step {event : Event Endpoint} {completion : Completion Endpoint}
    (balanced : worker.io.Balanced []) (isNext : processed? worker event = some completion)
    (stepped : step thread threads worker event = .ok after) :
    ∃ cq, worker.io.cq = completion :: cq ∧ Processed thread worker after completion cq := by
  cases event with
  | submit => contradiction
  | complete index reply => contradiction
  | otherRegisters id src => contradiction
  | process =>
      rcases List.head?_eq_some_iff.mp isNext with ⟨cq, cq_eq⟩
      refine ⟨cq, cq_eq, ?_⟩
      simp only [step, cq_eq] at stepped
      exact processed_of_process balanced cq_eq stepped

/-- What an event of an audit is. -/
theorem audit_step_cases {event : AuditEvent Endpoint} (balanced : audit.worker.io.Balanced [])
    (stepped : Audit.step thread threads audit event = .ok next) :
    (event = .otherLoads ∧ next = { audit with
      worker := { audit.worker with relay := (audit.worker.relay.loadStatistics threads).2 }
      taken := audit.taken ++ [audit.worker.relay.perThreadStatistics thread] }) ∨
    (∃ own worker, event = .own own ∧ processed? audit.worker own = none ∧
      step thread threads audit.worker own = .ok worker ∧ Idle audit.worker worker own ∧
      next = { audit with worker }) ∨
    (∃ own worker completion cq, event = .own own ∧
      processed? audit.worker own = some completion ∧ audit.worker.io.cq = completion :: cq ∧
      step thread threads audit.worker own = .ok worker ∧
      Processed thread audit.worker worker completion cq ∧
      next = { audit.note thread completion with worker }) := by
  cases event with
  | otherLoads =>
      left
      simp only [Audit.step, Except.ok.injEq] at stepped
      exact ⟨rfl, stepped.symm⟩
  | own event =>
      right
      simp only [Audit.step] at stepped
      split at stepped
      · contradiction
      · rename_i worker workerStepped
        split at stepped
        · rename_i nothing
          left
          simp only [Except.ok.injEq] at stepped
          exact ⟨event, worker, rfl, nothing, workerStepped,
            idle_of_step balanced nothing workerStepped, stepped.symm⟩
        · rename_i completion isNext
          right
          simp only [Except.ok.injEq] at stepped
          rcases processed_of_step balanced isNext workerStepped with ⟨cq, cq_eq, processed⟩
          exact ⟨event, worker, completion, cq, rfl, isNext, cq_eq, workerStepped, processed,
            stepped.symm⟩

/-- What is recorded in the direction when the completion is processed. -/
def Completion.counted (completion : Completion Endpoint) (flow : Flow) (measure : Measure) : ℕ :=
  match completion.operation.kind, flow with
  | .clientRx, .inbound | .peerRx, .inbound => measure.amount completion.size
  | .peerTx, .outbound => measure.amount (toUInt32 completion.res)
  | _, _ => 0

theorem recorded_note {completion : Completion Endpoint} {cq : List (Completion Endpoint)}
    (processed : Processed thread audit.worker after completion cq) (flow : Flow)
    (measure : Measure) :
    Audit.recorded thread { audit.note thread completion with worker := after } flow measure =
      audit.recorded thread flow measure + UInt64.ofNat (completion.counted flow measure) := by
  have statistics := processed.statistics
  cases kind : completion.operation.kind <;>
    simp only [Completion.charge, kind] at statistics <;>
    cases flow <;>
    simp [Audit.recorded, Audit.note, Completion.counted, kind, statistics,
      Statistics.count_get, add_assoc, apply_ite Audit.taken]

theorem recorded_otherLoads (flow : Flow) (measure : Measure) :
    Audit.recorded thread { audit with
      worker := { audit.worker with relay := (audit.worker.relay.loadStatistics threads).2 }
      taken := audit.taken ++ [audit.worker.relay.perThreadStatistics thread] } flow measure =
      audit.recorded thread flow measure := by
  simp [Audit.recorded, State.loadStatistics, Statistics.getAndReset]

/-- What an audit keeps, whether sends fail or not. -/
structure Audit.Kept (thread : UInt16) (audit : Audit Endpoint) : Prop where
  sound : audit.worker.io.Sound (isMainWorker thread)
  reported : ∀ completion ∈ audit.worker.io.cq, completion.operation.kind = .peerTx →
    completion.res < 0 ∨ completion.res = completion.operation.payload
  sent_le : audit.succeeded.sum + audit.worker.io.pendingBytes ≤ audit.received.sum

theorem opcode_of_kind {operation : Operation Endpoint} (kind : operation.kind = .peerTx) :
    operation.opcode = .sendmsg .client := by
  unfold Operation.kind at kind
  split at kind <;> simp_all

theorem note_sums (thread : UInt16) (audit : Audit Endpoint)
    (completion : Completion Endpoint) :
    (audit.note thread completion).succeeded.sum ≤ audit.succeeded.sum +
        (if completion.operation.kind = .peerTx then completion.operation.payload else 0) ∧
      (audit.note thread completion).received.sum = audit.received.sum +
        (if completion.operation.kind = .clientRx ∨ completion.operation.kind = .peerRx then
          completion.size else 0) := by
  cases kind : completion.operation.kind with
  | peerTx =>
      by_cases succeeded : 0 ≤ completion.res <;> simp [Audit.note, kind, succeeded]
  | invalid => simp [Audit.note, kind]
  | clientRx => simp [Audit.note, kind]
  | peerRx => simp [Audit.note, kind]
  | timer => simp [Audit.note, kind]

theorem Audit.Kept.after_step {event : AuditEvent Endpoint} (kept : audit.Kept thread)
    (reports : KernelReports audit event)
    (stepped : Audit.step thread threads audit event = .ok next) : next.Kept thread := by
  have balanced := kept.sound.balanced
  rcases audit_step_cases balanced stepped with ⟨rfl, rfl⟩ |
    ⟨own, worker, rfl, _, workerStepped, idle, rfl⟩ |
    ⟨own, worker, completion, cq, rfl, _, cq_eq, workerStepped, processed, rfl⟩
  · exact ⟨kept.sound, kept.reported, kept.sent_le⟩
  · refine ⟨sound_of_step kept.sound workerStepped, ?_, ?_⟩
    · intro completion completion_mem kind
      rcases idle.cq completion completion_mem with old | ⟨index, rfl, inFlight⟩ |
        ⟨socket, isReceive⟩
      · exact kept.reported completion old kind
      · exact reports completion.operation inFlight (opcode_of_kind kind)
      · have isSend := opcode_of_kind kind
        simp [isReceive] at isSend
    · have pending := Io.pendingBytes_of_perm idle.operations
      have before := kept.sent_le
      simp only
      omega
  · refine ⟨sound_of_step kept.sound workerStepped, ?_, ?_⟩
    · intro other other_mem kind
      have old : other ∈ audit.worker.io.cq := by
        rw [cq_eq]
        exact List.mem_cons_of_mem _ (processed.cq_eq ▸ other_mem)
      exact kept.reported other old kind
    · have pending := processed.pending
      have before := kept.sent_le
      have sums := note_sums thread audit completion
      simp only
      omega

theorem Audit.Truthful.after_step {event : AuditEvent Endpoint} (kept : audit.Kept thread)
    (truthful : audit.Truthful thread) (keptNext : next.Kept thread)
    (noFailure : ¬FailedSend audit event)
    (stepped : Audit.step thread threads audit event = .ok next) : next.Truthful thread := by
  have balanced := kept.sound.balanced
  have sent_le := Nat.le_of_add_right_le keptNext.sent_le
  rcases audit_step_cases balanced stepped with ⟨rfl, rfl⟩ |
    ⟨own, worker, rfl, _, workerStepped, idle, rfl⟩ |
    ⟨own, worker, completion, cq, rfl, isNext, cq_eq, workerStepped, processed, rfl⟩
  · refine ⟨?_, ?_, ?_, sent_le⟩
    · rw [recorded_otherLoads]
      exact truthful.outPackets
    · rw [recorded_otherLoads]
      exact truthful.outBytes
    · rw [recorded_otherLoads]
      exact truthful.inBytes
  · have same (flow : Flow) (measure : Measure) :
        Audit.recorded thread { audit with worker } flow measure =
          audit.recorded thread flow measure := by
      simp [Audit.recorded, idle.statistics]
    refine ⟨?_, ?_, ?_, sent_le⟩
    · rw [same]
      exact truthful.outPackets
    · rw [same]
      exact truthful.outBytes
    · rw [same]
      exact truthful.inBytes
  · have completion_mem : completion ∈ audit.worker.io.cq := cq_eq ▸ List.mem_cons_self
    have operation_mem := head_mem_operations cq_eq
    have sent (kind : completion.operation.kind = .peerTx) : 0 ≤ completion.res ∧
        toUInt32 completion.res = completion.operation.payload := by
      have succeeded : 0 ≤ completion.res := by
        by_contra failed
        exact noFailure ⟨completion, isNext, kind, not_le.mp failed⟩
      rcases (balanced.intact _ operation_mem).send kind with ⟨endpoint, bytes, sent, short, _⟩
      have payload : completion.operation.payload = bytes.length := by
        simp [Operation.payload, sent]
      refine ⟨succeeded, ?_⟩
      rcases kept.reported completion completion_mem kind with failed | res
      · omega
      · rw [payload] at res ⊢
        exact peer_packet res short
    refine ⟨?_, ?_, ?_, sent_le⟩
    · rw [recorded_note processed, truthful.outPackets, ← UInt64.ofNat_add]
      cases kind : completion.operation.kind <;>
        simp [Audit.note, Completion.counted, kind, Measure.amount, sent]
    · rw [recorded_note processed, truthful.outBytes, ← UInt64.ofNat_add]
      cases kind : completion.operation.kind <;>
        simp [Audit.note, Completion.counted, kind, Measure.amount, sent]
    · rw [recorded_note processed, truthful.inBytes, ← UInt64.ofNat_add]
      cases kind : completion.operation.kind <;>
        simp [Audit.note, Completion.counted, kind, Measure.amount, apply_ite Audit.received]

end Steps

/-! ## Whole runs -/

section Runs

variable [Inhabited Endpoint] {thread : UInt16} {threads : List UInt16}
  {events : List (AuditEvent Endpoint)} {audit : Audit Endpoint}

/-- The condition holds of each event of the run and the state in which it happens. -/
def Along (thread : UInt16) (threads : List UInt16)
    (Condition : Audit Endpoint → AuditEvent Endpoint → Prop)
    (events : List (AuditEvent Endpoint)) : Prop :=
  ∀ first, start thread State.initial = .ok first →
    Throughout (Audit.step thread threads) Condition (.begin first) events

instance decidableAlong (Condition : Audit Endpoint → AuditEvent Endpoint → Prop)
    [∀ audit event, Decidable (Condition audit event)] (events : List (AuditEvent Endpoint)) :
    Decidable (Along thread threads Condition events) :=
  match started : start thread (State.initial : State UInt16 Endpoint) with
  | .error _ => isTrue fun first startedToo => by simp [started] at startedToo
  | .ok first => decidable_of_iff
      (Throughout (Audit.step thread threads) Condition (.begin first) events)
      ⟨fun throughout _ startedToo => Except.ok.inj (started.symm.trans startedToo) ▸ throughout,
        fun along => along first started⟩

theorem begin_kept {first : Worker Endpoint (Io Endpoint)}
    (started : start thread State.initial = .ok first) :
    (Audit.begin first).Kept thread ∧ (Audit.begin first).Truthful thread := by
  rcases start_sound thread (State.initial : State UInt16 Endpoint) with
    ⟨worker, startedToo, sound, relay, cq, unsent⟩
  have same : worker = first := Except.ok.inj (startedToo.symm.trans started)
  subst same
  have pending : worker.io.pendingBytes = 0 := by
    apply List.sum_eq_zero
    intro payload payload_mem
    rcases List.mem_map.mp payload_mem with ⟨operation, operation_mem, rfl⟩
    simp [Operation.payload, unsent operation operation_mem]
  have recorded (flow : Flow) (measure : Measure) :
      (Audit.begin worker).recorded thread flow measure = 0 := by
    simp only [Audit.recorded, Audit.begin, relay]
    exact (zero_add _).trans (Statistics.zero_get flow measure)
  constructor
  · exact ⟨sound, by simp [Audit.begin, cq], by simp [Audit.begin, pending]⟩
  · exact ⟨recorded .outbound .packets, recorded .outbound .bytes, recorded .inbound .bytes,
      le_rfl⟩

theorem run_eq_execute (ran : Audit.run thread threads events = .ok audit) :
    ∃ first, start thread State.initial = .ok first ∧
      execute (Audit.step thread threads) (.begin first) events = .ok audit := by
  simp only [Audit.run] at ran
  split at ran
  · contradiction
  · rename_i first started
    exact ⟨first, started, ran⟩

theorem kept_of_execute {first : Worker Endpoint (Io Endpoint)}
    (started : start thread State.initial = .ok first)
    (reports : Throughout (Audit.step thread threads) KernelReports (.begin first) events)
    (ran : execute (Audit.step thread threads) (.begin first) events = .ok audit) :
    audit.Kept thread := by
  have invariant := execute_invariant (fun events (audit : Audit Endpoint) =>
    Throughout (Audit.step thread threads) KernelReports (.begin first) events →
      audit.Kept thread) ?_ ?_ ran
  · exact invariant reports
  · intro _
    exact (begin_kept started).1
  · intro events audit event next ranBefore kept stepped reports
    exact (kept reports.of_append).after_step (reports.last ranBefore) stepped

omit [Inhabited Endpoint] in
/-- A failed send is recorded as a packet. -/
theorem not_truthful_of_failedSend {next : Audit Endpoint} {event : AuditEvent Endpoint}
    (kept : audit.Kept thread) (truthful : audit.Truthful thread) (failed : FailedSend audit event)
    (stepped : Audit.step thread threads audit event = .ok next) : ¬next.Truthful thread := by
  intro truthfulNext
  rcases audit_step_cases kept.sound.balanced stepped with ⟨rfl, rfl⟩ |
    ⟨own, worker, rfl, nothing, _, _, rfl⟩ |
    ⟨own, worker, completion, cq, rfl, isNext, _, _, processed, rfl⟩
  · exact failed
  · rcases failed with ⟨completion, isNext, _⟩
    rw [nothing] at isNext
    contradiction
  · rcases failed with ⟨failing, isFailing, kind, negative⟩
    rw [isNext, Option.some.injEq] at isFailing
    subst isFailing
    have packets := truthfulNext.outPackets
    have counted : completion.counted .outbound .packets = 1 := by
      simp [Completion.counted, kind, Measure.amount]
    have same : (audit.note thread completion).succeeded = audit.succeeded := by
      simp [Audit.note, kind, not_le.mpr negative]
    rw [recorded_note processed, truthful.outPackets, counted] at packets
    simp only [same] at packets
    have impossible : UInt64.ofNat 1 = 0 := by
      have cancelled := add_left_cancel (packets.trans (add_zero _).symm)
      exact cancelled
    contradiction

/-- The records stay truthful during a run exactly if it processes no failed send. -/
theorem egress_truthful_iff_no_failed_send (ran : Audit.run thread threads events = .ok audit)
    (reports : Along thread threads KernelReports events) :
    (∀ before after, events = before ++ after → ∀ audit,
        Audit.run thread threads before = .ok audit → audit.Truthful thread) ↔
      Along thread threads (fun audit event => ¬FailedSend audit event) events := by
  rcases run_eq_execute ran with ⟨first, started, executed⟩
  have decides : Always (Audit.step thread threads) (Audit.Truthful thread) (.begin first) events ↔
      Throughout (Audit.step thread threads) (fun audit event => ¬FailedSend audit event)
        (.begin first) events := by
    apply always_iff_throughout executed (begin_kept started).2
    intro before event after state next events_eq ranBefore stepped truthful
    have reported := reports first started before event after state events_eq ranBefore
    have kept := kept_of_execute started (events_eq ▸ reports first started).of_append ranBefore
    have keptNext := kept.after_step reported stepped
    constructor
    · intro truthfulNext failed
      exact not_truthful_of_failedSend kept truthful failed stepped truthfulNext
    · intro noFailure
      exact truthful.after_step kept keptNext noFailure stepped
  have same {other : Worker Endpoint (Io Endpoint)}
      (startedToo : start thread State.initial = .ok other) : other = first :=
    Except.ok.inj (startedToo.symm.trans started)
  constructor
  · intro truthful other startedToo
    rw [same startedToo]
    apply decides.mp
    intro before after state events_eq ranBefore
    apply truthful before after events_eq
    simpa only [Audit.run, started] using ranBefore
  · intro noFailure before after events_eq audit ranBefore
    rcases run_eq_execute ranBefore with ⟨other, startedToo, executedBefore⟩
    rw [same startedToo] at executedBefore
    exact decides.mpr (noFailure first started) before after audit events_eq executedBefore

end Runs

/-- A client registers, and a datagram from the peer is forwarded to it; the kernel answers
the send with `res`. -/
def forwardedWith (res : ℤ) : List (AuditEvent ℕ) :=
  [.own .submit, .own (.complete 0 (.received 7 [1, 0, 0, 0, 0, 0, 0, 0])), .own .process,
    .own .submit, .own (.complete 0 (.received 9 [1, 0, 0, 0, 0, 0, 0, 0, 42])), .own .process,
    .own .submit, .own (.complete 2 (.result res)), .own .process]

theorem egress_truthful_of_sent : ∃ audit, Audit.run 0 [0] (forwardedWith 9) = .ok audit ∧
    audit.succeeded = [9] ∧ audit.Truthful 0 := by
  have succeeds : succeedsWith (Audit.run 0 [0] (forwardedWith 9)) (fun audit =>
      audit.succeeded = [9]) = true := by
    decide +kernel
  rcases exists_of_succeedsWith succeeds with ⟨audit, ran, sent⟩
  have truthful := (egress_truthful_iff_no_failed_send ran (by decide +kernel)).mpr
    (by decide +kernel)
  exact ⟨audit, ran, of_decide_eq_true sent,
    truthful (forwardedWith 9) [] (List.append_nil _).symm audit ran⟩

/-- No send has succeeded, but one packet of `(uint32_t) -1` bytes is recorded. -/
theorem egress_not_truthful_of_failed_send :
    Along 0 [0] KernelReports (forwardedWith (-1)) ∧
    ∃ audit, Audit.run 0 [0] (forwardedWith (-1)) = .ok audit ∧
      audit.succeeded = [] ∧ audit.received = [8, 9] ∧
      audit.recorded 0 .outbound .packets = 1 ∧
      audit.recorded 0 .outbound .bytes = 4294967295 ∧ ¬audit.Truthful 0 := by
  refine ⟨by decide +kernel, ?_⟩
  have succeeds : succeedsWith (Audit.run 0 [0] (forwardedWith (-1))) (fun audit =>
      audit.succeeded = [] ∧ audit.received = [8, 9] ∧
      audit.recorded 0 .outbound .packets = 1 ∧
      audit.recorded 0 .outbound .bytes = 4294967295) = true := by
    decide +kernel
  rcases exists_of_succeedsWith succeeds with ⟨audit, ran, test⟩
  rcases of_decide_eq_true test with ⟨succeeded, received, packets, bytes⟩
  refine ⟨audit, ran, succeeded, received, packets, bytes, ?_⟩
  intro truthful
  have none := truthful.outPackets
  rw [packets, succeeded] at none
  exact absurd none (by decide)

end Urn.Uring
