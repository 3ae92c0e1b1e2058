import Urn.Uring.Conservation

/-!
# Payloads and destinations

The memory of the packets is one slab, partitioned by the index of the event, and
the events change their roles.  While an operation is queued, in flight or not yet
processed, nobody else writes to its event or its part of the slab.  So a send
goes to the endpoint for which it was started, with the bytes received from the
peer, and a receive has all of its part of the slab, its own address and its own
vector.
-/

namespace Urn.Uring

open Relay Execution

variable {Endpoint : Type}

/-- Two pieces of the slab do not overlap. -/
def Iovec.Apart (left right : Iovec) : Prop :=
  left.base + left.len ≤ right.base ∨ right.base + right.len ≤ left.base

theorem ownVector_apart {left right : EventPtr} (different : left ≠ right) :
    (ownVector left).Apart (ownVector right) := by
  rcases Nat.lt_or_gt_of_ne different with less | greater
  · left
    have next := Nat.mul_le_mul_right memoryPerPacket (Nat.succ_le_of_lt less)
    rwa [Nat.succ_mul] at next
  · right
    have next := Nat.mul_le_mul_right memoryPerPacket (Nat.succ_le_of_lt greater)
    rwa [Nat.succ_mul] at next

/-- What the operations of a worker find in the table and in the slab. -/
structure PayloadIntegrity (thread : UInt16) (threads : List UInt16)
    (worker : Worker Endpoint (Io Endpoint)) : Prop where
  /-- Every send keeps the endpoint and the bytes for which it was started. -/
  sending : ∀ operation ∈ worker.io.operations, operation.opcode = .sendmsg .client →
    ∃ endpoint bytes, operation.sent = some (endpoint, bytes) ∧
      (worker.io.ioEvents operation.userData).message = ownHeader operation.userData ∧
      (worker.io.ioEvents operation.userData).address = endpoint ∧
      (worker.io.ioEvents operation.userData).iov =
        ⟨(ownVector operation.userData).base, bytes.length⟩ ∧
      bytes.length ≤ (ownVector operation.userData).len ∧
      worker.io.messagesBuffer.load (ownVector operation.userData).base bytes.length = bytes
  /-- Every receive has its own address and all of its part of the slab. -/
  receiving : ∀ operation ∈ worker.io.operations, ∀ socket,
    operation.opcode = .recvmsg socket →
      (worker.io.ioEvents operation.userData).message = ownHeader operation.userData ∧
      (worker.io.ioEvents operation.userData).iov = ownVector operation.userData
  apart : worker.io.operations.Pairwise fun left right =>
    left.userData ≠ right.userData ∧
      (ownVector left.userData).Apart (ownVector right.userData)
  inside : ∀ operation ∈ worker.io.operations,
    (ownVector operation.userData).base + (ownVector operation.userData).len ≤
      numEvents * memoryPerPacket
  /-- A receive reports the datagram as far as it fits, and the datagram stays there. -/
  received : ∀ (index : ℕ) operation socket src datagram,
    worker.io.inFlight[index]? = some operation → operation.opcode = .recvmsg socket →
      (worker.io.complete index (.received src datagram)).cq = worker.io.cq ++
        [⟨operation, (datagram.take memoryPerPacket).length,
          some (src, datagram.take memoryPerPacket)⟩]
  delivered : ∀ completion ∈ worker.io.cq, ∀ src bytes,
    completion.received = some (src, bytes) →
    ∀ socket, completion.operation.opcode = .recvmsg socket → 0 ≤ completion.res →
      (worker.io.ioEvents completion.operation.userData).address = src ∧
      worker.io.messagesBuffer.load (ownVector completion.operation.userData).base
        bytes.length = bytes
  /-- A send is started for the endpoint of the session and the bytes received. -/
  forwarded : ∀ completion cq src bytes target after,
    worker.io.cq = completion :: cq → completion.operation.opcode = .recvmsg .peer →
    0 ≤ completion.res → completion.received = some (src, bytes) →
    worker.relay.route bytes = some target →
    step thread threads worker .process = .ok after →
    ∃ txEvent rxEvent, after.io.sq = worker.io.sq ++
      [⟨.sendmsg .client, txEvent, some (target.2, bytes)⟩, ⟨.recvmsg .peer, rxEvent, none⟩]
  /-- No other step starts a send. -/
  kept : ∀ event after, ¬ForwardsNext worker event →
    step thread threads worker event = .ok after →
    ∀ operation ∈ after.io.operations, operation.opcode = .sendmsg .client →
      operation ∈ worker.io.operations

section Steps

variable {thread : UInt16} {threads : List UInt16} {main : Bool}
  {worker after : Worker Endpoint (Io Endpoint)} {completion : Completion Endpoint}
  {cq : List (Completion Endpoint)}

theorem sq_of_forwards {src : Endpoint} {bytes : List UInt8} {target : SessionPtr × Endpoint}
    (sound : worker.io.Sound main) (reports : ReportsPeer worker completion cq src bytes)
    (routed : worker.relay.route bytes = some target)
    (processed : step thread threads worker .process = .ok after) :
    ∃ txEvent rxEvent, after.io.sq = worker.io.sq ++
      [⟨.sendmsg .client, txEvent, some (target.2, bytes)⟩, ⟨.recvmsg .peer, rxEvent, none⟩] := by
  have step_eq : step thread threads worker .process =
      process thread threads completion (taken worker cq) := by
    simp [step, reports.head, taken]
  rw [step_eq] at processed
  cases free : worker.io.freeEventIds with
  | nil =>
      have failed := process_routed_full thread threads sound.balanced reports routed free
      rw [failed] at processed
      contradiction
  | cons txEvent rest =>
      rcases process_routed thread threads sound.balanced reports routed free with
        ⟨relay, -, result⟩
      simp only [result, Except.ok.injEq] at processed
      subst processed
      have read : (taken worker cq).io.read (completion.packet bytes.length) = bytes :=
        reports.stored
      refine ⟨txEvent, completion.operation.userData, ?_⟩
      simp only [Io.again, Io.armed, Io.releaseEvent, Io.transmitting, read, List.append_assoc]
      rfl

theorem sends_of_not_forwards {event : Event Endpoint} (sound : worker.io.Sound main)
    (kept : ¬ForwardsNext worker event)
    (processed : step thread threads worker event = .ok after)
    {operation : Operation Endpoint} (operation_mem : operation ∈ after.io.operations)
    (isSend : operation.opcode = .sendmsg .client) : operation ∈ worker.io.operations := by
  have balanced := sound.balanced
  cases event with
  | submit =>
      simp only [step, Except.ok.injEq] at processed
      subst processed
      exact balanced.submit.2.mem_iff.mp operation_mem
  | complete index reply =>
      simp only [step, Except.ok.injEq] at processed
      subst processed
      exact (balanced.complete index reply).2.mem_iff.mp operation_mem
  | otherRegisters id src =>
      simp only [step, Except.ok.injEq] at processed
      subst processed
      exact operation_mem
  | process =>
      cases cq_eq : worker.io.cq with
      | nil =>
          simp only [step, cq_eq, Except.ok.injEq] at processed
          subst processed
          exact operation_mem
      | cons completion cq =>
          have step_eq : step thread threads worker .process =
              process thread threads completion (taken worker cq) := by
            simp [step, cq_eq, taken]
          rw [step_eq] at processed
          have remaining (other : Operation Endpoint)
              (other_mem : other ∈ (taken worker cq).io.operations) :
              other ∈ worker.io.operations := by
            apply (Io.operations_take cq_eq).mem_iff.mpr
            exact List.mem_cons_of_mem _ other_mem
          have notForwards : ¬completion.Forwards worker.relay := by
            simpa [ForwardsNext, cq_eq] using kept
          rcases process_of_not_forwards thread threads balanced cq_eq notForwards with
            failed | ⟨next, result, -, requeues⟩
          · rw [failed] at processed
            contradiction
          · simp only [result, Except.ok.injEq] at processed
            subst processed
            rcases requeues with ⟨-, same⟩ | ⟨notTx, ev, queued⟩
            · rw [same] at operation_mem
              exact remaining operation operation_mem
            · rcases List.mem_cons.mp (queued.mem_iff.mp operation_mem) with rfl | old
              · have opcode : completion.operation.opcode = .sendmsg .client := isSend
                exact absurd (by simp [Operation.kind, opcode]) notTx
              · exact remaining operation old

end Steps

section Integrity

variable [Inhabited Endpoint] {thread : UInt16} {threads : List UInt16}
  {relay : State UInt16 Endpoint} {events : List (Event Endpoint)}
  {worker : Worker Endpoint (Io Endpoint)}

/-- In every run, and for every order of completions, the operations of the worker
keep their payloads and destinations. -/
theorem payload_integrity (ran : run thread threads relay events = .ok worker) :
    PayloadIntegrity thread threads worker := by
  have sound := sound_of_run ran
  have balanced := sound.balanced
  refine ⟨?_, ?_, ?_, ?_, ?_, ?_, ?_, ?_⟩
  · intro operation operation_mem opcode
    have intact := balanced.intact operation operation_mem
    have message := intact.message (by simp [Operation.kind, opcode])
    rcases intact.send (by simp [Operation.kind, opcode]) with
      ⟨endpoint, bytes, sent, short, address, iov, stored⟩
    exact ⟨endpoint, bytes, sent, message, address, iov, short, stored⟩
  · intro operation operation_mem socket opcode
    have intact := balanced.intact operation operation_mem
    have message := intact.message (by cases socket <;> simp [Operation.kind, opcode])
    exact ⟨message, intact.receive socket opcode⟩
  · have distinct := balanced.owners_nodup
    rw [Io.owners, List.Nodup, List.pairwise_map] at distinct
    apply distinct.imp
    intro left right different
    exact ⟨different, ownVector_apart different⟩
  · intro operation operation_mem
    have inTable := balanced.owner_lt operation_mem
    have bound := Nat.mul_le_mul_right memoryPerPacket (Nat.succ_le_of_lt inTable)
    rwa [Nat.succ_mul] at bound
  · intro index operation socket src datagram inFlight opcode
    have operation_mem := Io.mem_operations_of_inFlight inFlight
    have intact := balanced.intact operation operation_mem
    simp only [Io.complete, inFlight, opcode, Io.recvmsg_eq intact opcode]
    rfl
  · intro completion completion_mem src bytes received socket opcode succeeded
    rcases balanced.delivered completion completion_mem socket opcode succeeded with
      ⟨src', bytes', received', -, -, address, stored⟩
    rw [received, Option.some.injEq, Prod.mk.injEq] at received'
    rcases received' with ⟨rfl, rfl⟩
    exact ⟨address, stored⟩
  · intro completion cq src bytes target after cq_eq opcode succeeded received routed processed
    rcases reportsPeer balanced cq_eq opcode succeeded with ⟨src', bytes', reports⟩
    have same := reports.received
    rw [received, Option.some.injEq, Prod.mk.injEq] at same
    rcases same with ⟨rfl, rfl⟩
    exact sq_of_forwards sound reports routed processed
  · intro event after kept processed operation operation_mem isSend
    exact sends_of_not_forwards sound kept processed operation_mem isSend

/-- A client registers, and two datagrams from the peer are forwarded. -/
def twoForwards : List (Event ℕ) :=
  [.submit, .complete 0 (.received 7 [1, 0, 0, 0, 0, 0, 0, 0]), .process,
    .submit, .complete 0 (.received 9 [1, 0, 0, 0, 0, 0, 0, 0, 42]), .process,
    .submit, .complete 3 (.received 9 [1, 0, 0, 0, 0, 0, 0, 0, 43]), .process]

theorem payload_integrity_of_twoForwards :
    ∃ worker, run 0 [0] State.initial twoForwards = .ok worker ∧
      (worker.io.sq.map Operation.sent = [some (7, [1, 0, 0, 0, 0, 0, 0, 0, 43]), none] ∧
        PayloadIntegrity 0 [0] worker) := by
  have succeeds : succeedsWith (run 0 [0] State.initial twoForwards) (fun worker =>
      worker.io.sq.map Operation.sent = [some (7, [1, 0, 0, 0, 0, 0, 0, 0, 43]), none]) =
        true := by
    decide +kernel
  rcases exists_of_succeedsWith succeeds with ⟨worker, ran, test⟩
  exact ⟨worker, ran, of_decide_eq_true test, payload_integrity ran⟩

end Integrity

end Urn.Uring
