import Mathlib.Data.List.Count
import Mathlib.Data.List.Perm.Basic
import Urn.Uring.Basic

/-!
# The invariant of an io_uring worker

Every index of the table is free, belongs to one operation, or is held by the
worker while it processes a completion (`Io.Balanced`).  An operation finds its
event as it needs it (`Io.Intact`), and a received datagram stays where the kernel
has stored it (`Io.Delivered`).

The worker and the kernel only write to the event and the memory of an index which
they hold, so everything that belongs to another index is left alone
(`Io.SameAt`).
-/

namespace Urn.Uring

open Relay

variable {Endpoint : Type}

/-- The role in which the event of an operation is used. -/
def Operation.kind (operation : Operation Endpoint) : RingEventType :=
  match operation.opcode with
  | .recvmsg .client => .clientRx
  | .recvmsg .peer => .peerRx
  | .sendmsg .client => .peerTx
  | .sendmsg .peer => .invalid
  | .timeout => .timer

/-- The type with which a socket is received from. -/
def Socket.receiveType : Socket → RingEventType
  | .client => .clientRx
  | .peer => .peerRx

/-- The operations which are queued, in flight, or completed and not yet processed. -/
def Io.operations (io : Io Endpoint) : List (Operation Endpoint) :=
  io.sq ++ io.inFlight ++ io.cq.map Completion.operation

theorem Io.mem_operations_of_inFlight {io : Io Endpoint} {index : ℕ}
    {operation : Operation Endpoint} (inFlight : io.inFlight[index]? = some operation) :
    operation ∈ io.operations :=
  List.mem_append_left _ (List.mem_append_right _ (List.mem_of_getElem? inFlight))

theorem Io.mem_operations_of_completed {io : Io Endpoint} {completion : Completion Endpoint}
    (completion_mem : completion ∈ io.cq) : completion.operation ∈ io.operations :=
  List.mem_append_right _ (List.mem_map_of_mem completion_mem)

/-- The events of the operations. -/
def Io.owners (io : Io Endpoint) : List EventPtr :=
  io.operations.map Operation.userData

/-- How many operations use their event in the given role. -/
def Io.posted (io : Io Endpoint) (kind : RingEventType) : ℕ :=
  (io.operations.map Operation.kind).count kind

/-- The message header that `alloc_event` sets up. -/
def ownHeader (ev : EventPtr) : Msghdr := ⟨some ev, addressSize, some ev, 1⟩

/-- The vector over all memory of an event. -/
def ownVector (ev : EventPtr) : Iovec := ⟨ev * memoryPerPacket, memoryPerPacket⟩

/-- The event of an operation is as the operation needs it. -/
structure Io.Intact (io : Io Endpoint) (operation : Operation Endpoint) : Prop where
  type : (io.ioEvents operation.userData).type = operation.kind
  index : (io.ioEvents operation.userData).index = operation.userData
  valid : operation.kind ≠ .invalid
  message : operation.kind ≠ .timer →
    (io.ioEvents operation.userData).message = ownHeader operation.userData
  receive : ∀ socket, operation.opcode = .recvmsg socket →
    (io.ioEvents operation.userData).iov = ownVector operation.userData
  send : operation.kind = .peerTx → ∃ endpoint bytes,
    operation.sent = some (endpoint, bytes) ∧ bytes.length ≤ memoryPerPacket ∧
    (io.ioEvents operation.userData).address = endpoint ∧
    (io.ioEvents operation.userData).iov =
      ⟨operation.userData * memoryPerPacket, bytes.length⟩ ∧
    io.messagesBuffer.load (operation.userData * memoryPerPacket) bytes.length = bytes

/-- A receive which has not failed has stored its datagram and the source. -/
def Io.Delivered (io : Io Endpoint) (completion : Completion Endpoint) : Prop :=
  ∀ socket, completion.operation.opcode = .recvmsg socket → 0 ≤ completion.res →
    ∃ src bytes, completion.received = some (src, bytes) ∧ completion.res = bytes.length ∧
      bytes.length ≤ memoryPerPacket ∧
      (io.ioEvents completion.operation.userData).address = src ∧
      io.messagesBuffer.load (completion.operation.userData * memoryPerPacket) bytes.length = bytes

/-- Event and memory of an index are the same in two states. -/
structure Io.SameAt (io after : Io Endpoint) (ev : EventPtr) : Prop where
  event : after.ioEvents ev = io.ioEvents ev
  memory : ∀ length ≤ memoryPerPacket,
    after.messagesBuffer.load (ev * memoryPerPacket) length =
      io.messagesBuffer.load (ev * memoryPerPacket) length

/-- Every index is free, used by one operation, or held. -/
structure Io.Balanced (io : Io Endpoint) (held : List EventPtr) : Prop where
  partition : ∀ ev, io.freeEventIds.count ev + io.owners.count ev + held.count ev =
    if ev < numEvents then 1 else 0
  intact : ∀ operation ∈ io.operations, io.Intact operation
  delivered : ∀ completion ∈ io.cq, io.Delivered completion

section Frames

variable {io after : Io Endpoint}

theorem Io.Intact.of_sameAt {operation : Operation Endpoint} (intact : io.Intact operation)
    (same : io.SameAt after operation.userData) : after.Intact operation where
  type := by simpa [same.event] using intact.type
  index := by simpa [same.event] using intact.index
  valid := intact.valid
  message := by simpa [same.event] using intact.message
  receive := by simpa [same.event] using intact.receive
  send isTx := by
    rcases intact.send isTx with ⟨endpoint, bytes, sent, short, address, iov, stored⟩
    refine ⟨endpoint, bytes, sent, short, ?_, ?_, ?_⟩
    · simpa [same.event] using address
    · simpa [same.event] using iov
    · exact (same.memory _ short).trans stored

theorem Io.Delivered.of_sameAt {completion : Completion Endpoint}
    (delivered : io.Delivered completion)
    (same : io.SameAt after completion.operation.userData) : after.Delivered completion := by
  intro socket isReceive succeeded
  rcases delivered socket isReceive succeeded with
    ⟨src, bytes, received, res, short, address, stored⟩
  refine ⟨src, bytes, received, res, short, ?_, ?_⟩
  · simpa [same.event] using address
  · exact (same.memory _ short).trans stored

theorem Io.SameAt.refl (io : Io Endpoint) (ev : EventPtr) : io.SameAt io ev :=
  ⟨rfl, fun _ _ => rfl⟩

theorem load_store_of_ne {memory : Memory} {ev other : ℕ} (different : other ≠ ev)
    {bytes : List UInt8} (short : bytes.length ≤ memoryPerPacket) {length : ℕ}
    (lengthShort : length ≤ memoryPerPacket) :
    (memory.store (ev * memoryPerPacket) bytes).load (other * memoryPerPacket) length =
      memory.load (other * memoryPerPacket) length := by
  apply Memory.load_store_of_disjoint
  rcases Nat.lt_or_gt_of_ne different with less | greater
  · left
    have next : (other + 1) * memoryPerPacket ≤ ev * memoryPerPacket :=
      Nat.mul_le_mul_right _ less
    rw [Nat.add_mul, Nat.one_mul] at next
    omega
  · right
    have next : (ev + 1) * memoryPerPacket ≤ other * memoryPerPacket :=
      Nat.mul_le_mul_right _ greater
    rw [Nat.add_mul, Nat.one_mul] at next
    omega

end Frames

namespace Io.Balanced

variable {io after : Io Endpoint} {held : List EventPtr} {ev : EventPtr}

theorem owner_lt (balanced : io.Balanced held) {operation : Operation Endpoint}
    (operation_mem : operation ∈ io.operations) : operation.userData < numEvents := by
  have owner : 0 < io.owners.count operation.userData :=
    List.count_pos_iff.mpr (List.mem_map_of_mem operation_mem)
  have partition := balanced.partition operation.userData
  by_contra outside
  rw [if_neg outside] at partition
  omega

theorem owner_ne_held (balanced : io.Balanced (ev :: held)) {operation : Operation Endpoint}
    (operation_mem : operation ∈ io.operations) : operation.userData ≠ ev := by
  rintro rfl
  have owner : 0 < io.owners.count operation.userData :=
    List.count_pos_iff.mpr (List.mem_map_of_mem operation_mem)
  have partition := balanced.partition operation.userData
  rw [List.count_cons_self] at partition
  split at partition <;> omega

theorem owner_ne_free (balanced : io.Balanced held) (free : ev ∈ io.freeEventIds)
    {operation : Operation Endpoint} (operation_mem : operation ∈ io.operations) :
    operation.userData ≠ ev := by
  rintro rfl
  have owner : 0 < io.owners.count operation.userData :=
    List.count_pos_iff.mpr (List.mem_map_of_mem operation_mem)
  have isFree : 0 < io.freeEventIds.count operation.userData := List.count_pos_iff.mpr free
  have partition := balanced.partition operation.userData
  split at partition <;> omega

theorem held_ne_free (balanced : io.Balanced held) (free : ev ∈ io.freeEventIds)
    {other : EventPtr} (other_mem : other ∈ held) : other ≠ ev := by
  rintro rfl
  have isHeld : 0 < held.count other := List.count_pos_iff.mpr other_mem
  have isFree : 0 < io.freeEventIds.count other := List.count_pos_iff.mpr free
  have partition := balanced.partition other
  split at partition <;> omega

/-- The indices that are not free are those of the operations and the held ones. -/
theorem length (balanced : io.Balanced held) :
    io.freeEventIds.length + io.operations.length + held.length = numEvents := by
  have perm : (io.freeEventIds ++ io.owners ++ held).Perm (List.range numEvents) := by
    apply List.perm_iff_count.mpr
    intro ev
    rw [List.count_append, List.count_append, balanced.partition, List.count_range]
  have length_eq := perm.length_eq
  simp only [Io.owners, List.length_append, List.length_map, List.length_range] at length_eq
  exact length_eq

/-- A new operation takes its index from those that were free or held. -/
theorem enqueue {released : List EventPtr} {operation : Operation Endpoint}
    (balanced : io.Balanced held)
    (operations : after.operations.Perm (operation :: io.operations)) (cq : after.cq = io.cq)
    (taken : ∀ ev, io.freeEventIds.count ev + held.count ev =
      after.freeEventIds.count ev + released.count ev +
        if operation.userData = ev then 1 else 0)
    (same : ∀ other ∈ io.operations, io.SameAt after other.userData)
    (intact : after.Intact operation) : after.Balanced released where
  partition ev := by
    have owners : after.owners.count ev =
        io.owners.count ev + if operation.userData = ev then 1 else 0 := by
      rw [Io.owners, (operations.map _).count_eq, List.map_cons, List.count_cons]
      simp [Io.owners]
    have partition := balanced.partition ev
    have taken := taken ev
    omega
  intact other other_mem := by
    rcases List.mem_cons.mp (operations.mem_iff.mp other_mem) with rfl | old
    · exact intact
    · exact (balanced.intact other old).of_sameAt (same other old)
  delivered completion completion_mem := by
    rw [cq] at completion_mem
    apply (balanced.delivered completion completion_mem).of_sameAt
    exact same _ (mem_operations_of_completed completion_mem)

theorem release (balanced : io.Balanced (ev :: held)) (index : (io.ioEvents ev).index = ev) :
    (io.releaseEvent ev).Balanced held where
  partition other := by
    have partition := balanced.partition other
    rw [List.count_cons] at partition
    have owners : (io.releaseEvent ev).owners.count other = io.owners.count other := rfl
    rw [owners, Io.releaseEvent, index, List.count_cons]
    omega
  intact operation operation_mem :=
    (balanced.intact operation operation_mem).of_sameAt ⟨rfl, fun _ _ => rfl⟩
  delivered completion completion_mem :=
    (balanced.delivered completion completion_mem).of_sameAt ⟨rfl, fun _ _ => rfl⟩

theorem take {completion : Completion Endpoint} {cq : List (Completion Endpoint)}
    (balanced : io.Balanced held) (cq_eq : io.cq = completion :: cq) :
    ({ io with cq } : Io Endpoint).Balanced (completion.operation.userData :: held) where
  partition ev := by
    have partition := balanced.partition ev
    simp only [Io.owners, Io.operations, cq_eq, List.map_cons, List.map_append,
      List.count_append, List.count_cons] at partition ⊢
    omega
  intact operation operation_mem := by
    have old : operation ∈ io.operations := by
      rw [Io.operations, cq_eq]
      rcases List.mem_append.mp operation_mem with other | completed
      · exact List.mem_append_left _ other
      · exact List.mem_append_right _ (List.mem_cons_of_mem _ completed)
    exact (balanced.intact operation old).of_sameAt ⟨rfl, fun _ _ => rfl⟩
  delivered other other_mem := by
    have old : other ∈ io.cq := cq_eq ▸ List.mem_cons_of_mem _ other_mem
    exact (balanced.delivered other old).of_sameAt ⟨rfl, fun _ _ => rfl⟩

end Io.Balanced

end Urn.Uring
