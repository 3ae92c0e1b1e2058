import Mathlib.Data.Finset.Card
import Mathlib.Data.Finset.Range
import Mathlib.Data.List.Perm.Basic
import Urn.Libuv.Steps

/-!
# The invariant of a libuv thread

`Consistent` relates the pool, the reference counts and the sends in flight, and
says that a request in flight finds in its chunk what `start_send` has put there.
This is so because a slot is only filled in the buffer of the current frame,
behind all slots in use (`Io.Filling`).

Each operation on the buffers preserves the invariant.  From these lemmas follows
that every event does (`World.Sound.step`), and so every execution.
-/

namespace Urn.Libuv

open Relay

variable {Endpoint : Type}

/-- How many of the sends in flight refer to a buffer. -/
def references (inFlight : List (Request Endpoint)) (b : BufPtr) : ℕ :=
  inFlight.countP fun request => request.buf == b

/-- The chunk of a request, and the bytes it points to, are as `start_send` left them. -/
structure Io.Intact (io : Io Endpoint) (request : Request Endpoint) : Prop where
  created : request.buf < io.created
  base : request.packet.buf = request.buf
  chunk : (io.bufs request.buf).chunks request.slot =
    some ⟨request.buf, request.packet, request.session⟩
  payload : io.read request.packet = request.payload

/-- The pool holds `pooled`.  The buffer `frame`, if any, is outside the pool although
it need not have a send in flight. -/
structure Consistent (haveMmsg : Bool) (io : Io Endpoint) (frame : Option BufPtr)
    (pooled : List BufPtr) : Prop where
  holds : io.ioBufs.pool.Holds io.next pooled
  created : ∀ b ∈ pooled, b < io.created
  unused : ∀ b ∈ pooled, references io.inFlight b = 0
  counted : ∀ b < io.created, b ∉ pooled → (io.bufs b).refCount = references io.inFlight b
  used : ∀ b < io.created, b ∉ pooled → frame ≠ some b → 0 < references io.inFlight b
  bounded : ∀ b, references io.inFlight b ≤ chunksSize haveMmsg
  current : ∀ b, frame = some b → b < io.created ∧ b ∉ pooled
  intact : ∀ request ∈ io.inFlight, io.Intact request
  slots : ∀ request ∈ io.inFlight, request.slot < chunksSize haveMmsg
  calls : io.started.Perm
    (io.reported ++ io.inFlight.map fun request => (request.session, request.packet))

/-- `start_send` uses the buffer, and finds the requests in the slots before the next. -/
structure Io.Filling (io : Io Endpoint) (b : BufPtr) : Prop where
  lastAlloc : io.ioBufs.lastAlloc = some b
  behind : ∀ request ∈ io.inFlight, request.buf = b → request.slot < (io.bufs b).refCount

section References

variable {io : Io Endpoint} {b : BufPtr}

theorem references_pos {request : Request Endpoint} (request_mem : request ∈ io.inFlight) :
    0 < references io.inFlight request.buf :=
  List.countP_pos_iff.mpr ⟨request, request_mem, by simp⟩

theorem buf_ne_of_references {request : Request Endpoint}
    (unreferenced : references io.inFlight b = 0) (request_mem : request ∈ io.inFlight) :
    request.buf ≠ b := by
  rintro rfl
  exact absurd unreferenced (references_pos request_mem).ne'

theorem references_fillSlot (session : SessionPtr) (endpoint : Endpoint) (packet : Packet)
    (other : BufPtr) :
    references (io.fillSlot b session endpoint packet).inFlight other =
      references io.inFlight other + if b = other then 1 else 0 := by
  simp [references, Io.fillSlot, List.countP_append, List.countP_cons]

theorem references_eraseIdx {index : ℕ} {request : Request Endpoint}
    (inFlight : io.inFlight[index]? = some request) (other : BufPtr) :
    references io.inFlight other =
      references (io.inFlight.eraseIdx index) other + if request.buf = other then 1 else 0 := by
  rcases List.getElem?_eq_some_iff.mp inFlight with ⟨inRange, request_eq⟩
  have perm := List.getElem_cons_eraseIdx_perm inRange
  rw [references, ← perm.countP_eq, request_eq, List.countP_cons]
  simp [references]

theorem card_le_inFlight (count : ℕ) (referenced : ∀ b < count, 0 < references io.inFlight b) :
    count ≤ io.inFlight.length := by
  have subset : Finset.range count ⊆ (io.inFlight.map Request.buf).toFinset := by
    intro b b_mem
    have positive := referenced b (Finset.mem_range.mp b_mem)
    rcases List.countP_pos_iff.mp positive with ⟨request, request_mem, same⟩
    rw [List.mem_toFinset, List.mem_map]
    exact ⟨request, request_mem, by simpa using same⟩
  have bound := (Finset.card_le_card subset).trans (List.toFinset_card_le _)
  simpa using bound

end References

theorem Io.Intact.congr {io after : Io Endpoint} {request : Request Endpoint}
    (intact : io.Intact request) (created : io.created ≤ after.created)
    (chunk : (after.bufs request.buf).chunks request.slot =
      (io.bufs request.buf).chunks request.slot)
    (data : (after.bufs request.buf).data = (io.bufs request.buf).data) :
    after.Intact request where
  created := intact.created.trans_le created
  base := intact.base
  chunk := chunk.trans intact.chunk
  payload := by
    have payload := intact.payload
    rw [Io.read, intact.base] at payload ⊢
    rwa [data]

namespace Consistent

variable {haveMmsg : Bool} {io : Io Endpoint} {frame : Option BufPtr} {pooled : List BufPtr}
  {b : BufPtr}

theorem initial : Consistent haveMmsg (Io.initial : Io Endpoint) none [] where
  holds := IntrusiveStack.initial_holds _
  created := by simp
  unused := by simp
  counted := by simp [Io.initial]
  used := by simp [Io.initial]
  bounded := by simp [Io.initial, references]
  current := by simp
  intact := by simp [Io.initial]
  slots := by simp [Io.initial]
  calls := by simp [Io.initial]

theorem intact_of_unused (consistent : Consistent haveMmsg io frame pooled) {after : Io Endpoint}
    (unreferenced : references io.inFlight b = 0) (created : io.created ≤ after.created)
    (bufs : ∀ other, other ≠ b → after.bufs other = io.bufs other) {request : Request Endpoint}
    (request_mem : request ∈ io.inFlight) : after.Intact request := by
  have other := buf_ne_of_references unreferenced request_mem
  apply (consistent.intact request request_mem).congr created
  · rw [bufs _ other]
  · rw [bufs _ other]

/-- `alloc` takes an unused buffer out of the pool, or creates one when the pool is
empty. -/
theorem alloc (consistent : Consistent haveMmsg io none pooled) :
    ∃ pooled', Consistent haveMmsg io.alloc.2 (some io.alloc.1) pooled' ∧
      io.alloc.2.ioBufs.lastAlloc = some io.alloc.1 ∧
      references io.inFlight io.alloc.1 = 0 ∧ io.alloc.2.inFlight = io.inFlight ∧
      io.alloc.2.created ≤ max io.created (io.inFlight.length + 1) := by
  cases pooled with
  | nil =>
      have popped := consistent.holds.tryPop_nil
      have alloc_eq : io.alloc = (io.created, { io with
          bufs := Function.update io.bufs io.created
            ⟨fun _ => none, 0, (io.bufs io.created).data⟩
          next := Function.update io.next io.created none
          created := io.created + 1
          ioBufs := ⟨io.ioBufs.pool, some io.created⟩ }) := by
        simp only [Io.alloc, popped]
      have unreferenced : references io.inFlight io.created = 0 := by
        apply List.countP_eq_zero.mpr
        intro request request_mem
        have old := (consistent.intact request request_mem).created
        simpa using old.ne
      have few : io.created ≤ io.inFlight.length :=
        card_le_inFlight io.created fun b old =>
          consistent.used b old List.not_mem_nil (by simp)
      rw [alloc_eq]
      refine ⟨[], ⟨?_, ?_, ?_, ?_, ?_, ?_, ?_, ?_, ?_, ?_⟩, rfl, unreferenced, rfl, ?_⟩
      · exact consistent.holds.update List.not_mem_nil none
      · simp
      · simp
      · intro b old _
        by_cases same : b = io.created
        · subst same
          simpa using unreferenced.symm
        · simp only [Function.update_of_ne same]
          exact consistent.counted b (by simp only at old; omega) List.not_mem_nil
      · intro b old _ other
        have old : b < io.created + 1 := old
        have other : b ≠ io.created := fun same => other (congrArg some same.symm)
        exact consistent.used b (by omega) List.not_mem_nil (by simp)
      · exact consistent.bounded
      · simp
      · intro request request_mem
        refine consistent.intact_of_unused unreferenced (Nat.le_succ _) ?_ request_mem
        intro other different
        exact Function.update_of_ne different _ _
      · exact consistent.slots
      · exact consistent.calls
      · simp
        omega
  | cons b rest =>
      rcases consistent.holds.tryPop_cons with ⟨popped, holds⟩
      have alloc_eq : io.alloc = (b, { io with
          bufs := Function.update io.bufs b { io.bufs b with refCount := 0 }
          ioBufs := ⟨⟨io.next b⟩, some b⟩ }) := by
        simp only [Io.alloc, popped]
      have unreferenced := consistent.unused b List.mem_cons_self
      have absent : b ∉ rest := (List.nodup_cons.mp consistent.holds.nodup).1
      rw [alloc_eq]
      refine ⟨rest, ⟨?_, ?_, ?_, ?_, ?_, ?_, ?_, ?_, ?_, ?_⟩, rfl, unreferenced, rfl,
        le_max_left _ _⟩
      · exact holds
      · intro other other_mem
        exact consistent.created other (List.mem_cons_of_mem _ other_mem)
      · intro other other_mem
        exact consistent.unused other (List.mem_cons_of_mem _ other_mem)
      · intro other old outside
        by_cases same : other = b
        · subst same
          simpa using unreferenced.symm
        · simp only [Function.update_of_ne same]
          exact consistent.counted other old (by simp [same, outside])
      · intro other old outside different
        have different : other ≠ b := fun same => different (congrArg some same.symm)
        exact consistent.used other old (by simp [different, outside]) (by simp)
      · exact consistent.bounded
      · rintro other same
        rw [Option.some.injEq] at same
        subst same
        exact ⟨consistent.created b List.mem_cons_self, absent⟩
      · intro request request_mem
        refine consistent.intact_of_unused unreferenced ?_ ?_ request_mem
        · exact Nat.le_refl _
        intro other different
        exact Function.update_of_ne different _ _
      · exact consistent.slots
      · exact consistent.calls

theorem fill (consistent : Consistent haveMmsg io (some b) pooled)
    (unreferenced : references io.inFlight b = 0) (datagrams : List (ℕ × List UInt8)) :
    Consistent haveMmsg (io.fill b datagrams) (some b) pooled where
  holds := consistent.holds
  created := consistent.created
  unused := consistent.unused
  counted other old outside := by
    have counted := consistent.counted other old outside
    by_cases same : other = b
    · subst same
      simpa [Io.fill, Io.setBuf] using counted
    · simpa [Io.fill, Io.setBuf, Function.update_of_ne same] using counted
  used := consistent.used
  bounded := consistent.bounded
  current := consistent.current
  intact request request_mem := by
    refine consistent.intact_of_unused unreferenced ?_ ?_ request_mem
    · exact Nat.le_refl _
    intro other different
    exact Function.update_of_ne different _ _
  slots := consistent.slots
  calls := consistent.calls

/-- `start_send` fills the slot behind all slots of the buffer in use. -/
theorem fillSlot (consistent : Consistent haveMmsg io (some b) pooled) (filling : io.Filling b)
    (free : (io.bufs b).refCount ≠ chunksSize haveMmsg) (session : SessionPtr)
    (endpoint : Endpoint) {packet : Packet} (base : packet.buf = b) :
    Consistent haveMmsg (io.fillSlot b session endpoint packet) (some b) pooled := by
  rcases consistent.current b rfl with ⟨old, outside⟩
  have counted := consistent.counted b old outside
  have bounded := consistent.bounded b
  have bufs_other (other : BufPtr) (different : other ≠ b) :
      (io.fillSlot b session endpoint packet).bufs other = io.bufs other :=
    Function.update_of_ne different _ _
  have data (other : BufPtr) :
      ((io.fillSlot b session endpoint packet).bufs other).data = (io.bufs other).data := by
    by_cases same : other = b
    · subst same
      simp [Io.fillSlot, Io.setBuf]
    · rw [bufs_other _ same]
  refine ⟨consistent.holds, consistent.created, ?_, ?_, ?_, ?_, consistent.current, ?_, ?_, ?_⟩
  · intro other other_mem
    have different : b ≠ other := by
      rintro rfl
      exact outside other_mem
    simpa [references_fillSlot, different] using consistent.unused other other_mem
  · intro other otherOld otherOutside
    rw [references_fillSlot]
    by_cases same : other = b
    · subst same
      simp [Io.fillSlot, Io.setBuf, counted]
    · rw [bufs_other _ same, if_neg (Ne.symm same), Nat.add_zero]
      exact consistent.counted other otherOld otherOutside
  · intro other otherOld otherOutside different
    have positive := consistent.used other otherOld otherOutside different
    rw [references_fillSlot]
    omega
  · intro other
    have otherBounded := consistent.bounded other
    rw [references_fillSlot]
    split
    · subst other
      omega
    · exact otherBounded
  · intro request request_mem
    rcases List.mem_append.mp request_mem with inFlight | new
    · refine (consistent.intact request inFlight).congr (Nat.le_refl _) ?_ (data _)
      by_cases same : request.buf = b
      · have behind := filling.behind request inFlight same
        rw [same]
        simp [Io.fillSlot, Io.setBuf, Function.update_of_ne behind.ne]
      · rw [bufs_other _ same]
    · rw [List.mem_singleton] at new
      subst new
      refine ⟨old, base, ?_, ?_⟩
      · simp [Io.fillSlot, Io.setBuf]
      · simp only [Io.read, data]
  · intro request request_mem
    rcases List.mem_append.mp request_mem with inFlight | new
    · exact consistent.slots request inFlight
    · rw [List.mem_singleton] at new
      subst new
      have slot : (io.bufs b).refCount < chunksSize haveMmsg := by omega
      exact slot
  · have calls := consistent.calls.append_right [(session, packet)]
    simpa [Io.fillSlot, Io.setBuf] using calls

theorem filling_fillSlot (filling : io.Filling b) (session : SessionPtr) (endpoint : Endpoint)
    (packet : Packet) : (io.fillSlot b session endpoint packet).Filling b := by
  have refCount : ((io.fillSlot b session endpoint packet).bufs b).refCount =
      (io.bufs b).refCount + 1 := by
    simp [Io.fillSlot, Io.setBuf]
  refine ⟨filling.lastAlloc, ?_⟩
  intro request request_mem same
  rw [refCount]
  rcases List.mem_append.mp request_mem with inFlight | new
  · exact Nat.lt_succ_of_lt (filling.behind request inFlight same)
  · rw [List.mem_singleton] at new
    subst new
    exact Nat.lt_succ_self _

theorem releaseUnused (consistent : Consistent haveMmsg io (some b) pooled) :
    ∃ pooled', Consistent haveMmsg (io.releaseUnused b) none pooled' := by
  rcases consistent.current b rfl with ⟨old, outside⟩
  have counted := consistent.counted b old outside
  by_cases unused : (io.bufs b).refCount = 0
  · rw [Io.releaseUnused_of_eq unused]
    have intact (request : Request Endpoint) (request_mem : request ∈ io.inFlight) :
        (io.release b).Intact request :=
      (consistent.intact request request_mem).congr (Nat.le_refl _) rfl rfl
    refine ⟨b :: pooled, consistent.holds.push outside, ?_, ?_, ?_, ?_, consistent.bounded,
      by simp, intact, consistent.slots, consistent.calls⟩
    · rintro other (_ | ⟨_, other_mem⟩)
      · exact old
      · exact consistent.created other other_mem
    · rintro other (_ | ⟨_, other_mem⟩)
      · exact counted.symm.trans unused
      · exact consistent.unused other other_mem
    · intro other otherOld otherOutside
      exact consistent.counted other otherOld fun other_mem =>
        otherOutside (List.mem_cons_of_mem _ other_mem)
    · intro other otherOld otherOutside _
      rw [List.mem_cons, not_or] at otherOutside
      exact consistent.used other otherOld otherOutside.2 (by simpa using Ne.symm otherOutside.1)
  · rw [Io.releaseUnused_of_ne unused]
    refine ⟨pooled, consistent.holds, consistent.created, consistent.unused, consistent.counted, ?_,
      consistent.bounded, by simp, consistent.intact, consistent.slots, consistent.calls⟩
    intro other otherOld otherOutside _
    by_cases same : other = b
    · subst same
      omega
    · exact consistent.used other otherOld otherOutside (by simpa using Ne.symm same)

theorem leaveSlot (consistent : Consistent haveMmsg io none pooled) {index : ℕ}
    {request : Request Endpoint} (inFlight : io.inFlight[index]? = some request) :
    Consistent haveMmsg
      (io.leaveSlot index ⟨request.buf, request.packet, request.session⟩)
      (some request.buf) pooled := by
  have request_mem := List.mem_of_getElem? inFlight
  have referenced := references_pos request_mem
  have old := (consistent.intact request request_mem).created
  have outside : request.buf ∉ pooled := by
    intro inPool
    have unreferenced := consistent.unused _ inPool
    omega
  have counted := consistent.counted _ old outside
  have decrement_eq : Io.decrement (io.bufs request.buf).refCount =
      references io.inFlight request.buf - 1 := by
    rw [counted, Io.decrement, if_neg referenced.ne']
  refine ⟨consistent.holds, consistent.created, ?_, ?_, ?_, ?_, ?_, ?_, ?_, ?_⟩
  · intro other inPool
    have unreferenced := consistent.unused other inPool
    rw [references_eraseIdx inFlight] at unreferenced
    exact (Nat.add_eq_zero_iff.mp unreferenced).1
  · intro other otherOld otherOutside
    have split := references_eraseIdx inFlight other
    by_cases same : other = request.buf
    · subst same
      simp only [Io.leaveSlot, Io.setBuf, Function.update_self, decrement_eq]
      simp only [if_true] at split
      omega
    · simp only [Io.leaveSlot, Io.setBuf, Function.update_of_ne same]
      rw [if_neg (Ne.symm same)] at split
      exact (consistent.counted other otherOld otherOutside).trans split
  · intro other otherOld otherOutside different
    have different : request.buf ≠ other := fun same => different (congrArg some same)
    have positive := consistent.used other otherOld otherOutside (by simp)
    rw [references_eraseIdx inFlight, if_neg different] at positive
    exact positive
  · intro other
    have bounded := consistent.bounded other
    rw [references_eraseIdx inFlight] at bounded
    exact (Nat.le_add_right _ _).trans bounded
  · rintro other same
    rw [Option.some.injEq] at same
    exact same ▸ ⟨old, outside⟩
  · intro other other_mem
    have intact := consistent.intact other (List.mem_of_mem_eraseIdx other_mem)
    by_cases same : other.buf = request.buf
    · refine intact.congr (Nat.le_refl _) ?_ ?_ <;> simp [Io.leaveSlot, Io.setBuf, same]
    · refine intact.congr (Nat.le_refl _) ?_ ?_ <;>
        simp [Io.leaveSlot, Io.setBuf, Function.update_of_ne same]
  · intro other other_mem
    exact consistent.slots other (List.mem_of_mem_eraseIdx other_mem)
  · rcases List.getElem?_eq_some_iff.mp inFlight with ⟨inRange, request_eq⟩
    have perm := (List.getElem_cons_eraseIdx_perm inRange).map
      fun request => (request.session, request.packet)
    rw [request_eq, List.map_cons] at perm
    have calls := consistent.calls.trans (perm.symm.append_left io.reported)
    simpa [Io.leaveSlot, Io.setBuf] using calls

/-- After a completion the buffer goes back to the pool with its last send. -/
theorem complete (consistent : Consistent haveMmsg io none pooled) {index : ℕ}
    {request : Request Endpoint} (inFlight : io.inFlight[index]? = some request) :
    ∃ pooled', Consistent haveMmsg
      ((io.leaveSlot index ⟨request.buf, request.packet, request.session⟩).releaseUnused
        request.buf) none pooled' :=
  (consistent.leaveSlot inFlight).releaseUnused

end Consistent

/-- The invariant between two events. -/
structure World.Sound (haveMmsg : Bool) (world : World Endpoint) : Prop where
  consistent : ∃ pooled, Consistent haveMmsg world.io (world.frame.map Delivery.buf) pooled
  filling : ∀ delivery, world.frame = some delivery → world.io.Filling delivery.buf
  client : ∀ delivery, world.frame = some delivery → delivery.handle = .client →
    references world.io.inFlight delivery.buf = 0

theorem Delivery.rest_eq_some {delivery rest : Delivery Endpoint}
    (rest_eq : delivery.rest = some rest) :
    rest.handle = delivery.handle ∧ rest.buf = delivery.buf := by
  rcases delivery with ⟨handle, buf, chunks, last⟩
  cases chunks with
  | nil => contradiction
  | cons chunk chunks =>
      rw [Delivery.rest, Option.some.injEq] at rest_eq
      exact rest_eq ▸ ⟨rfl, rfl⟩

theorem Delivery.ofFrame_eq_some {handle : Handle} {b : BufPtr} {frame : Frame Endpoint}
    {delivery : Delivery Endpoint} (delivered : Delivery.ofFrame handle b frame = some delivery) :
    delivery.handle = handle ∧ delivery.buf = b := by
  cases frame with
  | failed => contradiction
  | nothing =>
      rw [Delivery.ofFrame, Option.some.injEq] at delivered
      exact delivered ▸ ⟨rfl, rfl⟩
  | single arrival =>
      rw [Delivery.ofFrame, Option.some.injEq] at delivered
      exact delivered ▸ ⟨rfl, rfl⟩
  | chunks arrivals =>
      rw [Delivery.ofFrame, Option.some.injEq] at delivered
      exact delivered ▸ ⟨rfl, rfl⟩

@[simp]
theorem created_releaseUnused (io : Io Endpoint) (b : BufPtr) :
    (io.releaseUnused b).created = io.created := by
  rw [Io.releaseUnused]
  split <;> rfl

namespace World.Sound

variable {haveMmsg : Bool} {thread : UInt16} {world after : World Endpoint}
  {delivery : Delivery Endpoint}

theorem initial (haveMmsg : Bool) (relay : State UInt16 Endpoint) :
    (World.initial relay).Sound haveMmsg where
  consistent := ⟨[], Consistent.initial⟩
  filling _ inFrame := by contradiction
  client _ inFrame := by contradiction

theorem refCount (sound : world.Sound haveMmsg) (inFrame : world.frame = some delivery) :
    (world.io.bufs delivery.buf).refCount = references world.io.inFlight delivery.buf := by
  rcases sound.consistent with ⟨pooled, consistent⟩
  rcases consistent.current delivery.buf (by rw [inFrame]; rfl) with ⟨old, outside⟩
  exact consistent.counted _ old outside

theorem receive {handle : Handle} {frame : Frame Endpoint} (sound : world.Sound haveMmsg)
    (between : world.frame = none) (received : receive handle frame world = .ok after) :
    after.Sound haveMmsg ∧
      after.io.created ≤ max world.io.created (world.io.inFlight.length + 1) := by
  rcases sound.consistent with ⟨pooled, consistent⟩
  rw [between] at consistent
  rcases consistent.alloc with ⟨pooled', allocated, lastAlloc, unreferenced, inFlight, created⟩
  rw [← inFlight] at unreferenced
  cases delivered : Delivery.ofFrame handle world.io.alloc.1 frame with
  | none => simp [Libuv.receive, delivered] at received
  | some delivery =>
      simp only [Libuv.receive, delivered, Except.ok.injEq] at received
      subst received
      have buf := (Delivery.ofFrame_eq_some delivered).2
      refine ⟨⟨⟨pooled', ?_⟩, ?_, ?_⟩, created⟩
      · simpa [buf] using allocated.fill unreferenced delivery.datagrams
      · rintro other same
        rw [Option.some.injEq] at same
        subst same
        rw [buf]
        refine ⟨lastAlloc, ?_⟩
        intro request request_mem refers
        exact absurd refers (buf_ne_of_references unreferenced request_mem)
      · rintro other same -
        rw [Option.some.injEq] at same
        subst same
        rw [buf]
        exact unreferenced

theorem deliver (sound : world.Sound haveMmsg) (inFrame : world.frame = some delivery)
    (delivered : deliver haveMmsg thread delivery world = .ok after) :
    after.Sound haveMmsg ∧ after.io.created = world.io.created := by
  rcases sound.consistent with ⟨pooled, consistent⟩
  rw [inFrame, Option.map_some] at consistent
  have filling := sound.filling delivery inFrame
  have refCount := sound.refCount inFrame
  cases forwarded : delivery.forward world.toWorker with
  | none =>
      have unused (ofClient : delivery.handle = .client) :
          (world.io.bufs delivery.buf).refCount = 0 :=
        refCount.trans (sound.client delivery inFrame ofClient)
      rcases deliver_of_none haveMmsg thread filling.lastAlloc unused forwarded with ⟨relay, result⟩
      simp only [result, Except.ok.injEq] at delivered
      subst delivered
      cases rest_eq : delivery.rest with
      | none =>
          simp only [Delivery.settle, rest_eq]
          exact ⟨⟨consistent.releaseUnused, by simp, by simp⟩, created_releaseUnused _ _⟩
      | some rest =>
          rcases Delivery.rest_eq_some rest_eq with ⟨handle, buf⟩
          simp only [Delivery.settle, rest_eq]
          refine ⟨⟨⟨pooled, by simpa [buf] using consistent⟩, ?_, ?_⟩, trivial⟩
          · rintro other same
            rw [Option.some.injEq] at same
            rw [← same, buf]
            exact filling
          · rintro other same ofClient
            rw [Option.some.injEq] at same
            rw [← same, handle] at ofClient
            rw [← same, buf]
            exact sound.client delivery inFrame ofClient
  | some target =>
      rcases Delivery.forward_packet forwarded with ⟨ofPeer, base⟩
      rcases deliver_of_some haveMmsg thread filling.lastAlloc forwarded with ⟨whenFull, whenFree⟩
      have free : (world.io.bufs delivery.buf).refCount ≠ chunksSize haveMmsg := by
        intro full
        rw [whenFull full] at delivered
        contradiction
      rcases whenFree free with ⟨relay, result⟩
      simp only [result, Except.ok.injEq] at delivered
      subst delivered
      have filled := consistent.fillSlot filling free target.session target.endpoint base
      cases rest_eq : delivery.rest with
      | none =>
          have used : ((world.io.fillSlot delivery.buf target.session target.endpoint
              target.packet).bufs delivery.buf).refCount ≠ 0 := by
            simp [Io.fillSlot, Io.setBuf]
          have ended := filled.releaseUnused
          rw [Io.releaseUnused_of_ne used] at ended
          exact ⟨⟨ended, by simp, by simp⟩, rfl⟩
      | some rest =>
          rcases Delivery.rest_eq_some rest_eq with ⟨handle, buf⟩
          refine ⟨⟨⟨pooled, by simpa [buf] using filled⟩, ?_, ?_⟩, rfl⟩
          · rintro other same
            rw [Option.some.injEq] at same
            rw [← same, buf]
            exact Consistent.filling_fillSlot filling _ _ _
          · rintro other same ofClient
            rw [Option.some.injEq] at same
            rw [← same, handle, ofPeer] at ofClient
            contradiction

theorem complete_eq (sound : world.Sound haveMmsg) {index : ℕ} {status : ℤ}
    {request : Request Endpoint} (inFlight : world.io.inFlight[index]? = some request)
    (succeeded : 0 ≤ status) :
    ∃ relay, complete haveMmsg thread index status world =
      .ok ⟨⟨relay, (world.io.leaveSlot index
        ⟨request.buf, request.packet, request.session⟩).releaseUnused request.buf⟩, none⟩ := by
  rcases sound.consistent with ⟨pooled, consistent⟩
  have intact := consistent.intact request (List.mem_of_getElem? inFlight)
  exact Libuv.complete_eq haveMmsg thread inFlight intact.chunk succeeded

theorem complete {index : ℕ} {status : ℤ} (sound : world.Sound haveMmsg)
    (between : world.frame = none)
    (completed : complete haveMmsg thread index status world = .ok after) :
    after.Sound haveMmsg ∧ after.io.created = world.io.created := by
  cases inFlight : world.io.inFlight[index]? with
  | none =>
      simp only [Libuv.complete, inFlight, Except.ok.injEq] at completed
      exact completed ▸ ⟨sound, rfl⟩
  | some request =>
      by_cases failed : status < 0
      · simp [Libuv.complete, inFlight, failed] at completed
      · rcases sound.complete_eq inFlight (not_lt.mp failed) with ⟨relay, result⟩
        rw [result, Except.ok.injEq] at completed
        subst completed
        rcases sound.consistent with ⟨pooled, consistent⟩
        rw [between] at consistent
        exact ⟨⟨consistent.complete inFlight, by simp, by simp⟩, created_releaseUnused _ _⟩

/-- Every event preserves the invariant, and creates a buffer only if there are as
many sends in flight as buffers. -/
theorem step {event : Event Endpoint} (sound : world.Sound haveMmsg)
    (processed : step haveMmsg thread world event = .ok after) :
    after.Sound haveMmsg ∧
      after.io.created ≤ max world.io.created (world.io.inFlight.length + 1) := by
  have kept (same : after.Sound haveMmsg ∧ after.io.created = world.io.created) :
      after.Sound haveMmsg ∧
        after.io.created ≤ max world.io.created (world.io.inFlight.length + 1) :=
    ⟨same.1, same.2.le.trans (le_max_left _ _)⟩
  have unchanged (same : Except.ok world = (Except.ok after : Except Abort (World Endpoint))) :
      after.Sound haveMmsg ∧
        after.io.created ≤ max world.io.created (world.io.inFlight.length + 1) :=
    kept (Except.ok.inj same ▸ ⟨sound, rfl⟩)
  cases event with
  | receive handle frame =>
      cases frame_eq : world.frame with
      | none => exact sound.receive frame_eq (by simpa [Libuv.step, frame_eq] using processed)
      | some delivery => exact unchanged (by simpa [Libuv.step, frame_eq] using processed)
  | deliver =>
      cases frame_eq : world.frame with
      | none => exact unchanged (by simpa [Libuv.step, frame_eq] using processed)
      | some delivery =>
          exact kept (sound.deliver frame_eq (by simpa [Libuv.step, frame_eq] using processed))
  | complete index status =>
      cases frame_eq : world.frame with
      | none =>
          exact kept (sound.complete frame_eq (by simpa [Libuv.step, frame_eq] using processed))
      | some delivery => exact unchanged (by simpa [Libuv.step, frame_eq] using processed)
  | otherRegisters id src =>
      simp only [Libuv.step, Except.ok.injEq] at processed
      subst processed
      exact kept ⟨⟨sound.consistent, sound.filling, sound.client⟩, rfl⟩

end World.Sound

end Urn.Libuv
