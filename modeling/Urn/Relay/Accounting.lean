import Mathlib.Algebra.Order.BigOperators.Group.List
import Urn.Relay.Entries

/-!
# Conservation of the statistics

What all calls of `load_statistics` have returned and what the threads hold adds up
to the packets which have been processed.
-/

namespace Urn.Relay

/-- The two counters of a direction. -/
inductive Measure
  | packets
  | bytes
deriving DecidableEq

/-- What a packet of the size adds to the counter. -/
def Measure.amount : Measure → ℕ → ℕ
  | packets, _ => 1
  | bytes, size => size

def Direction.get (direction : Direction) : Measure → UInt64
  | .packets => direction.packets
  | .bytes => direction.bytes

namespace Statistics

def get (statistics : Statistics) : Flow → Measure → UInt64
  | .inbound => statistics.inbound.get
  | .outbound => statistics.outbound.get

@[simp]
theorem zero_get (flow : Flow) (measure : Measure) : zero.get flow measure = 0 := by
  cases flow <;> cases measure <;> rfl

theorem count_get (statistics : Statistics) (counted flow : Flow) (size : ℕ) (measure : Measure) :
    (statistics.count counted size).get flow measure =
      statistics.get flow measure +
        UInt64.ofNat (if counted = flow then measure.amount size else 0) := by
  cases counted <;> cases flow <;> cases measure <;> simp [count, get, Direction.get,
    Direction.count, Measure.amount]

theorem sumInto_get (statistics dest : Statistics) (flow : Flow) (measure : Measure) :
    (statistics.sumInto dest).get flow measure =
      dest.get flow measure + statistics.get flow measure := by
  cases flow <;> cases measure <;> rfl

end Statistics

/-- Adding to one of the summands. -/
theorem sum_map_update_add {Index Sum : Type} [DecidableEq Index] [AddCommMonoid Sum]
    {indices : List Index} (nodup : indices.Nodup) {index : Index} (index_mem : index ∈ indices)
    {before after : Index → Sum} {added : Sum} (changed : after index = before index + added)
    (unchanged : ∀ other, other ≠ index → after other = before other) :
    (indices.map after).sum = (indices.map before).sum + added := by
  induction indices with
  | nil => contradiction
  | cons first indices ih =>
      rcases List.nodup_cons.mp nodup with ⟨first_notMem, nodup⟩
      simp only [List.map_cons, List.sum_cons]
      rcases List.mem_cons.mp index_mem with rfl | index_mem
      · have rest : indices.map after = indices.map before := by
          apply List.map_congr_left
          intro other other_mem
          apply unchanged
          rintro rfl
          exact first_notMem other_mem
        simp only [changed, rest]
        exact add_right_comm _ _ _
      · have different : first ≠ index := by
          rintro rfl
          exact first_notMem index_mem
        simp only [unchanged first different, ih nodup index_mem, add_assoc]

theorem loadStatistics_get {Slot Endpoint : Type} (relay : State Slot Endpoint)
    (threads : List Slot) (flow : Flow) (measure : Measure) :
    (relay.loadStatistics threads).1.get flow measure =
      (threads.map fun thread => (relay.perThreadStatistics thread).get flow measure).sum := by
  have general (total : Statistics) :
      (threads.foldl (fun total thread =>
        (relay.perThreadStatistics thread).getAndReset.1.sumInto total) total).get flow measure =
        total.get flow measure +
          (threads.map fun thread => (relay.perThreadStatistics thread).get flow measure).sum := by
    induction threads generalizing total with
    | nil => simp
    | cons thread threads ih =>
        simp only [List.foldl_cons, ih, Statistics.sumInto_get, List.map_cons, List.sum_cons,
          add_assoc]
        rfl
  have total := general .zero
  rw [Statistics.zero_get, zero_add] at total
  exact total

namespace Service

variable {Thread Endpoint : Type} [DecidableEq Thread]

/-! ## The packets of an execution -/

/-- The thread which handles a packet, the direction in which it is counted, and the packet. -/
def Event.handled : Event Thread Endpoint → Option (Thread × Flow × List UInt8)
  | .clientReceived thread _ packet => some (thread, .inbound, packet)
  | .peerReceived thread _ packet => some (thread, .inbound, packet)
  | .sessionSent thread packet => some (thread, .outbound, packet)
  | .threadStart _ _ | .loadStatistics => none

/-- The packet which the event counts in the direction. -/
def Event.counted (flow : Flow) (event : Event Thread Endpoint) : Option (List UInt8) :=
  match event.handled with
  | some (_, direction, packet) => if direction = flow then some packet else none
  | none => none

def processed (flow : Flow) (events : List (Event Thread Endpoint)) : List (List UInt8) :=
  events.filterMap (Event.counted flow)

/-- The number of the packets processed, or their size. -/
def amount (flow : Flow) (measure : Measure) (events : List (Event Thread Endpoint)) : ℕ :=
  ((processed flow events).map fun packet => measure.amount packet.length).sum

omit [DecidableEq Thread] in
theorem processed_snoc (flow : Flow) (events : List (Event Thread Endpoint))
    (event : Event Thread Endpoint) :
    processed flow (events ++ [event]) = processed flow events ++ (event.counted flow).toList := by
  cases counted : event.counted flow <;> simp [processed, counted]

omit [DecidableEq Thread] in
theorem amount_snoc_of_handled {event : Event Thread Endpoint} {thread : Thread} {direction : Flow}
    {packet : List UInt8} (handled : event.handled = some (thread, direction, packet))
    (flow : Flow) (measure : Measure) (events : List (Event Thread Endpoint)) :
    amount flow measure (events ++ [event]) = amount flow measure events +
      if direction = flow then measure.amount packet.length else 0 := by
  by_cases same : direction = flow <;>
    simp [amount, processed_snoc, Event.counted, handled, same]

omit [DecidableEq Thread] in
theorem processed_snoc_of_not_handled {event : Event Thread Endpoint}
    (notHandled : event.handled = none) (flow : Flow) (events : List (Event Thread Endpoint)) :
    processed flow (events ++ [event]) = processed flow events := by
  simp [processed_snoc, Event.counted, notHandled]

omit [DecidableEq Thread] in
theorem amount_snoc_of_not_handled {event : Event Thread Endpoint}
    (notHandled : event.handled = none) (flow : Flow) (measure : Measure)
    (events : List (Event Thread Endpoint)) :
    amount flow measure (events ++ [event]) = amount flow measure events := by
  simp [amount, processed_snoc_of_not_handled notHandled]

/-! ## What an event does to the statistics -/

/-- A packet is counted once, on the slot of the thread which handles it; one that is
received is sent once at most. -/
structure Counts (process after : Process Thread Endpoint) (slot : UInt16) (flow : Flow)
    (packet : List UInt8) : Prop where
  perThreadStatistics : after.worker.relay.perThreadStatistics =
    (process.worker.relay.updateIoStatistics slot flow packet.length).perThreadStatistics
  thisThreadStatistics : after.thisThreadStatistics = process.thisThreadStatistics
  loaded : after.loaded = process.loaded
  sends : ∃ sent, after.worker.io.sends.map Prod.snd =
    process.worker.io.sends.map Prod.snd ++ sent ∧ sent.Sublist [packet] ∧
      (flow = .outbound → sent = [])

theorem step_handled {threadCount : UInt16} {process after : Process Thread Endpoint}
    {event : Event Thread Endpoint} {thread : Thread} {flow : Flow} {packet : List UInt8}
    (handled : event.handled = some (thread, flow, packet))
    (stepped : step threadCount process event = .ok after) :
    ∃ slot, process.thisThreadStatistics thread = some slot ∧
      Counts process after slot flow packet := by
  cases event with
  | threadStart thread index => contradiction
  | loadStatistics => contradiction
  | clientReceived thread src packet =>
      simp only [Event.handled, Option.some.injEq, Prod.mk.injEq] at handled
      rcases handled with ⟨rfl, rfl, rfl⟩
      simp only [step] at stepped
      rcases onThread_ok stepped with ⟨slot, worker, started, ran, rfl⟩
      refine ⟨slot, started, ?_, rfl, rfl, [], ?_, by simp, by simp⟩
      all_goals
        rw [(recorder Endpoint).runOnClientReceived_eq] at ran
        simp only [Except.map, Except.ok.injEq] at ran
        subst ran
      · exact State.clientReceived_perThreadStatistics _ _ _ _
      · simp only [List.append_nil, recorder, Record.clientStartReceive]
        by_cases registered : (process.worker.relay.clientReceived slot src packet).1 = true
        · simp [registered, Record.peerStartReceive]
        · simp [registered]
  | peerReceived thread entry packet =>
      simp only [Event.handled, Option.some.injEq, Prod.mk.injEq] at handled
      rcases handled with ⟨rfl, rfl, rfl⟩
      simp only [step] at stepped
      rcases onThread_ok stepped with ⟨slot, worker, started, ran, rfl⟩
      simp only [runPeerEntry_eq, Except.ok.injEq] at ran
      subst ran
      cases routed : process.worker.relay.route packet with
      | none =>
          refine ⟨slot, started, rfl, rfl, rfl, [], ?_, by simp, by simp⟩
          simp only [Record.peerReceived, List.append_nil]
          split <;> rfl
      | some target =>
          refine ⟨slot, started, rfl, rfl, rfl, [packet], ?_, by simp, by simp⟩
          simp [Record.peerReceived, Record.send]
  | sessionSent thread packet =>
      simp only [Event.handled, Option.some.injEq, Prod.mk.injEq] at handled
      rcases handled with ⟨rfl, rfl, rfl⟩
      simp only [step] at stepped
      rcases onThread_ok stepped with ⟨slot, worker, started, ran, rfl⟩
      rw [(recorder Endpoint).runOnSessionSent_eq] at ran
      simp only [Except.map, Except.ok.injEq] at ran
      subst ran
      exact ⟨slot, started, rfl, rfl, rfl, [], by simp [recorder, Record.peerStartReceive],
        by simp, by simp⟩

/-! ## Conservation -/

theorem mem_slots_iff {threadCount index : UInt16} :
    index ∈ slots threadCount ↔ index < threadCount := by
  rw [slots, List.mem_map]
  constructor
  · rintro ⟨position, position_mem, rfl⟩
    have small := List.mem_range.mp position_mem
    have bound := threadCount.toNat_lt
    rw [UInt16.lt_iff_toNat_lt, UInt16.toNat_ofNat']
    omega
  · intro below
    refine ⟨index.toNat, List.mem_range.mpr (UInt16.lt_iff_toNat_lt.mp below), ?_⟩
    simp

theorem slots_nodup (threadCount : UInt16) : (slots threadCount).Nodup := by
  apply List.Nodup.map_on ?_ List.nodup_range
  intro left left_mem right right_mem same
  have leftSmall := List.mem_range.mp left_mem
  have rightSmall := List.mem_range.mp right_mem
  have bound := threadCount.toNat_lt
  have values := congrArg UInt16.toNat same
  rw [UInt16.toNat_ofNat', UInt16.toNat_ofNat'] at values
  omega

/-- What the threads hold. -/
def held (threadCount : UInt16) (process : Process Thread Endpoint) (flow : Flow)
    (measure : Measure) : UInt64 :=
  ((slots threadCount).map fun slot =>
    (process.worker.relay.perThreadStatistics slot).get flow measure).sum

omit [DecidableEq Thread] in
theorem held_of_zero {threadCount : UInt16} {process : Process Thread Endpoint}
    (isZero : ∀ slot, process.worker.relay.perThreadStatistics slot = .zero) (flow : Flow)
    (measure : Measure) : held threadCount process flow measure = 0 := by
  apply List.sum_eq_zero
  intro value value_mem
  rcases List.mem_map.mp value_mem with ⟨slot, _, rfl⟩
  rw [isZero slot]
  exact Statistics.zero_get flow measure

omit [DecidableEq Thread] in
theorem Counts.held_eq {threadCount : UInt16} {process after : Process Thread Endpoint}
    {slot : UInt16} {direction : Flow} {packet : List UInt8}
    (counts : Counts process after slot direction packet) (started : slot < threadCount)
    (flow : Flow) (measure : Measure) :
    held threadCount after flow measure = held threadCount process flow measure +
      UInt64.ofNat (if direction = flow then measure.amount packet.length else 0) := by
  have changed : (after.worker.relay.perThreadStatistics slot).get flow measure =
      (process.worker.relay.perThreadStatistics slot).get flow measure +
        UInt64.ofNat (if direction = flow then measure.amount packet.length else 0) := by
    simp [counts.perThreadStatistics, State.updateIoStatistics, Statistics.count_get]
  have unchanged (other : UInt16) (different : other ≠ slot) :
      (after.worker.relay.perThreadStatistics other).get flow measure =
        (process.worker.relay.perThreadStatistics other).get flow measure := by
    simp [counts.perThreadStatistics, State.updateIoStatistics, different]
  exact sum_map_update_add (slots_nodup threadCount) (mem_slots_iff.mpr started) changed unchanged

/-- The sum of what has been loaded and of what is held. -/
def total (threadCount : UInt16) (process : Process Thread Endpoint) (flow : Flow)
    (measure : Measure) : UInt64 :=
  (process.loaded.map fun statistics => statistics.get flow measure).sum +
    ((slots threadCount).map fun slot =>
      (process.worker.relay.perThreadStatistics slot).get flow measure).sum

omit [DecidableEq Thread] in
theorem total_eq_add_held (threadCount : UInt16) (process : Process Thread Endpoint) (flow : Flow)
    (measure : Measure) :
    total threadCount process flow measure =
      (process.loaded.map fun statistics => statistics.get flow measure).sum +
        held threadCount process flow measure := rfl

structure Balanced (threadCount : UInt16) (events : List (Event Thread Endpoint))
    (process : Process Thread Endpoint) : Prop where
  started : ∀ thread slot, process.thisThreadStatistics thread = some slot → slot < threadCount
  total_eq : ∀ flow measure,
    total threadCount process flow measure = UInt64.ofNat (amount flow measure events)
  sends : (process.worker.io.sends.map Prod.snd).Sublist (processed .inbound events)

omit [DecidableEq Thread] in
theorem initial_balanced (threadCount : UInt16) :
    Balanced threadCount [] (Process.initial : Process Thread Endpoint) where
  started := by simp [Process.initial]
  total_eq := by
    intro flow measure
    rw [total_eq_add_held, held_of_zero fun slot => rfl]
    simp [Process.initial, amount, processed]
  sends := by simp [Process.initial, Record.empty]

omit [DecidableEq Thread] in
theorem Counts.total_eq {threadCount : UInt16} {process after : Process Thread Endpoint}
    {slot : UInt16} {direction : Flow} {packet : List UInt8}
    (counts : Counts process after slot direction packet) (started : slot < threadCount)
    (flow : Flow) (measure : Measure) :
    total threadCount after flow measure = total threadCount process flow measure +
      UInt64.ofNat (if direction = flow then measure.amount packet.length else 0) := by
  rw [total_eq_add_held, total_eq_add_held, counts.loaded, counts.held_eq started, add_assoc]

theorem Balanced.handled {threadCount : UInt16} {events : List (Event Thread Endpoint)}
    {process after : Process Thread Endpoint} {event : Event Thread Endpoint} {thread : Thread}
    {direction : Flow} {packet : List UInt8} (balanced : Balanced threadCount events process)
    (handled : event.handled = some (thread, direction, packet))
    (stepped : step threadCount process event = .ok after) :
    Balanced threadCount (events ++ [event]) after := by
  rcases step_handled handled stepped with ⟨slot, isSlot, counts⟩
  constructor
  · rw [counts.thisThreadStatistics]
    exact balanced.started
  · intro flow measure
    rw [counts.total_eq (balanced.started thread slot isSlot), balanced.total_eq,
      amount_snoc_of_handled handled, UInt64.ofNat_add]
  · rcases counts.sends with ⟨sent, sends_eq, sent_sublist, notSent⟩
    have counted : event.counted .inbound = if direction = .inbound then some packet else none := by
      simp [Event.counted, handled]
    rw [sends_eq, processed_snoc, counted]
    apply balanced.sends.append
    cases direction with
    | inbound => simpa using sent_sublist
    | outbound => simp [notSent rfl]

theorem Balanced.loadStatistics {threadCount : UInt16} {events : List (Event Thread Endpoint)}
    {process after : Process Thread Endpoint} (balanced : Balanced threadCount events process)
    (stepped : step threadCount process .loadStatistics = .ok after) :
    Balanced threadCount (events ++ [.loadStatistics]) after := by
  simp only [step, Except.ok.injEq] at stepped
  subst stepped
  constructor
  · exact balanced.started
  · intro flow measure
    have before := balanced.total_eq flow measure
    rw [amount_snoc_of_not_handled rfl, total_eq_add_held, held_of_zero fun slot => rfl]
    simpa [total, loadStatistics_get] using before
  · rw [processed_snoc_of_not_handled rfl]
    exact balanced.sends

theorem Balanced.threadStart {threadCount : UInt16} {events : List (Event Thread Endpoint)}
    {process after : Process Thread Endpoint} {thread : Thread} {index : UInt16}
    (balanced : Balanced threadCount events process)
    (stepped : step threadCount process (.threadStart thread index) = .ok after) :
    Balanced threadCount (events ++ [.threadStart thread index]) after := by
  rcases step_threadStart stepped with ⟨below, rfl⟩
  constructor
  · intro other slot isSlot
    by_cases same : other = thread
    · subst same
      have index_eq : index = slot := by simpa using isSlot
      exact index_eq ▸ below
    · exact balanced.started other slot (by simpa [same] using isSlot)
  · intro flow measure
    rw [amount_snoc_of_not_handled rfl]
    exact balanced.total_eq flow measure
  · rw [processed_snoc_of_not_handled rfl]
    exact balanced.sends

theorem run_balanced {threadCount : UInt16} {events : List (Event Thread Endpoint)}
    {process : Process Thread Endpoint} (ran : run threadCount events = .ok process) :
    Balanced threadCount events process := by
  apply Execution.execute_invariant (Balanced threadCount) (initial_balanced threadCount) ?_ ran
  intro events process event after _ balanced stepped
  cases event with
  | threadStart thread index => exact balanced.threadStart stepped
  | clientReceived thread src packet => exact balanced.handled rfl stepped
  | peerReceived thread entry packet => exact balanced.handled rfl stepped
  | sessionSent thread packet => exact balanced.handled rfl stepped
  | loadStatistics => exact balanced.loadStatistics stepped

theorem step_frame {threadCount : UInt16} {process after : Process Thread Endpoint}
    {event : Event Thread Endpoint} (notLoad : event ≠ .loadStatistics)
    (stepped : step threadCount process event = .ok after) {slot : UInt16}
    (notOwn : ∀ thread flow packet, event.handled = some (thread, flow, packet) →
      process.thisThreadStatistics thread ≠ some slot) :
    after.worker.relay.perThreadStatistics slot =
      process.worker.relay.perThreadStatistics slot := by
  cases handled : event.handled with
  | none =>
      cases event with
      | threadStart thread index =>
          rcases step_threadStart stepped with ⟨_, rfl⟩
          rfl
      | loadStatistics => contradiction
      | clientReceived thread src packet => contradiction
      | peerReceived thread entry packet => contradiction
      | sessionSent thread packet => contradiction
  | some handling =>
      rcases handling with ⟨thread, flow, packet⟩
      rcases step_handled handled stepped with ⟨own, isOwn, counts⟩
      have different : slot ≠ own := by
        rintro rfl
        exact notOwn thread flow packet handled isOwn
      rw [counts.perThreadStatistics]
      simp [State.updateIoStatistics, different]

omit [DecidableEq Thread] in
/-- Packets which are sent once at most are no more than those from which they have been sent. -/
theorem Balanced.outbound_le {threadCount : UInt16} {events : List (Event Thread Endpoint)}
    {process : Process Thread Endpoint} (balanced : Balanced threadCount events process)
    (once : ∀ packet, (processed .outbound events).count packet ≤
      (process.worker.io.sends.map Prod.snd).count packet) (measure : Measure) :
    amount .outbound measure events ≤ amount .inbound measure events := by
  have outbound : (processed .outbound events).Subperm (process.worker.io.sends.map Prod.snd) :=
    List.subperm_ext_iff.mpr fun packet _ => once packet
  have inbound := outbound.trans balanced.sends.subperm
  rcases inbound with ⟨same, perm, sublist⟩
  have sums := (perm.map fun packet => measure.amount packet.length).sum_eq
  have le := (sublist.map fun packet : List UInt8 => measure.amount packet.length).sum_le_sum
    (fun _ _ => Nat.zero_le _)
  rw [amount, amount, ← sums]
  exact le

/-- What holds after every sequence of packet events and calls of `load_statistics`. -/
structure Conserved (threadCount : UInt16) (events : List (Event Thread Endpoint))
    (process : Process Thread Endpoint) : Prop where
  total_eq : ∀ flow measure,
    total threadCount process flow measure = UInt64.ofNat (amount flow measure events)
  own_slot : ∀ event after slot, event ≠ .loadStatistics →
    step threadCount process event = .ok after →
    (∀ thread flow packet, event.handled = some (thread, flow, packet) →
      process.thisThreadStatistics thread ≠ some slot) →
    after.worker.relay.perThreadStatistics slot = process.worker.relay.perThreadStatistics slot
  outbound_le : (∀ packet, (processed .outbound events).count packet ≤
      (process.worker.io.sends.map Prod.snd).count packet) →
    ∀ measure, amount .outbound measure events ≤ amount .inbound measure events

/-- Whatever the handlers, the operations and the loads of all threads, what has been loaded and
what the slots hold adds up to what has been processed. -/
theorem statistics_conserved {threadCount : UInt16} {events : List (Event Thread Endpoint)}
    {process : Process Thread Endpoint} (ran : run threadCount events = .ok process) :
    Conserved threadCount events process where
  total_eq := (run_balanced ran).total_eq
  own_slot := by
    intro event after slot notLoad stepped notOwn
    exact step_frame notLoad stepped notOwn
  outbound_le := (run_balanced ran).outbound_le

/-- Two threads; the statistics are loaded between a registration and a short packet. -/
theorem statistics_conserved_two_threads :
    let events : List (Event Bool ℕ) :=
      [.threadStart true 0, .threadStart false 1, .clientReceived true 7 [1, 0, 0, 0, 0, 0, 0, 0],
        .loadStatistics, .peerReceived false .peerData [1, 2]]
    ∃ process, run 2 events = .ok process ∧ process.loaded.length = 1 ∧
      Conserved 2 events process := by
  intro events
  have succeeds : Execution.succeedsWith (run 2 events)
      (fun process => process.loaded.length = 1) = true := by
    decide +kernel
  rcases Execution.exists_of_succeedsWith succeeds with ⟨process, ran, test⟩
  exact ⟨process, ran, of_decide_eq_true test, statistics_conserved ran⟩

end Service

end Urn.Relay
