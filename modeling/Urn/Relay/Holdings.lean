import Urn.Foundation.Ledger
import Urn.Relay.Accounting

/-!
# What the threads hold

The counters of all threads together, and what the handlers of a back end add to them.
-/

namespace Urn.Relay

variable {Endpoint : Type}

/-- What a packet of the size adds to a counter. -/
def Measure.amount64 (measure : Measure) (size : ℕ) : UInt64 := UInt64.ofNat (measure.amount size)

/-- The size of the datagrams, or their number. -/
def amounts (measure : Measure) (datagrams : List (List UInt8)) : UInt64 :=
  (datagrams.map fun bytes => measure.amount64 bytes.length).sum

theorem amounts_append (measure : Measure) (first second : List (List UInt8)) :
    amounts measure (first ++ second) = amounts measure first + amounts measure second := by
  simp [amounts]

theorem amounts_packets (datagrams : List (List UInt8)) :
    amounts .packets datagrams = UInt64.ofNat datagrams.length := by
  induction datagrams with
  | nil => rfl
  | cons bytes datagrams ih =>
      have one : amounts .packets (bytes :: datagrams) = 1 + amounts .packets datagrams := rfl
      rw [one, ih, List.length_cons, UInt64.ofNat_add, add_comm]
      rfl

/-- What the threads hold. -/
def State.held (relay : State UInt16 Endpoint) (threads : List UInt16) (flow : Flow)
    (measure : Measure) : UInt64 :=
  (threads.map fun thread => (relay.perThreadStatistics thread).get flow measure).sum

namespace State

variable {relay : State UInt16 Endpoint} {threads : List UInt16} {thread : UInt16}

theorem held_congr {other : State UInt16 Endpoint}
    (same : relay.perThreadStatistics = other.perThreadStatistics) (flow : Flow)
    (measure : Measure) : relay.held threads flow measure = other.held threads flow measure := by
  rw [held, held, same]

theorem held_updateIoStatistics (nodup : threads.Nodup) (thread_mem : thread ∈ threads)
    (relay : State UInt16 Endpoint) (counted flow : Flow) (size : ℕ) (measure : Measure) :
    (relay.updateIoStatistics thread counted size).held threads flow measure =
      relay.held threads flow measure + if counted = flow then measure.amount64 size else 0 := by
  apply sum_map_update_add nodup thread_mem
  · simp only [updateIoStatistics, Function.update_self, Statistics.count_get]
    by_cases same : counted = flow <;> simp [same, Measure.amount64]
  · intro other different
    simp [updateIoStatistics, different]

theorem held_clientReceived (nodup : threads.Nodup) (thread_mem : thread ∈ threads)
    (relay : State UInt16 Endpoint) (src : Endpoint) (bytes : List UInt8) (flow : Flow)
    (measure : Measure) :
    (relay.clientReceived thread src bytes).2.held threads flow measure =
      relay.held threads flow measure +
        if flow = .inbound then measure.amount64 bytes.length else 0 := by
  rw [held_congr (relay.clientReceived_perThreadStatistics thread src bytes),
    held_updateIoStatistics nodup thread_mem]
  cases flow <;> rfl

theorem held_tryRegisterSession (relay : State UInt16 Endpoint) (id : SessionId) (src : Endpoint)
    (flow : Flow) (measure : Measure) :
    (relay.tryRegisterSession id src).2.held threads flow measure =
      relay.held threads flow measure := by
  apply held_congr
  by_cases known : id ∈ relay.sessions
  · rw [tryRegisterSession_of_mem known]
  · rw [tryRegisterSession_of_notMem known]

/-- `load_statistics` returns all that is held. -/
theorem held_loadStatistics (relay : State UInt16 Endpoint) (threads : List UInt16) (flow : Flow)
    (measure : Measure) :
    (relay.loadStatistics threads).1.get flow measure +
      (relay.loadStatistics threads).2.held threads flow measure =
        relay.held threads flow measure := by
  have nothing : (relay.loadStatistics threads).2.held threads flow measure = 0 := by
    apply List.sum_eq_zero
    intro value value_mem
    rcases List.mem_map.mp value_mem with ⟨thread, -, rfl⟩
    exact Statistics.zero_get flow measure
  rw [nothing, add_zero]
  exact loadStatistics_get relay threads flow measure

end State

end Urn.Relay
