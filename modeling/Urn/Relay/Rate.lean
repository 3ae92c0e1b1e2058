import Mathlib.Data.List.Nodup
import Urn.Foundation.Scaling
import Urn.Relay.Accounting

/-!
# Rates

`relay::bits_per_sec` and `relay::print_statistics`, which tell how much has been
relayed since the statistics were last taken.  Standard output and the text which
`load_statistics` makes of the ingress of each thread are left out.
-/

namespace Urn.Relay

/-- `units` of `relay::bits_per_sec`. -/
def units : List String := ["bps", "Kbps", "Mbps", "Gbps"]

inductive RateFault
  /-- The interval has no seconds. -/
  | divisionByZero
  /-- `*unit` is read after the last of the units. -/
  | pastUnits
deriving DecidableEq

theorem toNat_div_thousand_lt {bits : UInt64} (above : 1000 < bits) :
    (bits / 1000).toNat < bits.toNat := by
  have above : 1000 < bits.toNat := UInt64.lt_iff_toNat_lt.mp above
  rw [UInt64.toNat_div]
  exact Nat.div_lt_self (by omega) (by decide)

/-- The loop of `relay::bits_per_sec`, with `unit` as an index. -/
def scale (bits : UInt64) (unit : ℕ) : UInt64 × ℕ :=
  if 1000 < bits ∧ unit + 1 ≠ units.length then
    scale (bits / 1000) (unit + 1)
  else
    (bits, unit)
termination_by bits.toNat
decreasing_by
  rename_i continues
  exact toNat_div_thousand_lt continues.1

/-- Division of a `size_t` by `interval.count()`, which is converted to `size_t` before. -/
def divideByCount (dividend : UInt64) (interval : Int64) : Except RateFault UInt64 :=
  if interval = 0 then .error .divisionByZero else .ok (dividend / interval.toUInt64)

/-- `relay::bits_per_sec` -/
def bitsPerSec (bytes : UInt64) (interval : Int64) : Except RateFault (UInt64 × String) :=
  match divideByCount (8 * bytes) interval with
  | .error fault => .error fault
  | .ok bits =>
      let scaled := scale bits 0
      match units[scaled.2]? with
      | some unit => .ok (scaled.1, unit)
      | none => .error .pastUnits

/-! ## The loop -/

theorem scale_of_continues {bits : UInt64} {unit : ℕ}
    (continues : 1000 < bits ∧ unit + 1 ≠ units.length) :
    scale bits unit = scale (bits / 1000) (unit + 1) := by
  rw [scale, if_pos continues]

theorem scale_of_stops {bits : UInt64} {unit : ℕ}
    (stops : ¬(1000 < bits ∧ unit + 1 ≠ units.length)) : scale bits unit = (bits, unit) := by
  rw [scale, if_neg stops]

/-- The unit and the value which the loop leaves are those of the number it begins with. -/
structure Scaled (bits : UInt64) (unit : ℕ) (scaled : UInt64 × ℕ) : Prop where
  value_eq : scaled.1.toNat =
    Scaling.quotient 1000 1000 (units.length - 1 - unit) bits.toNat
  unit_eq : scaled.2 = unit + Scaling.exponent 1000 1000 (units.length - 1 - unit) bits.toNat

theorem scaled_of_exponent {bits : UInt64} {unit : ℕ}
    (isZero : Scaling.exponent 1000 1000 (units.length - 1 - unit) bits.toNat = 0) :
    Scaled bits unit (bits, unit) where
  value_eq := (Scaling.quotient_of_exponent isZero).symm
  unit_eq := by rw [isZero, Nat.add_zero]

/-- By recursion on the loop; `unit` stays an index of the units. -/
theorem scale_scaled (bits : UInt64) (unit : ℕ) (inTable : unit < units.length) :
    Scaled bits unit (scale bits unit) := by
  induction bits, unit using scale.induct with
  | case1 bits unit continues ih =>
      rw [scale_of_continues continues]
      have above : 1000 < bits.toNat := UInt64.lt_iff_toNat_lt.mp continues.1
      have next := ih (by omega)
      have last_eq : units.length - 1 - unit = units.length - 1 - (unit + 1) + 1 := by omega
      constructor
      · rw [next.value_eq, last_eq, Scaling.quotient_succ above, UInt64.toNat_div]
        rfl
      · rw [next.unit_eq, last_eq, Scaling.exponent_succ above, UInt64.toNat_div]
        simp only [UInt64.reduceToNat]
        omega
  | case2 bits unit stops =>
      rw [scale_of_stops stops]
      apply scaled_of_exponent
      by_cases above : 1000 < bits
      · have isLast : unit + 1 = units.length := by
          by_contra notLast
          exact stops ⟨above, notLast⟩
        have last_eq : units.length - 1 - unit = 0 := by omega
        rw [last_eq]
        exact Scaling.exponent_zero 1000 1000 bits.toNat
      · apply Scaling.exponent_of_le
        exact UInt64.le_iff_toNat_le.mp (UInt64.not_lt.mp above)

/-! ## The rate of a number of bytes -/

theorem toNat_toUInt64_of_pos {interval : Int64} (positive : 1 ≤ interval.toInt) :
    interval.toUInt64.toNat = interval.toInt.toNat := by
  apply Int64.toNat_toUInt64_of_le
  apply Int64.le_iff_toInt_le.mpr
  simp only [Int64.toInt_zero]
  omega

theorem ne_zero_of_pos {interval : Int64} (positive : 1 ≤ interval.toInt) : interval ≠ 0 := by
  rintro rfl
  simp at positive

theorem divideByCount_of_ne {interval : Int64} (notZero : interval ≠ 0) (dividend : UInt64) :
    divideByCount dividend interval = .ok (dividend / interval.toUInt64) := by
  simp only [divideByCount, if_neg notZero]

theorem toNat_bits {bytes : UInt64} (fits : 8 * bytes.toNat < 2 ^ 64) :
    (8 * bytes).toNat = 8 * bytes.toNat := by
  simp only [UInt64.toNat_mul, UInt64.reduceToNat]
  exact Nat.mod_eq_of_lt fits

/-- The number of bits for each second, rounded down. -/
def bitRate (bytes : UInt64) (interval : Int64) : ℕ := 8 * bytes.toNat / interval.toInt.toNat

theorem toNat_bitRate {bytes : UInt64} {interval : Int64} (positive : 1 ≤ interval.toInt)
    (fits : 8 * bytes.toNat < 2 ^ 64) :
    (8 * bytes / interval.toUInt64).toNat = bitRate bytes interval := by
  simp only [UInt64.toNat_div, toNat_bits fits, toNat_toUInt64_of_pos positive, bitRate]

/-- The value is returned in the unit which has the index. -/
def Returns (bytes : UInt64) (interval : Int64) (value : UInt64) (index : ℕ) : Prop :=
  ∃ unit, units[index]? = some unit ∧ bitsPerSec bytes interval = .ok (value, unit)

theorem Returns.unique {bytes value other : UInt64} {interval : Int64} {index otherIndex : ℕ}
    (returns : Returns bytes interval value index)
    (returnsOther : Returns bytes interval other otherIndex) :
    value = other ∧ index = otherIndex := by
  rcases returns with ⟨unit, isUnit, returned⟩
  rcases returnsOther with ⟨otherUnit, isOtherUnit, returnedOther⟩
  have same := returned.symm.trans returnedOther
  simp only [Except.ok.injEq, Prod.mk.injEq] at same
  rcases same with ⟨rfl, rfl⟩
  have nodup : units.Nodup := by decide
  have small : index < units.length := (List.getElem?_eq_some_iff.mp isUnit).1
  exact ⟨rfl, (List.getElem?_inj small nodup).mp (isUnit.trans isOtherUnit.symm)⟩

/-- The loop ends at one of the units, whatever the number of bytes. -/
theorem returns_quotient {interval : Int64} (notZero : interval ≠ 0) (bytes : UInt64) :
    ∃ value, Returns bytes interval value
        (Scaling.exponent 1000 1000 3 (8 * bytes / interval.toUInt64).toNat) ∧
      value.toNat = Scaling.quotient 1000 1000 3 (8 * bytes / interval.toUInt64).toNat := by
  have scaled := scale_scaled (8 * bytes / interval.toUInt64) 0 (by decide)
  rcases result : scale (8 * bytes / interval.toUInt64) 0 with ⟨value, index⟩
  rw [result] at scaled
  have last_eq : units.length - 1 - 0 = 3 := rfl
  have value_eq := scaled.value_eq
  have index_eq := scaled.unit_eq
  simp only [last_eq, Nat.zero_add] at value_eq index_eq
  have small : index < units.length := by
    rw [index_eq]
    exact Nat.lt_succ_of_le (Scaling.exponent_le 1000 1000 3 _)
  have isUnit := List.getElem?_eq_getElem small
  refine ⟨value, ?_, value_eq⟩
  rw [← index_eq]
  refine ⟨units[index], isUnit, ?_⟩
  simp only [bitsPerSec, divideByCount_of_ne notZero, result, isUnit]

theorem returns_bitRate {bytes : UInt64} {interval : Int64} (positive : 1 ≤ interval.toInt)
    (fits : 8 * bytes.toNat < 2 ^ 64) :
    ∃ value, Returns bytes interval value
        (Scaling.exponent 1000 1000 3 (bitRate bytes interval)) ∧
      value.toNat = Scaling.quotient 1000 1000 3 (bitRate bytes interval) := by
  have returned := returns_quotient (ne_zero_of_pos positive) bytes
  rwa [toNat_bitRate positive fits] at returned

/-- The value is the rate rounded down, in the least unit in which it is at most 1000. -/
structure Scales (bytes : UInt64) (interval : Int64) (value : UInt64) (index : ℕ) : Prop where
  returns : Returns bytes interval value index
  index_le : index ≤ 3
  value_eq : value.toNat = 8 * bytes.toNat / (interval.toInt.toNat * 1000 ^ index)
  smaller : ∀ lesser < index, 1000 < 8 * bytes.toNat / (interval.toInt.toNat * 1000 ^ lesser)
  value_le : index < 3 → value.toNat ≤ 1000

theorem exists_scales {bytes : UInt64} {interval : Int64} (positive : 1 ≤ interval.toInt)
    (fits : 8 * bytes.toNat < 2 ^ 64) : ∃ value index, Scales bytes interval value index := by
  rcases returns_bitRate positive fits with ⟨value, returns, value_eq⟩
  refine ⟨value, _, returns, Scaling.exponent_le _ _ _ _, ?_, ?_, ?_⟩
  · rw [value_eq, Scaling.quotient, bitRate, Nat.div_div_eq_div_mul]
  · intro lesser lesser_lt
    have above := Scaling.limit_lt_of_lt_exponent lesser_lt
    rwa [bitRate, Nat.div_div_eq_div_mul] at above
  · intro notLast
    rw [value_eq]
    exact Scaling.quotient_le_limit notLast

/-- More bytes are never told as a lower rate, whichever the units are. -/
theorem Returns.rate_le {bytes more value larger : UInt64} {interval : Int64}
    {index largerIndex : ℕ} (positive : 1 ≤ interval.toInt) (fits : 8 * more.toNat < 2 ^ 64)
    (le : bytes ≤ more) (returns : Returns bytes interval value index)
    (returnsMore : Returns more interval larger largerIndex) :
    value.toNat * 1000 ^ index ≤ larger.toNat * 1000 ^ largerIndex := by
  have le : bytes.toNat ≤ more.toNat := UInt64.le_iff_toNat_le.mp le
  rcases returns_bitRate positive (by omega : 8 * bytes.toNat < 2 ^ 64) with
    ⟨scaled, scales, scaled_eq⟩
  rcases returns_bitRate positive fits with ⟨scaledMore, scalesMore, scaledMore_eq⟩
  rcases returns.unique scales with ⟨rfl, rfl⟩
  rcases returnsMore.unique scalesMore with ⟨rfl, rfl⟩
  have rates : bitRate bytes interval ≤ bitRate more interval :=
    Nat.div_le_div_right (Nat.mul_le_mul_left 8 le)
  rw [scaled_eq, scaledMore_eq]
  exact Scaling.rounded_mono (by decide) (by decide) (by decide) rates

/-- A rate is told in the least unit in which it is at most 1000, or else in the greatest one, and
more bytes are never told as a lower rate. -/
theorem bitsPerSec_scales {interval : Int64} (positive : 1 ≤ interval.toInt) :
    (∀ bytes : UInt64, 8 * bytes.toNat < 2 ^ 64 →
      ∃ value index, Scales bytes interval value index) ∧
    ∀ bytes more value larger index largerIndex,
      bytes ≤ more → 8 * more.toNat < 2 ^ 64 →
      Returns bytes interval value index → Returns more interval larger largerIndex →
      value.toNat * 1000 ^ index ≤ larger.toNat * 1000 ^ largerIndex := by
  constructor
  · intro bytes fits
    exact exists_scales positive fits
  · intro bytes more value larger index largerIndex le fits returns returnsMore
    exact returns.rate_le positive fits le returnsMore

/-- On both sides of the step from Kbps to Mbps, over five seconds. -/
theorem bitsPerSec_scales_five_seconds :
    (∃ value index, Scales 625625 5 value index) ∧
      Returns 625000 5 1000 1 ∧ Returns 625625 5 1 2 ∧
        (1000 : UInt64).toNat * 1000 ^ 1 ≤ (1 : UInt64).toNat * 1000 ^ 2 := by
  have scales := bitsPerSec_scales (by decide : 1 ≤ (5 : Int64).toInt)
  have kilobits : Returns 625000 5 1000 1 := ⟨"Kbps", rfl, by decide +kernel⟩
  have megabits : Returns 625625 5 1 2 := ⟨"Mbps", rfl, by decide +kernel⟩
  refine ⟨scales.1 625625 (by decide), kilobits, megabits, ?_⟩
  exact scales.2 625000 625625 1000 1 1 2 (by decide) (by decide) kilobits megabits

/-! ## What is printed -/

/-- What is printed of one direction. -/
structure Rates where
  packets : UInt64
  bitsPerSec : UInt64
  unit : String
deriving DecidableEq

structure Printed where
  inbound : Rates
  outbound : Rates
deriving DecidableEq

def Printed.get (printed : Printed) : Flow → Rates
  | .inbound => printed.inbound
  | .outbound => printed.outbound

/-- `relay::print_statistics`: what is printed, and the relay which is left. -/
def State.printStatistics {Endpoint : Type} (relay : State UInt16 Endpoint)
    (threads : List UInt16) (interval : Int64) :
    Except RateFault (Printed × State UInt16 Endpoint) := do
  let (stats, relay) := relay.loadStatistics threads
  let (inBps, inUnit) ← bitsPerSec stats.inbound.bytes interval
  let (outBps, outUnit) ← bitsPerSec stats.outbound.bytes interval
  let inPackets ← divideByCount stats.inbound.packets interval
  let outPackets ← divideByCount stats.outbound.packets interval
  return (⟨⟨inPackets, inBps, inUnit⟩, ⟨outPackets, outBps, outUnit⟩⟩, relay)

/-- What is printed is right for the numbers of packets and bytes. -/
structure Tells (packets bytes : UInt64) (interval : Int64) (rates : Rates) : Prop where
  packets_eq : rates.packets.toNat = packets.toNat / interval.toInt.toNat
  scales : ∃ index, units[index]? = some rates.unit ∧
    Scales bytes interval rates.bitsPerSec index

theorem exists_rates {bytes : UInt64} {interval : Int64} (positive : 1 ≤ interval.toInt)
    (fits : 8 * bytes.toNat < 2 ^ 64) (packets : UInt64) :
    ∃ rates, divideByCount packets interval = .ok rates.packets ∧
      bitsPerSec bytes interval = .ok (rates.bitsPerSec, rates.unit) ∧
      Tells packets bytes interval rates := by
  rcases exists_scales positive fits with ⟨value, index, scales⟩
  rcases scales.returns with ⟨unit, isUnit, returned⟩
  refine ⟨⟨packets / interval.toUInt64, value, unit⟩, ?_, returned, ?_, index, isUnit, scales⟩
  · exact divideByCount_of_ne (ne_zero_of_pos positive) packets
  · simp only [UInt64.toNat_div, toNat_toUInt64_of_pos positive]

theorem State.printStatistics_tells {Endpoint : Type} (relay : State UInt16 Endpoint)
    (threads : List UInt16) {interval : Int64} (positive : 1 ≤ interval.toInt)
    (fits : ∀ flow, 8 * ((relay.loadStatistics threads).1.get flow .bytes).toNat < 2 ^ 64) :
    ∃ printed, relay.printStatistics threads interval =
        .ok (printed, (relay.loadStatistics threads).2) ∧
      ∀ flow, Tells ((relay.loadStatistics threads).1.get flow .packets)
        ((relay.loadStatistics threads).1.get flow .bytes) interval (printed.get flow) := by
  rcases exists_rates positive (fits .inbound) ((relay.loadStatistics threads).1.get .inbound
    .packets) with ⟨inbound, inPackets, inReturned, inTells⟩
  rcases exists_rates positive (fits .outbound) ((relay.loadStatistics threads).1.get .outbound
    .packets) with ⟨outbound, outPackets, outReturned, outTells⟩
  simp only [Statistics.get, Direction.get] at inPackets inReturned outPackets outReturned
  refine ⟨⟨inbound, outbound⟩, ?_, ?_⟩
  · simp only [printStatistics, inReturned, outReturned, inPackets, outPackets]
    rfl
  · intro flow
    cases flow with
    | inbound => exact inTells
    | outbound => exact outTells

namespace Service

variable {Thread Endpoint : Type}

/-- The events since the statistics have last been loaded. -/
def sinceLoad (events : List (Event Thread Endpoint)) : List (Event Thread Endpoint) :=
  events.foldl (fun since event =>
    match event with
    | .loadStatistics => []
    | event => since ++ [event]) []

theorem sinceLoad_snoc_loadStatistics (events : List (Event Thread Endpoint)) :
    sinceLoad (events ++ [.loadStatistics]) = [] := by
  simp [sinceLoad]

theorem sinceLoad_snoc (events : List (Event Thread Endpoint)) {event : Event Thread Endpoint}
    (notLoad : event ≠ .loadStatistics) :
    sinceLoad (events ++ [event]) = sinceLoad events ++ [event] := by
  cases event <;> simp [sinceLoad] at notLoad ⊢

variable [DecidableEq Thread]

/-- The threads hold what has been counted since the statistics have last been loaded. -/
def HoldsSinceLoad (threadCount : UInt16) (events : List (Event Thread Endpoint))
    (process : Process Thread Endpoint) : Prop :=
  ∀ flow measure, held threadCount process flow measure =
    UInt64.ofNat (amount flow measure (sinceLoad events))

theorem HoldsSinceLoad.handled {threadCount : UInt16} {events : List (Event Thread Endpoint)}
    {process after : Process Thread Endpoint} {event : Event Thread Endpoint} {thread : Thread}
    {direction : Flow} {packet : List UInt8} (holds : HoldsSinceLoad threadCount events process)
    (balanced : Balanced threadCount events process)
    (handled : event.handled = some (thread, direction, packet))
    (stepped : step threadCount process event = .ok after) :
    HoldsSinceLoad threadCount (events ++ [event]) after := by
  have notLoad : event ≠ .loadStatistics := by
    rintro rfl
    contradiction
  rcases step_handled handled stepped with ⟨slot, isSlot, counts⟩
  intro flow measure
  rw [counts.held_eq (balanced.started thread slot isSlot), holds flow measure,
    sinceLoad_snoc events notLoad, amount_snoc_of_handled handled, UInt64.ofNat_add]

theorem run_holdsSinceLoad {threadCount : UInt16} {events : List (Event Thread Endpoint)}
    {process : Process Thread Endpoint} (ran : run threadCount events = .ok process) :
    HoldsSinceLoad threadCount events process := by
  apply Execution.execute_invariant (HoldsSinceLoad threadCount) ?_ ?_ ran
  · intro flow measure
    exact held_of_zero (fun slot => rfl) flow measure
  intro events process event after ranBefore holds stepped
  have balanced := run_balanced ranBefore
  cases event with
  | threadStart thread index =>
      rcases step_threadStart stepped with ⟨_, rfl⟩
      intro flow measure
      rw [sinceLoad_snoc events (by simp), amount_snoc_of_not_handled rfl]
      exact holds flow measure
  | clientReceived thread src packet => exact holds.handled balanced rfl stepped
  | peerReceived thread entry packet => exact holds.handled balanced rfl stepped
  | sessionSent thread packet => exact holds.handled balanced rfl stepped
  | loadStatistics =>
      simp only [step, Except.ok.injEq] at stepped
      subst stepped
      intro flow measure
      rw [sinceLoad_snoc_loadStatistics]
      exact held_of_zero (fun slot => rfl) flow measure

/-- In every run, the rates which are printed next are those of the packets which have been
processed since the statistics have last been loaded. -/
theorem run_printStatistics {threadCount : UInt16} {events : List (Event Thread Endpoint)}
    {process : Process Thread Endpoint} {interval : Int64}
    (ran : run threadCount events = .ok process) (positive : 1 ≤ interval.toInt)
    (fits : ∀ flow, 8 * amount flow .bytes (sinceLoad events) < 2 ^ 64) :
    ∃ printed, process.worker.relay.printStatistics (slots threadCount) interval =
        .ok (printed, (process.worker.relay.loadStatistics (slots threadCount)).2) ∧
      ∀ flow, Tells (UInt64.ofNat (amount flow .packets (sinceLoad events)))
        (UInt64.ofNat (amount flow .bytes (sinceLoad events))) interval (printed.get flow) := by
  have loaded (flow : Flow) (measure : Measure) :
      (process.worker.relay.loadStatistics (slots threadCount)).1.get flow measure =
        UInt64.ofNat (amount flow measure (sinceLoad events)) :=
    (loadStatistics_get _ _ flow measure).trans (run_holdsSinceLoad ran flow measure)
  have small (flow : Flow) :
      8 * ((process.worker.relay.loadStatistics (slots threadCount)).1.get flow .bytes).toNat <
        2 ^ 64 := by
    have fits := fits flow
    have counted : amount flow .bytes (sinceLoad events) < UInt64.size := by
      simp only [UInt64.size]
      omega
    rw [loaded flow .bytes, UInt64.toNat_ofNat_of_lt' counted]
    exact fits
  have tells := process.worker.relay.printStatistics_tells (slots threadCount) positive small
  simpa only [loaded] using tells

/-- The registration has been printed before; what is printed next is about the other packet. -/
theorem run_printStatistics_two_threads :
    let events : List (Event Bool ℕ) :=
      [.threadStart true 0, .threadStart false 1, .clientReceived true 7 [1, 0, 0, 0, 0, 0, 0, 0],
        .loadStatistics, .peerReceived false .peerData [1, 2]]
    ∃ process printed, run 2 events = .ok process ∧
      process.worker.relay.printStatistics (slots 2) 1 =
        .ok (printed, (process.worker.relay.loadStatistics (slots 2)).2) ∧
      Tells 1 2 1 printed.inbound := by
  intro events
  have succeeds : Execution.succeedsWith (run 2 events) (fun _ => true) = true := by
    decide +kernel
  rcases Execution.exists_of_succeedsWith succeeds with ⟨process, ran, -⟩
  have fits (flow : Flow) : 8 * amount flow .bytes (sinceLoad events) < 2 ^ 64 := by
    cases flow <;> decide
  rcases run_printStatistics ran (by decide : 1 ≤ (1 : Int64).toInt) fits with
    ⟨printed, isPrinted, tells⟩
  exact ⟨process, printed, ran, isPrinted, tells .inbound⟩

end Service

end Urn.Relay
