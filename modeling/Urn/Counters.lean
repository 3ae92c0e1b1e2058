import Mathlib.Algebra.BigOperators.Fin
import Mathlib.Data.Fintype.Option
import Mathlib.Data.UInt
import Urn.Foundation.Updates
import Urn.Relay.Accounting
import Urn.Startup.Sockets

/-!
# Statistics without synchronisation

`load_statistics` takes the counters of all threads while these go on counting, as its
comment says, without synchronisation.  In C++ this is a data race.  Here the counters are
cells of a memory, and the accesses of the threads interleave as they come: `+=`, `++`
and `std::exchange` are a load and a store each.
-/

namespace Urn.Counters

open Atomic Relay Startup

/-- A counter in `per_thread_statistics_`. -/
structure Counter (n : ℕ) where
  slot : Fin n
  flow : Flow
  measure : Measure
deriving DecidableEq

abbrev Code (n : ℕ) (Outcome : Type) := Updating (Counter n) UInt64 Outcome

variable {n : ℕ}

/-- `counter += amount`. -/
def addTo (counter : Counter n) (amount : UInt64) : Code n Unit :=
  .perform ⟨counter, fun value => value + amount⟩ fun _ => .done ()

/-- `std::exchange(counter, 0)`. -/
def exchange (counter : Counter n) : Code n UInt64 :=
  .perform ⟨counter, fun _ => 0⟩ .done

/-- `relay::update_io_statistics` on the slot of the thread. -/
def updateIoStatistics (slot : Fin n) (flow : Flow) (size : ℕ) : Code n Unit := do
  addTo ⟨slot, flow, .bytes⟩ (UInt64.ofNat size)
  addTo ⟨slot, flow, .packets⟩ 1

/-- `statistics::get_and_reset_into`. -/
def getAndResetInto (slot : Fin n) : Code n Statistics := do
  let inPackets ← exchange ⟨slot, .inbound, .packets⟩
  let inBytes ← exchange ⟨slot, .inbound, .bytes⟩
  let outPackets ← exchange ⟨slot, .outbound, .packets⟩
  let outBytes ← exchange ⟨slot, .outbound, .bytes⟩
  return ⟨⟨inPackets, inBytes⟩, ⟨outPackets, outBytes⟩⟩

/-- The loop of `relay::load_statistics`. -/
def loadStatistics : List (Fin n) → Statistics → Code n Statistics
  | [], total => return total
  | slot :: slots, total => do
      let statistics ← getAndResetInto slot
      loadStatistics slots (statistics.sumInto total)

inductive Call (n : ℕ)
  | updateIoStatistics (slot : Fin n) (flow : Flow) (size : ℕ)
  | loadStatistics

def Call.body : Call n → Code n (Option Statistics)
  | .updateIoStatistics slot flow size => do
      Counters.updateIoStatistics slot flow size
      return none
  | .loadStatistics => do
      let total ← Counters.loadStatistics (List.finRange n) .zero
      return some total

/-- The thread that counts in a slot is the one of the worker.  The timer is the main
thread's, which with mmsg and io_uring also runs the first worker. -/
def Call.thread [NeZero n] (backEnd : Startup.BackEnd) : Call n → Startup.Thread n
  | .updateIoStatistics slot _ _ => backEnd.threadOf slot
  | .loadStatistics => .main

/-- A thread is the main one, or the one made for a worker. -/
def threadEquiv : Option (Fin n) ≃ Startup.Thread n where
  toFun
    | none => .main
    | some worker => .made worker
  invFun
    | .main => none
    | .made worker => some worker
  left_inv thread := by cases thread <;> rfl
  right_inv thread := by cases thread <;> rfl

instance : Fintype (Startup.Thread n) := Fintype.ofEquiv _ threadEquiv

/-- The threads of a back end on the counters. -/
def counters (backEnd : Startup.BackEnd) (config : Config) :
    Machine (Startup.Thread config.threadCount) (Call config.threadCount)
      (@Access.Result (Counter config.threadCount) UInt64) (Option Statistics)
      (Counter config.threadCount → UInt64) :=
  updating Call.body fun thread call => thread = call.thread backEnd

theorem updateIoStatistics_body (slot : Fin n) (flow : Flow) (size : ℕ) :
    (Call.updateIoStatistics slot flow size).body =
      .perform ⟨⟨slot, flow, .bytes⟩, fun value => value + UInt64.ofNat size⟩ fun _ =>
        .perform ⟨⟨slot, flow, .packets⟩, fun value => value + 1⟩ fun _ => .done none := rfl

/-! ## Without interleaving -/

/-- The statistics as counters. -/
def memory (perThreadStatistics : Fin n → Statistics) (counter : Counter n) : UInt64 :=
  (perThreadStatistics counter.slot).get counter.flow counter.measure

/-- A count of a packet with no accesses of other threads in between is the relay's operation. -/
theorem updateIoStatistics_run {Failure Endpoint : Type}
    (relay : Relay.State (Fin n) Endpoint) (slot : Fin n) (flow : Flow) (size : ℕ) :
    (Call.updateIoStatistics slot flow size).body.run Update.perform
        (memory relay.perThreadStatistics) =
      (.ok (none, memory (relay.updateIoStatistics slot flow size).perThreadStatistics) :
        Except Failure _) := by
  simp only [updateIoStatistics_body, Program.run_perform, Program.run_done, Update.perform]
  congr
  funext counter
  rcases counter with ⟨other, direction, measure⟩
  by_cases same : other = slot
  · subst same
    cases flow <;> cases direction <;> cases measure <;>
      simp [memory, State.updateIoStatistics, Statistics.count, Statistics.get, Direction.get,
        Direction.count]
  · simp [memory, State.updateIoStatistics, same]

/-- The statistics of a slot, as the counters hold them. -/
def statisticsAt (cells : Counter n → UInt64) (slot : Fin n) : Statistics :=
  ⟨⟨cells ⟨slot, .inbound, .packets⟩, cells ⟨slot, .inbound, .bytes⟩⟩,
    ⟨cells ⟨slot, .outbound, .packets⟩, cells ⟨slot, .outbound, .bytes⟩⟩⟩

/-- The counters of some slots are zero. -/
def resetAt (cells : Counter n → UInt64) (slots : List (Fin n)) (counter : Counter n) : UInt64 :=
  if slots.any fun slot => slot = counter.slot then 0 else cells counter

theorem resetAt_resetAt (cells : Counter n → UInt64) (slot : Fin n) (slots : List (Fin n)) :
    resetAt (resetAt cells [slot]) slots = resetAt cells (slot :: slots) := by
  funext counter
  by_cases first : slot = counter.slot <;> simp [resetAt, first]

theorem getAndResetInto_run {Failure Outcome : Type} (slot : Fin n)
    (rest : Statistics → Code n Outcome) (cells : Counter n → UInt64) :
    (getAndResetInto slot >>= rest).run Update.perform cells =
      ((rest (statisticsAt cells slot)).run Update.perform (resetAt cells [slot]) :
        Except Failure _) := by
  let counter (flow : Flow) (measure : Measure) : Counter n := ⟨slot, flow, measure⟩
  let taken := Function.update (Function.update (Function.update (Function.update cells
    (counter .inbound .packets) 0) (counter .inbound .bytes) 0) (counter .outbound .packets) 0)
    (counter .outbound .bytes) 0
  have taken_eq : taken = resetAt cells [slot] := by
    funext other
    rcases other with ⟨index, flow, measure⟩
    by_cases same : index = slot
    · subst same
      cases flow <;> cases measure <;> simp [taken, counter, resetAt]
    · simp [taken, counter, resetAt, same, Ne.symm same]
  rw [← taken_eq]
  simp only [getAndResetInto, exchange, Program.perform_bind, Program.done_bind,
    Program.pure_eq_done, Program.run_perform, Update.perform]
  simp [statisticsAt, taken, counter]

theorem loop_run {Failure Outcome : Type} {slots : List (Fin n)} (nodup : slots.Nodup)
    (total : Statistics) (rest : Statistics → Code n Outcome) (cells : Counter n → UInt64) :
    (loadStatistics slots total >>= rest).run Update.perform cells =
      ((rest (slots.foldl (fun total slot => (statisticsAt cells slot).sumInto total) total)).run
        Update.perform (resetAt cells slots) : Except Failure _) := by
  induction slots generalizing total cells with
  | nil =>
      have same : resetAt cells [] = cells := by
        funext counter
        simp [resetAt]
      simp [loadStatistics, same]
  | cons slot slots ih =>
      rcases List.nodup_cons.mp nodup with ⟨fresh, nodup⟩
      have unrolled : (loadStatistics (slot :: slots) total >>= rest) =
          (getAndResetInto slot >>= fun statistics =>
            loadStatistics slots (statistics.sumInto total) >>= rest) := rfl
      have unchanged (other : Fin n) (other_mem : other ∈ slots) :
          statisticsAt (resetAt cells [slot]) other = statisticsAt cells other := by
        have different : other ≠ slot := by
          rintro rfl
          exact fresh other_mem
        simp [statisticsAt, resetAt, different.symm]
      rw [unrolled, getAndResetInto_run, ih nodup, resetAt_resetAt, List.foldl_cons]
      congr 2
      refine List.foldl_ext _ _ _ ?_
      intro sum other other_mem
      rw [unchanged other other_mem]

/-- So is a load of the statistics. -/
theorem loadStatistics_run {Failure Endpoint : Type} (relay : Relay.State (Fin n) Endpoint) :
    Call.loadStatistics.body.run Update.perform (memory relay.perThreadStatistics) =
      (.ok (some (relay.loadStatistics (List.finRange n)).1,
        memory (relay.loadStatistics (List.finRange n)).2.perThreadStatistics) :
        Except Failure _) := by
  rw [Call.body, loop_run (List.nodup_finRange n), Program.pure_eq_done, Program.run_done]
  have reset : resetAt (memory relay.perThreadStatistics) (List.finRange n) =
      memory (relay.loadStatistics (List.finRange n)).2.perThreadStatistics := by
    funext counter
    simp [resetAt, memory, State.loadStatistics, Statistics.getAndReset]
  rw [reset]
  rfl

/-! ## Accounts -/

/-- What a call counts. -/
def counts (flow : Flow) (measure : Measure) : Call n → Option Statistics → UInt64
  | .updateIoStatistics _ counted size, _ =>
      if counted = flow then UInt64.ofNat (measure.amount size) else 0
  | .loadStatistics, _ => 0

/-- What a call tells. -/
def tells (flow : Flow) (measure : Measure) (_ : Call n) : Option Statistics → UInt64
  | some total => total.get flow measure
  | none => 0

abbrev Trace (config : Config) :=
  List (Label (Startup.Thread config.threadCount) (Call config.threadCount)
    (@Access.Result (Counter config.threadCount) UInt64) (Option Statistics))

/-- What the calls which have ended have counted, modulo 2^64. -/
def counted {config : Config} (trace : Trace config) (flow : Flow) (measure : Measure) : UInt64 :=
  (trace.map (Label.owed (counts flow measure))).sum

/-- What the calls which have ended have told. -/
def told {config : Config} (trace : Trace config) (flow : Flow) (measure : Measure) : UInt64 :=
  (trace.map (Label.owed (tells flow measure))).sum

/-- What the counters of all threads hold. -/
def held (memory : Counter n → UInt64) (flow : Flow) (measure : Measure) : UInt64 :=
  ∑ slot, memory ⟨slot, flow, measure⟩

/-- The counters of one kind. -/
def kind (flow : Flow) (measure : Measure) : Finset (Counter n) :=
  Finset.univ.map ⟨fun slot => ⟨slot, flow, measure⟩, fun _ _ same => congrArg Counter.slot same⟩

theorem mem_kind {flow : Flow} {measure : Measure} {counter : Counter n} :
    counter ∈ kind flow measure ↔ counter.flow = flow ∧ counter.measure = measure := by
  rcases counter with ⟨slot, direction, quantity⟩
  simp only [kind, Finset.mem_map, Finset.mem_univ, true_and]
  constructor
  · rintro ⟨index, same⟩
    cases same
    exact ⟨rfl, rfl⟩
  · rintro ⟨rfl, rfl⟩
    exact ⟨slot, rfl⟩

theorem sum_kind (memory : Counter n → UInt64) (flow : Flow) (measure : Measure) :
    ∑ counter ∈ kind flow measure, memory counter = held memory flow measure := by
  rw [kind, Finset.sum_map]
  rfl

theorem updateIoStatistics_yields (flow : Flow) (measure : Measure) (slot : Fin n)
    (direction : Flow) (size : ℕ) :
    (Call.updateIoStatistics slot direction size).body.accesses.Yields
      (Access.gain (kind flow measure)) (fun outcome =>
        counts flow measure (.updateIoStatistics slot direction size) outcome -
          tells flow measure (.updateIoStatistics slot direction size) outcome) 0 := by
  rw [updateIoStatistics_body]
  intro bytes _ packets _
  rw [Program.accesses_done, Program.yields_done]
  by_cases same : direction = flow <;> cases measure <;>
    simp [Access.gain, mem_kind, counts, tells, Measure.amount, same]

theorem loadStatistics_yields (flow : Flow) (measure : Measure) (slots : List (Fin n))
    (total : Statistics) (gained : UInt64) (taken : gained = -total.get flow measure) :
    (loadStatistics slots total >>= fun total => .done (some total)).accesses.Yields
      (Access.gain (kind flow measure)) (fun outcome =>
        counts flow measure (.loadStatistics : Call n) outcome -
          tells flow measure (.loadStatistics : Call n) outcome) gained := by
  induction slots generalizing total gained with
  | nil => simp [loadStatistics, counts, tells, taken]
  | cons slot slots ih =>
      intro inPackets _ inBytes _ outPackets _ outBytes _
      refine ih _ _ ?_
      rw [Statistics.sumInto_get]
      cases flow <;> cases measure <;>
        simp [Access.gain, mem_kind, taken, Statistics.get, Direction.get] <;> abel

theorem yields (flow : Flow) (measure : Measure) (call : Call n) :
    call.body.accesses.Yields (Access.gain (kind flow measure)) (fun outcome =>
      counts flow measure call outcome - tells flow measure call outcome) 0 := by
  cases call with
  | updateIoStatistics slot direction size =>
      exact updateIoStatistics_yields flow measure slot direction size
  | loadStatistics =>
      exact loadStatistics_yields flow measure (List.finRange n) .zero 0 (by simp)

/-! ## Exactness -/

section Exactness

variable {backEnd : Startup.BackEnd} {config : Config} {trace : Trace config}
  {after : Atomic.Config (Startup.Thread config.threadCount) (Call config.threadCount)
    (@Access.Result (Counter config.threadCount) UInt64) (Option Statistics)
    (Counter config.threadCount → UInt64)}

theorem sum_owed (flow : Flow) (measure : Measure) :
    (trace.map (Label.owed fun call outcome =>
      counts flow measure call outcome - tells flow measure call outcome)).sum =
      counted trace flow measure - told trace flow measure := by
  induction trace with
  | nil => simp [counted, told]
  | cons label trace ih =>
      simp only [counted, told] at ih ⊢
      simp only [List.map_cons, List.sum_cons, ih]
      cases label <;> simp only [Label.owed] <;> abel

/-- If no thread stores to the counters of a kind between the two accesses of another one's
update, then no packet is lost and none is told twice: whenever no thread counts or loads,
what has been told and what the counters hold adds up to what has been counted. -/
theorem exact_of_undisturbed
    (run : (counters backEnd config).Run (fun _ => 0) trace after)
    (quiescent : ∀ thread, after.running thread = none) (flow : Flow) (measure : Measure)
    (undisturbed : ∀ slot, Undisturbed ⟨slot, flow, measure⟩ trace) :
    told trace flow measure + held after.shared flow measure = counted trace flow measure := by
  have onKind : ∀ counter ∈ kind flow measure, Undisturbed counter trace := by
    rintro ⟨slot, _, _⟩ counter_mem
    rcases mem_kind.mp counter_mem with ⟨rfl, rfl⟩
    exact undisturbed slot
  have total := accounted_of_undisturbed (yields flow measure) run quiescent onKind
  rw [sum_owed, sum_kind, sum_kind] at total
  rw [total]
  simp [held]

/-- The main thread loads the statistics, and after its first exchange a worker counts a
packet: its bytes are told, and the packet itself is not. -/
theorem counted_while_loading : ∃ (trace : Trace two) (after : _),
    (counters .libuv two).Run (fun _ => 0) trace after ∧
      told trace .inbound .packets = 0 ∧ told trace .inbound .bytes = 8 ∧
      told trace .inbound .bytes + held after.shared .inbound .bytes =
        counted trace .inbound .bytes := by
  let slot : Fin two.threadCount := ⟨0, by decide⟩
  have unused : (counters .libuv two).Run (fun _ => 0) [] ⟨fun _ => 0, fun _ => none⟩ := .start
  have body_eq : (Call.loadStatistics : Call two.threadCount).body =
      .perform ⟨⟨slot, .inbound, .packets⟩, fun _ => 0⟩ _ := rfl
  have ranCount : (Call.updateIoStatistics slot .inbound 8).body.run Update.perform
      (Function.update (fun _ => 0) ⟨slot, .inbound, .packets⟩ 0) =
        (.ok (none, _) : Except Unit _) := rfl
  have apart : Startup.Thread.made slot ≠ .main := by decide
  rcases between_updates unused rfl rfl apart rfl rfl body_eq ranCount rfl with
    ⟨later, run, undisturbed, owed⟩
  refine ⟨_, _, run, ?_, ?_, exact_of_undisturbed run (fun _ => rfl) .inbound .bytes fun slot =>
    undisturbed _ undisturbed_nil⟩
  · rw [told, List.nil_append, owed]
    decide
  · rw [told, List.nil_append, owed]
    decide

/-- The statistics are exact in every run, whenever no thread counts or loads. -/
def Exact (backEnd : Startup.BackEnd) (config : Config) : Prop :=
  ∀ (trace : Trace config) after, (counters backEnd config).Run (fun _ => 0) trace after →
    (∀ thread, after.running thread = none) → ∀ flow measure,
      told trace flow measure + held after.shared flow measure = counted trace flow measure

/-- A worker counts packets while no other thread moves. -/
theorem counts_alone (backEnd : Startup.BackEnd) {config : Config} (slot : Fin config.threadCount)
    (sizes : List ℕ) :
    ∃ (trace : Trace config) (after : _) (relay : Relay.State (Fin config.threadCount) Unit),
      (counters backEnd config).Run (fun _ => 0) trace after ∧
      (∀ thread, after.running thread = none) ∧
      after.shared = memory relay.perThreadStatistics ∧
      (∀ other, (relay.perThreadStatistics other).get .inbound .bytes =
        if other = slot then UInt64.ofNat sizes.sum else 0) ∧
      counted trace .inbound .bytes = UInt64.ofNat sizes.sum ∧
      told trace .inbound .bytes = 0 := by
  induction sizes using List.reverseRecOn with
  | nil =>
      refine ⟨[], _, .initial, .start, fun _ => rfl, ?_, ?_, rfl, rfl⟩
      · funext counter
        exact (Statistics.zero_get _ _).symm
      · intro other
        simp [Relay.State.initial]
  | append_singleton sizes size ih =>
      rcases ih with ⟨trace, after, relay, run, quiescent, shared, bytes, countedSoFar, toldSoFar⟩
      have ran : (Call.updateIoStatistics slot .inbound size).body.run Update.perform
          after.shared = (.ok (none, memory
            (relay.updateIoStatistics slot .inbound size).perThreadStatistics) :
            Except Unit _) := by
        rw [shared]
        exact updateIoStatistics_run relay slot .inbound size
      rcases alone run (quiescent (backEnd.threadOf slot)) rfl ran with ⟨labels, more, ends⟩
      refine ⟨_, _, relay.updateIoStatistics slot .inbound size, more, quiescent, rfl, ?_, ?_, ?_⟩
      · intro other
        by_cases same : other = slot
        · subst same
          simp [State.updateIoStatistics, Statistics.count_get, bytes, Measure.amount,
            UInt64.ofNat_add]
        · simpa [State.updateIoStatistics, same] using bytes other
      · rw [counted, List.map_append, List.sum_append, ends.owed]
        rw [counted] at countedSoFar
        simp [countedSoFar, counts, Measure.amount, UInt64.ofNat_add]
      · rw [told, List.map_append, List.sum_append, ends.owed]
        rw [told] at toldSoFar
        simp [toldSoFar, tells]

/-- A load of the statistics in the middle of a count is undone: what a worker has counted is
told, and stays in the counter. -/
theorem told_twice {backEnd : Startup.BackEnd} {config : Config}
    {slot : Fin config.threadCount} (apart : backEnd.threadOf slot ≠ .main) (sizes : List ℕ)
    (size : ℕ) :
    ∃ (trace : Trace config) (after : _),
      (counters backEnd config).Run (fun _ => 0) trace after ∧
      (∀ thread, after.running thread = none) ∧
      counted trace .inbound .bytes = UInt64.ofNat (sizes.sum + size) ∧
      told trace .inbound .bytes = UInt64.ofNat sizes.sum ∧
      held after.shared .inbound .bytes = UInt64.ofNat (sizes.sum + size) := by
  rcases counts_alone backEnd slot sizes with
    ⟨trace, after, relay, run, quiescent, shared, bytes, countedSoFar, toldSoFar⟩
  let counter : Counter config.threadCount := ⟨slot, .inbound, .bytes⟩
  let taken := (relay.loadStatistics (List.finRange _)).2.perThreadStatistics
  let stored := Function.update (memory taken) counter (after.shared counter + UInt64.ofNat size)
  let final := Function.update stored ⟨slot, .inbound, .packets⟩
    (stored ⟨slot, .inbound, .packets⟩ + 1)
  have ranLoad : Call.loadStatistics.body.run Update.perform after.shared =
      (.ok (some (relay.loadStatistics (List.finRange _)).1, memory taken) : Except Unit _) := by
    rw [shared]
    exact loadStatistics_run relay
  rcases interrupted run (quiescent (backEnd.threadOf slot)) (quiescent .main)
    apart.symm rfl rfl (updateIoStatistics_body slot .inbound size) ranLoad rfl with
    ⟨later, more, owed⟩
  refine ⟨trace ++ later, ⟨final, after.running⟩, more, quiescent, ?_, ?_, ?_⟩
  · rw [counted, List.map_append, List.sum_append, owed]
    rw [counted] at countedSoFar
    simp [countedSoFar, counts, Measure.amount, UInt64.ofNat_add]
  · have total : (relay.loadStatistics (List.finRange config.threadCount)).1.get .inbound .bytes =
        UInt64.ofNat sizes.sum := by
      rw [loadStatistics_get, ← Fin.sum_univ_def]
      simp [bytes]
    rw [told, List.map_append, List.sum_append, owed]
    rw [told] at toldSoFar
    simp [toldSoFar, tells, total]
  · have found : after.shared counter = UInt64.ofNat sizes.sum := by
      rw [shared]
      simp [memory, counter, bytes]
    have reset (other : Counter config.threadCount) : memory taken other = 0 :=
      Statistics.zero_get _ _
    have others : ∀ other ∈ Finset.univ.erase slot, final ⟨other, .inbound, .bytes⟩ = 0 := by
      intro other other_mem
      have different : other ≠ slot := (Finset.mem_erase.mp other_mem).1
      simp [final, stored, counter, different, reset]
    rw [held, ← Finset.add_sum_erase _ _ (Finset.mem_univ slot), Finset.sum_eq_zero others]
    simp [final, stored, counter, found, UInt64.ofNat_add]

/-- Some worker counts on another thread than the one which loads. -/
theorem exists_apart {backEnd : Startup.BackEnd} {config : Config}
    (several : ¬(backEnd ≠ .libuv ∧ config.threadCount = 1)) :
    ∃ slot : Fin config.threadCount, backEnd.threadOf slot ≠ .main := by
  by_cases libuv : backEnd = .libuv
  · subst libuv
    exact ⟨0, by simp [BackEnd.threadOf]⟩
  · have second : 1 < config.threadCount := by
      have positive := NeZero.pos config.threadCount
      have notSingle : config.threadCount ≠ 1 := fun single => several ⟨libuv, single⟩
      omega
    have notFirst : (⟨1, second⟩ : Fin config.threadCount) ≠ 0 := by
      simp [Fin.ext_iff]
    refine ⟨⟨1, second⟩, ?_⟩
    cases backEnd <;> simp [BackEnd.threadOf, notFirst]

/-- One thread counts and loads. -/
theorem thread_eq_main {backEnd : Startup.BackEnd} {config : Config} (notLibuv : backEnd ≠ .libuv)
    (single : config.threadCount = 1) (call : Call config.threadCount) :
    call.thread backEnd = .main := by
  cases call with
  | loadStatistics => rfl
  | updateIoStatistics slot flow size =>
      have subsingleton : Subsingleton (Fin config.threadCount) := by
        rw [single]
        infer_instance
      have first : slot = 0 := Subsingleton.elim _ _
      cases backEnd <;> simp [Call.thread, BackEnd.threadOf, first] at notLibuv ⊢

/-- The statistics are exact only where a single thread counts and loads: with mmsg and
io_uring if there is one worker, and never with libuv, whose timer has a thread of its own. -/
theorem statistics_exact_iff (backEnd : Startup.BackEnd) (config : Config) :
    Exact backEnd config ↔ backEnd ≠ .libuv ∧ config.threadCount = 1 := by
  constructor
  · intro exact
    by_contra several
    rcases exists_apart several with ⟨slot, apart⟩
    rcases told_twice apart [1] 1 with ⟨trace, after, run, quiescent, counts, tells, holds⟩
    have balance := exact trace after run quiescent .inbound .bytes
    rw [counts, tells, holds] at balance
    exact absurd balance (by decide)
  · rintro ⟨notLibuv, single⟩ trace after run quiescent flow measure
    refine exact_of_undisturbed run quiescent flow measure fun slot =>
      undisturbed_of_thread .main ?_
    intro label label_mem stores
    rcases List.append_of_mem label_mem with ⟨earlier, later, rfl⟩
    cases label with
    | invoked thread call => exact stores.elim
    | returned thread call outcome => exact stores.elim
    | performed thread call step =>
        have allowed := calls_of_performed run
        exact Eq.trans allowed (thread_eq_main notLibuv single call)

end Exactness

end Urn.Counters
