import Mathlib.Algebra.Ring.Nat
import Urn.Foundation.Sequential
import Urn.Latch

/-!
# Starting the workers

`relay::run` of the back ends which use several threads, up to the point where every
worker waits for datagrams.  The sockets of one port form a group, and the kernel
numbers the sockets of a group in the order in which they are bound.
-/

namespace Urn.Startup

open Execution Sequential

/-- `config`.  The constructors put a one in place of a zero. -/
structure Config where
  threads : UInt16
  positive : 0 < threads

/-- `std::max(uint16_t(1), config_.threads)`. -/
def Config.threadCount (config : Config) : ℕ := max 1 config.threads.toNat

theorem Config.threadCount_eq (config : Config) : config.threadCount = config.threads.toNat := by
  have positive : 0 < config.threads.toNat := by
    simpa using UInt16.lt_iff_toNat_lt.mp config.positive
  rw [threadCount]
  omega

instance (config : Config) : NeZero config.threadCount :=
  ⟨by
    rw [Config.threadCount]
    omega⟩

inductive Side
  | client
  | peer
deriving DecidableEq

/-- The statements which matter to other threads or to the kernel.  `callLatch` and
`returnFromLatch` are the two ends of `latch->wait()`. -/
inductive Statement (n : ℕ)
  | createSocket (worker : Fin n) (side : Side)
  | attachBpf (worker : Fin n) (side : Side)
  | bindSocket (worker : Fin n) (side : Side)
  | startThread (worker : Fin n)
  | callLatch (worker : Fin n)
  | returnFromLatch (worker : Fin n)
  | onThreadStart (worker : Fin n)
deriving DecidableEq

/-- The main thread, and those which `std::thread` makes. -/
inductive Thread (n : ℕ)
  | main
  | made (worker : Fin n)
deriving DecidableEq

structure State (n : ℕ) where
  created : List (Fin n × Side)
  filtered : List (Fin n × Side)
  bound : List (Fin n × Side)
  started : List (Fin n)
  latch : Latch.State n
  /-- The element of `per_thread_statistics_` that `this_thread_statistics_` points to. -/
  statistics : Thread n → Option ℕ

inductive Failure
  | disabled
  /-- `per_thread_statistics_.at` throws. -/
  | outOfRange
deriving DecidableEq

variable {n : ℕ}

def State.initial (n : ℕ) : State n := ⟨[], [], [], [], Latch.initial n, fun _ => none⟩

/-- The worker of a socket of the port. -/
def Side.worker? (side : Side) (socket : Fin n × Side) : Option (Fin n) :=
  if socket.2 = side then some socket.1 else none

/-- The sockets of a port, by the workers they belong to, as the kernel numbers them. -/
def State.group (state : State n) (side : Side) : List (Fin n) :=
  state.bound.filterMap side.worker?

def Thread.Runs (thread : Thread n) (state : State n) : Prop :=
  match thread with
  | .main => True
  | .made worker => worker ∈ state.started

instance (thread : Thread n) (state : State n) : Decidable (thread.Runs state) := by
  unfold Thread.Runs
  split <;> infer_instance

/-- `(uint16_t) thread_index`. -/
def threadIndex (worker : Fin n) : ℕ := worker.val % 2 ^ 16

/-- A statement, of a thread that runs.  The relay has the statistics of `threads` threads. -/
def effect (threads : UInt16) (thread : Thread n) (statement : Statement n) (state : State n) :
    Except Failure (State n) :=
  match statement with
  | .createSocket worker side => .ok { state with created := state.created ++ [(worker, side)] }
  | .attachBpf worker side => .ok { state with filtered := state.filtered ++ [(worker, side)] }
  | .bindSocket worker side => .ok { state with bound := state.bound ++ [(worker, side)] }
  | .startThread worker => .ok { state with started := state.started ++ [worker] }
  | .callLatch worker =>
      match Latch.step state.latch (.call worker) with
      | .ok latch => .ok { state with latch }
      | .error _ => .error .disabled
  | .returnFromLatch worker =>
      if state.latch.phases worker = .returned then .ok state else .error .disabled
  | .onThreadStart worker =>
      if threadIndex worker < threads.toNat then
        .ok { state with
          statistics := Function.update state.statistics thread (some (threadIndex worker)) }
      else
        .error .outOfRange

def perform (threads : UInt16) (thread : Thread n) (statement : Statement n) (state : State n) :
    Except Failure (State n) :=
  if thread.Runs state then
    effect threads thread statement state
  else
    .error .disabled

/-- What happens in `wait()`. -/
def happen (action : Latch.Action n) (state : State n) : Except Failure (State n) :=
  match action with
  | .call _ => .error .disabled
  | action =>
      match Latch.step state.latch action with
      | .ok latch => .ok { state with latch }
      | .error _ => .error .disabled

/-! ## The programs -/

inductive BackEnd
  | libuv
  | mmsg
  | uring
deriving DecidableEq

namespace BackEnd

/-- `worker`, which the main thread also calls; with libuv, the function of `sys_thread`. -/
def worker (worker : Fin n) : BackEnd → List (Statement n)
  | libuv => [.onThreadStart worker]
  | mmsg => [.callLatch worker, .returnFromLatch worker, .onThreadStart worker]
  | uring =>
      [.createSocket worker .client, .createSocket worker .peer, .callLatch worker,
        .returnFromLatch worker, .bindSocket worker .client, .bindSocket worker .peer,
        .onThreadStart worker]

variable [NeZero n]

/-- The threads that `worker_threads` gets, of the indices from one on. -/
def workerThreads : List (Statement n) :=
  ((List.finRange n).filter (· ≠ 0)).map .startThread

/-- The sockets that mmsg creates before it binds any. -/
def mmsgSockets : List (Statement n) :=
  (List.finRange n).flatMap fun i =>
    [.createSocket i .client, .createSocket i .peer, .attachBpf i .client, .attachBpf i .peer]

/-- mmsg binds on the main thread to avoid races for the numbers. -/
def mmsgBinds : List (Statement n) :=
  (List.finRange n).flatMap fun i => [.bindSocket i .client, .bindSocket i .peer]

/-- `relay::run`. -/
def main : BackEnd → List (Statement n)
  | libuv =>
      (List.finRange n).flatMap fun id =>
        [.createSocket id .client, .bindSocket id .client, .createSocket id .peer,
          .bindSocket id .peer, .startThread id]
  | mmsg => mmsgSockets ++ (mmsgBinds ++ (workerThreads ++ mmsg.worker 0))
  | uring => workerThreads ++ uring.worker 0

/-- The thread which runs a worker. -/
def threadOf (worker : Fin n) : BackEnd → Thread n
  | libuv => .made worker
  | _ => if worker = 0 then .main else .made worker

def program (backEnd : BackEnd) : Thread n → List (Statement n)
  | .main => backEnd.main
  | .made worker =>
      if backEnd.threadOf worker = .made worker then backEnd.worker worker else []

end BackEnd

def BackEnd.code (backEnd : BackEnd) (config : Config) :
    Code (Thread config.threadCount) (Statement config.threadCount)
      (Latch.Action config.threadCount) (State config.threadCount) Failure where
  program := backEnd.program
  perform := perform config.threads
  happen := happen
  finished := .disabled

abbrev Event (config : Config) :=
  Sequential.Event (Thread config.threadCount) (Latch.Action config.threadCount)

/-- `relay::run`, with the threads interleaved as the events say. -/
def BackEnd.run (backEnd : BackEnd) (config : Config) (events : List (Event config)) :
    Except Failure (Threads (Thread config.threadCount) (State config.threadCount)) :=
  execute (backEnd.code config).step (Code.start (.initial _)) events

/-! ## What a statement does -/

namespace Statement

/-- The socket that the statement creates. -/
def creates : Statement n → Option (Fin n × Side)
  | .createSocket worker side => some (worker, side)
  | _ => none

/-- The socket to which the statement attaches the filter. -/
def filters : Statement n → Option (Fin n × Side)
  | .attachBpf worker side => some (worker, side)
  | _ => none

/-- The socket that the statement binds. -/
def binds : Statement n → Option (Fin n × Side)
  | .bindSocket worker side => some (worker, side)
  | _ => none

/-- The worker for which the statement makes a thread. -/
def starts : Statement n → Option (Fin n)
  | .startThread worker => some worker
  | _ => none

@[simp]
theorem creates_eq_some {statement : Statement n} {worker : Fin n} {side : Side} :
    statement.creates = some (worker, side) ↔ statement = .createSocket worker side := by
  cases statement <;> simp [creates]

@[simp]
theorem filters_eq_some {statement : Statement n} {worker : Fin n} {side : Side} :
    statement.filters = some (worker, side) ↔ statement = .attachBpf worker side := by
  cases statement <;> simp [filters]

@[simp]
theorem binds_eq_some {statement : Statement n} {worker : Fin n} {side : Side} :
    statement.binds = some (worker, side) ↔ statement = .bindSocket worker side := by
  cases statement <;> simp [binds]

@[simp]
theorem starts_eq_some {statement : Statement n} {worker : Fin n} :
    statement.starts = some worker ↔ statement = .startThread worker := by
  cases statement <;> simp [starts]

end Statement

section Effects

variable {threads : UInt16} {thread : Thread n} {state after : State n}

theorem perform_iff {statement : Statement n} :
    perform threads thread statement state = .ok after ↔
      thread.Runs state ∧ effect threads thread statement state = .ok after := by
  rw [perform]
  split <;> simp [*]

theorem effect_callLatch_iff {worker : Fin n} :
    effect threads thread (.callLatch worker) state = .ok after ↔
      ∃ latch, Latch.step state.latch (.call worker) = .ok latch ∧
        after = { state with latch } := by
  cases called : Latch.step state.latch (.call worker) <;> simp [effect, called, eq_comm]

theorem effect_returnFromLatch_iff {worker : Fin n} :
    effect threads thread (.returnFromLatch worker) state = .ok after ↔
      state.latch.phases worker = .returned ∧ after = state := by
  by_cases returned : state.latch.phases worker = .returned <;>
    simp [effect, returned, eq_comm]

theorem effect_onThreadStart_iff {worker : Fin n} :
    effect threads thread (.onThreadStart worker) state = .ok after ↔
      threadIndex worker < threads.toNat ∧ after = { state with
        statistics := Function.update state.statistics thread (some (threadIndex worker)) } := by
  by_cases within : threadIndex worker < threads.toNat <;> simp [effect, within, eq_comm]

theorem happen_iff {action : Latch.Action n} :
    happen action state = .ok after ↔
      (∀ worker, action ≠ .call worker) ∧ ∃ latch, Latch.step state.latch action = .ok latch ∧
        after = { state with latch } := by
  cases stepped : Latch.step state.latch action <;> cases action <;>
    simp [happen, stepped, eq_comm]

/-- What a statement adds to the lists of the state. -/
theorem effect_lists {statement : Statement n}
    (result : effect threads thread statement state = .ok after) :
    after.created = state.created ++ statement.creates.toList ∧
      after.filtered = state.filtered ++ statement.filters.toList ∧
      after.bound = state.bound ++ statement.binds.toList ∧
      after.started = state.started ++ statement.starts.toList := by
  cases statement with
  | callLatch worker =>
      rcases effect_callLatch_iff.mp result with ⟨latch, -, rfl⟩
      simp [Statement.creates, Statement.filters, Statement.binds, Statement.starts]
  | returnFromLatch worker =>
      rcases effect_returnFromLatch_iff.mp result with ⟨-, rfl⟩
      simp [Statement.creates, Statement.filters, Statement.binds, Statement.starts]
  | onThreadStart worker =>
      rcases effect_onThreadStart_iff.mp result with ⟨-, rfl⟩
      simp [Statement.creates, Statement.filters, Statement.binds, Statement.starts]
  | _ =>
      simp only [effect, Except.ok.injEq] at result
      subst result
      simp [Statement.creates, Statement.filters, Statement.binds, Statement.starts]

end Effects

section Lists

variable {backEnd : BackEnd} {config : Config} {events : List (Event config)}
  {threads : Threads (Thread config.threadCount) (State config.threadCount)}

theorem logs_created : (backEnd.code config).Logs State.created Statement.creates where
  performs performed := (effect_lists (perform_iff.mp performed).2).1
  happens happened := by
    rcases (happen_iff.mp happened).2 with ⟨latch, -, rfl⟩
    rfl

theorem logs_filtered : (backEnd.code config).Logs State.filtered Statement.filters where
  performs performed := (effect_lists (perform_iff.mp performed).2).2.1
  happens happened := by
    rcases (happen_iff.mp happened).2 with ⟨latch, -, rfl⟩
    rfl

theorem logs_bound : (backEnd.code config).Logs State.bound Statement.binds where
  performs performed := (effect_lists (perform_iff.mp performed).2).2.2.1
  happens happened := by
    rcases (happen_iff.mp happened).2 with ⟨latch, -, rfl⟩
    rfl

theorem logs_started : (backEnd.code config).Logs State.started Statement.starts where
  performs performed := (effect_lists (perform_iff.mp performed).2).2.2.2
  happens happened := by
    rcases (happen_iff.mp happened).2 with ⟨latch, -, rfl⟩
    rfl

theorem mem_created_iff (ran : backEnd.run config events = .ok threads)
    {worker : Fin config.threadCount} {side : Side} :
    (worker, side) ∈ threads.shared.created ↔
      ∃ thread, .createSocket worker side ∈ (backEnd.code config).performed threads thread := by
  simp [logs_created.mem_iff rfl ran]

theorem mem_filtered_iff (ran : backEnd.run config events = .ok threads)
    {worker : Fin config.threadCount} {side : Side} :
    (worker, side) ∈ threads.shared.filtered ↔
      ∃ thread, .attachBpf worker side ∈ (backEnd.code config).performed threads thread := by
  simp [logs_filtered.mem_iff rfl ran]

theorem mem_bound_iff (ran : backEnd.run config events = .ok threads)
    {worker : Fin config.threadCount} {side : Side} :
    (worker, side) ∈ threads.shared.bound ↔
      ∃ thread, .bindSocket worker side ∈ (backEnd.code config).performed threads thread := by
  simp [logs_bound.mem_iff rfl ran]

theorem mem_started_iff (ran : backEnd.run config events = .ok threads)
    {worker : Fin config.threadCount} :
    worker ∈ threads.shared.started ↔
      ∃ thread, .startThread worker ∈ (backEnd.code config).performed threads thread := by
  simp [logs_started.mem_iff rfl ran]

end Lists

/-! ## The order of the statements -/

/-- The worker which a statement of its own thread belongs to. -/
def Statement.caller : Statement n → Option (Fin n)
  | .callLatch worker => some worker
  | .returnFromLatch worker => some worker
  | .onThreadStart worker => some worker
  | _ => none

namespace BackEnd

variable [NeZero n] {backEnd : BackEnd} {thread : Thread n} {worker : Fin n} {side : Side}
  {statement : Statement n}

theorem threadOf_injective (backEnd : BackEnd) :
    Function.Injective (backEnd.threadOf : Fin n → Thread n) := by
  intro left right same
  cases backEnd <;> simp only [threadOf] at same <;> grind

theorem thread_eq_of_caller (mem : statement ∈ backEnd.program thread)
    (caller : statement.caller = some worker) : thread = backEnd.threadOf worker := by
  cases backEnd <;> cases thread <;> cases statement <;>
    simp_all [Statement.caller, program, main, mmsgSockets, mmsgBinds, workerThreads,
      BackEnd.worker, threadOf]

theorem threadOf_eq (backEnd : BackEnd) (worker : Fin n) :
    backEnd.threadOf worker = .main ∨ backEnd.threadOf worker = .made worker := by
  cases backEnd <;> by_cases isZero : worker = 0 <;> simp [threadOf, isZero]

theorem startThread_mem_program : .startThread worker ∈ backEnd.program thread ↔
    thread = .main ∧ backEnd.threadOf worker = .made worker := by
  cases backEnd <;> cases thread <;>
    simp [program, main, mmsgSockets, mmsgBinds, workerThreads, BackEnd.worker, threadOf]

theorem bindSocket_mem_program : .bindSocket worker side ∈ backEnd.program thread ↔
    thread = if backEnd = .uring then backEnd.threadOf worker else .main := by
  cases backEnd <;> cases thread <;> cases side <;>
    simp [program, main, mmsgSockets, mmsgBinds, workerThreads, BackEnd.worker, threadOf] <;>
    grind

theorem onThreadStart_mem_program (worker : Fin n) :
    .onThreadStart worker ∈ backEnd.program (backEnd.threadOf worker) := by
  cases backEnd <;> by_cases isZero : worker = 0 <;>
    simp [program, main, BackEnd.worker, threadOf, isZero]

/-- What the thread of a worker does before it calls the latch. -/
def prelude (worker : Fin n) : BackEnd → List (Statement n)
  | libuv => []
  | mmsg => if worker = 0 then mmsgSockets ++ (mmsgBinds ++ workerThreads) else []
  | uring =>
      (if worker = 0 then workerThreads else []) ++
        [.createSocket worker .client, .createSocket worker .peer]

/-- What the thread of a worker does when it has returned from the latch. -/
def remainder (worker : Fin n) : BackEnd → List (Statement n)
  | libuv => []
  | mmsg => [.onThreadStart worker]
  | uring => [.bindSocket worker .client, .bindSocket worker .peer, .onThreadStart worker]

theorem program_eq (latched : backEnd ≠ .libuv) (worker : Fin n) :
    backEnd.program (backEnd.threadOf worker) =
      backEnd.prelude worker ++ .callLatch worker :: .returnFromLatch worker ::
        backEnd.remainder worker := by
  by_cases isMain : worker = 0
  · subst isMain
    cases backEnd <;>
      simp_all [program, main, BackEnd.worker, threadOf, prelude, remainder]
  · cases backEnd <;>
      simp_all [program, BackEnd.worker, threadOf, prelude, remainder]

theorem caller_of_mem_prelude (mem : statement ∈ backEnd.prelude worker) :
    statement.caller = none := by
  cases backEnd <;> by_cases isMain : worker = 0 <;>
    simp only [prelude, isMain, mmsgSockets, mmsgBinds, workerThreads] at mem <;>
    grind [Statement.caller]

end BackEnd

/-! ## The latch between the threads -/

section Latched

variable {backEnd : BackEnd} {config : Config} {events : List (Event config)}
  {threads : Threads (Thread config.threadCount) (State config.threadCount)}

/-- The latch has seen the calls that the threads have made, and whoever has returned
from it is where it says. -/
structure Latched [NeZero n] (backEnd : BackEnd) (latch : Latch.State n)
    (performed : Thread n → List (Statement n)) : Prop where
  reached : ∃ actions, Latch.run n actions = .ok latch
  called : ∀ worker, latch.phases worker ≠ .outside ↔
    .callLatch worker ∈ performed (backEnd.threadOf worker)
  returned : ∀ thread worker, .returnFromLatch worker ∈ performed thread →
    latch.phases worker = .returned

theorem effect_latch {threads : UInt16} {thread : Thread n} {statement : Statement n}
    {state after : State n} (notCall : ∀ worker, statement ≠ .callLatch worker)
    (result : effect threads thread statement state = .ok after) : after.latch = state.latch := by
  cases statement with
  | callLatch worker => exact absurd rfl (notCall worker)
  | returnFromLatch worker =>
      rcases effect_returnFromLatch_iff.mp result with ⟨-, rfl⟩
      rfl
  | onThreadStart worker =>
      rcases effect_onThreadStart_iff.mp result with ⟨-, rfl⟩
      rfl
  | _ =>
      simp only [effect, Except.ok.injEq] at result
      subst result
      rfl

theorem Latched.afterStep [NeZero n] {latch after : Latch.State n}
    {performed : Thread n → List (Statement n)} (latched : Latched backEnd latch performed)
    {action : Latch.Action n} (notCall : ∀ worker, action ≠ .call worker)
    (stepped : Latch.step latch action = .ok after) : Latched backEnd after performed := by
  rcases latched.reached with ⟨actions, reached⟩
  refine ⟨⟨actions ++ [action], execute_snoc.mpr ⟨latch, reached, stepped⟩⟩, ?_, ?_⟩
  · intro worker
    rw [← latched.called, ne_eq, Latch.step_outside_iff notCall stepped]
  · intro thread worker mem
    exact Latch.step_returned stepped (latched.returned thread worker mem)

theorem latched_of_run (ran : backEnd.run config events = .ok threads) :
    Latched backEnd threads.shared.latch ((backEnd.code config).performed threads) := by
  refine Code.invariant (fun state performed => Latched backEnd state.latch performed)
    ?_ ?_ ?_ ran
  · exact ⟨⟨[], rfl⟩, by simp [State.initial, Latch.initial], by simp⟩
  · intro state performed thread statement after latched within result
    have result := (perform_iff.mp result).2
    have inProgram : statement ∈ backEnd.program thread := within.subset (by simp)
    by_cases isCall : ∃ worker, statement = .callLatch worker
    · rcases isCall with ⟨caller, rfl⟩
      rcases effect_callLatch_iff.mp result with ⟨latch, called, rfl⟩
      have thread_eq : thread = backEnd.threadOf caller :=
        BackEnd.thread_eq_of_caller inProgram rfl
      rcases latched.reached with ⟨actions, reached⟩
      refine ⟨⟨_, execute_snoc.mpr ⟨_, reached, called⟩⟩, ?_, ?_⟩
      · intro worker
        rcases Latch.step_call_iff.mp called with ⟨outside, rfl⟩
        rw [Code.mem_update_append, ← latched.called worker, thread_eq]
        by_cases same : worker = caller
        · simp [same, Latch.State.become]
        · simp [same, Latch.State.become]
      · intro other worker mem
        rw [Code.mem_update_append] at mem
        rcases mem with before | ⟨-, impossible⟩
        · exact Latch.step_returned called (latched.returned other worker before)
        · contradiction
    · have latch_eq := effect_latch (fun worker is => isCall ⟨worker, is⟩) result
      rw [latch_eq]
      refine ⟨latched.reached, ?_, ?_⟩
      · intro worker
        rw [Code.mem_update_append, latched.called]
        constructor
        · exact Or.inl
        · rintro (before | ⟨-, is⟩)
          · exact before
          · exact absurd ⟨worker, is.symm⟩ isCall
      · intro other worker mem
        rw [Code.mem_update_append] at mem
        rcases mem with before | ⟨-, is⟩
        · exact latched.returned other worker before
        · subst is
          exact (effect_returnFromLatch_iff.mp result).1
  · intro state performed action after latched result
    rcases happen_iff.mp result with ⟨notCall, latch, stepped, rfl⟩
    exact latched.afterStep notCall stepped

/-- When a thread has returned from the latch, all have called it. -/
theorem called_of_returned (ran : backEnd.run config events = .ok threads)
    {thread : Thread config.threadCount} {worker : Fin config.threadCount}
    (returned : .returnFromLatch worker ∈ (backEnd.code config).performed threads thread)
    (other : Fin config.threadCount) :
    .callLatch other ∈ (backEnd.code config).performed threads (backEnd.threadOf other) := by
  have latched := latched_of_run ran
  rcases latched.reached with ⟨actions, reached⟩
  have consistent := Latch.run_consistent (Nat.pos_of_ne_zero (NeZero.ne _)) reached
  apply (latched.called other).mp
  exact consistent.called_of_returned (latched.returned thread worker returned) other

end Latched

end Urn.Startup
