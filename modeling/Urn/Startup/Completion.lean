import Urn.Startup.Sockets

/-!
# The start is completed

Until all workers are ready some thread can go on: a thread that cannot waits at the
latch for another one that can.
-/

namespace Urn.Startup

open Execution Sequential

section Progress

variable {backEnd : BackEnd} {config : Config} {events : List (Event config)}
  {threads : Threads (Thread config.threadCount) (State config.threadCount)}

theorem threadIndex_eq {worker : Fin config.threadCount} : threadIndex worker = worker.val := by
  have threads_lt := config.threads.toNat_lt
  have worker_lt := worker.isLt
  have threadCount_eq := config.threadCount_eq
  exact Nat.mod_eq_of_lt (by omega)

theorem threadIndex_lt {worker : Fin config.threadCount} :
    threadIndex worker < config.threads.toNat := by
  have threadCount_eq := config.threadCount_eq
  have worker_lt := worker.isLt
  rw [threadIndex_eq]
  omega

theorem effect_statistics {threads : UInt16} {thread : Thread n} {statement : Statement n}
    {state after : State n} (notStart : ∀ worker, statement ≠ .onThreadStart worker)
    (result : effect threads thread statement state = .ok after) :
    after.statistics = state.statistics := by
  cases statement with
  | callLatch worker =>
      rcases effect_callLatch_iff.mp result with ⟨latch, -, rfl⟩
      rfl
  | returnFromLatch worker =>
      rcases effect_returnFromLatch_iff.mp result with ⟨-, rfl⟩
      rfl
  | onThreadStart worker => exact absurd rfl (notStart worker)
  | _ =>
      simp only [effect, Except.ok.injEq] at result
      subst result
      rfl

/-- A thread counts in the element of its worker, from `on_thread_start` on. -/
theorem statistics_eq_some_iff (ran : backEnd.run config events = .ok threads)
    {thread : Thread config.threadCount} {index : ℕ} :
    threads.shared.statistics thread = some index ↔ ∃ worker : Fin config.threadCount,
      .onThreadStart worker ∈ (backEnd.code config).performed threads thread ∧
        index = worker.val := by
  revert thread index
  refine Code.invariant (fun state performed => ∀ {thread index},
    state.statistics thread = some index ↔ ∃ worker : Fin config.threadCount,
      .onThreadStart worker ∈ performed thread ∧ index = worker.val) ?_ ?_ ?_ ran
  · simp [State.initial]
  · intro state performed thread statement after holds within result other index
    have result := (perform_iff.mp result).2
    have inProgram : statement ∈ backEnd.program thread := within.subset (by simp)
    simp only [Code.mem_update_append]
    by_cases isStart : ∃ worker, statement = .onThreadStart worker
    · rcases isStart with ⟨starter, rfl⟩
      rcases effect_onThreadStart_iff.mp result with ⟨-, rfl⟩
      by_cases same : other = thread
      · subst same
        simp only [Function.update_self, Option.some.injEq, threadIndex_eq]
        constructor
        · rintro rfl
          exact ⟨starter, Or.inr ⟨trivial, rfl⟩, rfl⟩
        · rintro ⟨worker, before | ⟨-, is⟩, rfl⟩
          · have started := BackEnd.thread_eq_of_caller inProgram rfl
            have startedToo := BackEnd.thread_eq_of_caller
              (within.subset (List.mem_append_left _ before)) rfl
            rw [backEnd.threadOf_injective (started.symm.trans startedToo)]
          · rw [Statement.onThreadStart.inj is]
      · simpa [Function.update_of_ne same, same] using holds
    · rw [effect_statistics (fun worker is => isStart ⟨worker, is⟩) result, holds]
      constructor
      · rintro ⟨worker, before, index_eq⟩
        exact ⟨worker, Or.inl before, index_eq⟩
      · rintro ⟨worker, before | ⟨-, is⟩, index_eq⟩
        · exact ⟨worker, before, index_eq⟩
        · exact absurd ⟨worker, is.symm⟩ isStart
  · intro state performed action after holds result other index
    rcases (happen_iff.mp result).2 with ⟨latch, -, rfl⟩
    exact holds

/-- The thread waits for others at the latch. -/
def Waits (backEnd : BackEnd) (config : Config)
    (threads : Threads (Thread config.threadCount) (State config.threadCount))
    (worker : Fin config.threadCount) : Prop :=
  (backEnd.code config).performed threads (backEnd.threadOf worker) =
    backEnd.prelude worker ++ [.callLatch worker] ∧
  threads.shared.latch.phases worker ≠ .returned

theorem latched_of_mem [NeZero n] {thread : Thread n} {worker : Fin n} {statement : Statement n}
    (mem : statement ∈ backEnd.program thread)
    (isLatch : statement = .callLatch worker ∨ statement = .returnFromLatch worker) :
    backEnd ≠ .libuv := by
  rintro rfl
  rcases isLatch with rfl | rfl <;> cases thread <;>
    simp [BackEnd.program, BackEnd.main, BackEnd.worker, BackEnd.threadOf] at mem

section Next

variable {worker : Fin config.threadCount} {rest : List (Statement config.threadCount)}

theorem performed_of_next_call (latched : backEnd ≠ .libuv)
    (next : backEnd.program (backEnd.threadOf worker) =
      (backEnd.code config).performed threads (backEnd.threadOf worker) ++
        .callLatch worker :: rest) :
    (backEnd.code config).performed threads (backEnd.threadOf worker) =
      backEnd.prelude worker := by
  rw [BackEnd.program_eq latched] at next
  refine ((List.append_cons_inj_of_notMem ?_ ?_).mp next).1.symm
  · intro mem
    simpa [Statement.caller] using BackEnd.caller_of_mem_prelude mem
  · cases backEnd <;> simp [BackEnd.remainder]

theorem performed_of_next_return (latched : backEnd ≠ .libuv)
    (next : backEnd.program (backEnd.threadOf worker) =
      (backEnd.code config).performed threads (backEnd.threadOf worker) ++
        .returnFromLatch worker :: rest) :
    (backEnd.code config).performed threads (backEnd.threadOf worker) =
      backEnd.prelude worker ++ [.callLatch worker] := by
  rw [BackEnd.program_eq latched, List.append_cons] at next
  refine ((List.append_cons_inj_of_notMem ?_ ?_).mp next).1.symm
  · intro mem
    rcases List.mem_append.mp mem with before | is
    · simpa [Statement.caller] using BackEnd.caller_of_mem_prelude before
    · simp at is
  · cases backEnd <;> simp [BackEnd.remainder]

end Next

/-- A thread that runs goes on, unless it is through or waits at the latch. -/
theorem goes_on (ran : backEnd.run config events = .ok threads)
    {thread : Thread config.threadCount} (runs : thread.Runs threads.shared) :
    (backEnd.code config).performed threads thread = (backEnd.code config).program thread ∨
      (∃ after, (backEnd.code config).step threads (.statement thread) = .ok after) ∨
      ∃ worker, thread = backEnd.threadOf worker ∧ backEnd ≠ .libuv ∧
        Waits backEnd config threads worker := by
  have latched := latched_of_run ran
  rcases Code.finished_or_next threads thread with finished | ⟨statement, rest, next, program_eq⟩
  · left
    exact finished
  · have inProgram : statement ∈ backEnd.program thread := List.mem_of_getElem? next
    right
    -- the next statement, if it can be performed
    have performs {shared : State config.threadCount}
        (result : effect config.threads thread statement threads.shared = .ok shared) :
        ∃ after, (backEnd.code config).step threads (.statement thread) = .ok after :=
      ⟨_, Code.step_statement_iff.mpr
        ⟨statement, shared, next, perform_iff.mpr ⟨runs, result⟩, rfl⟩⟩
    cases statement with
    | callLatch worker =>
        left
        have thread_eq := BackEnd.thread_eq_of_caller inProgram rfl
        subst thread_eq
        have prelude_eq := performed_of_next_call (latched_of_mem inProgram (Or.inl rfl)) program_eq
        have outside : threads.shared.latch.phases worker = .outside := by
          by_contra called
          have mem := (latched.called worker).mp called
          rw [prelude_eq] at mem
          simpa [Statement.caller] using BackEnd.caller_of_mem_prelude mem
        apply performs
        exact effect_callLatch_iff.mpr ⟨_, Latch.step_call_iff.mpr ⟨outside, rfl⟩, rfl⟩
    | returnFromLatch worker =>
        by_cases returned : threads.shared.latch.phases worker = .returned
        · left
          apply performs
          exact effect_returnFromLatch_iff.mpr ⟨returned, rfl⟩
        · right
          have thread_eq := BackEnd.thread_eq_of_caller inProgram rfl
          subst thread_eq
          have isLatched := latched_of_mem inProgram (Or.inr rfl)
          exact ⟨worker, rfl, isLatched, performed_of_next_return isLatched program_eq, returned⟩
    | onThreadStart worker =>
        left
        apply performs
        exact effect_onThreadStart_iff.mpr ⟨threadIndex_lt, rfl⟩
    | _ =>
        left
        exact performs rfl

/-- Not a thread that wakes up without a reason. -/
def IsAdvance : Event config → Prop
  | .internal (.spuriousWake _) => False
  | _ => True

/-- No thread can go on. -/
def Settled (backEnd : BackEnd) (config : Config)
    (threads : Threads (Thread config.threadCount) (State config.threadCount)) : Prop :=
  ∀ event after, (backEnd.code config).step threads event = .ok after → ¬IsAdvance event

theorem Settled.finished_or_waits (settled : Settled backEnd config threads)
    (ran : backEnd.run config events = .ok threads)
    {thread : Thread config.threadCount} (runs : thread.Runs threads.shared) :
    (backEnd.code config).performed threads thread = (backEnd.code config).program thread ∨
      ∃ worker, thread = backEnd.threadOf worker ∧ backEnd ≠ .libuv ∧
        Waits backEnd config threads worker := by
  rcases goes_on ran runs with finished | ⟨after, stepped⟩ | waits
  · exact Or.inl finished
  · exact absurd trivial (settled _ _ stepped)
  · exact Or.inr waits

theorem Settled.runs (settled : Settled backEnd config threads)
    (ran : backEnd.run config events = .ok threads) (worker : Fin config.threadCount) :
    (backEnd.threadOf worker).Runs threads.shared := by
  rcases backEnd.threadOf_eq worker with isMain | isMade
  · rw [isMain]
    trivial
  · rw [isMade]
    apply (mem_started_iff ran).mpr
    refine ⟨.main, ?_⟩
    have inProgram : .startThread worker ∈ backEnd.program .main :=
      BackEnd.startThread_mem_program.mpr ⟨rfl, isMade⟩
    have mainRuns : Thread.main.Runs threads.shared := trivial
    rcases settled.finished_or_waits ran mainRuns with finished | ⟨waiting, main_eq, latched, waits⟩
    · rw [finished]
      exact inProgram
    · rw [main_eq, BackEnd.program_eq latched] at inProgram
      rw [main_eq, waits.1]
      have notAfter : .startThread worker ∉ backEnd.remainder waiting := by
        cases backEnd <;> simp [BackEnd.remainder]
      simpa [notAfter] using inProgram

theorem Settled.called (settled : Settled backEnd config threads)
    (ran : backEnd.run config events = .ok threads) (latched : backEnd ≠ .libuv)
    (worker : Fin config.threadCount) :
    .callLatch worker ∈ (backEnd.code config).performed threads (backEnd.threadOf worker) := by
  have runs := settled.runs ran worker
  rcases settled.finished_or_waits ran runs with finished | ⟨waiting, same, -, waits⟩
  · have program_eq : (backEnd.code config).program (backEnd.threadOf worker) = _ :=
      BackEnd.program_eq latched worker
    rw [finished, program_eq]
    simp
  · rw [backEnd.threadOf_injective same, waits.1]
    simp

theorem Settled.not_waits (settled : Settled backEnd config threads)
    (ran : backEnd.run config events = .ok threads) (isLatched : backEnd ≠ .libuv)
    (worker : Fin config.threadCount) : ¬Waits backEnd config threads worker := by
  intro waits
  have latched := latched_of_run ran
  rcases latched.reached with ⟨actions, reached⟩
  have consistent := Latch.run_consistent (Nat.pos_of_ne_zero (NeZero.ne _)) reached
  have called (other : Fin config.threadCount) : threads.shared.latch.phases other ≠ .outside :=
    (latched.called other).mpr (settled.called ran isLatched other)
  rcases consistent.not_stuck called ⟨worker, waits.2⟩ with ⟨action, latch, notSpurious, stepped⟩
  have notCall (other : Fin config.threadCount) : action ≠ .call other := by
    rintro rfl
    exact called other (Latch.step_call_iff.mp stepped).1
  have happens : happen action threads.shared = .ok { threads.shared with latch } :=
    happen_iff.mpr ⟨notCall, latch, stepped, rfl⟩
  apply settled (.internal action) _ (Code.step_internal_iff.mpr ⟨_, happens, rfl⟩)
  cases action with
  | spuriousWake other => exact absurd rfl (notSpurious other)
  | _ => trivial

theorem Settled.finished (settled : Settled backEnd config threads)
    (ran : backEnd.run config events = .ok threads) {thread : Thread config.threadCount}
    (runs : thread.Runs threads.shared) :
    (backEnd.code config).performed threads thread = backEnd.program thread := by
  rcases settled.finished_or_waits ran runs with finished | ⟨waiting, -, latched, waits⟩
  · exact finished
  · exact absurd waits (settled.not_waits ran latched waiting)

/-- A worker is ready to receive. -/
structure Ready (backEnd : BackEnd) (config : Config) (state : State config.threadCount)
    (worker : Fin config.threadCount) : Prop where
  statistics : state.statistics (backEnd.threadOf worker) = some worker.val
  bound : ∀ side, (worker, side) ∈ state.bound
  filtered : backEnd = .mmsg → ∀ side, (worker, side) ∈ state.filtered

theorem Settled.ready (settled : Settled backEnd config threads)
    (ran : backEnd.run config events = .ok threads) (worker : Fin config.threadCount) :
    Ready backEnd config threads.shared worker := by
  have own := settled.finished ran (settled.runs ran worker)
  have mainRuns : Thread.main.Runs threads.shared := trivial
  have main := settled.finished ran mainRuns
  constructor
  · apply (statistics_eq_some_iff ran).mpr
    refine ⟨worker, ?_, rfl⟩
    rw [own]
    exact BackEnd.onThreadStart_mem_program worker
  · intro side
    have binds : .bindSocket worker side ∈
        backEnd.program (if backEnd = .uring then backEnd.threadOf worker else .main) :=
      BackEnd.bindSocket_mem_program.mpr rfl
    apply (mem_bound_iff ran).mpr
    by_cases isUring : backEnd = .uring
    · rw [if_pos isUring, ← own] at binds
      exact ⟨_, binds⟩
    · rw [if_neg isUring, ← main] at binds
      exact ⟨.main, binds⟩
  · rintro rfl side
    apply (mem_filtered_iff ran).mpr
    refine ⟨.main, ?_⟩
    rw [main]
    cases side <;> simp [BackEnd.program, BackEnd.main, BackEnd.mmsgSockets]

theorem perform_ne_outOfRange (thread : Thread config.threadCount)
    (statement : Statement config.threadCount) (state : State config.threadCount) :
    perform config.threads thread statement state ≠ .error .outOfRange := by
  rw [perform]
  split
  · cases statement with
    | callLatch worker =>
        simp only [effect]
        split <;> simp
    | returnFromLatch worker =>
        simp only [effect]
        split <;> simp
    | onThreadStart worker => simp [effect, threadIndex_lt]
    | _ => simp [effect]
  · simp

theorem step_ne_outOfRange (event : Event config) :
    (backEnd.code config).step threads event ≠ .error .outOfRange := by
  cases event with
  | statement thread =>
      simp only [Code.step, BackEnd.code]
      split
      · simp
      · split
        · rename_i statement next _ failure failed
          rintro ⟨⟩
          exact perform_ne_outOfRange thread statement threads.shared failed
        · simp
  | internal action =>
      cases stepped : Latch.step threads.shared.latch action <;> cases action <;>
        simp [Code.step, BackEnd.code, happen, stepped]

/-- What the start promises in the state it has come to. -/
structure Starts (backEnd : BackEnd) (config : Config)
    (threads : Threads (Thread config.threadCount) (State config.threadCount)) : Prop where
  in_range : ∀ event, (backEnd.code config).step threads event ≠ .error .outOfRange
  private_statistics : ∀ left right index, threads.shared.statistics left = some index →
    threads.shared.statistics right = some index → left = right
  not_stuck : (∃ event after, (backEnd.code config).step threads event = .ok after ∧
      IsAdvance event) ∨
    ∀ worker, Ready backEnd config threads.shared worker

/-- In whatever order threads run, the start goes on until every worker is ready. -/
theorem startup_completes (ran : backEnd.run config events = .ok threads) :
    Starts backEnd config threads := by
  constructor
  · exact step_ne_outOfRange
  · intro left right index leftCounts rightCounts
    rcases (statistics_eq_some_iff ran).mp leftCounts with ⟨leftWorker, leftStarted, rfl⟩
    rcases (statistics_eq_some_iff ran).mp rightCounts with ⟨rightWorker, rightStarted, same⟩
    have leftRuns := BackEnd.thread_eq_of_caller
      ((Code.performed_prefix left).subset leftStarted) rfl
    have rightRuns := BackEnd.thread_eq_of_caller
      ((Code.performed_prefix right).subset rightStarted) rfl
    rw [leftRuns, rightRuns, Fin.ext same]
  · by_cases settled : Settled backEnd config threads
    · right
      exact settled.ready ran
    · left
      simpa [Settled] using settled

/-- With io_uring, the second worker is bound before the first one has left the latch. -/
theorem startup_completes_overtakes : ∃ threads,
    BackEnd.uring.run two overtakes = .ok threads ∧ threads.shared.group .client = [second] ∧
      Starts .uring two threads := by
  have succeeds : succeedsWith (BackEnd.uring.run two overtakes) (fun threads =>
      threads.shared.group .client = [second]) = true := by
    decide +kernel
  rcases exists_of_succeedsWith succeeds with ⟨threads, ran, overtaken⟩
  exact ⟨threads, ran, of_decide_eq_true overtaken, startup_completes ran⟩

end Progress

end Urn.Startup
