import Urn.Foundation.Execution

/-!
# Threads of straight-line code

Each thread performs the statements of its program in order.  The threads share a
state and are interleaved statement by statement, and the shared state also changes
on its own.

* `Code.invariant`: the rule for what holds between the shared state and the
  statements that have been performed;
* `Code.performed_of_performed`: a thread which has performed a statement has
  performed what stands before it;
* `Code.Logs.mem_iff` and `Code.Logs.eq_filterMap`: what the threads have logged.
-/

namespace Sequential

open Execution

/-- How far every thread has come. -/
structure Threads (Thread Shared : Type) where
  shared : Shared
  counter : Thread → ℕ

inductive Event (Thread Internal : Type)
  | statement (thread : Thread)
  | internal (event : Internal)
deriving DecidableEq

structure Code (Thread Statement Internal Shared Failure : Type) where
  program : Thread → List Statement
  perform : Thread → Statement → Shared → Except Failure Shared
  happen : Internal → Shared → Except Failure Shared
  /-- There is no next statement. -/
  finished : Failure

namespace Code

variable {Thread Statement Internal Shared Failure : Type}
  (code : Code Thread Statement Internal Shared Failure)

/-- No thread has performed anything. -/
def start (shared : Shared) : Threads Thread Shared := ⟨shared, fun _ => 0⟩

/-- The statements that a thread has performed. -/
def performed (threads : Threads Thread Shared) (thread : Thread) : List Statement :=
  (code.program thread).take (threads.counter thread)

section Performed

variable {code} {threads : Threads Thread Shared}

@[simp]
theorem performed_start (shared : Shared) :
    code.performed (start shared : Threads Thread Shared) = fun _ => [] := rfl

theorem performed_prefix (thread : Thread) :
    code.performed threads thread <+: code.program thread :=
  List.take_prefix _ _

theorem mem_update_append {performed : Thread → List Statement} [DecidableEq Thread]
    {thread other : Thread} {statement earlier : Statement} :
    earlier ∈ Function.update performed thread (performed thread ++ [statement]) other ↔
      earlier ∈ performed other ∨ (other = thread ∧ earlier = statement) := by
  by_cases same : other = thread
  · subst same
    simp
  · simp [same]

/-- A thread has finished, or it has a next statement. -/
theorem finished_or_next (threads : Threads Thread Shared) (thread : Thread) :
    code.performed threads thread = code.program thread ∨
      ∃ statement rest, (code.program thread)[threads.counter thread]? = some statement ∧
        code.program thread = code.performed threads thread ++ statement :: rest := by
  rcases Nat.lt_or_ge (threads.counter thread) (code.program thread).length with more | all
  · right
    refine ⟨_, (code.program thread).drop (threads.counter thread + 1),
      List.getElem?_eq_getElem more, ?_⟩
    rw [performed, ← List.drop_eq_getElem_cons more, List.take_append_drop]
  · left
    exact List.take_of_length_le all

/-- What stands before a performed statement in the program has been performed. -/
theorem performed_of_performed {thread : Thread} {first second : List Statement}
    {earlier later : Statement} (program_eq : code.program thread = first ++ second)
    (earlier_mem : earlier ∈ first) (later_notMem : later ∉ first)
    (performed_later : later ∈ code.performed threads thread) :
    earlier ∈ code.performed threads thread := by
  rw [performed, program_eq, List.take_append, List.mem_append] at performed_later ⊢
  rcases performed_later with in_first | in_second
  · exact absurd (List.mem_of_mem_take in_first) later_notMem
  · left
    have beyond : first.length ≤ threads.counter thread := by
      by_contra short
      have none_left : threads.counter thread - first.length = 0 := by omega
      simp [none_left] at in_second
    rwa [List.take_of_length_le beyond]

end Performed

variable [DecidableEq Thread]

def step (threads : Threads Thread Shared) :
    Event Thread Internal → Except Failure (Threads Thread Shared)
  | .statement thread =>
      match (code.program thread)[threads.counter thread]? with
      | none => .error code.finished
      | some statement =>
          match code.perform thread statement threads.shared with
          | .error failure => .error failure
          | .ok shared =>
              .ok ⟨shared,
                Function.update threads.counter thread (threads.counter thread + 1)⟩
  | .internal event =>
      match code.happen event threads.shared with
      | .error failure => .error failure
      | .ok shared => .ok ⟨shared, threads.counter⟩

section Steps

variable {code} {threads after : Threads Thread Shared}

theorem step_statement_iff {thread : Thread} :
    code.step threads (.statement thread) = .ok after ↔
      ∃ statement shared, (code.program thread)[threads.counter thread]? = some statement ∧
        code.perform thread statement threads.shared = .ok shared ∧
        after = ⟨shared,
          Function.update threads.counter thread (threads.counter thread + 1)⟩ := by
  cases next : (code.program thread)[threads.counter thread]? with
  | none => simp [step, next]
  | some statement =>
      cases result : code.perform thread statement threads.shared <;>
        simp [step, next, result, eq_comm]

theorem step_internal_iff {event : Internal} :
    code.step threads (.internal event) = .ok after ↔
      ∃ shared, code.happen event threads.shared = .ok shared ∧
        after = ⟨shared, threads.counter⟩ := by
  cases result : code.happen event threads.shared <;> simp [step, result, eq_comm]

theorem performed_advance {thread : Thread} {statement : Statement} {shared : Shared}
    (next : (code.program thread)[threads.counter thread]? = some statement) :
    code.performed ⟨shared,
        Function.update threads.counter thread (threads.counter thread + 1)⟩ =
      Function.update (code.performed threads) thread
        (code.performed threads thread ++ [statement]) := by
  funext other
  by_cases same : other = thread
  · subst same
    simp [performed, List.take_add_one, next]
  · simp [performed, Function.update_of_ne same]

end Steps

section Runs

variable {code} {initial : Shared} {events : List (Event Thread Internal)}
  {threads : Threads Thread Shared}

theorem invariant (Inv : Shared → (Thread → List Statement) → Prop)
    (initially : Inv initial fun _ => [])
    (performs : ∀ {shared performed thread statement shared'}, Inv shared performed →
      performed thread ++ [statement] <+: code.program thread →
      code.perform thread statement shared = .ok shared' →
        Inv shared' (Function.update performed thread (performed thread ++ [statement])))
    (happens : ∀ {shared performed event shared'}, Inv shared performed →
      code.happen event shared = .ok shared' → Inv shared' performed)
    (ran : execute code.step (start initial) events = .ok threads) :
    Inv threads.shared (code.performed threads) := by
  refine execute_invariant (fun _ threads => Inv threads.shared (code.performed threads))
    ?_ ?_ ran
  · exact initially
  · intro _ threads event after _ holds stepped
    cases event with
    | statement thread =>
        rcases step_statement_iff.mp stepped with ⟨statement, shared, next, result, rfl⟩
        rw [performed_advance next]
        refine performs holds ?_ result
        have advanced : code.performed ⟨shared,
            Function.update threads.counter thread (threads.counter thread + 1)⟩ thread <+:
              code.program thread := performed_prefix thread
        rwa [performed_advance next, Function.update_self] at advanced
    | internal event =>
        rcases step_internal_iff.mp stepped with ⟨shared, result, rfl⟩
        exact happens holds result

/-- A list to which every statement that has a record appends it. -/
structure Logs {Entry : Type} (code : Code Thread Statement Internal Shared Failure)
    (log : Shared → List Entry) (record : Statement → Option Entry) : Prop where
  performs : ∀ {thread statement shared shared'},
    code.perform thread statement shared = .ok shared' →
      log shared' = log shared ++ (record statement).toList
  happens : ∀ {event shared shared'}, code.happen event shared = .ok shared' →
    log shared' = log shared

namespace Logs

variable {Entry : Type} {log : Shared → List Entry} {record : Statement → Option Entry}

theorem mem_iff (logs : Logs code log record) (empty : log initial = [])
    (ran : execute code.step (start initial) events = .ok threads) (entry : Entry) :
    entry ∈ log threads.shared ↔
      ∃ thread, ∃ statement ∈ code.performed threads thread, record statement = some entry := by
  refine invariant (fun shared performed => entry ∈ log shared ↔
    ∃ thread, ∃ statement ∈ performed thread, record statement = some entry) ?_ ?_ ?_ ran
  · simp [empty]
  · intro shared performed thread statement shared' holds _ result
    rw [logs.performs result, List.mem_append, holds, Option.mem_toList]
    simp only [mem_update_append]
    constructor
    · rintro (⟨other, earlier, mem, recorded⟩ | recorded)
      · exact ⟨other, earlier, Or.inl mem, recorded⟩
      · exact ⟨thread, statement, Or.inr ⟨rfl, rfl⟩, recorded⟩
    · rintro ⟨other, later, mem | ⟨-, rfl⟩, recorded⟩
      · exact Or.inl ⟨other, later, mem, recorded⟩
      · exact Or.inr recorded
  · intro shared performed event shared' holds result
    rw [logs.happens result]
    exact holds

/-- What one thread alone logs is in the order of its program. -/
theorem eq_filterMap (logs : Logs code log record) (empty : log initial = []) {logger : Thread}
    (alone : ∀ thread, thread ≠ logger → ∀ statement ∈ code.program thread,
      record statement = none)
    (ran : execute code.step (start initial) events = .ok threads) :
    log threads.shared = (code.performed threads logger).filterMap record := by
  refine invariant (fun shared performed => log shared = (performed logger).filterMap record)
    ?_ ?_ ?_ ran
  · simpa using empty
  · intro shared performed thread statement shared' holds within result
    rw [logs.performs result, holds]
    by_cases same : thread = logger
    · subst same
      rw [Function.update_self, List.filterMap_append]
      cases recorded : record statement <;> simp [recorded]
    · have unrecorded := alone thread same statement (within.subset (by simp))
      rw [Function.update_of_ne (Ne.symm same), unrecorded]
      simp
  · intro shared performed event shared' holds result
    rw [logs.happens result, holds]

end Logs

end Runs

end Code

end Sequential
