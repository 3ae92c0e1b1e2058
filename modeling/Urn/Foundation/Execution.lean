import Mathlib.Data.List.Induction
import Mathlib.Tactic.Common

/-!
# Executions of event-driven code

Code which reacts to events one at a time is a function from a state and an event
to the next state, or to the failure which ends the program.  `execute` processes
a list of events.

* `execute_invariant`: what every processed event preserves holds in the end;
* `execute_error_iff`: an execution fails at one of its events, in a state that
  the events before it lead to;
* `execute_ne_error_iff`: an execution avoids a failure if and only if each of its
  events avoids it in the state in which it is processed.
-/

namespace Execution

variable {State Event Failure : Type} {step : State → Event → Except Failure State}

/-- Process the events in order.  The first failure ends the execution. -/
def execute (step : State → Event → Except Failure State) :
    State → List Event → Except Failure State
  | state, [] => .ok state
  | state, event :: events =>
      match step state event with
      | .error failure => .error failure
      | .ok after => execute step after events

@[simp]
theorem execute_nil (state : State) : execute step state [] = .ok state := rfl

theorem execute_cons_ok {state after : State} {event : Event}
    (processed : step state event = .ok after) (events : List Event) :
    execute step state (event :: events) = execute step after events := by
  rw [execute, processed]

theorem execute_cons_error {state : State} {event : Event} {failure : Failure}
    (failed : step state event = .error failure) (events : List Event) :
    execute step state (event :: events) = .error failure := by
  rw [execute, failed]

theorem execute_append_ok {start state : State} {before : List Event}
    (ran : execute step start before = .ok state) (after : List Event) :
    execute step start (before ++ after) = execute step state after := by
  induction before generalizing start with
  | nil =>
      simp only [execute_nil, Except.ok.injEq] at ran
      rw [List.nil_append, ran]
  | cons event before ih =>
      cases processed : step start event with
      | error failure =>
          rw [execute_cons_error processed] at ran
          contradiction
      | ok next =>
          rw [execute_cons_ok processed] at ran
          rw [List.cons_append, execute_cons_ok processed]
          exact ih ran

theorem execute_snoc {start after : State} {events : List Event} {event : Event} :
    execute step start (events ++ [event]) = .ok after ↔
      ∃ state, execute step start events = .ok state ∧ step state event = .ok after := by
  induction events generalizing start with
  | nil =>
      cases processed : step start event <;> simp [execute, processed]
  | cons first events ih =>
      cases processed : step start first with
      | error failure => simp [execute_cons_error processed]
      | ok next =>
          rw [List.cons_append, execute_cons_ok processed, execute_cons_ok processed]
          exact ih

theorem execute_append {start after : State} {first second : List Event} :
    execute step start (first ++ second) = .ok after ↔
      ∃ state, execute step start first = .ok state ∧ execute step state second = .ok after := by
  constructor
  · intro ran
    induction first generalizing start with
    | nil => exact ⟨start, rfl, ran⟩
    | cons event first ih =>
        cases processed : step start event with
        | error failure =>
            simp only [List.cons_append, execute_cons_error processed] at ran
            contradiction
        | ok next =>
            simp only [List.cons_append, execute_cons_ok processed] at ran ⊢
            exact ih ran
  · rintro ⟨state, ranFirst, ranSecond⟩
    exact (execute_append_ok ranFirst second).trans ranSecond

theorem execute_invariant {start : State} (Inv : List Event → State → Prop)
    (holdsInitially : Inv [] start)
    (preserved : ∀ {events state event after}, execute step start events = .ok state →
      Inv events state → step state event = .ok after → Inv (events ++ [event]) after)
    {events : List Event} {state : State} (ran : execute step start events = .ok state) :
    Inv events state := by
  induction events using List.reverseRecOn generalizing state with
  | nil =>
      simp only [execute_nil, Except.ok.injEq] at ran
      exact ran ▸ holdsInitially
  | append_singleton events event ih =>
      rcases execute_snoc.mp ran with ⟨before, ranBefore, processed⟩
      exact preserved ranBefore (ih ranBefore) processed

/-- An execution is one of every machine that does more with the same events. -/
theorem execute_lifts {Other : Type} {stepOther : Other → Event → Except Failure Other}
    {project : Other → State}
    (lifts : ∀ {other event state}, step (project other) event = .ok state →
      ∃ next, stepOther other event = .ok next ∧ project next = state)
    {other : Other} {events : List Event} {state : State}
    (ran : execute step (project other) events = .ok state) :
    ∃ next, execute stepOther other events = .ok next ∧ project next = state := by
  induction events generalizing other with
  | nil =>
      simp only [execute_nil, Except.ok.injEq] at ran
      exact ⟨other, rfl, ran⟩
  | cons event events ih =>
      cases processed : step (project other) event with
      | error failure =>
          rw [execute_cons_error processed] at ran
          contradiction
      | ok middle =>
          rw [execute_cons_ok processed] at ran
          rcases lifts processed with ⟨next, processedToo, rfl⟩
          rw [execute_cons_ok processedToo]
          exact ih ran

theorem execute_error_iff {start : State} {events : List Event} {failure : Failure} :
    execute step start events = .error failure ↔
      ∃ before event after state, events = before ++ event :: after ∧
        execute step start before = .ok state ∧ step state event = .error failure := by
  constructor
  · intro failed
    induction events generalizing start with
    | nil => simp at failed
    | cons event events ih =>
        cases processed : step start event with
        | error reason =>
            rw [execute_cons_error processed, Except.error.injEq] at failed
            exact ⟨[], event, events, start, rfl, rfl, failed ▸ processed⟩
        | ok next =>
            rw [execute_cons_ok processed] at failed
            rcases ih failed with ⟨before, other, after, state, rfl, ran, last⟩
            exact ⟨event :: before, other, after, state, rfl,
              by rw [execute_cons_ok processed, ran], last⟩
  · rintro ⟨before, event, after, state, rfl, ran, last⟩
    rw [execute_append_ok ran, execute_cons_error last]

/-- The condition holds of each event and the state it is processed in. -/
def Throughout (step : State → Event → Except Failure State) (Condition : State → Event → Prop)
    (start : State) (events : List Event) : Prop :=
  ∀ before event after state, events = before ++ event :: after →
    execute step start before = .ok state → Condition state event

theorem Throughout.of_append {Condition : State → Event → Prop} {start : State}
    {first second : List Event} (throughout : Throughout step Condition start (first ++ second)) :
    Throughout step Condition start first := by
  intro before event after state events_eq ran
  apply throughout before event (after ++ second) state ?_ ran
  simp [events_eq]

theorem Throughout.last {Condition : State → Event → Prop} {start state : State}
    {events : List Event} {event : Event}
    (throughout : Throughout step Condition start (events ++ [event]))
    (ran : execute step start events = .ok state) : Condition state event :=
  throughout events event [] state rfl ran

theorem throughout_nil (Condition : State → Event → Prop) (start : State) :
    Throughout step Condition start [] := by
  intro before event after state events_eq
  simp at events_eq

theorem throughout_cons_error {Condition : State → Event → Prop} {start : State} {event : Event}
    {failure : Failure} (failed : step start event = .error failure) (events : List Event) :
    Condition start event ↔ Throughout step Condition start (event :: events) := by
  constructor
  · rintro holds (_ | ⟨first, before⟩) other after state events_eq ran
    · rw [List.nil_append, List.cons.injEq] at events_eq
      simp only [execute_nil, Except.ok.injEq] at ran
      rw [← ran, ← events_eq.1]
      exact holds
    · rw [List.cons_append, List.cons.injEq] at events_eq
      rw [← events_eq.1, execute_cons_error failed] at ran
      contradiction
  · intro throughout
    exact throughout [] event events start rfl rfl

theorem throughout_cons_ok {Condition : State → Event → Prop} {start next : State} {event : Event}
    (processed : step start event = .ok next) (events : List Event) :
    Condition start event ∧ Throughout step Condition next events ↔
      Throughout step Condition start (event :: events) := by
  constructor
  · rintro ⟨holds, rest⟩ (_ | ⟨first, before⟩) other after state events_eq ran
    · rw [List.nil_append, List.cons.injEq] at events_eq
      simp only [execute_nil, Except.ok.injEq] at ran
      rw [← ran, ← events_eq.1]
      exact holds
    · rw [List.cons_append, List.cons.injEq] at events_eq
      rw [← events_eq.1, execute_cons_ok processed] at ran
      exact rest before other after state events_eq.2 ran
  · intro throughout
    refine ⟨throughout [] event events start rfl rfl, ?_⟩
    intro before other after state events_eq ran
    apply throughout (event :: before) other after state
    · rw [events_eq, List.cons_append]
    · rw [execute_cons_ok processed, ran]

/-- A condition that can be decided of an event is decided along an execution. -/
instance decidableThroughout {Condition : State → Event → Prop}
    [∀ state event, Decidable (Condition state event)] (start : State) :
    (events : List Event) → Decidable (Throughout step Condition start events)
  | [] => isTrue (throughout_nil Condition start)
  | event :: events =>
      match processed : step start event with
      | .error _ => decidable_of_iff _ (throughout_cons_error processed events)
      | .ok next =>
          haveI : Decidable (Throughout step Condition next events) :=
            decidableThroughout next events
          decidable_of_iff _ (throughout_cons_ok processed events)

/-- An execution avoids a failure exactly when each of its events avoids it. -/
theorem execute_ne_error_iff {start : State} {events : List Event} {failure : Failure} :
    execute step start events ≠ .error failure ↔
      Throughout step (fun state event => step state event ≠ .error failure) start events := by
  rw [ne_eq, execute_error_iff]
  constructor
  · intro avoided before event after state events_eq ran failed
    exact avoided ⟨before, event, after, state, events_eq, ran, failed⟩
  · rintro throughout ⟨before, event, after, state, events_eq, ran, failed⟩
    exact throughout before event after state events_eq ran failed

/-- Conditions which agree in all reachable states agree throughout an execution. -/
theorem throughout_congr {Left Right : State → Event → Prop} {start : State}
    {events : List Event}
    (agree : ∀ before event after state, events = before ++ event :: after →
      execute step start before = .ok state → (Left state event ↔ Right state event)) :
    Throughout step Left start events ↔ Throughout step Right start events := by
  constructor
  · intro throughout before event after state events_eq ran
    exact (agree before event after state events_eq ran).mp
      (throughout before event after state events_eq ran)
  · intro throughout before event after state events_eq ran
    exact (agree before event after state events_eq ran).mpr
      (throughout before event after state events_eq ran)

/-- The property holds in every state of an execution. -/
def Always (step : State → Event → Except Failure State) (Property : State → Prop)
    (start : State) (events : List Event) : Prop :=
  ∀ before after state, events = before ++ after →
    execute step start before = .ok state → Property state

/-- A property that holds initially, and after each event exactly if the condition holds of
the event, holds always exactly if the condition holds throughout. -/
theorem always_iff_throughout {Property : State → Prop} {Condition : State → Event → Prop}
    {start final : State} {events : List Event} (ran : execute step start events = .ok final)
    (initially : Property start)
    (decides : ∀ before event after state next, events = before ++ event :: after →
      execute step start before = .ok state → step state event = .ok next → Property state →
        (Property next ↔ Condition state event)) :
    Always step Property start events ↔ Throughout step Condition start events := by
  have reached {before after : List Event} {event : Event} {state : State}
      (events_eq : events = before ++ event :: after)
      (ranBefore : execute step start before = .ok state) :
      ∃ next, step state event = .ok next ∧ execute step start (before ++ [event]) = .ok next := by
    rw [events_eq, List.append_cons] at ran
    rcases execute_append.mp ran with ⟨next, ranNext, _⟩
    rcases execute_snoc.mp ranNext with ⟨other, ranOther, stepped⟩
    have same : other = state := Except.ok.inj (ranOther.symm.trans ranBefore)
    exact ⟨next, same ▸ stepped, ranNext⟩
  constructor
  · intro always before event after state events_eq ranBefore
    rcases reached events_eq ranBefore with ⟨next, stepped, ranNext⟩
    have holds := always before (event :: after) state events_eq ranBefore
    have holdsNext := always (before ++ [event]) after next (by simp [events_eq]) ranNext
    exact (decides before event after state next events_eq ranBefore stepped holds).mp holdsNext
  · intro throughout before
    induction before using List.reverseRecOn with
    | nil =>
        intro after state _ ranBefore
        simp only [execute_nil, Except.ok.injEq] at ranBefore
        exact ranBefore ▸ initially
    | append_singleton before event ih =>
        intro after next events_eq ranNext
        rcases execute_snoc.mp ranNext with ⟨state, ranBefore, stepped⟩
        have split_eq : events = before ++ event :: after := by simp [events_eq]
        have holds := ih (event :: after) state split_eq ranBefore
        apply (decides before event after state next split_eq ranBefore stepped holds).mpr
        exact throughout before event after state split_eq ranBefore

/-- What is seen of the steps of an execution, in order. -/
def observe {Seen : Type} (step : State → Event → Except Failure State)
    (see : State → Event → State → List Seen) : State → List Event → List Seen
  | _, [] => []
  | state, event :: events =>
      match step state event with
      | .error _ => []
      | .ok next => see state event next ++ observe step see next events

theorem observe_snoc {Seen : Type} {see : State → Event → State → List Seen}
    {start state next : State} {events : List Event} {event : Event}
    (ran : execute step start events = .ok state) (processed : step state event = .ok next) :
    observe step see start (events ++ [event]) =
      observe step see start events ++ see state event next := by
  induction events generalizing start with
  | nil =>
      simp only [execute_nil, Except.ok.injEq] at ran
      simp [observe, ran, processed]
  | cons first events ih =>
      cases processedFirst : step start first with
      | error failure =>
          rw [execute_cons_error processedFirst] at ran
          contradiction
      | ok after =>
          rw [execute_cons_ok processedFirst] at ran
          simp only [List.cons_append, observe, processedFirst, ih ran, List.append_assoc]

theorem bind_eq_ok {Value Result : Type} {first : Except Failure Value}
    {rest : Value → Except Failure Result} {result : Result} :
    (first >>= rest) = .ok result ↔ ∃ value, first = .ok value ∧ rest value = .ok result := by
  cases first <;> simp [bind, Except.bind]

/-- The result is a success, and the test holds of it. -/
def succeedsWith (result : Except Failure State) (test : State → Bool) : Bool :=
  match result with
  | .error _ => false
  | .ok state => test state

theorem exists_of_succeedsWith {result : Except Failure State} {test : State → Bool}
    (succeeds : succeedsWith result test = true) :
    ∃ state, result = .ok state ∧ test state = true := by
  cases result with
  | error failure => contradiction
  | ok state => exact ⟨state, rfl, succeeds⟩

/-- The result is the given failure. -/
def failsWith [DecidableEq Failure] (result : Except Failure State) (failure : Failure) : Bool :=
  match result with
  | .error reason => reason = failure
  | .ok _ => false

theorem eq_error_of_failsWith [DecidableEq Failure] {result : Except Failure State}
    {failure : Failure} (fails : failsWith result failure = true) : result = .error failure := by
  cases result with
  | error reason => rw [of_decide_eq_true fails]
  | ok state => contradiction

end Execution
