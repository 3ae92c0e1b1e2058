import Mathlib.Algebra.BigOperators.Group.List.Basic
import Urn.Foundation.Execution

/-!
# Ledgers

Amounts which the steps of an execution put in, hold and take out.  If every single
step takes out no more and no less than leaves the holdings, then so does the whole
execution.
-/

namespace Execution

variable {State Event Failure Amount : Type} [AddCommMonoid Amount]
  {step : State → Event → Except Failure State}

/-- What a step does not touch does not change its balance. -/
theorem framed {taken common common' own own' put rest : Amount}
    (moved : taken + (common' + own') = common + own + put) :
    taken + (common' + (own' + rest)) = common + (own + rest) + put := by
  rw [← add_assoc common', ← add_assoc taken, moved, add_right_comm, add_assoc common]

/-- What the steps of an execution add up to. -/
def total (step : State → Event → Except Failure State) (amount : State → Event → State → Amount)
    (start : State) (events : List Event) : Amount :=
  (observe step (fun state event next => [amount state event next]) start events).sum

@[simp]
theorem total_nil (amount : State → Event → State → Amount) (start : State) :
    total step amount start [] = 0 := rfl

theorem total_snoc {amount : State → Event → State → Amount} {start state next : State}
    {events : List Event} {event : Event} (ran : execute step start events = .ok state)
    (processed : step state event = .ok next) :
    total step amount start (events ++ [event]) =
      total step amount start events + amount state event next := by
  rw [total, observe_snoc ran processed, List.sum_append, List.sum_singleton]
  rfl

/-- The amounts of what is seen are those of the steps. -/
theorem sum_observe {Seen : Type} {see : State → Event → State → List Seen}
    (amount : Seen → Amount) (start : State) (events : List Event) :
    ((observe step see start events).map amount).sum =
      total step (fun state event next => ((see state event next).map amount).sum) start
        events := by
  induction events generalizing start with
  | nil => rfl
  | cons event events ih =>
      rw [total, observe, observe]
      cases step start event with
      | error failure => rfl
      | ok next =>
          simp only [List.map_append, List.sum_append, ih, List.sum_singleton]
          rfl

/-- What is taken out and what is held at the end are what was held and what has been
put in. -/
theorem conserved {held : State → Amount} {put taken : State → Event → State → Amount}
    {start state : State} {events : List Event} (ran : execute step start events = .ok state)
    (balanced : ∀ before event rest state next, events = before ++ event :: rest →
      execute step start before = .ok state → step state event = .ok next →
        taken state event next + held next = held state + put state event next) :
    total step taken start events + held state = held start + total step put start events := by
  refine execute_invariant (fun performed (state : State) => performed <+: events →
    total step taken start performed + held state = held start + total step put start performed)
    ?_ ?_ ran List.prefix_rfl
  · intro _
    simp
  · intro before state event next ranBefore holds processed within
    rcases within with ⟨rest, events_eq⟩
    have split_eq : events = before ++ event :: rest := by
      rw [← events_eq, List.append_assoc, List.singleton_append]
    have moved := balanced before event rest state next split_eq ranBefore processed
    have settled := holds ⟨event :: rest, split_eq.symm⟩
    rw [total_snoc ranBefore processed, total_snoc ranBefore processed, add_assoc, moved,
      ← add_assoc, settled, add_assoc]

end Execution
