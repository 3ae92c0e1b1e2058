import Mathlib.Tactic.Common

/-!
# Refinement of machines with results

A machine answers every operation with a result.  One machine refines another on
the permitted operations, if a representation relation is kept by every permitted
operation and both answer it alike; whole runs then answer alike as well.
-/

structure Machine (State Operation Result : Type) where
  step : State → Operation → Result × State

namespace Machine

variable {State Abstract Operation Result : Type}

/-- The results of the operations, and the state they lead to. -/
def run (machine : Machine State Operation Result) :
    State → List Operation → List Result × State
  | state, [] => ([], state)
  | state, operation :: operations =>
      let after := machine.step state operation
      let rest := machine.run after.2 operations
      (after.1 :: rest.1, rest.2)

/-- Each operation is allowed in the state in which it is performed. -/
def Permits (machine : Machine State Operation Result) (Allowed : State → Operation → Prop) :
    State → List Operation → Prop
  | _, [] => True
  | state, operation :: operations =>
      Allowed state operation ∧
        machine.Permits Allowed (machine.step state operation).2 operations

structure Refines (concrete : Machine State Operation Result)
    (abstract : Machine Abstract Operation Result) (Allowed : Abstract → Operation → Prop)
    (Represents : State → Abstract → Prop) : Prop where
  result : ∀ {state view operation}, Represents state view → Allowed view operation →
    (concrete.step state operation).1 = (abstract.step view operation).1
  represents : ∀ {state view operation}, Represents state view → Allowed view operation →
    Represents (concrete.step state operation).2 (abstract.step view operation).2

variable {concrete : Machine State Operation Result}
  {abstract : Machine Abstract Operation Result} {Allowed : Abstract → Operation → Prop}
  {Represents : State → Abstract → Prop}

theorem Refines.run_represents (refines : Refines concrete abstract Allowed Represents)
    {state : State} {view : Abstract} {operations : List Operation}
    (related : Represents state view) (permitted : abstract.Permits Allowed view operations) :
    Represents (concrete.run state operations).2 (abstract.run view operations).2 := by
  induction operations generalizing state view with
  | nil => exact related
  | cons operation operations ih =>
      apply ih
      · exact refines.represents related permitted.1
      · exact permitted.2

theorem Refines.run_results (refines : Refines concrete abstract Allowed Represents)
    {state : State} {view : Abstract} {operations : List Operation}
    (related : Represents state view) (permitted : abstract.Permits Allowed view operations) :
    (concrete.run state operations).1 = (abstract.run view operations).1 := by
  induction operations generalizing state view with
  | nil => rfl
  | cons operation operations ih =>
      have first := refines.result related permitted.1
      have rest := ih (refines.represents related permitted.1) permitted.2
      simp only [run, first, rest]

end Machine
