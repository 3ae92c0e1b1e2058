import Mathlib.Algebra.Group.Defs
import Mathlib.Logic.Function.Basic
import Mathlib.Tactic.Common

/-!
# Programs of atomic operations

A piece of code which shares state with other code is described here by the
sequence of atomic operations it performs: a program either is done, or performs
one operation and continues with a program chosen by the operation's result.
What the operations do is left open.  The same program can therefore be run to
its end on a state of its own (`Program.run`), or be interleaved with other
programs operation by operation (see `Urn.Foundation.Interleaving`).

`Program.Executes` and `Program.Completes` describe the operations, with their
results, which a program performs when every result is arbitrary.
-/

namespace Atomic

/-- A program over operations `Op`, where `op` answers with a `Res op`. -/
inductive Program {Op : Type} (Res : Op → Type) (Outcome : Type) : Type where
  | done (outcome : Outcome)
  | perform (op : Op) (next : Res op → Program Res Outcome)

namespace Program

variable {Op : Type} {Res : Op → Type} {Outcome Other : Type}

/-- Continue a program with another one which receives its outcome. -/
def bind (program : Program Res Outcome) (rest : Outcome → Program Res Other) :
    Program Res Other :=
  match program with
  | .done outcome => rest outcome
  | .perform op next => .perform op fun result => (next result).bind rest

/-- The program which performs one operation and ends with its result. -/
def op (op : Op) : Program Res (Res op) :=
  .perform op .done

instance : Monad (Program Res) where
  pure := .done
  bind := .bind

@[simp]
theorem pure_eq_done (outcome : Outcome) :
    (pure outcome : Program Res Outcome) = .done outcome := rfl

@[simp]
theorem done_bind (outcome : Outcome) (rest : Outcome → Program Res Other) :
    (Program.done outcome >>= rest) = rest outcome := rfl

@[simp]
theorem perform_bind (op : Op) (next : Res op → Program Res Outcome)
    (rest : Outcome → Program Res Other) :
    (Program.perform op next >>= rest) = .perform op fun result => next result >>= rest := rfl

@[simp]
theorem op_bind (operation : Op) (rest : Res operation → Program Res Other) :
    ((op operation : Program Res _) >>= rest) = .perform operation rest := rfl

@[simp]
theorem ite_bind (condition : Prop) [Decidable condition] (left right : Program Res Outcome)
    (rest : Outcome → Program Res Other) :
    ((if condition then left else right) >>= rest) =
      if condition then left >>= rest else right >>= rest := by
  split <;> rfl

section Run

variable {State Failure : Type}

/-- Run a program to its end on a state of its own.  The first operation which
fails ends the run. -/
def run (handle : (op : Op) → State → Except Failure (Res op × State)) :
    Program Res Outcome → State → Except Failure (Outcome × State)
  | .done outcome, state => .ok (outcome, state)
  | .perform op next, state =>
      match handle op state with
      | .error failure => .error failure
      | .ok (result, after) => (next result).run handle after

@[simp]
theorem run_done (handle : (op : Op) → State → Except Failure (Res op × State))
    (outcome : Outcome) (state : State) :
    (Program.done outcome).run handle state = .ok (outcome, state) := rfl

theorem run_perform (handle : (op : Op) → State → Except Failure (Res op × State))
    (op : Op) (next : Res op → Program Res Outcome) (state : State) :
    (Program.perform op next).run handle state =
      match handle op state with
      | .error failure => .error failure
      | .ok (result, after) => (next result).run handle after := by
  rw [run]

end Run

section Steps

/-- One performed operation together with the result it gave. -/
abbrev Performed {Op : Type} (Res : Op → Type) := (op : Op) × Res op

/-- Performing `steps` leads from one program to another. -/
inductive Executes : Program Res Outcome → List (Performed Res) → Program Res Outcome → Prop where
  | refl (program : Program Res Outcome) : Executes program [] program
  | perform {op : Op} {next : Res op → Program Res Outcome} {result : Res op}
      {steps : List (Performed Res)} {rest : Program Res Outcome}
      (tail : Executes (next result) steps rest) :
      Executes (.perform op next) (⟨op, result⟩ :: steps) rest

/-- Performing `steps` ends the program with `outcome`. -/
def Completes : Program Res Outcome → List (Performed Res) → Outcome → Prop
  | .done ended, steps, outcome => steps = [] ∧ ended = outcome
  | .perform op next, steps, outcome =>
      ∃ result tail, steps = ⟨op, result⟩ :: tail ∧ (next result).Completes tail outcome

theorem Executes.snoc {program : Program Res Outcome} {steps : List (Performed Res)} {op : Op}
    {next : Res op → Program Res Outcome}
    (executes : program.Executes steps (.perform op next)) (result : Res op) :
    program.Executes (steps ++ [⟨op, result⟩]) (next result) := by
  generalize reached_eq : Program.perform op next = reached at executes
  induction executes with
  | refl program =>
      subst reached_eq
      exact .perform (.refl _)
  | perform tail ih => exact .perform (ih reached_eq)

theorem Executes.completes {program : Program Res Outcome} {steps : List (Performed Res)}
    {outcome : Outcome} (executes : program.Executes steps (.done outcome)) :
    program.Completes steps outcome := by
  generalize reached_eq : Program.done outcome = reached at executes
  induction executes with
  | refl program =>
      subst reached_eq
      exact ⟨rfl, rfl⟩
  | perform tail ih => exact ⟨_, _, rfl, ih reached_eq⟩

/-- Whatever the results are, every operation which the program comes to perform is
safe with respect to the operations performed before it. -/
def Always (Safe : List (Performed Res) → Op → Prop) :
    Program Res Outcome → List (Performed Res) → Prop
  | .done _, _ => True
  | .perform op next, history =>
      Safe history op ∧ ∀ result, (next result).Always Safe (history ++ [⟨op, result⟩])

theorem Always.of_executes {Safe : List (Performed Res) → Op → Prop}
    {program : Program Res Outcome} {history steps : List (Performed Res)} {op : Op}
    {next : Res op → Program Res Outcome} (always : program.Always Safe history)
    (executes : program.Executes steps (.perform op next)) : Safe (history ++ steps) op := by
  induction steps generalizing program history with
  | nil =>
      cases executes with
      | refl => simpa using always.1
  | cons first steps ih =>
      cases executes with
      | @perform _ _ result _ _ tail => simpa using ih (always.2 result) tail

end Steps

section Gains

variable {Amount : Type} [Add Amount] (gain : (op : Op) → Res op → Amount)
  (due : Outcome → Amount)

/-- Along every execution of the program the gains of its operations, added to what has
been gained before, come to what the outcome is due. -/
def Yields : Program Res Outcome → Amount → Prop
  | .done outcome, gained => gained = due outcome
  | .perform op next, gained => ∀ result, (next result).Yields (gained + gain op result)

@[simp]
theorem yields_done (outcome : Outcome) (gained : Amount) :
    (Program.done outcome : Program Res Outcome).Yields gain due gained ↔
      gained = due outcome := Iff.rfl

@[simp]
theorem yields_perform (op : Op) (next : Res op → Program Res Outcome) (gained : Amount) :
    (Program.perform op next).Yields gain due gained ↔
      ∀ result, (next result).Yields gain due (gained + gain op result) := Iff.rfl

end Gains

end Program

end Atomic
