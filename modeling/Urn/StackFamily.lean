import Urn.Foundation.Refinement
import Urn.IntrusiveStack

/-!
# Stacks over one hook

Several stacks which use the same member `Next`.  All of them keep their order in
the hooks of the nodes; the hook of a node which has been popped keeps its value.
The abstract view of the stacks is one list of nodes for each of them.
-/

namespace Urn

namespace StackFamily

variable {Stack Node : Type} [DecidableEq Stack] [DecidableEq Node]

structure State (Stack Node : Type) where
  stackAt : Stack → IntrusiveStack Node
  hooks : Hooks Node

def initial (hooks : Hooks Node) : State Stack Node := ⟨fun _ => .initial, hooks⟩

inductive Operation (Stack Node : Type)
  | push (stack : Stack) (node : Node)
  | tryPop (stack : Stack)
  /-- The application writes the hook of a node. -/
  | overwrite (node : Node) (hook : Option Node)

/-- The operation works on the stack. -/
def Operation.On : Operation Stack Node → Stack → Prop
  | push stack _, other => stack = other
  | tryPop stack, other => stack = other
  | overwrite _ _, _ => False

/-- Only `try_pop` returns a node. -/
def family : Machine (State Stack Node) (Operation Stack Node) (Option Node) where
  step state
    | .push stack node =>
        let pushed := (state.stackAt stack).push state.hooks node
        (none, ⟨Function.update state.stackAt stack pushed.1, pushed.2⟩)
    | .tryPop stack =>
        let popped := (state.stackAt stack).tryPop state.hooks
        (popped.1, ⟨Function.update state.stackAt stack popped.2, state.hooks⟩)
    | .overwrite node hook => (none, ⟨state.stackAt, Function.update state.hooks node hook⟩)

/-- The nodes of each stack, the latest first. -/
abbrev Contents (Stack Node : Type) := Stack → List Node

def lists : Machine (Contents Stack Node) (Operation Stack Node) (Option Node) where
  step contents
    | .push stack node => (none, Function.update contents stack (node :: contents stack))
    | .tryPop stack =>
        ((contents stack).head?, Function.update contents stack (contents stack).tail)
    | .overwrite _ _ => (none, contents)

/-- A node is pushed, and its hook written, only while no stack holds it. -/
def Allowed (contents : Contents Stack Node) : Operation Stack Node → Prop
  | .push _ node => ∀ stack, node ∉ contents stack
  | .tryPop _ => True
  | .overwrite node _ => ∀ stack, node ∉ contents stack

structure Represents (state : State Stack Node) (contents : Contents Stack Node) : Prop where
  holds : ∀ stack, (state.stackAt stack).Holds state.hooks (contents stack)
  disjoint : ∀ {stack other : Stack}, stack ≠ other →
    (contents stack).Disjoint (contents other)

omit [DecidableEq Stack] [DecidableEq Node] in
theorem initial_represents (hooks : Hooks Node) :
    Represents (initial hooks : State Stack Node) fun _ => [] where
  holds := fun _ => IntrusiveStack.initial_holds hooks
  disjoint := by simp

omit [DecidableEq Node] in
theorem lists_step_of_not_on {contents : Contents Stack Node} {operation : Operation Stack Node}
    {other : Stack} (elsewhere : ¬operation.On other) :
    (lists.step contents operation).2 other = contents other := by
  cases operation with
  | push stack node => exact Function.update_of_ne (Ne.symm elsewhere) _ _
  | tryPop stack => exact Function.update_of_ne (Ne.symm elsewhere) _ _
  | overwrite node hook => rfl

theorem Represents.push {state : State Stack Node} {contents : Contents Stack Node}
    (represents : Represents state contents) (stack : Stack) {node : Node}
    (absent : ∀ stack, node ∉ contents stack) :
    Represents (family.step state (.push stack node)).2
      (lists.step contents (.push stack node)).2 := by
  constructor
  · intro other
    by_cases same : other = stack
    · subst same
      simpa [family, lists] using (represents.holds other).push (absent other)
    · simpa [family, lists, same, IntrusiveStack.push] using
        (represents.holds other).update (absent other) (state.stackAt stack).top
  · intro left right different
    have apart := represents.disjoint different
    by_cases isLeft : left = stack
    · have notRight : right ≠ stack := fun isRight => different (isLeft.trans isRight.symm)
      subst isLeft
      simpa [lists, notRight] using ⟨absent right, apart⟩
    · by_cases isRight : right = stack
      · subst isRight
        simpa [lists, isLeft] using ⟨absent left, apart⟩
      · simpa [lists, isLeft, isRight] using apart

theorem Represents.tryPop {state : State Stack Node} {contents : Contents Stack Node}
    (represents : Represents state contents) (stack : Stack) :
    Represents (family.step state (.tryPop stack)).2
      (lists.step contents (.tryPop stack)).2 := by
  have shrinks (other : Stack) :
      (lists.step contents (.tryPop stack)).2 other ⊆ contents other := by
    by_cases same : other = stack
    · subst same
      simpa [lists] using (List.tail_sublist (contents other)).subset
    · simp [lists, same]
  constructor
  · intro other
    by_cases same : other = stack
    · subst same
      simpa [family, lists] using (represents.holds other).tryPop.2
    · simpa [family, lists, same] using represents.holds other
  · intro left right different node inLeft inRight
    exact represents.disjoint different (shrinks left inLeft) (shrinks right inRight)

theorem Represents.overwrite {state : State Stack Node} {contents : Contents Stack Node}
    (represents : Represents state contents) {node : Node} (hook : Option Node)
    (absent : ∀ stack, node ∉ contents stack) :
    Represents (family.step state (.overwrite node hook)).2
      (lists.step contents (.overwrite node hook)).2 where
  holds := fun stack => (represents.holds stack).update (absent stack) hook
  disjoint := represents.disjoint

theorem family_refines_lists :
    (family : Machine (State Stack Node) _ _).Refines lists Allowed Represents where
  result := by
    intro state contents operation represents _
    cases operation with
    | push stack node => rfl
    | tryPop stack => exact (represents.holds stack).tryPop.1
    | overwrite node hook => rfl
  represents := by
    intro state contents operation represents allowed
    cases operation with
    | push stack node => exact represents.push stack allowed
    | tryPop stack => exact represents.tryPop stack
    | overwrite node hook => exact represents.overwrite hook allowed

theorem run_represents (hooks : Hooks Node) {operations : List (Operation Stack Node)}
    (permitted : lists.Permits Allowed (fun _ => []) operations) :
    Represents (family.run (initial hooks) operations).2
      (lists.run (fun _ => []) operations).2 :=
  family_refines_lists.run_represents (initial_represents hooks) permitted

omit [DecidableEq Stack] [DecidableEq Node] in
/-- No node is reachable from two stacks. -/
theorem Represents.not_reaches {state : State Stack Node} {contents : Contents Stack Node}
    (represents : Represents state contents) {stack other : Stack} (different : stack ≠ other)
    {node : Node} (reaches : Linked.Reaches state.hooks (state.stackAt stack).top node) :
    ¬Linked.Reaches state.hooks (state.stackAt other).top node := by
  intro reachesOther
  have inStack := (represents.holds stack).reaches_iff.mp reaches
  have inOther := (represents.holds other).reaches_iff.mp reachesOther
  exact represents.disjoint different inStack inOther

/-- An operation leaves what the other stacks hold. -/
theorem Represents.holds_elsewhere {state : State Stack Node} {contents : Contents Stack Node}
    (represents : Represents state contents) {operation : Operation Stack Node}
    (allowed : Allowed contents operation) {other : Stack} (elsewhere : ¬operation.On other) :
    ((family.step state operation).2.stackAt other).Holds (family.step state operation).2.hooks
      (contents other) := by
  have after := (family_refines_lists.represents represents allowed).holds other
  rwa [lists_step_of_not_on elsewhere] at after

/-- Stacks which share the hooks of their nodes do what lists do, if a node is pushed, and its hook
written, only while no stack holds it. -/
theorem stacks_refine_lists (hooks : Hooks Node) (operations : List (Operation Stack Node))
    (permitted : lists.Permits Allowed (fun _ => []) operations) :
    let ran := family.run (initial hooks) operations
    let expected := lists.run (fun _ => []) operations
    ran.1 = expected.1 ∧
      (∀ stack,
        (ran.2.stackAt stack).Holds ran.2.hooks (expected.2 stack) ∧ (expected.2 stack).Nodup ∧
        ((ran.2.stackAt stack).tryPop ran.2.hooks).1 = (expected.2 stack).head? ∧
        (((ran.2.stackAt stack).tryPop ran.2.hooks).1 = none ↔ expected.2 stack = []) ∧
        (ran.2.stackAt stack).top = (expected.2 stack).head? ∧
        ((ran.2.stackAt stack).empty = true ↔ expected.2 stack = [])) ∧
      (∀ stack other node, stack ≠ other →
        Linked.Reaches ran.2.hooks (ran.2.stackAt stack).top node →
        ¬Linked.Reaches ran.2.hooks (ran.2.stackAt other).top node) ∧
      ∀ operation other, Allowed expected.2 operation → ¬operation.On other →
        ((family.step ran.2 operation).2.stackAt other).Holds (family.step ran.2 operation).2.hooks
          (expected.2 other) := by
  intro ran expected
  have represents : Represents ran.2 expected.2 := run_represents hooks permitted
  refine ⟨?_, ?_, ?_, ?_⟩
  · exact family_refines_lists.run_results (initial_represents hooks) permitted
  · intro stack
    have holds := represents.holds stack
    have popped := holds.tryPop.1
    refine ⟨holds, holds.nodup, popped, ?_, holds.top_eq, holds.empty_iff⟩
    rw [popped]
    exact List.head?_eq_none_iff
  · intro stack other node different reaches
    exact represents.not_reaches different reaches
  · intro operation other allowed elsewhere
    exact represents.holds_elsewhere allowed elsewhere

/-- A node is pushed on a second stack after it has been popped from the first one. -/
theorem stacks_refine_lists_moved_node :
    let operations : List (Operation Bool ℕ) :=
      [.push true 1, .push true 2, .tryPop true, .overwrite 2 (some 1), .push false 2]
    lists.Permits Allowed (fun _ => []) operations ∧
      ((family.run (initial fun _ => none) operations).2.stackAt false).top = some 2 := by
  intro operations
  have permitted : lists.Permits Allowed (fun _ => []) operations := by
    simp [operations, Machine.Permits, Allowed, lists]
  have refined := stacks_refine_lists (fun _ => none) operations permitted
  exact ⟨permitted, (refined.2.1 false).2.2.2.2.1⟩

end StackFamily

end Urn
