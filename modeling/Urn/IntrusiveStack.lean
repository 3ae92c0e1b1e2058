import Urn.Foundation.Linked

/-!
# Intrusive stack

`urn::intrusive_stack` of `urn/intrusive_stack.hpp`.  The stack itself is the
pointer `top_`; the hook of a node stands in the node, so the hooks of all nodes
are passed along.
-/

namespace Urn

/-- The member `Next` of every node. -/
abbrev Hooks (Node : Type) := Node → Option Node

structure IntrusiveStack (Node : Type) where
  top : Option Node
deriving DecidableEq

namespace IntrusiveStack

variable {Node : Type}

def initial : IntrusiveStack Node := ⟨none⟩

/-- `try_pop`: the node taken, and the stack without it. -/
def tryPop (stack : IntrusiveStack Node) (hooks : Hooks Node) :
    Option Node × IntrusiveStack Node :=
  match stack.top with
  | none => (none, stack)
  | some node => (some node, ⟨hooks node⟩)

def empty (stack : IntrusiveStack Node) : Bool := stack.top.isNone

/-- The stack holds the nodes, the latest first. -/
def Holds (stack : IntrusiveStack Node) (hooks : Hooks Node) (nodes : List Node) : Prop :=
  Linked.Visits hooks stack.top nodes

theorem initial_holds (hooks : Hooks Node) : (initial : IntrusiveStack Node).Holds hooks [] := rfl

theorem Holds.nodup {stack : IntrusiveStack Node} {hooks : Hooks Node} {nodes : List Node}
    (holds : stack.Holds hooks nodes) : nodes.Nodup :=
  Linked.Visits.nodup holds

theorem Holds.tryPop_nil {stack : IntrusiveStack Node} {hooks : Hooks Node}
    (holds : stack.Holds hooks []) : stack.tryPop hooks = (none, stack) := by
  have empty : stack.top = none := holds
  simp [tryPop, empty]

theorem Holds.tryPop_cons {stack : IntrusiveStack Node} {hooks : Hooks Node} {node : Node}
    {nodes : List Node} (holds : stack.Holds hooks (node :: nodes)) :
    stack.tryPop hooks = (some node, ⟨hooks node⟩) ∧
      (⟨hooks node⟩ : IntrusiveStack Node).Holds hooks nodes := by
  have top : stack.top = some node := holds.1
  exact ⟨by simp [tryPop, top], holds.2⟩

theorem Holds.top_eq {stack : IntrusiveStack Node} {hooks : Hooks Node} {nodes : List Node}
    (holds : stack.Holds hooks nodes) : stack.top = nodes.head? := by
  cases nodes with
  | nil => exact holds
  | cons node nodes => exact holds.1

theorem Holds.empty_iff {stack : IntrusiveStack Node} {hooks : Hooks Node} {nodes : List Node}
    (holds : stack.Holds hooks nodes) : stack.empty = true ↔ nodes = [] := by
  have top := holds.top_eq
  simp [empty, top]

theorem Holds.tryPop {stack : IntrusiveStack Node} {hooks : Hooks Node} {nodes : List Node}
    (holds : stack.Holds hooks nodes) :
    (stack.tryPop hooks).1 = nodes.head? ∧ (stack.tryPop hooks).2.Holds hooks nodes.tail := by
  cases nodes with
  | nil =>
      rw [holds.tryPop_nil]
      exact ⟨rfl, holds⟩
  | cons node nodes =>
      rw [holds.tryPop_cons.1]
      exact ⟨rfl, holds.tryPop_cons.2⟩

section Push

variable [DecidableEq Node]

def push (stack : IntrusiveStack Node) (hooks : Hooks Node) (node : Node) :
    IntrusiveStack Node × Hooks Node :=
  (⟨some node⟩, Function.update hooks node stack.top)

theorem Holds.push {stack : IntrusiveStack Node} {hooks : Hooks Node} {nodes : List Node}
    {node : Node} (holds : stack.Holds hooks nodes) (absent : node ∉ nodes) :
    (stack.push hooks node).1.Holds (stack.push hooks node).2 (node :: nodes) :=
  Linked.Visits.push holds absent

theorem Holds.update {stack : IntrusiveStack Node} {hooks : Hooks Node} {nodes : List Node}
    {node : Node} (holds : stack.Holds hooks nodes) (absent : node ∉ nodes)
    (hook : Option Node) : stack.Holds (Function.update hooks node hook) nodes :=
  (Linked.visits_update_of_notMem absent hook).mpr holds

end Push

end IntrusiveStack

end Urn
