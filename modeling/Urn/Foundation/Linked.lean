import Mathlib.Data.List.Nodup
import Mathlib.Logic.Function.Basic

/-!
# Linked nodes

A singly linked structure in a heap which stores one successor for every node.
`Visits next top nodes` says that following the successors from `top` ends, and
visits exactly the given nodes in the given order.
-/

namespace Linked

variable {Node : Type}

/-- Following `next` from `top` visits the nodes in order, and ends. -/
def Visits (next : Node → Option Node) : Option Node → List Node → Prop
  | top, [] => top = none
  | top, node :: rest => top = some node ∧ Visits next (next node) rest

@[simp]
theorem visits_nil {next : Node → Option Node} {top : Option Node} :
    Visits next top [] ↔ top = none := Iff.rfl

@[simp]
theorem visits_cons {next : Node → Option Node} {top : Option Node} {node : Node}
    {rest : List Node} :
    Visits next top (node :: rest) ↔ top = some node ∧ Visits next (next node) rest := Iff.rfl

/-- From one node there is one way to go. -/
theorem Visits.unique {next : Node → Option Node} {top : Option Node} {left right : List Node}
    (leftVisits : Visits next top left) (rightVisits : Visits next top right) : left = right := by
  induction left generalizing top right with
  | nil =>
      cases right with
      | nil => rfl
      | cons node right =>
          rw [visits_nil] at leftVisits
          rw [leftVisits] at rightVisits
          exact absurd rightVisits.1 (by simp)
  | cons node left ih =>
      cases right with
      | nil =>
          rw [visits_nil] at rightVisits
          rw [rightVisits] at leftVisits
          exact absurd leftVisits.1 (by simp)
      | cons other right =>
          have same : node = other := Option.some.inj (leftVisits.1.symm.trans rightVisits.1)
          subst same
          rw [ih leftVisits.2 rightVisits.2]

theorem Visits.suffix {next : Node → Option Node} {top : Option Node} {before after : List Node}
    {node : Node} (visits : Visits next top (before ++ node :: after)) :
    Visits next (some node) (node :: after) := by
  induction before generalizing top with
  | nil => exact ⟨rfl, visits.2⟩
  | cons first before ih => exact ih visits.2

/-- A visit which ends comes to no node twice. -/
theorem Visits.nodup {next : Node → Option Node} {top : Option Node} {nodes : List Node}
    (visits : Visits next top nodes) : nodes.Nodup := by
  induction nodes generalizing top with
  | nil => exact List.nodup_nil
  | cons node rest ih =>
      refine List.nodup_cons.mpr ⟨?_, ih visits.2⟩
      intro again
      rcases List.append_of_mem again with ⟨before, after, rfl⟩
      have here : Visits next (some node) (node :: (before ++ node :: after)) := ⟨rfl, visits.2⟩
      have there := Visits.suffix visits.2
      have same := congrArg List.length (here.unique there)
      simp at same
      omega

theorem visits_update_of_notMem [DecidableEq Node] {next : Node → Option Node}
    {top : Option Node} {nodes : List Node} {node : Node} (unvisited : node ∉ nodes)
    (successor : Option Node) :
    Visits (Function.update next node successor) top nodes ↔ Visits next top nodes := by
  induction nodes generalizing top with
  | nil => exact Iff.rfl
  | cons first rest ih =>
      rw [List.mem_cons, not_or] at unvisited
      rw [visits_cons, visits_cons, Function.update_of_ne (Ne.symm unvisited.1),
        ih unvisited.2]

theorem Visits.push [DecidableEq Node] {next : Node → Option Node} {top : Option Node}
    {nodes : List Node} {node : Node} (visits : Visits next top nodes)
    (unvisited : node ∉ nodes) :
    Visits (Function.update next node top) (some node) (node :: nodes) := by
  refine ⟨rfl, ?_⟩
  rw [Function.update_self, visits_update_of_notMem unvisited]
  exact visits

/-- The node is met when `next` is followed from `top`. -/
inductive Reaches (next : Node → Option Node) : Option Node → Node → Prop
  | here (node : Node) : Reaches next (some node) node
  | later {first node : Node} (rest : Reaches next (next first) node) :
      Reaches next (some first) node

theorem Visits.reaches_iff {next : Node → Option Node} {top : Option Node} {nodes : List Node}
    {node : Node} (visits : Visits next top nodes) : Reaches next top node ↔ node ∈ nodes := by
  induction nodes generalizing top with
  | nil =>
      have ended : top = none := visits
      subst ended
      constructor
      · intro reaches
        cases reaches
      · simp
  | cons first rest ih =>
      rcases visits with ⟨rfl, visits⟩
      constructor
      · intro reaches
        cases reaches with
        | here => exact List.mem_cons_self
        | later reaches => exact List.mem_cons_of_mem first ((ih visits).mp reaches)
      · intro node_mem
        rcases List.mem_cons.mp node_mem with rfl | node_mem
        · exact .here node
        · exact .later ((ih visits).mpr node_mem)

end Linked
