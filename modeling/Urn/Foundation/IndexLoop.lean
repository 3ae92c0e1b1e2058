import Mathlib.Data.List.Basic
import Mathlib.Tactic.Common

/-!
# Loops which advance their own index

`for (i = …; i < size; ++i)` over a list, where the body may read the element
after the current one and step over it.  `loop` keeps the index, `walk` goes
through the list itself, and `loop_eq_walk` says that they do the same.
-/

namespace IndexLoop

variable {State Item Failure : Type}

/-- What the body makes of the state, the current item and the item after it: the next
state, and whether the index has been advanced. -/
abbrev Body (State Item Failure : Type) :=
  State → Item → Option Item → Except Failure (State × Bool)

def loop (body : Body State Item Failure) (items : List Item) (i : ℕ) (state : State) :
    Except Failure State :=
  if h : i < items.length then
    match body state items[i] items[i + 1]? with
    | .error failure => .error failure
    | .ok (after, true) => loop body items (i + 2) after
    | .ok (after, false) => loop body items (i + 1) after
  else
    .ok state
termination_by items.length - i

/-- The flag tells that the first item has been stepped over. -/
def walk (body : Body State Item Failure) : Bool → List Item → State → Except Failure State
  | _, [], state => .ok state
  | true, _ :: items, state => walk body false items state
  | false, item :: items, state =>
      match body state item items.head? with
      | .error failure => .error failure
      | .ok (after, taken) => walk body taken items after

variable {body : Body State Item Failure}

@[simp]
theorem walk_nil (taken : Bool) (state : State) : walk body taken [] state = .ok state := by
  cases taken <;> rfl

theorem walk_skip (items : List Item) (state : State) :
    walk body true items state = walk body false items.tail state := by
  cases items with
  | nil => simp
  | cons item items => rfl

theorem loop_eq_walk (items : List Item) (i : ℕ) (state : State) :
    loop body items i state = walk body false (items.drop i) state := by
  induction i, state using loop.induct body items with
  | case1 i state inside failure failed =>
      rw [loop, dif_pos inside, List.drop_eq_getElem_cons inside, walk, List.head?_drop]
      simp only [failed]
  | case2 i state inside after continued ih =>
      rw [loop, dif_pos inside, List.drop_eq_getElem_cons inside, walk, List.head?_drop]
      simp only [continued, ih]
      rw [walk_skip, List.tail_drop]
  | case3 i state inside after continued ih =>
      rw [loop, dif_pos inside, List.drop_eq_getElem_cons inside, walk, List.head?_drop]
      simp only [continued, ih]
  | case4 i state outside =>
      rw [loop, dif_neg outside, List.drop_eq_nil_of_le (Nat.le_of_not_lt outside), walk_nil]

end IndexLoop
