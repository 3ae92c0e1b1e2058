import Mathlib.Algebra.BigOperators.Group.List.Basic
import Urn.Foundation.Directory

/-!
# Teams of workers

The workers of a team have a state of their own each, and share one.  An event
belongs to a worker, which processes it on its own state and the shared one.

* `Team.invariant`: what every worker preserves of its own state holds of all
  workers, whatever the others do;
* `Team.answered`: if every worker serves the directory that the shared state stands
  for, then so does the team, in whatever order the workers take turns.
-/

structure Team (Id Shared Own : Type) where
  shared : Shared
  own : Id → Own

namespace Team

open Execution Directory

variable {Id Shared Own Event Failure : Type} [DecidableEq Id]
  {turn : Id → Shared → Own → Event → Except Failure (Shared × Own)}

/-- The worker processes the event. -/
def step (turn : Id → Shared → Own → Event → Except Failure (Shared × Own))
    (team : Team Id Shared Own) (event : Id × Event) : Except Failure (Team Id Shared Own) :=
  match turn event.1 team.shared (team.own event.1) event.2 with
  | .error failure => .error failure
  | .ok (shared, own) => .ok ⟨shared, Function.update team.own event.1 own⟩

theorem step_eq_ok {team after : Team Id Shared Own} {event : Id × Event} :
    step turn team event = .ok after ↔
      ∃ shared own, turn event.1 team.shared (team.own event.1) event.2 = .ok (shared, own) ∧
        after = ⟨shared, Function.update team.own event.1 own⟩ := by
  cases taken : turn event.1 team.shared (team.own event.1) event.2 with
  | error failure => simp [step, taken]
  | ok result =>
      rcases result with ⟨shared, own⟩
      simp [step, taken, eq_comm]

/-- Whoever takes a turn changes only its own part of what the workers hold together. -/
theorem split_sum {Amount : Type} [AddCommMonoid Amount] {ids : List Id} {id : Id}
    (nodup : ids.Nodup) (id_mem : id ∈ ids) (own : Id → Own) (after : Own)
    (amount : Own → Amount) :
    ∃ rest, (ids.map fun other => amount (own other)).sum = amount (own id) + rest ∧
      (ids.map fun other => amount (Function.update own id after other)).sum =
        amount after + rest := by
  refine ⟨((ids.erase id).map fun other => amount (own other)).sum, ?_, ?_⟩
  · exact (List.sum_map_erase _ id_mem).symm
  · have others : (ids.erase id).map (fun other => amount (Function.update own id after other)) =
        (ids.erase id).map fun other => amount (own other) := by
      apply List.map_congr_left
      intro other other_mem
      have different : other ≠ id := (nodup.mem_erase_iff.mp other_mem).1
      rw [Function.update_of_ne different]
    rw [← List.sum_map_erase _ id_mem, others, Function.update_self]

section Invariants

variable {Inv : Id → Own → Prop} {Allowed : Event → Prop}

theorem invariant {start team : Team Id Shared Own} {events : List (Id × Event)}
    (initially : ∀ id, Inv id (start.own id))
    (preserved : ∀ {id shared own event shared' own'}, Inv id own → Allowed event →
      turn id shared own event = .ok (shared', own') → Inv id own')
    (allowed : ∀ event ∈ events, Allowed event.2)
    (ran : execute (step turn) start events = .ok team) (id : Id) : Inv id (team.own id) := by
  refine execute_invariant (fun events (team : Team Id Shared Own) =>
    (∀ event ∈ events, Allowed event.2) → ∀ id, Inv id (team.own id))
    (fun _ => initially) ?_ ran allowed id
  intro before team event after _ holds stepped allowed id
  have holds := holds fun earlier earlier_mem =>
    allowed earlier (List.mem_append_left _ earlier_mem)
  rcases step_eq_ok.mp stepped with ⟨shared, own, taken, rfl⟩
  by_cases same : id = event.1
  · subst same
    simpa using preserved (holds _) (allowed event (by simp)) taken
  · simpa [Function.update_of_ne same] using holds id

end Invariants

section Directories

variable {Key Value Item : Type} [DecidableEq Key]

/-- Every worker serves the directory, as long as its own state satisfies an invariant. -/
structure Serves (keyOf : Item → Key) (table : Shared → Table Key Value)
    (asked : Own → Event → List (Request Key Value Item))
    (delivered : Own → Event → Own → List (Value × Item)) (Inv : Id → Own → Prop)
    (Allowed : Event → Prop) (turn : Id → Shared → Own → Event → Except Failure (Shared × Own)) :
    Prop where
  preserved : ∀ {id shared own event shared' own'}, Inv id own → Allowed event →
    turn id shared own event = .ok (shared', own') → Inv id own'
  table_eq : ∀ {id shared own event shared' own'}, Inv id own → Allowed event →
    turn id shared own event = .ok (shared', own') →
      table shared' = (table shared).afterAll (asked own event)
  delivered_eq : ∀ {id shared own event shared' own'}, Inv id own → Allowed event →
    turn id shared own event = .ok (shared', own') →
      delivered own event own' = (table shared).answers keyOf (asked own event)

/-- What the team is asked, in order. -/
def requests (turn : Id → Shared → Own → Event → Except Failure (Shared × Own))
    (asked : Own → Event → List (Request Key Value Item)) (start : Team Id Shared Own)
    (events : List (Id × Event)) : List (Request Key Value Item) :=
  observe (step turn) (fun team event _ => asked (team.own event.1) event.2) start events

/-- What the team delivers, in order. -/
def deliveries (turn : Id → Shared → Own → Event → Except Failure (Shared × Own))
    (delivered : Own → Event → Own → List (Value × Item)) (start : Team Id Shared Own)
    (events : List (Id × Event)) : List (Value × Item) :=
  observe (step turn) (fun team event after =>
    delivered (team.own event.1) event.2 (after.own event.1)) start events

theorem answered {keyOf : Item → Key} {table : Shared → Table Key Value}
    {asked : Own → Event → List (Request Key Value Item)}
    {delivered : Own → Event → Own → List (Value × Item)} {Inv : Id → Own → Prop}
    {Allowed : Event → Prop} (serves : Serves keyOf table asked delivered Inv Allowed turn)
    {start team : Team Id Shared Own} {events : List (Id × Event)}
    (initially : ∀ id, Inv id (start.own id)) (allowed : ∀ event ∈ events, Allowed event.2)
    (ran : execute (step turn) start events = .ok team) :
    table team.shared = (table start.shared).afterAll (requests turn asked start events) ∧
      deliveries turn delivered start events =
        (table start.shared).answers keyOf (requests turn asked start events) := by
  apply answered_of_steps keyOf ?_ ran
  intro before event rest state next events_eq ranBefore stepped
  have holds := invariant initially serves.preserved
    (fun earlier earlier_mem => allowed earlier (by simp [events_eq, earlier_mem])) ranBefore
  have isAllowed := allowed event (by simp [events_eq])
  rcases step_eq_ok.mp stepped with ⟨shared, own, taken, rfl⟩
  constructor
  · exact serves.table_eq (holds _) isAllowed taken
  · simpa using serves.delivered_eq (holds _) isAllowed taken

end Directories

end Team
