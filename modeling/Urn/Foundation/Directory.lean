import Mathlib.Data.List.Perm.Basic
import Mathlib.Logic.Function.Basic
import Urn.Foundation.Execution

/-!
# Directories in which the first claim wins

Keys are claimed for values, and items which bear a key are delivered to the value
that holds the key.  The first claim of a key wins and the others have no effect.

* `mem_answers_iff`: what is delivered, in terms of the requests alone;
* `answers_filter`: requests about other keys make no difference;
* `answers_perm`: only the order of the requests about one key matters;
* `answered_of_steps`, `recorded_of_steps`: code serves a directory over whole
  executions if each of its steps does.
-/

namespace Directory

/-- What is asked of a directory. -/
inductive Request (Key Value Item : Type)
  | claim (key : Key) (value : Value)
  | deliver (item : Item)
deriving DecidableEq

/-- The holders of the keys. -/
abbrev Table (Key Value : Type) := Key → Option Value

variable {Key Value Item : Type} [DecidableEq Key] (keyOf : Item → Key)

def Request.key : Request Key Value Item → Key
  | claim key _ => key
  | deliver item => keyOf item

/-- The value for which the key is claimed. -/
def Request.claimOf (key : Key) : Request Key Value Item → Option Value
  | claim claimed value => if claimed = key then some value else none
  | deliver _ => none

def Request.item? : Request Key Value Item → Option Item
  | claim _ _ => none
  | deliver item => some item

namespace Table

def empty : Table Key Value := fun _ => none

def after (table : Table Key Value) : Request Key Value Item → Table Key Value
  | .claim key value =>
      if (table key).isSome then table else Function.update table key (some value)
  | .deliver _ => table

def afterAll (table : Table Key Value) (requests : List (Request Key Value Item)) :
    Table Key Value :=
  requests.foldl after table

/-- The item with the value to which it is delivered. -/
def answer (table : Table Key Value) : Request Key Value Item → Option (Value × Item)
  | .claim _ _ => none
  | .deliver item => (table (keyOf item)).map fun value => (value, item)

def answers (table : Table Key Value) : List (Request Key Value Item) → List (Value × Item)
  | [] => []
  | request :: requests =>
      (table.answer keyOf request).toList ++ (table.after request).answers requests

section Lemmas

variable {table left right : Table Key Value} {request : Request Key Value Item}
  {requests : List (Request Key Value Item)} {key : Key} {value : Value}

@[simp]
theorem afterAll_nil : table.afterAll ([] : List (Request Key Value Item)) = table := rfl

@[simp]
theorem afterAll_cons : table.afterAll (request :: requests) =
    (table.after request).afterAll requests := rfl

theorem afterAll_append (first second : List (Request Key Value Item)) :
    table.afterAll (first ++ second) = (table.afterAll first).afterAll second :=
  List.foldl_append

theorem answers_append (first second : List (Request Key Value Item)) :
    table.answers keyOf (first ++ second) =
      table.answers keyOf first ++ (table.afterAll first).answers keyOf second := by
  induction first generalizing table with
  | nil => rfl
  | cons request first ih =>
      simp only [List.cons_append, answers, afterAll_cons, ih, List.append_assoc]

theorem after_eq (table : Table Key Value) (request : Request Key Value Item) (key : Key) :
    table.after request key = (table key).or (request.claimOf key) := by
  cases request with
  | deliver item => simp [after, Request.claimOf]
  | claim claimed value =>
      by_cases same : claimed = key
      · subst same
        cases held : table claimed <;> simp [after, held, Request.claimOf]
      · have different : key ≠ claimed := Ne.symm same
        cases held : table claimed <;> simp [after, held, Request.claimOf, same, different]

/-! ## The first claim -/

/-- The holder of a key is the one it has had, or else its first claimant. -/
theorem afterAll_eq (table : Table Key Value) (requests : List (Request Key Value Item))
    (key : Key) :
    table.afterAll requests key =
      (table key).or (requests.findSome? (Request.claimOf key)) := by
  induction requests generalizing table with
  | nil => simp
  | cons request requests ih =>
      rw [afterAll_cons, ih, after_eq, Option.or_assoc, List.findSome?_cons]
      cases request.claimOf key <;> rfl

omit [DecidableEq Key] in
theorem mem_answer {request : Request Key Value Item} {item : Item} :
    (value, item) ∈ (table.answer keyOf request).toList ↔
      request = .deliver item ∧ table (keyOf item) = some value := by
  cases request with
  | claim claimed other => simp [answer]
  | deliver other =>
      simp only [answer, Option.mem_toList, Option.map_eq_some_iff, Request.deliver.injEq]
      constructor
      · rintro ⟨holder, held, pair_eq⟩
        rcases Prod.mk.inj pair_eq with ⟨rfl, rfl⟩
        exact ⟨rfl, held⟩
      · rintro ⟨rfl, held⟩
        exact ⟨value, held, rfl⟩

/-- An item is delivered to the first claimant of its key, if it comes after the claim. -/
theorem mem_answers_iff {item : Item} :
    (value, item) ∈ (empty : Table Key Value).answers keyOf requests ↔
      ∃ before rest, requests = before ++ .deliver item :: rest ∧
        before.findSome? (Request.claimOf (keyOf item)) = some value := by
  constructor
  · intro delivered
    induction requests using List.reverseRecOn with
    | nil => contradiction
    | append_singleton requests request ih =>
        rw [answers_append, List.mem_append] at delivered
        rcases delivered with earlier | last
        · rcases ih earlier with ⟨before, rest, rfl, claimed⟩
          exact ⟨before, rest ++ [request], by simp, claimed⟩
        · rw [answers, answers, List.append_nil, mem_answer, afterAll_eq] at last
          rcases last with ⟨rfl, claimed⟩
          exact ⟨requests, [], rfl, by simpa [empty] using claimed⟩
  · rintro ⟨before, rest, rfl, claimed⟩
    rw [answers_append, List.mem_append]
    right
    rw [answers, List.mem_append, mem_answer, afterAll_eq]
    left
    exact ⟨rfl, by simpa [empty] using claimed⟩

/-- Every item is delivered once at most, and in order. -/
theorem answers_sublist (table : Table Key Value) (requests : List (Request Key Value Item)) :
    ((table.answers keyOf requests).map Prod.snd).Sublist (requests.filterMap Request.item?) := by
  induction requests generalizing table with
  | nil => exact List.Sublist.slnil
  | cons request requests ih =>
      cases request with
      | claim claimed other => exact ih _
      | deliver item =>
          simp only [answers, List.map_append, List.filterMap_cons, Request.item?]
          cases held : table (keyOf item) with
          | none =>
              simp only [answer, held]
              exact (ih _).cons item
          | some holder =>
              simp only [answer, held]
              exact (ih _).cons_cons item

/-! ## Independence of the keys -/

theorem answers_filter (keep : Key → Bool)
    (agree : ∀ key, keep key = true → left key = right key)
    (requests : List (Request Key Value Item)) :
    left.answers keyOf (requests.filter fun request => keep (request.key keyOf)) =
      (right.answers keyOf requests).filter fun answer => keep (keyOf answer.2) := by
  induction requests generalizing left right with
  | nil => rfl
  | cons request requests ih =>
      rw [answers, List.filter_append]
      cases kept : keep (request.key keyOf) with
      | true =>
          have agreeAfter : ∀ key, keep key = true →
              left.after request key = right.after request key := by
            intro key isKept
            rw [after_eq, after_eq, agree key isKept]
          simp only [List.filter_cons, kept, if_true, answers, ih agreeAfter]
          congr 1
          cases request with
          | claim claimed other => rfl
          | deliver item =>
              have sameHolder := agree (keyOf item) kept
              cases held : right (keyOf item) with
              | none => simp [answer, sameHolder, held]
              | some holder =>
                  have kept : keep (keyOf item) = true := kept
                  simp [answer, sameHolder, held, kept]
      | false =>
          have agreeAfter : ∀ key, keep key = true → left key = right.after request key := by
            intro key isKept
            rw [after_eq, agree key isKept]
            cases request with
            | deliver item => simp [Request.claimOf]
            | claim claimed other =>
                have different : claimed ≠ key := by
                  rintro rfl
                  exact absurd isKept (by simpa [Request.key] using kept)
                simp [Request.claimOf, different]
          simp only [List.filter_cons, kept, Bool.false_eq_true, if_false, ih agreeAfter]
          cases request with
          | claim claimed other => rfl
          | deliver item =>
              have dropped : keep (keyOf item) = false := kept
              cases held : right (keyOf item) <;> simp [answer, held, dropped]

/-- The requests about the key. -/
def about (key : Key) (requests : List (Request Key Value Item)) :
    List (Request Key Value Item) :=
  requests.filter fun request => decide (request.key keyOf = key)

/-- What is delivered for a key depends only on the requests about it. -/
theorem answers_about (table : Table Key Value) (requests : List (Request Key Value Item))
    (key : Key) :
    table.answers keyOf (about keyOf key requests) =
      (table.answers keyOf requests).filter fun answer => decide (keyOf answer.2 = key) :=
  answers_filter keyOf (fun other => decide (other = key)) (fun _ _ => rfl) requests

/-- Requests about different keys can be made in any order. -/
theorem answers_perm {first second : List (Request Key Value Item)}
    (same : ∀ key, about keyOf key first = about keyOf key second) :
    (table.answers keyOf first).Perm (table.answers keyOf second) := by
  classical
  apply List.perm_iff_count.mpr
  intro answer
  have counted (requests : List (Request Key Value Item)) :
      (table.answers keyOf requests).count answer =
        (table.answers keyOf (about keyOf (keyOf answer.2) requests)).count answer := by
    rw [answers_about, List.count_filter]
    simp
  rw [counted first, counted second, same]

end Lemmas

end Table

/-! ## Code which serves a directory -/

section Executions

open Execution

variable {State Event Failure : Type} {step : State → Event → Except Failure State}
  {table : State → Table Key Value} {asked : State → Event → List (Request Key Value Item)}
  {delivered : State → Event → State → List (Value × Item)}

/-- A step answers the requests it is asked, by the table which the state stands for. -/
structure Answered (table : State → Table Key Value)
    (asked : State → Event → List (Request Key Value Item))
    (delivered : State → Event → State → List (Value × Item))
    (state : State) (event : Event) (next : State) : Prop where
  table_eq : table next = (table state).afterAll (asked state event)
  delivered_eq : delivered state event next = (table state).answers keyOf (asked state event)

theorem answered_of_steps {start final : State} {events : List Event}
    (each : ∀ before event rest state next, events = before ++ event :: rest →
      execute step start before = .ok state → step state event = .ok next →
        Answered keyOf table asked delivered state event next)
    (ran : execute step start events = .ok final) :
    table final =
        (table start).afterAll
          (observe step (fun state event _ => asked state event) start events) ∧
      observe step delivered start events = (table start).answers keyOf
        (observe step (fun state event _ => asked state event) start events) := by
  induction events using List.reverseRecOn generalizing final with
  | nil =>
      simp only [execute_nil, Except.ok.injEq] at ran
      subst ran
      exact ⟨rfl, rfl⟩
  | append_singleton events event ih =>
      rcases execute_snoc.mp ran with ⟨state, ranBefore, processed⟩
      have last := each events event [] state final rfl ranBefore processed
      have eachBefore : ∀ before other rest state next, events = before ++ other :: rest →
          execute step start before = .ok state → step state other = .ok next →
            Answered keyOf table asked delivered state other next := by
        intro before other rest state next events_eq
        apply each before other (rest ++ [event]) state next
        rw [events_eq, List.append_assoc, List.cons_append]
      have earlier := ih eachBefore ranBefore
      simp only [observe_snoc ranBefore processed, Table.afterAll_append, Table.answers_append,
        ← earlier.1, ← earlier.2, last.table_eq, last.delivered_eq, and_self]

/-- Code that records what it delivers serves the directory if each step adds to the record
what the directory answers. -/
theorem recorded_of_steps {start final : State} {record : State → List (Value × Item)}
    {events : List Event} {asks : Event → List (Request Key Value Item)}
    (each : ∀ before event state next, execute step start before = .ok state →
      step state event = .ok next →
        table next = (table state).afterAll (asks event) ∧
          record next = record state ++ (table state).answers keyOf (asks event))
    (ran : execute step start events = .ok final) :
    table final = (table start).afterAll (events.flatMap asks) ∧
      record final = record start ++ (table start).answers keyOf (events.flatMap asks) := by
  refine execute_invariant (fun events state =>
    table state = (table start).afterAll (events.flatMap asks) ∧
      record state = record start ++ (table start).answers keyOf (events.flatMap asks))
    ⟨rfl, (List.append_nil _).symm⟩ ?_ ran
  rintro before state event next ranBefore ⟨table_eq, record_eq⟩ processed
  rcases each before event state next ranBefore processed with ⟨table_next, record_next⟩
  rw [table_next, record_next, table_eq, record_eq, List.flatMap_append, List.flatMap_singleton,
    Table.afterAll_append, Table.answers_append, List.append_assoc]
  exact ⟨rfl, rfl⟩

end Executions

end Directory
