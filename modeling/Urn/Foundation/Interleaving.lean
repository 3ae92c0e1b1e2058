import Mathlib.Algebra.BigOperators.Group.Finset.Piecewise
import Mathlib.Data.Fintype.Basic
import Mathlib.Tactic.Abel
import Urn.Foundation.Program

/-!
# Interleaved programs

A `Machine` runs the bodies of calls on several threads over one shared state.
Every step of a run starts a call on an idle thread, performs one operation of a
running body, or ends a call.  A run is described by its trace, the list of the
labels of its steps in order.

Five rules are derived once for all machines:

* `Run.invariant`: what every step preserves holds after every run;
* `Run.of_running`: what the bodies satisfy and every operation preserves holds of
  whatever a thread has still to do;
* `Run.completes_of_returned`: the operations which a thread performs between
  the start and the end of a call are a complete execution of the body;
* `Run.accounted`: whenever no call is in progress, what has been gained is what the
  calls were due;
* `Run.conserved`: a quantity to which every body gives back what the start of its call
  has taken is unchanged whenever no call is in progress.
-/

namespace Atomic

/-- A shared state with the calls that threads make on it. -/
structure Machine (Thread Call : Type) {Op : Type} (Res : Op → Type)
    (Outcome Shared : Type) where
  /-- The code of a call. -/
  body : Call → Program Res Outcome
  /-- The environment may start the call, which changes the shared state as given. -/
  invoke : Thread → Call → Shared → Shared → Prop
  /-- One operation, its result and its effect. -/
  execute : Thread → (op : Op) → Shared → Res op → Shared → Prop

/-- What one step of a run did. -/
inductive Label (Thread Call : Type) {Op : Type} (Res : Op → Type) (Outcome : Type) where
  | invoked (thread : Thread) (call : Call)
  | performed (thread : Thread) (call : Call) (step : Program.Performed Res)
  | returned (thread : Thread) (call : Call) (outcome : Outcome)

/-- A shared state together with the rest of the call each thread is in. -/
structure Config (Thread Call : Type) {Op : Type} (Res : Op → Type)
    (Outcome Shared : Type) where
  shared : Shared
  running : Thread → Option (Call × Program Res Outcome)

variable {Thread Call Op Outcome Shared : Type} {Res : Op → Type}

namespace Label

/-- The label starts or ends a call of the thread. -/
def IsBoundary (thread : Thread) : Label Thread Call Res Outcome → Prop
  | .invoked performer _ => performer = thread
  | .performed _ _ _ => False
  | .returned performer _ _ => performer = thread

@[simp]
theorem isBoundary_invoked (thread performer : Thread) (call : Call) :
    (.invoked performer call : Label Thread Call Res Outcome).IsBoundary thread ↔
      performer = thread := Iff.rfl

@[simp]
theorem isBoundary_performed (thread performer : Thread) (call : Call)
    (step : Program.Performed Res) :
    (.performed performer call step : Label Thread Call Res Outcome).IsBoundary thread ↔
      False := Iff.rfl

@[simp]
theorem isBoundary_returned (thread performer : Thread) (call : Call) (outcome : Outcome) :
    (.returned performer call outcome : Label Thread Call Res Outcome).IsBoundary thread ↔
      performer = thread := Iff.rfl

/-- No call of the thread starts or ends in a piece of a trace. -/
def Quiet (thread : Thread) (labels : List (Label Thread Call Res Outcome)) : Prop :=
  ∀ label ∈ labels, ¬label.IsBoundary thread

theorem quiet_append_singleton {thread : Thread} {labels : List (Label Thread Call Res Outcome)}
    {label : Label Thread Call Res Outcome} (quiet : Quiet thread labels)
    (inner : ¬label.IsBoundary thread) : Quiet thread (labels ++ [label]) := by
  intro other other_mem
  rcases List.mem_append.mp other_mem with old | new
  · exact quiet other old
  · rw [List.mem_singleton] at new
    exact new ▸ inner

theorem last_boundary_unique {thread : Thread}
    {before before' since since' : List (Label Thread Call Res Outcome)}
    {label label' : Label Thread Call Res Outcome}
    (same : before ++ label :: since = before' ++ label' :: since')
    (boundary : label.IsBoundary thread) (boundary' : label'.IsBoundary thread)
    (quiet : Quiet thread since) (quiet' : Quiet thread since') :
    before = before' ∧ label = label' ∧ since = since' := by
  rcases List.append_eq_append_iff.mp same with ⟨gap, left, right⟩ | ⟨gap, left, right⟩
  · rcases gap with _ | ⟨first, gap⟩
    · simp only [List.nil_append, List.cons.injEq] at right
      exact ⟨by simpa using left.symm, right.1, right.2⟩
    · simp only [List.cons_append, List.cons.injEq] at right
      exact absurd boundary' (quiet label' (by simp [right.2]))
  · rcases gap with _ | ⟨first, gap⟩
    · simp only [List.nil_append, List.cons.injEq] at right
      exact ⟨by simpa using left, right.1.symm, right.2.symm⟩
    · simp only [List.cons_append, List.cons.injEq] at right
      exact absurd boundary (quiet' label (by simp [right.2]))

section Amounts

variable {Amount : Type} [Zero Amount]

/-- What the start of a call or an operation gains. -/
def gained (starts : Call → Amount) (gain : (op : Op) → Res op → Amount) :
    Label Thread Call Res Outcome → Amount
  | .invoked _ call => starts call
  | .performed _ _ step => gain step.1 step.2
  | .returned _ _ _ => 0

/-- What a call is due when it ends. -/
def owed (due : Call → Outcome → Amount) : Label Thread Call Res Outcome → Amount
  | .invoked _ _ => 0
  | .performed _ _ _ => 0
  | .returned _ call outcome => due call outcome

end Amounts

variable [DecidableEq Thread]

/-- The operation a label records, when it is one of the given thread. -/
def stepOf (thread : Thread) : Label Thread Call Res Outcome → Option (Program.Performed Res)
  | .performed performer _ step => if performer = thread then some step else none
  | .invoked _ _ => none
  | .returned _ _ _ => none

/-- The operations of one thread in a piece of a trace. -/
def stepsOf (thread : Thread) (labels : List (Label Thread Call Res Outcome)) :
    List (Program.Performed Res) :=
  labels.filterMap (stepOf thread)

@[simp]
theorem stepsOf_append (thread : Thread) (left right : List (Label Thread Call Res Outcome)) :
    stepsOf thread (left ++ right) = stepsOf thread left ++ stepsOf thread right :=
  List.filterMap_append

@[simp]
theorem stepsOf_nil (thread : Thread) :
    stepsOf thread ([] : List (Label Thread Call Res Outcome)) = [] := rfl

@[simp]
theorem stepsOf_performed_self (thread : Thread) (call : Call) (step : Program.Performed Res) :
    stepsOf thread ([.performed thread call step] : List (Label Thread Call Res Outcome)) =
      [step] := by
  simp [stepsOf, stepOf]

theorem stepsOf_performed_other {thread performer : Thread} (different : performer ≠ thread)
    (call : Call) (step : Program.Performed Res) :
    stepsOf thread ([.performed performer call step] : List (Label Thread Call Res Outcome)) =
      [] := by
  simp [stepsOf, stepOf, different]

@[simp]
theorem stepsOf_invoked (thread performer : Thread) (call : Call) :
    stepsOf thread ([.invoked performer call] : List (Label Thread Call Res Outcome)) = [] := rfl

@[simp]
theorem stepsOf_returned (thread performer : Thread) (call : Call) (outcome : Outcome) :
    stepsOf thread ([.returned performer call outcome] : List (Label Thread Call Res Outcome)) =
      [] := rfl

theorem mem_stepsOf {thread : Thread} {labels : List (Label Thread Call Res Outcome)}
    {step : Program.Performed Res} :
    step ∈ stepsOf thread labels ↔ ∃ call, .performed thread call step ∈ labels := by
  simp only [stepsOf, List.mem_filterMap]
  constructor
  · rintro ⟨label, label_mem, step_eq⟩
    cases label with
    | performed performer call performed =>
        simp only [stepOf, Option.ite_none_right_eq_some, Option.some.injEq] at step_eq
        rcases step_eq with ⟨rfl, rfl⟩
        exact ⟨call, label_mem⟩
    | invoked performer call => simp [stepOf] at step_eq
    | returned performer call outcome => simp [stepOf] at step_eq
  · rintro ⟨call, performed_mem⟩
    exact ⟨_, performed_mem, by simp [stepOf]⟩

theorem exists_split_of_stepsOf {thread : Thread}
    {labels : List (Label Thread Call Res Outcome)}
    {left right : List (Program.Performed Res)} {step : Program.Performed Res}
    (steps : stepsOf thread labels = left ++ step :: right) :
    ∃ earlier call later, labels = earlier ++ .performed thread call step :: later ∧
      stepsOf thread earlier = left ∧ stepsOf thread later = right := by
  rcases List.filterMap_eq_append_iff.mp steps with ⟨earlier, rest, rfl, earlier_eq, rest_eq⟩
  rcases List.filterMap_eq_cons_iff.mp rest_eq with
    ⟨skipped, label, later, rfl, nothing, step_eq, later_eq⟩
  cases label with
  | performed performer call performed =>
      simp only [stepOf, Option.ite_none_right_eq_some, Option.some.injEq] at step_eq
      rcases step_eq with ⟨rfl, rfl⟩
      refine ⟨earlier ++ skipped, call, later, by simp, ?_, later_eq⟩
      have skipped_eq : skipped.filterMap (stepOf performer) = [] :=
        List.filterMap_eq_nil_iff.mpr nothing
      rw [stepsOf_append, stepsOf, stepsOf, earlier_eq, skipped_eq, List.append_nil]
  | invoked performer call => simp [stepOf] at step_eq
  | returned performer call outcome => simp [stepOf] at step_eq

end Label

namespace Config

variable [DecidableEq Thread]

/-- The configuration in which one thread has moved on and the shared state is
`shared`. -/
def resume (config : Config Thread Call Res Outcome Shared) (thread : Thread) (shared : Shared)
    (rest : Option (Call × Program Res Outcome)) : Config Thread Call Res Outcome Shared where
  shared := shared
  running := Function.update config.running thread rest

@[simp]
theorem resume_shared (config : Config Thread Call Res Outcome Shared) (thread : Thread)
    (shared : Shared) (rest : Option (Call × Program Res Outcome)) :
    (config.resume thread shared rest).shared = shared := rfl

@[simp]
theorem resume_running_self (config : Config Thread Call Res Outcome Shared) (thread : Thread)
    (shared : Shared) (rest : Option (Call × Program Res Outcome)) :
    (config.resume thread shared rest).running thread = rest := by
  simp [resume]

theorem resume_running_other (config : Config Thread Call Res Outcome Shared)
    {thread other : Thread} (different : other ≠ thread) (shared : Shared)
    (rest : Option (Call × Program Res Outcome)) :
    (config.resume thread shared rest).running other = config.running other := by
  simp [resume, different]

end Config

namespace Machine

variable [DecidableEq Thread] (machine : Machine Thread Call Res Outcome Shared)

/-- One step of one thread. -/
inductive Step : Config Thread Call Res Outcome Shared → Label Thread Call Res Outcome →
    Config Thread Call Res Outcome Shared → Prop where
  | invoke {config : Config Thread Call Res Outcome Shared} {thread : Thread} {call : Call}
      {after : Shared} (idle : config.running thread = none)
      (allowed : machine.invoke thread call config.shared after) :
      Step config (.invoked thread call)
        (config.resume thread after (some (call, machine.body call)))
  | perform {config : Config Thread Call Res Outcome Shared} {thread : Thread} {call : Call}
      {op : Op} {next : Res op → Program Res Outcome} {result : Res op} {after : Shared}
      (active : config.running thread = some (call, .perform op next))
      (effect : machine.execute thread op config.shared result after) :
      Step config (.performed thread call ⟨op, result⟩)
        (config.resume thread after (some (call, next result)))
  | finish {config : Config Thread Call Res Outcome Shared} {thread : Thread} {call : Call}
      {outcome : Outcome} (ended : config.running thread = some (call, .done outcome)) :
      Step config (.returned thread call outcome)
        (config.resume thread config.shared none)

/-- The runs from a shared state in which no thread is in a call. -/
inductive Run (initial : Shared) : List (Label Thread Call Res Outcome) →
    Config Thread Call Res Outcome Shared → Prop where
  | start : Run initial [] ⟨initial, fun _ => none⟩
  | step {trace : List (Label Thread Call Res Outcome)}
      {config after : Config Thread Call Res Outcome Shared}
      {label : Label Thread Call Res Outcome}
      (run : Run initial trace config) (next : machine.Step config label after) :
      Run initial (trace ++ [label]) after

namespace Run

variable {machine} {initial : Shared} {trace : List (Label Thread Call Res Outcome)}
  {config : Config Thread Call Res Outcome Shared}

theorem invoked (run : machine.Run initial trace config) (thread : Thread) (call : Call)
    (after : Shared) (idle : config.running thread = none)
    (allowed : machine.invoke thread call config.shared after) :
    machine.Run initial (trace ++ [.invoked thread call])
      (config.resume thread after (some (call, machine.body call))) :=
  .step run (.invoke idle allowed)

theorem performed (run : machine.Run initial trace config) (thread : Thread) {call : Call} {op : Op}
    {next : Res op → Program Res Outcome} (result : Res op) (after : Shared)
    (active : config.running thread = some (call, .perform op next))
    (effect : machine.execute thread op config.shared result after) :
    machine.Run initial (trace ++ [.performed thread call ⟨op, result⟩])
      (config.resume thread after (some (call, next result))) :=
  .step run (.perform active effect)

theorem returned (run : machine.Run initial trace config) (thread : Thread) {call : Call}
    {outcome : Outcome} (ended : config.running thread = some (call, .done outcome)) :
    machine.Run initial (trace ++ [.returned thread call outcome])
      (config.resume thread config.shared none) :=
  .step run (.finish ended)

theorem invariant
    (Inv : List (Label Thread Call Res Outcome) → Config Thread Call Res Outcome Shared → Prop)
    (holdsInitially : Inv [] ⟨initial, fun _ => none⟩)
    (preserved : ∀ {trace config label after}, machine.Run initial trace config →
      Inv trace config → machine.Step config label after → Inv (trace ++ [label]) after)
    (run : machine.Run initial trace config) : Inv trace config := by
  induction run with
  | start => exact holdsInitially
  | step run next ih => exact preserved run ih next

/-- Every label of a trace is the label of a step from a configuration that the
labels before it lead to. -/
theorem split {before after : List (Label Thread Call Res Outcome)}
    {label : Label Thread Call Res Outcome}
    (run : machine.Run initial (before ++ label :: after) config) :
    ∃ source target, machine.Run initial before source ∧ machine.Step source label target := by
  generalize trace_eq : before ++ label :: after = trace at run
  induction run generalizing after with
  | start => simp at trace_eq
  | step run next ih =>
      rcases List.eq_nil_or_concat after with rfl | ⟨shorter, last, rfl⟩
      · rcases List.append_inj' trace_eq rfl with ⟨rfl, label_eq⟩
        simp only [List.cons.injEq, and_true] at label_eq
        subst label_eq
        exact ⟨_, _, run, next⟩
      · rw [List.concat_eq_append, ← List.cons_append, ← List.append_assoc] at trace_eq
        exact ih (List.append_inj' trace_eq rfl).1

/-- A running call started in the past, and what it has performed since leads
from its body to its rest. -/
theorem executes_of_running (run : machine.Run initial trace config) {thread : Thread}
    {call : Call} {rest : Program Res Outcome}
    (active : config.running thread = some (call, rest)) :
    ∃ before since, trace = before ++ .invoked thread call :: since ∧ Label.Quiet thread since ∧
      (machine.body call).Executes (Label.stepsOf thread since) rest := by
  induction run generalizing thread call rest with
  | start => simp at active
  | @step trace config after label run next ih =>
      cases next with
      | @invoke invoker started _ idle allowed =>
          rcases eq_or_ne thread invoker with rfl | different
          · simp only [Config.resume_running_self, Option.some.injEq, Prod.mk.injEq] at active
            rcases active with ⟨rfl, rfl⟩
            exact ⟨trace, [], rfl, by simp [Label.Quiet], .refl _⟩
          · rw [Config.resume_running_other _ different] at active
            rcases ih active with ⟨before, since, rfl, quiet, executes⟩
            refine ⟨before, since ++ [.invoked invoker started], by simp,
              Label.quiet_append_singleton quiet (by simpa using different.symm),
              by simpa using executes⟩
      | @perform performer performed op rest' result _ running effect =>
          rcases eq_or_ne thread performer with rfl | different
          · simp only [Config.resume_running_self, Option.some.injEq, Prod.mk.injEq] at active
            rcases active with ⟨rfl, rfl⟩
            rcases ih running with ⟨before, since, rfl, quiet, executes⟩
            refine ⟨before, since ++ [.performed thread performed ⟨op, result⟩], by simp,
              Label.quiet_append_singleton quiet (by simp), ?_⟩
            simpa using executes.snoc result
          · rw [Config.resume_running_other _ different] at active
            rcases ih active with ⟨before, since, rfl, quiet, executes⟩
            refine ⟨before, since ++ [.performed performer performed ⟨op, result⟩], by simp,
              Label.quiet_append_singleton quiet (by simp), ?_⟩
            simpa [Label.stepsOf_performed_other different.symm] using executes
      | @finish finisher finished outcome ended =>
          rcases eq_or_ne thread finisher with rfl | different
          · simp at active
          · rw [Config.resume_running_other _ different] at active
            rcases ih active with ⟨before, since, rfl, quiet, executes⟩
            refine ⟨before, since ++ [.returned finisher finished outcome], by simp,
              Label.quiet_append_singleton quiet (by simpa using different.symm),
              by simpa using executes⟩

/-- What the bodies satisfy, and what goes on with every operation, is satisfied by
whatever a thread has still to do. -/
theorem of_running (Rest : Call → Program Res Outcome → Prop)
    (body : ∀ call, Rest call (machine.body call))
    (goesOn : ∀ {thread call op next result shared after}, Rest call (.perform op next) →
      machine.execute thread op shared result after → Rest call (next result))
    (run : machine.Run initial trace config) {thread : Thread} {call : Call}
    {rest : Program Res Outcome} (active : config.running thread = some (call, rest)) :
    Rest call rest := by
  refine run.invariant (fun _ config => ∀ thread call rest,
    config.running thread = some (call, rest) → Rest call rest) (by simp) ?_ thread call rest active
  intro trace config label after _ holds step thread call rest active
  cases step with
  | @invoke invoker _ _ _ _ =>
      rcases eq_or_ne thread invoker with rfl | different
      · simp only [Config.resume_running_self, Option.some.injEq, Prod.mk.injEq] at active
        rcases active with ⟨rfl, rfl⟩
        exact body _
      · rw [Config.resume_running_other _ different] at active
        exact holds thread call rest active
  | @perform performer _ _ _ _ _ running effect =>
      rcases eq_or_ne thread performer with rfl | different
      · simp only [Config.resume_running_self, Option.some.injEq, Prod.mk.injEq] at active
        rcases active with ⟨rfl, rfl⟩
        exact goesOn (holds thread _ _ running) effect
      · rw [Config.resume_running_other _ different] at active
        exact holds thread call rest active
  | @finish finisher _ _ _ =>
      rcases eq_or_ne thread finisher with rfl | different
      · simp at active
      · rw [Config.resume_running_other _ different] at active
        exact holds thread call rest active

/-- What a thread performs from the start to the end of a call is a complete
execution of the body of that call. -/
theorem completes_of_returned {before since after : List (Label Thread Call Res Outcome)}
    {thread : Thread} {call ended : Call} {outcome : Outcome}
    (run : machine.Run initial
      (before ++ .invoked thread call :: (since ++ .returned thread ended outcome :: after)) config)
    (quiet : Label.Quiet thread since) :
    ended = call ∧ (machine.body call).Completes (Label.stepsOf thread since) outcome := by
  rw [← List.cons_append, ← List.append_assoc] at run
  rcases run.split with ⟨source, target, reached, last⟩
  cases last with
  | finish atEnd =>
      rcases reached.executes_of_running atEnd with ⟨before', since', same, quiet', executes⟩
      rcases Label.last_boundary_unique same
        (rfl : Label.IsBoundary thread (.invoked thread call)) rfl quiet quiet' with
        ⟨-, label_eq, rfl⟩
      simp only [Label.invoked.injEq, true_and] at label_eq
      subst label_eq
      exact ⟨rfl, executes.completes⟩

/-- An operation in a trace is performed by the body of the call it is recorded
under, after the operations which that call performed before. -/
theorem executes_of_performed {before after : List (Label Thread Call Res Outcome)}
    {thread : Thread} {call : Call} {step : Program.Performed Res}
    (run : machine.Run initial (before ++ .performed thread call step :: after) config) :
    ∃ earlier since next, before = earlier ++ .invoked thread call :: since ∧
      Label.Quiet thread since ∧
      (machine.body call).Executes (Label.stepsOf thread since) (.perform step.1 next) := by
  rcases run.split with ⟨source, target, reached, last⟩
  cases last with
  | perform active effect =>
      rcases reached.executes_of_running active with ⟨earlier, since, rfl, quiet, executes⟩
      exact ⟨earlier, since, _, rfl, quiet, executes⟩

theorem call_of_performed {before since after : List (Label Thread Call Res Outcome)}
    {thread : Thread} {call recorded : Call} {step : Program.Performed Res}
    (run : machine.Run initial
      (before ++ .invoked thread call :: (since ++ .performed thread recorded step :: after))
      config)
    (quiet : Label.Quiet thread since) : recorded = call := by
  rw [← List.cons_append, ← List.append_assoc] at run
  rcases run.executes_of_performed with ⟨earlier, since', rest, same, quiet', -⟩
  have label_eq := (Label.last_boundary_unique same
    (rfl : Label.IsBoundary thread (.invoked thread call)) rfl quiet quiet').2.1
  simp only [Label.invoked.injEq, true_and] at label_eq
  exact label_eq.symm

end Run

namespace Run

section Conservation

variable {machine} [Fintype Thread] {initial : Shared}
  {trace : List (Label Thread Call Res Outcome)}
  {config : Config Thread Call Res Outcome Shared} {Amount : Type} [AddCommGroup Amount]
  {starts : Call → Amount} {gain : (op : Op) → Res op → Amount} {due : Call → Outcome → Amount}

/-- What the threads have gained in the calls they are in. -/
structure Gains (gain : (op : Op) → Res op → Amount) (due : Call → Outcome → Amount)
    (config : Config Thread Call Res Outcome Shared) (gained : Thread → Amount) : Prop where
  idle : ∀ thread, config.running thread = none → gained thread = 0
  active : ∀ thread call rest, config.running thread = some (call, rest) →
    rest.Yields gain (due call) (gained thread)

omit [Fintype Thread] in
theorem Gains.move {gained : Thread → Amount} (gains : Gains gain due config gained)
    (thread : Thread) (shared : Shared) (rest : Option (Call × Program Res Outcome))
    {new : Amount} (idle : rest = none → new = 0)
    (active : ∀ call left, rest = some (call, left) → left.Yields gain (due call) new) :
    Gains gain due (config.resume thread shared rest) (Function.update gained thread new) := by
  constructor
  · intro other otherIdle
    rcases eq_or_ne other thread with rfl | different
    · simpa using idle (by simpa using otherIdle)
    · rw [Config.resume_running_other _ different] at otherIdle
      rw [Function.update_of_ne different]
      exact gains.idle other otherIdle
  · intro other call left otherActive
    rcases eq_or_ne other thread with rfl | different
    · simpa using active call left (by simpa using otherActive)
    · rw [Config.resume_running_other _ different] at otherActive
      rw [Function.update_of_ne different]
      exact gains.active other call left otherActive

theorem sum_update_gained (gained : Thread → Amount) (thread : Thread) (new : Amount) :
    ∑ other, Function.update gained thread new other =
      ∑ other, gained other - gained thread + new := by
  rw [Finset.sum_update_of_mem (Finset.mem_univ thread),
    ← Finset.add_sum_erase _ gained (Finset.mem_univ thread), Finset.sdiff_singleton_eq_erase]
  abel

theorem gains_of_run (yields : ∀ call, (machine.body call).Yields gain (due call) (starts call))
    (run : machine.Run initial trace config) :
    ∃ gained : Thread → Amount, Gains gain due config gained ∧
      (trace.map (Label.gained starts gain)).sum =
        (trace.map (Label.owed due)).sum + ∑ thread, gained thread := by
  induction run with
  | start => exact ⟨fun _ => 0, ⟨by simp, by simp⟩, by simp⟩
  | @step trace config after label run next ih =>
      rcases ih with ⟨gained, gains, total⟩
      simp only [List.map_append, List.sum_append, total, List.map_singleton, List.sum_singleton]
      cases next with
      | @invoke thread call after idle allowed =>
          have nothing := gains.idle thread idle
          refine ⟨Function.update gained thread (starts call),
            gains.move thread after _ (by simp) ?_, ?_⟩
          · rintro _ _ ⟨rfl, rfl⟩
            exact yields call
          · rw [sum_update_gained, nothing]
            simp only [Label.gained, Label.owed]
            abel
      | @perform thread call op next' result after active effect =>
          have left := gains.active thread call _ active
          refine ⟨Function.update gained thread (gained thread + gain op result),
            gains.move thread after _ (by simp) ?_, ?_⟩
          · rintro _ _ ⟨rfl, rfl⟩
            exact left result
          · rw [sum_update_gained]
            simp only [Label.gained, Label.owed]
            abel
      | @finish thread call outcome ended =>
          have paid : gained thread = due call outcome := gains.active thread call _ ended
          refine ⟨Function.update gained thread 0,
            gains.move thread config.shared _ (by simp) (by simp), ?_⟩
          rw [sum_update_gained, paid]
          simp only [Label.gained, Label.owed]
          abel

/-- Whenever no call is in progress, what has been gained is what the calls were due. -/
theorem accounted (yields : ∀ call, (machine.body call).Yields gain (due call) (starts call))
    (run : machine.Run initial trace config) (quiescent : ∀ thread, config.running thread = none) :
    (trace.map (Label.gained starts gain)).sum = (trace.map (Label.owed due)).sum := by
  rcases run.gains_of_run yields with ⟨gained, gains, total⟩
  have nothing : ∑ thread, gained thread = 0 :=
    Finset.sum_eq_zero fun thread _ => gains.idle thread (quiescent thread)
  rw [total, nothing, add_zero]

omit [Fintype Thread] in
/-- A quantity which every step changes by its gain. -/
theorem quantity_eq {quantity : Shared → Amount}
    (gains : ∀ {thread op shared result after}, machine.execute thread op shared result after →
      quantity after = quantity shared + gain op result)
    (charges : ∀ {thread call shared after}, machine.invoke thread call shared after →
      quantity after = quantity shared + starts call)
    (run : machine.Run initial trace config) :
    quantity config.shared = quantity initial + (trace.map (Label.gained starts gain)).sum := by
  induction run with
  | start => simp
  | @step trace config after label run next ih =>
      rw [List.map_append, List.sum_append, ← add_assoc, ← ih, List.map_singleton,
        List.sum_singleton]
      cases next with
      | invoke idle allowed => exact charges allowed
      | perform active effect => exact gains effect
      | finish ended => exact (add_zero _).symm

/-- A quantity to which the body of every call gives back what the start of the call has
taken is unchanged whenever no call is in progress. -/
theorem conserved {quantity : Shared → Amount}
    (gains : ∀ {thread op shared result after}, machine.execute thread op shared result after →
      quantity after = quantity shared + gain op result)
    (charges : ∀ {thread call shared after}, machine.invoke thread call shared after →
      quantity after = quantity shared + starts call)
    (balanced : ∀ call, (machine.body call).Yields gain (fun _ => 0) (starts call))
    (run : machine.Run initial trace config) (quiescent : ∀ thread, config.running thread = none) :
    quantity config.shared = quantity initial := by
  have settled : (trace.map (Label.owed fun (_ : Call) (_ : Outcome) => (0 : Amount))).sum = 0 := by
    apply List.sum_eq_zero
    intro amount amount_mem
    rcases List.mem_map.mp amount_mem with ⟨label, -, rfl⟩
    cases label <;> rfl
  rw [run.quantity_eq gains charges, run.accounted balanced quiescent, settled, add_zero]

end Conservation

end Run

end Machine

end Atomic
