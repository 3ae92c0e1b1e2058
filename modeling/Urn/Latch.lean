import Mathlib.Data.Fintype.Card
import Mathlib.Tactic.Common
import Urn.Foundation.Execution

/-!
# Countdown latch

`urn::countdown_latch` of `common/latch.h`, which `uring/relay.cpp` holds a copy of.
Each of the threads calls `wait()` once.  What a thread does between taking the
mutex and giving it back is one action; a blocked thread is woken by `notify_all`,
or without a reason at any time.
-/

namespace Urn

namespace Latch

/-- Where a thread is in its call of `wait()`. -/
inductive Phase
  | outside
  /-- Before the mutex is taken for the first time. -/
  | entering
  | blocked (gen : ℤ)
  /-- The condition variable has let the thread go, which needs the mutex again. -/
  | woken (gen : ℤ)
  | returned
deriving DecidableEq

namespace Phase

/-- The call has decremented `count`. -/
def arrived : Phase → Bool
  | outside | entering => false
  | blocked _ | woken _ | returned => true

def notified : Phase → Phase
  | blocked gen => woken gen
  | phase => phase

@[simp]
theorem notified_arrived (phase : Phase) : phase.notified.arrived = phase.arrived := by
  cases phase <;> rfl

end Phase

structure State (n : ℕ) where
  count : ℤ
  generation : ℤ
  phases : Fin n → Phase

variable {n : ℕ}

def initial (n : ℕ) : State n := ⟨n, 0, fun _ => .outside⟩

namespace State

def become (state : State n) (thread : Fin n) (phase : Phase) : State n :=
  { state with phases := Function.update state.phases thread phase }

def notifyAll (state : State n) : State n :=
  { state with phases := fun thread => (state.phases thread).notified }

/-- `cond.wait(lock, predicate)` where the mutex is held: the predicate is evaluated. -/
def condWait (state : State n) (thread : Fin n) (gen : ℤ) : State n :=
  if gen ≠ state.generation then
    state.become thread .returned
  else
    state.become thread (.blocked gen)

/-- `wait()` from taking the mutex to returning or blocking. -/
def wait (state : State n) (thread : Fin n) : State n :=
  let gen := state.generation
  let decremented := { state with count := state.count - 1 }
  if decremented.count = 0 then
    let advanced := { decremented with generation := decremented.generation + 1 }
    advanced.notifyAll.become thread .returned
  else
    decremented.condWait thread gen

end State

inductive Action (n : ℕ)
  | call (thread : Fin n)
  | enter (thread : Fin n)
  | spuriousWake (thread : Fin n)
  | resume (thread : Fin n)
deriving DecidableEq

inductive Refusal
  | disabled
deriving DecidableEq

def step (state : State n) : Action n → Except Refusal (State n)
  | .call thread =>
      match state.phases thread with
      | .outside => .ok (state.become thread .entering)
      | _ => .error .disabled
  | .enter thread =>
      match state.phases thread with
      | .entering => .ok (state.wait thread)
      | _ => .error .disabled
  | .spuriousWake thread =>
      match state.phases thread with
      | .blocked gen => .ok (state.become thread (.woken gen))
      | _ => .error .disabled
  | .resume thread =>
      match state.phases thread with
      | .woken gen => .ok (state.condWait thread gen)
      | _ => .error .disabled

def run (n : ℕ) (actions : List (Action n)) : Except Refusal (State n) :=
  Execution.execute step (initial n) actions

theorem step_call_iff {state after : State n} {thread : Fin n} :
    step state (.call thread) = .ok after ↔
      state.phases thread = .outside ∧ after = state.become thread .entering := by
  rw [step]
  cases state.phases thread <;> simp [eq_comm]

theorem step_enter_iff {state after : State n} {thread : Fin n} :
    step state (.enter thread) = .ok after ↔
      state.phases thread = .entering ∧ after = state.wait thread := by
  rw [step]
  cases state.phases thread <;> simp [eq_comm]

theorem step_spuriousWake_iff {state after : State n} {thread : Fin n} :
    step state (.spuriousWake thread) = .ok after ↔
      ∃ gen, state.phases thread = .blocked gen ∧ after = state.become thread (.woken gen) := by
  rw [step]
  cases state.phases thread <;> simp [eq_comm]

theorem step_resume_iff {state after : State n} {thread : Fin n} :
    step state (.resume thread) = .ok after ↔
      ∃ gen, state.phases thread = .woken gen ∧ after = state.condWait thread gen := by
  rw [step]
  cases state.phases thread <;> simp [eq_comm]

/-! ## What every state keeps -/

/-- The threads whose call has not decremented `count`. -/
def State.pending (state : State n) : Finset (Fin n) :=
  Finset.univ.filter fun thread => (state.phases thread).arrived = false

theorem State.mem_pending {state : State n} {thread : Fin n} :
    thread ∈ state.pending ↔ (state.phases thread).arrived = false := by
  simp [pending]

/-- The phases in which a thread can be, before and after the last call has decremented `count`. -/
def Phase.Fits (complete : Prop) : Phase → Prop
  | outside | entering => True
  | blocked gen => gen = 0 ∧ ¬complete
  | woken gen => gen = 0
  | returned => complete

structure Consistent (actions : List (Action n)) (state : State n) : Prop where
  count_eq : state.count = state.pending.card
  generation_eq : state.generation = if state.count = 0 then 1 else 0
  fits : ∀ thread, (state.phases thread).Fits (state.count = 0)
  entered : ∀ thread, (state.phases thread).arrived = true ↔ .enter thread ∈ actions

theorem initial_consistent (positive : 0 < n) : Consistent [] (initial n) where
  count_eq := by simp [State.pending, initial, Phase.arrived]
  generation_eq := by
    have started : n ≠ 0 := by omega
    simp [initial, started]
  fits := fun _ => trivial
  entered := by simp [initial, Phase.arrived]

section Become

variable {state : State n} {thread : Fin n} {phase : Phase}

theorem State.pending_become (same : phase.arrived = (state.phases thread).arrived) :
    (state.become thread phase).pending = state.pending := by
  ext other
  rw [mem_pending, mem_pending]
  by_cases isThread : other = thread
  · subst isThread
    simp [become, same]
  · simp [become, isThread]

/-- A thread moves on, and its call has decremented `count` before and after or not at all. -/
theorem Consistent.become {actions : List (Action n)} {action : Action n}
    (consistent : Consistent actions state) (other : ∀ thread, action ≠ .enter thread)
    (same : phase.arrived = (state.phases thread).arrived)
    (fits : phase.Fits (state.count = 0)) :
    Consistent (actions ++ [action]) (state.become thread phase) where
  count_eq := by
    rw [State.pending_become same]
    exact consistent.count_eq
  generation_eq := consistent.generation_eq
  fits := by
    intro thread'
    by_cases isThread : thread' = thread
    · subst isThread
      simpa [State.become] using fits
    · simpa [State.become, isThread] using consistent.fits thread'
  entered := by
    intro thread'
    have unchanged : ((state.become thread phase).phases thread').arrived =
        (state.phases thread').arrived := by
      by_cases isThread : thread' = thread
      · subst isThread
        simpa [State.become] using same
      · simp [State.become, isThread]
    have notLast := (other thread').symm
    rw [unchanged, consistent.entered thread']
    simp [notLast]

end Become

section Wait

variable {state : State n} {thread : Fin n}

theorem State.wait_of_last (last : state.count = 1) :
    state.wait thread =
      State.become ⟨0, state.generation + 1, fun other => (state.phases other).notified⟩
        thread .returned := by
  simp [wait, last, notifyAll]

theorem State.wait_of_not_last (notLast : state.count ≠ 1) :
    state.wait thread =
      State.become ⟨state.count - 1, state.generation, state.phases⟩ thread
        (.blocked state.generation) := by
  have remaining : state.count - 1 ≠ 0 := by omega
  simp [wait, remaining, condWait]

theorem State.wait_count : (state.wait thread).count = state.count - 1 := by
  by_cases last : state.count = 1
  · rw [wait_of_last last, last]
    rfl
  · rw [wait_of_not_last last]
    rfl

theorem State.wait_generation :
    (state.wait thread).generation =
      if state.count = 1 then state.generation + 1 else state.generation := by
  by_cases last : state.count = 1
  · rw [wait_of_last last, if_pos last]
    rfl
  · rw [wait_of_not_last last, if_neg last]
    rfl

theorem State.wait_arrived (other : Fin n) :
    ((state.wait thread).phases other).arrived =
      if other = thread then true else (state.phases other).arrived := by
  by_cases isThread : other = thread
  · subst isThread
    by_cases last : state.count = 1
    · simp [wait_of_last last, become, Phase.arrived]
    · simp [wait_of_not_last last, become, Phase.arrived]
  · by_cases last : state.count = 1
    · simp [wait_of_last last, become, isThread]
    · simp [wait_of_not_last last, become, isThread]

theorem State.wait_pending : (state.wait thread).pending = state.pending.erase thread := by
  ext other
  rw [mem_pending, Finset.mem_erase, mem_pending, wait_arrived]
  by_cases isThread : other = thread <;> simp [isThread]

theorem Consistent.wait {actions : List (Action n)} (consistent : Consistent actions state)
    (entering : state.phases thread = .entering) :
    Consistent (actions ++ [.enter thread]) (state.wait thread) := by
  have pending : thread ∈ state.pending := by
    rw [State.mem_pending, entering]
    rfl
  have some_pending := Finset.card_pos.mpr ⟨thread, pending⟩
  have count_eq := consistent.count_eq
  have unfinished : state.count ≠ 0 := by omega
  have generation_eq : state.generation = 0 := by
    rw [consistent.generation_eq, if_neg unfinished]
  constructor
  · rw [State.wait_count, State.wait_pending, Finset.card_erase_of_mem pending]
    omega
  · rw [State.wait_generation, State.wait_count, generation_eq]
    by_cases last : state.count = 1
    · simp [last]
    · have remaining : state.count - 1 ≠ 0 := by omega
      simp [last, remaining]
  · intro other
    have before := consistent.fits other
    rw [State.wait_count]
    by_cases last : state.count = 1
    · rw [State.wait_of_last last, last]
      by_cases isThread : other = thread
      · subst isThread
        simp [State.become, Phase.Fits]
      · -- everybody who has been blocked is notified
        cases phase : state.phases other <;>
          simp_all [State.become, Phase.Fits, Phase.notified]
    · have remaining : state.count - 1 ≠ 0 := by omega
      rw [State.wait_of_not_last last]
      by_cases isThread : other = thread
      · subst isThread
        simp [State.become, Phase.Fits, generation_eq, remaining]
      · cases phase : state.phases other <;>
          simp_all [State.become, Phase.Fits]
  · intro other
    rw [State.wait_arrived]
    by_cases isThread : other = thread
    · simp [isThread]
    · have unchanged := consistent.entered other
      simp [isThread, unchanged]

end Wait

theorem Consistent.after_step {actions : List (Action n)} {state after : State n}
    {action : Action n}
    (consistent : Consistent actions state) (stepped : step state action = .ok after) :
    Consistent (actions ++ [action]) after := by
  cases action with
  | call thread =>
      rcases step_call_iff.mp stepped with ⟨outside, rfl⟩
      apply consistent.become
      · simp
      · simp [outside, Phase.arrived]
      · trivial
  | enter thread =>
      rcases step_enter_iff.mp stepped with ⟨entering, rfl⟩
      exact consistent.wait entering
  | spuriousWake thread =>
      rcases step_spuriousWake_iff.mp stepped with ⟨gen, blocked, rfl⟩
      have before := consistent.fits thread
      rw [blocked] at before
      apply consistent.become
      · simp
      · simp [blocked, Phase.arrived]
      · exact before.1
  | resume thread =>
      rcases step_resume_iff.mp stepped with ⟨gen, woken, rfl⟩
      have recorded := consistent.fits thread
      rw [woken] at recorded
      have gen_eq : gen = 0 := recorded
      have generation_eq := consistent.generation_eq
      by_cases complete : state.count = 0
      · rw [if_pos complete] at generation_eq
        rw [State.condWait, if_pos (by omega)]
        apply consistent.become
        · simp
        · simp [woken, Phase.arrived]
        · exact complete
      · rw [if_neg complete] at generation_eq
        rw [State.condWait, if_neg (by omega)]
        apply consistent.become
        · simp
        · simp [woken, Phase.arrived]
        · exact ⟨gen_eq, complete⟩

theorem run_consistent (positive : 0 < n) {actions : List (Action n)} {state : State n}
    (ran : run n actions = .ok state) : Consistent actions state := by
  apply Execution.execute_invariant Consistent (initial_consistent positive) ?_ ran
  intro actions state action after _ consistent stepped
  exact consistent.after_step stepped

section Steps

variable {state after : State n} {action : Action n} {other : Fin n}

/-- A thread which has returned from its call does not call again. -/
theorem step_returned (stepped : step state action = .ok after)
    (returned : state.phases other = .returned) : after.phases other = .returned := by
  cases action with
  | call thread =>
      rcases step_call_iff.mp stepped with ⟨outside, rfl⟩
      have different : other ≠ thread := by
        rintro rfl
        simp [outside] at returned
      simpa [State.become, different] using returned
  | enter thread =>
      rcases step_enter_iff.mp stepped with ⟨entering, rfl⟩
      have different : other ≠ thread := by
        rintro rfl
        simp [entering] at returned
      by_cases last : state.count = 1
      · simp [State.wait_of_last last, State.become, different, returned, Phase.notified]
      · simp [State.wait_of_not_last last, State.become, different, returned]
  | spuriousWake thread =>
      rcases step_spuriousWake_iff.mp stepped with ⟨gen, blocked, rfl⟩
      have different : other ≠ thread := by
        rintro rfl
        simp [blocked] at returned
      simpa [State.become, different] using returned
  | resume thread =>
      rcases step_resume_iff.mp stepped with ⟨gen, woken, rfl⟩
      have different : other ≠ thread := by
        rintro rfl
        simp [woken] at returned
      rw [State.condWait]
      split <;> simpa [State.become, different] using returned

theorem Phase.notified_eq_outside_iff {phase : Phase} :
    phase.notified = .outside ↔ phase = .outside := by
  cases phase <;> simp [notified]

/-- Only a call brings a thread into the latch. -/
theorem step_outside_iff (notCall : ∀ thread, action ≠ .call thread)
    (stepped : step state action = .ok after) :
    after.phases other = .outside ↔ state.phases other = .outside := by
  cases action with
  | call thread => exact absurd rfl (notCall thread)
  | enter thread =>
      rcases step_enter_iff.mp stepped with ⟨entering, rfl⟩
      by_cases last : state.count = 1 <;> by_cases isThread : other = thread
      · simp [State.wait_of_last last, State.become, isThread, entering]
      · simp [State.wait_of_last last, State.become, isThread, Phase.notified_eq_outside_iff]
      · simp [State.wait_of_not_last last, State.become, isThread, entering]
      · simp [State.wait_of_not_last last, State.become, isThread]
  | spuriousWake thread =>
      rcases step_spuriousWake_iff.mp stepped with ⟨gen, blocked, rfl⟩
      by_cases isThread : other = thread
      · simp [State.become, isThread, blocked]
      · simp [State.become, isThread]
  | resume thread =>
      rcases step_resume_iff.mp stepped with ⟨gen, woken, rfl⟩
      rw [State.condWait]
      by_cases isThread : other = thread
      · split <;> simp [State.become, isThread, woken]
      · split <;> simp [State.become, isThread]

end Steps

/-! ## The barrier -/

section Barrier

variable {actions : List (Action n)} {state : State n}

theorem Consistent.complete_iff (consistent : Consistent actions state) :
    state.count = 0 ↔ ∀ thread, .enter thread ∈ actions := by
  have count_eq := consistent.count_eq
  have empty_iff : state.count = 0 ↔ state.pending = ∅ := by
    rw [← Finset.card_eq_zero]
    omega
  rw [empty_iff, Finset.eq_empty_iff_forall_notMem]
  apply forall_congr'
  intro thread
  rw [State.mem_pending, Bool.not_eq_false, consistent.entered thread]

theorem Consistent.count_bounds (consistent : Consistent actions state) :
    0 ≤ state.count ∧ state.count ≤ n := by
  have count_eq := consistent.count_eq
  have most : state.pending.card ≤ n := by
    simpa using Finset.card_le_univ state.pending
  omega

/-- Once the last call has decremented `count`, everybody has returned or is on the way. -/
theorem Consistent.released (consistent : Consistent actions state) (complete : state.count = 0)
    (thread : Fin n) :
    state.phases thread = .returned ∨
      ∃ gen, state.phases thread = .woken gen ∧ gen ≠ state.generation := by
  have fits := consistent.fits thread
  have generation_eq := consistent.generation_eq
  have called := consistent.complete_iff.mp complete thread
  have arrived := (consistent.entered thread).mpr called
  rw [if_pos complete] at generation_eq
  cases phase : state.phases thread with
  | outside => simp [phase, Phase.arrived] at arrived
  | entering => simp [phase, Phase.arrived] at arrived
  | blocked gen =>
      rw [phase] at fits
      exact absurd complete fits.2
  | woken gen =>
      rw [phase] at fits
      have gen_eq : gen = 0 := fits
      right
      exact ⟨gen, rfl, by omega⟩
  | returned =>
      left
      rfl

theorem Consistent.blocked (consistent : Consistent actions state) {thread : Fin n} {gen : ℤ}
    (blocked : state.phases thread = .blocked gen) : gen = 0 ∧ state.generation = gen := by
  have fits := consistent.fits thread
  rw [blocked] at fits
  refine ⟨fits.1, ?_⟩
  rw [consistent.generation_eq, if_neg fits.2]
  exact fits.1.symm

theorem Consistent.called_of_returned (consistent : Consistent actions state) {thread : Fin n}
    (returned : state.phases thread = .returned) (other : Fin n) :
    state.phases other ≠ .outside := by
  have complete := consistent.fits thread
  rw [returned] at complete
  have arrived := (consistent.entered other).mpr (consistent.complete_iff.mp complete other)
  intro outside
  simp [outside, Phase.arrived] at arrived

/-- All other calls have decremented `count` when this one does. -/
def LastArrival (actions : List (Action n)) : Action n → Prop
  | .enter thread => ∀ other, other ≠ thread → .enter other ∈ actions
  | _ => False

theorem Consistent.count_eq_one_iff (consistent : Consistent actions state) {thread : Fin n}
    (entering : state.phases thread = .entering) :
    state.count = 1 ↔ LastArrival actions (.enter thread) := by
  have complete_iff := (consistent.wait entering).complete_iff
  rw [State.wait_count] at complete_iff
  have one_iff : state.count = 1 ↔ state.count - 1 = 0 := by omega
  rw [one_iff, complete_iff]
  apply forall_congr'
  intro other
  by_cases isThread : other = thread <;> simp [isThread]

theorem Consistent.generation_step (consistent : Consistent actions state) {action : Action n}
    {after : State n} (stepped : step state action = .ok after) :
    (LastArrival actions action → after.generation = state.generation + 1) ∧
      (¬LastArrival actions action → after.generation = state.generation) := by
  cases action with
  | call thread =>
      rcases step_call_iff.mp stepped with ⟨_, rfl⟩
      simp [LastArrival, State.become]
  | enter thread =>
      rcases step_enter_iff.mp stepped with ⟨entering, rfl⟩
      have last_iff := consistent.count_eq_one_iff entering
      rw [State.wait_generation, ← last_iff]
      constructor
      · intro last
        exact if_pos last
      · intro notLast
        exact if_neg notLast
  | spuriousWake thread =>
      rcases step_spuriousWake_iff.mp stepped with ⟨gen, _, rfl⟩
      simp [LastArrival, State.become]
  | resume thread =>
      rcases step_resume_iff.mp stepped with ⟨gen, _, rfl⟩
      simp only [LastArrival, State.condWait]
      split <;> simp [State.become]

theorem Consistent.not_stuck (consistent : Consistent actions state)
    (called : ∀ thread, state.phases thread ≠ .outside)
    (unfinished : ∃ thread, state.phases thread ≠ .returned) :
    ∃ action after, (∀ thread, action ≠ .spuriousWake thread) ∧ step state action = .ok after := by
  by_cases complete : state.count = 0
  · rcases unfinished with ⟨thread, notReturned⟩
    rcases consistent.released complete thread with returned | ⟨gen, woken, _⟩
    · contradiction
    · refine ⟨.resume thread, state.condWait thread gen, by simp, ?_⟩
      exact step_resume_iff.mpr ⟨gen, woken, rfl⟩
  · have some_pending : state.pending.Nonempty := by
      rw [← Finset.card_pos]
      have count_eq := consistent.count_eq
      omega
    rcases some_pending with ⟨thread, pending⟩
    rw [State.mem_pending] at pending
    have entering : state.phases thread = .entering := by
      have notOutside := called thread
      cases phase : state.phases thread <;> simp_all [Phase.arrived]
    refine ⟨.enter thread, state.wait thread, by simp, ?_⟩
    exact step_enter_iff.mpr ⟨entering, rfl⟩

/-- What a run of the calls promises in the state that it has come to. -/
structure OneShotBarrier (actions : List (Action n)) (state : State n) : Prop where
  no_overflow : 0 ≤ state.count ∧ state.count ≤ n
  no_early_return : ∀ thread, state.phases thread = .returned →
    ∀ other, .enter other ∈ actions
  incremented_once : state.generation = if ∀ thread, .enter thread ∈ actions then 1 else 0
  incremented_by_last : ∀ action after, step state action = .ok after →
    (LastArrival actions action → after.generation = state.generation + 1) ∧
      (¬LastArrival actions action → after.generation = state.generation)
  blocked_with_old : ∀ thread gen, state.phases thread = .blocked gen →
    gen = 0 ∧ state.generation = gen
  nobody_missed : (∀ thread, .enter thread ∈ actions) → ∀ thread,
    state.phases thread = .returned ∨
      ∃ gen, state.phases thread = .woken gen ∧ gen ≠ state.generation
  not_stuck : (∀ thread, state.phases thread ≠ .outside) →
    (∃ thread, state.phases thread ≠ .returned) →
    ∃ action after, (∀ thread, action ≠ .spuriousWake thread) ∧ step state action = .ok after

/-- In whatever order the threads come and wake up, nobody returns before all have entered, and
then nobody is missed. -/
theorem latch_is_one_shot_barrier (positive : 0 < n) (ran : run n actions = .ok state) :
    OneShotBarrier actions state := by
  have consistent := run_consistent positive ran
  have complete_iff := consistent.complete_iff
  constructor
  · exact consistent.count_bounds
  · intro thread returned
    have complete := consistent.fits thread
    rw [returned] at complete
    exact complete_iff.mp complete
  · rw [consistent.generation_eq]
    simp only [complete_iff]
  · intro action after stepped
    exact consistent.generation_step stepped
  · intro thread gen blocked
    exact consistent.blocked blocked
  · intro everybody
    exact consistent.released (complete_iff.mpr everybody)
  · intro called unfinished
    exact consistent.not_stuck called unfinished

/-- One of two threads blocks, wakes up for no reason, and blocks again. -/
theorem latch_is_one_shot_barrier_two_threads :
    let actions : List (Action 2) := [.call 0, .call 1, .enter 1, .spuriousWake 1, .resume 1]
    ∃ state, run 2 actions = .ok state ∧ state.phases 1 = .blocked 0 ∧
      OneShotBarrier actions state := by
  intro actions
  have succeeds : Execution.succeedsWith (run 2 actions)
      (fun state => state.phases 1 = .blocked 0) = true := by
    decide
  rcases Execution.exists_of_succeedsWith succeeds with ⟨state, ran, blocked⟩
  have positive : 0 < 2 := by decide
  exact ⟨state, ran, of_decide_eq_true blocked, latch_is_one_shot_barrier positive ran⟩

end Barrier

end Latch

end Urn
