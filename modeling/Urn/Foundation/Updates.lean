import Urn.Foundation.Interleaving

/-!
# Updates of shared cells

Code which replaces the value of a cell by a function of it, and goes on with the value
that it has found, performs two accesses: it loads the value and stores another one.
Here the threads of a machine share cells in this way, and their accesses interleave.

* `cells_of_undisturbed`: if no other thread stores to a cell between the two accesses of
  an update, the cell has changed by what its updates gain;
* `alone`: a thread can make a whole call while no other thread moves;
* `interrupted`, `between_updates`: it can do so in the middle of another thread's call,
  within an update or after one.
-/

namespace Atomic

variable {Thread Call Outcome : Type}

/-- A cell whose value is replaced by a function of it. -/
structure Update (Cell Value : Type) where
  cell : Cell
  change : Value → Value

/-- Code which updates cells, and gets the value that was there before. -/
abbrev Updating (Cell Value Outcome : Type) :=
  Program (fun _ : Update Cell Value => Value) Outcome

/-- The two accesses of an update; the second one is told what the first one has found. -/
inductive Access (Cell Value : Type)
  | load (update : Update Cell Value)
  | store (update : Update Cell Value) (found : Value)

@[reducible]
def Access.Result {Cell Value : Type} : Access Cell Value → Type
  | load _ => Value
  | store _ _ => Unit

variable {Cell Value : Type}

namespace Program

/-- The accesses of the code. -/
def accesses : Updating Cell Value Outcome → Program (@Access.Result Cell Value) Outcome
  | .done outcome => .done outcome
  | .perform update next =>
      .perform (.load update) fun found =>
        .perform (.store update found) fun _ => (next found).accesses

/-- The value has been loaded. -/
def storing (update : Update Cell Value) (found : Value)
    (next : Value → Updating Cell Value Outcome) : Program (@Access.Result Cell Value) Outcome :=
  .perform (.store update found) fun _ => (next found).accesses

@[simp]
theorem accesses_done (outcome : Outcome) :
    (.done outcome : Updating Cell Value Outcome).accesses = .done outcome := rfl

@[simp]
theorem accesses_perform (update : Update Cell Value)
    (next : Value → Updating Cell Value Outcome) :
    (Program.perform update next : Updating Cell Value Outcome).accesses =
      .perform (.load update) fun found => storing update found next := rfl

theorem accesses_ne_storing (rest : Updating Cell Value Outcome) (update : Update Cell Value)
    (found : Value) (next : Value → Updating Cell Value Outcome) :
    rest.accesses ≠ storing update found next := by
  cases rest <;> simp [storing]

theorem storing_inj {update other : Update Cell Value} {found value : Value}
    {next rest : Value → Updating Cell Value Outcome}
    (same : storing update found next = storing other value rest) :
    update = other ∧ found = value := by
  simp only [storing, Program.perform.injEq, Access.store.injEq] at same
  exact same.1

/-- Where code is whose accesses are performed one by one. -/
inductive Between : Program (@Access.Result Cell Value) Outcome → Prop
  | updates (rest : Updating Cell Value Outcome) : Between rest.accesses
  | accesses (update : Update Cell Value) (found : Value)
      (next : Value → Updating Cell Value Outcome) : Between (storing update found next)

/-- After a load comes the store. -/
theorem Between.of_load {update : Update Cell Value}
    {next : Value → Program (@Access.Result Cell Value) Outcome}
    (between : Between (.perform (.load update) next)) :
    ∃ rest, next = fun found => storing update found rest := by
  generalize program_eq :
    (.perform (.load update) next : Program (@Access.Result Cell Value) Outcome) = program
    at between
  cases between with
  | updates rest =>
      cases rest with
      | done outcome => simp at program_eq
      | perform other rest =>
          rw [accesses_perform] at program_eq
          cases program_eq
          exact ⟨rest, rfl⟩
  | accesses other found rest => simp [storing] at program_eq

/-- After a store the update is over. -/
theorem Between.of_store {update : Update Cell Value} {found : Value}
    {next : Unit → Program (@Access.Result Cell Value) Outcome}
    (between : Between (.perform (.store update found) next)) :
    ∃ rest : Value → Updating Cell Value Outcome, next = fun _ => (rest found).accesses := by
  generalize program_eq :
    (.perform (.store update found) next : Program (@Access.Result Cell Value) Outcome) = program
    at between
  cases between with
  | updates rest =>
      cases rest with
      | done outcome => simp at program_eq
      | perform other rest => simp at program_eq
  | accesses other found rest =>
      cases program_eq
      exact ⟨rest, rfl⟩

end Program

/-- An update without the accesses of others in between. -/
def Update.perform [DecidableEq Cell] {Failure : Type} (update : Update Cell Value)
    (cells : Cell → Value) : Except Failure (Value × (Cell → Value)) :=
  .ok (cells update.cell,
    Function.update cells update.cell (update.change (cells update.cell)))

/-- The machine of the threads which make calls of code that updates cells. -/
def updating [DecidableEq Cell] (body : Call → Updating Cell Value Outcome)
    (calls : Thread → Call → Prop) :
    Machine Thread Call (@Access.Result Cell Value) Outcome (Cell → Value) where
  body call := (body call).accesses
  invoke thread call cells after := calls thread call ∧ after = cells
  execute _ access cells result after :=
    match access, result with
    | .load update, found => found = cells update.cell ∧ after = cells
    | .store update found, () => after = Function.update cells update.cell (update.change found)

namespace Label

/-- The thread which made the step. -/
def thread {Op : Type} {Res : Op → Type} : Label Thread Call Res Outcome → Thread
  | .invoked thread _ => thread
  | .performed thread _ _ => thread
  | .returned thread _ _ => thread

/-- The step stores to the cell. -/
def StoresTo (cell : Cell) : Label Thread Call (@Access.Result Cell Value) Outcome → Prop
  | .performed _ _ ⟨.store update _, _⟩ => update.cell = cell
  | .performed _ _ ⟨.load _, _⟩ => False
  | .invoked _ _ => False
  | .returned _ _ _ => False

end Label

/-- The last steps of a call, which come one after the other and begin with no store. -/
structure Ends (thread : Thread) (call : Call) (outcome : Outcome)
    (labels : List (Label Thread Call (@Access.Result Cell Value) Outcome)) : Prop where
  own : ∀ label ∈ labels, label.thread = thread
  noStore : ∀ cell, ∀ label ∈ labels.head?, ¬label.StoresTo cell
  owed : ∀ {Amount : Type} [AddCommGroup Amount] (due : Call → Outcome → Amount),
    (labels.map (Label.owed due)).sum = due call outcome

namespace Ends

variable {thread : Thread} {call : Call} {outcome : Outcome}
  {labels : List (Label Thread Call (@Access.Result Cell Value) Outcome)}

theorem returned (thread : Thread) (call : Call) (outcome : Outcome) :
    Ends thread call outcome
      [(.returned thread call outcome :
        Label Thread Call (@Access.Result Cell Value) Outcome)] where
  own := by simp [Label.thread]
  noStore := by simp [Label.StoresTo]
  owed due := by simp [Label.owed]

theorem updated (ends : Ends thread call outcome labels) (update : Update Cell Value)
    (found : Value) :
    Ends thread call outcome (.performed thread call ⟨.load update, found⟩ ::
      .performed thread call ⟨.store update found, ()⟩ :: labels) where
  own := by simpa [Label.thread] using ends.own
  noStore := by simp [Label.StoresTo]
  owed due := by simpa [Label.owed] using ends.owed due

theorem invoked (ends : Ends thread call outcome labels) :
    Ends thread call outcome (.invoked thread call :: labels) where
  own := by simpa [Label.thread] using ends.own
  noStore := by simp [Label.StoresTo]
  owed due := by simpa [Label.owed] using ends.owed due

end Ends

/-- No other thread stores to the cell between the two accesses of an update of it. -/
def Undisturbed (cell : Cell)
    (trace : List (Label Thread Call (@Access.Result Cell Value) Outcome)) : Prop :=
  ∀ before between after thread call update found, update.cell = cell →
    trace = before ++ .performed thread call ⟨.load update, found⟩ ::
      (between ++ .performed thread call ⟨.store update found, ()⟩ :: after) →
    (∀ label ∈ between, label.thread ≠ thread) → ∀ label ∈ between, ¬label.StoresTo cell

section Undisturbed

variable {cell : Cell} {trace : List (Label Thread Call (@Access.Result Cell Value) Outcome)}

theorem undisturbed_nil : Undisturbed cell
    ([] : List (Label Thread Call (@Access.Result Cell Value) Outcome)) := by
  intro before between after thread call update found same trace_eq
  simp at trace_eq

theorem Undisturbed.of_append {later : List (Label Thread Call (@Access.Result Cell Value) Outcome)}
    (undisturbed : Undisturbed cell (trace ++ later)) : Undisturbed cell trace := by
  intro before between after thread call update found same trace_eq
  exact undisturbed before between (after ++ later) thread call update found same
    (by simp [trace_eq])

/-- A cell to which only one thread stores. -/
theorem undisturbed_of_thread (thread : Thread)
    (single : ∀ label ∈ trace, label.StoresTo cell → label.thread = thread) :
    Undisturbed cell trace := by
  rintro before between after storing call update found same rfl others label label_mem stores
  have storing_eq : storing = thread :=
    single (.performed storing call ⟨.store update found, ()⟩) (by simp) same
  exact others label label_mem
    (storing_eq ▸ single label (by simp [label_mem]) stores)

/-- Steps of one thread, of which the first one is no store, disturb nobody. -/
theorem Undisturbed.append_own
    {labels : List (Label Thread Call (@Access.Result Cell Value) Outcome)}
    (undisturbed : Undisturbed cell trace) (thread : Thread)
    (own : ∀ label ∈ labels, label.thread = thread)
    (noStore : ∀ label ∈ labels.head?, ¬label.StoresTo cell) :
    Undisturbed cell (trace ++ labels) := by
  intro before between after storing made update found same trace_eq others label label_mem stores
  rw [← List.cons_append, ← List.append_assoc] at trace_eq
  have notFirst : labels ≠ .performed storing made ⟨.store update found, ()⟩ :: after := by
    rintro rfl
    exact noStore (.performed storing made ⟨.store update found, ()⟩) rfl same
  rcases List.append_eq_append_iff.mp trace_eq with ⟨gap, left, right⟩ | ⟨gap, left, right⟩
  · -- The store is one of the steps, so their thread has no label between the accesses.
    have storing_eq : storing = thread :=
      own (.performed storing made ⟨.store update found, ()⟩) (by simp [right])
    have notOwn : label ∉ labels := by
      intro label_own
      exact others label label_mem ((own label label_own).trans storing_eq.symm)
    rcases List.append_eq_append_iff.mp left with ⟨earlier, -, rest⟩ | ⟨since, -, rest⟩
    · rcases List.cons_eq_append_iff.mp rest with ⟨rfl, gap_eq⟩ | ⟨since, rfl, between_eq⟩
      · exact notOwn (by simp [right, gap_eq, label_mem])
      · cases gap with
        | nil => exact notFirst right
        | cons first gap =>
            have first_own := own first (by simp [right])
            exact others first (by simp [between_eq]) (first_own.trans storing_eq.symm)
    · exact notOwn (by simp [right, rest, label_mem])
  · rcases List.cons_eq_append_iff.mp right with ⟨rfl, labels_eq⟩ | ⟨within, rfl, -⟩
    · exact notFirst labels_eq
    · -- Both accesses come before the steps.
      exact undisturbed before between within storing made update found same
        (by simp [left]) others label label_mem stores

theorem Undisturbed.append_ends {thread : Thread} {call : Call} {outcome : Outcome}
    {labels : List (Label Thread Call (@Access.Result Cell Value) Outcome)}
    (undisturbed : Undisturbed cell trace) (ends : Ends thread call outcome labels) :
    Undisturbed cell (trace ++ labels) :=
  undisturbed.append_own thread ends.own (ends.noStore cell)

end Undisturbed

section Runs

variable [DecidableEq Thread] [DecidableEq Cell] {body : Call → Updating Cell Value Outcome}
  {calls : Thread → Call → Prop} {initial : Cell → Value}
  {trace : List (Label Thread Call (@Access.Result Cell Value) Outcome)}
  {config : Config Thread Call (@Access.Result Cell Value) Outcome (Cell → Value)}

theorem between_of_running (run : (updating body calls).Run initial trace config)
    {thread : Thread} {call : Call} {rest : Program (@Access.Result Cell Value) Outcome}
    (active : config.running thread = some (call, rest)) : rest.Between := by
  refine run.of_running (fun _ rest => rest.Between) (fun call => .updates (body call)) ?_ active
  intro thread call op next result cells after between _
  cases op with
  | load update =>
      rcases between.of_load with ⟨rest, rfl⟩
      exact .accesses update result rest
  | store update found =>
      rcases between.of_store with ⟨rest, rfl⟩
      exact .updates (rest found)

/-- A thread only makes the calls that it may make. -/
theorem calls_of_performed
    {before after : List (Label Thread Call (@Access.Result Cell Value) Outcome)}
    {thread : Thread} {call : Call} {step : Program.Performed (@Access.Result Cell Value)}
    (run : (updating body calls).Run initial (before ++ .performed thread call step :: after)
      config) : calls thread call := by
  rcases run.split with ⟨source, target, reached, next⟩
  cases next with
  | perform active effect =>
      rcases reached.executes_of_running active with ⟨earlier, since, rfl, -, -⟩
      rcases reached.split with ⟨_, _, _, started⟩
      cases started with
      | invoke idle allowed => exact allowed.1

/-- A thread which is about to store has loaded, and the cell has still the value which
it has found unless another thread has stored to it since. -/
def Loaded (trace : List (Label Thread Call (@Access.Result Cell Value) Outcome))
    (cells : Cell → Value) (thread : Thread) (call : Call) (update : Update Cell Value)
    (found : Value) : Prop :=
  ∃ before since, trace = before ++ .performed thread call ⟨.load update, found⟩ :: since ∧
    (∀ label ∈ since, label.thread ≠ thread) ∧
    ((∀ label ∈ since, ¬label.StoresTo update.cell) → cells update.cell = found)

omit [DecidableEq Thread] [DecidableEq Cell] in
theorem Loaded.snoc {cells after : Cell → Value} {thread : Thread} {call : Call}
    {update : Update Cell Value} {found : Value}
    (loaded : Loaded trace cells thread call update found)
    {label : Label Thread Call (@Access.Result Cell Value) Outcome}
    (other : label.thread ≠ thread)
    (kept : ¬label.StoresTo update.cell → after update.cell = cells update.cell) :
    Loaded (trace ++ [label]) after thread call update found := by
  rcases loaded with ⟨before, since, rfl, others, unchanged⟩
  refine ⟨before, since ++ [label], by simp, ?_, ?_⟩
  · simpa [or_imp, forall_and] using ⟨others, other⟩
  · intro quiet
    simp only [List.mem_append, List.mem_singleton, or_imp, forall_and, forall_eq] at quiet
    exact (kept quiet.2).trans (unchanged quiet.1)

theorem loaded_of_storing (run : (updating body calls).Run initial trace config)
    {thread : Thread} {call : Call} {update : Update Cell Value} {found : Value}
    {next : Value → Updating Cell Value Outcome}
    (active : config.running thread = some (call, Program.storing update found next)) :
    Loaded trace config.shared thread call update found := by
  refine run.invariant (fun trace config => ∀ thread call update found next,
    config.running thread = some (call, Program.storing update found next) →
      Loaded trace config.shared thread call update found) (by simp) ?_
    thread call update found next active
  intro trace config label after reached holds step thread call update found next active
  cases step with
  | @invoke invoker started cells idle allowed =>
      rcases allowed with ⟨-, rfl⟩
      rcases eq_or_ne thread invoker with rfl | different
      · simp only [Config.resume_running_self, Option.some.injEq, Prod.mk.injEq] at active
        exact absurd active.2 (Program.accesses_ne_storing (body started) update found next)
      · rw [Config.resume_running_other _ different] at active
        exact (holds thread call update found next active).snoc different.symm fun _ => rfl
  | @perform performer performed op rest result cells running effect =>
      have between := between_of_running reached running
      rcases eq_or_ne thread performer with rfl | different
      · simp only [Config.resume_running_self, Option.some.injEq, Prod.mk.injEq] at active
        rcases active with ⟨rfl, left_eq⟩
        cases op with
        | load loading =>
            rcases effect with ⟨found_eq, rfl⟩
            rcases between.of_load with ⟨left, rfl⟩
            rcases Program.storing_inj left_eq with ⟨rfl, rfl⟩
            exact ⟨trace, [], rfl, by simp, fun _ => found_eq.symm⟩
        | store storing value =>
            rcases between.of_store with ⟨left, rfl⟩
            exact absurd left_eq (Program.accesses_ne_storing (left value) update found next)
      · rw [Config.resume_running_other _ different] at active
        refine (holds thread call update found next active).snoc different.symm ?_
        intro elsewhere
        cases op with
        | load loading =>
            rcases effect with ⟨-, rfl⟩
            rfl
        | store storing value =>
            have stored : cells = _ := effect
            rw [Config.resume_shared, stored]
            exact Function.update_of_ne (Ne.symm elsewhere) _ _
  | @finish finisher ended outcome atEnd =>
      rcases eq_or_ne thread finisher with rfl | different
      · simp at active
      · rw [Config.resume_running_other _ different] at active
        exact (holds thread call update found next active).snoc different.symm fun _ => rfl

/-- Whoever stores to an undisturbed cell finds there what it has loaded. -/
theorem found_of_undisturbed (run : (updating body calls).Run initial trace config)
    {thread : Thread} {call : Call} {update : Update Cell Value} {found : Value}
    {next : Unit → Program (@Access.Result Cell Value) Outcome}
    (active : config.running thread = some (call, .perform (.store update found) next))
    (undisturbed : Undisturbed update.cell
      (trace ++ [.performed thread call ⟨.store update found, ()⟩])) :
    config.shared update.cell = found := by
  rcases (between_of_running run active).of_store with ⟨rest, rfl⟩
  rcases loaded_of_storing run active with ⟨before, since, rfl, others, unchanged⟩
  exact unchanged (undisturbed before since [] thread call update found rfl (by simp) others)

/-! ## What updates gain -/

section Gains

variable [AddCommGroup Value]

/-- What a store changes in a set of cells, if the cell still has the value found. -/
def Access.gain (cells : Finset Cell) : (access : Access Cell Value) → access.Result → Value
  | .store update found, _ => if update.cell ∈ cells then update.change found - found else 0
  | .load _, _ => 0

omit [DecidableEq Thread] in
theorem sum_update_cell (before : Cell → Value) (cells : Finset Cell) (cell : Cell) (new : Value) :
    ∑ other ∈ cells, Function.update before cell new other =
      ∑ other ∈ cells, before other + if cell ∈ cells then new - before cell else 0 := by
  by_cases inside : cell ∈ cells
  · rw [if_pos inside, Finset.sum_update_of_mem inside, ← Finset.add_sum_erase _ before inside,
      Finset.sdiff_singleton_eq_erase]
    abel
  · rw [if_neg inside, add_zero, Finset.sum_update_of_notMem inside]

/-- If nobody disturbs the updates of some cells, these have changed by what the updates
have gained. -/
theorem cells_of_undisturbed (run : (updating body calls).Run initial trace config)
    {cells : Finset Cell} (undisturbed : ∀ cell ∈ cells, Undisturbed cell trace) :
    ∑ cell ∈ cells, config.shared cell =
      ∑ cell ∈ cells, initial cell +
        (trace.map (Label.gained (fun _ => 0) (Access.gain cells))).sum := by
  induction run with
  | start => simp
  | @step trace config after label reached step ih =>
      have before := ih fun cell cell_mem => (undisturbed cell cell_mem).of_append
      simp only [List.map_append, List.sum_append, List.map_singleton, List.sum_singleton]
      rw [← add_assoc, ← before]
      cases step with
      | @invoke invoker started shared idle allowed =>
          rcases allowed with ⟨-, rfl⟩
          simp [Label.gained]
      | @finish finisher ended outcome atEnd => simp [Label.gained]
      | @perform performer performed op rest result shared running effect =>
          cases op with
          | load loading =>
              rcases effect with ⟨-, rfl⟩
              simp [Label.gained, Access.gain]
          | store storing found =>
              have stored : shared = _ := effect
              rw [Config.resume_shared, stored, sum_update_cell]
              by_cases inside : storing.cell ∈ cells
              · have found_eq := found_of_undisturbed reached running
                  (undisturbed storing.cell inside)
                simp [Label.gained, Access.gain, inside, found_eq]
              · simp [Label.gained, Access.gain, inside]

/-- Whenever no call is in progress, cells whose updates nobody has disturbed have changed
by what the calls were due. -/
theorem accounted_of_undisturbed [Fintype Thread] {cells : Finset Cell}
    {due : Call → Outcome → Value}
    (yields : ∀ call, (body call).accesses.Yields (Access.gain cells) (due call) 0)
    (run : (updating body calls).Run initial trace config)
    (quiescent : ∀ thread, config.running thread = none)
    (undisturbed : ∀ cell ∈ cells, Undisturbed cell trace) :
    ∑ cell ∈ cells, config.shared cell =
      ∑ cell ∈ cells, initial cell + (trace.map (Label.owed due)).sum := by
  rw [cells_of_undisturbed run undisturbed, run.accounted yields quiescent]

end Gains

/-! ## Calls without interleaving -/

section Alone

omit [DecidableEq Cell] in
theorem resume_resume (thread : Thread) (cells after : Cell → Value)
    (left rest : Option (Call × Program (@Access.Result Cell Value) Outcome)) :
    (config.resume thread cells left).resume thread after rest =
      config.resume thread after rest := by
  simp [Config.resume]

omit [DecidableEq Cell] in
theorem update_idle {thread : Thread} (idle : config.running thread = none) :
    Function.update config.running thread none = config.running := by
  rw [← idle, Function.update_eq_self]

variable {thread : Thread} {call : Call} {outcome : Outcome} {after : Cell → Value}
  {Failure : Type}

/-- A thread begins a call. -/
theorem starts {rest : Updating Cell Value Outcome}
    (run : (updating body calls).Run initial trace config)
    (idle : config.running thread = none) (allowed : calls thread call)
    (body_eq : body call = rest) :
    (updating body calls).Run initial (trace ++ [.invoked thread call])
      (config.resume thread config.shared (some (call, rest.accesses))) := by
  subst body_eq
  exact run.invoked thread call config.shared idle ⟨allowed, rfl⟩

/-- A thread makes one update while no other thread moves. -/
theorem update_alone {update : Update Cell Value} {next : Value → Updating Cell Value Outcome}
    (run : (updating body calls).Run initial trace config)
    (active : config.running thread = some (call,
      (.perform update next : Updating Cell Value Outcome).accesses)) :
    (updating body calls).Run initial
      (trace ++ [.performed thread call ⟨.load update, config.shared update.cell⟩,
        .performed thread call ⟨.store update (config.shared update.cell), ()⟩])
      (config.resume thread
        (Function.update config.shared update.cell (update.change (config.shared update.cell)))
        (some (call, (next (config.shared update.cell)).accesses))) := by
  have loaded := run.performed thread (config.shared update.cell) config.shared active ⟨rfl, rfl⟩
  have stored := loaded.performed thread () _ (Config.resume_running_self _ _ _ _) rfl
  simpa [resume_resume] using stored

/-- A thread ends its call while no other thread moves. -/
theorem ends_alone {rest : Updating Cell Value Outcome}
    (run : (updating body calls).Run initial trace config)
    (active : config.running thread = some (call, rest.accesses))
    (ran : rest.run Update.perform config.shared =
      (.ok (outcome, after) : Except Failure (Outcome × (Cell → Value)))) :
    ∃ labels, (updating body calls).Run initial (trace ++ labels)
        (config.resume thread after none) ∧ Ends thread call outcome labels := by
  induction rest generalizing trace config with
  | done ended =>
      simp only [Program.run_done, Except.ok.injEq, Prod.mk.injEq] at ran
      rcases ran with ⟨rfl, rfl⟩
      exact ⟨_, run.returned thread active, .returned _ _ _⟩
  | perform update next ih =>
      rw [Program.run_perform] at ran
      rcases ih _ (update_alone run active) (Config.resume_running_self _ _ _ _) ran with
        ⟨labels, ended, ends⟩
      refine ⟨_, ?_, ends.updated update (config.shared update.cell)⟩
      simpa [resume_resume] using ended

/-- A thread makes a whole call while no other thread moves. -/
theorem alone (run : (updating body calls).Run initial trace config)
    (idle : config.running thread = none) (allowed : calls thread call)
    (ran : (body call).run Update.perform config.shared =
      (.ok (outcome, after) : Except Failure (Outcome × (Cell → Value)))) :
    ∃ labels, (updating body calls).Run initial (trace ++ labels) ⟨after, config.running⟩ ∧
      Ends thread call outcome labels := by
  rcases ends_alone (starts run idle allowed rfl) (Config.resume_running_self _ _ _ _) ran with
    ⟨labels, ended, ends⟩
  refine ⟨_, ?_, ends.invoked⟩
  simpa [Config.resume, update_idle idle] using ended

section Nested

variable {other : Thread} {called : Call} {answer : Outcome} {update : Update Cell Value}
  {next : Value → Updating Cell Value Outcome} {between : Cell → Value}

/-- A thread makes a whole call between the two accesses of the first update of another
thread's call. -/
theorem interrupted (run : (updating body calls).Run initial trace config)
    (idle : config.running thread = none) (otherIdle : config.running other = none)
    (different : other ≠ thread) (allowed : calls thread call) (otherAllowed : calls other called)
    (body_eq : body call = .perform update next)
    (otherRan : (body called).run Update.perform config.shared =
      (.ok (answer, between) : Except Failure (Outcome × (Cell → Value))))
    (ran : (next (config.shared update.cell)).run Update.perform
        (Function.update between update.cell (update.change (config.shared update.cell))) =
      (.ok (outcome, after) : Except Failure (Outcome × (Cell → Value)))) :
    ∃ later, (updating body calls).Run initial (trace ++ later) ⟨after, config.running⟩ ∧
      ∀ {Amount : Type} [AddCommGroup Amount] (due : Call → Outcome → Amount),
        (later.map (Label.owed due)).sum = due called answer + due call outcome := by
  have loaded := (starts run idle allowed body_eq).performed thread (config.shared update.cell)
    config.shared (Config.resume_running_self _ _ _ _) ⟨rfl, rfl⟩
  rw [resume_resume] at loaded
  rcases alone loaded ((Config.resume_running_other _ different _ _).trans otherIdle) otherAllowed
    otherRan with ⟨otherLabels, made, otherEnds⟩
  have stored := made.performed thread () _ (Config.resume_running_self _ _ _ _) rfl
  rcases ends_alone stored (Config.resume_running_self _ _ _ _) ran with ⟨labels, ended, ends⟩
  refine ⟨.invoked thread call ::
    .performed thread call ⟨.load update, config.shared update.cell⟩ :: (otherLabels ++
      .performed thread call ⟨.store update (config.shared update.cell), ()⟩ :: labels), ?_, ?_⟩
  · simpa [Config.resume, update_idle idle] using ended
  · intro Amount _ due
    simp [Label.owed, otherEnds.owed due, ends.owed due]

/-- A thread makes a whole call between the first two updates of another thread's call. -/
theorem between_updates (run : (updating body calls).Run initial trace config)
    (idle : config.running thread = none) (otherIdle : config.running other = none)
    (different : other ≠ thread) (allowed : calls thread call) (otherAllowed : calls other called)
    (body_eq : body call = .perform update next)
    (otherRan : (body called).run Update.perform
        (Function.update config.shared update.cell (update.change (config.shared update.cell))) =
      (.ok (answer, between) : Except Failure (Outcome × (Cell → Value))))
    (ran : (next (config.shared update.cell)).run Update.perform between =
      (.ok (outcome, after) : Except Failure (Outcome × (Cell → Value)))) :
    ∃ later, (updating body calls).Run initial (trace ++ later) ⟨after, config.running⟩ ∧
      (∀ cell, Undisturbed cell trace → Undisturbed cell (trace ++ later)) ∧
      ∀ {Amount : Type} [AddCommGroup Amount] (due : Call → Outcome → Amount),
        (later.map (Label.owed due)).sum = due called answer + due call outcome := by
  have updated := update_alone (starts run idle allowed body_eq)
    (Config.resume_running_self _ _ _ _)
  rw [resume_resume] at updated
  rcases alone updated ((Config.resume_running_other _ different _ _).trans otherIdle) otherAllowed
    otherRan with ⟨otherLabels, made, otherEnds⟩
  rcases ends_alone made (Config.resume_running_self _ _ _ _) ran with ⟨labels, ended, ends⟩
  refine ⟨.invoked thread call ::
    .performed thread call ⟨.load update, config.shared update.cell⟩ ::
    .performed thread call ⟨.store update (config.shared update.cell), ()⟩ ::
      (otherLabels ++ labels), ?_, ?_, ?_⟩
  · simpa [Config.resume, update_idle idle] using ended
  · intro cell undisturbed
    have first : Undisturbed cell (trace ++ [.invoked thread call,
        .performed thread call ⟨.load update, config.shared update.cell⟩,
        .performed thread call ⟨.store update (config.shared update.cell), ()⟩]) :=
      undisturbed.append_own thread (by simp [Label.thread]) (by simp [Label.StoresTo])
    simpa using (first.append_ends otherEnds).append_ends ends
  · intro Amount _ due
    simp [Label.owed, otherEnds.owed due, ends.owed due]

end Nested

end Alone

end Runs

end Atomic
