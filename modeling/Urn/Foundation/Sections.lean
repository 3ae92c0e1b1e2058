import Urn.Foundation.Interleaving

/-!
# Critical sections

Some operations of a machine stand for sections under a readers-writer lock.  Here
they are written out: the lock is acquired, the access to what it protects begins
and ends, and the lock is released.  Accesses of two threads which overlap race,
unless both only read, and after a race anything may happen.  The lock may also be
a dummy, which never makes a thread wait.

* `not_race_of_run`: with the lock no run comes to a race;
* `paced_of_run`: with the lock every run is one of the machine whose sections are
  single operations;
* `advance_of_running`: with the lock no run comes to a deadlock.
-/

namespace Atomic

inductive Mode
  | shared
  | exclusive
deriving DecidableEq

/-- A lock can be acquired in a mode while another thread holds it as given. -/
def Mode.Admits (mode : Mode) : Option Mode → Prop
  | none => True
  | some held => mode = .shared ∧ held = .shared

/-- The operations of code whose sections are written out.  What a section does is done
when its access ends. -/
inductive SectionOp (Op : Type)
  | plain (op : Op)
  | acquire (mode : Mode)
  | enter (mode : Mode)
  | leave (op : Op)
  | release

@[reducible]
def SectionOp.Res {Op : Type} (Res : Op → Type) : SectionOp Op → Type
  | plain op => Res op
  | acquire _ => Unit
  | enter _ => Unit
  | leave op => Res op
  | release => Unit

variable {Thread Call Op Outcome Shared : Type} {Res : Op → Type}

namespace Program

variable (modeOf : Op → Option Mode)

/-- The program with its sections written out. -/
def sections : Program Res Outcome → Program (SectionOp.Res Res) Outcome
  | .done outcome => .done outcome
  | .perform op next =>
      match modeOf op with
      | none => .perform (.plain op) fun result => (next result).sections
      | some mode =>
          .perform (.acquire mode) fun _ => .perform (.enter mode) fun _ =>
            .perform (.leave op) fun result => .perform .release fun _ =>
              (next result).sections

/-- The lock is held, and the access has ended. -/
def releasing (rest : Program Res Outcome) : Program (SectionOp.Res Res) Outcome :=
  .perform .release fun _ => rest.sections modeOf

/-- The access is in progress. -/
def leaving (op : Op) (next : Res op → Program Res Outcome) :
    Program (SectionOp.Res Res) Outcome :=
  .perform (.leave op) fun result => (next result).releasing modeOf

/-- The lock is held, and the access has not begun. -/
def entering (mode : Mode) (op : Op) (next : Res op → Program Res Outcome) :
    Program (SectionOp.Res Res) Outcome :=
  .perform (.enter mode) fun _ => leaving modeOf op next

variable {modeOf} {op : Op} {next : Res op → Program Res Outcome}

@[simp]
theorem sections_done (outcome : Outcome) :
    (.done outcome : Program Res Outcome).sections modeOf = .done outcome := rfl

theorem sections_of_none (outside : modeOf op = none) :
    (Program.perform op next).sections modeOf =
      .perform (.plain op) fun result => (next result).sections modeOf := by
  rw [sections, outside]

theorem sections_of_some {mode : Mode} (inside : modeOf op = some mode) :
    (Program.perform op next).sections modeOf =
      .perform (.acquire mode) fun _ => entering modeOf mode op next := by
  rw [sections, inside]
  rfl

/-- Where a thread is which has the given program left, with what it holds and what it
accesses. -/
inductive At (modeOf : Op → Option Mode) : Program Res Outcome →
    Program (SectionOp.Res Res) Outcome → Option Mode → Option Mode → Prop
  | outside (rest : Program Res Outcome) : At modeOf rest (rest.sections modeOf) none none
  | acquired {op : Op} {next : Res op → Program Res Outcome} {mode : Mode}
      (inside : modeOf op = some mode) :
      At modeOf (.perform op next) (entering modeOf mode op next) (some mode) none
  | entered {op : Op} {next : Res op → Program Res Outcome} {mode : Mode}
      (inside : modeOf op = some mode) :
      At modeOf (.perform op next) (leaving modeOf op next) (some mode) (some mode)
  | left (rest : Program Res Outcome) (mode : Mode) :
      At modeOf rest (rest.releasing modeOf) (some mode) none

namespace At

variable {coarse : Program Res Outcome} {holding accessing : Option Mode} {mode : Mode}

theorem accessing_eq {fine : Program (SectionOp.Res Res) Outcome}
    (isAt : At modeOf coarse fine holding accessing) (accesses : accessing = some mode) :
    holding = some mode := by
  cases isAt with
  | outside => contradiction
  | acquired inside => contradiction
  | entered inside => exact accesses
  | left => contradiction

theorem done {outcome : Outcome} (isAt : At modeOf coarse (.done outcome) holding accessing) :
    coarse = .done outcome ∧ holding = none ∧ accessing = none := by
  generalize fine_eq : (.done outcome : Program (SectionOp.Res Res) Outcome) = fine at isAt
  cases isAt with
  | outside =>
      cases coarse with
      | done ended =>
          rw [sections_done, Program.done.injEq] at fine_eq
          exact ⟨by rw [fine_eq], rfl, rfl⟩
      | perform op next =>
          cases inside : modeOf op with
          | none => simp [sections_of_none inside] at fine_eq
          | some mode => simp [sections_of_some inside] at fine_eq
  | acquired inside => simp [entering] at fine_eq
  | entered inside => simp [leaving] at fine_eq
  | left => simp [releasing] at fine_eq

end At

end Program

/-- A shared state under a lock: in which modes the threads hold the lock, and which
accesses are in progress. -/
structure Guarded (Thread Shared : Type) where
  shared : Shared
  holding : Thread → Option Mode
  accessing : Thread → Option Mode

theorem Mode.admits_exclusive {held : Option Mode} (admits : Mode.exclusive.Admits held) :
    held = none := by
  cases held with
  | none => rfl
  | some other => exact absurd admits.1 (by decide)

theorem Mode.not_admits_exclusive (mode : Mode) : ¬mode.Admits (some .exclusive) := by
  rintro ⟨-, held⟩
  contradiction

namespace Guarded

/-- Nobody holds the lock. -/
def start (shared : Shared) : Guarded Thread Shared := ⟨shared, fun _ => none, fun _ => none⟩

/-- Two accesses are in progress, and one of them writes. -/
def Race (guarded : Guarded Thread Shared) : Prop :=
  ∃ left right mode, left ≠ right ∧ guarded.accessing left = some .exclusive ∧
    guarded.accessing right = some mode

/-- A thread which holds the lock exclusively is the only one which holds it. -/
def Exclusion (guarded : Guarded Thread Shared) : Prop :=
  ∀ left right, left ≠ right → guarded.holding left = some .exclusive →
    guarded.holding right = none

variable [DecidableEq Thread] {guarded : Guarded Thread Shared}

/-- Whoever acquires the lock waits until it is the only one, or one of the readers. -/
theorem exclusion_acquire {mode : Mode}
    (admits : ∀ other, mode.Admits (guarded.holding other)) (thread : Thread) :
    ({ guarded with holding := Function.update guarded.holding thread (some mode) } :
      Guarded Thread Shared).Exclusion := by
  intro left right different holds
  by_cases isLeft : left = thread
  · subst isLeft
    have exclusive : mode = .exclusive := by simpa using holds
    rw [exclusive] at admits
    simpa [Function.update_of_ne (Ne.symm different)] using Mode.admits_exclusive (admits right)
  · have held : guarded.holding left = some .exclusive := by
      simpa [Function.update_of_ne isLeft] using holds
    have admitted := admits left
    rw [held] at admitted
    exact absurd admitted mode.not_admits_exclusive

theorem Exclusion.release (exclusion : guarded.Exclusion) (thread : Thread) :
    ({ guarded with holding := Function.update guarded.holding thread none } :
      Guarded Thread Shared).Exclusion := by
  intro left right different holds
  by_cases isRight : right = thread
  · simp [isRight]
  · by_cases isLeft : left = thread
    · simp [isLeft] at holds
    · simpa [Function.update_of_ne isRight] using
        exclusion left right different (by simpa [Function.update_of_ne isLeft] using holds)

end Guarded

namespace Machine

variable [DecidableEq Thread] (machine : Machine Thread Call Res Outcome Shared)
  (modeOf : Op → Option Mode)

/-- One operation where nothing races; `locking` says whether the lock is a real one. -/
def executeGuarded (locking : Bool) (thread : Thread) : (op : SectionOp Op) →
    Guarded Thread Shared → op.Res Res → Guarded Thread Shared → Prop
  | .plain op, guarded, result, after =>
      machine.execute thread op guarded.shared result after.shared ∧
        after.holding = guarded.holding ∧ after.accessing = guarded.accessing
  | .acquire mode, guarded, _, after =>
      (locking = true → ∀ other, mode.Admits (guarded.holding other)) ∧
        after = { guarded with holding := Function.update guarded.holding thread (some mode) }
  | .enter mode, guarded, _, after =>
      after = { guarded with accessing := Function.update guarded.accessing thread (some mode) }
  | .leave op, guarded, result, after =>
      machine.execute thread op guarded.shared result after.shared ∧
        after.holding = guarded.holding ∧
        after.accessing = Function.update guarded.accessing thread none
  | .release, guarded, _, after =>
      after = { guarded with holding := Function.update guarded.holding thread none }

/-- The machine whose sections are written out.  After a race an operation may do
anything. -/
def guarded (locking : Bool) :
    Machine Thread Call (SectionOp.Res Res) Outcome (Guarded Thread Shared) where
  body call := (machine.body call).sections modeOf
  invoke thread call guarded after :=
    machine.invoke thread call guarded.shared after.shared ∧
      after.holding = guarded.holding ∧ after.accessing = guarded.accessing
  execute thread op guarded result after :=
    guarded.Race ∨ machine.executeGuarded locking thread op guarded result after

end Machine

namespace Label

/-- The label of a step which is one of the machine whose sections are single operations. -/
def coarse : Label Thread Call (SectionOp.Res Res) Outcome → Option (Label Thread Call Res Outcome)
  | .invoked thread call => some (.invoked thread call)
  | .performed thread call ⟨.plain op, result⟩ => some (.performed thread call ⟨op, result⟩)
  | .performed thread call ⟨.leave op, result⟩ => some (.performed thread call ⟨op, result⟩)
  | .performed _ _ ⟨.acquire _, _⟩ => none
  | .performed _ _ ⟨.enter _, _⟩ => none
  | .performed _ _ ⟨.release, _⟩ => none
  | .returned thread call outcome => some (.returned thread call outcome)

/-- The step does not start a call. -/
def IsAdvance : Label Thread Call (SectionOp.Res Res) Outcome → Prop
  | .invoked _ _ => False
  | .performed _ _ _ => True
  | .returned _ _ _ => True

variable {label : Label Thread Call (SectionOp.Res Res) Outcome}

theorem coarse_of_none (silent : label.coarse = none)
    (trace : List (Label Thread Call (SectionOp.Res Res) Outcome)) :
    (trace ++ [label]).filterMap coarse = trace.filterMap coarse := by
  simp [silent]

theorem coarse_of_some {shown : Label Thread Call Res Outcome} (shows : label.coarse = some shown)
    (trace : List (Label Thread Call (SectionOp.Res Res) Outcome)) :
    (trace ++ [label]).filterMap coarse = trace.filterMap coarse ++ [shown] := by
  simp [shows]

end Label

/-- Two configurations of the machines which stand for each other. -/
structure Coupled (modeOf : Op → Option Mode) (coarse : Config Thread Call Res Outcome Shared)
    (fine : Config Thread Call (SectionOp.Res Res) Outcome (Guarded Thread Shared)) : Prop where
  shared : fine.shared.shared = coarse.shared
  idle : ∀ thread, fine.running thread = none → coarse.running thread = none ∧
    fine.shared.holding thread = none ∧ fine.shared.accessing thread = none
  active : ∀ thread call rest, fine.running thread = some (call, rest) → ∃ coarseRest,
    coarse.running thread = some (call, coarseRest) ∧
      Program.At modeOf coarseRest rest (fine.shared.holding thread)
        (fine.shared.accessing thread)

namespace Coupled

variable [DecidableEq Thread] {modeOf : Op → Option Mode}
  {coarse after : Config Thread Call Res Outcome Shared}
  {fine : Config Thread Call (SectionOp.Res Res) Outcome (Guarded Thread Shared)}

/-- One of the threads has moved. -/
theorem move (coupled : Coupled modeOf coarse fine) {thread : Thread}
    {guarded : Guarded Thread Shared}
    {rest : Option (Call × Program (SectionOp.Res Res) Outcome)}
    (shared : guarded.shared = after.shared)
    (others : ∀ other, other ≠ thread → after.running other = coarse.running other ∧
      guarded.holding other = fine.shared.holding other ∧
      guarded.accessing other = fine.shared.accessing other)
    (idle : rest = none → after.running thread = none ∧ guarded.holding thread = none ∧
      guarded.accessing thread = none)
    (active : ∀ call left, rest = some (call, left) → ∃ coarseRest,
      after.running thread = some (call, coarseRest) ∧
        Program.At modeOf coarseRest left (guarded.holding thread) (guarded.accessing thread)) :
    Coupled modeOf after (fine.resume thread guarded rest) := by
  refine ⟨shared, ?_, ?_⟩
  · intro other otherIdle
    by_cases same : other = thread
    · subst same
      exact idle (by simpa using otherIdle)
    · rw [Config.resume_running_other _ same] at otherIdle
      rcases others other same with ⟨running, holding, accessing⟩
      simpa [running, holding, accessing] using coupled.idle other otherIdle
  · intro other call left otherActive
    by_cases same : other = thread
    · subst same
      exact active call left (by simpa using otherActive)
    · rw [Config.resume_running_other _ same] at otherActive
      rcases others other same with ⟨running, holding, accessing⟩
      simpa [running, holding, accessing] using coupled.active other call left otherActive

omit [DecidableEq Thread] in
theorem not_race (coupled : Coupled modeOf coarse fine) (exclusion : fine.shared.Exclusion) :
    ¬fine.shared.Race := by
  have holds {thread : Thread} {mode : Mode}
      (accesses : fine.shared.accessing thread = some mode) :
      fine.shared.holding thread = some mode := by
    cases running : fine.running thread with
    | none =>
        rw [(coupled.idle thread running).2.2] at accesses
        contradiction
    | some active =>
        rcases coupled.active thread active.1 active.2 running with ⟨coarseRest, -, isAt⟩
        exact isAt.accessing_eq accesses
  rintro ⟨left, right, mode, different, writes, accesses⟩
  have free := exclusion left right different (holds writes)
  rw [holds accesses] at free
  contradiction

end Coupled

section Runs

variable [DecidableEq Thread] {machine : Machine Thread Call Res Outcome Shared}
  {modeOf : Op → Option Mode} {initial : Shared}
  {trace : List (Label Thread Call (SectionOp.Res Res) Outcome)}
  {config after : Config Thread Call (SectionOp.Res Res) Outcome (Guarded Thread Shared)}

/-- The coarse machine keeps pace with the machine whose sections are written out. -/
structure Paced (machine : Machine Thread Call Res Outcome Shared) (modeOf : Op → Option Mode)
    (initial : Shared) (trace : List (Label Thread Call (SectionOp.Res Res) Outcome))
    (coarse : Config Thread Call Res Outcome Shared)
    (config : Config Thread Call (SectionOp.Res Res) Outcome (Guarded Thread Shared)) : Prop where
  run : machine.Run initial (trace.filterMap Label.coarse) coarse
  coupled : Coupled modeOf coarse config
  exclusion : config.shared.Exclusion

variable {coarse : Config Thread Call Res Outcome Shared}

theorem Paced.performed {thread : Thread} {call : Call} {op : SectionOp Op}
    {next : op.Res Res → Program (SectionOp.Res Res) Outcome} {result : op.Res Res}
    {guarded : Guarded Thread Shared} (paced : Paced machine modeOf initial trace coarse config)
    (active : config.running thread = some (call, .perform op next))
    (executes : machine.executeGuarded true thread op config.shared result guarded) :
    ∃ next', Paced machine modeOf initial (trace ++ [.performed thread call ⟨op, result⟩]) next'
      (config.resume thread guarded (some (call, next result))) := by
  have coupled := paced.coupled
  rcases coupled.active thread call _ active with ⟨coarseRest, coarseActive, isAt⟩
  generalize fine_eq : Program.perform op next = rest at isAt
  generalize holding_eq : config.shared.holding thread = holding at isAt
  generalize accessing_eq : config.shared.accessing thread = accessing at isAt
  cases isAt with
  | outside =>
      cases coarseRest with
      | done outcome => simp at fine_eq
      | perform coarseOp coarseNext =>
          cases inside : modeOf coarseOp with
          | none =>
              rw [Program.sections_of_none inside] at fine_eq
              cases fine_eq
              rcases executes with ⟨did, holding, accessing⟩
              refine ⟨coarse.resume thread guarded.shared (some (call, coarseNext result)),
                ?_, ?_, ?_⟩
              · rw [Label.coarse_of_some rfl]
                exact .step paced.run (.perform coarseActive (coupled.shared ▸ did))
              · refine coupled.move rfl ?_ (by simp) ?_
                · intro other different
                  simp [Config.resume_running_other _ different, holding, accessing]
                · rintro _ _ ⟨rfl, rfl⟩
                  refine ⟨coarseNext result, by simp, ?_⟩
                  rw [holding, accessing, holding_eq, accessing_eq]
                  exact .outside _
              · simpa [Guarded.Exclusion, holding] using paced.exclusion
          | some mode =>
              rw [Program.sections_of_some inside] at fine_eq
              cases fine_eq
              rcases executes with ⟨admits, rfl⟩
              refine ⟨coarse, by rw [Label.coarse_of_none rfl]; exact paced.run, ?_,
                Guarded.exclusion_acquire (admits rfl) thread⟩
              refine coupled.move coupled.shared ?_ (by simp) ?_
              · intro other different
                simp [Function.update_of_ne different]
              · rintro _ _ ⟨rfl, rfl⟩
                refine ⟨_, coarseActive, ?_⟩
                simpa [accessing_eq] using Program.At.acquired inside
  | @acquired coarseOp coarseNext mode inside =>
      cases fine_eq
      simp only [Machine.executeGuarded] at executes
      subst executes
      refine ⟨coarse, by rw [Label.coarse_of_none rfl]; exact paced.run, ?_, paced.exclusion⟩
      refine coupled.move coupled.shared ?_ (by simp) ?_
      · intro other different
        simp [Function.update_of_ne different]
      · rintro _ _ ⟨rfl, rfl⟩
        refine ⟨_, coarseActive, ?_⟩
        simpa [holding_eq] using Program.At.entered inside
  | @entered coarseOp coarseNext mode inside =>
      cases fine_eq
      rcases executes with ⟨did, holding, accessing⟩
      refine ⟨coarse.resume thread guarded.shared (some (call, coarseNext result)), ?_, ?_, ?_⟩
      · rw [Label.coarse_of_some rfl]
        exact .step paced.run (.perform coarseActive (coupled.shared ▸ did))
      · refine coupled.move rfl ?_ (by simp) ?_
        · intro other different
          simp [Config.resume_running_other _ different, holding, accessing,
            Function.update_of_ne different]
        · rintro _ _ ⟨rfl, rfl⟩
          refine ⟨coarseNext result, by simp, ?_⟩
          rw [holding, accessing, holding_eq, Function.update_self]
          exact .left _ mode
      · simpa [Guarded.Exclusion, holding] using paced.exclusion
  | left mode =>
      cases fine_eq
      simp only [Machine.executeGuarded] at executes
      subst executes
      refine ⟨coarse, by rw [Label.coarse_of_none rfl]; exact paced.run, ?_,
        paced.exclusion.release thread⟩
      refine coupled.move coupled.shared ?_ (by simp) ?_
      · intro other different
        simp [Function.update_of_ne different]
      · rintro _ _ ⟨rfl, rfl⟩
        refine ⟨_, coarseActive, ?_⟩
        simpa [accessing_eq] using Program.At.outside coarseRest

theorem Paced.step {label : Label Thread Call (SectionOp.Res Res) Outcome}
    (paced : Paced machine modeOf initial trace coarse config)
    (next : (machine.guarded modeOf true).Step config label after) :
    ∃ next, Paced machine modeOf initial (trace ++ [label]) next after := by
  have coupled := paced.coupled
  cases next with
  | @invoke thread call guarded idle allowed =>
      rcases allowed with ⟨invoked, holding, accessing⟩
      rcases coupled.idle thread idle with ⟨coarseIdle, holding_eq, accessing_eq⟩
      refine ⟨coarse.resume thread guarded.shared (some (call, machine.body call)), ?_, ?_, ?_⟩
      · rw [Label.coarse_of_some rfl]
        exact .step paced.run (.invoke coarseIdle (coupled.shared ▸ invoked))
      · refine coupled.move rfl ?_ (by simp) ?_
        · intro other different
          simp [Config.resume_running_other _ different, holding, accessing]
        · rintro _ _ ⟨rfl, rfl⟩
          refine ⟨machine.body call, by simp, ?_⟩
          rw [holding, accessing, holding_eq, accessing_eq]
          exact .outside _
      · simpa [Guarded.Exclusion, holding] using paced.exclusion
  | perform active effect =>
      exact paced.performed active (effect.resolve_left (coupled.not_race paced.exclusion))
  | @finish thread call outcome ended =>
      rcases coupled.active thread call _ ended with ⟨coarseRest, coarseActive, isAt⟩
      rcases isAt.done with ⟨rfl, holding, accessing⟩
      refine ⟨coarse.resume thread coarse.shared none, ?_, ?_, paced.exclusion⟩
      · rw [Label.coarse_of_some rfl]
        exact .step paced.run (.finish coarseActive)
      · refine coupled.move coupled.shared ?_ ?_ (by simp)
        · intro other different
          simp [Config.resume_running_other _ different]
        · intro _
          exact ⟨by simp, holding, accessing⟩

theorem paced_of_run
    (run : (machine.guarded modeOf true).Run (.start initial) trace config) :
    ∃ coarse, Paced machine modeOf initial trace coarse config := by
  refine run.invariant (fun trace config =>
    ∃ coarse, Paced machine modeOf initial trace coarse config) ?_ ?_
  · refine ⟨⟨initial, fun _ => none⟩, .start, ⟨rfl, ?_, by simp⟩, ?_⟩
    · intro thread _
      exact ⟨rfl, rfl, rfl⟩
    · intro left right _ holds
      contradiction
  · rintro trace config label after - ⟨coarse, paced⟩ next
    exact paced.step next

/-- With the lock no accesses race. -/
theorem not_race_of_run (run : (machine.guarded modeOf true).Run (.start initial) trace config) :
    ¬config.shared.Race := by
  rcases paced_of_run run with ⟨coarse, paced⟩
  exact paced.coupled.not_race paced.exclusion

/-- An operation that a thread is about to perform can be performed. -/
def Live (machine : Machine Thread Call Res Outcome Shared)
    (coarse : Config Thread Call Res Outcome Shared) : Prop :=
  ∀ thread call op next, coarse.running thread = some (call, .perform op next) →
    ∃ result after, machine.execute thread op coarse.shared result after

theorem advance_of_executes {thread : Thread} {call : Call} {op : SectionOp Op}
    {next : op.Res Res → Program (SectionOp.Res Res) Outcome}
    (active : config.running thread = some (call, .perform op next)) (result : op.Res Res)
    (guarded : Guarded Thread Shared)
    (executes : machine.executeGuarded true thread op config.shared result guarded) :
    ∃ label after, (machine.guarded modeOf true).Step config label after ∧ label.IsAdvance :=
  ⟨.performed thread call ⟨op, result⟩, _, .perform active (Or.inr executes), trivial⟩

/-- A thread inside of a section can go on. -/
theorem advance_of_holding (coupled : Coupled modeOf coarse config) (live : Live machine coarse)
    {thread : Thread} (holds : config.shared.holding thread ≠ none) :
    ∃ label after, (machine.guarded modeOf true).Step config label after ∧ label.IsAdvance := by
  cases running : config.running thread with
  | none => exact absurd (coupled.idle thread running).2.1 holds
  | some active =>
      rcases active with ⟨call, rest⟩
      rcases coupled.active thread call rest running with ⟨coarseRest, coarseActive, isAt⟩
      generalize holding_eq : config.shared.holding thread = holding at isAt
      generalize config.shared.accessing thread = accessing at isAt
      cases isAt with
      | outside => exact absurd holding_eq holds
      | acquired inside => exact advance_of_executes running () _ rfl
      | @entered op next mode inside =>
          rcases live thread call op next coarseActive with ⟨result, after, did⟩
          apply advance_of_executes running result ⟨after, config.shared.holding,
            Function.update config.shared.accessing thread none⟩
          exact ⟨coupled.shared ▸ did, rfl, rfl⟩
      | left mode => exact advance_of_executes running () _ rfl

/-- Whenever a thread is in a call, some thread can go on. -/
theorem advance_of_running (coupled : Coupled modeOf coarse config) (live : Live machine coarse)
    {thread : Thread} (busy : config.running thread ≠ none) :
    ∃ label after, (machine.guarded modeOf true).Step config label after ∧ label.IsAdvance := by
  rcases Option.ne_none_iff_exists'.mp busy with ⟨⟨call, rest⟩, running⟩
  rcases coupled.active thread call rest running with ⟨coarseRest, coarseActive, isAt⟩
  by_cases holds : config.shared.holding thread = none
  · generalize config.shared.accessing thread = accessing at isAt
    rw [holds] at isAt
    cases isAt with
    | outside =>
        cases coarseRest with
        | done outcome => exact ⟨_, _, .finish running, trivial⟩
        | perform op next =>
            cases inside : modeOf op with
            | none =>
                rw [Program.sections_of_none inside] at running
                rcases live thread call op next coarseActive with ⟨result, after, did⟩
                apply advance_of_executes running result
                  ⟨after, config.shared.holding, config.shared.accessing⟩
                exact ⟨coupled.shared ▸ did, rfl, rfl⟩
            | some mode =>
                rw [Program.sections_of_some inside] at running
                by_cases admits : ∀ other, mode.Admits (config.shared.holding other)
                · exact advance_of_executes running () _ ⟨fun _ => admits, rfl⟩
                · -- the lock is not free, and who holds it does not wait for anybody
                  rcases not_forall.mp admits with ⟨other, waits⟩
                  apply advance_of_holding coupled live
                  intro free
                  rw [free] at waits
                  exact waits trivial
  · exact advance_of_holding coupled live holds

end Runs

end Atomic
