import Urn.Foundation.Sections
import Urn.Relay.Routing

/-!
# The mutex of the sessions

`urn::shared_mutex<MultiThreaded>` of `urn/mutex.hpp` is a `std::shared_mutex`, or does
nothing if `MultiThreaded` is false.  `try_register_session` holds it exclusively while
it changes `sessions_`, and `find_session` shares it while it reads `sessions_`.
-/

namespace Urn.Relay

open Atomic

variable {Thread Endpoint : Type}

/-- How the sections hold `sessions_mutex_`: by a `std::lock_guard` or a `std::shared_lock`. -/
def Op.mode {Packet : Type} : Op Endpoint Packet → Option Mode
  | .tryRegisterSession _ _ => some .exclusive
  | .findSession _ => some .shared
  | .updateIoStatistics _ _ => none
  | .readSessionId _ => none
  | .clientStartReceive => none
  | .peerStartReceive => none
  | .clientEndpoint _ => none
  | .send _ _ _ => none

variable [DecidableEq Thread] (library : Library Thread Endpoint (List UInt8))

/-- `urn::relay<Library, MultiThreaded>` with its sections written out. -/
def Library.locked (multiThreaded : Bool) :=
  library.machine.guarded Op.mode multiThreaded

/-- The runs of a relay with the mutex. -/
abbrev Library.LockedRun (multiThreaded : Bool) (start : library.State) :=
  (library.locked multiThreaded).Run (.start ⟨State.initial, start⟩)

/-- The labels of the steps of a relay with the mutex. -/
abbrev LockedLabel (Thread Endpoint : Type) :=
  Atomic.Label Thread (Call Endpoint (List UInt8))
    (SectionOp.Res (@Op.Result Endpoint (List UInt8))) (Option Bool)

/-- The configurations of a relay with the mutex. -/
abbrev LockedConfig :=
  Config Thread (Call Endpoint (List UInt8)) (SectionOp.Res (@Op.Result Endpoint (List UInt8)))
    (Option Bool) (Guarded Thread (Shared library))

variable {library} {start : library.State} {trace : List (LockedLabel Thread Endpoint)}
  {config : LockedConfig library}

section Races

/-- A thread which is in no call can get into the registration section, if the mutex is
free or the dummy. -/
theorem enters_registration {multiThreaded : Bool} (src : Endpoint)
    {trace : List (LockedLabel Thread Endpoint)}
    {config : LockedConfig (Library.unconstrained Thread Endpoint (List UInt8))}
    (run : (Library.unconstrained Thread Endpoint (List UInt8)).LockedRun multiThreaded () trace
      config)
    (free : multiThreaded = true → ∀ other, config.shared.holding other = none)
    {thread : Thread} (idle : config.running thread = none) :
    ∃ trace after,
      (Library.unconstrained Thread Endpoint (List UInt8)).LockedRun multiThreaded () trace after ∧
      after.shared.accessing thread = some .exclusive ∧ after.running thread ≠ none ∧
      ∀ other, other ≠ thread → after.running other = config.running other ∧
        after.shared.accessing other = config.shared.accessing other := by
  let data : List UInt8 := [0, 0, 0, 0, 0, 0, 0, 0]
  let counted : Guarded Thread (Shared (Library.unconstrained Thread Endpoint (List UInt8))) :=
    { config.shared with
      shared := { config.shared.shared with
        relay := config.shared.shared.relay.updateIoStatistics thread .inbound data.length } }
  let acquired : Guarded Thread (Shared (Library.unconstrained Thread Endpoint (List UInt8))) :=
    { counted with holding := Function.update counted.holding thread (some .exclusive) }
  let entered : Guarded Thread (Shared (Library.unconstrained Thread Endpoint (List UInt8))) :=
    { acquired with accessing := Function.update acquired.accessing thread (some .exclusive) }
  have admits (locking : multiThreaded = true) (other : Thread) :
      Mode.exclusive.Admits (counted.holding other) := by
    simp only [counted, free locking other]
    trivial
  have run := run.invoked thread (.clientReceived src data) config.shared idle
    ⟨⟨rfl, trivial⟩, rfl, rfl⟩
  have run := run.performed thread () counted (Config.resume_running_self _ _ _ _)
    (Or.inr ⟨rfl, rfl, rfl⟩)
  have run := run.performed thread (getSessionId data) counted (Config.resume_running_self _ _ _ _)
    (Or.inr ⟨⟨rfl, rfl⟩, rfl, rfl⟩)
  have run := run.performed thread () acquired (Config.resume_running_self _ _ _ _)
    (Or.inr ⟨admits, rfl⟩)
  have run := run.performed thread () entered (Config.resume_running_self _ _ _ _) (Or.inr rfl)
  refine ⟨_, _, run, by simp [entered], by simp, ?_⟩
  intro other different
  simp [Config.resume_running_other _ different, entered, acquired, counted,
    Function.update_of_ne different]

variable (Thread Endpoint) in
/-- No accesses to `sessions_` race, whatever calls the threads make in whatever order. -/
def RaceFree (multiThreaded : Bool) : Prop :=
  ∀ trace config,
    (Library.unconstrained Thread Endpoint (List UInt8)).LockedRun multiThreaded () trace config →
      ¬config.shared.Race

theorem raceFree_iff [Inhabited Endpoint] {multiThreaded : Bool} :
    RaceFree Thread Endpoint multiThreaded ↔ multiThreaded = true ∨ Subsingleton Thread := by
  constructor
  · intro raceFree
    cases multiThreaded with
    | true => exact Or.inl rfl
    | false =>
        right
        by_contra several
        rcases not_subsingleton_iff_nontrivial.mp several with ⟨left, right, different⟩
        have unused : (Library.unconstrained Thread Endpoint (List UInt8)).LockedRun false () []
            ⟨.start ⟨State.initial, ()⟩, fun _ => none⟩ := .start
        rcases enters_registration default unused (fun _ _ => rfl) rfl with
          ⟨trace, config, run, leftWrites, -, others⟩
        have rightIdle : config.running right = none := (others right different.symm).1
        rcases enters_registration default run (by simp) rightIdle with
          ⟨trace, after, run, rightWrites, -, others⟩
        have leftStill := (others left different).2.trans leftWrites
        exact raceFree trace after run ⟨left, right, _, different, leftStill, rightWrites⟩
  · rintro (rfl | single) trace config run
    · exact not_race_of_run run
    · rintro ⟨left, right, mode, different, -⟩
      exact different (Subsingleton.elim left right)

inductive BackEnd
  | libuv
  | mmsg
  | uring
  | demi
  | seastar
deriving DecidableEq

/-- The argument `MultiThreaded` with which the back end instantiates the relay. -/
def BackEnd.multiThreaded : BackEnd → Bool
  | libuv => true
  | mmsg => true
  | uring => true
  | demi => false
  | seastar => false

/-- How many threads of the back end use the relay, if the given number is configured. -/
def BackEnd.threads (configured : ℕ) : BackEnd → ℕ
  | libuv => configured
  | mmsg => configured
  | uring => configured
  | demi => 1
  | seastar => configured

/-- Seastar has its shards share a relay for a single thread. -/
theorem sessions_race_free_iff [Inhabited Endpoint] (backEnd : BackEnd) (configured : ℕ) :
    RaceFree (Fin (backEnd.threads configured)) Endpoint backEnd.multiThreaded ↔
      (backEnd = .seastar → configured ≤ 1) := by
  rw [raceFree_iff, Fin.subsingleton_iff_le_one]
  cases backEnd <;> simp [BackEnd.multiThreaded, BackEnd.threads]

end Races

section Refinement

/-- With the mutex no accesses to `sessions_` race, and the relay behaves as if each
section were a single operation: the calls, their operations and their results are those
of a run without the mutex, in the same order. -/
theorem sections_are_atomic (run : library.LockedRun true start trace config) :
    ¬config.shared.Race ∧ ∃ coarse, library.Run start (trace.filterMap Label.coarse) coarse ∧
      coarse.shared = config.shared.shared := by
  rcases paced_of_run run with ⟨coarse, paced⟩
  exact ⟨not_race_of_run run, coarse, paced.run, paced.coupled.shared.symm⟩

/-- A thread is in the registration section. -/
theorem exists_registering : ∃ trace config,
    (Library.unconstrained Bool ℕ (List UInt8)).LockedRun true () trace config ∧
      config.shared.accessing false = some .exclusive ∧ config.running false ≠ none := by
  have unused : (Library.unconstrained Bool ℕ (List UInt8)).LockedRun true () []
      ⟨.start ⟨State.initial, ()⟩, fun _ => none⟩ := .start
  rcases enters_registration 7 unused (fun _ _ => rfl) rfl with
    ⟨trace, config, run, writes, busy, -⟩
  exact ⟨trace, config, run, writes, busy⟩

theorem registration_is_atomic : ∃ trace config,
    (Library.unconstrained Bool ℕ (List UInt8)).LockedRun true () trace config ∧
      config.shared.accessing false = some .exclusive ∧ ¬config.shared.Race := by
  rcases exists_registering with ⟨trace, config, run, writes, -⟩
  exact ⟨trace, config, run, writes, (sections_are_atomic run).1⟩

end Refinement

section Progress

/-- The Library lets every call of the relay return. -/
structure Library.Receptive (library : Library Thread Endpoint (List UInt8)) : Prop where
  client : ∀ state, ∃ after, library.clientStartReceive state after
  peer : ∀ state, ∃ after, library.peerStartReceive state after
  send : ∀ session endpoint packet state,
    ∃ completed after, library.send session endpoint packet state completed after

/-- A handler never waits for an operation; in particular the session it uses exists. -/
theorem live_of_run (receptive : library.Receptive) {trace : List (Label Thread Endpoint)}
    {coarse : Config Thread (Call Endpoint (List UInt8)) (@Op.Result Endpoint (List UInt8))
      (Option Bool) (Shared library)} (run : library.Run start trace coarse) :
    Live library.machine coarse := by
  intro thread call op next active
  rcases coarse_eq : coarse.shared with ⟨relay, state⟩
  cases op with
  | updateIoStatistics flow packet => exact ⟨(), _, rfl⟩
  | readSessionId packet => exact ⟨_, _, rfl, rfl⟩
  | tryRegisterSession id src => exact ⟨_, ⟨_, state⟩, rfl, rfl⟩
  | findSession id => exact ⟨_, _, rfl, rfl⟩
  | clientStartReceive =>
      rcases receptive.client state with ⟨after, started⟩
      exact ⟨(), ⟨relay, after⟩, rfl, started⟩
  | peerStartReceive =>
      rcases receptive.peer state with ⟨after, started⟩
      exact ⟨(), ⟨relay, after⟩, rfl, started⟩
  | clientEndpoint session =>
      rcases State.mem_sessions_iff.mp (session_mem_of_running run active) with ⟨endpoint, bound⟩
      rw [coarse_eq] at bound
      exact ⟨endpoint, _, bound, rfl⟩
  | send session endpoint packet =>
      rcases receptive.send session endpoint packet state with ⟨completed, after, sent⟩
      exact ⟨completed, ⟨relay, after⟩, rfl, sent⟩

/-- Whenever a thread is in a handler, some thread can go on. -/
theorem mutex_never_deadlocks (receptive : library.Receptive)
    (run : library.LockedRun true start trace config) {thread : Thread}
    (busy : config.running thread ≠ none) :
    ∃ label after, (library.locked true).Step config label after ∧ label.IsAdvance := by
  rcases paced_of_run run with ⟨coarse, paced⟩
  exact advance_of_running paced.coupled (live_of_run receptive paced.run) busy

omit [DecidableEq Thread] in
theorem receptive_unconstrained :
    (Library.unconstrained Thread Endpoint (List UInt8)).Receptive where
  client _ := ⟨(), trivial⟩
  peer _ := ⟨(), trivial⟩
  send _ _ _ _ := ⟨true, (), trivial⟩

theorem registration_never_deadlocks : ∃ trace config,
    (Library.unconstrained Bool ℕ (List UInt8)).LockedRun true () trace config ∧
      ∃ label after, ((Library.unconstrained Bool ℕ (List UInt8)).locked true).Step config label
        after ∧ label.IsAdvance := by
  rcases exists_registering with ⟨trace, config, run, -, busy⟩
  exact ⟨trace, config, run, mutex_never_deadlocks receptive_unconstrained run busy⟩

end Progress

end Urn.Relay
