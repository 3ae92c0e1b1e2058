import Urn.Startup.Basic

/-!
# When and in which order the sockets are bound

mmsg binds all sockets on the main thread, after it has created them; the threads of
io_uring bind their own, after the latch; libuv creates and binds one socket after the
other.
-/

namespace Urn.Startup

open Execution Sequential

section Sockets

variable {backEnd : BackEnd} {config : Config} {events : List (Event config)}
  {threads : Threads (Thread config.threadCount) (State config.threadCount)}

/-- No socket is bound before all sockets of all workers have been created. -/
def BackEnd.CreatesFirst (backEnd : BackEnd) : Prop :=
  ∀ config events threads, backEnd.run config events = .ok threads →
    threads.shared.bound ≠ [] → ∀ worker side, (worker, side) ∈ threads.shared.created

theorem mmsg_createsFirst : BackEnd.mmsg.CreatesFirst := by
  intro config events threads ran bound other otherSide
  rcases List.exists_mem_of_ne_nil _ bound with ⟨⟨worker, side⟩, mem⟩
  rcases (mem_bound_iff ran).mp mem with ⟨thread, performed⟩
  have inProgram := (Code.performed_prefix thread).subset performed
  have isMain : thread = .main := by
    simpa using BackEnd.bindSocket_mem_program.mp inProgram
  subst isMain
  rw [mem_created_iff ran]
  refine ⟨.main, Code.performed_of_performed rfl ?_ ?_ performed⟩
  · cases otherSide <;> simp [BackEnd.mmsgSockets]
  · simp [BackEnd.mmsgSockets]

theorem uring_createsFirst : BackEnd.uring.CreatesFirst := by
  intro config events threads ran bound other otherSide
  rcases List.exists_mem_of_ne_nil _ bound with ⟨⟨worker, side⟩, mem⟩
  rcases (mem_bound_iff ran).mp mem with ⟨thread, performed⟩
  have inProgram := (Code.performed_prefix thread).subset performed
  have isOwn : thread = BackEnd.uring.threadOf worker := by
    simpa using BackEnd.bindSocket_mem_program.mp inProgram
  subst isOwn
  -- the thread has returned from the latch, so the other one has called it
  have program_eq : (BackEnd.uring.code config).program (BackEnd.uring.threadOf worker) =
      (BackEnd.uring.prelude worker ++ [.callLatch worker, .returnFromLatch worker]) ++
        BackEnd.uring.remainder worker := by
    rw [List.append_assoc]
    exact BackEnd.program_eq (by simp) worker
  have returned : .returnFromLatch worker ∈
      (BackEnd.uring.code config).performed threads (BackEnd.uring.threadOf worker) := by
    refine Code.performed_of_performed program_eq (by simp) ?_ performed
    by_cases isZero : worker = 0 <;>
      simp [BackEnd.prelude, BackEnd.workerThreads, isZero]
  have called := called_of_returned ran returned other
  rw [mem_created_iff ran]
  refine ⟨_, Code.performed_of_performed (BackEnd.program_eq (by simp) other) ?_ ?_ called⟩
  · cases otherSide <;> simp [BackEnd.prelude]
  · intro mem
    simpa [Statement.caller] using BackEnd.caller_of_mem_prelude mem

/-- The sockets of each port are numbered like the workers. -/
def BackEnd.NumbersInOrder (backEnd : BackEnd) : Prop :=
  ∀ config events threads, backEnd.run config events = .ok threads →
    ∀ side, threads.shared.group side <+: List.finRange config.threadCount

/-- The worker whose socket of the port the statement binds. -/
def Side.select (side : Side) (statement : Statement n) : Option (Fin n) :=
  statement.binds.bind side.worker?

/-- If the main thread alone binds sockets, it does so in the order of its program. -/
theorem group_prefix (alone : ∀ thread, thread ≠ .main →
      ∀ statement ∈ (backEnd.code config).program thread, statement.binds = none)
    (ran : backEnd.run config events = .ok threads) (side : Side) :
    threads.shared.group side <+:
      ((backEnd.code config).program .main).filterMap side.select := by
  have bound_eq := logs_bound.eq_filterMap rfl alone ran
  rw [State.group, bound_eq, List.filterMap_filterMap]
  exact (Code.performed_prefix _).filterMap _

theorem binds_of_made (notUring : backEnd ≠ .uring) {thread : Thread config.threadCount}
    (notMain : thread ≠ .main) {statement : Statement config.threadCount}
    (mem : statement ∈ (backEnd.code config).program thread) : statement.binds = none := by
  cases binds : statement.binds with
  | none => rfl
  | some socket =>
      rw [Statement.binds_eq_some] at binds
      subst binds
      have isMain := BackEnd.bindSocket_mem_program.mp mem
      rw [if_neg notUring] at isMain
      contradiction

theorem filterMap_flatMap_finRange {statements : Fin n → List (Statement n)} {side : Side}
    (each : ∀ worker, (statements worker).filterMap side.select = [worker])
    (workers : List (Fin n)) : (workers.flatMap statements).filterMap side.select = workers := by
  induction workers with
  | nil => rfl
  | cons worker workers ih => simp [List.filterMap_append, each, ih]

theorem main_select [NeZero n] (notUring : backEnd ≠ .uring) (side : Side) :
    (backEnd.main : List (Statement n)).filterMap side.select = List.finRange n := by
  cases backEnd with
  | libuv =>
      apply filterMap_flatMap_finRange
      intro worker
      cases side <;> rfl
  | mmsg =>
      have sockets : (BackEnd.mmsgSockets : List (Statement n)).filterMap side.select = [] := by
        rw [List.filterMap_eq_nil_iff]
        intro statement mem
        cases statement <;> simp_all [BackEnd.mmsgSockets, Side.select, Statement.binds]
      have binds : (BackEnd.mmsgBinds : List (Statement n)).filterMap side.select =
          List.finRange n := by
        apply filterMap_flatMap_finRange
        intro worker
        cases side <;> rfl
      have others : (BackEnd.workerThreads ++ BackEnd.mmsg.worker 0 :
          List (Statement n)).filterMap side.select = [] := by
        simp [BackEnd.workerThreads, BackEnd.worker, Side.select, Statement.binds]
      rw [BackEnd.main, List.filterMap_append, sockets, List.filterMap_append, binds, others]
      simp
  | uring => contradiction

theorem numbersInOrder (notUring : backEnd ≠ .uring) : backEnd.NumbersInOrder := by
  intro config events threads ran side
  rw [← main_select notUring side]
  apply group_prefix ?_ ran
  intro thread notMain statement mem
  exact binds_of_made notUring notMain mem

/-- Two workers. -/
def two : Config := ⟨2, by decide⟩

/-- The second of two workers. -/
def second : Fin two.threadCount := ⟨1, by decide⟩

/-- With libuv, the main thread binds a socket of the first worker. -/
def bindsEarly : List (Event two) := [.statement .main, .statement .main]

theorem not_libuv_createsFirst : ¬BackEnd.libuv.CreatesFirst := by
  intro createsFirst
  have succeeds : succeedsWith (BackEnd.libuv.run two bindsEarly) (fun threads =>
      threads.shared.bound ≠ [] ∧ (second, Side.client) ∉ threads.shared.created) = true := by
    decide +kernel
  rcases exists_of_succeedsWith succeeds with ⟨threads, ran, early⟩
  have early := of_decide_eq_true early
  exact early.2 (createsFirst two bindsEarly threads ran early.1 second .client)

/-- With io_uring, the second worker is the last one to reach the latch, and goes on. -/
def overtakes : List (Event two) :=
  [.statement .main, .statement .main, .statement .main, .statement .main,
    .statement (.made second), .statement (.made second), .statement (.made second),
    .internal (.enter 0), .internal (.enter second), .statement (.made second),
    .statement (.made second)]

theorem not_uring_numbersInOrder : ¬BackEnd.uring.NumbersInOrder := by
  intro inOrder
  have succeeds : succeedsWith (BackEnd.uring.run two overtakes) (fun threads =>
      threads.shared.group .client = [second]) = true := by
    decide +kernel
  rcases exists_of_succeedsWith succeeds with ⟨threads, ran, overtaken⟩
  have ordered := inOrder two overtakes threads ran .client
  rw [of_decide_eq_true overtaken] at ordered
  revert ordered
  decide +kernel

/-- Every socket is created before the first one is bound, except with libuv. -/
theorem creates_first_iff (backEnd : BackEnd) : backEnd.CreatesFirst ↔ backEnd ≠ .libuv := by
  cases backEnd with
  | libuv => simpa using not_libuv_createsFirst
  | mmsg => simpa using mmsg_createsFirst
  | uring => simpa using uring_createsFirst

/-- The kernel numbers the sockets of a port like the workers, whatever the order in which
threads run, except with io_uring. -/
theorem numbers_in_order_iff (backEnd : BackEnd) :
    backEnd.NumbersInOrder ↔ backEnd ≠ .uring := by
  constructor
  · rintro inOrder rfl
    exact not_uring_numbersInOrder inOrder
  · exact numbersInOrder

end Sockets

end Urn.Startup
