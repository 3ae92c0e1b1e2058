import Urn.Relay.Directory
import Urn.Relay.Mutex

/-!
# The handlers are linearizable

A handler works on `sessions_` in one section at most.  If this section is taken for
the moment at which the relay is asked, then in every interleaving `sessions_` is the
table of a directory, and each thread sends what the directory answers to it.
-/

namespace Urn.Relay

open Atomic

variable {Thread Endpoint : Type}

/-- What a thread asks with a datagram that it has received. -/
abbrev ThreadRequest (Thread Endpoint : Type) :=
  Directory.Request SessionId Endpoint (Thread × List UInt8)

def sessionIdOf (item : Thread × List UInt8) : SessionId := getSessionId item.2

/-- What an operation of a call asks. -/
def opRequest (thread : Thread) (call : Call Endpoint (List UInt8)) :
    Op Endpoint (List UInt8) → Option (ThreadRequest Thread Endpoint)
  | .tryRegisterSession id src => some (.claim id src)
  | .findSession _ =>
      match call with
      | .peerReceived _ packet => some (.deliver (thread, packet))
      | _ => none
  | _ => none

def requestOf : Label Thread Endpoint → Option (ThreadRequest Thread Endpoint)
  | .performed thread call step => opRequest thread call step.1
  | _ => none

/-- The answers to the threads, each with its thread. -/
def deliveries (trace : List (Label Thread Endpoint)) :
    List (Endpoint × (Thread × List UInt8)) :=
  Directory.Table.empty.answers sessionIdOf (trace.filterMap requestOf)

/-- What an operation sends. -/
def opSends (thread : Thread) :
    Op Endpoint (List UInt8) → Option (Endpoint × (Thread × List UInt8))
  | .send _ endpoint packet => some (endpoint, (thread, packet))
  | _ => none

def sentOf : Label Thread Endpoint → Option (Endpoint × (Thread × List UInt8))
  | .performed thread _ step => opSends thread step.1
  | _ => none

/-- The calls of `start_send` by all threads. -/
def allSends (trace : List (Label Thread Endpoint)) : List (Endpoint × (Thread × List UInt8)) :=
  trace.filterMap sentOf

/-- What a handler has found a session for and has still to send. -/
def due (thread : Thread) (relay : State Thread Endpoint) :
    Option (Call Endpoint (List UInt8) ×
      Program (@Op.Result Endpoint (List UInt8)) (Option Bool)) →
    List (Endpoint × (Thread × List UInt8))
  | some (.peerReceived _ packet, .perform (.clientEndpoint session) _) =>
      ((relay.clientEndpoint? session).map fun endpoint => (endpoint, (thread, packet))).toList
  | some (_, .perform (.send _ endpoint packet) _) => [(endpoint, (thread, packet))]
  | _ => []

/-- What a call asks, all in all. -/
def Call.asks (thread : Thread) :
    Call Endpoint (List UInt8) → List (ThreadRequest Thread Endpoint)
  | .clientReceived src packet =>
      if packet.length = sessionIdSize then [.claim (getSessionId packet) src] else []
  | .peerReceived _ packet =>
      if sessionIdSize ≤ packet.length then [.deliver (thread, packet)] else []
  | .sessionSent _ _ => []

section Bodies

/-- The result of an operation, as far as it does not depend on the state. -/
def Genuine : (op : Op Endpoint (List UInt8)) → op.Result → Prop
  | .readSessionId packet, id => id = getSessionId packet
  | _, _ => True

/-- The handler is about to use a session. -/
def Forwards : Program (@Op.Result Endpoint (List UInt8)) (Option Bool) → Prop
  | .perform (.clientEndpoint _) _ => True
  | .perform (.send _ _ _) _ => True
  | _ => False

/-- What comes after an operation of a call: a session which has been found is used, and
no other is. -/
def Follows (call : Call Endpoint (List UInt8)) : (op : Op Endpoint (List UInt8)) → op.Result →
    Program (@Op.Result Endpoint (List UInt8)) (Option Bool) → Prop
  | .findSession _, some session, rest =>
      ∃ src packet next, call = .peerReceived src packet ∧
        rest = .perform (.clientEndpoint session) next
  | .clientEndpoint session, endpoint, rest =>
      ∃ src packet next, call = .peerReceived src packet ∧
        rest = .perform (.send session endpoint packet) next
  | _, _, rest => ¬Forwards rest

/-- The rest of a call goes on as `Follows` says, and looks up the id of its packet. -/
def Orderly (call : Call Endpoint (List UInt8)) :
    Program (@Op.Result Endpoint (List UInt8)) (Option Bool) → Prop
  | .done _ => True
  | .perform op next =>
      (∀ id, op = .findSession id → ∃ src packet, call = .peerReceived src packet ∧
        id = getSessionId packet) ∧
      ∀ result, Genuine op result → Follows call op result (next result) ∧
        Orderly call (next result)

theorem body_orderly (call : Call Endpoint (List UInt8)) : Orderly call call.body := by
  cases call with
  | clientReceived src packet =>
      rw [body_clientReceived]
      refine ⟨by simp, fun _ _ => ?_⟩
      split
      · refine ⟨id, by simp, fun _ _ => ⟨id, by simp, ?_⟩⟩
        intro registered _
        cases registered <;> simp [Orderly, Follows, Forwards]
      · simp [Orderly, Follows, Forwards]
  | peerReceived src packet =>
      rw [body_peerReceived]
      refine ⟨by simp, fun _ _ => ?_⟩
      split
      · refine ⟨id, by simp, ?_⟩
        rintro _ rfl
        refine ⟨id, ?_, ?_⟩
        · rintro _ ⟨rfl⟩
          exact ⟨src, packet, rfl, rfl⟩
        · intro found _
          cases found with
          | none => simp [Orderly, Follows, Forwards]
          | some session =>
              refine ⟨⟨src, packet, _, rfl, rfl⟩, by simp, fun endpoint _ => ?_⟩
              refine ⟨⟨src, packet, _, rfl, rfl⟩, by simp, fun completed _ => ?_⟩
              cases completed <;> simp [Orderly, Follows, Forwards]
      · simp [Orderly, Follows, Forwards]
  | sessionSent session packet =>
      rw [body_sessionSent]
      simp [Orderly, Follows, Forwards]

theorem not_forwards_body (call : Call Endpoint (List UInt8)) : ¬Forwards call.body := by
  cases call <;> exact id

/-- A call which has ended has asked what its packet asks. -/
theorem asks_of_completes (thread : Thread) {call : Call Endpoint (List UInt8)}
    {steps : List (Program.Performed (@Op.Result Endpoint (List UInt8)))} {outcome : Option Bool}
    (completes : call.body.Completes steps outcome)
    (genuine : ∀ step ∈ steps, Genuine step.1 step.2) :
    steps.filterMap (fun step => opRequest thread call step.1) = call.asks thread := by
  cases call with
  | clientReceived src packet =>
      rw [body_clientReceived] at completes
      rcases completes with ⟨_, tail, rfl, completes⟩
      by_cases eightBytes : packet.length = sessionIdSize
      · simp only [size_bytes, eightBytes, if_true] at completes
        rcases completes with ⟨id, _, rfl, registered, rest, rfl, completes⟩
        have id_eq : id = getSessionId packet := genuine ⟨.readSessionId packet, id⟩ (by simp)
        cases registered with
        | false =>
            rcases completes with ⟨_, _, rfl, rfl, -⟩
            simp [opRequest, Call.asks, eightBytes, id_eq]
        | true =>
            rcases completes with ⟨_, _, rfl, _, _, rfl, rfl, -⟩
            simp [opRequest, Call.asks, eightBytes, id_eq]
      · simp only [size_bytes, eightBytes, if_false] at completes
        rcases completes with ⟨_, _, rfl, rfl, -⟩
        simp [opRequest, Call.asks, eightBytes]
  | peerReceived src packet =>
      rcases steps_of_peerReceived src completes with
        ⟨short, -, rfl⟩ | ⟨long, id, found, rest, rfl, shape⟩
      · simp [opRequest, Call.asks, not_le.mpr short]
      · cases found with
        | none =>
            rcases shape with ⟨-, rfl⟩
            simp [opRequest, Call.asks, long]
        | some session =>
            rcases shape with ⟨-, endpoint, completed, after, rfl, rfl | rfl⟩ <;>
              simp [opRequest, Call.asks, long]
  | sessionSent session packet =>
      rcases completes with ⟨_, _, rfl, _, _, rfl, rfl, -⟩
      rfl

end Bodies

section Steps

variable [DecidableEq Thread] {library : Library Thread Endpoint (List UInt8)} {thread : Thread}
  {call : Call Endpoint (List UInt8)} {op : Op Endpoint (List UInt8)} {result : op.Result}
  {next : op.Result → Program (@Op.Result Endpoint (List UInt8)) (Option Bool)}
  {shared after : Shared library}

theorem genuine_of_execute (effect : library.execute thread op shared result after) :
    Genuine op result := by
  cases op with
  | readSessionId packet => exact effect.1
  | _ => trivial

omit [DecidableEq Thread] in
theorem due_of_not_forwards {relay : State Thread Endpoint}
    {rest : Program (@Op.Result Endpoint (List UInt8)) (Option Bool)}
    (silent : ¬Forwards rest) : due thread relay (some (call, rest)) = [] := by
  cases rest with
  | done outcome => cases call <;> rfl
  | perform op next =>
      cases op with
      | clientEndpoint session => exact absurd trivial silent
      | send session endpoint packet => exact absurd trivial silent
      | _ => cases call <;> rfl

/-- The answer to the operation. -/
def answerTo (thread : Thread) (call : Call Endpoint (List UInt8))
    (op : Op Endpoint (List UInt8)) (relay : State Thread Endpoint) :
    List (Endpoint × (Thread × List UInt8)) :=
  ((opRequest thread call op).bind (relay.table.answer sessionIdOf)).toList

theorem table_of_execute (effect : library.execute thread op shared result after) :
    after.relay.table =
      shared.relay.table.afterAll (opRequest thread call op).toList := by
  by_cases registering : ∃ id src, op = .tryRegisterSession id src
  · rcases registering with ⟨id, src, rfl⟩
    have registered := table_tryRegisterSession shared.relay id src
    rw [effect.1] at registered
    exact registered
  · simp only [not_exists] at registering
    have same : after.relay.table = shared.relay.table := by
      funext id
      simp only [State.table, State.clientEndpoint?, execute_sessions effect registering]
    rw [same]
    cases op with
    | tryRegisterSession id src => exact absurd rfl (registering id src)
    | findSession id => cases call <;> rfl
    | _ => rfl

/-- A session which exists keeps its endpoint. -/
theorem clientEndpoint?_of_execute {session : SessionPtr}
    (known : session.id ∈ shared.relay.sessions)
    (effect : library.execute thread op shared result after) :
    after.relay.clientEndpoint? session = shared.relay.clientEndpoint? session := by
  by_cases registering : ∃ id src, op = .tryRegisterSession id src
  · rcases registering with ⟨id, src, rfl⟩
    rcases State.mem_sessions_iff.mp known with ⟨endpoint, bound⟩
    have kept := State.clientEndpoint?_tryRegisterSession bound id src
    rw [effect.1] at kept
    exact kept.trans bound.symm
  · simp only [not_exists] at registering
    simp only [State.clientEndpoint?, execute_sessions effect registering]

omit [DecidableEq Thread] in
theorem findSession_eq (relay : State Thread Endpoint) (id : SessionId) :
    relay.findSession id = (relay.table id).map fun _ => ⟨id⟩ := by
  cases held : relay.table id with
  | none =>
      apply State.findSession_eq_none.mpr
      intro known
      rcases State.mem_sessions_iff.mp known with ⟨endpoint, bound⟩
      rw [State.table, bound] at held
      contradiction
  | some endpoint =>
      exact State.findSession_eq_some.mpr ⟨State.mem_sessions_iff.mpr ⟨endpoint, held⟩, rfl⟩

/-- What was due and what the directory answers is what is sent and what is due then. -/
theorem due_of_execute (orderly : Orderly call (.perform op next))
    (effect : library.execute thread op shared result after) :
    due thread shared.relay (some (call, .perform op next)) ++
        answerTo thread call op shared.relay =
      (opSends thread op).toList ++ due thread after.relay (some (call, next result)) := by
  have follows := (orderly.2 result (genuine_of_execute effect)).1
  cases op with
  | findSession id =>
      rcases orderly.1 id rfl with ⟨src, packet, rfl, rfl⟩
      rcases effect with ⟨found, rfl⟩
      have asked : answerTo thread (.peerReceived src packet) (.findSession (getSessionId packet))
          after.relay = ((after.relay.table (getSessionId packet)).map fun endpoint =>
            (endpoint, (thread, packet))).toList := rfl
      rw [findSession_eq] at found
      rw [asked]
      cases held : after.relay.table (getSessionId packet) with
      | none =>
          rw [held] at found
          subst found
          rw [due_of_not_forwards follows]
          rfl
      | some endpoint =>
          rw [held] at found
          subst found
          rcases follows with ⟨_, _, next', ⟨rfl, rfl⟩, next_eq⟩
          have bound : after.relay.clientEndpoint? ⟨getSessionId packet⟩ = some endpoint := held
          simp only [next_eq, due, bound]
          rfl
  | clientEndpoint session =>
      rcases follows with ⟨src, packet, next', rfl, next_eq⟩
      rcases effect with ⟨bound, rfl⟩
      simp only [next_eq, due, bound]
      rfl
  | send session endpoint packet =>
      rw [due_of_not_forwards follows]
      cases call <;> rfl
  | tryRegisterSession id src =>
      rw [due_of_not_forwards follows]
      cases call <;> rfl
  | _ =>
      rw [due_of_not_forwards follows]
      cases call <;> rfl

omit [DecidableEq Thread] in
theorem due_congr {relay other : State Thread Endpoint}
    {running : Option (Call Endpoint (List UInt8) ×
      Program (@Op.Result Endpoint (List UInt8)) (Option Bool))}
    (same : ∀ call session next, running = some (call, .perform (.clientEndpoint session) next) →
      other.clientEndpoint? session = relay.clientEndpoint? session) :
    due thread other running = due thread relay running := by
  cases running with
  | none => rfl
  | some rest =>
      rcases rest with ⟨call, rest⟩
      cases rest with
      | done outcome => cases call <;> rfl
      | perform op next =>
          cases op with
          | clientEndpoint session =>
              cases call with
              | peerReceived src packet => simp only [due, same _ session next rfl]
              | _ => rfl
          | _ => cases call <;> rfl

omit [DecidableEq Thread] in
theorem thread_of_answerTo {relay : State Thread Endpoint}
    {item : Endpoint × (Thread × List UInt8)} (item_mem : item ∈ answerTo thread call op relay) :
    item.2.1 = thread := by
  simp only [answerTo, Option.mem_toList, Option.bind_eq_some_iff] at item_mem
  rcases item_mem with ⟨request, asked, answered⟩
  cases op with
  | findSession id =>
      cases call with
      | peerReceived src packet =>
          simp only [opRequest, Option.some.injEq] at asked
          subst asked
          simp only [Directory.Table.answer, Option.map_eq_some_iff] at answered
          rcases answered with ⟨endpoint, -, rfl⟩
          rfl
      | _ => contradiction
  | tryRegisterSession id src =>
      simp only [opRequest, Option.some.injEq] at asked
      subst asked
      contradiction
  | _ => contradiction

omit [DecidableEq Thread] in
theorem thread_of_opSends {item : Endpoint × (Thread × List UInt8)}
    (item_mem : item ∈ (opSends thread op).toList) : item.2.1 = thread := by
  cases op with
  | send session endpoint packet =>
      simp only [opSends, Option.toList_some, List.mem_singleton] at item_mem
      rw [item_mem]
  | _ => contradiction

end Steps

section Runs

variable [DecidableEq Thread] {library : Library Thread Endpoint (List UInt8)}
  {start : library.State} {trace : List (Label Thread Endpoint)}
  {config : Config Thread (Call Endpoint (List UInt8)) (@Op.Result Endpoint (List UInt8))
    (Option Bool) (Shared library)}

/-- The part of one thread. -/
def ofThread (thread : Thread) (items : List (Endpoint × (Thread × List UInt8))) :
    List (Endpoint × (Thread × List UInt8)) :=
  items.filter fun item => item.2.1 = thread

theorem ofThread_append (thread : Thread) (left right : List (Endpoint × (Thread × List UInt8))) :
    ofThread thread (left ++ right) = ofThread thread left ++ ofThread thread right :=
  List.filter_append ..

theorem ofThread_self {thread : Thread} {items : List (Endpoint × (Thread × List UInt8))}
    (own : ∀ item ∈ items, item.2.1 = thread) : ofThread thread items = items := by
  simpa [ofThread] using own

theorem ofThread_other {thread mover : Thread} (different : thread ≠ mover)
    {items : List (Endpoint × (Thread × List UInt8))}
    (own : ∀ item ∈ items, item.2.1 = mover) : ofThread thread items = [] := by
  apply List.filter_eq_nil_iff.mpr
  intro item item_mem
  simpa [own item item_mem] using different.symm

/-- Lists which agree for every thread differ in the order between the threads only. -/
theorem perm_of_ofThread {left right : List (Endpoint × (Thread × List UInt8))}
    (same : ∀ thread, ofThread thread left = ofThread thread right) : left.Perm right := by
  classical
  rw [List.perm_iff_count]
  intro item
  have counted (items : List (Endpoint × (Thread × List UInt8))) :
      (ofThread item.2.1 items).count item = items.count item := List.count_filter (by simp)
  rw [← counted left, same, counted]

omit [DecidableEq Thread] in
theorem filterMap_snoc {Seen : Type} (see : Label Thread Endpoint → Option Seen)
    (trace : List (Label Thread Endpoint)) (label : Label Thread Endpoint) :
    (trace ++ [label]).filterMap see = trace.filterMap see ++ (see label).toList := by
  cases seen : see label <;> simp [seen]

omit [DecidableEq Thread] in
theorem deliveries_snoc {relay : State Thread Endpoint}
    (table_eq : relay.table = Directory.Table.empty.afterAll (trace.filterMap requestOf))
    (label : Label Thread Endpoint) :
    deliveries (trace ++ [label]) = deliveries trace ++
      ((requestOf label).bind (relay.table.answer sessionIdOf)).toList := by
  rw [deliveries, filterMap_snoc, Directory.Table.answers_append, ← table_eq]
  cases requestOf label <;> simp [deliveries, Directory.Table.answers]

/-- The relay is a directory, and the threads send what it answers to them. -/
structure Serving (trace : List (Label Thread Endpoint))
    (config : Config Thread (Call Endpoint (List UInt8)) (@Op.Result Endpoint (List UInt8))
      (Option Bool) (Shared library)) : Prop where
  table_eq : config.shared.relay.table =
    Directory.Table.empty.afterAll (trace.filterMap requestOf)
  sent_eq : ∀ thread, ofThread thread (deliveries trace) =
    ofThread thread (allSends trace) ++ due thread config.shared.relay (config.running thread)

/-- A call starts or ends. -/
theorem Serving.boundary (serving : Serving trace config) {label : Label Thread Endpoint}
    {mover : Thread} {shared : Shared library}
    {rest : Option (Call Endpoint (List UInt8) ×
      Program (@Op.Result Endpoint (List UInt8)) (Option Bool))}
    (unasked : requestOf label = none) (unsent : sentOf label = none)
    (relay_eq : shared.relay = config.shared.relay)
    (before : due mover config.shared.relay (config.running mover) = [])
    (after : due mover config.shared.relay rest = []) :
    Serving (trace ++ [label]) (config.resume mover shared rest) := by
  constructor
  · rw [filterMap_snoc, unasked, Config.resume_shared, relay_eq]
    simpa using serving.table_eq
  · intro thread
    have due_eq :
        due thread config.shared.relay ((config.resume mover shared rest).running thread) =
          due thread config.shared.relay (config.running thread) := by
      by_cases same : thread = mover
      · subst same
        rw [Config.resume_running_self, after, before]
      · rw [Config.resume_running_other _ same]
    rw [deliveries_snoc serving.table_eq, allSends, filterMap_snoc, unasked, unsent,
      Config.resume_shared, relay_eq, due_eq]
    simpa [allSends] using serving.sent_eq thread

theorem Serving.perform (serving : Serving trace config) {mover : Thread}
    {call : Call Endpoint (List UInt8)} {op : Op Endpoint (List UInt8)}
    {next : op.Result → Program (@Op.Result Endpoint (List UInt8)) (Option Bool)}
    {result : op.Result} {shared : Shared library}
    (active : config.running mover = some (call, .perform op next))
    (orderly : Orderly call (.perform op next))
    (valid : ∀ thread call session next,
      config.running thread = some (call, .perform (.clientEndpoint session) next) →
        session.id ∈ config.shared.relay.sessions)
    (effect : library.execute mover op config.shared result shared) :
    Serving (trace ++ [.performed mover call ⟨op, result⟩])
      (config.resume mover shared (some (call, next result))) := by
  constructor
  · rw [filterMap_snoc, Config.resume_shared, table_of_execute effect, serving.table_eq]
    exact (List.foldl_append ..).symm
  · intro thread
    have asked : deliveries (trace ++ [.performed mover call ⟨op, result⟩]) =
        deliveries trace ++ answerTo mover call op config.shared.relay :=
      deliveries_snoc serving.table_eq _
    have sent : allSends (trace ++ [.performed mover call ⟨op, result⟩]) =
        allSends trace ++ (opSends mover op).toList := filterMap_snoc ..
    rw [asked, sent, ofThread_append, ofThread_append, serving.sent_eq, Config.resume_shared]
    by_cases same : thread = mover
    · subst same
      rw [Config.resume_running_self, active,
        ofThread_self fun _ => thread_of_answerTo, ofThread_self fun _ => thread_of_opSends,
        List.append_assoc, due_of_execute orderly effect, List.append_assoc]
    · have kept : due thread shared.relay (config.running thread) =
          due thread config.shared.relay (config.running thread) :=
        due_congr fun call session next isNext =>
          clientEndpoint?_of_execute (valid thread call session next isNext) effect
      rw [Config.resume_running_other _ same, kept,
        ofThread_other same fun _ => thread_of_answerTo,
        ofThread_other same fun _ => thread_of_opSends, List.append_nil, List.append_nil]

theorem serving_of_run (run : library.Run start trace config) : Serving trace config := by
  refine run.invariant Serving ⟨rfl, fun _ => rfl⟩ ?_
  intro trace config label after run serving step
  cases step with
  | invoke idle allowed =>
      apply serving.boundary rfl rfl allowed.1
      · rw [idle]
        rfl
      · exact due_of_not_forwards (not_forwards_body _)
  | perform active effect =>
      have orderly := run.of_running Orderly body_orderly
        (fun orderly effect => (orderly.2 _ (genuine_of_execute effect)).2) active
      exact serving.perform active orderly (fun _ _ _ _ => session_mem_of_running run) effect
  | @finish _ call _ ended =>
      apply serving.boundary rfl rfl rfl
      · rw [ended]
        exact due_of_not_forwards id
      · rfl

/-- A call which has ended has asked what its packet asks, once and while it ran. -/
theorem asked_of_returned {before since rest : List (Label Thread Endpoint)} {thread : Thread}
    {call ended : Call Endpoint (List UInt8)} {outcome : Option Bool}
    (run : library.Run start
      (before ++ .invoked thread call :: (since ++ .returned thread ended outcome :: rest)) config)
    (quiet : Atomic.Label.Quiet thread since) :
    (Atomic.Label.stepsOf thread since).filterMap (fun step => opRequest thread call step.1) =
      call.asks thread := by
  apply asks_of_completes thread (run.completes_of_returned quiet).2
  intro step step_mem
  rcases Atomic.Label.mem_stepsOf.mp step_mem with ⟨recorded, performed_mem⟩
  rcases List.append_of_mem performed_mem with ⟨earlier, later, rfl⟩
  rw [List.append_assoc, List.cons_append, ← List.cons_append, ← List.append_assoc] at run
  rcases execute_of_performed run with ⟨source, shared, -, effect⟩
  exact genuine_of_execute effect

/-- What a relay with the mutex promises of its handlers. -/
structure Linearized (trace : List (Label Thread Endpoint))
    (config : Config Thread (Call Endpoint (List UInt8)) (@Op.Result Endpoint (List UInt8))
      (Option Bool) (Shared library)) : Prop extends Serving trace config where
  asked : ∀ before thread call since ended outcome rest,
    trace = before ++ .invoked thread call :: (since ++ .returned thread ended outcome :: rest) →
    Atomic.Label.Quiet thread since →
    (Atomic.Label.stepsOf thread since).filterMap (fun step => opRequest thread call step.1) =
      call.asks thread
  settled : (∀ thread, config.running thread = none) →
    (allSends trace).Perm (deliveries trace)

theorem linearized_of_run (run : library.Run start trace config) : Linearized trace config where
  toServing := serving_of_run run
  asked := by
    rintro before thread call since ended outcome rest rfl quiet
    exact asked_of_returned run quiet
  settled idle := by
    apply perm_of_ofThread
    intro thread
    rw [(serving_of_run run).sent_eq thread, idle]
    exact (List.append_nil _).symm

end Runs

section Mutex

variable [DecidableEq Thread] {library : Library Thread Endpoint (List UInt8)}
  {start : library.State} {trace : List (LockedLabel Thread Endpoint)}
  {config : LockedConfig library}

/-- However the threads come to lock the mutex, each handler asks the directory at one
moment between its start and its end. -/
theorem handlers_linearize (run : library.LockedRun true start trace config) :
    ∃ coarse, library.Run start (trace.filterMap Label.coarse) coarse ∧
      coarse.shared = config.shared.shared ∧
      Linearized (trace.filterMap Label.coarse) coarse ∧
      ∀ thread, config.running thread = none → coarse.running thread = none := by
  rcases paced_of_run run with ⟨coarse, paced⟩
  exact ⟨coarse, paced.run, paced.coupled.shared.symm, linearized_of_run paced.run,
    fun thread idle => (paced.coupled.idle thread idle).1⟩

theorem registration_linearizes : ∃ trace config,
    (Library.unconstrained Bool ℕ (List UInt8)).LockedRun true () trace config ∧
      config.shared.accessing false = some .exclusive ∧
      ∃ coarse : Config Bool (Call ℕ (List UInt8)) (@Op.Result ℕ (List UInt8)) (Option Bool)
          (Shared (Library.unconstrained Bool ℕ (List UInt8))),
        coarse.shared = config.shared.shared ∧
        Linearized (trace.filterMap Atomic.Label.coarse) coarse := by
  rcases exists_registering with ⟨trace, config, run, writes, -⟩
  rcases handlers_linearize run with ⟨coarse, -, shared_eq, linearized, -⟩
  exact ⟨trace, config, run, writes, coarse, shared_eq, linearized⟩

end Mutex

end Urn.Relay
