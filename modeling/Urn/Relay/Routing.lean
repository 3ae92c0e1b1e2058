import Urn.Relay.Threads

/-!
# Routing

A trace of the relay determines who owns an identifier: the source of the first
client packet of exactly eight bytes whose registration section has run.  The
session map of the relay is this ownership table at every moment of every run
(`Tracks`), whatever the Library is and however the threads are interleaved.
Peer packets are forwarded to the owner of their first eight bytes at the moment
of the lookup and to nobody else (`routing`).
-/

namespace Urn.Relay

open Atomic

variable {Thread Endpoint : Type}

/-- A client packet whose registration section has run, its source, and whether
the registration succeeded. -/
structure Registration (Endpoint : Type) where
  data : List UInt8
  src : Endpoint
  registered : Bool

/-- The registration as a claim of its identifier. -/
def Registration.claim (registration : Registration Endpoint) :
    FirstClaim.Claim SessionId Endpoint where
  key := getSessionId registration.data
  value := registration.src
  won := registration.registered

def registrationOf : Label Thread Endpoint → Option (Registration Endpoint)
  | .performed _ (.clientReceived src data) ⟨.tryRegisterSession _ _, registered⟩ =>
      some ⟨data, src, registered⟩
  | _ => none

/-- The registrations of a trace in the order of their sections. -/
def registrations (trace : List (Label Thread Endpoint)) : List (Registration Endpoint) :=
  trace.filterMap registrationOf

/-- The registration of a client packet with these bytes from this source succeeded. -/
def Owns (trace : List (Label Thread Endpoint)) (data : List UInt8) (src : Endpoint) : Prop :=
  ⟨data, src, true⟩ ∈ registrations trace

def sendOf : Program.Performed (@Op.Result Endpoint (List UInt8)) →
    Option (Endpoint × List UInt8)
  | ⟨.send _ endpoint packet, _⟩ => some (endpoint, packet)
  | _ => none

/-- The calls of `start_send` by one thread in a piece of a trace. -/
def sends [DecidableEq Thread] (thread : Thread) (trace : List (Label Thread Endpoint)) :
    List (Endpoint × List UInt8) :=
  (Atomic.Label.stepsOf thread trace).filterMap sendOf

/-- The operation is the section of `find_session`. -/
def IsLookup : Program.Performed (@Op.Result Endpoint (List UInt8)) → Prop
  | ⟨.findSession _, _⟩ => True
  | _ => False

@[simp]
theorem registrations_append (left right : List (Label Thread Endpoint)) :
    registrations (left ++ right) = registrations left ++ registrations right :=
  List.filterMap_append

/-- What the operations which come next in the body of a call have to do with the
operations it has performed. -/
def Permitted (call : Call Endpoint (List UInt8))
    (history : List (Program.Performed (@Op.Result Endpoint (List UInt8)))) :
    Op Endpoint (List UInt8) → Prop
  | .tryRegisterSession id src =>
      ∃ data, call = .clientReceived src data ∧ data.length = sessionIdSize ∧
        ⟨.readSessionId data, id⟩ ∈ history
  | .clientEndpoint session => ∃ id, ⟨.findSession id, some session⟩ ∈ history
  | .send session endpoint packet =>
      ∃ src id, call = .peerReceived src packet ∧ sessionIdSize ≤ packet.length ∧
        ⟨.readSessionId packet, id⟩ ∈ history ∧ ⟨.findSession id, some session⟩ ∈ history ∧
        ⟨.clientEndpoint session, endpoint⟩ ∈ history
  | _ => True

theorem body_permitted (call : Call Endpoint (List UInt8)) :
    call.body.Always (Permitted call) [] := by
  cases call with
  | clientReceived src packet =>
      rw [body_clientReceived]
      refine ⟨trivial, fun _ => ?_⟩
      split
      · rename_i exact_size
        refine ⟨trivial, fun id => ⟨⟨packet, rfl, exact_size, by simp⟩, ?_⟩⟩
        intro registered
        cases registered <;> simp [Program.Always, Permitted]
      · simp [Program.Always, Permitted]
  | peerReceived src packet =>
      rw [body_peerReceived]
      refine ⟨trivial, fun _ => ?_⟩
      split
      · rename_i long
        refine ⟨trivial, fun id => ⟨trivial, ?_⟩⟩
        intro found
        cases found with
        | none => simp [Program.Always, Permitted]
        | some session =>
            refine ⟨⟨id, by simp⟩, fun endpoint => ?_⟩
            refine ⟨⟨src, id, rfl, long, by simp, by simp, by simp⟩, ?_⟩
            intro completed
            cases completed <;> simp [Program.Always, Permitted]
      · simp [Program.Always, Permitted]
  | sessionSent session packet =>
      rw [body_sessionSent]
      simp [Program.Always, Permitted]

variable [DecidableEq Thread] {library : Library Thread Endpoint (List UInt8)}
  {start : library.State} {trace : List (Label Thread Endpoint)}
  {config : Config Thread (Call Endpoint (List UInt8)) (@Op.Result Endpoint (List UInt8))
    (Option Bool) (Shared library)}

/-- An operation in a trace is one its body permits after what the same thread
did before. -/
theorem permitted_of_performed {before after : List (Label Thread Endpoint)} {thread : Thread}
    {call : Call Endpoint (List UInt8)}
    {step : Program.Performed (@Op.Result Endpoint (List UInt8))}
    (run : library.Run start (before ++ .performed thread call step :: after) config) :
    ∃ history, (∀ earlier ∈ history, ∃ recorded, .performed thread recorded earlier ∈ before) ∧
      Permitted call history step.1 := by
  rcases run.executes_of_performed with ⟨earlier, since, next, rfl, -, executes⟩
  refine ⟨Atomic.Label.stepsOf thread since, ?_, ?_⟩
  · intro performed performed_mem
    rcases Atomic.Label.mem_stepsOf.mp performed_mem with ⟨recorded, recorded_mem⟩
    exact ⟨recorded, by simp [recorded_mem]⟩
  · simpa using (body_permitted call).of_executes executes

theorem execute_of_performed {before after : List (Label Thread Endpoint)} {thread : Thread}
    {call : Call Endpoint (List UInt8)}
    {step : Program.Performed (@Op.Result Endpoint (List UInt8))}
    (run : library.Run start (before ++ .performed thread call step :: after) config) :
    ∃ source shared, library.Run start before source ∧
      library.execute thread step.1 source.shared step.2 shared := by
  rcases run.split with ⟨source, target, reached, last⟩
  cases last with
  | perform active effect => exact ⟨source, _, reached, effect⟩

theorem readSessionId_of_performed {thread : Thread} {call : Call Endpoint (List UInt8)}
    {packet : List UInt8} {id : SessionId} (run : library.Run start trace config)
    (performed_mem : .performed thread call ⟨.readSessionId packet, id⟩ ∈ trace) :
    id = getSessionId packet := by
  rcases List.append_of_mem performed_mem with ⟨before, after, rfl⟩
  rcases execute_of_performed run with ⟨source, shared, -, effect⟩
  exact effect.1

/-- A registration section belongs to a client packet of exactly eight bytes,
and the identifier is the one these bytes hold. -/
theorem registration_of_performed {before after : List (Label Thread Endpoint)} {thread : Thread}
    {call : Call Endpoint (List UInt8)} {id : SessionId} {src : Endpoint} {registered : Bool}
    (run : library.Run start
      (before ++ .performed thread call ⟨.tryRegisterSession id src, registered⟩ :: after) config) :
    ∃ data, call = .clientReceived src data ∧ data.length = sessionIdSize ∧
      id = getSessionId data := by
  rcases permitted_of_performed run with ⟨history, past, data, rfl, exact_size, read_mem⟩
  rcases past _ read_mem with ⟨recorded, recorded_mem⟩
  refine ⟨data, rfl, exact_size, ?_⟩
  apply readSessionId_of_performed run
  exact List.mem_append_left _ recorded_mem

/-- The session map is the table of the owners in the trace. -/
structure Tracks (trace : List (Label Thread Endpoint)) (relay : State Thread Endpoint) :
    Prop where
  fair : FirstClaim.Fair ((registrations trace).map Registration.claim)
  length : ∀ registration ∈ registrations trace, registration.data.length = sessionIdSize
  endpoint : ∀ id endpoint, relay.clientEndpoint? ⟨id⟩ = some endpoint ↔
    ∃ registration ∈ registrations trace, getSessionId registration.data = id ∧
      registration.src = endpoint ∧ registration.registered = true
  known : ∀ registration ∈ registrations trace,
    getSessionId registration.data ∈ relay.sessions

omit [DecidableEq Thread] in
theorem Tracks.of_unchanged {relay after : State Thread Endpoint} {label : Label Thread Endpoint}
    (tracks : Tracks trace relay) (noRegistration : registrationOf label = none)
    (unchanged : after.sessions = relay.sessions) : Tracks (trace ++ [label]) after := by
  have same : registrations (trace ++ [label]) = registrations trace := by
    simp [registrations, noRegistration]
  constructor
  · rw [same]
    exact tracks.fair
  · rw [same]
    exact tracks.length
  · intro id endpoint
    rw [same, ← tracks.endpoint]
    simp [State.clientEndpoint?, unchanged]
  · rw [same, unchanged]
    exact tracks.known

theorem execute_sessions {thread : Thread} {op : Op Endpoint (List UInt8)} {result : op.Result}
    {shared after : Shared library} (effect : library.execute thread op shared result after)
    (notRegistering : ∀ id src, op ≠ .tryRegisterSession id src) :
    after.relay.sessions = shared.relay.sessions := by
  cases op with
  | tryRegisterSession id src => exact absurd rfl (notRegistering id src)
  | updateIoStatistics flow packet =>
      simp only [Library.execute] at effect
      rw [effect]
      rfl
  | readSessionId packet => rw [effect.2]
  | findSession id => rw [effect.2]
  | clientStartReceive => rw [effect.1]
  | peerStartReceive => rw [effect.1]
  | clientEndpoint session => rw [effect.2]
  | send session endpoint packet => rw [effect.1]

omit [DecidableEq Thread] in
theorem registrationOf_performed {thread : Thread} {call : Call Endpoint (List UInt8)}
    {op : Op Endpoint (List UInt8)} {result : op.Result}
    (notRegistering : ∀ id src, op ≠ .tryRegisterSession id src) :
    registrationOf (.performed thread call ⟨op, result⟩ : Label Thread Endpoint) = none := by
  cases op with
  | tryRegisterSession id src => exact absurd rfl (notRegistering id src)
  | _ => cases call <;> rfl

omit [DecidableEq Thread] in
theorem Tracks.register {relay after : State Thread Endpoint} {thread : Thread} {src : Endpoint}
    {data : List UInt8} {registered : Bool} (tracks : Tracks trace relay)
    (exact_size : data.length = sessionIdSize)
    (effect : relay.tryRegisterSession (getSessionId data) src = (registered, after)) :
    Tracks (trace ++ [.performed thread (.clientReceived src data)
      ⟨.tryRegisterSession (getSessionId data) src, registered⟩]) after := by
  have extended : registrations (trace ++ [.performed thread (.clientReceived src data)
      ⟨.tryRegisterSession (getSessionId data) src, registered⟩]) =
        registrations trace ++ [⟨data, src, registered⟩] := by
    rw [registrations_append]
    rfl
  have length : ∀ registration ∈ registrations trace ++ [⟨data, src, registered⟩],
      registration.data.length = sessionIdSize := by
    intro registration registration_mem
    rcases List.mem_append.mp registration_mem with old | new
    · exact tracks.length registration old
    · rw [List.mem_singleton.mp new]
      exact exact_size
  by_cases knownId : getSessionId data ∈ relay.sessions
  · rw [State.tryRegisterSession_of_mem knownId, Prod.mk.injEq] at effect
    rcases effect with ⟨rfl, rfl⟩
    constructor
    · rw [extended, List.map_append]
      apply tracks.fair.append_singleton
      simp only [Registration.claim, Bool.false_eq_true, false_iff, not_forall, not_not]
      rcases State.mem_sessions_iff.mp knownId with ⟨endpoint, bound⟩
      rcases (tracks.endpoint _ _).mp bound with ⟨owner, owner_mem, owner_id, -, -⟩
      exact ⟨_, List.mem_map_of_mem owner_mem, owner_id⟩
    · rw [extended]
      exact length
    · intro id endpoint
      rw [extended, tracks.endpoint]
      simp
    · rw [extended]
      intro registration registration_mem
      rcases List.mem_append.mp registration_mem with old | new
      · exact tracks.known registration old
      · rw [List.mem_singleton.mp new]
        exact knownId
  · rw [State.tryRegisterSession_of_notMem knownId, Prod.mk.injEq] at effect
    rcases effect with ⟨rfl, rfl⟩
    have unclaimed : ∀ registration ∈ registrations trace,
        getSessionId registration.data ≠ getSessionId data := by
      intro registration registration_mem same
      exact knownId (same ▸ tracks.known registration registration_mem)
    constructor
    · rw [extended, List.map_append]
      apply tracks.fair.append_singleton
      simpa [Registration.claim] using unclaimed
    · rw [extended]
      exact length
    · intro id endpoint
      rw [extended]
      by_cases same : id = getSessionId data
      · subst same
        simp only [State.clientEndpoint?, AList.lookup_insert, Option.map_some, Option.some.injEq,
          List.mem_append, List.mem_singleton]
        constructor
        · rintro rfl
          exact ⟨_, Or.inr rfl, rfl, rfl, rfl⟩
        · rintro ⟨registration, old | rfl, sameId, sameSrc, -⟩
          · exact absurd sameId (unclaimed registration old)
          · exact sameSrc
      · have lookup_eq :
            ({ relay with sessions := relay.sessions.insert (getSessionId data) ⟨src⟩ } :
              State Thread Endpoint).clientEndpoint? ⟨id⟩ = relay.clientEndpoint? ⟨id⟩ := by
          simp [State.clientEndpoint?, AList.lookup_insert_ne same]
        rw [lookup_eq, tracks.endpoint]
        simp only [List.mem_append, List.mem_singleton]
        constructor
        · rintro ⟨registration, old, rest⟩
          exact ⟨registration, Or.inl old, rest⟩
        · rintro ⟨registration, old | rfl, sameId, rest⟩
          · exact ⟨registration, old, sameId, rest⟩
          · exact absurd sameId.symm same
    · rw [extended]
      intro registration registration_mem
      rw [AList.mem_insert]
      rcases List.mem_append.mp registration_mem with old | new
      · exact Or.inr (tracks.known registration old)
      · rw [List.mem_singleton.mp new]
        exact Or.inl rfl

/-- The session map of the relay is the table of the owners after every run. -/
theorem tracks_of_run (run : library.Run start trace config) :
    Tracks trace config.shared.relay := by
  refine run.invariant (fun trace config => Tracks trace config.shared.relay) ?_ ?_
  · constructor
    · exact FirstClaim.fair_nil
    · simp [registrations]
    · simp [registrations, State.clientEndpoint?, State.initial]
    · simp [registrations]
  · intro trace config label after run tracks next
    cases next with
    | invoke idle allowed => exact tracks.of_unchanged rfl (congrArg State.sessions allowed.1)
    | finish ended => exact tracks.of_unchanged rfl rfl
    | @perform thread call op next result shared active effect =>
        by_cases registering : ∃ id src, op = .tryRegisterSession id src
        · rcases registering with ⟨id, src, rfl⟩
          have extended := Machine.Run.step run (.perform active effect)
          rcases registration_of_performed extended with ⟨data, rfl, exact_size, rfl⟩
          exact tracks.register exact_size effect.1
        · simp only [not_exists] at registering
          exact tracks.of_unchanged (registrationOf_performed registering)
            (execute_sessions effect registering)

theorem getSessionId_take (packet : List UInt8) :
    getSessionId (packet.take sessionIdSize) = getSessionId packet := by
  simp [getSessionId, List.take_take]

omit [DecidableEq Thread] in
theorem Tracks.owns_iff {relay : State Thread Endpoint} (tracks : Tracks trace relay)
    {data : List UInt8} (exact_size : data.length = sessionIdSize) {src : Endpoint} :
    Owns trace data src ↔ relay.clientEndpoint? ⟨getSessionId data⟩ = some src := by
  rw [tracks.endpoint]
  constructor
  · intro owns
    exact ⟨_, owns, rfl, rfl, rfl⟩
  · rintro ⟨⟨other, _, _⟩, other_mem, sameId, rfl, rfl⟩
    have other_size := tracks.length _ other_mem
    rw [getSessionId_inj other_size.ge exact_size.ge, List.take_of_length_le other_size.le,
      List.take_of_length_le exact_size.le] at sameId
    subst sameId
    exact other_mem

omit [DecidableEq Thread] in
theorem Tracks.owns_length {relay : State Thread Endpoint} (tracks : Tracks trace relay)
    {data : List UInt8} {src : Endpoint} (owns : Owns trace data src) :
    data.length = sessionIdSize :=
  tracks.length _ owns

omit [DecidableEq Thread] in
theorem Tracks.owner_unique {relay : State Thread Endpoint} (tracks : Tracks trace relay)
    {data : List UInt8} {left right : Endpoint} (leftOwns : Owns trace data left)
    (rightOwns : Owns trace data right) : left = right := by
  have exact_size := tracks.owns_length leftOwns
  rw [tracks.owns_iff exact_size] at leftOwns rightOwns
  exact Option.some.inj (leftOwns.symm.trans rightOwns)

omit [DecidableEq Thread] in
/-- Among the processed client packets with the same bytes exactly one, the first,
has been registered, and its source is bound. -/
theorem Tracks.exists_winner {relay : State Thread Endpoint} (tracks : Tracks trace relay)
    {registration : Registration Endpoint} (registration_mem : registration ∈ registrations trace) :
    ∃ before winner after, registrations trace = before ++ winner :: after ∧
      winner.data = registration.data ∧ winner.registered = true ∧
      (∀ other ∈ before ++ after, other.data = registration.data → other.registered = false) ∧
      relay.clientEndpoint? ⟨getSessionId registration.data⟩ = some winner.src := by
  rcases tracks.fair.exists_winner ⟨_, List.mem_map_of_mem registration_mem, rfl⟩ with
    ⟨before', winner', after', claims_eq, sameId, won, losers⟩
  rcases List.map_eq_append_iff.mp claims_eq with ⟨before, rest, split_eq, rfl, rest_eq⟩
  rcases List.map_eq_cons_iff.mp rest_eq with ⟨winner, after, rfl, rfl, rfl⟩
  have winner_mem : winner ∈ registrations trace := by simp [split_eq]
  have winner_size := tracks.length winner winner_mem
  have registration_size := tracks.length registration registration_mem
  have sameData : winner.data = registration.data := by
    have equal_ids : getSessionId winner.data = getSessionId registration.data := sameId
    rwa [getSessionId_inj winner_size.ge registration_size.ge,
      List.take_of_length_le winner_size.le, List.take_of_length_le registration_size.le]
      at equal_ids
  refine ⟨before, winner, after, split_eq, sameData, won, ?_, ?_⟩
  · intro other other_mem same
    have claim_mem :
        other.claim ∈ before.map Registration.claim ++ after.map Registration.claim := by
      rw [← List.map_append]
      exact List.mem_map_of_mem other_mem
    exact losers other.claim claim_mem (congrArg getSessionId same)
  · rw [tracks.endpoint]
    exact ⟨winner, winner_mem, congrArg getSessionId sameData, rfl, won⟩

theorem findSession_of_performed {before after : List (Label Thread Endpoint)} {thread : Thread}
    {call : Call Endpoint (List UInt8)} {id : SessionId} {found : Option SessionPtr}
    (run : library.Run start
      (before ++ .performed thread call ⟨.findSession id, found⟩ :: after) config) :
    ∃ relay, Tracks before relay ∧ found = State.findSession relay id := by
  rcases execute_of_performed run with ⟨source, shared, reached, effect⟩
  exact ⟨source.shared.relay, tracks_of_run reached, effect.1⟩

theorem clientEndpoint_of_performed {before after : List (Label Thread Endpoint)} {thread : Thread}
    {call : Call Endpoint (List UInt8)} {session : SessionPtr} {endpoint : Endpoint}
    (run : library.Run start
      (before ++ .performed thread call ⟨.clientEndpoint session, endpoint⟩ :: after) config) :
    ∃ relay, Tracks before relay ∧ relay.clientEndpoint? session = some endpoint := by
  rcases execute_of_performed run with ⟨source, shared, reached, effect⟩
  exact ⟨source.shared.relay, tracks_of_run reached, effect.1⟩

omit [DecidableEq Thread] in
theorem Owns.append {data : List UInt8} {src : Endpoint} (owns : Owns trace data src)
    (later : List (Label Thread Endpoint)) : Owns (trace ++ later) data src := by
  rw [Owns, registrations_append]
  exact List.mem_append_left _ owns

/-- What is sent goes to the owner of the first eight bytes of what was received. -/
theorem owns_of_send {before after : List (Label Thread Endpoint)} {thread : Thread}
    {call : Call Endpoint (List UInt8)} {session : SessionPtr} {endpoint : Endpoint}
    {packet : List UInt8} {completed : Bool}
    (run : library.Run start
      (before ++ .performed thread call ⟨.send session endpoint packet, completed⟩ :: after)
      config) :
    ∃ src, call = .peerReceived src packet ∧ sessionIdSize ≤ packet.length ∧
      Owns before (packet.take sessionIdSize) endpoint := by
  rcases permitted_of_performed run with
    ⟨history, past, src, id, rfl, long, read_mem, lookup_mem, endpoint_mem⟩
  refine ⟨src, rfl, long, ?_⟩
  rcases past _ read_mem with ⟨_, read_mem⟩
  rcases past _ lookup_mem with ⟨_, lookup_mem⟩
  rcases past _ endpoint_mem with ⟨_, endpoint_mem⟩
  have id_eq : id = getSessionId packet := by
    apply readSessionId_of_performed run
    exact List.mem_append_left _ read_mem
  have session_eq : session = ⟨getSessionId packet⟩ := by
    rcases List.append_of_mem lookup_mem with ⟨earlier, later, rfl⟩
    rw [List.append_assoc, List.cons_append] at run
    rcases findSession_of_performed run with ⟨relay, -, found⟩
    rw [← id_eq]
    exact (State.findSession_eq_some.mp found.symm).2
  have exact_size : (packet.take sessionIdSize).length = sessionIdSize := by
    simpa using long
  rcases List.append_of_mem endpoint_mem with ⟨earlier, later, rfl⟩
  rw [List.append_assoc, List.cons_append] at run
  rcases clientEndpoint_of_performed run with ⟨relay, tracks, bound⟩
  rw [session_eq, ← getSessionId_take, ← tracks.owns_iff exact_size] at bound
  exact bound.append _

theorem steps_of_peerReceived (src : Endpoint) {packet : List UInt8}
    {steps : List (Program.Performed (@Op.Result Endpoint (List UInt8)))} {outcome : Option Bool}
    (completes : (Call.peerReceived src packet).body.Completes steps outcome) :
    (packet.length < sessionIdSize ∧ outcome = some false ∧
      steps = [⟨.updateIoStatistics .inbound packet, ()⟩, ⟨.peerStartReceive, ()⟩]) ∨
    (sessionIdSize ≤ packet.length ∧ ∃ id found rest,
      steps = ⟨.updateIoStatistics .inbound packet, ()⟩ :: ⟨.readSessionId packet, id⟩ ::
        ⟨.findSession id, found⟩ :: rest ∧
      match found with
      | none => outcome = some false ∧ rest = [⟨.peerStartReceive, ()⟩]
      | some session => outcome = some true ∧ ∃ endpoint completed after,
          rest = ⟨.clientEndpoint session, endpoint⟩ ::
            ⟨.send session endpoint packet, completed⟩ :: after ∧
          (after = [] ∨ after =
            [⟨.updateIoStatistics .outbound packet, ()⟩, ⟨.peerStartReceive, ()⟩])) := by
  rw [body_peerReceived] at completes
  rcases completes with ⟨_, tail, rfl, completes⟩
  by_cases long : sessionIdSize ≤ packet.length
  · right
    simp only [size_bytes, long, if_true] at completes
    rcases completes with ⟨id, _, rfl, found, rest, rfl, completes⟩
    refine ⟨long, id, found, rest, rfl, ?_⟩
    cases found with
    | none =>
        rcases completes with ⟨_, _, rfl, rfl, rfl⟩
        exact ⟨rfl, rfl⟩
    | some session =>
        rcases completes with ⟨endpoint, _, rfl, completed, after, rfl, completes⟩
        cases completed with
        | false =>
            rcases completes with ⟨rfl, rfl⟩
            exact ⟨rfl, endpoint, false, [], rfl, Or.inl rfl⟩
        | true =>
            rcases completes with ⟨_, _, rfl, _, _, rfl, rfl, rfl⟩
            exact ⟨rfl, endpoint, true, _, rfl, Or.inr rfl⟩
  · left
    simp only [size_bytes, long, if_false] at completes
    rcases completes with ⟨_, _, rfl, rfl, rfl⟩
    exact ⟨by omega, rfl, rfl⟩

theorem registers_of_clientReceived {src : Endpoint} {data : List UInt8}
    {steps : List (Program.Performed (@Op.Result Endpoint (List UInt8)))} {outcome : Option Bool}
    (completes : (Call.clientReceived src data).body.Completes steps outcome)
    (exact_size : data.length = sessionIdSize) :
    ∃ left id registered right,
      steps = left ++ ⟨.tryRegisterSession id src, registered⟩ :: right := by
  rw [body_clientReceived] at completes
  rcases completes with ⟨_, tail, rfl, completes⟩
  simp only [size_bytes, exact_size, if_true] at completes
  rcases completes with ⟨id, _, rfl, registered, rest, rfl, -⟩
  exact ⟨[⟨.updateIoStatistics .inbound data, ()⟩, ⟨.readSessionId data, id⟩], id, registered, rest,
    rfl⟩

/-- What is claimed of the relay in a configuration reached by a trace. -/
structure Routing (trace : List (Label Thread Endpoint))
    (config : Config Thread (Call Endpoint (List UInt8)) (@Op.Result Endpoint (List UInt8))
      (Option Bool) (Shared library)) : Prop where
  /-- An identifier is registered when a client packet of eight bytes holding it
  has been through the registration section, and not otherwise. -/
  registered_iff : ∀ id, id ∈ config.shared.relay.sessions ↔
    ∃ registration ∈ registrations trace,
      registration.data.length = sessionIdSize ∧ getSessionId registration.data = id
  /-- The handler of a client packet goes through the registration section, with
  the bytes of the packet, if and only if the packet has eight bytes. -/
  processed : ∀ before thread src data since ended outcome after,
    trace = before ++ .invoked thread (.clientReceived src data) ::
      (since ++ .returned thread ended outcome :: after) →
    Atomic.Label.Quiet thread since →
    ((∃ step ∈ since, ∃ registered, step = .performed thread (.clientReceived src data)
        ⟨.tryRegisterSession (getSessionId data) src, registered⟩) ↔ data.length = sessionIdSize)
  /-- Exactly one of the registrations of the same bytes has succeeded, and its
  source is bound to the identifier. -/
  winner : ∀ registration ∈ registrations trace, ∃ before winner after,
    registrations trace = before ++ winner :: after ∧
    winner.data = registration.data ∧ winner.registered = true ∧
    (∀ other ∈ before ++ after, other.data = registration.data → other.registered = false) ∧
    config.shared.relay.clientEndpoint? ⟨getSessionId registration.data⟩ = some winner.src
  /-- A peer packet that is too short is not forwarded.  Any other is looked up
  once.  If its first eight bytes are owned at that moment it is sent once,
  unmodified, to the owner, and otherwise not at all. -/
  forwarded : ∀ before thread src packet since ended outcome after,
    trace = before ++ .invoked thread (.peerReceived src packet) ::
      (since ++ .returned thread ended outcome :: after) →
    Atomic.Label.Quiet thread since →
    (packet.length < sessionIdSize → sends thread since = [] ∧ outcome = some false) ∧
    (sessionIdSize ≤ packet.length → ∃ earlier found later,
      since = earlier ++ .performed thread (.peerReceived src packet)
        ⟨.findSession (getSessionId packet), found⟩ :: later ∧
      (∀ step ∈ Atomic.Label.stepsOf thread (earlier ++ later), ¬IsLookup step) ∧
      (∀ endpoint, Owns (before ++ .invoked thread (.peerReceived src packet) :: earlier)
          (packet.take sessionIdSize) endpoint →
        sends thread since = [(endpoint, packet)] ∧ outcome = some true) ∧
      ((¬∃ endpoint, Owns (before ++ .invoked thread (.peerReceived src packet) :: earlier)
          (packet.take sessionIdSize) endpoint) →
        sends thread since = [] ∧ outcome = some false))
  /-- Nothing is ever sent, not even by a handler in progress, but a packet just
  received from a peer to the owner of its first eight bytes. -/
  undiverted : ∀ before thread call session endpoint packet completed after,
    trace = before ++ .performed thread call ⟨.send session endpoint packet, completed⟩ :: after →
    (∃ src, call = .peerReceived src packet) ∧ sessionIdSize ≤ packet.length ∧
      Owns before (packet.take sessionIdSize) endpoint
  /-- The owner of eight bytes is the only one, from the moment of its
  registration on. -/
  owner_unique : ∀ data left right, Owns trace data left → Owns trace data right → left = right
  /-- A session that a handler is about to use still exists. -/
  session_valid : ∀ thread call session next,
    config.running thread = some (call, .perform (.clientEndpoint session) next) →
    session.id ∈ config.shared.relay.sessions

theorem processed_of_run {before since after : List (Label Thread Endpoint)} {thread : Thread}
    {src : Endpoint} {data : List UInt8} {ended : Call Endpoint (List UInt8)}
    {outcome : Option Bool}
    (run : library.Run start (before ++ .invoked thread (.clientReceived src data) ::
      (since ++ .returned thread ended outcome :: after)) config)
    (quiet : Atomic.Label.Quiet thread since) :
    (∃ step ∈ since, ∃ registered, step = .performed thread (.clientReceived src data)
      ⟨.tryRegisterSession (getSessionId data) src, registered⟩) ↔
        data.length = sessionIdSize := by
  constructor
  · rintro ⟨step, step_mem, registered, rfl⟩
    rcases List.append_of_mem step_mem with ⟨earlier, later, rfl⟩
    rw [List.append_assoc, List.cons_append, ← List.cons_append, ← List.append_assoc] at run
    rcases registration_of_performed run with ⟨other, same, exact_size, -⟩
    rw [Call.clientReceived.injEq] at same
    rw [same.2]
    exact exact_size
  · intro exact_size
    have completes := (run.completes_of_returned quiet).2
    rcases registers_of_clientReceived completes exact_size with
      ⟨left, id, registered, right, steps⟩
    rcases Atomic.Label.exists_split_of_stepsOf steps with ⟨earlier, recorded, later, rfl, -, -⟩
    rw [List.append_assoc, List.cons_append] at run
    have recorded_eq := run.call_of_performed
      (fun label label_mem => quiet label (List.mem_append_left _ label_mem))
    subst recorded_eq
    rw [← List.cons_append, ← List.append_assoc] at run
    rcases registration_of_performed run with ⟨other, same, -, rfl⟩
    rw [Call.clientReceived.injEq] at same
    rcases same with ⟨-, rfl⟩
    exact ⟨_, List.mem_append_right _ List.mem_cons_self, registered, rfl⟩

theorem forwarded_of_run {before since after : List (Label Thread Endpoint)} {thread : Thread}
    {src : Endpoint} {packet : List UInt8} {ended : Call Endpoint (List UInt8)}
    {outcome : Option Bool}
    (run : library.Run start (before ++ .invoked thread (.peerReceived src packet) ::
      (since ++ .returned thread ended outcome :: after)) config)
    (quiet : Atomic.Label.Quiet thread since) (long : sessionIdSize ≤ packet.length) :
    ∃ earlier found later,
      since = earlier ++ .performed thread (.peerReceived src packet)
        ⟨.findSession (getSessionId packet), found⟩ :: later ∧
      (∀ step ∈ Atomic.Label.stepsOf thread (earlier ++ later), ¬IsLookup step) ∧
      (∀ endpoint, Owns (before ++ .invoked thread (.peerReceived src packet) :: earlier)
          (packet.take sessionIdSize) endpoint →
        sends thread since = [(endpoint, packet)] ∧ outcome = some true) ∧
      ((¬∃ endpoint, Owns (before ++ .invoked thread (.peerReceived src packet) :: earlier)
          (packet.take sessionIdSize) endpoint) →
        sends thread since = [] ∧ outcome = some false) := by
  have completes := (run.completes_of_returned quiet).2
  rcases steps_of_peerReceived src completes with ⟨short, -⟩ | ⟨-, id, found, rest, steps, shape⟩
  · omega
  · have sends_eq : sends thread since = rest.filterMap sendOf := by
      rw [sends, steps]
      rfl
    have split : Atomic.Label.stepsOf thread since =
        [⟨.updateIoStatistics .inbound packet, ()⟩, ⟨.readSessionId packet, id⟩] ++
          ⟨.findSession id, found⟩ :: rest := steps
    rcases Atomic.Label.exists_split_of_stepsOf split with
      ⟨earlier, recorded, later, rfl, earlier_eq, later_eq⟩
    have id_eq : id = getSessionId packet := by
      have read_mem : (⟨.readSessionId packet, id⟩ :
          Program.Performed (@Op.Result Endpoint (List UInt8))) ∈
            Atomic.Label.stepsOf thread earlier := by
        simp [earlier_eq]
      rcases Atomic.Label.mem_stepsOf.mp read_mem with ⟨call, performed_mem⟩
      apply readSessionId_of_performed run
      apply List.mem_append_right
      apply List.mem_cons_of_mem
      apply List.mem_append_left
      exact List.mem_append_left _ performed_mem
    subst id_eq
    rw [List.append_assoc, List.cons_append] at run
    have recorded_eq := run.call_of_performed
      (fun label label_mem => quiet label (List.mem_append_left _ label_mem))
    subst recorded_eq
    rw [← List.cons_append, ← List.append_assoc] at run
    rcases findSession_of_performed run with ⟨relay, tracks, found_eq⟩
    have exact_size : (packet.take sessionIdSize).length = sessionIdSize := by
      simpa using long
    have owned_iff : (∃ endpoint,
        Owns (before ++ .invoked thread (.peerReceived src packet) :: earlier)
          (packet.take sessionIdSize) endpoint) ↔ getSessionId packet ∈ relay.sessions := by
      rw [State.mem_sessions_iff, ← getSessionId_take]
      exact exists_congr fun endpoint => tracks.owns_iff exact_size
    refine ⟨earlier, found, later, rfl, ?_, ?_, ?_⟩
    · intro step step_mem
      rw [Atomic.Label.stepsOf_append, earlier_eq, later_eq] at step_mem
      cases found with
      | none =>
          rcases shape with ⟨-, rfl⟩
          simp only [List.cons_append, List.nil_append, List.mem_cons, List.not_mem_nil,
            or_false] at step_mem
          rcases step_mem with rfl | rfl | rfl <;> exact id
      | some session =>
          rcases shape with ⟨-, endpoint, completed, after', rfl, rfl | rfl⟩ <;>
            simp only [List.cons_append, List.nil_append, List.mem_cons, List.not_mem_nil,
              or_false] at step_mem
          · rcases step_mem with rfl | rfl | rfl | rfl <;> exact id
          · rcases step_mem with rfl | rfl | rfl | rfl | rfl | rfl <;> exact id
    · intro endpoint owns
      have known := owned_iff.mp ⟨endpoint, owns⟩
      have found_some : found = some ⟨getSessionId packet⟩ :=
        found_eq.trans (State.findSession_eq_some.mpr ⟨known, rfl⟩)
      subst found_some
      rcases shape with ⟨rfl, sentTo, completed, after', rfl, after_eq⟩
      have sent : sends thread (earlier ++ .performed thread (.peerReceived src packet)
          ⟨.findSession (getSessionId packet), some ⟨getSessionId packet⟩⟩ :: later) =
            [(sentTo, packet)] := by
        rw [sends_eq]
        rcases after_eq with rfl | rfl <;> rfl
      have send_mem : (⟨.send ⟨getSessionId packet⟩ sentTo packet, completed⟩ :
          Program.Performed (@Op.Result Endpoint (List UInt8))) ∈
            Atomic.Label.stepsOf thread later := by
        simp [later_eq]
      rcases Atomic.Label.mem_stepsOf.mp send_mem with ⟨call, performed_mem⟩
      rcases List.append_of_mem performed_mem with ⟨left, right, rfl⟩
      rw [List.append_assoc left, List.cons_append, ← List.cons_append, ← List.append_assoc] at run
      have sentOwns := (owns_of_send run).choose_spec.2.2
      have ownsLater := owns.append (.performed thread (.peerReceived src packet)
        ⟨.findSession (getSessionId packet), some ⟨getSessionId packet⟩⟩ :: left)
      rcases run.split with ⟨source, -, reached, -⟩
      rw [(tracks_of_run reached).owner_unique ownsLater sentOwns]
      exact ⟨sent, rfl⟩
    · intro unowned
      have found_none : found = none :=
        found_eq.trans (State.findSession_eq_none.mpr fun known => unowned (owned_iff.mpr known))
      subst found_none
      rcases shape with ⟨rfl, rfl⟩
      exact ⟨sends_eq, rfl⟩

/-- A session which a handler is about to use has been found before, and sessions
stay. -/
theorem session_mem_of_running (run : library.Run start trace config) {thread : Thread}
    {call : Call Endpoint (List UInt8)} {session : SessionPtr}
    {next : Endpoint → Program (@Op.Result Endpoint (List UInt8)) (Option Bool)}
    (active : config.running thread = some (call, .perform (.clientEndpoint session) next)) :
    session.id ∈ config.shared.relay.sessions := by
  rcases run.executes_of_running active with ⟨before, since, rfl, -, executes⟩
  have permitted := (body_permitted call).of_executes executes
  rw [List.nil_append] at permitted
  rcases permitted with ⟨id, lookup_mem⟩
  rcases Atomic.Label.mem_stepsOf.mp lookup_mem with ⟨recorded, performed_mem⟩
  rcases List.append_of_mem performed_mem with ⟨earlier, later, rfl⟩
  have tracksNow := tracks_of_run run
  rw [← List.cons_append, ← List.append_assoc] at run tracksNow
  rcases findSession_of_performed run with ⟨relay, tracksThen, found⟩
  rcases State.findSession_eq_some.mp found.symm with ⟨known, rfl⟩
  rcases State.mem_sessions_iff.mp known with ⟨endpoint, bound⟩
  rcases (tracksThen.endpoint _ _).mp bound with ⟨registration, registration_mem, rfl, -, -⟩
  apply tracksNow.known
  rw [registrations_append]
  exact List.mem_append_left _ registration_mem

/-- The relay routes correctly in every run, whatever the Library around it does
and however its threads are interleaved. -/
theorem routing (run : library.Run start trace config) : Routing trace config := by
  have tracks := tracks_of_run run
  refine ⟨?_, ?_, ?_, ?_, ?_, ?_, ?_⟩
  · intro id
    constructor
    · intro known
      rcases State.mem_sessions_iff.mp known with ⟨endpoint, bound⟩
      rcases (tracks.endpoint _ _).mp bound with ⟨registration, registration_mem, same, -, -⟩
      exact ⟨registration, registration_mem, tracks.length _ registration_mem, same⟩
    · rintro ⟨registration, registration_mem, -, rfl⟩
      exact tracks.known registration registration_mem
  · rintro before thread src data since ended outcome after rfl quiet
    exact processed_of_run run quiet
  · intro registration registration_mem
    exact tracks.exists_winner registration_mem
  · rintro before thread src packet since ended outcome after rfl quiet
    refine ⟨?_, forwarded_of_run run quiet⟩
    intro short
    have completes := (run.completes_of_returned quiet).2
    rcases steps_of_peerReceived src completes with ⟨-, rfl, steps⟩ | ⟨long, -⟩
    · exact ⟨by rw [sends, steps]; rfl, rfl⟩
    · omega
  · rintro before thread call session endpoint packet completed after rfl
    rcases owns_of_send run with ⟨src, rfl, long, owns⟩
    exact ⟨⟨src, rfl⟩, long, owns⟩
  · intro data left right leftOwns rightOwns
    exact tracks.owner_unique leftOwns rightOwns
  · intro thread call session next active
    exact session_mem_of_running run active

theorem routing_of_two_threads :
    ∃ (trace : List (Label Bool ℕ))
      (config : Config Bool (Call ℕ (List UInt8)) (@Op.Result ℕ (List UInt8)) (Option Bool)
        (Shared (Library.unconstrained Bool ℕ (List UInt8)))),
      sends true trace = [(7, [1, 0, 0, 0, 0, 0, 0, 0, 42])] ∧ Routing trace config := by
  let id : SessionId := getSessionId [1, 0, 0, 0, 0, 0, 0, 0]
  let counted : State Bool ℕ := State.initial.updateIoStatistics false .inbound 8
  let registered : State Bool ℕ := { counted with sessions := counted.sessions.insert id ⟨7⟩ }
  let received : State Bool ℕ := registered.updateIoStatistics true .inbound 9
  have registers : counted.tryRegisterSession id 7 = (true, registered) :=
    State.tryRegisterSession_of_notMem (AList.notMem_empty _) 7
  have known : id ∈ received.sessions := by simp [received, registered]
  have finds : some ⟨id⟩ = received.findSession id :=
    (State.findSession_eq_some.mpr ⟨known, rfl⟩).symm
  have reads : received.clientEndpoint? ⟨id⟩ = some 7 := by
    simp [received, registered, State.clientEndpoint?]
  have run : (Library.unconstrained Bool ℕ (List UInt8)).Run () []
      ⟨⟨State.initial, ()⟩, fun _ => none⟩ := .start
  have run := run.invoked false (.clientReceived 7 [1, 0, 0, 0, 0, 0, 0, 0])
    ⟨State.initial, ()⟩ rfl ⟨rfl, trivial⟩
  have run := run.performed false () ⟨counted, ()⟩ rfl rfl
  have run := run.performed false id ⟨counted, ()⟩ rfl ⟨rfl, rfl⟩
  have run := run.performed false true ⟨registered, ()⟩ rfl (by exact ⟨registers, rfl⟩)
  have run := run.performed false () ⟨registered, ()⟩ rfl ⟨rfl, trivial⟩
  have run := run.performed false () ⟨registered, ()⟩ rfl ⟨rfl, trivial⟩
  have run := run.returned false rfl
  have run := run.invoked true (.peerReceived 9 [1, 0, 0, 0, 0, 0, 0, 0, 42]) ⟨registered, ()⟩ rfl
    ⟨rfl, trivial⟩
  have run := run.performed true () ⟨received, ()⟩ rfl rfl
  have run := run.performed true id ⟨received, ()⟩ rfl ⟨rfl, rfl⟩
  have run := run.performed true (some ⟨id⟩) ⟨received, ()⟩ rfl (by exact ⟨finds, rfl⟩)
  have run := run.performed true 7 ⟨received, ()⟩ rfl (by exact ⟨reads, rfl⟩)
  have run := run.performed true false ⟨received, ()⟩ rfl ⟨rfl, trivial⟩
  have run := run.returned true rfl
  exact ⟨_, _, rfl, routing run⟩

end Urn.Relay
