import Mathlib.Data.Multiset.AddSub
import Urn.Relay.Threads

/-!
# Conservation of receives

The README asks a Library to report every completed receive and every completed
send to the relay exactly once.  A Library which does so keeps a `Ledger` of what
it has posted and not reported yet (`Contract`).

The relay re-arms receives in three handlers.  Two quantities show that none of
them is forgotten or doubled: the client receives, and the peer receives together
with the sends in flight less the registered sessions.  Every handler gains of
each quantity exactly what reporting the completion has taken from it, so both
are the same whenever no handler is in progress.
-/

namespace Urn.Relay

/-- What has been posted by a Library and not been reported as completed. -/
structure Ledger (Packet : Type) where
  clientReceives : ℕ
  peerReceives : ℕ
  sends : Multiset (SessionPtr × Packet)

variable {Thread Endpoint : Type}

/-- The Library API of the README: each completion is reported exactly once, that
of a send possibly from inside `start_send`. -/
structure Contract {Packet : Type} (library : Library Thread Endpoint Packet) where
  ledger : library.State → Ledger Packet
  clientReceived : ∀ {thread src packet state after},
    library.invoke thread (.clientReceived src packet) state after →
      ledger state =
        { ledger after with clientReceives := (ledger after).clientReceives + 1 }
  peerReceived : ∀ {thread src packet state after},
    library.invoke thread (.peerReceived src packet) state after →
      ledger state = { ledger after with peerReceives := (ledger after).peerReceives + 1 }
  sessionSent : ∀ {thread session packet state after},
    library.invoke thread (.sessionSent session packet) state after →
      ledger state = { ledger after with sends := (session, packet) ::ₘ (ledger after).sends }
  clientStartReceive : ∀ {state after}, library.clientStartReceive state after →
    ledger after = { ledger state with clientReceives := (ledger state).clientReceives + 1 }
  peerStartReceive : ∀ {state after}, library.peerStartReceive state after →
    ledger after = { ledger state with peerReceives := (ledger state).peerReceives + 1 }
  startSend : ∀ {session endpoint packet state after},
    library.send session endpoint packet state false after →
      ledger after = { ledger state with sends := (session, packet) ::ₘ (ledger state).sends }
  sentAtOnce : ∀ {session endpoint packet state after},
    library.send session endpoint packet state true after → ledger after = ledger state

/-- The Library which does all that the contract allows and nothing else. -/
def Library.contractual (Thread Endpoint Packet : Type) : Library Thread Endpoint Packet where
  State := Ledger Packet
  invoke _ call state after :=
    match call with
    | .clientReceived _ _ => state = { after with clientReceives := after.clientReceives + 1 }
    | .peerReceived _ _ => state = { after with peerReceives := after.peerReceives + 1 }
    | .sessionSent session packet =>
        state = { after with sends := (session, packet) ::ₘ after.sends }
  clientStartReceive state after :=
    after = { state with clientReceives := state.clientReceives + 1 }
  peerStartReceive state after := after = { state with peerReceives := state.peerReceives + 1 }
  send session _ packet state completed after :=
    if completed = true then
      after = state
    else
      after = { state with sends := (session, packet) ::ₘ state.sends }

/-- Its own state is the ledger. -/
def Contract.contractual (Thread Endpoint Packet : Type) :
    Contract (Library.contractual Thread Endpoint Packet) where
  ledger state := state
  clientReceived allowed := allowed
  peerReceived allowed := allowed
  sessionSent allowed := allowed
  clientStartReceive posted := posted
  peerStartReceive posted := posted
  startSend started := by simpa [Library.contractual] using started
  sentAtOnce sent := by simpa [Library.contractual] using sent

/-- `sessions_.size()`. -/
def State.size (state : State Thread Endpoint) : ℕ :=
  state.sessions.entries.length

theorem State.size_tryRegisterSession (state : State Thread Endpoint) (id : SessionId)
    (src : Endpoint) :
    (state.tryRegisterSession id src).2.size =
      state.size + (state.tryRegisterSession id src).1.toNat := by
  by_cases known : id ∈ state.sessions
  · simp [State.tryRegisterSession_of_mem known]
  · simp only [State.tryRegisterSession_of_notMem known, State.size,
      AList.entries_insert_of_notMem known, List.length_cons, Bool.toNat_true]

section Gains

variable {Packet : Type}

/-- What an operation adds to the posted client receives. -/
def clientGain : (op : Op Endpoint Packet) → op.Result → ℤ
  | .clientStartReceive, _ => 1
  | .updateIoStatistics _ _, _ => 0
  | .readSessionId _, _ => 0
  | .tryRegisterSession _ _, _ => 0
  | .findSession _, _ => 0
  | .peerStartReceive, _ => 0
  | .clientEndpoint _, _ => 0
  | .send _ _ _, _ => 0

/-- What reporting a completion takes from the posted client receives. -/
def clientCharge : Call Endpoint Packet → ℤ
  | .clientReceived _ _ => 1
  | .peerReceived _ _ => 0
  | .sessionSent _ _ => 0

/-- What an operation adds to the posted peer receives and the sends in flight,
less the sessions it registers. -/
def peerGain : (op : Op Endpoint Packet) → op.Result → ℤ
  | .peerStartReceive, _ => 1
  | .send _ _ _, completed => if completed = true then 0 else 1
  | .tryRegisterSession _ _, registered => if registered = true then -1 else 0
  | .updateIoStatistics _ _, _ => 0
  | .readSessionId _, _ => 0
  | .findSession _, _ => 0
  | .clientStartReceive, _ => 0
  | .clientEndpoint _, _ => 0

/-- What reporting a completion takes from the peer receives and the sends. -/
def peerCharge : Call Endpoint Packet → ℤ
  | .clientReceived _ _ => 0
  | .peerReceived _ _ => 1
  | .sessionSent _ _ => 1

variable [PacketType Packet]

/-- Each handler posts a client receive exactly when one has completed. -/
theorem body_yields_client (call : Call Endpoint Packet) :
    call.body.Yields clientGain (fun _ => 0) (-clientCharge call) := by
  cases call with
  | clientReceived src packet =>
      rw [body_clientReceived]
      intro _
      by_cases exact_size : PacketType.size packet = sessionIdSize
      · simp only [exact_size, if_true]
        intro id registered
        cases registered <;> simp [clientGain, clientCharge]
      · simp [exact_size, clientGain, clientCharge]
  | peerReceived src packet =>
      rw [body_peerReceived]
      intro _
      by_cases long : sessionIdSize ≤ PacketType.size packet
      · simp only [long, if_true]
        intro id found
        cases found with
        | none => simp [clientGain, clientCharge]
        | some session =>
            intro endpoint completed
            cases completed <;> simp [clientGain, clientCharge]
      · simp [long, clientGain, clientCharge]
  | sessionSent session packet =>
      rw [body_sessionSent]
      simp [clientGain, clientCharge]

/-- Each handler posts a peer receive or starts a send exactly once for every
completion of one and for every new session. -/
theorem body_yields_peer (call : Call Endpoint Packet) :
    call.body.Yields peerGain (fun _ => 0) (-peerCharge call) := by
  cases call with
  | clientReceived src packet =>
      rw [body_clientReceived]
      intro _
      by_cases exact_size : PacketType.size packet = sessionIdSize
      · simp only [exact_size, if_true]
        intro id registered
        cases registered <;> simp [peerGain, peerCharge]
      · simp [exact_size, peerGain, peerCharge]
  | peerReceived src packet =>
      rw [body_peerReceived]
      intro _
      by_cases long : sessionIdSize ≤ PacketType.size packet
      · simp only [long, if_true]
        intro id found
        cases found with
        | none => simp [peerGain, peerCharge]
        | some session =>
            intro endpoint completed
            cases completed <;> simp [peerGain, peerCharge]
      · simp [long, peerGain, peerCharge]
  | sessionSent session packet =>
      rw [body_sessionSent]
      simp [peerGain, peerCharge]

end Gains

section Quantities

variable {library : Library Thread Endpoint (List UInt8)} (contract : Contract library)

/-- The posted client receives. -/
def Contract.clientReceives (shared : Shared library) : ℤ :=
  (contract.ledger shared.library).clientReceives

/-- The posted peer receives and the sends in flight, less the sessions. -/
def Contract.peerExcess (shared : Shared library) : ℤ :=
  (contract.ledger shared.library).peerReceives + (contract.ledger shared.library).sends.card -
    shared.relay.size

theorem Contract.clientReceives_of_invoke {thread : Thread} {call : Call Endpoint (List UInt8)}
    {state after : library.State} (allowed : library.invoke thread call state after) :
    ((contract.ledger after).clientReceives : ℤ) =
      (contract.ledger state).clientReceives - clientCharge call := by
  cases call with
  | clientReceived src packet => simp [contract.clientReceived allowed, clientCharge]
  | peerReceived src packet => simp [contract.peerReceived allowed, clientCharge]
  | sessionSent session packet => simp [contract.sessionSent allowed, clientCharge]

theorem Contract.peer_of_invoke {thread : Thread} {call : Call Endpoint (List UInt8)}
    {state after : library.State} (allowed : library.invoke thread call state after) :
    ((contract.ledger after).peerReceives + (contract.ledger after).sends.card : ℤ) =
      (contract.ledger state).peerReceives + (contract.ledger state).sends.card -
        peerCharge call := by
  cases call with
  | clientReceived src packet => simp [contract.clientReceived allowed, peerCharge]
  | peerReceived src packet =>
      simp only [contract.peerReceived allowed, peerCharge, Nat.cast_add, Nat.cast_one]
      omega
  | sessionSent session packet =>
      simp only [contract.sessionSent allowed, peerCharge, Multiset.card_cons, Nat.cast_add,
        Nat.cast_one]
      omega

variable [DecidableEq Thread]

theorem Contract.clientReceives_of_execute {thread : Thread} {op : Op Endpoint (List UInt8)}
    {shared after : Shared library} {result : op.Result}
    (effect : library.machine.execute thread op shared result after) :
    contract.clientReceives after = contract.clientReceives shared + clientGain op result := by
  cases op with
  | updateIoStatistics flow packet =>
      have after_eq : after = { shared with
          relay := shared.relay.updateIoStatistics thread flow (PacketType.size packet) } := effect
      simp [Contract.clientReceives, after_eq, clientGain]
  | readSessionId packet =>
      have after_eq : after = shared := effect.2
      simp [after_eq, clientGain]
  | tryRegisterSession id src =>
      have library_eq : after.library = shared.library := effect.2
      simp [Contract.clientReceives, library_eq, clientGain]
  | findSession id =>
      have after_eq : after = shared := effect.2
      simp [after_eq, clientGain]
  | clientStartReceive =>
      simp [Contract.clientReceives, contract.clientStartReceive effect.2, clientGain]
  | peerStartReceive =>
      simp [Contract.clientReceives, contract.peerStartReceive effect.2, clientGain]
  | clientEndpoint session =>
      have after_eq : after = shared := effect.2
      simp [after_eq, clientGain]
  | send session endpoint packet =>
      cases result with
      | false => simp [Contract.clientReceives, contract.startSend effect.2, clientGain]
      | true => simp [Contract.clientReceives, contract.sentAtOnce effect.2, clientGain]

theorem Contract.peerExcess_of_execute {thread : Thread} {op : Op Endpoint (List UInt8)}
    {shared after : Shared library} {result : op.Result}
    (effect : library.machine.execute thread op shared result after) :
    contract.peerExcess after = contract.peerExcess shared + peerGain op result := by
  cases op with
  | updateIoStatistics flow packet =>
      have after_eq : after = { shared with
          relay := shared.relay.updateIoStatistics thread flow (PacketType.size packet) } := effect
      simp [Contract.peerExcess, after_eq, peerGain, State.size]
  | readSessionId packet =>
      have after_eq : after = shared := effect.2
      simp [after_eq, peerGain]
  | tryRegisterSession id src =>
      have library_eq : after.library = shared.library := effect.2
      have registration_eq : shared.relay.tryRegisterSession id src = (result, after.relay) :=
        effect.1
      have size := State.size_tryRegisterSession shared.relay id src
      rw [registration_eq] at size
      simp only [Contract.peerExcess, library_eq, size]
      cases result <;> simp [peerGain]
      omega
  | findSession id =>
      have after_eq : after = shared := effect.2
      simp [after_eq, peerGain]
  | clientStartReceive =>
      have relay_eq : after.relay = shared.relay := effect.1
      simp [Contract.peerExcess, contract.clientStartReceive effect.2, relay_eq, peerGain]
  | peerStartReceive =>
      have relay_eq : after.relay = shared.relay := effect.1
      simp only [Contract.peerExcess, contract.peerStartReceive effect.2, relay_eq, peerGain,
        Nat.cast_add, Nat.cast_one]
      omega
  | clientEndpoint session =>
      have after_eq : after = shared := effect.2
      simp [after_eq, peerGain]
  | send session endpoint packet =>
      have relay_eq : after.relay = shared.relay := effect.1
      cases result with
      | false =>
          simp only [Contract.peerExcess, contract.startSend effect.2, relay_eq, peerGain,
            Multiset.card_cons, Nat.cast_add, Nat.cast_one, Bool.false_eq_true, if_false]
          omega
      | true => simp [Contract.peerExcess, contract.sentAtOnce effect.2, relay_eq, peerGain]

end Quantities

variable [DecidableEq Thread] [Fintype Thread]
  {library : Library Thread Endpoint (List UInt8)} {start : library.State}
  {trace : List (Label Thread Endpoint)}
  {config : Atomic.Config Thread (Call Endpoint (List UInt8)) (@Op.Result Endpoint (List UInt8))
    (Option Bool) (Shared library)}

/-- Whenever no handler is in progress, every session has one peer receive posted
or one send in flight, and the client receives are those posted initially. -/
theorem receives_conserved (contract : Contract library)
    (noPeerReceives : (contract.ledger start).peerReceives = 0)
    (noSends : (contract.ledger start).sends = 0)
    (run : library.Run start trace config)
    (quiescent : ∀ thread, config.running thread = none) :
    (contract.ledger config.shared.library).peerReceives +
        (contract.ledger config.shared.library).sends.card = config.shared.relay.size ∧
      (contract.ledger config.shared.library).clientReceives =
        (contract.ledger start).clientReceives := by
  have peer : contract.peerExcess config.shared = contract.peerExcess ⟨State.initial, start⟩ := by
    apply run.conserved contract.peerExcess_of_execute ?_ body_yields_peer quiescent
    intro thread call shared after allowed
    have relay_eq : after.relay = shared.relay := allowed.1
    have charged := contract.peer_of_invoke allowed.2
    simp only [Contract.peerExcess, relay_eq]
    omega
  have client : contract.clientReceives config.shared =
      contract.clientReceives ⟨State.initial, start⟩ := by
    apply run.conserved contract.clientReceives_of_execute ?_ body_yields_client quiescent
    intro thread call shared after allowed
    exact contract.clientReceives_of_invoke allowed.2
  have empty : (State.initial : State Thread Endpoint).size = 0 := rfl
  simp only [Contract.peerExcess, noPeerReceives, noSends, Multiset.card_zero, empty] at peer
  simp only [Contract.clientReceives] at client
  omega

theorem receives_conserved_of_one_send :
    ∃ shared : Shared (Library.contractual Unit ℕ (List UInt8)),
      shared.library = ⟨1, 0, {(⟨1⟩, [1, 0, 0, 0, 0, 0, 0, 0, 42])}⟩ ∧
        shared.library.peerReceives + shared.library.sends.card = shared.relay.size ∧
        shared.library.clientReceives = 1 := by
  let counted : State Unit ℕ := State.initial.updateIoStatistics () .inbound 8
  let registered : State Unit ℕ := { counted with sessions := counted.sessions.insert 1 ⟨7⟩ }
  let received : State Unit ℕ := registered.updateIoStatistics () .inbound 9
  have registers : counted.tryRegisterSession 1 7 = (true, registered) :=
    State.tryRegisterSession_of_notMem (AList.notMem_empty _) 7
  have known : (1 : SessionId) ∈ received.sessions := by simp [received, registered]
  have finds : some ⟨1⟩ = received.findSession 1 :=
    (State.findSession_eq_some.mpr ⟨known, rfl⟩).symm
  have reads : received.clientEndpoint? ⟨1⟩ = some 7 := by
    simp [received, registered, State.clientEndpoint?]
  have run : (Library.contractual Unit ℕ (List UInt8)).Run ⟨1, 0, 0⟩ []
      ⟨⟨State.initial, ⟨1, 0, 0⟩⟩, fun _ => none⟩ := .start
  have run := run.invoked () (.clientReceived 7 [1, 0, 0, 0, 0, 0, 0, 0])
    ⟨State.initial, ⟨0, 0, 0⟩⟩ rfl ⟨rfl, rfl⟩
  have run := run.performed () () ⟨counted, ⟨0, 0, 0⟩⟩ rfl rfl
  have run := run.performed () 1 ⟨counted, ⟨0, 0, 0⟩⟩ rfl ⟨rfl, rfl⟩
  have run := run.performed () true ⟨registered, ⟨0, 0, 0⟩⟩ rfl (by exact ⟨registers, rfl⟩)
  have run := run.performed () () ⟨registered, ⟨0, 1, 0⟩⟩ rfl ⟨rfl, rfl⟩
  have run := run.performed () () ⟨registered, ⟨1, 1, 0⟩⟩ rfl ⟨rfl, rfl⟩
  have run := run.returned () rfl
  have run := run.invoked () (.peerReceived 9 [1, 0, 0, 0, 0, 0, 0, 0, 42])
    ⟨registered, ⟨1, 0, 0⟩⟩ rfl ⟨rfl, rfl⟩
  have run := run.performed () () ⟨received, ⟨1, 0, 0⟩⟩ rfl rfl
  have run := run.performed () 1 ⟨received, ⟨1, 0, 0⟩⟩ rfl ⟨rfl, rfl⟩
  have run := run.performed () (some ⟨1⟩) ⟨received, ⟨1, 0, 0⟩⟩ rfl (by exact ⟨finds, rfl⟩)
  have run := run.performed () 7 ⟨received, ⟨1, 0, 0⟩⟩ rfl (by exact ⟨reads, rfl⟩)
  have run := run.performed () false
    ⟨received, ⟨1, 0, {(⟨1⟩, [1, 0, 0, 0, 0, 0, 0, 0, 42])}⟩⟩ rfl (by exact ⟨rfl, rfl⟩)
  have run := run.returned () rfl
  exact ⟨_, rfl, receives_conserved (Contract.contractual Unit ℕ (List UInt8)) rfl rfl run
    fun _ => rfl⟩

end Urn.Relay
