import Urn.Demi.Basic

/-!
# What the worker pushes

`start_send` looks neither at its session nor at its packet: it pushes the last
datagram that the worker has got from a client back to where that datagram came
from.  So the worker forwards correctly exactly when that datagram has the bytes
of the packet and comes from the endpoint of the session.
-/

namespace Urn.Demi

open Relay Execution

variable {Endpoint : Type}

/-- The datagram makes the relay register a session for the identifier. -/
def Delivery.registers (delivery : Delivery Endpoint) (id : SessionId) : Bool :=
  delivery.side = .client ∧ delivery.sga.sgaSeg.length = sessionIdSize ∧
    getSessionId delivery.sga.sgaSeg = id

/-- The source of the registration that created the session. -/
def registrant (history : List (Delivery Endpoint)) (id : SessionId) : Option Endpoint :=
  (history.find? fun delivery => delivery.registers id).map fun delivery => delivery.sga.sgaAddr

/-- The last datagram from a client. -/
def lastClient (history : List (Delivery Endpoint)) : Option (Sga Endpoint) :=
  ((history.filter fun delivery => delivery.side = .client).getLast?).map Delivery.sga

/-- The endpoint of the session that a datagram from the peer names. -/
def destination (history : List (Delivery Endpoint)) (delivery : Delivery Endpoint) :
    Option Endpoint :=
  if delivery.side = .peer ∧ sessionIdSize ≤ delivery.sga.sgaSeg.length then
    registrant history (getSessionId delivery.sga.sgaSeg)
  else
    none

/-- What should be pushed when a datagram is delivered. -/
def forward (history : List (Delivery Endpoint)) (delivery : Delivery Endpoint) :
    Option (Endpoint × List UInt8) :=
  (destination history delivery).map fun endpoint => (endpoint, delivery.sga.sgaSeg)

/-- What is pushed when a datagram is delivered. -/
def echo (history : List (Delivery Endpoint)) (delivery : Delivery Endpoint) :
    Option (Endpoint × List UInt8) :=
  (destination history delivery).bind fun _ =>
    (lastClient history).map fun sga => (sga.sgaAddr, sga.sgaSeg)

/-- Collect what each delivery contributes, given the deliveries before it. -/
def collect {Item : Type} (item : List (Delivery Endpoint) → Delivery Endpoint → Option Item) :
    List (Delivery Endpoint) → List (Delivery Endpoint) → List Item
  | _, [] => []
  | history, delivery :: deliveries =>
      (item history delivery).toList ++ collect item (history ++ [delivery]) deliveries

/-- Each datagram from the peer which names a session repeats the last datagram from a
client, and the latter comes from the endpoint of the session. -/
def RepeatsLastClient (deliveries : List (Delivery Endpoint)) : Prop :=
  ∀ before delivery after endpoint, deliveries = before ++ delivery :: after →
    destination before delivery = some endpoint →
    lastClient before = some ⟨endpoint, delivery.sga.sgaSeg⟩

section Histories

variable {history : List (Delivery Endpoint)}

theorem registrant_snoc (history : List (Delivery Endpoint)) (delivery : Delivery Endpoint)
    (id : SessionId) :
    registrant (history ++ [delivery]) id =
      (registrant history id).or
        (if delivery.registers id = true then some delivery.sga.sgaAddr else none) := by
  cases found : history.find? fun delivery => delivery.registers id with
  | some first => simp [registrant, found]
  | none =>
      by_cases registers : delivery.registers id = true
      · simp [registrant, found, registers]
      · simp [registrant, found, registers]

theorem lastClient_snoc_client (history : List (Delivery Endpoint)) (sga : Sga Endpoint) :
    lastClient (history ++ [⟨.client, sga⟩]) = some sga := by
  simp [lastClient]

theorem lastClient_snoc_peer (history : List (Delivery Endpoint)) (sga : Sga Endpoint) :
    lastClient (history ++ [⟨.peer, sga⟩]) = lastClient history := by
  simp [lastClient]

theorem lastClient_of_destination {delivery : Delivery Endpoint} {endpoint : Endpoint}
    (destined : destination history delivery = some endpoint) :
    ∃ sga, lastClient history = some sga := by
  rw [destination] at destined
  split at destined
  · rcases Option.map_eq_some_iff.mp destined with ⟨first, found, -⟩
    have registers := List.find?_some found
    have first_mem := List.mem_of_find?_eq_some found
    have isClient : first.side = .client := (of_decide_eq_true registers).1
    have inClients : first ∈ history.filter fun delivery => delivery.side = .client := by
      simpa [isClient] using first_mem
    have nonempty := List.ne_nil_of_mem inClients
    exact ⟨_, by rw [lastClient, List.getLast?_eq_some_getLast nonempty, Option.map_some]⟩
  · contradiction

theorem collect_append {Item : Type}
    (item : List (Delivery Endpoint) → Delivery Endpoint → Option Item)
    (history deliveries more : List (Delivery Endpoint)) :
    collect item history (deliveries ++ more) =
      collect item history deliveries ++ collect item (history ++ deliveries) more := by
  induction deliveries generalizing history with
  | nil => simp [collect]
  | cons delivery deliveries ih => simp [collect, ih, List.append_assoc]

theorem collect_snoc {Item : Type}
    (item : List (Delivery Endpoint) → Delivery Endpoint → Option Item)
    (deliveries : List (Delivery Endpoint)) (delivery : Delivery Endpoint) :
    collect item [] (deliveries ++ [delivery]) =
      collect item [] deliveries ++ (item deliveries delivery).toList := by
  simp [collect_append, collect]

/-- Collections of as many items are equal if and only if each delivery contributes the
same to both. -/
theorem collect_eq_iff {Item : Type}
    {left right : List (Delivery Endpoint) → Delivery Endpoint → Option Item}
    (sameCount : ∀ history delivery,
      (left history delivery).isSome = (right history delivery).isSome)
    (history deliveries : List (Delivery Endpoint)) :
    collect left history deliveries = collect right history deliveries ↔
      ∀ before delivery after, deliveries = before ++ delivery :: after →
        left (history ++ before) delivery = right (history ++ before) delivery := by
  induction deliveries generalizing history with
  | nil => simp [collect]
  | cons first deliveries ih =>
      have lengths : (left history first).toList.length = (right history first).toList.length := by
        have same := sameCount history first
        cases leftItem : left history first <;> cases rightItem : right history first <;>
          simp [leftItem, rightItem] at same ⊢
      have parts : collect left history (first :: deliveries) =
          collect right history (first :: deliveries) ↔
            left history first = right history first ∧
              collect left (history ++ [first]) deliveries =
                collect right (history ++ [first]) deliveries := by
        constructor
        · intro same
          rcases List.append_inj same lengths with ⟨sameFirst, sameRest⟩
          have sameHead := congrArg List.head? sameFirst
          exact ⟨by simpa using sameHead, sameRest⟩
        · rintro ⟨sameFirst, sameRest⟩
          rw [collect, collect, sameFirst, sameRest]
      rw [parts, ih]
      constructor
      · rintro ⟨sameFirst, sameRest⟩ before delivery after split_eq
        cases before with
        | nil =>
            rw [List.nil_append, List.cons.injEq] at split_eq
            rw [List.append_nil, ← split_eq.1]
            exact sameFirst
        | cons other before =>
            rw [List.cons_append, List.cons.injEq] at split_eq
            rcases split_eq with ⟨rfl, split_eq⟩
            simpa using sameRest before delivery after split_eq
      · intro same
        constructor
        · simpa using same [] first deliveries rfl
        · intro before delivery after split_eq
          have later := same (first :: before) delivery after (by rw [split_eq, List.cons_append])
          simpa using later

end Histories

section Deliver

variable {thread : UInt16} {worker : Worker Endpoint (Io Endpoint)} {sga : Sga Endpoint}

/-- A result has been stored. -/
def Io.stored (io : Io Endpoint) (side : Side) (sga : Sga Endpoint) : Io Endpoint :=
  io.setRx side { io.rx side with res := some sga }

@[simp]
theorem Io.stored_pushed (io : Io Endpoint) (side : Side) (sga : Sga Endpoint) :
    (io.stored side sga).pushed = io.pushed := by
  cases side <;> rfl

/-- A push has been issued. -/
def Io.pushing (io : Io Endpoint) (sga : Sga Endpoint) : Io Endpoint :=
  { io with
    clientsIo := { io.clientsIo with txLength := io.clientsIo.txLength + 1 }
    pushed := io.pushed ++ [⟨sga, sga.sgaAddr⟩] }

theorem deliver_client (thread : UInt16) (worker : Worker Endpoint (Io Endpoint))
    (sga : Sga Endpoint) :
    deliver thread worker ⟨.client, sga⟩ =
      .ok ⟨(worker.relay.clientReceived thread sga.sgaAddr sga.sgaSeg).2,
        worker.io.stored .client sga⟩ := by
  simp only [deliver, Backend.runOnClientReceived_eq]
  congr 2
  exact ite_self _

theorem deliver_peer_of_none (unrouted : worker.relay.route sga.sgaSeg = none) :
    deliver thread worker ⟨.peer, sga⟩ =
      .ok ⟨worker.relay.updateIoStatistics thread .inbound sga.sgaSeg.length,
        worker.io.stored .peer sga⟩ := by
  have unrouted' : (⟨worker.relay, worker.io.stored .peer sga⟩ :
      Worker Endpoint (Io Endpoint)).relay.route sga.sgaSeg = none := unrouted
  have ran := Backend.runOnPeerReceived_of_none (backend Endpoint) thread unrouted'
  simp only [Io.stored, Io.rx] at ran
  simp only [deliver, ran]
  rfl

theorem deliver_peer_of_some {target : SessionPtr × Endpoint} {last : Sga Endpoint}
    (routed : worker.relay.route sga.sgaSeg = some target)
    (stored : worker.io.clientsIo.rx.res = some last) :
    deliver thread worker ⟨.peer, sga⟩ =
      .ok ⟨(worker.relay.updateIoStatistics thread .inbound sga.sgaSeg.length).updateIoStatistics
          thread .outbound sga.sgaSeg.length,
        (worker.io.stored .peer sga).pushing last⟩ := by
  have routed' : (⟨worker.relay, worker.io.stored .peer sga⟩ :
      Worker Endpoint (Io Endpoint)).relay.route sga.sgaSeg = some target := routed
  have ran := Backend.runOnPeerReceived_of_some (backend Endpoint) thread routed'
  have sends : (backend Endpoint).startSend target.1 target.2 sga.sgaSeg
      (worker.io.stored .peer sga) = .ok (true, (worker.io.stored .peer sga).pushing last) := by
    have kept : (worker.io.stored .peer sga).clientsIo.rx.res = some last := stored
    simp only [backend, Io.startSend, kept]
    rfl
  rw [sends] at ran
  simp only [Io.stored, Io.rx] at ran
  simp only [deliver, ran]
  rfl

end Deliver

/-- The worker has got the given datagrams. -/
structure Tracks (history : List (Delivery Endpoint)) (worker : Worker Endpoint (Io Endpoint)) :
    Prop where
  res : worker.io.clientsIo.rx.res = lastClient history
  endpoint : ∀ id, worker.relay.clientEndpoint? ⟨id⟩ = registrant history id
  pushed : worker.io.pushed.map Push.content = collect echo [] history

section Steps

variable {thread : UInt16} {history : List (Delivery Endpoint)}
  {worker : Worker Endpoint (Io Endpoint)}

theorem tracks_init : Tracks [] (⟨State.initial, Io.init⟩ : Worker Endpoint (Io Endpoint)) where
  res := rfl
  endpoint _ := rfl
  pushed := rfl

theorem Tracks.route_eq (tracks : Tracks history worker) (sga : Sga Endpoint) :
    worker.relay.route sga.sgaSeg =
      (destination history ⟨.peer, sga⟩).map fun endpoint =>
        (⟨getSessionId sga.sgaSeg⟩, endpoint) := by
  by_cases long : sessionIdSize ≤ sga.sgaSeg.length
  · simp [State.route, destination, long, tracks.endpoint]
  · simp [State.route, destination, long]

theorem clientEndpoint?_clientReceived_eq (relay : State UInt16 Endpoint) (sga : Sga Endpoint)
    (id : SessionId) :
    (relay.clientReceived thread sga.sgaAddr sga.sgaSeg).2.clientEndpoint? ⟨id⟩ =
      (relay.clientEndpoint? ⟨id⟩).or
        (if (⟨.client, sga⟩ : Delivery Endpoint).registers id = true then some sga.sgaAddr
          else none) := by
  by_cases exact_size : sga.sgaSeg.length = sessionIdSize
  · have registered := State.clientEndpoint?_tryRegisterSession_eq
      (relay.updateIoStatistics thread .inbound sga.sgaSeg.length) (getSessionId sga.sgaSeg) id
      sga.sgaAddr
    simpa [State.clientReceived, exact_size, Delivery.registers] using registered
  · simp [State.clientReceived, exact_size, Delivery.registers]

theorem Tracks.deliver (tracks : Tracks history worker) (thread : UInt16)
    (delivery : Delivery Endpoint) :
    ∃ after, deliver thread worker delivery = .ok after ∧
      Tracks (history ++ [delivery]) after := by
  rcases delivery with ⟨side, sga⟩
  cases side with
  | client =>
      refine ⟨_, deliver_client thread worker sga, ?_, ?_, ?_⟩
      · exact (lastClient_snoc_client history sga).symm
      · intro id
        rw [registrant_snoc, ← tracks.endpoint id]
        exact clientEndpoint?_clientReceived_eq worker.relay sga id
      · rw [collect_snoc]
        simpa [echo, destination] using tracks.pushed
  | peer =>
      have kept (id : SessionId) :
          registrant (history ++ [⟨.peer, sga⟩]) id = registrant history id := by
        simp [registrant_snoc, Delivery.registers]
      have res_eq := tracks.res.trans (lastClient_snoc_peer history sga).symm
      have route_eq := tracks.route_eq sga
      cases destined : destination history ⟨.peer, sga⟩ with
      | none =>
          rw [destined, Option.map_none] at route_eq
          refine ⟨_, deliver_peer_of_none route_eq, res_eq, ?_, ?_⟩
          · intro id
            exact (tracks.endpoint id).trans (kept id).symm
          · rw [collect_snoc, echo, destined]
            simpa using tracks.pushed
      | some endpoint =>
          rw [destined, Option.map_some] at route_eq
          rcases lastClient_of_destination destined with ⟨last, last_eq⟩
          have stored := tracks.res.trans last_eq
          refine ⟨_, deliver_peer_of_some route_eq stored, res_eq, ?_, ?_⟩
          · intro id
            exact (tracks.endpoint id).trans (kept id).symm
          · rw [collect_snoc, echo, destined, last_eq, ← tracks.pushed]
            exact List.map_append

theorem Tracks.iterate (tracks : Tracks history worker) (thread : UInt16)
    (delivery : Delivery Endpoint) :
    ∃ after, iterate thread worker delivery = .ok after ∧ Tracks (history ++ [delivery]) after := by
  have reset : Tracks history { worker with io := worker.io.resetTxLength } :=
    ⟨tracks.res, tracks.endpoint, tracks.pushed⟩
  exact reset.deliver thread delivery

theorem process_tracks (thread : UInt16) (deliveries : List (Delivery Endpoint)) :
    ∃ worker, process thread deliveries = .ok worker ∧ Tracks deliveries worker := by
  induction deliveries using List.reverseRecOn with
  | nil => exact ⟨_, rfl, tracks_init⟩
  | append_singleton deliveries delivery ih =>
      rcases ih with ⟨worker, ran, tracks⟩
      rcases tracks.iterate thread delivery with ⟨after, iterated, tracksAfter⟩
      exact ⟨after, execute_snoc.mpr ⟨worker, ran, iterated⟩, tracksAfter⟩

end Steps

section Forwarding

theorem collect_echo_eq_iff (deliveries : List (Delivery Endpoint)) :
    collect echo [] deliveries = collect forward [] deliveries ↔ RepeatsLastClient deliveries := by
  have sameCount (history : List (Delivery Endpoint)) (delivery : Delivery Endpoint) :
      (echo history delivery).isSome = (forward history delivery).isSome := by
    cases destined : destination history delivery with
    | none => simp [echo, forward, destined]
    | some endpoint =>
        rcases lastClient_of_destination destined with ⟨last, last_eq⟩
        simp [echo, forward, destined, last_eq]
  rw [collect_eq_iff sameCount]
  constructor
  · intro same before delivery after endpoint split_eq destined
    have item := same before delivery after split_eq
    rcases lastClient_of_destination destined with ⟨last, last_eq⟩
    rcases last with ⟨addr, seg⟩
    rw [List.nil_append] at item
    simpa [echo, forward, destined, last_eq] using item
  · intro repeats before delivery after split_eq
    rw [List.nil_append]
    cases destined : destination before delivery with
    | none => simp [echo, forward, destined]
    | some endpoint =>
        have last_eq := repeats before delivery after endpoint split_eq destined
        simp [echo, forward, destined, last_eq]

/-- The pushes are what should be forwarded if and only if each datagram from the peer
which names a session repeats the last datagram from a client, and the latter comes from
the endpoint of the session. -/
theorem forwarding_iff (thread : UInt16) (deliveries : List (Delivery Endpoint)) :
    ∃ worker, process thread deliveries = .ok worker ∧
      (worker.io.pushed.map Push.content = collect forward [] deliveries ↔
        RepeatsLastClient deliveries) := by
  rcases process_tracks thread deliveries with ⟨worker, ran, tracks⟩
  refine ⟨worker, ran, ?_⟩
  rw [tracks.pushed]
  exact collect_echo_eq_iff deliveries

/-- Two clients register, and the peer answers the first. -/
def twoClients : List (Delivery ℕ) :=
  [⟨.client, ⟨7, [1, 0, 0, 0, 0, 0, 0, 0]⟩⟩, ⟨.client, ⟨8, [2, 0, 0, 0, 0, 0, 0, 0]⟩⟩,
    ⟨.peer, ⟨9, [1, 0, 0, 0, 0, 0, 0, 0, 42]⟩⟩]

/-- The answer to the first client is dropped, and the registration of the second client
is pushed back to it. -/
theorem misdirected_of_twoClients :
    ∃ worker, process 0 twoClients = .ok worker ∧
      worker.io.pushed.map Push.content = [(8, [2, 0, 0, 0, 0, 0, 0, 0])] ∧
      collect forward [] twoClients = [(7, [1, 0, 0, 0, 0, 0, 0, 0, 42])] ∧
      worker.io.pushed.map Push.content ≠ collect forward [] twoClients := by
  have succeeds : succeedsWith (process 0 twoClients) (fun worker =>
      worker.io.pushed.map Push.content = [(8, [2, 0, 0, 0, 0, 0, 0, 0])] ∧
        collect forward [] twoClients = [(7, [1, 0, 0, 0, 0, 0, 0, 0, 42])]) = true := by
    decide +kernel
  rcases exists_of_succeedsWith succeeds with ⟨worker, ran, test⟩
  rcases of_decide_eq_true test with ⟨pushed, expected⟩
  refine ⟨worker, ran, pushed, expected, ?_⟩
  rw [pushed, expected]
  decide

end Forwarding

end Urn.Demi
