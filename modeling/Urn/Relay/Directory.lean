import Urn.Foundation.Directory
import Urn.Relay.Worker

/-!
# What a relay is for

A relay is a directory of session ids.  A datagram of eight bytes from a client
claims the id it consists of for the client, and a datagram from the peer is
delivered to the client that holds the id in its first eight bytes.  This is said
here without sessions, statistics and buffers; the back ends are compared with it.
-/

namespace Urn.Relay

variable {Endpoint : Type}

abbrev Request (Endpoint : Type) := Directory.Request SessionId Endpoint (List UInt8)

def askedByClient (src : Endpoint) (bytes : List UInt8) : List (Request Endpoint) :=
  if bytes.length = sessionIdSize then [.claim (getSessionId bytes) src] else []

def askedByPeer (bytes : List UInt8) : List (Request Endpoint) :=
  if sessionIdSize ≤ bytes.length then [.deliver bytes] else []

/-- The holders of the session ids. -/
def State.table {Thread : Type} (relay : State Thread Endpoint) :
    Directory.Table SessionId Endpoint :=
  fun id => relay.clientEndpoint? ⟨id⟩

/-- What the directory delivers. -/
abbrev answers (table : Directory.Table SessionId Endpoint) (requests : List (Request Endpoint)) :
    List (Endpoint × List UInt8) :=
  table.answers getSessionId requests

theorem answers_append (table : Directory.Table SessionId Endpoint)
    (first second : List (Request Endpoint)) :
    answers table (first ++ second) =
      answers table first ++ answers (table.afterAll first) second :=
  Directory.Table.answers_append getSessionId first second

theorem table_tryRegisterSession {Thread : Type} (relay : State Thread Endpoint) (id : SessionId)
    (src : Endpoint) :
    (relay.tryRegisterSession id src).2.table = relay.table.after (.claim id src : Request _) := by
  funext other
  rw [Directory.Table.after_eq]
  exact State.clientEndpoint?_tryRegisterSession_eq relay id other src

theorem table_clientReceived (relay : State UInt16 Endpoint) (thread : UInt16) (src : Endpoint)
    (bytes : List UInt8) :
    (relay.clientReceived thread src bytes).2.table =
      relay.table.afterAll (askedByClient src bytes) := by
  have counted : (relay.updateIoStatistics thread .inbound bytes.length).table = relay.table := rfl
  by_cases eightBytes : bytes.length = sessionIdSize
  · simp only [State.clientReceived, askedByClient, if_pos eightBytes, table_tryRegisterSession,
      counted]
    rfl
  · simp only [State.clientReceived, askedByClient, if_neg eightBytes]
    exact counted

@[simp]
theorem answers_askedByClient (table : Directory.Table SessionId Endpoint) (src : Endpoint)
    (bytes : List UInt8) : answers table (askedByClient src bytes) = [] := by
  simp only [askedByClient]
  split <;> rfl

@[simp]
theorem afterAll_askedByPeer (table : Directory.Table SessionId Endpoint) (bytes : List UInt8) :
    table.afterAll (askedByPeer bytes : List (Request Endpoint)) = table := by
  simp only [askedByPeer]
  split <;> rfl

/-- The relay finds the session to which the directory delivers. -/
theorem answers_askedByPeer (relay : State UInt16 Endpoint) (bytes : List UInt8) :
    answers relay.table (askedByPeer bytes) =
      ((relay.route bytes).map fun target => (target.2, bytes)).toList := by
  by_cases long : sessionIdSize ≤ bytes.length
  · simp only [answers, askedByPeer, if_pos long, Directory.Table.answers,
      Directory.Table.answer, State.route, State.table]
    cases relay.clientEndpoint? ⟨getSessionId bytes⟩ <;> rfl
  · simp only [askedByPeer, State.route, if_neg long]
    rfl

namespace Backend

variable {Packet Io Failure : Type} [PacketType Packet]
  (backend : Backend Endpoint Packet Io Failure) (thread : UInt16) {packet : Packet}
  {worker after : Worker Endpoint Io}

theorem table_of_runOnClientReceived {src : Endpoint} {result : Unit}
    (ran : backend.runOnClientReceived thread src packet worker = .ok (result, after)) :
    after.relay.table =
      worker.relay.table.afterAll (askedByClient src (backend.read worker.io packet)) := by
  simp only [runOnClientReceived_eq, Except.ok.injEq, Prod.mk.injEq] at ran
  rw [← ran.2]
  exact table_clientReceived _ _ _ _

theorem table_of_runOnSessionSent {result : Unit}
    (ran : backend.runOnSessionSent thread packet worker = .ok (result, after)) :
    after.relay.table = worker.relay.table := by
  simp only [runOnSessionSent_eq, Except.ok.injEq, Prod.mk.injEq] at ran
  rw [← ran.2]
  rfl

theorem table_of_runOnPeerReceived {reused : Bool}
    (ran : backend.runOnPeerReceived thread packet worker = .ok (reused, after)) :
    after.relay.table = worker.relay.table := by
  cases routed : worker.relay.route (backend.read worker.io packet) with
  | none =>
      rw [backend.runOnPeerReceived_of_none thread routed, Except.ok.injEq, Prod.mk.injEq] at ran
      rw [← ran.2]
      rfl
  | some target =>
      rw [backend.runOnPeerReceived_of_some thread routed] at ran
      cases sent : backend.startSend target.1 target.2 packet worker.io with
      | error failure =>
          rw [sent] at ran
          contradiction
      | ok result =>
          rcases result with ⟨completed, io⟩
          simp only [sent, Except.ok.injEq, Prod.mk.injEq] at ran
          rw [← ran.2]
          cases completed <;> rfl

end Backend

end Urn.Relay
