import Urn.Foundation.Execution
import Urn.Relay.Worker

/-!
# Entry points of the relay

The public member functions of `urn::relay` by which a back end hands over packets
and takes the statistics, on a back end which only writes down what the relay
asks it for.  A send is completed later, by an event of its own.
-/

namespace Urn.Relay

section Handlers

variable {Endpoint Packet : Type} [PacketType Packet]

/-- `relay::on_peer_received(packet, with_session)`. -/
def onPeerReceivedWith (packet : Packet)
    (withSession : SessionPtr → Handler Endpoint Packet Unit) : Handler Endpoint Packet Bool := do
  updateIoStatistics .inbound packet
  if sessionIdSize ≤ PacketType.size packet then
    let id ← readSessionId packet
    if let some session ← findSession id then
      withSession session
      return true
  peerStartReceive
  return false

/-- `relay::receive_peer_data`, which returns a copy of the session. -/
def receivePeerData (packet : Packet) : Handler Endpoint Packet (Option (Session Endpoint)) := do
  updateIoStatistics .inbound packet
  if sessionIdSize ≤ PacketType.size packet then
    let id ← readSessionId packet
    if let some session ← findSession id then
      let endpoint ← Atomic.Program.op (.clientEndpoint session : Op Endpoint Packet)
      return some ⟨endpoint⟩
  return none

/-- The two overloads of `on_peer_received` differ in who calls `start_send`. -/
theorem onPeerReceivedWith_startSend (packet : Packet) :
    (onPeerReceivedWith packet fun session => startSend session packet :
      Handler Endpoint Packet Bool) = onPeerReceived packet := rfl

theorem receivePeerData_eq (packet : Packet) :
    (receivePeerData packet : Handler Endpoint Packet _) =
      .perform (.updateIoStatistics .inbound packet) fun _ =>
        if sessionIdSize ≤ PacketType.size packet then
          .perform (.readSessionId packet) fun id =>
            .perform (.findSession id) fun found =>
              match found with
              | some session =>
                  .perform (.clientEndpoint session) fun endpoint => .done (some ⟨endpoint⟩)
              | none => .done none
        else
          .done none := by
  simp only [receivePeerData, updateIoStatistics, readSessionId, findSession,
    Atomic.Program.op_bind, Atomic.Program.pure_eq_done]
  congr
  funext _
  congr
  funext id
  congr
  funext found
  cases found <;> rfl

end Handlers

namespace Backend

variable {Endpoint Packet Io Failure : Type} [PacketType Packet]
  (backend : Backend Endpoint Packet Io Failure) (thread : UInt16)

def runOnPeerReceivedWith (packet : Packet)
    (withSession : SessionPtr → Handler Endpoint Packet Unit) (worker : Worker Endpoint Io) :
    Except Failure (Bool × Worker Endpoint Io) :=
  (onPeerReceivedWith packet withSession).run (backend.handle thread) worker

def runReceivePeerData (packet : Packet) (worker : Worker Endpoint Io) :
    Except Failure (Option (Session Endpoint) × Worker Endpoint Io) :=
  (receivePeerData packet).run (backend.handle thread) worker

/-- The session of the packet, which is neither sent nor makes the peer receive again. -/
theorem runReceivePeerData_eq (packet : Packet) (worker : Worker Endpoint Io) :
    backend.runReceivePeerData thread packet worker =
      .ok ((worker.relay.route (backend.read worker.io packet)).map fun routed => ⟨routed.2⟩,
        ⟨worker.relay.updateIoStatistics thread .inbound (PacketType.size packet),
          worker.io⟩) := by
  simp only [runReceivePeerData, receivePeerData_eq, Atomic.Program.run_perform, handle,
    State.route, backend.read_length]
  by_cases long : sessionIdSize ≤ PacketType.size packet
  · simp only [if_pos long, Atomic.Program.run_perform, handle]
    generalize getSessionId (backend.read worker.io packet) = id
    cases bound : worker.relay.clientEndpoint? ⟨id⟩ with
    | none =>
        have unknown : id ∉ worker.relay.sessions := by
          intro known
          rcases State.mem_sessions_iff.mp known with ⟨endpoint, found⟩
          simp [bound] at found
        have missing : (worker.relay.updateIoStatistics thread .inbound
            (PacketType.size packet)).findSession id = none :=
          State.findSession_eq_none.mpr unknown
        simp [missing]
    | some endpoint =>
        have known := State.mem_sessions_iff.mpr ⟨endpoint, bound⟩
        have found : (worker.relay.updateIoStatistics thread .inbound
            (PacketType.size packet)).findSession id = some ⟨id⟩ :=
          State.findSession_eq_some.mpr ⟨known, rfl⟩
        simp [found, Atomic.Program.run_perform, handle, bound]
  · simp [long]

end Backend

namespace Service

/-- What a Library has been asked for. -/
structure Record (Endpoint : Type) where
  sends : List (Endpoint × List UInt8)
  peerReceives : ℕ
  clientReceives : ℕ
deriving DecidableEq

namespace Record

variable {Endpoint : Type}

def empty : Record Endpoint := ⟨[], 0, 0⟩

def send (record : Record Endpoint) (endpoint : Endpoint) (packet : List UInt8) :
    Record Endpoint :=
  { record with sends := record.sends ++ [(endpoint, packet)] }

def clientStartReceive (record : Record Endpoint) : Record Endpoint :=
  { record with clientReceives := record.clientReceives + 1 }

def peerStartReceive (record : Record Endpoint) : Record Endpoint :=
  { record with peerReceives := record.peerReceives + 1 }

end Record

inductive Fault
  /-- A session which does not exist is used. -/
  | dangling
  /-- `this_thread_statistics_` is null. -/
  | noStatistics
  /-- `per_thread_statistics_.at` throws. -/
  | outOfRange
deriving DecidableEq

def recorder (Endpoint : Type) : Backend Endpoint (List UInt8) (Record Endpoint) Fault where
  read _ packet := packet
  read_length _ _ := rfl
  clientStartReceive := Record.clientStartReceive
  peerStartReceive := Record.peerStartReceive
  startSend _ endpoint packet record := .ok (false, record.send endpoint packet)
  dangling := .dangling

/-- The three ways in which a back end hands over a packet from the peer. -/
inductive PeerEntry
  /-- `on_peer_received(src, packet)` -/
  | startsSend
  /-- `on_peer_received(packet, f)`, where `f` calls `start_send` -/
  | withSession
  /-- `receive_peer_data(packet)`, and then `start_send` on the session returned -/
  | peerData
deriving DecidableEq

inductive Event (Thread Endpoint : Type)
  | threadStart (thread : Thread) (index : UInt16)
  | clientReceived (thread : Thread) (src : Endpoint) (packet : List UInt8)
  | peerReceived (thread : Thread) (entry : PeerEntry) (packet : List UInt8)
  | sessionSent (thread : Thread) (packet : List UInt8)
  | loadStatistics
deriving DecidableEq

/-- The relay, what it has asked for, and what it has told. -/
structure Process (Thread Endpoint : Type) where
  worker : Worker Endpoint (Record Endpoint)
  thisThreadStatistics : Thread → Option UInt16
  /-- The totals which `load_statistics` has returned. -/
  loaded : List Statistics

section Process

variable {Thread Endpoint : Type}

def Process.initial : Process Thread Endpoint := ⟨⟨.initial, .empty⟩, fun _ => none, []⟩

/-- The indices of `per_thread_statistics_`. -/
def slots (threadCount : UInt16) : List UInt16 :=
  (List.range threadCount.toNat).map UInt16.ofNat

def runPeerEntry (entry : PeerEntry) (slot : UInt16) (packet : List UInt8)
    (worker : Worker Endpoint (Record Endpoint)) :
    Except Fault (Worker Endpoint (Record Endpoint)) :=
  match entry with
  | .startsSend => ((recorder Endpoint).runOnPeerReceived slot packet worker).map Prod.snd
  | .withSession =>
      ((recorder Endpoint).runOnPeerReceivedWith slot packet
        (fun session => startSend session packet) worker).map Prod.snd
  | .peerData =>
      match (recorder Endpoint).runReceivePeerData slot packet worker with
      | .error fault => .error fault
      | .ok (none, after) => .ok after
      | .ok (some session, after) =>
          .ok { after with io := after.io.send session.clientEndpoint packet }

/-- A member function runs on the slot of its thread. -/
def Process.onThread (process : Process Thread Endpoint) (thread : Thread)
    (run : UInt16 → Worker Endpoint (Record Endpoint) →
      Except Fault (Worker Endpoint (Record Endpoint))) :
    Except Fault (Process Thread Endpoint) :=
  match process.thisThreadStatistics thread with
  | none => .error .noStatistics
  | some slot =>
      match run slot process.worker with
      | .error fault => .error fault
      | .ok worker => .ok { process with worker }

def step [DecidableEq Thread] (threadCount : UInt16) (process : Process Thread Endpoint) :
    Event Thread Endpoint → Except Fault (Process Thread Endpoint)
  | .threadStart thread index =>
      if index < threadCount then
        .ok { process with
          thisThreadStatistics :=
            Function.update process.thisThreadStatistics thread (some index) }
      else
        .error .outOfRange
  | .clientReceived thread src packet =>
      process.onThread thread fun slot worker =>
        ((recorder Endpoint).runOnClientReceived slot src packet worker).map Prod.snd
  | .peerReceived thread entry packet => process.onThread thread fun slot worker =>
      runPeerEntry entry slot packet worker
  | .sessionSent thread packet =>
      process.onThread thread fun slot worker =>
        ((recorder Endpoint).runOnSessionSent slot packet worker).map Prod.snd
  | .loadStatistics =>
      let total := process.worker.relay.loadStatistics (slots threadCount)
      .ok { process with
        worker := { process.worker with relay := total.2 }
        loaded := process.loaded ++ [total.1] }

def run [DecidableEq Thread] (threadCount : UInt16) (events : List (Event Thread Endpoint)) :
    Except Fault (Process Thread Endpoint) :=
  Execution.execute (step threadCount) .initial events

/-- What a packet from the peer makes of the record: one send, or one receive to be started,
which `receive_peer_data` leaves out. -/
def Record.peerReceived (record : Record Endpoint) (entry : PeerEntry) (packet : List UInt8)
    (routed : Option (SessionPtr × Endpoint)) : Record Endpoint :=
  match routed with
  | some (_, endpoint) => record.send endpoint packet
  | none => if entry = .peerData then record else record.peerStartReceive

theorem runPeerEntry_eq (entry : PeerEntry) (slot : UInt16) (packet : List UInt8)
    (worker : Worker Endpoint (Record Endpoint)) :
    runPeerEntry entry slot packet worker =
      .ok ⟨worker.relay.updateIoStatistics slot .inbound packet.length,
        worker.io.peerReceived entry packet (worker.relay.route packet)⟩ := by
  have onPeerReceived : ((recorder Endpoint).runOnPeerReceived slot packet worker).map Prod.snd =
      .ok ⟨worker.relay.updateIoStatistics slot .inbound packet.length,
        worker.io.peerReceived .startsSend packet (worker.relay.route packet)⟩ := by
    cases routed : worker.relay.route packet with
    | none =>
        rw [(recorder Endpoint).runOnPeerReceived_of_none slot routed]
        rfl
    | some target =>
        rcases target with ⟨session, endpoint⟩
        rw [(recorder Endpoint).runOnPeerReceived_of_some slot routed]
        rfl
  cases entry with
  | startsSend => exact onPeerReceived
  | withSession =>
      have same : runPeerEntry .withSession slot packet worker =
          ((recorder Endpoint).runOnPeerReceived slot packet worker).map Prod.snd := rfl
      rw [same, onPeerReceived]
      cases worker.relay.route packet <;> rfl
  | peerData =>
      have received := (recorder Endpoint).runReceivePeerData_eq slot packet worker
      simp only [runPeerEntry, received]
      have read_eq : (recorder Endpoint).read worker.io packet = packet := rfl
      rw [read_eq]
      cases worker.relay.route packet <;> rfl

theorem onThread_ok {process after : Process Thread Endpoint} {thread : Thread}
    {run : UInt16 → Worker Endpoint (Record Endpoint) →
      Except Fault (Worker Endpoint (Record Endpoint))}
    (ran : process.onThread thread run = .ok after) :
    ∃ slot worker, process.thisThreadStatistics thread = some slot ∧
      run slot process.worker = .ok worker ∧ after = { process with worker } := by
  simp only [Process.onThread] at ran
  split at ran
  · contradiction
  · rename_i slot started
    split at ran
    · contradiction
    · rename_i worker ranOnSlot
      simp only [Except.ok.injEq] at ran
      exact ⟨slot, worker, started, ranOnSlot, ran.symm⟩

theorem step_threadStart [DecidableEq Thread] {threadCount : UInt16}
    {process after : Process Thread Endpoint} {thread : Thread} {index : UInt16}
    (stepped : step threadCount process (.threadStart thread index) = .ok after) :
    index < threadCount ∧ after = { process with
      thisThreadStatistics :=
        Function.update process.thisThreadStatistics thread (some index) } := by
  simp only [step] at stepped
  split at stepped
  · rename_i below
    simp only [Except.ok.injEq] at stepped
    exact ⟨below, stepped.symm⟩
  · contradiction

end Process

end Service

end Urn.Relay
