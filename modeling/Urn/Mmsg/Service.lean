import Urn.Mmsg.Frame
import Urn.Relay.Directory

/-!
# An mmsg worker serves the directory

The datagrams of a frame, in the order of the two batches and each after what the
other workers register before it, are asked of the directory.  What the frame hands
to the kernel is what the directory answers.
-/

namespace Urn.Mmsg

open Relay Execution

variable {Endpoint : Type}

/-- What the other workers ask before a datagram. -/
def Message.claims (message : Message Endpoint) : List (Request Endpoint) :=
  message.registrations.map fun registration => .claim registration.1 registration.2

def askedByClients (batch : List (Message Endpoint)) : List (Request Endpoint) :=
  batch.flatMap fun message => message.claims ++ askedByClient message.src message.bytes

def askedByPeers (batch : List (Message Endpoint)) : List (Request Endpoint) :=
  batch.flatMap fun message => message.claims ++ askedByPeer message.bytes

/-- What the relay is asked in a frame. -/
def Frame.asked (frame : Frame Endpoint) : List (Request Endpoint) :=
  askedByClients (received frame.client) ++ askedByPeers (received frame.peer)

section Batches

variable (thread : UInt16) {relay : State UInt16 Endpoint}

theorem table_registerAll (relay : State UInt16 Endpoint) (message : Message Endpoint) :
    (registerAll message.registrations relay).table = relay.table.afterAll message.claims := by
  simp only [Message.claims]
  generalize message.registrations = registrations
  induction registrations generalizing relay with
  | nil => rfl
  | cons registration registrations ih =>
      rw [List.map_cons, Directory.Table.afterAll_cons, ← table_tryRegisterSession]
      exact ih _

@[simp]
theorem answers_claims (table : Directory.Table SessionId Endpoint) (message : Message Endpoint) :
    answers table message.claims = [] := by
  simp only [Message.claims]
  generalize message.registrations = registrations
  induction registrations generalizing table with
  | nil => rfl
  | cons registration registrations ih => exact ih _

theorem table_clientBatch (batch : List (Message Endpoint)) (relay : State UInt16 Endpoint) :
    (clientBatch thread batch relay).table = relay.table.afterAll (askedByClients batch) := by
  induction batch generalizing relay with
  | nil => rfl
  | cons message batch ih =>
      rw [askedByClients, List.flatMap_cons, Directory.Table.afterAll_append,
        Directory.Table.afterAll_append, ← table_registerAll, ← table_clientReceived _ thread]
      exact ih _

theorem answers_askedByClients (table : Directory.Table SessionId Endpoint)
    (batch : List (Message Endpoint)) : answers table (askedByClients batch) = [] := by
  induction batch generalizing table with
  | nil => rfl
  | cons message batch ih =>
      rw [askedByClients, List.flatMap_cons, answers_append, answers_append]
      simp only [answers_claims, answers_askedByClient, List.nil_append]
      exact ih _

/-- What the relay forwards of a batch is what the directory answers. -/
theorem answers_askedByPeers (batch : List (Message Endpoint)) (relay : State UInt16 Endpoint) :
    answers relay.table (askedByPeers batch) = forwarded batch relay := by
  induction batch generalizing relay with
  | nil => rfl
  | cons message batch ih =>
      have rest := ih (registerAll message.registrations relay)
      rw [askedByPeers, List.flatMap_cons, answers_append, answers_append,
        Directory.Table.afterAll_append, ← table_registerAll, afterAll_askedByPeer]
      simp only [answers_claims, List.nil_append, answers_askedByPeer, forwarded]
      exact congrArg _ rest

theorem table_of_peerReceived {i : ℕ} {worker after : Worker Endpoint (Io Endpoint)}
    (handled : peerReceived thread i worker = .ok after) :
    after.relay.table = worker.relay.table := by
  rw [peerReceived] at handled
  split at handled
  · contradiction
  · rename_i ran
    rw [Except.ok.injEq] at handled
    rw [← handled]
    exact (backend Endpoint).table_of_runOnPeerReceived thread ran

theorem table_of_forEach_peerReceived {batch : List (Message Endpoint)} {i : ℕ}
    {worker after : Worker Endpoint (Io Endpoint)}
    (ran : forEach (peerReceived thread) batch i worker = .ok after) :
    after.relay.table = worker.relay.table.afterAll (askedByPeers batch) := by
  induction batch generalizing i worker with
  | nil =>
      rw [forEach, Except.ok.injEq] at ran
      rw [← ran]
      rfl
  | cons message batch ih =>
      rw [askedByPeers, List.flatMap_cons, Directory.Table.afterAll_append,
        Directory.Table.afterAll_append, afterAll_askedByPeer, ← table_registerAll]
      rw [forEach] at ran
      split at ran
      · contradiction
      · rename_i middle handled
        rw [← table_of_peerReceived thread handled]
        exact ih ran

end Batches

section Frames

variable (thread : UInt16) (threads : List UInt16) {worker after : Worker Endpoint (Io Endpoint)}

theorem table_of_peerEntry {entry : Option (Syscall (List (Message Endpoint)))}
    {relay : State UInt16 Endpoint} {io : Io Endpoint} (sound : io.Sound)
    (ran : whenReady entry (runPeerReceiveFrame thread) ⟨relay, io⟩ = .ok after) :
    after.relay.table = relay.table.afterAll (askedByPeers (received entry)) := by
  cases entry with
  | none =>
      rw [whenReady, Except.ok.injEq] at ran
      rw [← ran]
      rfl
  | some result =>
      cases result with
      | failed => contradiction
      | returned messages =>
          simp only [whenReady, runPeerReceiveFrame, sound.peersRx.capacity] at ran
          exact table_of_forEach_peerReceived thread ran

theorem table_of_timerEntry {entry : Option (Syscall Unit)}
    (ran : whenReady entry (statisticsTick threads) worker = .ok after) :
    after.relay.table = worker.relay.table := by
  cases entry with
  | none =>
      rw [whenReady, Except.ok.injEq] at ran
      rw [ran]
  | some result =>
      cases result with
      | failed => contradiction
      | returned value =>
          simp only [whenReady, statisticsTick, Except.ok.injEq] at ran
          rw [← ran]
          rfl

theorem table_of_receiveAll {frame : Frame Endpoint} (sound : worker.io.Sound)
    (ran : receiveAll thread threads worker frame = .ok after) :
    after.relay.table = worker.relay.table.afterAll frame.asked := by
  have begun : worker.io.beginFrame.Sound := ⟨sound.peersRx, sound.clientsRx, sound.clientsTx⟩
  rcases clientEntry_result thread worker.relay begun frame.client with
    ⟨io, clientRan, clientSound, -, -⟩ | ⟨-, failed⟩
  · simp only [receiveAll, bind, Except.bind, clientRan] at ran
    cases peerRan : whenReady frame.peer (runPeerReceiveFrame thread)
        ⟨clientBatch thread (received frame.client) worker.relay, io⟩ with
    | error stop =>
        rw [peerRan] at ran
        contradiction
    | ok middle =>
        simp only [peerRan] at ran
        rw [table_of_timerEntry threads ran, table_of_peerEntry thread clientSound peerRan,
          table_clientBatch, Frame.asked, Directory.Table.afterAll_append]
  · simp only [receiveAll, bind, Except.bind, failed] at ran
    contradiction

theorem table_of_step {frame : Frame Endpoint} (sound : worker.io.Sound)
    (processed : step thread threads worker frame = .ok after) :
    after.relay.table = worker.relay.table.afterAll frame.asked := by
  cases ran : receiveAll thread threads worker frame with
  | error stop =>
      rw [step_of_receiveAll_error thread threads ran] at processed
      contradiction
  | ok before =>
      have table_eq := table_of_receiveAll thread threads sound ran
      rw [step_of_receiveAll thread threads ran] at processed
      split at processed
      · contradiction
      · rw [Except.ok.injEq] at processed
        rw [← processed]
        exact table_eq

theorem forwarded_eq_answers (frame : Frame Endpoint) (relay : State UInt16 Endpoint) :
    frame.forwarded thread relay = answers relay.table frame.asked := by
  have fromPeer := answers_askedByPeers (received frame.peer)
    (clientBatch thread (received frame.client) relay)
  have fromClients := answers_askedByClients relay.table (received frame.client)
  rw [table_clientBatch] at fromPeer
  rw [Frame.asked, answers_append, fromClients, fromPeer]
  rfl

theorem wire_of_step {frame : Frame Endpoint} (sound : worker.io.Sound)
    (processed : step thread threads worker frame = .ok after) :
    after.io.wire = worker.io.wire ++ answers worker.relay.table frame.asked := by
  rcases step_result thread threads sound frame with
    ⟨next, result, -, wire_eq⟩ | ⟨stop, result, -⟩
  · simp only [result, Except.ok.injEq] at processed
    rw [← processed, wire_eq, forwarded_eq_answers]
  · rw [result] at processed
    contradiction

end Frames

section Service

variable [Inhabited Endpoint] {thread : UInt16} {threads : List UInt16}
  {relay : State UInt16 Endpoint} {frames : List (Frame Endpoint)}
  {worker : Worker Endpoint (Io Endpoint)}

/-- The frames of a run are served one by one. -/
theorem serves_of_run {before : List (Frame Endpoint)} {frame : Frame Endpoint}
    {next : Worker Endpoint (Io Endpoint)}
    (ran : run thread threads relay before = .ok worker)
    (processed : step thread threads worker frame = .ok next) :
    next.relay.table = worker.relay.table.afterAll frame.asked ∧
      next.io.wire = worker.io.wire ++ answers worker.relay.table frame.asked := by
  have sound := run_sound thread threads relay before ran
  exact ⟨table_of_step thread threads sound processed, wire_of_step thread threads sound processed⟩

/-- In a run the kernel is handed what the directory answers to all frames. -/
theorem frames_serve_directory (ran : run thread threads relay frames = .ok worker) :
    worker.relay.table = relay.table.afterAll (frames.flatMap Frame.asked) ∧
      worker.io.wire = answers relay.table (frames.flatMap Frame.asked) :=
  Directory.recorded_of_steps getSessionId (fun _ _ _ _ => serves_of_run) ran

theorem echo_serves_directory :
    ∃ worker : Worker ℕ (Io ℕ), run 0 [0] .initial [registration, echo] = .ok worker ∧
      worker.io.wire =
        [(7, [1, 0, 0, 0, 0, 0, 0, 0, 42]), (8, [2, 0, 0, 0, 0, 0, 0, 0, 43])] := by
  have succeeds : succeedsWith (run 0 [0] .initial [registration, echo]) (fun _ => true) =
      true := by
    decide +kernel
  rcases exists_of_succeedsWith succeeds with ⟨worker, ran, -⟩
  refine ⟨worker, ran, ?_⟩
  rw [(frames_serve_directory ran).2]
  decide +kernel

end Service

end Urn.Mmsg
