import Urn.Uring.Conservation

/-!
# Running out of events

The relay restarts a receive from the peer when a forwarded datagram has been sent.
The io_uring worker does not wait for that: it receives again as soon as it has
queued the send.  The sends which the kernel has not completed are therefore not
bounded by the receives, and when they and the other operations use all events of
the table, the next datagram that is to be forwarded aborts the worker.  A run
avoids the abort exactly if it never comes to this point.
-/

namespace Urn.Uring

open Relay Execution

variable {Endpoint : Type} [Inhabited Endpoint]

/-- A datagram from the peer is forwarded only while an event is left beside those of
the two receives, the timer and the unfinished sends. -/
def SendsBounded (main : Bool) (worker : Worker Endpoint (Io Endpoint)) (event : Event Endpoint) :
    Prop :=
  ForwardsNext worker event →
    worker.io.posted .peerTx + 2 + (if main = true then 1 else 0) < numEvents

omit [Inhabited Endpoint] in
theorem free_iff_sends {main : Bool} {io : Io Endpoint} (sound : io.Sound main) :
    io.freeEventIds ≠ [] ↔ io.posted .peerTx + 2 + (if main = true then 1 else 0) < numEvents := by
  have length := sound.balanced.length
  have roles := sound.balanced.length_eq_posted
  rw [sound.clientRx, sound.peerRx, sound.timer] at roles
  rw [← List.length_pos_iff, ← length, List.length_nil]
  omega

omit [Inhabited Endpoint] in
theorem step_exhausts_iff {thread : UInt16} {threads : List UInt16} {main : Bool}
    {worker : Worker Endpoint (Io Endpoint)} (sound : worker.io.Sound main)
    (event : Event Endpoint) :
    step thread threads worker event ≠ .error .outOfFreeEvents ↔
      SendsBounded main worker event := by
  rw [SendsBounded, ← free_iff_sends sound]
  rcases step_outcome thread threads sound event with
    ⟨failed, forwards, full⟩ | ⟨result, free⟩
  · simp [failed, forwards, full]
  · refine ⟨fun _ => free, fun _ => ?_⟩
    rcases result with failed | ⟨after, result, -⟩
    · simp [failed]
    · simp [result]

/-- A run does not run out of events exactly if its sends stay bounded. -/
theorem never_exhausted_iff (thread : UInt16) (threads : List UInt16)
    (relay : State UInt16 Endpoint) (events : List (Event Endpoint)) :
    ∃ first, start thread relay = .ok first ∧
      (run thread threads relay events ≠ .error .outOfFreeEvents ↔
        Throughout (step thread threads) (SendsBounded (isMainWorker thread)) first events) := by
  rcases run_eq thread threads relay events with ⟨first, started, sound, run_eq⟩
  refine ⟨first, started, ?_⟩
  rw [run_eq, execute_ne_error_iff]
  apply throughout_congr
  intro before event after worker _ ran
  exact step_exhausts_iff (sound_of_execute sound ran) event

/-- A client registers with the main worker, and the peer sends to it fourteen times
while the kernel completes none of the sends. -/
def stalledSends : List (Event ℕ) :=
  [.submit, .complete 0 (.received 7 [1, 0, 0, 0, 0, 0, 0, 0]), .process,
    .submit, .complete 0 (.received 9 [1, 0, 0, 0, 0, 0, 0, 0, 42]), .process] ++
  (List.range 13).flatMap fun sends =>
    [.submit, .complete (sends + 3) (.received 9 [1, 0, 0, 0, 0, 0, 0, 0, 42]), .process]

theorem exhausted_of_stalledSends :
    run 0 [0] State.initial stalledSends = .error .outOfFreeEvents :=
  eq_error_of_failsWith (by decide +kernel)

end Urn.Uring
