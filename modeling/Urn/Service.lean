import Urn.Libuv.Service
import Urn.Mmsg.Service
import Urn.Seastar.Service
import Urn.Uring.Service

/-!
# The service of a relay

The back ends differ in how a datagram gets from the kernel to the relay and back,
and in what their threads do at the same time.  What they send is a function of
what they are asked, and for all of them the same: the answers of the directory.
-/

namespace Urn

open Relay Execution

variable {Endpoint : Type} [Inhabited Endpoint]

/-- What a relay has been asked in a run of one of the back ends, and what it has sent.  It is
asked about datagrams as the kernel has stored them: mmsg and io_uring keep at most 1024
bytes of one, and libuv's frames have to fit the buffers. -/
inductive Served : List (Request Endpoint) → List (Endpoint × List UInt8) → Prop
  | libuv {haveMmsg : Bool} {events : List (UInt16 × Libuv.Event Endpoint)}
      {team : Team UInt16 (State UInt16 Endpoint) (Libuv.Own Endpoint)}
      (fits : ∀ event ∈ events, event.2.Fits haveMmsg)
      (ran : execute (Team.step (Libuv.turn haveMmsg)) (Libuv.Threads.initial .initial) events =
        .ok team) :
      Served (Libuv.requests haveMmsg .initial events) (Libuv.sends haveMmsg .initial events)
  | mmsg {thread : UInt16} {threads : List UInt16} {frames : List (Mmsg.Frame Endpoint)}
      {worker : Worker Endpoint (Mmsg.Io Endpoint)}
      (ran : Mmsg.run thread threads .initial frames = .ok worker) :
      Served (frames.flatMap Mmsg.Frame.asked) worker.io.wire
  | uring {threads : List UInt16} {events : List (UInt16 × Uring.Event Endpoint)}
      {team : Team UInt16 (State UInt16 Endpoint) (Uring.Io Endpoint)}
      (ran : execute (Team.step (Uring.turn threads)) (Uring.Workers.initial .initial) events =
        .ok team) :
      Served (Uring.requests threads .initial events) (Uring.sends threads .initial events)
  | seastar {events : List (Seastar.Event Endpoint Seastar.Fragments)}
      {server : Seastar.Server Endpoint} (ran : Seastar.run events = .ok server) :
      Served (events.flatMap Seastar.Event.asked) server.sent

namespace Served

variable {asked other : List (Request Endpoint)} {sent otherSent : List (Endpoint × List UInt8)}

theorem sent_eq (served : Served asked sent) : sent = answers .empty asked := by
  cases served with
  | @libuv haveMmsg _ _ fits ran =>
      exact (Team.answered (Libuv.serves haveMmsg) (fun _ => Libuv.initial_sound haveMmsg) fits
        ran).2
  | mmsg ran =>
      exact (Directory.recorded_of_steps getSessionId (fun _ _ _ _ => Mmsg.serves_of_run) ran).2
  | @uring threads _ _ ran =>
      exact (Team.answered (Uring.serves threads) Uring.startIo_sound (fun _ _ => trivial) ran).2
  | seastar ran => exact (Seastar.serves_from ran).2

/-- The requests about the session id. -/
abbrev about (id : SessionId) (asked : List (Request Endpoint)) : List (Request Endpoint) :=
  Directory.Table.about getSessionId id asked

/-- The datagrams of the session id. -/
def sentFor (id : SessionId) (sent : List (Endpoint × List UInt8)) :
    List (Endpoint × List UInt8) :=
  sent.filter fun datagram => decide (getSessionId datagram.2 = id)

theorem sentFor_eq (served : Served asked sent) (id : SessionId) :
    sentFor id sent = answers .empty (about id asked) := by
  rw [served.sent_eq]
  exact (Directory.Table.answers_about getSessionId .empty asked id).symm

/-- Runs of whatever back ends which are asked the same about a session id send the same
datagrams for it, whatever else they are asked. -/
theorem isolated (left : Served asked sent) (right : Served other otherSent) :
    (∀ id, about id asked = about id other → sentFor id sent = sentFor id otherSent) ∧
      ((∀ id, about id asked = about id other) → sent.Perm otherSent) := by
  constructor
  · intro id same
    rw [left.sentFor_eq, right.sentFor_eq, same]
  · intro same
    rw [left.sent_eq, right.sent_eq]
    exact Directory.Table.answers_perm getSessionId same

/-- A datagram is sent to an endpoint exactly if it has been received, as the kernel has
stored it, after the endpoint has claimed its id, and nobody before; none is sent twice or
out of order. -/
theorem faithful (served : Served asked sent) :
    (∀ endpoint datagram, (endpoint, datagram) ∈ sent ↔
      ∃ before rest, asked = before ++ .deliver datagram :: rest ∧
        before.findSome? (Directory.Request.claimOf (getSessionId datagram)) = some endpoint) ∧
      (sent.map Prod.snd).Sublist (asked.filterMap Directory.Request.item?) := by
  rw [served.sent_eq]
  exact ⟨fun _ _ => Directory.Table.mem_answers_iff getSessionId,
    Directory.Table.answers_sublist getSessionId _ _⟩

theorem libuv_twoThreads : Served (Libuv.requests true .initial Libuv.twoThreads)
    (Libuv.sends true .initial Libuv.twoThreads) := by
  rcases exists_of_succeedsWith Libuv.ran_twoThreads with ⟨team, ran, -⟩
  exact .libuv Libuv.fits_twoThreads ran

theorem uring_twoWorkers : Served (Uring.requests [0, 1] .initial Uring.twoWorkers)
    (Uring.sends [0, 1] .initial Uring.twoWorkers) := by
  rcases exists_of_succeedsWith Uring.ran_twoWorkers with ⟨team, ran, -⟩
  exact .uring ran

theorem isolated_twoThreads_twoWorkers :
    sentFor 1 (Libuv.sends true .initial Libuv.twoThreads) =
      sentFor 1 (Uring.sends [0, 1] .initial Uring.twoWorkers) :=
  (libuv_twoThreads.isolated uring_twoWorkers).1 1 (by decide +kernel)

theorem faithful_twoThreads :
    (7, [1, 0, 0, 0, 0, 0, 0, 0, 42]) ∈ Libuv.sends true .initial Libuv.twoThreads := by
  apply (libuv_twoThreads.faithful.1 _ _).mpr
  exact ⟨[.claim 1 7], [.deliver [1, 0, 0, 0, 0, 0, 0, 0, 43]], by decide +kernel,
    by decide +kernel⟩

end Served

end Urn
