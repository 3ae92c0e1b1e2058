import Urn.Foundation.Execution
import Urn.Relay.Worker

/-!
# The demikernel back end

The worker of `demi/relay.cpp` and the queues of demikernel.

An iteration of the worker's loop issues a pop on each of its two queues, waits
until one of the two is complete, and passes the datagram to the relay.  Pops on
one queue complete in the order in which they have been issued, each with one
datagram, and the result of a pop is obtained only by waiting on its token.

A datagram arrives in one segment, in a buffer of its own, so a packet is
modelled by its bytes.  A call of demikernel which fails ends the program; the
runs below are those whose calls succeed.
-/

namespace Urn.Demi

open Relay

/-- `dmtr_qtoken_t`. -/
abbrev Token := ℕ

/-- `dmtr_sgarray_t`, with `sga_segs[0]`. -/
structure Sga (Endpoint : Type) where
  sgaAddr : Endpoint
  sgaSeg : List UInt8
deriving DecidableEq

/-- The two sockets of a worker. -/
inductive Side where
  | client
  | peer
deriving DecidableEq

def Side.other : Side → Side
  | .client => .peer
  | .peer => .client

/-- `io_vectors`.  Nothing is stored in `res` before the first result. -/
structure IoVectors (Endpoint : Type) where
  res : Option (Sga Endpoint)
  opToken : Token

/-- `io_state`, with `rx`; nothing uses `tx`. -/
structure IoState (Endpoint : Type) where
  txLength : ℕ
  rx : IoVectors Endpoint

/-- A call of `dmtr_pushto` on the client socket. -/
structure Push (Endpoint : Type) where
  sga : Sga Endpoint
  saddr : Endpoint

/-- The destination and the bytes of a push. -/
def Push.content {Endpoint : Type} (push : Push Endpoint) : Endpoint × List UInt8 :=
  (push.saddr, push.sga.sgaSeg)

/-- `io_worker`, and the pushes that it has issued so far. -/
structure Io (Endpoint : Type) where
  peersIo : IoState Endpoint
  clientsIo : IoState Endpoint
  pushed : List (Push Endpoint)

/-- Why a worker does not go on: a read of a result which is not there, a pointer to no
session, or a wait for a pop which is not complete. -/
inductive Stop where
  | uninitialised
  | invalidPointer
  | notReady
deriving DecidableEq

namespace Io

variable {Endpoint : Type}

/-- `io_worker_init`. -/
def init : Io Endpoint where
  peersIo := ⟨0, none, 0⟩
  clientsIo := ⟨0, none, 0⟩
  pushed := []

/-- The receive side of a socket. -/
def rx (io : Io Endpoint) : Side → IoVectors Endpoint
  | .client => io.clientsIo.rx
  | .peer => io.peersIo.rx

def setRx (io : Io Endpoint) (side : Side) (rx : IoVectors Endpoint) : Io Endpoint :=
  match side with
  | .client => { io with clientsIo := { io.clientsIo with rx } }
  | .peer => { io with peersIo := { io.peersIo with rx } }

/-- `demi::session::start_send`, up to the call of `on_session_sent`. -/
def startSend (_ : SessionPtr) (_ : Endpoint) (_ : List UInt8) (io : Io Endpoint) :
    Except Stop (Bool × Io Endpoint) :=
  match io.clientsIo.rx.res with
  | none => .error .uninitialised
  | some sga =>
      .ok (true, { io with
        clientsIo := { io.clientsIo with txLength := io.clientsIo.txLength + 1 }
        pushed := io.pushed ++ [⟨sga, sga.sgaAddr⟩] })

/-- The first assignment of `io_worker_begin_frame`. -/
def resetTxLength (io : Io Endpoint) : Io Endpoint :=
  { io with clientsIo := { io.clientsIo with txLength := 0 } }

end Io

/-- The worker as the relay sees it.  `start_receive` of the client and of the peer
are empty, and `start_send` waits for the push. -/
def backend (Endpoint : Type) : Backend Endpoint (List UInt8) (Io Endpoint) Stop where
  read _ packet := packet
  read_length _ _ := rfl
  clientStartReceive io := io
  peerStartReceive io := io
  startSend := Io.startSend
  dangling := .invalidPointer

/-- A datagram that the worker gets from `dmtr_wait_any`. -/
structure Delivery (Endpoint : Type) where
  side : Side
  sga : Sga Endpoint

section Worker

variable {Endpoint : Type} (thread : UInt16)

/-- The loop body of `worker` after `dmtr_wait_any`. -/
def deliver (worker : Worker Endpoint (Io Endpoint)) (delivery : Delivery Endpoint) :
    Except Stop (Worker Endpoint (Io Endpoint)) :=
  let result := some delivery.sga
  match delivery.side with
  | .peer =>
      let io := worker.io.setRx .peer { worker.io.peersIo.rx with res := result }
      match (backend Endpoint).runOnPeerReceived thread delivery.sga.sgaSeg
          { worker with io } with
      | .error reason => .error reason
      | .ok (_, after) => .ok after
  | .client =>
      let io := worker.io.setRx .client { worker.io.clientsIo.rx with res := result }
      match (backend Endpoint).runOnClientReceived thread delivery.sga.sgaAddr
          delivery.sga.sgaSeg { worker with io } with
      | .error reason => .error reason
      | .ok (_, after) => .ok after

/-- An iteration of the loop in which the given datagram is obtained. -/
def iterate (worker : Worker Endpoint (Io Endpoint)) (delivery : Delivery Endpoint) :
    Except Stop (Worker Endpoint (Io Endpoint)) :=
  deliver thread { worker with io := worker.io.resetTxLength } delivery

/-- The worker as it gets the given datagrams one after another. -/
def process (deliveries : List (Delivery Endpoint)) :
    Except Stop (Worker Endpoint (Io Endpoint)) :=
  Execution.execute (iterate thread) ⟨State.initial, Io.init⟩ deliveries

end Worker

/-- A queue of demikernel.  `popped` is what its pops have taken so far. -/
structure Queue (Endpoint : Type) where
  outstanding : List Token
  arrived : List (Sga Endpoint)
  completed : List (Token × Sga Endpoint)
  popped : List (Sga Endpoint)

namespace Queue

variable {Endpoint : Type}

def empty : Queue Endpoint := ⟨[], [], [], []⟩

/-- `dmtr_pop`. -/
def pop (queue : Queue Endpoint) (token : Token) : Queue Endpoint :=
  match queue.arrived with
  | [] => { queue with outstanding := queue.outstanding ++ [token] }
  | sga :: arrived =>
      { queue with
        arrived
        completed := queue.completed ++ [(token, sga)]
        popped := queue.popped ++ [sga] }

/-- A datagram arrives. -/
def arrive (queue : Queue Endpoint) (sga : Sga Endpoint) : Queue Endpoint :=
  match queue.outstanding with
  | [] => { queue with arrived := queue.arrived ++ [sga] }
  | token :: outstanding =>
      { queue with
        outstanding
        completed := queue.completed ++ [(token, sga)]
        popped := queue.popped ++ [sga] }

/-- The result of a pop, if it is complete. -/
def result? (queue : Queue Endpoint) (token : Token) : Option (Sga Endpoint) :=
  (queue.completed.find? fun completion => completion.1 = token).map Prod.snd

/-- The result has been obtained, and the token is not valid any more. -/
def drop (queue : Queue Endpoint) (token : Token) : Queue Endpoint :=
  { queue with completed := queue.completed.eraseP fun completion => completion.1 = token }

end Queue

/-- A worker and its queues.  `delivered` is what the relay has been called with. -/
structure Machine (Endpoint : Type) where
  worker : Worker Endpoint (Io Endpoint)
  queues : Side → Queue Endpoint
  nextToken : Token
  delivered : List (Delivery Endpoint)

/-- What happens: a datagram arrives, or `dmtr_wait_any` returns. -/
inductive Event (Endpoint : Type) where
  | arrives (side : Side) (sga : Sga Endpoint)
  | returns (side : Side)

namespace Machine

variable {Endpoint : Type}

/-- `op_token` of a socket. -/
def opToken (machine : Machine Endpoint) (side : Side) : Token :=
  (machine.worker.io.rx side).opToken

/-- `dmtr_pop(&io.rx.op_token, socket)`. -/
def pop (machine : Machine Endpoint) (side : Side) : Machine Endpoint where
  worker := { machine.worker with
    io := machine.worker.io.setRx side
      { machine.worker.io.rx side with opToken := machine.nextToken } }
  queues := Function.update machine.queues side ((machine.queues side).pop machine.nextToken)
  nextToken := machine.nextToken + 1
  delivered := machine.delivered

/-- `io_worker_begin_frame`. -/
def beginFrame (machine : Machine Endpoint) : Machine Endpoint :=
  let reset : Machine Endpoint := { machine with
    worker := { machine.worker with io := machine.worker.io.resetTxLength } }
  (reset.pop .client).pop .peer

def init : Machine Endpoint where
  worker := ⟨State.initial, Io.init⟩
  queues := fun _ => .empty
  nextToken := 0
  delivered := []

variable (thread : UInt16)

/-- The rest of an iteration, from the return of `dmtr_wait_any` with the given result to
the pops of the next iteration. -/
def finish (machine : Machine Endpoint) (side : Side) (sga : Sga Endpoint) :
    Except Stop (Machine Endpoint) :=
  match deliver thread machine.worker ⟨side, sga⟩ with
  | .error reason => .error reason
  | .ok worker =>
      .ok (beginFrame { machine with
        worker
        queues := Function.update machine.queues side
          ((machine.queues side).drop (machine.opToken side))
        delivered := machine.delivered ++ [⟨side, sga⟩] })

/-- One event, while the worker waits in `dmtr_wait_any`. -/
def step (machine : Machine Endpoint) : Event Endpoint → Except Stop (Machine Endpoint)
  | .arrives side sga =>
      .ok { machine with
        queues := Function.update machine.queues side ((machine.queues side).arrive sga) }
  | .returns side =>
      match (machine.queues side).result? (machine.opToken side) with
      | none => .error .notReady
      | some sga => machine.finish thread side sga

/-- The worker from its start on. -/
def run (events : List (Event Endpoint)) : Except Stop (Machine Endpoint) :=
  Execution.execute (step thread) init.beginFrame events

end Machine

end Urn.Demi
