import LimitOrderBook.Connections
import Mathlib.Data.List.AList

/-!
# The pipeline

The exchange is a pipeline of tasks that run side by side: the connections, the loop, the logger
of the write-ahead log, and the dispatcher that hands the events out to the clients.  Bounded
channels connect them; a task that sends to a full channel waits, but for the dispatcher, which
evicts a client whose queue is full.  `Pipeline.step` is one action of one of the tasks or of
the environment, so the runs of the pipeline are all the ways in which the tasks interleave.

The system clock is an argument of the loop's action.  The telemetry of the loop, the texts that
are printed, and failures of the file system are left out.
-/

namespace LimitOrderBook

/-- What a connection tells the dispatcher.  The sender is the number of the connection whose
queue it feeds. -/
inductive ConnectionEvent where
  | connected (clientId : UInt64) (sender : Nat)
  | disconnected (clientId : UInt64)
  deriving DecidableEq, Repr

/-- What the loop has still to send. -/
inductive Sending where
  | record (order : Order) (timestampNs : UInt64)
  | event (e : OutboundEvent)
  deriving DecidableEq, Repr

namespace Sending

/-- The records among what is to be sent. -/
def records (sends : List Sending) : List (Order × UInt64) :=
  sends.filterMap fun
    | .record order timestampNs => some (order, timestampNs)
    | .event _ => none

/-- The events among what is to be sent. -/
def events (sends : List Sending) : List OutboundEvent :=
  sends.filterMap fun
    | .record _ _ => none
    | .event e => some e

/-- What a round of the loop sends: what it logs, and then its events. -/
def ofRound (now : UInt64) (round : Round) : List Sending :=
  round.wal.map (fun order => .record order now) ++ round.events.map .event

end Sending

/-- The messages the dispatcher delivers for an event, with the clients that are known in the
sequence in which it goes through them. -/
def OutboundEvent.deliveries (clients : List UInt64) : OutboundEvent → List (UInt64 × ServerMessage)
  | clientAck c msg | clientReject c msg | clientCancelOk c msg => [(c, msg)]
  | tradeFill taker maker takerMsg makerMsg => [(taker, takerMsg), (maker, makerMsg)]
  | bboBroadcast msg => clients.map fun c => (c, msg)

/-! ### The logger -/

/-- The logger: the writer, the number of records it has written, and whether it has still to
look if they are to be synced. -/
structure Logger where
  wal : WalWriter
  count : UInt64
  unchecked : Bool

namespace Logger

def start (file : List UInt8) : Logger where
  wal := WalWriter.new file
  count := 0
  unchecked := false

/-- Write a record. -/
def log (l : Logger) (order : Order) (timestampNs : UInt64) : Logger where
  wal := (l.wal.writeOrder order timestampNs).2
  count := l.count + 1
  unchecked := true

/-- Sync after every thousand records, and when no more are waiting. -/
def check (l : Logger) (isEmpty : Bool) : Logger where
  wal := if l.count % 1000 = 0 ∨ isEmpty then l.wal.sync else l.wal
  count := l.count
  unchecked := false

end Logger

/-! ### The start -/

namespace Exchange

/-- The exchange with the test accounts. -/
def prefunded : Exchange :=
  (((((new.deposit 1 10000000000 0 1000).deposit 1 0 1 10000).deposit 1 0 2 100000).deposit
    2 10000000000 0 1000).deposit 2 0 1 10000).deposit 2 0 2 100000

/-- The exchange after the recovery from a file.  The identifier that is printed after a replay
is one that has been taken. -/
def recover (file : List UInt8) : Exchange :=
  match WalReader.readAll file with
  | .error _ => prefunded
  | .ok records =>
      if records = [] then prefunded
      else
        let s := prefunded.replayAll (records.map fun r => r.2)
        { s with engine := s.engine.nextOrderId.2 }

end Exchange

/-! ### The tasks -/

/-- The states of the tasks, and the channels between them. -/
structure Pipeline where
  accepted : Nat
  connections : Nat → Connection
  connRx : Channel ConnectionEvent 1024
  orderRx : Channel InboundMessage 100000
  exchange : Exchange
  sends : List Sending
  walRx : Channel (Order × UInt64) 100000
  outboundRx : Channel OutboundEvent 100000
  logger : Logger
  clientSenders : AList fun _ : UInt64 => Nat
  deliveries : List (UInt64 × ServerMessage)

namespace Pipeline

/-- The identifier of a connection. -/
def clientId (i : Nat) : UInt64 := UInt64.ofNat (i + 1)

/-- The pipeline as it starts on a file. -/
def start (file : List UInt8) : Pipeline where
  accepted := 0
  connections _ := Connection.idle
  connRx := Channel.empty
  orderRx := Channel.empty
  exchange := Exchange.recover file
  sends := []
  walRx := Channel.empty
  outboundRx := Channel.empty
  logger := Logger.start file
  clientSenders := ∅
  deliveries := []

/-- What can happen: a client connects; something happens to a connection; it announces itself,
submits an order or says farewell; the loop handles a message at a time, or sends on;
the logger logs or checks; and the dispatcher takes in the news of a connection, takes up an
event, or delivers a message. -/
inductive Action where
  | accept
  | client (i : Nat) (action : Connection.Action)
  | announce (i : Nat)
  | submit (i : Nat)
  | farewell (i : Nat)
  | handle (now : UInt64)
  | send
  | log
  | check
  | connection
  | dispatch (clients : List UInt64)
  | deliver
  deriving DecidableEq, Repr

def setConnection (p : Pipeline) (i : Nat) (c : Connection) : Pipeline :=
  { p with connections := Function.update p.connections i c }

/-- The dispatcher takes in the news of a connection. -/
def register (clientSenders : AList fun _ : UInt64 => Nat) :
    ConnectionEvent → AList fun _ : UInt64 => Nat
  | .connected clientId sender => clientSenders.insert clientId sender
  | .disconnected clientId => clientSenders.erase clientId

/-- The dispatcher delivers a message to a client that it knows and that can take it, and
evicts one that cannot. -/
def deliver (p : Pipeline) (clientId : UInt64) (msg : ServerMessage) : Pipeline :=
  match p.clientSenders.lookup clientId with
  | none => p
  | some i =>
      match (p.connections i).trySend msg with
      | some c => p.setConnection i c
      | none => { p with clientSenders := p.clientSenders.erase clientId }

/-- The pipeline after an action, if it can be taken. -/
def step (p : Pipeline) : Action → Option Pipeline
  | .accept =>
      some { p.setConnection p.accepted Connection.new with accepted := p.accepted + 1 }
  | .client i action => ((p.connections i).step action).map (p.setConnection i)
  | .announce i =>
      if (p.connections i).phase = .opening then
        (p.connRx.send (.connected (clientId i) i)).map fun connRx =>
          { p.setConnection i { p.connections i with phase := .reading } with connRx := connRx }
      else none
  | .submit i =>
      match (p.connections i).phase with
      | .submitting order =>
          (p.orderRx.send { order := order, clientId := clientId i }).map fun orderRx =>
            { p.setConnection i { p.connections i with phase := .reading } with
              orderRx := orderRx }
      | _ => none
  | .farewell i =>
      if (p.connections i).phase = .closing then
        (p.connRx.send (.disconnected (clientId i))).map fun connRx =>
          { p.setConnection i { p.connections i with phase := .closed } with connRx := connRx }
      else none
  | .handle now =>
      if p.sends = [] then
        p.orderRx.recv.map fun (inbound, orderRx) =>
          let round := p.exchange.handle inbound
          { p with
            orderRx := orderRx, exchange := round.state, sends := Sending.ofRound now round }
      else none
  | .send =>
      match p.sends with
      | [] => none
      | .record order timestampNs :: sends =>
          (p.walRx.send (order, timestampNs)).map fun walRx =>
            { p with walRx := walRx, sends := sends }
      | .event event :: sends =>
          (p.outboundRx.send event).map fun outboundRx =>
            { p with outboundRx := outboundRx, sends := sends }
  | .log =>
      if p.logger.unchecked then none
      else
        p.walRx.recv.map fun ((order, timestampNs), walRx) =>
          { p with walRx := walRx, logger := p.logger.log order timestampNs }
  | .check =>
      if p.logger.unchecked then
        some { p with logger := p.logger.check p.walRx.items.isEmpty }
      else none
  | .connection =>
      if p.deliveries = [] then
        p.connRx.recv.map fun (event, connRx) =>
          { p with connRx := connRx, clientSenders := register p.clientSenders event }
      else none
  | .dispatch clients =>
      if p.deliveries = [] ∧ clients.Perm p.clientSenders.keys then
        p.outboundRx.recv.map fun (event, outboundRx) =>
          { p with outboundRx := outboundRx, deliveries := event.deliveries clients }
      else none
  | .deliver =>
      match p.deliveries with
      | [] => none
      | (clientId, msg) :: deliveries =>
          some { p.deliver clientId msg with deliveries := deliveries }

end Pipeline

end LimitOrderBook
