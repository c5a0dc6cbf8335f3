import LimitOrderBook.Engine

/-!
# The exchange loop

The single-writer loop between the ingress gateway and the two channels it feeds: the
write-ahead log and the outbound events.  `handle` is one round of it.
-/

namespace LimitOrderBook

/-! ### Server messages -/

inductive ServerMsgType where
  | accepted
  | rejected
  | filled
  | cancelled
  | bbo
  deriving DecidableEq, Repr

def ServerMsgType.toByte : ServerMsgType → UInt8
  | accepted => 0
  | rejected => 1
  | filled => 2
  | cancelled => 3
  | bbo => 4

def RejectReason.toByte : RejectReason → UInt8
  | none => 0
  | invalidOrder => 1
  | insufficientFunds => 2
  | orderNotFound => 3
  | unauthorized => 4
  | engineFull => 5
  | noLiquidity => 6
  | selfTradePrevented => 7

structure ServerMessage where
  msgType : UInt8
  symbolId : UInt8
  rejectCode : UInt8
  isMaker : UInt8
  magic : UInt16
  padding : UInt8 × UInt8
  orderId : UInt64
  userId : UInt64
  matchId : UInt64
  price : UInt64
  qty : UInt64
  extraPrice : UInt64
  extraQty : UInt64
  deriving DecidableEq, Repr

namespace ServerMessage

/-- The message of a type whose other fields are zero, but for the magic. -/
def blank (msgType : ServerMsgType) (symbolId : UInt8) : ServerMessage where
  msgType := msgType.toByte
  symbolId := symbolId
  rejectCode := 0
  isMaker := 0
  magic := ORDER_MAGIC
  padding := (0, 0)
  orderId := 0
  userId := 0
  matchId := 0
  price := 0
  qty := 0
  extraPrice := 0
  extraQty := 0

def ack (orderId clientOrderId userId : UInt64) (symbolId : UInt8) : ServerMessage :=
  { blank .accepted symbolId with
    orderId := orderId, userId := userId, extraPrice := clientOrderId }

def reject (orderId clientOrderId userId : UInt64) (symbolId : UInt8) (reason : RejectReason) :
    ServerMessage :=
  { blank .rejected symbolId with
    rejectCode := reason.toByte, orderId := orderId, userId := userId,
    extraPrice := clientOrderId }

def fill (orderId clientOrderId userId : UInt64) (symbolId : UInt8)
    (matchId price qty : UInt64) (isMaker : Bool) : ServerMessage :=
  { blank .filled symbolId with
    isMaker := if isMaker then 1 else 0, orderId := orderId, userId := userId,
    matchId := matchId, price := price, qty := qty, extraPrice := clientOrderId }

def cancelOk (orderId clientOrderId userId : UInt64) (symbolId : UInt8)
    (unexecutedQty : UInt64) : ServerMessage :=
  { blank .cancelled symbolId with
    orderId := orderId, userId := userId, qty := unexecutedQty, extraPrice := clientOrderId }

def bbo (symbolId : UInt8) (bidPrice bidQty askPrice askQty : UInt64) : ServerMessage :=
  { blank .bbo symbolId with
    price := bidPrice, qty := bidQty, extraPrice := askPrice, extraQty := askQty }

end ServerMessage

inductive OutboundEvent where
  | clientAck (clientId : UInt64) (msg : ServerMessage)
  | clientReject (clientId : UInt64) (msg : ServerMessage)
  | clientCancelOk (clientId : UInt64) (msg : ServerMessage)
  | tradeFill (takerClientId makerClientId : UInt64) (takerMsg makerMsg : ServerMessage)
  | bboBroadcast (msg : ServerMessage)
  deriving DecidableEq, Repr

/-! ### The gateway -/

structure InboundMessage where
  order : Order
  clientId : UInt64

/-- The quarantine of a decoded order: a wrong magic ends the connection, and the
identifier of anything but a cancel is left to the exchange. -/
def quarantine (order : Order) : Option Order :=
  if order.magic ≠ ORDER_MAGIC then
    none
  else if order.kind ≠ .cancel then
    let clientOrderId := if order.clientOrderId = 0 then order.id else order.clientOrderId
    some { order with clientOrderId := clientOrderId, id := 0 }
  else
    some order

/-! ### The loop -/

/-- The state of the loop. -/
structure Exchange where
  engine : MultiAssetEngine
  risk : RiskEngine

/-- What one round of the loop leaves: the state, the records it sent to the write-ahead
log, the events it sent out, and the trades it settled. -/
structure Round where
  state : Exchange
  wal : List Order
  events : List OutboundEvent
  trades : List Trade

namespace Exchange

/-- The exchange with no orders and no funds. -/
def new : Exchange where
  engine := MultiAssetEngine.new
  risk := RiskEngine.new

/-- The rejection of an order. -/
def rejection (clientId : UInt64) (order : Order) (reason : RejectReason) : OutboundEvent :=
  .clientReject clientId
    (ServerMessage.reject order.id order.clientOrderId order.userId order.symbolId.toUInt8 reason)

/-- The two fills of a trade. -/
def fillEvent (trade : Trade) : OutboundEvent :=
  .tradeFill trade.takerClientId trade.makerClientId
    (ServerMessage.fill trade.takerOrderId trade.takerClientOrderId trade.takerUserId
      trade.symbolId.toUInt8 trade.matchId trade.price trade.qty false)
    (ServerMessage.fill trade.makerOrderId trade.makerClientOrderId trade.makerUserId
      trade.symbolId.toUInt8 trade.matchId trade.price trade.qty true)

/-- The best prices of a book after an order. -/
def bboEvents (engine : MultiAssetEngine) (symbolId : UInt16) : List OutboundEvent :=
  match engine.getBook symbolId with
  | none => []
  | some book =>
      let (bestBid, bestAsk) := book.getBbo
      let (bidP, bidQ) := bestBid.getD (0, 0)
      let (askP, askQ) := bestAsk.getD (0, 0)
      [.bboBroadcast (ServerMessage.bbo symbolId.toUInt8 bidP bidQ askP askQ)]

/-- The branch of the loop for cancels. -/
def handleCancel (s : Exchange) (inbound : InboundMessage) : Round :=
  let order := inbound.order
  match s.engine.cancelOrder order.symbolId order.userId order.id with
  | (.ok cancelled, engine) =>
      { state :=
          { engine := engine
            risk := s.risk.unlockCancelledOrderMargin cancelled cancelled.qty }
        wal := [order]
        events :=
          [.clientCancelOk inbound.clientId
            (ServerMessage.cancelOk cancelled.id cancelled.clientOrderId order.userId
              order.symbolId.toUInt8 cancelled.qty)]
        trades := [] }
  | (.error reason, engine) =>
      { state := { s with engine := engine }
        wal := []
        events := [rejection inbound.clientId order reason]
        trades := [] }

/-- The exchange identifier of an accepted order is assigned if it has none. -/
def assignId (engine : MultiAssetEngine) (order : Order) : Order × MultiAssetEngine :=
  if order.id = 0 then
    let (id, engine) := engine.nextOrderId
    ({ order with id := id }, engine)
  else
    (order, engine)

/-- The branch of the loop for all other orders. -/
def handleOrder (s : Exchange) (inbound : InboundMessage) : Round :=
  match s.risk.lockOrderFunds inbound.order with
  | .error reason =>
      { state := s
        wal := []
        events := [rejection inbound.clientId inbound.order reason]
        trades := [] }
  | .ok risk =>
      let (order, engine) := assignId s.engine inbound.order
      let ack := OutboundEvent.clientAck inbound.clientId
        (ServerMessage.ack order.id order.clientOrderId order.userId order.symbolId.toUInt8)
      match engine.process order inbound.clientId [] with
      | (.ok report, engine, trades) =>
          let stp :=
            if report.stpTriggered ∧ 0 < report.remainingQty then
              [rejection inbound.clientId order .selfTradePrevented]
            else
              []
          { state :=
              { engine := engine
                risk := MultiAssetEngine.settleReport risk order report trades }
            wal := [order]
            events := ack :: trades.map fillEvent ++ stp ++ bboEvents engine order.symbolId
            trades := trades }
      | (.error reason, engine, trades) =>
          { state :=
              { engine := engine
                risk := risk.unlockCancelledOrderMargin order order.qty }
            wal := [order]
            events := [ack, rejection inbound.clientId order reason]
            trades := trades }

/-- One round of the loop. -/
def handle (s : Exchange) (inbound : InboundMessage) : Round :=
  if inbound.order.kind = .cancel then s.handleCancel inbound else s.handleOrder inbound

/-- The loop over a sequence of messages. -/
def run (s : Exchange) : List InboundMessage → Round
  | [] => { state := s, wal := [], events := [], trades := [] }
  | inbound :: rest =>
      let first := s.handle inbound
      let others := run first.state rest
      { state := others.state
        wal := first.wal ++ others.wal
        events := first.events ++ others.events
        trades := first.trades ++ others.trades }

/-- Replay one record of the log. -/
def replay (s : Exchange) (record : Order) : Exchange :=
  let (_, engine, _, risk) := s.engine.replayOrder record [] s.risk
  { engine := engine, risk := risk }

/-- Replay the records of the log in order. -/
def replayAll (s : Exchange) (records : List Order) : Exchange :=
  records.foldl replay s

/-- Fund an account. -/
def deposit (s : Exchange) (userId usd : UInt64) (symbolId : UInt16) (assetQty : UInt64) :
    Exchange :=
  { s with risk := s.risk.deposit userId usd symbolId assetQty }

end Exchange

end LimitOrderBook
