import LimitOrderBook.Book
import LimitOrderBook.Risk

/-!
# The multi-asset engine

One book for each symbol, under one counter of exchange identifiers, and the replay of a
logged order into the engine and the accounts.
-/

namespace LimitOrderBook

structure MultiAssetEngine where
  books : Fin NUM_SYMBOLS → OrderBook
  globalOrderIdCounter : UInt64

namespace MultiAssetEngine

def new : MultiAssetEngine where
  books
    | 0 => OrderBook.new .btc
    | 1 => OrderBook.new .eth
    | 2 => OrderBook.new .sol
  globalOrderIdCounter := 1

def nextOrderId (e : MultiAssetEngine) : UInt64 × MultiAssetEngine :=
  (e.globalOrderIdCounter, { e with globalOrderIdCounter := e.globalOrderIdCounter + 1 })

/-- The assignment of a book to `books[sym]`. -/
def setBook (e : MultiAssetEngine) (sym : Fin NUM_SYMBOLS) (b : OrderBook) : MultiAssetEngine :=
  { e with books := Function.update e.books sym b }

def getBook (e : MultiAssetEngine) (symbolId : UInt16) : Option OrderBook :=
  (symIdx symbolId).map e.books

/-- Stamp an order with an exchange identifier if it has none. -/
def stampId (e : MultiAssetEngine) (order : Order) : Order × MultiAssetEngine :=
  if order.id = 0 then
    ({ order with id := e.globalOrderIdCounter },
      { e with globalOrderIdCounter := e.globalOrderIdCounter + 1 })
  else
    (order, { e with globalOrderIdCounter := max e.globalOrderIdCounter (order.id + 1) })

def process (e : MultiAssetEngine) (order : Order) (clientId : UInt64) (trades : List Trade) :
    Except RejectReason ExecutionReport × MultiAssetEngine × List Trade :=
  match symIdx order.symbolId with
  | none => (.error .invalidOrder, e, trades)
  | some sym =>
      let (order, e₁) := e.stampId order
      let (result, book, trades) := (e₁.books sym).process order clientId trades
      (result, e₁.setBook sym book, trades)

def cancelOrder (e : MultiAssetEngine) (symbolId : UInt16) (userId orderId : UInt64) :
    Except RejectReason Order × MultiAssetEngine :=
  match symIdx symbolId with
  | none => (.error .invalidOrder, e)
  | some sym =>
      let (result, book) := (e.books sym).cancelOrder userId orderId
      (result, e.setBook sym book)

/-- What follows a processed order, live and on replay: its trades are settled, the
remainder that self-trade prevention cancelled is unlocked, and a market order is refunded
what it has not spent. -/
def settleReport (risk : RiskEngine) (order : Order) (report : ExecutionReport)
    (trades : List Trade) : RiskEngine :=
  let (risk₁, totalExecutedQty, totalExecutedCost) := risk.settleTrades trades order.price
  let risk₂ :=
    if report.stpTriggered ∧ 0 < report.remainingQty then
      risk₁.unlockCancelledOrderMargin order report.remainingQty
    else
      risk₁
  if order.kind = .market ∧ report.stpTriggered = false then
    risk₂.refundMarketOrderRemainder order.userId order.symbolId (order.getSide.getD .buy)
      order.price order.qty totalExecutedQty totalExecutedCost
  else
    risk₂

/-- Replay a logged order.  The vector of trades is scratch space. -/
def replayOrder (e : MultiAssetEngine) (order : Order) (trades : List Trade)
    (risk : RiskEngine) :
    Except RejectReason Unit × MultiAssetEngine × List Trade × RiskEngine :=
  if order.kind = .deposit then
    (.ok (), e, trades, risk.deposit order.userId order.price order.symbolId order.qty)
  else if symIdx order.symbolId = none then
    (.error .invalidOrder, e, trades, risk)
  else if order.kind = .cancel then
    match e.cancelOrder order.symbolId order.userId order.id with
    | (.ok cancelled, e₁) =>
        (.ok (), e₁, trades, risk.unlockCancelledOrderMargin cancelled cancelled.qty)
    | (.error _, e₁) => (.ok (), e₁, trades, risk)
  else
    match risk.lockOrderFunds order with
    | .error _ => (.ok (), e, trades, risk)
    | .ok risk₁ =>
        match e.process order 0 [] with
        | (.ok report, e₁, trades) =>
            (.ok (), e₁, trades, settleReport risk₁ order report trades)
        | (.error _, e₁, trades) => (.ok (), e₁, trades, risk₁)

end MultiAssetEngine

end LimitOrderBook
