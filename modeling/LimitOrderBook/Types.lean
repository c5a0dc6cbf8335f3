import Mathlib.Data.Fin.Basic
import Mathlib.Tactic.TypeStar

/-!
# The wire types

The fixed-size records the exchange receives and produces, and the enumerations
their byte fields encode.  The fields keep their machine types; a byte field is read
through `tryFrom`, which answers `none` on a byte that encodes nothing.
-/

namespace LimitOrderBook

/-- The number of traded symbols. -/
abbrev NUM_SYMBOLS : Nat := 3

/-- The side of an order. -/
inductive Side where
  | buy
  | sell
  deriving DecidableEq, Repr

namespace Side

/-- The byte of a side. -/
def toByte : Side → UInt8
  | buy => 0
  | sell => 1

/-- The side a byte encodes. -/
def tryFrom (v : UInt8) : Option Side :=
  if v = 0 then some buy else if v = 1 then some sell else none

/-- The opposite side. -/
def opposite : Side → Side
  | buy => sell
  | sell => buy

@[simp]
theorem opposite_ne (s : Side) :
  s.opposite ≠ s
  := by
  cases s <;> simp [opposite]

@[simp]
theorem opposite_opposite (s : Side) :
  s.opposite.opposite = s
  := by
  cases s <;> rfl

/-- There are two sides. -/
theorem eq_opposite_of_ne {s s' : Side} (h : s ≠ s') :
  s = s'.opposite
  := by
  revert h
  cases s <;> cases s' <;> simp [opposite]

theorem toByte_inj {s s' : Side} :
  s.toByte = s'.toByte ↔ s = s'
  := by
  cases s <;> cases s' <;> decide

end Side

/-- The type of an order. -/
inductive OrderType where
  | limit
  | market
  | cancel
  | deposit
  deriving DecidableEq, Repr

/-- The order type a byte encodes. -/
def OrderType.tryFrom (v : UInt8) : Option OrderType :=
  if v = 0 then some limit
  else if v = 1 then some market
  else if v = 2 then some cancel
  else if v = 3 then some deposit
  else none

/-- The byte of an order type. -/
def OrderType.toByte : OrderType → UInt8
  | limit => 0
  | market => 1
  | cancel => 2
  | deposit => 3

/-- A traded symbol. -/
inductive Symbol where
  | btc
  | eth
  | sol
  deriving DecidableEq, Repr

/-- The wire code of a symbol. -/
def Symbol.code : Symbol → UInt16
  | btc => 0
  | eth => 1
  | sol => 2

/-- The framing magic of the wire protocol. -/
def ORDER_MAGIC : UInt16 := 0x4F42

/-- The 48-byte order message.  `id` is the identifier the exchange assigns, or the
target of a cancel; `clientOrderId` is chosen by the client. -/
structure Order where
  id : UInt64
  price : UInt64
  qty : UInt64
  userId : UInt64
  clientOrderId : UInt64
  side : UInt8
  orderType : UInt8
  symbolId : UInt16
  magic : UInt16
  padding : UInt8 × UInt8
  deriving DecidableEq, Repr

namespace Order

/-- The order whose every field is zero, but for the magic. -/
def default : Order where
  id := 0
  price := 0
  qty := 0
  userId := 0
  clientOrderId := 0
  side := 0
  orderType := 0
  symbolId := 0
  magic := ORDER_MAGIC
  padding := (0, 0)

def newLimit (id userId : UInt64) (symbol : Symbol) (side : Side) (price qty : UInt64) : Order :=
  { default with
    id := id, price := price, qty := qty, userId := userId, clientOrderId := id,
    side := side.toByte, orderType := OrderType.limit.toByte, symbolId := symbol.code }

def newClientLimit (clientOrderId userId : UInt64) (symbol : Symbol) (side : Side)
    (price qty : UInt64) : Order :=
  { default with
    price := price, qty := qty, userId := userId, clientOrderId := clientOrderId,
    side := side.toByte, orderType := OrderType.limit.toByte, symbolId := symbol.code }

def newMarket (id userId : UInt64) (symbol : Symbol) (side : Side)
    (qty maxSpendOrSlippagePrice : UInt64) : Order :=
  { default with
    id := id, price := maxSpendOrSlippagePrice, qty := qty, userId := userId,
    clientOrderId := id, side := side.toByte, orderType := OrderType.market.toByte,
    symbolId := symbol.code }

def newCancel (targetId userId : UInt64) (symbol : Symbol) : Order :=
  { default with
    id := targetId, userId := userId, clientOrderId := targetId,
    orderType := OrderType.cancel.toByte, symbolId := symbol.code }

def newDeposit (userId usdAmount : UInt64) (symbolId : UInt16) (assetAmount : UInt64) : Order :=
  { default with
    price := usdAmount, qty := assetAmount, userId := userId,
    orderType := OrderType.deposit.toByte, symbolId := symbolId }

def getSide (o : Order) : Option Side := Side.tryFrom o.side

def getOrderType (o : Order) : Option OrderType := OrderType.tryFrom o.orderType

/-- The type every handler gives an order: an unknown byte is a limit order. -/
def kind (o : Order) : OrderType := o.getOrderType.getD .limit

/-- The test by which the book tells the two sides apart: only the byte of `Side.sell`
is a sell. -/
def isSell (o : Order) : Bool := o.side == Side.sell.toByte

/-- The ladder of the book an order rests on. -/
def bookSide (o : Order) : Side := if o.isSell then .sell else .buy

/-- A valid side byte is that of the side. -/
theorem side_of_getSide {o : Order} {s : Side} (h : o.getSide = some s) :
  o.side = s.toByte
  := by
  unfold getSide Side.tryFrom at h
  split at h
  · next hside =>
      obtain rfl := Option.some.inj h
      apply hside
  split at h
  · next hside =>
      obtain rfl := Option.some.inj h
      apply hside
  · contradiction

/-- A side byte that encodes a side encodes the side of the book. -/
theorem getSide_eq_bookSide {o : Order} (h : o.getSide.isSome) :
  o.getSide = some o.bookSide
  := by
  obtain ⟨s, hs⟩ := Option.isSome_iff_exists.mp h
  have hside := side_of_getSide hs
  rw [hs, bookSide, isSell, hside]
  cases s <;> rfl

/-- The side byte of an order with a valid side is that of the side it rests on. -/
theorem side_eq_toByte {o : Order} (h : o.getSide.isSome) :
  o.side = o.bookSide.toByte
  := side_of_getSide (getSide_eq_bookSide h)

/-- An order sells exactly if it rests with the asks. -/
theorem isSell_eq (o : Order) :
  o.isSell = (o.bookSide == .sell)
  := by
  unfold bookSide
  cases o.isSell <;> rfl

end Order

/-- Why a request is refused. -/
inductive RejectReason where
  | none
  | invalidOrder
  | insufficientFunds
  | orderNotFound
  | unauthorized
  | engineFull
  | noLiquidity
  | selfTradePrevented
  deriving DecidableEq, Repr

/-- An executed trade between a resting maker and an incoming taker. -/
structure Trade where
  matchId : UInt64
  makerOrderId : UInt64
  takerOrderId : UInt64
  makerClientOrderId : UInt64
  takerClientOrderId : UInt64
  makerUserId : UInt64
  takerUserId : UInt64
  makerClientId : UInt64
  takerClientId : UInt64
  buyerId : UInt64
  sellerId : UInt64
  makerSide : UInt8
  symbolId : UInt16
  price : UInt64
  qty : UInt64
  deriving DecidableEq, Repr

/-- One price of a market depth snapshot. -/
structure MarketDepthLevel where
  price : UInt64
  totalQty : UInt64
  orderCount : Nat
  deriving DecidableEq, Repr

/-- What processing an order reports back. -/
structure ExecutionReport where
  executedQty : UInt64
  remainingQty : UInt64
  stpTriggered : Bool
  deriving DecidableEq, Repr

end LimitOrderBook
