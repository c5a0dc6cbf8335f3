import LimitOrderBook.Types
import LimitOrderBook.Lib.Word
import Mathlib.Logic.Function.Basic

/-!
# Margin accounts

Each user's funds are split into an available and a locked part, of dollars and of each
asset.  `lockOrderFunds` locks the margin of an order before it reaches the book; the
other operations release it.  The hash map of accounts is a function from users to
accounts.
-/

namespace LimitOrderBook

/-- The index of a wire symbol code into the per-symbol arrays. -/
def symIdx (symbolId : UInt16) : Option (Fin NUM_SYMBOLS) :=
  if h : symbolId.toNat < NUM_SYMBOLS then some ⟨symbolId.toNat, h⟩ else none

structure Account where
  userId : UInt64
  usdAvailable : UInt64
  usdLocked : UInt64
  assetAvailable : Fin NUM_SYMBOLS → UInt64
  assetLocked : Fin NUM_SYMBOLS → UInt64

namespace Account

def new (userId initialUsd : UInt64) : Account where
  userId := userId
  usdAvailable := initialUsd
  usdLocked := 0
  assetAvailable _ := 0
  assetLocked _ := 0

/-- The assignment of `f (asset_available[sym])` to `asset_available[sym]`. -/
def modifyAvailable (a : Account) (sym : Fin NUM_SYMBOLS) (f : UInt64 → UInt64) : Account :=
  { a with assetAvailable := Function.update a.assetAvailable sym (f (a.assetAvailable sym)) }

/-- The assignment of `f (asset_locked[sym])` to `asset_locked[sym]`. -/
def modifyLocked (a : Account) (sym : Fin NUM_SYMBOLS) (f : UInt64 → UInt64) : Account :=
  { a with assetLocked := Function.update a.assetLocked sym (f (a.assetLocked sym)) }

end Account

structure RiskEngine where
  accounts : UInt64 → Option Account

namespace RiskEngine

def new : RiskEngine where
  accounts _ := none

/-- Change the account of a user, if there is one. -/
def modifyAccount (r : RiskEngine) (userId : UInt64) (f : Account → Account) : RiskEngine :=
  match r.accounts userId with
  | none => r
  | some a => { accounts := Function.update r.accounts userId (some (f a)) }

def deposit (r : RiskEngine) (userId usd : UInt64) (symbolId : UInt16) (assetQty : UInt64) :
    RiskEngine :=
  match symIdx symbolId with
  | none => r
  | some sym =>
      let a := (r.accounts userId).getD (Account.new userId 0)
      let a := { a with usdAvailable := a.usdAvailable + usd }
      { accounts := Function.update r.accounts userId
          (some (a.modifyAvailable sym (· + assetQty))) }

/-- Reserve the margin of an order: dollars for a buy, assets for a sell. -/
def lockOrderFunds (r : RiskEngine) (order : Order) : Except RejectReason RiskEngine :=
  if order.kind = .cancel then
    .ok r
  else if order.qty = 0 then
    .error .invalidOrder
  else
    match symIdx order.symbolId with
    | none => .error .invalidOrder
    | some sym =>
        match r.accounts order.userId with
        | none => .error .unauthorized
        | some a =>
            if order.side = Side.buy.toByte then
              if order.price = 0 then
                .error .invalidOrder
              else
                match order.price.checkedMul order.qty with
                | none => .error .invalidOrder
                | some requiredUsd =>
                    if a.usdAvailable < requiredUsd then
                      .error .insufficientFunds
                    else
                      .ok (r.modifyAccount order.userId fun a =>
                        { a with
                          usdAvailable := a.usdAvailable - requiredUsd
                          usdLocked := a.usdLocked + requiredUsd })
            else if a.assetAvailable sym < order.qty then
              .error .insufficientFunds
            else
              .ok (r.modifyAccount order.userId fun a =>
                (a.modifyAvailable sym (· - order.qty)).modifyLocked sym (· + order.qty))

/-- Release the margin of the unexecuted part of an order. -/
def unlockOrderFunds (r : RiskEngine) (userId : UInt64) (symbolId : UInt16) (side : Side)
    (price unexecutedQty : UInt64) : RiskEngine :=
  if unexecutedQty = 0 then
    r
  else
    match symIdx symbolId with
    | none => r
    | some sym =>
        r.modifyAccount userId fun a =>
          match side with
          | .buy =>
              let lockedUsd := price.saturatingMul unexecutedQty
              { a with
                usdLocked := a.usdLocked.saturatingSub lockedUsd
                usdAvailable := a.usdAvailable + lockedUsd }
          | .sell =>
              (a.modifyLocked sym (·.saturatingSub unexecutedQty)).modifyAvailable sym
                (· + unexecutedQty)

def unlockCancelledOrderMargin (r : RiskEngine) (order : Order) (unexecutedQty : UInt64) :
    RiskEngine :=
  r.unlockOrderFunds order.userId order.symbolId (order.getSide.getD .buy) order.price
    unexecutedQty

/-- Release what a market order has locked and not spent. -/
def refundMarketOrderRemainder (r : RiskEngine) (userId : UInt64) (symbolId : UInt16)
    (side : Side)
    (budgetPrice totalRequestedQty totalExecutedQty totalExecutedCost : UInt64) : RiskEngine :=
  match symIdx symbolId with
  | none => r
  | some sym =>
      r.modifyAccount userId fun a =>
        match side with
        | .buy =>
            let lockedBudget := budgetPrice.saturatingMul totalRequestedQty
            if totalExecutedCost < lockedBudget then
              let surplus := lockedBudget - totalExecutedCost
              { a with
                usdLocked := a.usdLocked.saturatingSub surplus
                usdAvailable := a.usdAvailable + surplus }
            else
              a
        | .sell =>
            let unexecutedQty := totalRequestedQty.saturatingSub totalExecutedQty
            if 0 < unexecutedQty then
              (a.modifyLocked sym (·.saturatingSub unexecutedQty)).modifyAvailable sym
                (· + unexecutedQty)
            else
              a

/-- Move the funds of a trade between buyer and seller. -/
def settleTrade (r : RiskEngine) (trade : Trade) (takerLimitPrice : UInt64) : RiskEngine :=
  let totalCost := trade.price.saturatingMul trade.qty
  match symIdx trade.symbolId with
  | none => r
  | some sym =>
      let r₁ := r.modifyAccount trade.buyerId fun buyer =>
        let lockedPrice :=
          if trade.buyerId = trade.makerUserId then trade.price else takerLimitPrice
        let lockedUsd := lockedPrice.saturatingMul trade.qty
        let buyer := { buyer with usdLocked := buyer.usdLocked.saturatingSub lockedUsd }
        -- price improvement
        let buyer :=
          if totalCost < lockedUsd then
            { buyer with usdAvailable := buyer.usdAvailable + (lockedUsd - totalCost) }
          else
            buyer
        buyer.modifyAvailable sym (· + trade.qty)
      r₁.modifyAccount trade.sellerId fun seller =>
        let seller := seller.modifyLocked sym (·.saturatingSub trade.qty)
        { seller with usdAvailable := seller.usdAvailable + totalCost }

/-- The loop that settles the trades of one order, and totals their quantity and cost. -/
def settleTrades (r : RiskEngine) (trades : List Trade) (takerLimitPrice : UInt64) :
    RiskEngine × UInt64 × UInt64 :=
  trades.foldl
    (fun (r, totalExecutedQty, totalExecutedCost) trade =>
      (r.settleTrade trade takerLimitPrice, totalExecutedQty + trade.qty,
        totalExecutedCost + trade.price.saturatingMul trade.qty))
    (r, 0, 0)

end RiskEngine

end LimitOrderBook
