import LimitOrderBook.Types
import LimitOrderBook.Arena
import LimitOrderBook.Index
import LimitOrderBook.Lib.While

/-!
# The order book

One book holds the resting orders of one symbol: two ladders of price levels linked
through `prevLevel` and `nextLevel`, bids from the highest price down and asks from the
lowest up, a queue of orders at each level, and the three index tables.

A method that changes the book through `&mut self` answers the changed book beside its
result, also when the result is an error.  A `while` loop is a `While.run` of one round.
-/

namespace LimitOrderBook

structure OrderBook where
  symbol : Symbol
  bestBid : Nat
  bestAsk : Nat
  priceIndex : FastPriceIndex
  levelArena : PriceLevelArena
  orderArena : OrderArena
  orderIndex : FastOrderIndex
  clientOrderIndex : FastClientIndex
  tradeIdCounter : UInt64
  orderIdCounter : UInt64

/-- The price `p` ranks strictly before the price `q` on a side of the book: higher among
bids, lower among asks. -/
def Side.before (s : Side) (p q : UInt64) : Bool :=
  match s with
  | .buy => q < p
  | .sell => p < q

namespace OrderBook

def new (symbol : Symbol) : OrderBook where
  symbol := symbol
  bestBid := NULL_IDX
  bestAsk := NULL_IDX
  priceIndex := OpenAddressing.Table.new
  levelArena := PriceLevelArena.new MAX_PRICE_LEVELS
  orderArena := OrderArena.new MAX_ARENA_ORDERS
  orderIndex := OpenAddressing.Table.new
  clientOrderIndex := OpenAddressing.Table.new
  tradeIdCounter := 1
  orderIdCounter := 1

def nextOrderId (b : OrderBook) : UInt64 × OrderBook :=
  (b.orderIdCounter, { b with orderIdCounter := b.orderIdCounter + 1 })

/-- The head of a ladder. -/
def best (b : OrderBook) : Side → Nat
  | .buy => b.bestBid
  | .sell => b.bestAsk

def setBest (b : OrderBook) (s : Side) (idx : Nat) : OrderBook :=
  match s with
  | .buy => { b with bestBid := idx }
  | .sell => { b with bestAsk := idx }

/-- The assignment of `f (level_arena.nodes[idx])` to `level_arena.nodes[idx]`. -/
def modifyLevel (b : OrderBook) (idx : Nat) (f : PriceLevelNode → PriceLevelNode) : OrderBook :=
  { b with levelArena := b.levelArena.modify idx f }

/-! ### The price ladders -/

/-- One round of the walk down a ladder to the place of `price`. -/
def walkStep (nodes : Nat → PriceLevelNode) (before : UInt64 → UInt64 → Bool) (price : UInt64)
    (curr : Nat) : Option Nat :=
  let next := (nodes curr).nextLevel
  if next ≠ NULL_IDX ∧ before (nodes next).price price then some next else none

/-- Link a level into one ladder, ranked by `before`.  The code has this once for each
side. -/
def linkLadder (b : OrderBook) (side : Side) (before : UInt64 → UInt64 → Bool)
    (levelIdx : Nat) : OrderBook :=
  let price := (b.levelArena.nodes levelIdx).price
  if b.best side = NULL_IDX then
    (b.setBest side levelIdx).modifyLevel levelIdx fun n =>
      { n with prevLevel := NULL_IDX, nextLevel := NULL_IDX }
  else if before price (b.levelArena.nodes (b.best side)).price then
    let oldHead := b.best side
    let b₁ := b.modifyLevel levelIdx fun n =>
      { n with nextLevel := oldHead, prevLevel := NULL_IDX }
    let b₂ := b₁.modifyLevel oldHead fun n => { n with prevLevel := levelIdx }
    b₂.setBest side levelIdx
  else
    let curr := While.run (walkStep b.levelArena.nodes before price) MAX_PRICE_LEVELS (b.best side)
    let next := (b.levelArena.nodes curr).nextLevel
    let b₁ := b.modifyLevel curr fun n => { n with nextLevel := levelIdx }
    let b₂ := b₁.modifyLevel levelIdx fun n => { n with prevLevel := curr, nextLevel := next }
    if next ≠ NULL_IDX then
      b₂.modifyLevel next fun n => { n with prevLevel := levelIdx }
    else
      b₂

def linkPriceLevel (b : OrderBook) (levelIdx : Nat) (isSell : Bool) : OrderBook :=
  if isSell then
    b.linkLadder .sell (fun p q => p < q) levelIdx
  else
    b.linkLadder .buy (fun p q => p > q) levelIdx

def unlinkPriceLevel (b : OrderBook) (levelIdx : Nat) (isSell : Bool) : OrderBook :=
  let prev := (b.levelArena.nodes levelIdx).prevLevel
  let next := (b.levelArena.nodes levelIdx).nextLevel
  let b₁ :=
    if prev ≠ NULL_IDX then
      b.modifyLevel prev fun n => { n with nextLevel := next }
    else if isSell then
      { b with bestAsk := next }
    else
      { b with bestBid := next }
  let b₂ :=
    if next ≠ NULL_IDX then
      b₁.modifyLevel next fun n => { n with prevLevel := prev }
    else
      b₁
  b₂.modifyLevel levelIdx fun n => { n with prevLevel := NULL_IDX, nextLevel := NULL_IDX }

/-- What `process` and `cancel_order` do with a level whose queue has become empty. -/
def retireLevel (b : OrderBook) (levelIdx : Nat) (price : UInt64) (isSell : Bool) : OrderBook :=
  let b₁ := b.unlinkPriceLevel levelIdx isSell
  { b₁ with
    priceIndex := (b₁.priceIndex.remove price).2
    levelArena := b₁.levelArena.deallocate levelIdx }

/-! ### Matching -/

/-- The variables of the matching loops.  `stp` is set when the loop over a level has
returned because the order at its head is the taker's own. -/
structure Matching where
  book : OrderBook
  incoming : Order
  trades : List Trade
  stp : Bool

/-- The trade of `qty` between the order `resting`, of client `makerClientId`, and
`incoming`. -/
def tradeOf (matchId : UInt64) (resting incoming : Order) (makerClientId takerClientId : UInt64)
    (qty : UInt64) : Trade where
  matchId := matchId
  makerOrderId := resting.id
  takerOrderId := incoming.id
  makerClientOrderId := resting.clientOrderId
  takerClientOrderId := incoming.clientOrderId
  makerUserId := resting.userId
  takerUserId := incoming.userId
  makerClientId := makerClientId
  takerClientId := takerClientId
  buyerId := if incoming.side = Side.buy.toByte then incoming.userId else resting.userId
  sellerId := if incoming.side = Side.buy.toByte then resting.userId else incoming.userId
  makerSide := resting.side
  symbolId := incoming.symbolId
  price := resting.price
  qty := qty

/-- The trade with the order at the head of the queue of level `levelIdx`. -/
def fillHead (takerClientId : UInt64) (levelIdx : Nat) (m : Matching) : Matching :=
  let b := m.book
  let restingIdx := (b.levelArena.nodes levelIdx).headOrder
  let resting := b.orderArena.nodes restingIdx
  let tradeQty := min m.incoming.qty resting.order.qty
  let trade := tradeOf b.tradeIdCounter resting.order m.incoming resting.clientId takerClientId
    tradeQty
  let b₁ :=
    { b with
      tradeIdCounter := b.tradeIdCounter + 1
      orderArena := b.orderArena.modify restingIdx fun n =>
        { n with order := { n.order with qty := n.order.qty - tradeQty } }
      levelArena := b.levelArena.modify levelIdx fun n =>
        { n with totalQty := n.totalQty - tradeQty } }
  let filled := (b₁.orderArena.nodes restingIdx).order
  let b₂ :=
    if filled.qty = 0 then
      let (_, level, arena) := (b₁.levelArena.nodes levelIdx).popOrder b₁.orderArena
      { b₁ with
        levelArena := b₁.levelArena.modify levelIdx fun _ => level
        orderArena := arena.deallocate restingIdx
        orderIndex := (b₁.orderIndex.remove filled.id).2
        clientOrderIndex := (b₁.clientOrderIndex.remove filled.userId filled.clientOrderId).2 }
    else
      b₁
  { m with
    book := b₂
    incoming := { m.incoming with qty := m.incoming.qty - tradeQty }
    trades := m.trades ++ [trade] }

/-- One round of the loop over the queue of level `levelIdx`. -/
def matchLevelStep (takerClientId : UInt64) (levelIdx : Nat) (m : Matching) : Option Matching :=
  if m.stp then
    none
  else
    let level := m.book.levelArena.nodes levelIdx
    if 0 < m.incoming.qty ∧ level.isEmpty = false then
      let resting := m.book.orderArena.nodes level.headOrder
      -- self-trade prevention
      if resting.order.userId = m.incoming.userId then
        some { m with stp := true }
      else
        some (fillHead takerClientId levelIdx m)
    else
      none

def matchLevel (takerClientId : UInt64) (levelIdx : Nat) (m : Matching) : Matching :=
  While.run (matchLevelStep takerClientId levelIdx) (MAX_ARENA_ORDERS + 1) m

/-- One round of the loop over the ladder `resting`.  The price bound of the order is passed
at a best price `p` with `beyond p order.price`. -/
def matchStep (resting : Side) (beyond : UInt64 → UInt64 → Bool) (clientId : UInt64)
    (m : Matching) : Option Matching :=
  if m.stp then
    none
  else if 0 < m.incoming.qty ∧ m.book.best resting ≠ NULL_IDX then
    let bestIdx := m.book.best resting
    let bestPrice := (m.book.levelArena.nodes bestIdx).price
    if m.incoming.kind = .limit ∧ beyond bestPrice m.incoming.price then
      none
    -- slippage protection
    else if m.incoming.kind = .market ∧ 0 < m.incoming.price
        ∧ beyond bestPrice m.incoming.price then
      none
    else
      let m₁ := matchLevel clientId bestIdx m
      if (m₁.book.levelArena.nodes bestIdx).isEmpty then
        some { m₁ with book := m₁.book.retireLevel bestIdx bestPrice (resting == .sell) }
      else
        some m₁
  else
    none

/-- Match a sell against the bids. -/
def matchBids (clientId : UInt64) (m : Matching) : Matching :=
  While.run (matchStep .buy (fun best price => best < price) clientId) (MAX_PRICE_LEVELS + 1) m

/-- Match a buy against the asks. -/
def matchAsks (clientId : UInt64) (m : Matching) : Matching :=
  While.run (matchStep .sell (fun best price => best > price) clientId) (MAX_PRICE_LEVELS + 1) m

/-! ### Resting and cancelling -/

/-- The level for `price`: the one the price index knows, else a new one. -/
def levelFor (b : OrderBook) (price : UInt64) (isSell : Bool) :
    Except RejectReason Nat × OrderBook :=
  match b.priceIndex.lookup price with
  | some existingIdx => (.ok existingIdx, b)
  | none =>
      match b.levelArena.allocate price with
      | .error e => (.error e, b)
      | .ok (newIdx, levelArena) =>
          let b₁ := { b with levelArena := levelArena }
          match b₁.priceIndex.insert price newIdx with
          | .error e => (.error e, b₁)
          | .ok priceIndex =>
              let b₂ := { b₁ with priceIndex := priceIndex }
              (.ok newIdx, b₂.linkPriceLevel newIdx isSell)

/-- Rest the remainder of a limit order. -/
def restOrder (b : OrderBook) (order : Order) (clientId : UInt64) :
    Except RejectReason Unit × OrderBook :=
  match b.orderArena.allocate order clientId with
  | .error e => (.error e, b)
  | .ok (nodeIdx, orderArena) =>
      let b₁ := { b with orderArena := orderArena }
      match b₁.levelFor order.price order.isSell with
      | (.error e, b₂) => (.error e, b₂)
      | (.ok levelIdx, b₂) =>
          let (level, arena) :=
            (b₂.levelArena.nodes levelIdx).pushOrder nodeIdx b₂.orderArena
          let b₃ :=
            { b₂ with
              levelArena := b₂.levelArena.modify levelIdx fun _ => level
              orderArena := arena }
          match b₃.orderIndex.insert order.id order.clientOrderId order.userId order.price
              nodeIdx order.side with
          | .error e => (.error e, b₃)
          | .ok orderIndex =>
              let b₄ := { b₃ with orderIndex := orderIndex }
              -- the outcome of this insertion is discarded
              match b₄.clientOrderIndex.insert order.userId order.clientOrderId order.id with
              | .error _ => (.ok (), b₄)
              | .ok clientOrderIndex => (.ok (), { b₄ with clientOrderIndex := clientOrderIndex })

/-- The index entry `cancel_order` acts on: that of the exchange identifier, else that of
the user's client identifier. -/
def findEntry (b : OrderBook) (requestingUserId orderId : UInt64) :
    Except RejectReason FastIndexEntry :=
  match b.orderIndex.lookup orderId with
  | some e => .ok e
  | none =>
      match b.clientOrderIndex.lookup requestingUserId orderId with
      | some exchangeId =>
          match b.orderIndex.lookup exchangeId with
          | some e => .ok e
          | none => .error .orderNotFound
      | none => .error .orderNotFound

def cancelOrder (b : OrderBook) (requestingUserId orderId : UInt64) :
    Except RejectReason Order × OrderBook :=
  match b.findEntry requestingUserId orderId with
  | .error e => (.error e, b)
  | .ok entry =>
      if entry.userId ≠ requestingUserId then
        (.error .unauthorized, b)
      else
        let node := b.orderArena.nodes entry.nodeIdx
        if node.active = false ∨ node.order.id ≠ entry.orderId then
          -- a stale entry
          (.error .orderNotFound,
            { b with
              orderIndex := (b.orderIndex.remove entry.orderId).2
              clientOrderIndex :=
                (b.clientOrderIndex.remove entry.userId entry.clientOrderId).2 })
        else
          let isSell := entry.side == Side.sell.toByte
          let b₁ :=
            match b.priceIndex.lookup entry.price with
            | none => b
            | some levelIdx =>
                let (level, arena) :=
                  (b.levelArena.nodes levelIdx).unlinkOrder entry.nodeIdx b.orderArena
                let b' :=
                  { b with
                    levelArena := b.levelArena.modify levelIdx fun _ => level
                    orderArena := arena }
                if (b'.levelArena.nodes levelIdx).isEmpty then
                  b'.retireLevel levelIdx entry.price isSell
                else
                  b'
          (.ok node.order,
            { b₁ with
              orderArena := b₁.orderArena.deallocate entry.nodeIdx
              orderIndex := (b₁.orderIndex.remove entry.orderId).2
              clientOrderIndex :=
                (b₁.clientOrderIndex.remove entry.userId entry.clientOrderId).2 })

/-! ### Processing an order -/

/-- Stamp an order with an identifier of the book if it has none. -/
def stampId (b : OrderBook) (order : Order) : Order × OrderBook :=
  if order.id = 0 then
    ({ order with id := b.orderIdCounter }, { b with orderIdCounter := b.orderIdCounter + 1 })
  else
    (order, { b with orderIdCounter := max b.orderIdCounter (order.id + 1) })

def process (b : OrderBook) (order : Order) (clientId : UInt64) (trades : List Trade) :
    Except RejectReason ExecutionReport × OrderBook × List Trade :=
  if order.kind = .cancel then
    let targetId := if order.id ≠ 0 then order.id else order.clientOrderId
    match b.cancelOrder order.userId targetId with
    | (.error e, b') => (.error e, b', trades)
    | (.ok cancelled, b') =>
        (.ok { executedQty := 0, remainingQty := cancelled.qty, stpTriggered := false },
          b', trades)
  else
    let (order, b₀) := b.stampId order
    let start : Matching := { book := b₀, incoming := order, trades := trades, stp := false }
    let m := if order.isSell then matchBids clientId start else matchAsks clientId start
    let executedQty := order.qty.saturatingSub m.incoming.qty
    let report : ExecutionReport :=
      { executedQty := executedQty, remainingQty := m.incoming.qty, stpTriggered := m.stp }
    if m.stp then
      (.ok report, m.book, m.trades)
    else if order.kind = .market then
      (.ok report, m.book, m.trades)
    else if 0 < m.incoming.qty ∧ order.kind = .limit then
      match m.book.restOrder m.incoming clientId with
      | (.error e, b') => (.error e, b', m.trades)
      | (.ok (), b') => (.ok report, b', m.trades)
    else
      (.ok report, m.book, m.trades)

/-! ### Market data -/

def getBbo (b : OrderBook) : Option (UInt64 × UInt64) × Option (UInt64 × UInt64) :=
  let quote (idx : Nat) :=
    if idx ≠ NULL_IDX then
      some ((b.levelArena.nodes idx).price, (b.levelArena.nodes idx).totalQty)
    else
      none
  (quote b.bestBid, quote b.bestAsk)

/-- At most `maxLevels` levels of a ladder, from `curr` on. -/
def depthFrom (nodes : Nat → PriceLevelNode) : Nat → Nat → List MarketDepthLevel
  | 0, _ => []
  | maxLevels + 1, curr =>
      if curr ≠ NULL_IDX then
        let node := nodes curr
        { price := node.price, totalQty := node.totalQty, orderCount := node.orderCount }
          :: depthFrom nodes maxLevels node.nextLevel
      else
        []

def getDepth (b : OrderBook) (maxLevels : Nat) :
    Option (List MarketDepthLevel × List MarketDepthLevel) :=
  -- `Vec::with_capacity` panics where its levels, 24 bytes each, take more than `isize::MAX` bytes
  if 24 * maxLevels < 2 ^ 63 then
    some (depthFrom b.levelArena.nodes maxLevels b.bestBid,
      depthFrom b.levelArena.nodes maxLevels b.bestAsk)
  else
    none

end OrderBook

end LimitOrderBook
