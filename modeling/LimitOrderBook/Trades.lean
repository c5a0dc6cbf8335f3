import LimitOrderBook.Exactness
import LimitOrderBook.Consistency
import LimitOrderBook.Priority
import Mathlib.Algebra.Order.BigOperators.Group.List

/-!
# What a taker trades

A taker makes at most one trade with each of the orders it meets.  What it loses is what it
trades, and each order loses what is traded with it: `MakerRate.resting_matchOrders` says so
for the quantities of the orders, each at a rate of its own.
-/

namespace LimitOrderBook

/-! ### The taker -/

/-- The quantity of a list of trades. -/
def tradedQty (ts : List Trade) : Nat := (ts.map fun t => t.qty.toNat).sum

@[simp]
theorem tradedQty_nil :
  tradedQty [] = 0
  := rfl

@[simp]
theorem tradedQty_cons (t : Trade) (ts : List Trade) :
  tradedQty (t :: ts) = t.qty.toNat + tradedQty ts
  := List.sum_cons

/-- One of several trades is of no more quantity than all of them. -/
theorem qty_le_tradedQty {t : Trade} {ts : List Trade} (ht : t ∈ ts) :
  t.qty.toNat ≤ tradedQty ts
  := by
  unfold tradedQty
  exact List.single_le_sum (fun _ _ => Nat.zero_le _) _ (List.mem_map_of_mem ht)

/-- What a list of trades costs. -/
def tradedCost (ts : List Trade) : Nat := (ts.map fun t => t.price.toNat * t.qty.toNat).sum

@[simp]
theorem tradedCost_nil :
  tradedCost [] = 0
  := rfl

@[simp]
theorem tradedCost_cons (t : Trade) (ts : List Trade) :
  tradedCost (t :: ts) = t.price.toNat * t.qty.toNat + tradedCost ts
  := List.sum_cons

/-- Trades cost at most their quantity at a price that none of them exceeds. -/
theorem tradedCost_le {ts : List Trade} {price : UInt64} (hts : ∀ t ∈ ts, t.price ≤ price) :
  tradedCost ts ≤ price.toNat * tradedQty ts
  := by
  induction ts with
  | nil => simp
  | cons t ts ih =>
      have hhead := UInt64.le_iff_toNat_le.mp (hts t List.mem_cons_self)
      have htail := ih fun t' ht' => hts t' (List.mem_cons_of_mem _ ht')
      rw [tradedCost_cons, tradedQty_cons, Nat.mul_add]
      exact Nat.add_le_add (Nat.mul_le_mul_right _ hhead) htail

/-- Trades at one price cost their quantity at that price. -/
theorem tradedCost_eq {ts : List Trade} {price : UInt64} (hts : ∀ t ∈ ts, t.price = price) :
  tradedCost ts = price.toNat * tradedQty ts
  := by
  induction ts with
  | nil => simp
  | cons t ts ih =>
      rw [tradedCost_cons, tradedQty_cons, hts t List.mem_cons_self,
        ih fun t' ht' => hts t' (List.mem_cons_of_mem _ ht'), Nat.mul_add]

section

variable (accepts : UInt64 → Bool) (takerClientId : UInt64) (taker : Order) (nextId : UInt64)
  (rs : List Resting)

/-- What a taker trades and what it is left with is what it came with. -/
theorem tradedQty_matchOrders :
  tradedQty (matchOrders accepts takerClientId taker nextId rs).trades
      + (matchOrders accepts takerClientId taker nextId rs).taker.qty.toNat
    = taker.qty.toNat
  := by
  induction rs generalizing taker nextId with
  | nil => simp [matchOrders]
  | cons r rs ih =>
      have htaker := UInt64.toNat_sub_min taker.qty r.order.qty
      have hmin := UInt64.toNat_min taker.qty r.order.qty
      rw [matchOrders]
      split
      · simp
      split
      · simp
      dsimp only
      split
      · have hrec := ih (taker.reduce (min taker.qty r.order.qty)) (nextId + 1)
        simp only [Order.reduce, OrderBook.tradeOf, tradedQty_cons] at hrec ⊢
        omega
      · simp only [Order.reduce, OrderBook.tradeOf, tradedQty_cons, tradedQty_nil]
        omega

/-- A taker trades at most once with each order. -/
theorem length_trades_matchOrders :
  (matchOrders accepts takerClientId taker nextId rs).trades.length ≤ rs.length
  := by
  induction rs generalizing taker nextId with
  | nil => simp [matchOrders]
  | cons r rs ih =>
      rw [matchOrders]
      split
      · simp
      split
      · simp
      dsimp only
      split
      · have hrec := ih (taker.reduce (min taker.qty r.order.qty)) (nextId + 1)
        simp only [List.length_cons]
        omega
      · simp

/-- Every trade takes an identifier. -/
theorem nextId_matchOrders :
  (matchOrders accepts takerClientId taker nextId rs).nextId
    = nextId + UInt64.ofNat (matchOrders accepts takerClientId taker nextId rs).trades.length
  := by
  induction rs generalizing taker nextId with
  | nil => simp [matchOrders]
  | cons r rs ih =>
      rw [matchOrders]
      split
      · simp
      split
      · simp
      dsimp only
      split
      · rw [ih, List.length_cons, UInt64.ofNat_add]
        grind
      · rfl

/-- What every trade of a taker is: with an order it has met, of another user, at a price it
accepts. -/
theorem mem_trades_matchOrders {t : Trade}
    (ht : t ∈ (matchOrders accepts takerClientId taker nextId rs).trades) :
  ∃ r ∈ rs, ∃ (id qty : UInt64) (taker' : Order), taker' = { taker with qty := taker'.qty }
    ∧ t = OrderBook.tradeOf id r.order taker' r.clientId takerClientId qty
    ∧ r.order.userId ≠ taker.userId ∧ accepts r.order.price
  := by
  induction rs generalizing taker nextId with
  | nil => simp [matchOrders] at ht
  | cons r rs ih =>
      rw [matchOrders] at ht
      split at ht
      · simp at ht
      next hstop =>
      split at ht
      · simp at ht
      next huser =>
      have haccepts : accepts r.order.price := by
        rw [not_or, Bool.not_eq_false] at hstop
        apply hstop.2
      have hhead : ∀ t' : Trade, t' = OrderBook.tradeOf nextId r.order taker r.clientId
          takerClientId (min taker.qty r.order.qty) → ∃ r' ∈ r :: rs,
          ∃ (id qty : UInt64) (taker' : Order), taker' = { taker with qty := taker'.qty }
            ∧ t' = OrderBook.tradeOf id r'.order taker' r'.clientId takerClientId qty
            ∧ r'.order.userId ≠ taker.userId ∧ accepts r'.order.price := by
        rintro t' rfl
        exact ⟨r, List.mem_cons_self, nextId, _, taker, rfl, rfl, huser, haccepts⟩
      dsimp only at ht
      split at ht
      · rcases List.mem_cons.mp ht with rfl | ht
        · apply hhead _ rfl
        · obtain ⟨r', hr', id, qty, taker', htaker', heq, huser', haccepts'⟩ := ih _ _ ht
          refine ⟨r', List.mem_cons_of_mem _ hr', id, qty, taker', ?_, heq, huser', haccepts'⟩
          rw [htaker']
          rfl
      · apply hhead t (List.mem_singleton.mp ht)

end

/-! ### The makers -/

/-- A rate of orders that does not depend on their quantity, with the rate of the trades that
are made with them. -/
structure MakerRate where
  order : Order → Nat
  trade : Trade → Nat
  order_qty : ∀ (o : Order) (qty : UInt64), order { o with qty := qty } = order o
  trade_tradeOf : ∀ (nextId : UInt64) (maker taker : Order)
    (makerClientId takerClientId qty : UInt64),
    trade (OrderBook.tradeOf nextId maker taker makerClientId takerClientId qty) = order maker

namespace MakerRate

variable (R : MakerRate)

/-- What the quantities of the resting orders come to. -/
def resting (rs : List Resting) : Nat := (rs.map fun r => R.order r.order * r.order.qty.toNat).sum

/-- What the quantities of the trades come to. -/
def traded (ts : List Trade) : Nat := (ts.map fun t => R.trade t * t.qty.toNat).sum

@[simp]
theorem resting_nil :
  R.resting [] = 0
  := rfl

@[simp]
theorem resting_cons (r : Resting) (rs : List Resting) :
  R.resting (r :: rs) = R.order r.order * r.order.qty.toNat + R.resting rs
  := List.sum_cons

@[simp]
theorem resting_append (rs rs' : List Resting) :
  R.resting (rs ++ rs') = R.resting rs + R.resting rs'
  := by
  simp [resting]

@[simp]
theorem traded_nil :
  R.traded [] = 0
  := rfl

@[simp]
theorem traded_cons (t : Trade) (ts : List Trade) :
  R.traded (t :: ts) = R.trade t * t.qty.toNat + R.traded ts
  := List.sum_cons

@[simp]
theorem traded_append (ts ts' : List Trade) :
  R.traded (ts ++ ts') = R.traded ts + R.traded ts'
  := by
  simp [traded]

/-- What rests does not depend on the sequence of the orders. -/
theorem resting_perm {rs rs' : List Resting} (h : rs.Perm rs') :
  R.resting rs = R.resting rs'
  := (h.map _).sum_nat

/-- What a taker takes off the orders is what it trades. -/
theorem resting_matchOrders (accepts : UInt64 → Bool) (takerClientId : UInt64) (taker : Order)
    (nextId : UInt64) (rs : List Resting) :
  R.resting rs
    = R.resting (matchOrders accepts takerClientId taker nextId rs).left
      + R.traded (matchOrders accepts takerClientId taker nextId rs).trades
  := by
  induction rs generalizing taker nextId with
  | nil => rfl
  | cons r rs ih =>
      have hmaker := UInt64.toNat_sub_min' taker.qty r.order.qty
      have hmin := UInt64.toNat_min taker.qty r.order.qty
      rw [matchOrders]
      split
      · rfl
      split
      · rfl
      dsimp only
      split
      · next hzero =>
          have hqty : (min taker.qty r.order.qty).toNat = r.order.qty.toNat := by
            rw [← UInt64.toNat_inj, UInt64.toNat_zero] at hzero
            omega
          rw [resting_cons, traded_cons, R.trade_tradeOf,
            ih (taker.reduce (min taker.qty r.order.qty)) (nextId + 1)]
          dsimp only [OrderBook.tradeOf]
          rw [hqty]
          omega
      · have horder : R.order (r.reduce (min taker.qty r.order.qty)).order = R.order r.order :=
          R.order_qty r.order _
        have hqty : r.order.qty.toNat
            = (r.reduce (min taker.qty r.order.qty)).order.qty.toNat
              + (min taker.qty r.order.qty).toNat := by
          dsimp only [Resting.reduce]
          omega
        rw [resting_cons, resting_cons, traded_cons, traded_nil, R.trade_tradeOf, horder, hqty]
        dsimp only [OrderBook.tradeOf]
        rw [Nat.mul_add]
        omega

end MakerRate

/-! ### The fills of a layout -/

namespace Layout.WellFormed

variable {L : Layout} (hw : L.WellFormed) (o : Order) (clientId : UInt64)

include hw

/-- What a taker has traded and what is left of it is what it came with. -/
theorem tradedQty_fills :
  tradedQty (L.fills o clientId).trades + (L.fills o clientId).taker.qty.toNat = o.qty.toNat
  := by
  have hqty := tradedQty_matchOrders (o.accepts o.takesFrom) clientId (L.stamped o)
    L.tradeIdCounter (L.resting o.takesFrom)
  rw [hw.fills_eq] at hqty
  apply hqty

/-- A taker trades at most once with each order of the other side. -/
theorem length_trades_fills :
  (L.fills o clientId).trades.length ≤ (L.resting o.takesFrom).length
  := by
  have hlen := length_trades_matchOrders (o.accepts o.takesFrom) clientId (L.stamped o)
    L.tradeIdCounter (L.resting o.takesFrom)
  rw [hw.fills_eq] at hlen
  apply hlen

/-- The counter of match identifiers goes on by the number of trades. -/
theorem nextId_fills :
  (L.fills o clientId).nextId
    = L.tradeIdCounter + UInt64.ofNat (L.fills o clientId).trades.length
  := by
  have hid := nextId_matchOrders (o.accepts o.takesFrom) clientId (L.stamped o)
    L.tradeIdCounter (L.resting o.takesFrom)
  rw [hw.fills_eq] at hid
  apply hid

/-- Every trade of a taker is with an order at rest, of another user, at a price it accepts. -/
theorem mem_trades_fills {t : Trade} (ht : t ∈ (L.fills o clientId).trades) :
  ∃ r ∈ L.resting o.takesFrom, ∃ (id qty : UInt64) (taker : Order),
    taker = { o with id := taker.id, qty := taker.qty }
      ∧ t = OrderBook.tradeOf id r.order taker r.clientId clientId qty
      ∧ r.order.userId ≠ o.userId ∧ o.accepts o.takesFrom r.order.price
  := by
  have hmem := mem_trades_matchOrders (o.accepts o.takesFrom) clientId (L.stamped o)
    L.tradeIdCounter (L.resting o.takesFrom) (t := t)
  rw [hw.fills_eq] at hmem
  obtain ⟨r, hr, id, qty, taker, htaker, heq, huser, haccepts⟩ := hmem ht
  refine ⟨r, hr, id, qty, taker, ?_, heq, huser, haccepts⟩
  rw [htaker]
  rfl

/-- What a taker takes off the ladder is what it trades. -/
theorem resting_fills (R : MakerRate) :
  R.resting (L.resting o.takesFrom)
    = R.resting (restingOf (L.fills o clientId).ladder) + R.traded (L.fills o clientId).trades
  := by
  have hmatch := R.resting_matchOrders (o.accepts o.takesFrom) clientId (L.stamped o)
    L.tradeIdCounter (L.resting o.takesFrom)
  rw [hw.fills_eq] at hmatch
  apply hmatch

end Layout.WellFormed

/-- An order that comes to rest without a trade has met nothing. -/
theorem Layout.Rests.fills_eq_idle_of_no_trade {L : Layout} (hw : L.WellFormed) {o : Order}
    {clientId : UInt64} (h : L.Rests o clientId) (htrades : (L.fills o clientId).trades = []) :
  L.fills o clientId = L.idle o
  := by
  apply h.fills_eq_idle
  apply hw.emptied_eq_nil
  obtain ⟨whole, part, rest, -, hall, hwhole, -⟩ := matchOrders_makers (o.accepts o.takesFrom)
    clientId (L.stamped o) L.tradeIdCounter (L.resting o.takesFrom)
  rw [hw.fills_eq] at hall hwhole
  dsimp only at hall hwhole
  rw [htrades] at hall
  obtain ⟨rfl, -⟩ := List.append_eq_nil_iff.mp hall.symm
  apply List.forall₂_nil_right_iff.mp hwhole

/-- A taker makes no more trades than there are slots for orders. -/
theorem OrderBook.HasLayout.length_trades_fills {b : OrderBook} {L : Layout} (h : b.HasLayout L)
    (hw : L.WellFormed) (o : Order) (clientId : UInt64) :
  (L.fills o clientId).trades.length ≤ MAX_ARENA_ORDERS
  := by
  have hlen := hw.length_trades_fills o clientId
  have hall := h.resting_length_le
  have hperm := (L.levels_perm o.takesFrom).flatMap_right (·.queue)
  rw [List.flatMap_append] at hperm
  have heq := hperm.length_eq
  rw [List.length_append] at heq
  unfold Layout.resting restingOf at hlen
  unfold restingOf at hall
  omega

end LimitOrderBook
