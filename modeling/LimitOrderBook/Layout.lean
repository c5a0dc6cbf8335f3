import LimitOrderBook.Book

/-!
# The layout of a book

What a book holds, without the links that hold it together: for each side the list of its
price levels, best price first, each with the list of its orders, oldest first; the slots
these occupy and the ones left over; and the two order indices as functions.  The
operations of the book are functions on lists here.

* `matchOrders`: the taker against a list of orders.
* `matchLadder`: the taker against a list of levels; `matchLadder_matchOrders` says that
  it is the taker against the orders of all the levels in turn.
* `restLadder`: an order appended at its price, in a new level if there is none.
* `Place`: where an order rests; `Layout.remove` takes it out.
-/

namespace LimitOrderBook

/-! ### The ranking of prices -/

namespace Side

variable {s : Side} {p q t : UInt64}

/-- No price is before a price that is before it. -/
theorem before_asymm (h : s.before p q) :
  s.before q p = false
  := by
  cases s <;> simp only [Side.before, decide_eq_true_eq, decide_eq_false_iff_not,
    UInt64.lt_iff_toNat_lt] at * <;> omega

/-- Of two prices one is before the other. -/
theorem before_of_ne (hne : p ≠ q) (h : s.before q p = false) :
  s.before p q
  := by
  rw [ne_eq, ← UInt64.toNat_inj] at hne
  cases s <;> simp only [Side.before, decide_eq_true_eq, decide_eq_false_iff_not,
    UInt64.lt_iff_toNat_lt] at * <;> omega

/-- Priority is transitive. -/
theorem before_trans (h : s.before p q) (h' : s.before q t) :
  s.before p t
  := by
  cases s <;> simp only [Side.before, decide_eq_true_eq, UInt64.lt_iff_toNat_lt] at * <;> omega

/-- No price is before itself. -/
theorem ne_of_before (h : s.before p q) :
  p ≠ q
  := by
  rintro rfl
  rw [before_asymm h] at h
  contradiction

end Side

/-- An order at rest, and the slot of the order arena it rests in. -/
structure Resting where
  slot : Nat
  order : Order
  clientId : UInt64
  deriving DecidableEq, Repr

namespace Resting

/-- The resting order with `qty` taken off. -/
def reduce (r : Resting) (qty : UInt64) : Resting :=
  { r with order := { r.order with qty := r.order.qty - qty } }

/-- The entry of the order index for a resting order. -/
def entry (r : Resting) : FastIndexEntry where
  orderId := r.order.id
  clientOrderId := r.order.clientOrderId
  userId := r.order.userId
  price := r.order.price
  nodeIdx := r.slot
  side := r.order.side
  occupied := true

/-- The key of the client index for a resting order. -/
def clientKey (r : Resting) : UInt64 × UInt64 := (r.order.userId, r.order.clientOrderId)

@[simp]
theorem slot_reduce (r : Resting) (qty : UInt64) :
  (r.reduce qty).slot = r.slot
  := rfl

@[simp]
theorem entry_reduce (r : Resting) (qty : UInt64) :
  (r.reduce qty).entry = r.entry
  := rfl

@[simp]
theorem price_reduce (r : Resting) (qty : UInt64) :
  (r.reduce qty).order.price = r.order.price
  := rfl

end Resting

/-- A price level, the slot of the level arena it occupies, and its queue. -/
structure Level where
  slot : Nat
  price : UInt64
  totalQty : UInt64
  queue : List Resting
  deriving DecidableEq, Repr

/-- The slots of the orders of a level. -/
def Level.orderSlots (l : Level) : List Nat := l.queue.map (·.slot)

/-- The orders of a list of levels, best price first and oldest first. -/
def restingOf (ls : List Level) : List Resting := ls.flatMap (·.queue)

@[simp]
theorem restingOf_nil :
  restingOf [] = []
  := rfl

@[simp]
theorem restingOf_cons (l : Level) (ls : List Level) :
  restingOf (l :: ls) = l.queue ++ restingOf ls
  := rfl

@[simp]
theorem restingOf_append (ls ls' : List Level) :
  restingOf (ls ++ ls') = restingOf ls ++ restingOf ls'
  := List.flatMap_append

/-- An order rests in a ladder if it is in the queue of one of its levels. -/
theorem mem_restingOf {ls : List Level} {r : Resting} :
  r ∈ restingOf ls ↔ ∃ l ∈ ls, r ∈ l.queue
  := List.mem_flatMap

/-! ### Matching -/

/-- A taker meets a price of the side `s` as far as its type bounds the price at all. -/
def Order.accepts (taker : Order) (s : Side) (price : UInt64) : Bool :=
  !(taker.kind == .limit && s.before taker.price price)
    && !(taker.kind == .market && decide (0 < taker.price) && s.before taker.price price)

/-- The side of the book an order trades with. -/
def Order.takesFrom (o : Order) : Side := o.bookSide.opposite

/-- The order with `qty` taken off. -/
def Order.reduce (o : Order) (qty : UInt64) : Order := { o with qty := o.qty - qty }

/-- What a taker does to a list of orders: what is left of both, the orders it has
completely filled, its trades, and whether it has met an order of its own user. -/
structure Fills where
  taker : Order
  left : List Resting
  filled : List Resting
  trades : List Trade
  nextId : UInt64
  stp : Bool
  deriving DecidableEq, Repr

/-- Match a taker against the orders of a list, as long as it accepts their prices. -/
def matchOrders (accepts : UInt64 → Bool) (takerClientId : UInt64) :
    Order → UInt64 → List Resting → Fills
  | taker, nextId, [] => ⟨taker, [], [], [], nextId, false⟩
  | taker, nextId, r :: rs =>
      if taker.qty = 0 ∨ accepts r.order.price = false then
        ⟨taker, r :: rs, [], [], nextId, false⟩
      else if r.order.userId = taker.userId then
        ⟨taker, r :: rs, [], [], nextId, true⟩
      else
        let qty := min taker.qty r.order.qty
        let trade := OrderBook.tradeOf nextId r.order taker r.clientId takerClientId qty
        if r.order.qty - qty = 0 then
          let m := matchOrders accepts takerClientId (taker.reduce qty) (nextId + 1) rs
          { m with filled := r :: m.filled, trades := trade :: m.trades }
        else
          ⟨taker.reduce qty, r.reduce qty :: rs, [], [trade], nextId + 1, false⟩

/-- A taker loses quantity and nothing else. -/
theorem taker_matchOrders (accepts : UInt64 → Bool) (takerClientId : UInt64) (taker : Order)
    (nextId : UInt64) (rs : List Resting) :
  (matchOrders accepts takerClientId taker nextId rs).taker
    = { taker with qty := (matchOrders accepts takerClientId taker nextId rs).taker.qty }
  := by
  induction rs generalizing taker nextId with
  | nil => rfl
  | cons r rs ih =>
      rw [matchOrders]
      split
      · rfl
      split
      · rfl
      dsimp only
      split
      · rw [ih]
        rfl
      · rfl

/-- A taker that accepts every price stops for lack of orders, for lack of quantity, or at
an order of its own user. -/
theorem matchOrders_stops (takerClientId : UInt64) (taker : Order) (nextId : UInt64)
    (rs : List Resting) :
  (matchOrders (fun _ => true) takerClientId taker nextId rs).left = []
      ∧ (matchOrders (fun _ => true) takerClientId taker nextId rs).stp = false
    ∨ (matchOrders (fun _ => true) takerClientId taker nextId rs).left ≠ []
      ∧ ((matchOrders (fun _ => true) takerClientId taker nextId rs).stp = true
        ∨ (matchOrders (fun _ => true) takerClientId taker nextId rs).taker.qty = 0)
  := by
  induction rs generalizing taker nextId with
  | nil => exact Or.inl ⟨rfl, rfl⟩
  | cons r rs ih =>
      rw [matchOrders]
      split
      · next hqty => exact Or.inr ⟨List.cons_ne_nil _ _, Or.inr (by simpa using hqty)⟩
      split
      · exact Or.inr ⟨List.cons_ne_nil _ _, Or.inl rfl⟩
      dsimp only
      split
      · apply ih
      · next hne =>
          refine Or.inr ⟨List.cons_ne_nil _ _, Or.inr ?_⟩
          rw [← UInt64.toNat_inj] at hne ⊢
          rw [UInt64.toNat_sub_min'] at hne
          rw [Order.reduce, UInt64.toNat_sub_min]
          simp only [UInt64.toNat_zero] at *
          omega

/-- What a taker does to a ladder.  `emptied` are the slots of the levels it has emptied. -/
structure LadderFills where
  taker : Order
  ladder : List Level
  emptied : List Nat
  filled : List Resting
  trades : List Trade
  nextId : UInt64
  stp : Bool
  deriving DecidableEq, Repr

/-- The level after a taker of quantity `qty` has been through its queue. -/
def Level.matched (l : Level) (qty : UInt64) (m : Fills) : Level :=
  { l with queue := m.left, totalQty := l.totalQty - (qty - m.taker.qty) }

/-- Match a taker against the levels of a ladder. -/
def matchLadder (accepts : UInt64 → Bool) (takerClientId : UInt64) :
    Order → UInt64 → List Level → LadderFills
  | taker, nextId, [] => ⟨taker, [], [], [], [], nextId, false⟩
  | taker, nextId, l :: ls =>
      if taker.qty = 0 ∨ accepts l.price = false then
        ⟨taker, l :: ls, [], [], [], nextId, false⟩
      else
        let m := matchOrders (fun _ => true) takerClientId taker nextId l.queue
        if m.left = [] then
          let m' := matchLadder accepts takerClientId m.taker m.nextId ls
          { m' with
            emptied := l.slot :: m'.emptied
            filled := m.filled ++ m'.filled
            trades := m.trades ++ m'.trades }
        else
          ⟨m.taker, l.matched taker.qty m :: ls, [], m.filled, m.trades, m.nextId, m.stp⟩

/-- A taker loses quantity and nothing else on a whole ladder. -/
theorem taker_matchLadder (accepts : UInt64 → Bool) (takerClientId : UInt64) (taker : Order)
    (nextId : UInt64) (ls : List Level) :
  (matchLadder accepts takerClientId taker nextId ls).taker
    = { taker with qty := (matchLadder accepts takerClientId taker nextId ls).taker.qty }
  := by
  induction ls generalizing taker nextId with
  | nil => rfl
  | cons l ls ih =>
      have htaker := taker_matchOrders (fun _ => true) takerClientId taker nextId l.queue
      have hqty : ∀ t : Order, t = { taker with qty := t.qty } →
          ∀ qty, { t with qty := qty } = { taker with qty := qty } := by
        intro t ht qty
        rw [ht]
      rw [matchLadder]
      split
      · rfl
      dsimp only
      split
      · dsimp only
        rw [ih]
        apply hqty _ htaker
      · apply htaker

/-! ### Resting -/

/-- Append an order to the queue of a level. -/
def Level.push (l : Level) (r : Resting) : Level :=
  { l with queue := l.queue ++ [r], totalQty := l.totalQty + r.order.qty }

/-- The empty level of a price. -/
def Level.empty (slot : Nat) (price : UInt64) : Level where
  slot := slot
  price := price
  totalQty := 0
  queue := []

/-- Append an order at its price, in a new level in slot `levelSlot` if the ladder has none
of this price. -/
def restLadder (s : Side) (r : Resting) (levelSlot : Nat) : List Level → List Level
  | [] => [(Level.empty levelSlot r.order.price).push r]
  | l :: ls =>
      if l.price = r.order.price then
        l.push r :: ls
      else if s.before r.order.price l.price then
        (Level.empty levelSlot r.order.price).push r :: l :: ls
      else
        l :: restLadder s r levelSlot ls

/-! ### Layouts -/

structure Layout where
  ladder : Side → List Level
  /-- the slots allocated and never linked -/
  lostOrders : List Nat
  freeOrders : List Nat
  freeLevels : List Nat
  orderIndex : UInt64 → Option FastIndexEntry
  clientIndex : UInt64 → UInt64 → Option UInt64
  tradeIdCounter : UInt64
  orderIdCounter : UInt64

namespace Layout

/-- The layout of a new book. -/
def new : Layout where
  ladder _ := []
  lostOrders := []
  freeOrders := List.range MAX_ARENA_ORDERS
  freeLevels := List.range MAX_PRICE_LEVELS
  orderIndex _ := none
  clientIndex _ _ := none
  tradeIdCounter := 1
  orderIdCounter := 1

/-- The levels on either ladder. -/
def levels (L : Layout) : List Level := L.ladder .buy ++ L.ladder .sell

/-- The orders resting on a side. -/
def resting (L : Layout) (s : Side) : List Resting := restingOf (L.ladder s)

/-- A level is in the book if it is in one of its ladders. -/
theorem mem_levels {L : Layout} {l : Level} :
  l ∈ L.levels ↔ ∃ s, l ∈ L.ladder s
  := by
  simp only [levels, List.mem_append]
  constructor
  · rintro (h | h)
    · use .buy
    · use .sell
  · rintro ⟨_ | _, h⟩
    · apply Or.inl h
    · apply Or.inr h

/-- The layout after a taker has been through the ladder of the side `s`. -/
def matched (L : Layout) (s : Side) (m : LadderFills) : Layout :=
  { L with
    ladder := Function.update L.ladder s m.ladder
    freeOrders := (m.filled.map (·.slot)).reverse ++ L.freeOrders
    freeLevels := m.emptied.reverse ++ L.freeLevels
    orderIndex := fun k => if k ∈ m.filled.map (·.order.id) then none else L.orderIndex k
    clientIndex := fun u c =>
      if (u, c) ∈ m.filled.map Resting.clientKey then none else L.clientIndex u c
    tradeIdCounter := m.nextId }

/-- Two takers, one after the other. -/
theorem matched_matched (L : Layout) (s : Side) (m m' : LadderFills) :
  (L.matched s m).matched s m'
    = L.matched s
        { m' with emptied := m.emptied ++ m'.emptied, filled := m.filled ++ m'.filled }
  := by
  have hor : ∀ (p q : Prop) [Decidable p] [Decidable q] {α : Type} (x : Option α),
      (if p then none else if q then none else x) = if q ∨ p then none else x := by
    intro p q _ _ α x
    by_cases hp : p <;> by_cases hq : q <;> simp [hp, hq]
  unfold matched
  simp only [Function.update_idem, List.map_append, List.reverse_append, List.append_assoc,
    List.mem_append, hor]

/-- A taker that does nothing. -/
theorem matched_self {L : Layout} {s : Side} {m : LadderFills} (hladder : m.ladder = L.ladder s)
    (hemptied : m.emptied = []) (hfilled : m.filled = []) (hid : m.nextId = L.tradeIdCounter) :
  L.matched s m = L
  := by
  simp [matched, hladder, hemptied, hfilled, hid]

/-- The layout with the order `r` at rest.  `levelSlot` is the slot of its level, if that is
a new one. -/
def put (L : Layout) (r : Resting) (levelSlot : Nat) : Layout :=
  { L with
    ladder := Function.update L.ladder r.order.bookSide
      (restLadder r.order.bookSide r levelSlot (L.ladder r.order.bookSide))
    orderIndex := fun k => if k = r.order.id then some r.entry else L.orderIndex k
    clientIndex := fun u c => if (u, c) = r.clientKey then some r.order.id else L.clientIndex u c }

/-- Rest an order in the first free slot.  Without a free level for a new price the order
slot is lost. -/
def rest (L : Layout) (o : Order) (clientId : UInt64) : Except RejectReason Unit × Layout :=
  match L.freeOrders with
  | [] => (.error .engineFull, L)
  | i :: freeOrders =>
      let r : Resting := ⟨i, o, clientId⟩
      if o.price ∈ (L.ladder o.bookSide).map (·.price) then
        (.ok (), { L with freeOrders := freeOrders }.put r 0)
      else
        match L.freeLevels with
        | [] =>
            (.error .engineFull,
              { L with freeOrders := freeOrders, lostOrders := i :: L.lostOrders })
        | j :: freeLevels =>
            (.ok (), { L with freeOrders := freeOrders, freeLevels := freeLevels }.put r j)

def stampId (L : Layout) (o : Order) : Order × Layout :=
  if o.id = 0 then
    ({ o with id := L.orderIdCounter }, { L with orderIdCounter := L.orderIdCounter + 1 })
  else
    (o, { L with orderIdCounter := max L.orderIdCounter (o.id + 1) })

/-- Process an order that is not a cancel. -/
def process (L : Layout) (order : Order) (clientId : UInt64) (trades : List Trade) :
    Except RejectReason ExecutionReport × Layout × List Trade :=
  let (o, L₀) := L.stampId order
  let s := o.takesFrom
  let m := matchLadder (o.accepts s) clientId o L₀.tradeIdCounter (L₀.ladder s)
  let L₁ := L₀.matched s m
  let report : ExecutionReport :=
    { executedQty := o.qty.saturatingSub m.taker.qty, remainingQty := m.taker.qty,
      stpTriggered := m.stp }
  if m.stp = false ∧ 0 < m.taker.qty ∧ o.kind = .limit then
    match L₁.rest m.taker clientId with
    | (.error e, L₂) => (.error e, L₂, trades ++ m.trades)
    | (.ok (), L₂) => (.ok report, L₂, trades ++ m.trades)
  else
    (.ok report, L₁, trades ++ m.trades)

/-- The index entry a cancel acts on. -/
def findEntry (L : Layout) (requestingUserId orderId : UInt64) :
    Except RejectReason FastIndexEntry :=
  match L.orderIndex orderId with
  | some e => .ok e
  | none =>
      match L.clientIndex requestingUserId orderId with
      | some exchangeId =>
          match L.orderIndex exchangeId with
          | some e => .ok e
          | none => .error .orderNotFound
      | none => .error .orderNotFound

/-- The place of a resting order: its side, its level between those above and below, and
its neighbours in the queue. -/
structure Place (L : Layout) where
  side : Side
  above : List Level
  level : Level
  below : List Level
  front : List Resting
  order : Resting
  back : List Resting
  ladder_eq : L.ladder side = above ++ level :: below
  queue_eq : level.queue = front ++ order :: back

/-- Each order at rest is at a place. -/
theorem exists_place {L : Layout} {s : Side} {r : Resting} (hr : r ∈ L.resting s) :
  ∃ pl : L.Place, pl.side = s ∧ pl.order = r
  := by
  obtain ⟨l, hl, hr⟩ := mem_restingOf.mp hr
  obtain ⟨above, below, hladder⟩ := List.append_of_mem hl
  obtain ⟨front, back, hqueue⟩ := List.append_of_mem hr
  exact ⟨⟨s, above, l, below, front, r, back, hladder, hqueue⟩, rfl, rfl⟩

theorem Place.level_mem {L : Layout} (pl : L.Place) :
  pl.level ∈ L.ladder pl.side
  := by
  simp [pl.ladder_eq]

theorem Place.order_mem {L : Layout} (pl : L.Place) :
  pl.order ∈ pl.level.queue
  := by
  simp [pl.queue_eq]

/-- The order at a place rests on its side. -/
theorem Place.mem_resting {L : Layout} (pl : L.Place) :
  pl.order ∈ L.resting pl.side
  := mem_restingOf.mpr ⟨pl.level, pl.level_mem, pl.order_mem⟩

/-- The level an order leaves behind, if any order is left in it. -/
def Place.remains {L : Layout} (pl : L.Place) : List Level :=
  if pl.front ++ pl.back = [] then
    []
  else
    [{ pl.level with
        queue := pl.front ++ pl.back
        totalQty := pl.level.totalQty.saturatingSub pl.order.order.qty }]

/-- The layout without the order at a place. -/
def remove (L : Layout) (pl : L.Place) : Layout :=
  { L with
    ladder := Function.update L.ladder pl.side (pl.above ++ pl.remains ++ pl.below)
    freeOrders := pl.order.slot :: L.freeOrders
    freeLevels :=
      if pl.front ++ pl.back = [] then pl.level.slot :: L.freeLevels else L.freeLevels
    orderIndex := fun k => if k = pl.order.order.id then none else L.orderIndex k
    clientIndex := fun u c => if (u, c) = pl.order.clientKey then none else L.clientIndex u c }

end Layout

end LimitOrderBook
