import LimitOrderBook.RoundTrip

/-!
# Market orders with a cap

A market order with a price trades as the limit order of that price does, and drops what the
limit order would rest.  So it leaves the book the limit order leaves when its remainder is
cancelled at once, level by level and order by order; the total of the level of its price is
that of before, if it has not overflowed meanwhile (`OrderBook.market_eq_limit`).
-/

namespace LimitOrderBook

/-- The order as a market order. -/
def Order.asMarket (o : Order) : Order := { o with orderType := OrderType.market.toByte }

namespace Order

variable {o : Order}

theorem kind_asMarket (o : Order) :
  o.asMarket.kind = .market
  := rfl

/-- A market order accepts up to its cap what the limit order accepts. -/
theorem accepts_asMarket (hkind : o.kind = .limit) (hprice : 0 < o.price) (s : Side) :
  o.asMarket.accepts s = o.accepts s
  := by
  have hcap : o.asMarket.price = o.price := rfl
  funext price
  unfold accepts
  rw [kind_asMarket, hkind, hcap, decide_eq_true hprice]
  cases s.before o.price price <;> rfl

end Order

/-! ### The type of a taker -/

/-- The type of a taker plays no part in its trades with a queue. -/
theorem matchOrders_asMarket (accepts : UInt64 → Bool) (takerClientId : UInt64) (taker : Order)
    (nextId : UInt64) (rs : List Resting) :
  matchOrders accepts takerClientId taker.asMarket nextId rs
    = (let m := matchOrders accepts takerClientId taker nextId rs
      { m with taker := m.taker.asMarket })
  := by
  induction rs generalizing taker nextId with
  | nil => rfl
  | cons r rs ih =>
      have hreduce : ∀ qty, taker.asMarket.reduce qty = (taker.reduce qty).asMarket :=
        fun _ => rfl
      have hqty : taker.asMarket.qty = taker.qty := rfl
      have huser : taker.asMarket.userId = taker.userId := rfl
      rw [matchOrders, matchOrders, hqty, huser]
      split
      · rfl
      split
      · rfl
      dsimp only
      split
      · rw [hreduce, ih]
        rfl
      · rfl

theorem matchLadder_asMarket (accepts : UInt64 → Bool) (takerClientId : UInt64) (taker : Order)
    (nextId : UInt64) (ls : List Level) :
  matchLadder accepts takerClientId taker.asMarket nextId ls
    = (let m := matchLadder accepts takerClientId taker nextId ls
      { m with taker := m.taker.asMarket })
  := by
  induction ls generalizing taker nextId with
  | nil => rfl
  | cons l ls ih =>
      have hqty : taker.asMarket.qty = taker.qty := rfl
      rw [matchLadder, matchLadder, hqty]
      split
      · rfl
      rw [matchOrders_asMarket]
      dsimp only
      split
      · rw [ih]
      · rfl

namespace Layout

variable {L : Layout} {o : Order} {clientId : UInt64}

theorem fills_asMarket (hkind : o.kind = .limit) (hprice : 0 < o.price) :
  L.fills o.asMarket clientId
    = { L.fills o clientId with taker := (L.fills o clientId).taker.asMarket }
  := by
  have hstamped : L.stamped o.asMarket = (L.stamped o).asMarket := rfl
  have hside : o.asMarket.takesFrom = o.takesFrom := rfl
  unfold fills
  rw [hstamped, hside, Order.accepts_asMarket hkind hprice, matchLadder_asMarket]

/-- A market order does to the book what the limit order does in the matching loops. -/
theorem taken_asMarket (hkind : o.kind = .limit) (hprice : 0 < o.price) :
  L.taken o.asMarket clientId = L.taken o clientId
  := by
  unfold taken
  rw [fills_asMarket hkind hprice]
  rfl

/-- A market order trades and reports what the limit order does, and nothing comes to rest. -/
theorem process_asMarket (hkind : o.kind = .limit) (hprice : 0 < o.price)
    (trades : List Trade) :
  L.process o.asMarket clientId trades
    = (.ok (L.report o clientId), L.taken o clientId, trades ++ (L.fills o clientId).trades)
  := by
  have hrests : ¬ L.Rests o.asMarket clientId := by
    rintro ⟨-, -, hlimit⟩
    rw [Order.kind_asMarket] at hlimit
    contradiction
  have hreport : L.report o.asMarket clientId = L.report o clientId := by
    unfold report
    rw [fills_asMarket hkind hprice]
    rfl
  rw [process_of_not_rests hrests, hreport, taken_asMarket hkind hprice,
    fills_asMarket hkind hprice]

/-- When an order is taken out right after it was put in, the levels hold the orders they held
before. -/
theorem booked_remove_put {L : Layout} (hw : L.WellFormed) {r : Resting} {j : Nat}
    (hw' : (L.put r j).WellFormed)
    (hnodup : ((restingOf (L.put r j).levels).map (·.slot)).Nodup) {pl : (L.put r j).Place}
    (hslot : pl.order.slot = r.slot) (s : Side) :
  (((L.put r j).remove pl).ladder s).map Level.booked = (L.ladder s).map Level.booked
  := by
  rw [ladder_remove_put hw hw' hnodup hslot]
  rcases eq_or_ne s r.order.bookSide with rfl | hs
  · rw [Function.update_self, List.map_map]
    apply List.map_congr_left
    intro l _
    rw [Function.comp_apply]
    split <;> rfl
  · rw [Function.update_of_ne hs]

end Layout

namespace OrderBook

/-! ### The remainder of the limit order -/

/-- The book once what the order `o` has rested is cancelled: `b` is before the order and `b'`
after it. -/
def cancelRest (b b' : OrderBook) (o : Order) (report : ExecutionReport) : OrderBook :=
  if report.stpTriggered = false ∧ 0 < report.remainingQty then
    (b'.cancelOrder o.userId (b.stampId o).1.id).2
  else
    b'

namespace HasLayout

variable {b b₁ b₂ : OrderBook} {L L₁ L₂ : Layout}

/-- The levels of two books hold the same orders if those of their layouts do. -/
theorem toListBook_ladder_eq (h₁ : b₁.HasLayout L₁) (h₂ : b₂.HasLayout L₂)
    (hladder : ∀ s, (L₁.ladder s).map Level.booked = (L₂.ladder s).map Level.booked) :
  b₁.toListBook.ladder = b₂.toListBook.ladder
  := by
  rw [h₁.toListBook_eq, h₂.toListBook_eq]
  funext s
  apply hladder

/-- A level whose total has room, seen from the book. -/
theorem forall_level_iff (h : b.HasLayout L) (s : Side) (price qty : UInt64) :
  (∀ i ∈ b.ladderSlots s, (b.levelArena.nodes i).price = price →
      (b.levelArena.nodes i).totalQty.toNat + qty.toNat < 2 ^ 64)
    ↔ ∀ l ∈ L.ladder s, l.price = price → l.totalQty.toNat + qty.toNat < 2 ^ 64
  := by
  rw [h.ladderSlots_eq, List.forall_mem_map]
  apply forall₂_congr
  intro l hl
  have hstored := h.stored (Layout.mem_levels.mpr ⟨s, hl⟩)
  rw [hstored.price_eq, hstored.totalQty_eq]

/-- The books a market order and its limit order leave. -/
theorem cancelRest_eq (h : b.HasLayout L) (hw : L.WellFormed) {o : Order}
    (hkind : o.kind = .limit) (hprice : 0 < o.price) (clientId : UInt64) (trades : List Trade)
    {report : ExecutionReport} (hok : (b.process o clientId trades).1 = .ok report) :
  let limit := b.process o clientId trades
  let market := b.process o.asMarket clientId trades
  let b' := b.cancelRest limit.2.1 o report
  market.1 = .ok report ∧ market.2.2 = limit.2.2
    ∧ (report.stpTriggered = false → 0 < report.remainingQty →
      (limit.2.1.cancelOrder o.userId (b.stampId o).1.id).1
        = .ok { o with id := (b.stampId o).1.id, qty := report.remainingQty })
    ∧ b'.toListBook.ladder = market.2.1.toListBook.ladder
    ∧ ((∀ s maxLevels, b'.depth s maxLevels = market.2.1.depth s maxLevels)
      ↔ (report.stpTriggered = false → 0 < report.remainingQty →
        ∀ i ∈ market.2.1.ladderSlots o.bookSide,
          (market.2.1.levelArena.nodes i).price = o.price →
          (market.2.1.levelArena.nodes i).totalQty.toNat + report.remainingQty.toNat < 2 ^ 64))
  := by
  have hlimit : o.kind ≠ .cancel := ne_of_eq_of_ne hkind (by decide)
  have hmarket : o.asMarket.kind ≠ .cancel := ne_of_eq_of_ne o.kind_asMarket (by decide)
  obtain ⟨b₁, heq₁, h₁⟩ := h.process_eq hw hlimit clientId trades
  obtain ⟨b₂, heq₂, h₂⟩ := h.process_eq hw hmarket clientId trades
  rw [heq₁] at hok
  rw [Layout.process_asMarket hkind hprice] at heq₂ h₂
  obtain rfl := Layout.report_of_process_ok hok
  have hprocessed := L.process_cases o clientId trades
  have hw' := hw.process o clientId trades
  have htrades := L.trades_process o clientId trades
  have hrests : (L.report o clientId).stpTriggered = false
      ∧ 0 < (L.report o clientId).remainingQty ↔ L.Rests o clientId := by
    unfold Layout.Rests
    simp only [hkind, and_true]
    rfl
  unfold cancelRest
  rw [heq₁, heq₂, h.stampId_id, htrades]
  dsimp only at hok ⊢
  rw [hok] at hprocessed
  generalize (L.process o clientId trades).2.1 = L' at hprocessed hw' h₁
  rcases hprocessed.put_or hw with ⟨hladder, hdone⟩ | ⟨hrest, -, i, j, L₁, hw₁, hladder, rfl⟩
  · -- nothing rests, and the books have the same ladders
    have hnot := mt hrests.mp (hdone _ rfl).2
    rw [if_neg hnot]
    refine ⟨rfl, rfl, fun hstp hqty => absurd ⟨hstp, hqty⟩ hnot, ?_, ?_⟩
    · apply h₁.toListBook_ladder_eq h₂
      intro s
      rw [hladder]
    · apply iff_of_true
      · intro s
        apply (h₂.depth_eq_iff h₁ s).mpr
        rw [hladder]
      · intro hstp hqty
        exact absurd ⟨hstp, hqty⟩ hnot
  · -- the remainder is put into the book, and taken out again
    obtain ⟨pl, b₃, hslot, hcancel, h₃⟩ := h₁.cancelOrder_put hw₁ hw'
    have hbooked := Layout.booked_remove_put hw₁ hw' h₁.nodup_slots hslot
    have hshown := Layout.shown_remove_put hw₁ hw' h₁.nodup_slots hslot
    dsimp only at hcancel hshown
    rw [L.userId_taker_fills, L.id_taker_fills] at hcancel
    rw [L.bookSide_taker_fills, L.price_taker_fills, hladder] at hshown
    rw [if_pos (hrests.mpr hrest), hcancel]
    refine ⟨rfl, rfl, fun _ _ => congrArg Except.ok (L.taker_fills o clientId), ?_, ?_⟩
    · apply h₃.toListBook_ladder_eq h₂
      intro s
      rw [hbooked, hladder]
    · rw [h₂.forall_level_iff]
      constructor
      · intro hdepth _ _
        apply hshown.mp
        intro s
        apply (h₂.depth_eq_iff h₃ s).mp (hdepth s)
      · intro hroom s
        apply (h₂.depth_eq_iff h₃ s).mpr
        apply hshown.mpr (hroom (hrests.mpr hrest).1 (hrests.mpr hrest).2)

end HasLayout

/-- A market order with a cap trades and reports what the limit order does, and leaves the book
that is left when the remainder of the limit order is cancelled: the levels hold the same
orders, and have the same totals exactly if that of the remainder's level has not overflowed. -/
theorem market_eq_limit (symbol : Symbol) (cs : List Call) {o : Order} (hkind : o.kind = .limit)
    (hprice : 0 < o.price) (clientId : UInt64) (trades : List Trade) {report : ExecutionReport}
    (hok : (((OrderBook.new symbol).calls cs).process o clientId trades).1 = .ok report) :
  let b := (OrderBook.new symbol).calls cs
  let limit := b.process o clientId trades
  let market := b.process o.asMarket clientId trades
  let b' := b.cancelRest limit.2.1 o report
  market.1 = .ok report ∧ market.2.2 = limit.2.2
    ∧ (report.stpTriggered = false → 0 < report.remainingQty →
      (limit.2.1.cancelOrder o.userId (b.stampId o).1.id).1
        = .ok { o with id := (b.stampId o).1.id, qty := report.remainingQty })
    ∧ b'.toListBook.ladder = market.2.1.toListBook.ladder
    ∧ ((∀ s maxLevels, b'.depth s maxLevels = market.2.1.depth s maxLevels)
      ↔ (report.stpTriggered = false → 0 < report.remainingQty →
        ∀ i ∈ market.2.1.ladderSlots o.bookSide,
          (market.2.1.levelArena.nodes i).price = o.price →
          (market.2.1.levelArena.nodes i).totalQty.toNat + report.remainingQty.toNat < 2 ^ 64))
  := by
  obtain ⟨L, h, hw⟩ := exists_layout symbol cs
  apply h.cancelRest_eq hw hkind hprice clientId trades hok

/-- A bid of more than the asks of `sampleCalls`: two of its ten units are left. -/
theorem market_eq_limit_sampleBid :
  let b := (OrderBook.new .btc).calls (sampleCalls.take 2)
  let o := Order.newLimit 3 9 .btc .buy 100 10
  let limit := b.process o 0 []
  let market := b.process o.asMarket 0 []
  let b' := b.cancelRest limit.2.1 o ⟨8, 2, false⟩
  market.1 = .ok ⟨8, 2, false⟩ ∧ market.2.2 = limit.2.2
    ∧ (limit.2.1.cancelOrder 9 3).1 = .ok { o with qty := 2 }
    ∧ b'.toListBook.ladder = market.2.1.toListBook.ladder
    ∧ ∀ s maxLevels, b'.depth s maxLevels = market.2.1.depth s maxLevels
  := by
  have hok : (((OrderBook.new .btc).calls (sampleCalls.take 2)).process
      (Order.newLimit 3 9 .btc .buy 100 10) 0 []).1 = .ok ⟨8, 2, false⟩ := rfl
  obtain ⟨hmarket, htrades, hcancel, hladder, hdepth⟩ :=
    market_eq_limit .btc (sampleCalls.take 2) rfl (by decide) 0 [] hok
  refine ⟨hmarket, htrades, hcancel rfl (by decide), hladder, hdepth.mpr fun _ _ => ?_⟩
  decide +kernel

/-- A bid of half of what a level can total. -/
def halfBid (id userId : UInt64) : Order :=
  Order.newLimit id userId .btc .buy 100 9223372036854775808

/-- The total of a level overflows when the second half joins it, and the cancel of that leaves
the level without quantity. -/
theorem not_depth_halfBid :
  let b := (OrderBook.new .btc).calls [.process (halfBid 1 1) 0 []]
  let limit := b.process (halfBid 2 2) 0 []
  let market := b.process (halfBid 2 2).asMarket 0 []
  ∃ report, limit.1 = .ok report
    ∧ ¬ ∀ s maxLevels, (b.cancelRest limit.2.1 (halfBid 2 2) report).depth s maxLevels
      = market.2.1.depth s maxLevels
  := by
  refine ⟨⟨0, 9223372036854775808, false⟩, rfl, fun hall => ?_⟩
  have hne : (((OrderBook.new .btc).calls [.process (halfBid 1 1) 0 []]).cancelRest
        (((OrderBook.new .btc).calls [.process (halfBid 1 1) 0 []]).process (halfBid 2 2) 0 []).2.1
        (halfBid 2 2) ⟨0, 9223372036854775808, false⟩).depth .buy 1
      ≠ (((OrderBook.new .btc).calls [.process (halfBid 1 1) 0 []]).process
        (halfBid 2 2).asMarket 0 []).2.1.depth .buy 1 := by
    decide +kernel
  exact hne (hall .buy 1)

end OrderBook

end LimitOrderBook
