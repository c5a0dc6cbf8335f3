import LimitOrderBook.Exchange

/-!
# Routing tags

Every slot of the order arena carries the client that its order came from, by which fills are
routed.  Nothing but the routing depends on it: `untag`, which forgets it, commutes with all
operations of the arena, the book and the engine.
-/

namespace LimitOrderBook

/-! ### The arena -/

def OrderNode.untag (n : OrderNode) : OrderNode := { n with clientId := 0 }

namespace OrderArena

/-- The arena without the routing tags. -/
def untag (a : OrderArena) : OrderArena := { a with nodes := OrderNode.untag ∘ a.nodes }

variable (a : OrderArena) (i : Nat)

@[simp]
theorem nodes_untag :
  a.untag.nodes i = (a.nodes i).untag
  := rfl

theorem modify_untag {f : OrderNode → OrderNode} (hf : ∀ n, (f n).untag = f n.untag) :
  a.untag.modify i f = (a.modify i f).untag
  := by
  unfold modify untag
  dsimp only
  rw [Function.comp_update, hf]
  rfl

/-- The slot an order gets does not depend on the tag. -/
theorem allocate_untag (o : Order) (clientId : UInt64) :
  a.untag.allocate o 0 = (a.allocate o clientId).map fun res => (res.1, res.2.untag)
  := by
  unfold allocate
  by_cases hfree : a.freeHead = NULL_IDX
  · rw [if_pos hfree, if_pos (by exact hfree)]
    rfl
  · rw [if_neg hfree, if_neg (by exact hfree)]
    dsimp only [Except.map, untag]
    rw [Function.comp_update]
    rfl

theorem deallocate_untag :
  a.untag.deallocate i = (a.deallocate i).untag
  := by
  unfold deallocate
  by_cases hi : i = NULL_IDX ∨ a.capacity ≤ i
  · rw [if_pos hi, if_pos (by exact hi)]
  · rw [if_neg hi, if_neg (by exact hi), modify_untag]
    · rfl
    · exact fun n => rfl

end OrderArena

/-! ### The queue of a level -/

namespace PriceLevelNode

variable (level : PriceLevelNode) (i : Nat) (arena : OrderArena)

/-- Linking an order looks at no tag. -/
theorem pushOrder_untag :
  level.pushOrder i arena.untag
    = ((level.pushOrder i arena).1, (level.pushOrder i arena).2.untag)
  := by
  have hprev : arena.untag.modify i (fun n => { n with prev := level.tailOrder, next := NULL_IDX })
      = (arena.modify i fun n => { n with prev := level.tailOrder, next := NULL_IDX }).untag :=
    arena.modify_untag i fun n => rfl
  unfold pushOrder
  rw [hprev]
  dsimp only
  by_cases htail : level.tailOrder ≠ NULL_IDX
  · rw [if_pos htail, if_pos htail, OrderArena.modify_untag]
    · rfl
    · exact fun n => rfl
  · rw [if_neg htail, if_neg htail]
    rfl

/-- Taking the head of a queue looks at no tag. -/
theorem popOrder_untag :
  level.popOrder arena.untag
    = ((level.popOrder arena).1, (level.popOrder arena).2.1, (level.popOrder arena).2.2.untag)
  := by
  unfold popOrder
  by_cases hhead : level.headOrder = NULL_IDX
  · rw [if_pos hhead, if_pos hhead]
  rw [if_neg hhead, if_neg hhead]
  dsimp only [OrderArena.nodes_untag, OrderNode.untag]
  by_cases hnext : (arena.nodes level.headOrder).next ≠ NULL_IDX
  · rw [if_pos hnext, if_pos hnext, OrderArena.modify_untag]
    · rfl
    · exact fun n => rfl
  · rw [if_neg hnext, if_neg hnext]
    rfl

/-- Taking an order out of a queue looks at no tag. -/
theorem unlinkOrder_untag :
  level.unlinkOrder i arena.untag
    = ((level.unlinkOrder i arena).1, (level.unlinkOrder i arena).2.untag)
  := by
  unfold unlinkOrder
  dsimp only [OrderArena.nodes_untag, OrderNode.untag]
  by_cases hprev : (arena.nodes i).prev ≠ NULL_IDX
  · rw [if_pos hprev, if_pos hprev, OrderArena.modify_untag]
    · by_cases hnext : (arena.nodes i).next ≠ NULL_IDX
      · rw [if_pos hnext, if_pos hnext]
        dsimp only
        rw [OrderArena.modify_untag]
        · rfl
        · exact fun n => rfl
      · rw [if_neg hnext, if_neg hnext]
        rfl
    · exact fun n => rfl
  · rw [if_neg hprev, if_neg hprev]
    by_cases hnext : (arena.nodes i).next ≠ NULL_IDX
    · rw [if_pos hnext, if_pos hnext]
      dsimp only
      rw [OrderArena.modify_untag]
      · rfl
      · exact fun n => rfl
    · rw [if_neg hnext, if_neg hnext]
      rfl

end PriceLevelNode

/-! ### The book -/

def Trade.untag (t : Trade) : Trade := { t with makerClientId := 0, takerClientId := 0 }

namespace OrderBook

/-- The book without the routing tags. -/
def untag (b : OrderBook) : OrderBook := { b with orderArena := b.orderArena.untag }

variable (b : OrderBook)

/-- Unlinking a level does not look at the tags. -/
theorem unlinkPriceLevel_untag (i : Nat) (isSell : Bool) :
  b.untag.unlinkPriceLevel i isSell = (b.unlinkPriceLevel i isSell).untag
  := by
  unfold unlinkPriceLevel
  dsimp only [untag]
  cases isSell <;> split <;> split <;> rfl

/-- Dropping a level does not look at the tags. -/
theorem retireLevel_untag (i : Nat) (price : UInt64) (isSell : Bool) :
  b.untag.retireLevel i price isSell = (b.retireLevel i price isSell).untag
  := by
  unfold retireLevel
  rw [unlinkPriceLevel_untag]
  rfl

/-- Linking a level looks at no tag. -/
theorem linkLadder_untag (s : Side) (before : UInt64 → UInt64 → Bool) (i : Nat) :
  b.untag.linkLadder s before i = (b.linkLadder s before i).untag
  := by
  have hbest : b.untag.best s = b.best s := by
    cases s <;> rfl
  have hlevels : b.untag.levelArena = b.levelArena := rfl
  unfold linkLadder
  dsimp only
  rw [hbest, hlevels]
  by_cases hempty : b.best s = NULL_IDX
  · rw [if_pos hempty, if_pos hempty]
    cases s <;> rfl
  rw [if_neg hempty, if_neg hempty]
  split
  · cases s <;> rfl
  · -- the walk reads the levels only
    generalize While.run (walkStep b.levelArena.nodes before (b.levelArena.nodes i).price)
      MAX_PRICE_LEVELS (b.best s) = curr
    change (if (b.levelArena.nodes curr).nextLevel ≠ NULL_IDX then _ else _)
      = untag (if (b.levelArena.nodes curr).nextLevel ≠ NULL_IDX then _ else _)
    by_cases hnext : (b.levelArena.nodes curr).nextLevel ≠ NULL_IDX
    · rw [if_pos hnext, if_pos hnext]
      rfl
    · rw [if_neg hnext, if_neg hnext]
      rfl

/-- Linking a level does not look at the tags. -/
theorem linkPriceLevel_untag (i : Nat) (isSell : Bool) :
  b.untag.linkPriceLevel i isSell = (b.linkPriceLevel i isSell).untag
  := by
  cases isSell with
  | false => exact b.linkLadder_untag .buy (fun p q => p > q) i
  | true => exact b.linkLadder_untag .sell (fun p q => p < q) i

/-- Finding or making the level of a price looks at no tag. -/
theorem levelFor_untag (price : UInt64) (isSell : Bool) :
  b.untag.levelFor price isSell
    = ((b.levelFor price isSell).1, (b.levelFor price isSell).2.untag)
  := by
  unfold levelFor
  dsimp only [untag]
  cases b.priceIndex.lookup price with
  | some i => rfl
  | none =>
      dsimp only
      cases b.levelArena.allocate price with
      | error e => rfl
      | ok res =>
          dsimp only
          cases b.priceIndex.insert price res.1 with
          | error e => rfl
          | ok priceIndex =>
              dsimp only
              congr 1
              apply linkPriceLevel_untag { b with levelArena := res.2, priceIndex := priceIndex }

/-- The remainder of an order comes to rest whatever its tag. -/
theorem restOrder_untag (o : Order) (clientId : UInt64) :
  b.untag.restOrder o 0 = ((b.restOrder o clientId).1, (b.restOrder o clientId).2.untag)
  := by
  unfold restOrder
  dsimp only [untag]
  rw [OrderArena.allocate_untag _ o clientId]
  cases b.orderArena.allocate o clientId with
  | error e => rfl
  | ok res =>
      dsimp only [Except.map]
      have hlevel := levelFor_untag { b with orderArena := res.2 } o.price o.isSell
      dsimp only [untag] at hlevel
      rw [hlevel]
      cases OrderBook.levelFor { b with orderArena := res.2 } o.price o.isSell with
      | mk level b₂ =>
      cases level with
      | error e => rfl
      | ok i =>
          dsimp only
          rw [PriceLevelNode.pushOrder_untag]
          dsimp only
          split
          · rfl
          · split <;> rfl

theorem unlinkOrder_untag (i slot : Nat) (price : UInt64) (isSell : Bool) :
  (let (level, arena) := (b.untag.levelArena.nodes i).unlinkOrder slot b.untag.orderArena
    let b' :=
      { b.untag with
        levelArena := b.untag.levelArena.modify i fun _ => level
        orderArena := arena }
    if (b'.levelArena.nodes i).isEmpty then b'.retireLevel i price isSell else b')
    = untag
      (let (level, arena) := (b.levelArena.nodes i).unlinkOrder slot b.orderArena
      let b' :=
        { b with
          levelArena := b.levelArena.modify i fun _ => level
          orderArena := arena }
      if (b'.levelArena.nodes i).isEmpty then b'.retireLevel i price isSell else b')
  := by
  have hunlink : (b.untag.levelArena.nodes i).unlinkOrder slot b.untag.orderArena
      = (((b.levelArena.nodes i).unlinkOrder slot b.orderArena).1,
        ((b.levelArena.nodes i).unlinkOrder slot b.orderArena).2.untag) :=
    (b.levelArena.nodes i).unlinkOrder_untag slot b.orderArena
  rw [hunlink]
  generalize (b.levelArena.nodes i).unlinkOrder slot b.orderArena = res
  dsimp only
  rw [apply_ite untag]
  congr 1
  exact retireLevel_untag { b with levelArena := _, orderArena := res.2 } i price isSell

/-- A cancel answers the same whatever the tags. -/
theorem cancelOrder_untag (u k : UInt64) :
  b.untag.cancelOrder u k = ((b.cancelOrder u k).1, (b.cancelOrder u k).2.untag)
  := by
  have hfind : b.untag.findEntry u k = b.findEntry u k := rfl
  unfold cancelOrder
  rw [hfind]
  cases b.findEntry u k with
  | error e => rfl
  | ok entry =>
      have hfreed : ∀ b₁ : OrderBook,
          { b₁.untag with
            orderArena := b₁.untag.orderArena.deallocate entry.nodeIdx
            orderIndex := (b₁.untag.orderIndex.remove entry.orderId).2
            clientOrderIndex :=
              (b₁.untag.clientOrderIndex.remove entry.userId entry.clientOrderId).2 }
          = untag
            { b₁ with
              orderArena := b₁.orderArena.deallocate entry.nodeIdx
              orderIndex := (b₁.orderIndex.remove entry.orderId).2
              clientOrderIndex :=
                (b₁.clientOrderIndex.remove entry.userId entry.clientOrderId).2 } := by
        intro b₁
        unfold untag
        dsimp only
        rw [OrderArena.deallocate_untag]
      dsimp only
      by_cases huser : entry.userId ≠ u
      · rw [if_pos huser, if_pos huser]
      rw [if_neg huser, if_neg huser]
      by_cases hstale : (b.orderArena.nodes entry.nodeIdx).active = false
          ∨ (b.orderArena.nodes entry.nodeIdx).order.id ≠ entry.orderId
      · rw [if_pos hstale, if_pos (by exact hstale)]
        rfl
      rw [if_neg hstale, if_neg (by exact hstale)]
      refine Prod.ext rfl (Eq.trans ?_ (hfreed _))
      have hlookup : b.untag.priceIndex.lookup entry.price = b.priceIndex.lookup entry.price := rfl
      rw [hlookup]
      cases b.priceIndex.lookup entry.price with
      | none => rfl
      | some i =>
          have hunlink := b.unlinkOrder_untag i entry.nodeIdx entry.price
            (entry.side == Side.sell.toByte)
          dsimp only at hunlink ⊢
          rw [hunlink]

/-! ### Matching -/

namespace Matching

/-- The variables of the matching loops without the routing tags. -/
def untag (m : Matching) : Matching :=
  { m with book := m.book.untag, trades := m.trades.map Trade.untag }

end Matching

/-- A fill is the same whatever the tags. -/
theorem fillHead_untag (clientId : UInt64) (i : Nat) (m : Matching) :
  fillHead 0 i m.untag = (fillHead clientId i m).untag
  := by
  obtain ⟨b, o, ts, stp⟩ := m
  have hfill : ∀ (k : Nat) (q : UInt64),
      b.orderArena.untag.modify k (fun n => { n with order := { n.order with qty := n.order.qty - q } })
        = (b.orderArena.modify k
            fun n => { n with order := { n.order with qty := n.order.qty - q } }).untag :=
    fun k q => b.orderArena.modify_untag k fun n => rfl
  unfold fillHead
  dsimp only [Matching.untag, untag, OrderArena.nodes_untag, OrderNode.untag]
  simp only [hfill, PriceLevelNode.popOrder_untag, OrderArena.deallocate_untag,
    OrderArena.nodes_untag, OrderNode.untag, List.map_append, List.map_cons, List.map_nil]
  split <;> rfl

/-- The walk along a level passes the tags on and looks at none. -/
theorem matchLevel_untag (clientId : UInt64) (i : Nat) (m : Matching) :
  matchLevel 0 i m.untag = (matchLevel clientId i m).untag
  := by
  symm
  apply While.map_run Matching.untag
  intro m
  have hfill := fillHead_untag clientId i m
  unfold matchLevelStep
  rw [hfill]
  simp only [apply_ite (Option.map Matching.untag)]
  rfl

/-- A round of the loop over a ladder is the same whatever the tags. -/
theorem matchStep_untag (resting : Side) (beyond : UInt64 → UInt64 → Bool) (clientId : UInt64)
    (m : Matching) :
  matchStep resting beyond 0 m.untag = (matchStep resting beyond clientId m).map Matching.untag
  := by
  have hbest : m.untag.book.best resting = m.book.best resting := by
    cases resting <;> rfl
  have hlevel := matchLevel_untag clientId (m.book.best resting) m
  have hretire := (matchLevel clientId (m.book.best resting) m).book.retireLevel_untag
    (m.book.best resting) (m.book.levelArena.nodes (m.book.best resting)).price (resting == .sell)
  unfold matchStep
  dsimp only
  rw [hbest, hlevel]
  simp only [apply_ite (Option.map Matching.untag), Option.map_some, Matching.untag, ← hretire]
  rfl

/-- The loop over a ladder is the same whatever the tags. -/
theorem run_matchStep_untag (resting : Side) (beyond : UInt64 → UInt64 → Bool) (clientId : UInt64)
    (fuel : Nat) (m : Matching) :
  While.run (matchStep resting beyond 0) fuel m.untag
    = (While.run (matchStep resting beyond clientId) fuel m).untag
  := by
  symm
  apply While.map_run Matching.untag
  apply matchStep_untag

/-- Stamping an order does not look at the tags. -/
theorem stampId_untag (o : Order) :
  b.untag.stampId o = ((b.stampId o).1, (b.stampId o).2.untag)
  := by
  unfold stampId
  split <;> rfl

/-- An order is processed the same whatever the tags, but for the tags of its trades. -/
theorem process_untag (o : Order) (clientId : UInt64) (trades : List Trade) :
  b.untag.process o 0 (trades.map Trade.untag)
    = ((b.process o clientId trades).1, (b.process o clientId trades).2.1.untag,
      (b.process o clientId trades).2.2.map Trade.untag)
  := by
  unfold process
  by_cases hkind : o.kind = .cancel
  · rw [if_pos hkind, if_pos hkind]
    dsimp only
    rw [cancelOrder_untag]
    obtain ⟨_ | _, b'⟩ := b.cancelOrder o.userId (if o.id ≠ 0 then o.id else o.clientOrderId) <;> rfl
  rw [if_neg hkind, if_neg hkind, stampId_untag]
  obtain ⟨o, b⟩ := b.stampId o
  dsimp only
  have hmatch : ∀ m : Matching,
      (if o.isSell then matchBids 0 m.untag else matchAsks 0 m.untag)
        = (if o.isSell then matchBids clientId m else matchAsks clientId m).untag := by
    intro m
    cases o.isSell with
    | false => exact run_matchStep_untag .sell (fun best price => best > price) clientId _ m
    | true => exact run_matchStep_untag .buy (fun best price => best < price) clientId _ m
  have hstart : Matching.mk b.untag o (trades.map Trade.untag) false
      = Matching.untag ⟨b, o, trades, false⟩ := rfl
  rw [hstart, hmatch]
  generalize (if o.isSell then matchBids clientId ⟨b, o, trades, false⟩
    else matchAsks clientId ⟨b, o, trades, false⟩) = m
  dsimp only [Matching.untag]
  rw [restOrder_untag _ _ clientId]
  by_cases hstp : m.stp = true
  · simp only [hstp, if_true]
  by_cases hmarket : o.kind = .market
  · simp only [hstp, hmarket, if_true, if_false, Bool.false_eq_true]
  by_cases hrest : 0 < m.incoming.qty ∧ o.kind = .limit
  · simp only [hstp, hrest, if_true, if_false, Bool.false_eq_true, and_self]
    obtain ⟨_ | _, b'⟩ := m.book.restOrder m.incoming clientId <;> rfl
  · simp only [hstp, hmarket, hrest, if_false, Bool.false_eq_true]

end OrderBook

/-! ### The engine -/

namespace MultiAssetEngine

/-- The engine without the routing tags. -/
def untag (e : MultiAssetEngine) : MultiAssetEngine :=
  { e with books := OrderBook.untag ∘ e.books }

variable (e : MultiAssetEngine)

@[simp]
theorem books_untag (sym : Fin NUM_SYMBOLS) :
  e.untag.books sym = (e.books sym).untag
  := rfl

theorem setBook_untag (sym : Fin NUM_SYMBOLS) (b : OrderBook) :
  e.untag.setBook sym b.untag = (e.setBook sym b).untag
  := by
  unfold setBook untag
  dsimp only
  rw [Function.comp_update]

/-- A cancel does not look at the tags. -/
theorem cancelOrder_untag (symbolId : UInt16) (u k : UInt64) :
  e.untag.cancelOrder symbolId u k
    = ((e.cancelOrder symbolId u k).1, (e.cancelOrder symbolId u k).2.untag)
  := by
  unfold cancelOrder
  cases symIdx symbolId with
  | none => rfl
  | some sym =>
      dsimp only
      rw [books_untag, OrderBook.cancelOrder_untag]
      dsimp only
      rw [setBook_untag]

theorem stampId_untag (o : Order) :
  e.untag.stampId o = ((e.stampId o).1, (e.stampId o).2.untag)
  := by
  unfold stampId
  split <;> rfl

/-- The engine processes an order the same whatever the tags. -/
theorem process_untag (o : Order) (clientId : UInt64) (trades : List Trade) :
  e.untag.process o 0 (trades.map Trade.untag)
    = ((e.process o clientId trades).1, (e.process o clientId trades).2.1.untag,
      (e.process o clientId trades).2.2.map Trade.untag)
  := by
  unfold process
  cases symIdx o.symbolId with
  | none => rfl
  | some sym =>
      dsimp only
      rw [stampId_untag]
      dsimp only
      rw [books_untag, OrderBook.process_untag _ _ clientId]
      dsimp only
      rw [setBook_untag]

end MultiAssetEngine

/-! ### The accounts -/

/-- No account depends on the routing of a trade. -/
theorem RiskEngine.settleTrades_untag (r : RiskEngine) (trades : List Trade) (price : UInt64) :
  r.settleTrades (trades.map Trade.untag) price = r.settleTrades trades price
  := by
  unfold settleTrades
  rw [List.foldl_map]
  rfl

/-- The settlement of trades looks at no tag. -/
theorem MultiAssetEngine.settleReport_untag (r : RiskEngine) (o : Order) (report : ExecutionReport)
    (trades : List Trade) :
  settleReport r o report (trades.map Trade.untag) = settleReport r o report trades
  := by
  unfold settleReport
  rw [RiskEngine.settleTrades_untag]

/-! ### The exchange -/

namespace Exchange

/-- The exchange without the routing tags. -/
def untag (s : Exchange) : Exchange := { s with engine := s.engine.untag }

/-- The exchange with no orders has no tags. -/
theorem untag_new :
  new.untag = new
  := by
  have hbooks : OrderBook.untag ∘ MultiAssetEngine.new.books = MultiAssetEngine.new.books := by
    funext sym
    match sym with
    | 0 => rfl
    | 1 => rfl
    | 2 => rfl
  unfold untag MultiAssetEngine.untag new
  dsimp only
  rw [hbooks]

/-- A deposit does not look at the tags. -/
theorem deposit_untag (s : Exchange) (userId usd : UInt64) (symbolId : UInt16)
    (assetQty : UInt64) :
  s.untag.deposit userId usd symbolId assetQty = (s.deposit userId usd symbolId assetQty).untag
  := rfl

/-- A record is replayed the same whatever the tags. -/
theorem replay_untag (s : Exchange) (record : Order) :
  s.untag.replay record = (s.replay record).untag
  := by
  unfold replay MultiAssetEngine.replayOrder untag
  dsimp only
  split
  · rfl
  split
  · rfl
  split
  · rw [MultiAssetEngine.cancelOrder_untag]
    obtain ⟨_ | _, engine⟩ :=
      s.engine.cancelOrder record.symbolId record.userId record.id <;> rfl
  split
  · rfl
  · have hprocess := s.engine.process_untag record 0 []
    rw [List.map_nil] at hprocess
    rw [hprocess]
    obtain ⟨_ | _, engine, trades⟩ := s.engine.process record 0 []
    · rfl
    · dsimp only
      rw [MultiAssetEngine.settleReport_untag]

/-- A log is replayed the same whatever the tags. -/
theorem replayAll_untag (s : Exchange) (records : List Order) :
  s.untag.replayAll records = (s.replayAll records).untag
  := by
  unfold replayAll
  induction records generalizing s with
  | nil => rfl
  | cons record records ih => rw [List.foldl_cons, replay_untag, ih, List.foldl_cons]

end Exchange

end LimitOrderBook
