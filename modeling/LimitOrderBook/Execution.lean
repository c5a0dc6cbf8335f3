import LimitOrderBook.Trades

/-!
# The execution of an order

`Execution` says what a taker does to a book: what it trades and with whom, what it leaves of
the orders it has traded with, and that it leaves the others alone.  An order that is processed
is executed so (`OrderBook.exists_execution`).
-/

namespace LimitOrderBook

/-! ### Fills -/

section

variable (accepts : UInt64 → Bool) (takerClientId : UInt64) (taker : Order) (nextId : UInt64)
  (rs : List Resting)

/-- Trades go by consecutive identifiers. -/
theorem matchIds_matchOrders :
  (matchOrders accepts takerClientId taker nextId rs).trades.map (·.matchId)
    = List.iterate (· + 1) nextId
        (matchOrders accepts takerClientId taker nextId rs).trades.length
  := by
  induction rs generalizing taker nextId with
  | nil => rfl
  | cons r rs ih =>
      rw [matchOrders]
      split
      · rfl
      split
      · rfl
      dsimp only
      split
      · rw [List.map_cons, ih, List.length_cons, List.iterate]
        rfl
      · rfl

/-- With orders of some quantity, every trade is of some quantity. -/
theorem qty_pos_of_mem_matchOrders (hpos : ∀ r ∈ rs, 0 < r.order.qty) :
  ∀ t ∈ (matchOrders accepts takerClientId taker nextId rs).trades, 0 < t.qty
  := by
  induction rs generalizing taker nextId with
  | nil => simp [matchOrders]
  | cons r rs ih =>
      have hmin := UInt64.toNat_min taker.qty r.order.qty
      have hmaker := UInt64.pos_iff_toNat_pos.mp (hpos r List.mem_cons_self)
      rw [matchOrders]
      split
      · simp
      next hstop =>
      have htaker : 0 < taker.qty := UInt64.ne_zero_iff_pos.mp fun heq => hstop (Or.inl heq)
      rw [UInt64.pos_iff_toNat_pos] at htaker
      have hhead : 0 < min taker.qty r.order.qty := by
        rw [UInt64.pos_iff_toNat_pos]
        omega
      split
      · simp
      dsimp only
      split
      · intro t ht
        rcases List.mem_cons.mp ht with rfl | ht
        · apply hhead
        · apply ih _ _ (fun r' hr' => hpos r' (List.mem_cons_of_mem r hr')) t ht
      · intro t ht
        obtain rfl := List.mem_singleton.mp ht
        apply hhead

/-- A taker meets an order of its own user if that is at the head of what it leaves, at a
price it accepts, and it has quantity left. -/
theorem stp_matchOrders_iff_head :
  (matchOrders accepts takerClientId taker nextId rs).stp = true
    ↔ 0 < (matchOrders accepts takerClientId taker nextId rs).taker.qty
      ∧ ∃ r rest, (matchOrders accepts takerClientId taker nextId rs).left = r :: rest
        ∧ accepts r.order.price = true ∧ r.order.userId = taker.userId
  := by
  induction rs generalizing taker nextId with
  | nil => simp [matchOrders]
  | cons r rs ih =>
      rw [matchOrders]
      split
      · next hstop =>
          constructor
          · intro h
            cases h
          · rintro ⟨hpos, _, _, heq, haccepts, -⟩
            obtain ⟨rfl, rfl⟩ := List.cons_eq_cons.mp heq
            exfalso
            rcases hstop with hzero | hnot
            · exact UInt64.ne_zero_iff_pos.mpr hpos hzero
            · rw [hnot] at haccepts
              contradiction
      next hstop =>
      rw [not_or, Bool.not_eq_false] at hstop
      split
      · next huser =>
          constructor
          · intro _
            exact ⟨UInt64.ne_zero_iff_pos.mp hstop.1, r, rs, rfl, hstop.2, huser⟩
          · intro _
            rfl
      dsimp only
      split
      · apply ih
      · next hne =>
          -- the taker is spent
          constructor
          · intro h
            cases h
          · rintro ⟨hpos, -⟩
            exfalso
            have hmin := UInt64.toNat_sub_min taker.qty r.order.qty
            rw [← UInt64.toNat_inj, UInt64.toNat_sub_min', UInt64.toNat_zero] at hne
            rw [UInt64.pos_iff_toNat_pos, Order.reduce] at hpos
            dsimp only at hpos
            omega

end

namespace Layout.WellFormed

variable {L : Layout} (hw : L.WellFormed) (o : Order) (clientId : UInt64)

include hw

/-- The trades take consecutive numbers from the book's counter. -/
theorem matchIds_fills :
  (L.fills o clientId).trades.map (·.matchId)
    = List.iterate (· + 1) L.tradeIdCounter (L.fills o clientId).trades.length
  := by
  have hids := matchIds_matchOrders (o.accepts o.takesFrom) clientId (L.stamped o)
    L.tradeIdCounter (L.resting o.takesFrom)
  rw [hw.fills_eq] at hids
  apply hids

/-- Every trade is of a positive quantity. -/
theorem qty_pos_of_mem_fills :
  ∀ t ∈ (L.fills o clientId).trades, 0 < t.qty
  := by
  have hpos := qty_pos_of_mem_matchOrders (o.accepts o.takesFrom) clientId (L.stamped o)
    L.tradeIdCounter (L.resting o.takesFrom) (by
      intro r hr
      obtain ⟨l, hl, hrl⟩ := mem_restingOf.mp hr
      apply hw.qty_pos _ l hl r hrl)
  rw [hw.fills_eq] at hpos
  apply hpos

/-- Self-trade prevention stops an order at a resting order of its own user that it would take. -/
theorem stp_fills_iff :
  (L.fills o clientId).stp = true
    ↔ 0 < (L.fills o clientId).taker.qty
      ∧ ∃ r rest, restingOf (L.fills o clientId).ladder = r :: rest
        ∧ o.accepts o.takesFrom r.order.price = true ∧ r.order.userId = o.userId
  := by
  have hstp := stp_matchOrders_iff_head (o.accepts o.takesFrom) clientId (L.stamped o)
    L.tradeIdCounter (L.resting o.takesFrom)
  rw [hw.fills_eq] at hstp
  apply hstp

end Layout.WellFormed

/-! ### What the makers lose -/

/-- What the order in slot `k` has traded, of trades with the orders in the slots `makers`. -/
def tradedAt (makers : List Nat) (made : List Trade) (k : Nat) : Nat :=
  tradedQty (((makers.zip made).filter fun p => p.1 = k).map (·.2))

/-- What the first maker traded, and what the others did. -/
theorem tradedAt_cons (i : Nat) (makers : List Nat) (t : Trade) (made : List Trade) (k : Nat) :
  tradedAt (i :: makers) (t :: made) k
    = (if i = k then t.qty.toNat else 0) + tradedAt makers made k
  := by
  unfold tradedAt
  rw [List.zip_cons_cons, List.filter_cons]
  split <;> simp_all

/-- Only makers trade. -/
theorem tradedAt_of_notMem {makers : List Nat} {k : Nat} (h : k ∉ makers) (made : List Trade) :
  tradedAt makers made k = 0
  := by
  induction makers generalizing made with
  | nil => rfl
  | cons i makers ih =>
      obtain ⟨hne, hmem⟩ := List.ne_and_not_mem_of_not_mem_cons h
      cases made with
      | nil => rfl
      | cons t made => rw [tradedAt_cons, if_neg hne.symm, ih hmem]

/-- What was traded in two runs of matching adds up. -/
theorem tradedAt_append {makers makers' : List Nat} {made made' : List Trade}
    (h : makers.length = made.length) (k : Nat) :
  tradedAt (makers ++ makers') (made ++ made') k
    = tradedAt makers made k + tradedAt makers' made' k
  := by
  unfold tradedAt tradedQty
  rw [List.zip_append h]
  simp

/-- A maker that has traded all of its quantity has traded that. -/
theorem tradedAt_of_whole {qty : Nat → UInt64} {makers : List Nat} {made : List Trade}
    (h : List.Forall₂ (fun i (t : Trade) => t.qty = qty i) makers made) (hnodup : makers.Nodup)
    {k : Nat} (hk : k ∈ makers) :
  tradedAt makers made k = (qty k).toNat
  := by
  induction h with
  | nil => cases hk
  | @cons i t makers made hqty _ ih =>
      obtain ⟨hi, hnodup⟩ := List.nodup_cons.mp hnodup
      rw [tradedAt_cons]
      rcases List.mem_cons.mp hk with rfl | hk
      · rw [if_pos rfl, tradedAt_of_notMem hi, hqty, Nat.add_zero]
      · rw [if_neg (ne_of_mem_of_not_mem hk hi).symm, ih hnodup hk, Nat.zero_add]

theorem exists_of_forall₂ {α β : Type*} {R : α → β → Prop} {as : List α} {bs : List β}
    (h : List.Forall₂ R as bs) {a : α} (ha : a ∈ as) :
  ∃ b ∈ bs, R a b
  := by
  induction h with
  | nil => cases ha
  | @cons a' b as bs hab _ ih =>
      rcases List.mem_cons.mp ha with rfl | ha
      · exact ⟨b, List.mem_cons_self, hab⟩
      · obtain ⟨b', hb', hab'⟩ := ih ha
        exact ⟨b', List.mem_cons_of_mem b hb', hab'⟩

/-- The order in slot `k` is left as it was. -/
structure OrderBook.Keeps (b b' : OrderBook) (s : Side) (k : Nat) : Prop where
  mem : k ∈ b'.restingSlots s
  order_eq : (b'.orderArena.nodes k).order = (b.orderArena.nodes k).order

/-- The order in slot `k` has lost the quantity `traded`, and is gone if that was all of it. -/
structure OrderBook.Reduces (b b' : OrderBook) (s : Side) (k : Nat) (traded : Nat) : Prop where
  le : traded ≤ (b.orderArena.nodes k).order.qty.toNat
  mem_iff : k ∈ b'.restingSlots s ↔ traded ≠ (b.orderArena.nodes k).order.qty.toNat
  order_eq : k ∈ b'.restingSlots s → ∃ qty,
    (b'.orderArena.nodes k).order = { (b.orderArena.nodes k).order with qty := qty }
      ∧ qty.toNat + traded = (b.orderArena.nodes k).order.qty.toNat

namespace Timed.TradedInOrder

variable {t t' : Timed} {s : Side} {made : List Trade} {makers rest : List Nat}

/-- No order makes a trade twice, and none that made one before the last is left. -/
theorem nodup (h : TradedInOrder t t' s made makers rest) :
  (makers ++ rest).Nodup
  := by
  rw [← h.segment]
  apply h.sorted.imp
  rintro i k hprior rfl
  exact hprior.asymm hprior

/-- An order that has not traded is left as it was. -/
theorem keeps (h : TradedInOrder t t' s made makers rest) {k : Nat} (hk : k ∈ rest) :
  t.book.Keeps t'.book s k
  := by
  refine ⟨?_, h.unchanged k hk⟩
  rcases h.filled with ⟨-, hslots⟩ | ⟨_, i, _, _, -, -, -, -, -, -, hslots⟩
  · rw [hslots]
    apply hk
  · rw [hslots]
    apply List.mem_cons_of_mem i hk

/-- An order is left as it was if no trade is with its user. -/
theorem keeps_of_user (h : TradedInOrder t t' s made makers rest) {k : Nat}
    (hk : k ∈ t.book.restingSlots s)
    (huser : ∀ trade ∈ made, trade.makerUserId ≠ (t.book.orderArena.nodes k).order.userId) :
  t.book.Keeps t'.book s k
  := by
  apply h.keeps
  rw [h.segment] at hk
  apply (List.mem_append.mp hk).resolve_left
  intro hmaker
  obtain ⟨trade, htrade, hwith⟩ := exists_of_forall₂ h.makers_eq hmaker
  apply huser trade htrade hwith.makerUserId

/-- The orders left on the side stand in the sequence they stood in. -/
theorem sublist (h : TradedInOrder t t' s made makers rest) :
  (t'.book.restingSlots s).Sublist (t.book.restingSlots s)
  := by
  rw [h.segment]
  rcases h.filled with ⟨-, hslots⟩ | ⟨whole, i, _, _, rfl, -, -, -, -, -, hslots⟩
  · rw [hslots]
    apply List.sublist_append_right
  · rw [hslots, List.append_assoc]
    apply List.sublist_append_right

/-- A maker's order has shrunk by exactly what it traded. -/
theorem reduces (h : TradedInOrder t t' s made makers rest)
    (hpos : ∀ k ∈ t.book.restingSlots s, 0 < (t.book.orderArena.nodes k).order.qty) {k : Nat}
    (hk : k ∈ t.book.restingSlots s) :
  t.book.Reduces t'.book s k (tradedAt makers made k)
  := by
  have hnodup := h.nodup
  have hqty := UInt64.pos_iff_toNat_pos.mp (hpos k hk)
  rw [h.segment] at hk
  obtain ⟨hmakers, -, hcross⟩ := List.nodup_append.mp hnodup
  by_cases hrest : k ∈ rest
  · -- an order behind the makers
    have hkeeps := h.keeps hrest
    have hnone : k ∉ makers := fun hmem => hcross k hmem k hrest rfl
    rw [tradedAt_of_notMem hnone]
    refine ⟨Nat.zero_le _, iff_of_true hkeeps.mem (Nat.ne_of_lt hqty), fun _ => ⟨_, ?_, rfl⟩⟩
    rw [hkeeps.order_eq]
  have hmaker : k ∈ makers := (List.mem_append.mp hk).resolve_right hrest
  rcases h.filled with
    ⟨hwhole, hslots⟩ | ⟨whole, i, made₁, trade, rfl, rfl, hwhole, hlow, hhigh, horder, hslots⟩
  · have htraded := tradedAt_of_whole hwhole hmakers hmaker
    rw [← hslots] at hrest
    refine ⟨Nat.le_of_eq htraded, iff_of_false hrest (not_not_intro htraded), fun hmem => ?_⟩
    exact absurd hmem hrest
  · obtain ⟨hwhole', -, hlast⟩ := List.nodup_append.mp hmakers
    rw [tradedAt_append hwhole.length_eq]
    rcases List.mem_append.mp hmaker with hmem | hmem
    · have htraded := tradedAt_of_whole hwhole hwhole' hmem
      have hne : k ≠ i := hlast k hmem i (List.mem_singleton_self i)
      have hgone : k ∉ t'.book.restingSlots s := by
        rw [hslots, List.mem_cons, not_or]
        exact ⟨hne, hrest⟩
      rw [tradedAt_of_notMem (fun h => hne (List.mem_singleton.mp h)), htraded]
      exact ⟨Nat.le_refl _, iff_of_false hgone (not_not_intro rfl), fun h => absurd h hgone⟩
    · -- the last maker, which is filled in part
      obtain rfl := List.mem_singleton.mp hmem
      have hnot : k ∉ whole := fun hmem => hlast k hmem k (List.mem_singleton_self k) rfl
      have hlt := UInt64.lt_iff_toNat_lt.mp hhigh
      have hmem' : k ∈ t'.book.restingSlots s := by
        rw [hslots]
        apply List.mem_cons_self
      rw [tradedAt_of_notMem hnot, tradedAt_cons, if_pos rfl, Nat.zero_add]
      refine ⟨Nat.le_of_lt hlt, iff_of_true hmem' (Nat.ne_of_lt hlt), fun _ => ⟨_, horder, ?_⟩⟩
      rw [UInt64.toNat_sub_of_le _ _ (UInt64.le_of_lt hhigh)]
      exact Nat.sub_add_cancel (Nat.le_of_lt hlt)

end Timed.TradedInOrder

/-! ### Executions -/

/-- The order `o` has traded `made`, with the orders in the slots `makers`: `b` is before and
`b'` after it. -/
structure OrderBook.Execution (b b' : OrderBook) (o : Order) (report : ExecutionReport)
    (made : List Trade) (makers : List Nat) : Prop where
  qty_eq : report.executedQty.toNat + report.remainingQty.toNat = o.qty.toNat
  executed_eq : tradedQty made = report.executedQty.toNat
  qty_pos : ∀ t ∈ made, 0 < t.qty
  matchIds_eq : made.map (·.matchId) = List.iterate (· + 1) b.tradeIdCounter made.length
  counter_eq : b'.tradeIdCounter = b.tradeIdCounter + UInt64.ofNat made.length
  /-- no trade is at a better price than one before it -/
  prices : made.Pairwise fun t t' => o.takesFrom.before t'.price t.price = false
  marketable : ∀ t ∈ made, ListBook.marketable o t.price = true
  /-- the maker is the seller of a trade with an ask, and the buyer of one with a bid -/
  parties : ∀ t ∈ made, t.takerUserId = o.userId ∧ t.makerUserId ≠ t.takerUserId
    ∧ (t.buyerId, t.sellerId) = match o.takesFrom with
      | .buy => (t.makerUserId, t.takerUserId)
      | .sell => (t.takerUserId, t.makerUserId)
  makers_eq : List.Forall₂ (fun i (t : Trade) => i ∈ b.restingSlots o.takesFrom
    ∧ t.With (b.orderArena.nodes i).order (b.orderArena.nodes i).clientId) makers made
  reduces : ∀ k ∈ b.restingSlots o.takesFrom,
    b.Reduces b' o.takesFrom k (tradedAt makers made k)
  keeps : ∀ s, ∀ k ∈ b.restingSlots s,
    s = o.bookSide ∨ (b.orderArena.nodes k).order.userId = o.userId → b.Keeps b' s k
  /-- what is left of the other side is in order, best price first -/
  sublist : (b'.restingSlots o.takesFrom).Sublist (b.restingSlots o.takesFrom)
  stp_iff : report.stpTriggered = true ↔ 0 < report.remainingQty
    ∧ ∃ k rest, b'.restingSlots o.takesFrom = k :: rest
      ∧ ListBook.marketable o (b'.orderArena.nodes k).order.price = true
      ∧ (b'.orderArena.nodes k).order.userId = o.userId

/-- Who buys and who sells, by the side of the taker. -/
theorem Order.parties_eq {o : Order} {s : Side} (hside : o.getSide = some s)
    (maker taker : UInt64) :
  (if o.side = Side.buy.toByte then taker else maker,
      if o.side = Side.buy.toByte then maker else taker)
    = match o.takesFrom with
      | .buy => (maker, taker)
      | .sell => (taker, maker)
  := by
  unfold Order.takesFrom Order.bookSide Order.isSell
  rw [Order.side_of_getSide hside]
  cases s <;> rfl

namespace Layout

variable {L L' : Layout} {o : Order} {clientId : UInt64}

/-- A processed order moves the trade counter past its trades. -/
theorem tradeIdCounter_processed {res : Except RejectReason ExecutionReport}
    (h : L.Processed o clientId res L') :
  L'.tradeIdCounter = (L.fills o clientId).nextId
  := by
  cases h <;> rfl

/-- The orders on the side of the order that is processed stay. -/
theorem Processed.mem_bookSide {res : Except RejectReason ExecutionReport}
    (h : L.Processed o clientId res L') (hw : L.WellFormed) {r : Resting}
    (hr : r ∈ L.resting o.bookSide) :
  r ∈ L'.resting o.bookSide
  := by
  have hladder := L.ladder_taken_bookSide o clientId
  unfold resting at hr ⊢
  rcases h.put_or hw with ⟨hsame, -⟩ | ⟨-, -, i, j, L₁, hw₁, hsame, rfl⟩
  · rw [hsame, hladder]
    apply hr
  · have hside := L.bookSide_taker_fills o clientId
    have hput : (L₁.put ⟨i, (L.fills o clientId).taker, clientId⟩ j).ladder o.bookSide
        = restLadder o.bookSide ⟨i, (L.fills o clientId).taker, clientId⟩ j
            (L.ladder o.bookSide) := by
      dsimp only [put]
      rw [hside, Function.update_self, hsame, hladder]
    rw [hput, (perm_restLadder j (hw.sorted _)).mem_iff]
    apply List.mem_cons_of_mem _ hr

end Layout

namespace OrderBook.HasLayout

variable {b b' : OrderBook} {L L' : Layout} {s : Side}

/-- An order in both layouts is the same order in both books. -/
theorem keeps (h : b.HasLayout L) (h' : b'.HasLayout L') {r : Resting} (hr : r ∈ L.resting s)
    (hr' : r ∈ L'.resting s) :
  b.Keeps b' s r.slot where
  mem := by
    rw [h'.restingSlots_eq]
    apply List.mem_map_of_mem hr'
  order_eq := by
    rw [(h.node_eq hr).1, (h'.node_eq hr').1]

/-- Every resting order has a positive quantity. -/
theorem qty_pos (h : b.HasLayout L) (hw : L.WellFormed) {k : Nat} (hk : k ∈ b.restingSlots s) :
  0 < (b.orderArena.nodes k).order.qty
  := by
  rw [h.restingSlots_eq] at hk
  obtain ⟨r, hr, rfl⟩ := List.mem_map.mp hk
  obtain ⟨l, hl, hrl⟩ := mem_restingOf.mp hr
  rw [(h.node_eq hr).1]
  apply hw.qty_pos _ l hl r hrl

/-- An order is stopped at an order of its own user if that is the best left that it could
trade with. -/
theorem stp_iff (h' : b'.HasLayout L') (hw : L.WellFormed) {o : Order} {clientId : UInt64}
    (hladder : L'.ladder o.takesFrom = (L.fills o clientId).ladder) :
  (L.report o clientId).stpTriggered = true ↔ 0 < (L.report o clientId).remainingQty
    ∧ ∃ k rest, b'.restingSlots o.takesFrom = k :: rest
      ∧ ListBook.marketable o (b'.orderArena.nodes k).order.price = true
      ∧ (b'.orderArena.nodes k).order.userId = o.userId
  := by
  have hleft : L'.resting o.takesFrom = restingOf (L.fills o clientId).ladder := by
    rw [Layout.resting, hladder]
  have hnode : ∀ r ∈ restingOf (L.fills o clientId).ladder,
      (b'.orderArena.nodes r.slot).order = r.order := by
    intro r hr
    rw [← hleft] at hr
    apply (h'.node_eq hr).1
  rw [h'.restingSlots_eq, hleft]
  apply (hw.stp_fills_iff o clientId).trans
  apply and_congr_right
  intro _
  constructor
  · rintro ⟨r, rest, hhead, haccepts, huser⟩
    have horder := hnode r (by rw [hhead]; exact List.mem_cons_self)
    rw [hhead]
    refine ⟨r.slot, rest.map (·.slot), rfl, ?_, ?_⟩
    · rw [horder, ListBook.marketable_eq]
      apply haccepts
    · rw [horder]
      apply huser
  · rintro ⟨k, slots, hslots, hmarketable, huser⟩
    obtain ⟨r, rest, hhead, rfl, -⟩ := List.map_eq_cons_iff.mp hslots
    have horder := hnode r (by rw [hhead]; exact List.mem_cons_self)
    rw [horder] at hmarketable huser
    rw [ListBook.marketable_eq] at hmarketable
    exact ⟨r, rest, hhead, hmarketable, huser⟩

/-- Trades with orders in order of priority never have a better price than one before. -/
theorem pairwise_prices {t : Timed} {makers : List Nat} {made : List Trade}
    (hsorted : makers.Pairwise (t.Prior s))
    (hwith : List.Forall₂ (fun i (trade : Trade) =>
      trade.With (t.book.orderArena.nodes i).order (t.book.orderArena.nodes i).clientId)
      makers made) :
  made.Pairwise fun trade trade' => s.before trade'.price trade.price = false
  := by
  have hprices : made.map (·.price)
      = makers.map fun i => (t.book.orderArena.nodes i).order.price := by
    induction hwith with
    | nil => rfl
    | cons hhead _ ih =>
        rw [List.map_cons, List.map_cons, hhead.price, ih (List.pairwise_cons.mp hsorted).2]
  have hpairs : (made.map (·.price)).Pairwise fun p q => s.before q p = false := by
    rw [hprices, List.pairwise_map]
    apply hsorted.imp
    rintro i k (hbefore | ⟨heq, -⟩)
    · apply Side.before_asymm hbefore
    · rw [heq]
      cases s <;> simp [Side.before]
  rw [List.pairwise_map] at hpairs
  apply hpairs

/-- An order of the taker's own side, and one of its own user, is left as it was. -/
theorem keeps_process {t : Timed} (h : t.book.HasLayout L) (hw : L.WellFormed) {o : Order}
    {clientId : UInt64} {trades : List Trade} {makers rest : List Nat}
    (h' : (t.call (.process o clientId trades)).book.HasLayout (L.process o clientId trades).2.1)
    (htraded : Timed.TradedInOrder t (t.call (.process o clientId trades)) o.takesFrom
      (L.fills o clientId).trades makers rest) {s' : Side} {k : Nat}
    (hk : k ∈ t.book.restingSlots s')
    (hown : s' = o.bookSide ∨ (t.book.orderArena.nodes k).order.userId = o.userId) :
  t.book.Keeps (t.call (.process o clientId trades)).book s' k
  := by
  by_cases hs : s' = o.bookSide
  · subst hs
    rw [h.restingSlots_eq] at hk
    obtain ⟨r, hr, rfl⟩ := List.mem_map.mp hk
    apply h.keeps h' hr ((L.process_cases o clientId trades).mem_bookSide hw hr)
  · -- no maker is of the user of the taker
    obtain rfl : s' = o.takesFrom := Side.eq_opposite_of_ne hs
    apply htraded.keeps_of_user hk
    intro trade htrade
    obtain ⟨r, -, id, qty, taker, -, rfl, huser, -⟩ := hw.mem_trades_fills o clientId htrade
    rw [hown.resolve_left hs]
    apply huser

/-- A processed order of a reachable book trades by price and then by time. -/
theorem execution_process {t : Timed} (h : t.book.HasLayout L) (hw : L.WellFormed)
    (ht : L.Timely t.clock t.restedAt) {o : Order} (hkind : o.kind ≠ .cancel)
    (hside : o.getSide = some s) (clientId : UInt64) (trades : List Trade)
    {report : ExecutionReport} (hok : (t.book.process o clientId trades).1 = .ok report) :
  ∃ makers, (t.book.process o clientId trades).2.2 = trades ++ (L.fills o clientId).trades
    ∧ Execution t.book (t.book.process o clientId trades).2.1 o report
      (L.fills o clientId).trades makers
  := by
  obtain ⟨makers, rest, htraded⟩ := h.tradedInOrder_call hw ht hkind clientId trades
  obtain ⟨L₁, h₁, hladder, -⟩ := h.takesFrom_process hw hkind clientId trades
  obtain ⟨b', heq, h'⟩ := h.process_eq hw hkind clientId trades
  have hbook : (t.call (.process o clientId trades)).book = b' := congrArg (·.2.1) heq
  have hcall : b' = (t.call (.process o clientId trades)).book := hbook.symm
  rw [heq] at hok ⊢
  dsimp only at hok ⊢
  subst hcall
  obtain rfl := Layout.report_of_process_ok hok
  refine ⟨makers, L.trades_process o clientId trades, ?_⟩
  have hqty := hw.tradedQty_fills o clientId
  have hexecuted : (L.report o clientId).executedQty.toNat
      = o.qty.toNat - (L.fills o clientId).taker.qty.toNat := UInt64.toNat_saturatingSub ..
  have hremaining : (L.report o clientId).remainingQty = (L.fills o clientId).taker.qty := rfl
  have hsorted := htraded.sorted
  rw [htraded.segment] at hsorted
  constructor
  · rw [hexecuted, hremaining]
    omega
  · rw [hexecuted]
    omega
  · apply hw.qty_pos_of_mem_fills
  · rw [h.tradeIdCounter_eq]
    apply hw.matchIds_fills
  · rw [h.tradeIdCounter_eq, h'.tradeIdCounter_eq, ← hw.nextId_fills]
    apply Layout.tradeIdCounter_processed (L.process_cases o clientId trades)
  · apply pairwise_prices (List.pairwise_append.mp hsorted).1 htraded.makers_eq
  · intro trade htrade
    obtain ⟨r, -, id, qty, taker, -, rfl, -, haccepts⟩ := hw.mem_trades_fills o clientId htrade
    rw [ListBook.marketable_eq]
    apply haccepts
  · intro trade htrade
    obtain ⟨r, -, id, qty, taker, htaker, rfl, huser, -⟩ := hw.mem_trades_fills o clientId htrade
    rw [htaker]
    exact ⟨rfl, huser, Order.parties_eq hside _ _⟩
  · apply (List.forall₂_and_left _ _).mpr ⟨fun i hi => ?_, htraded.makers_eq⟩
    rw [htraded.segment]
    apply List.mem_append_left _ hi
  · intro k hk
    apply htraded.reduces (fun i hi => h.qty_pos hw hi) hk
  · intro s' k hk hown
    apply h.keeps_process hw h' htraded hk hown
  · apply htraded.sublist
  · apply h₁.stp_iff hw hladder

end OrderBook.HasLayout

/-- Every order of a side that a book takes is executed. -/
theorem OrderBook.exists_execution (symbol : Symbol) (cs : List Call) {o : Order}
    (hkind : o.kind = .limit ∨ o.kind = .market) {s : Side} (hside : o.getSide = some s)
    (clientId : UInt64) (trades : List Trade) {report : ExecutionReport}
    (hok : (((OrderBook.new symbol).calls cs).process o clientId trades).1 = .ok report) :
  ∃ made makers,
    (((OrderBook.new symbol).calls cs).process o clientId trades).2.2 = trades ++ made
    ∧ Execution ((OrderBook.new symbol).calls cs)
      (((OrderBook.new symbol).calls cs).process o clientId trades).2.1 o report made makers
  := by
  obtain ⟨L, h, hw, ht⟩ := Timed.exists_timely symbol cs
  have hbook : ((Timed.new symbol).calls cs).book = (OrderBook.new symbol).calls cs :=
    Timed.book_calls (Timed.new symbol) cs
  have hkind' : o.kind ≠ .cancel := by
    rcases hkind with hkind | hkind <;> rw [hkind] <;> decide
  rw [← hbook] at h hok ⊢
  obtain ⟨makers, hmade, hexecution⟩ := h.execution_process hw ht hkind' hside clientId trades hok
  exact ⟨_, makers, hmade, hexecution⟩

/-- The third of the sample orders is executed in full against the two before it. -/
theorem OrderBook.exists_execution_sampleBid :
  ∃ made makers,
    (((OrderBook.new .btc).calls (sampleCalls.take 2)).process
      (Order.newLimit 3 9 .btc .buy 100 6) 0 []).2.2 = [] ++ made
    ∧ Execution ((OrderBook.new .btc).calls (sampleCalls.take 2))
      (((OrderBook.new .btc).calls (sampleCalls.take 2)).process
        (Order.newLimit 3 9 .btc .buy 100 6) 0 []).2.1
      (Order.newLimit 3 9 .btc .buy 100 6) ⟨6, 0, false⟩ made makers
  := exists_execution .btc (sampleCalls.take 2) (Or.inl rfl) rfl 0 [] rfl

end LimitOrderBook
