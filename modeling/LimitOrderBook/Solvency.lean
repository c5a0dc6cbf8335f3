import LimitOrderBook.Reachable
import LimitOrderBook.Trades
import LimitOrderBook.Balances

/-!
# Solvency

What is locked in the accounts is what the resting orders of the books reserve, and all funds
come from deposits and trades.
-/

namespace LimitOrderBook

/-! ### What the books reserve -/

/-- What the orders of a user on a side of a book reserve for a unit. -/
def MakerRate.held (s : Side) (u : UInt64) : MakerRate where
  order o :=
    if o.userId = u then
      match s with
      | .buy => o.price.toNat
      | .sell => 1
    else
      0
  trade t :=
    if t.makerUserId = u then
      match s with
      | .buy => t.price.toNat
      | .sell => 1
    else
      0
  order_qty _ _ := rfl
  trade_tradeOf _ _ _ _ _ _ := rfl

/-- What an order on a side reserves. -/
theorem Order.held_mul {o : Order} {sym : Fin NUM_SYMBOLS} (hsym : symIdx o.symbolId = some sym) (qty : Nat) (u : UInt64) (c : Coin) :
  (if c = o.bookSide.coin sym then (MakerRate.held o.bookSide u).order o * qty else 0)
    = o.margin qty u c
  := by
  have hrate : (MakerRate.held o.bookSide u).order o = if o.userId = u then o.rate else 0 := rfl
  unfold margin
  rw [hrate]
  simp only [hsym, Option.map_some, Option.some.injEq, eq_comm (a := c), eq_comm (a := u)]
  by_cases hu : o.userId = u
  · simp [hu]
  · simp [hu]

/-! ### Trades -/

/-- What a trade between a taker and the order of a maker says: one of the two buys and the
other sells, at the price of the maker. -/
structure Trade.Between (t : Trade) (taker maker : Order) : Prop where
  buyer_eq : t.buyerId = if taker.bookSide = .buy then taker.userId else maker.userId
  seller_eq : t.sellerId = if taker.bookSide = .buy then maker.userId else taker.userId
  maker_eq : t.makerUserId = maker.userId
  user_ne : maker.userId ≠ taker.userId
  price_eq : t.price = maker.price
  symbol_eq : t.symbolId = taker.symbolId

namespace Trade.Between

variable {t : Trade} {o maker : Order} {sym : Fin NUM_SYMBOLS} {u : UInt64} {c : Coin}

/-- The dollars of the buyer were locked at the price of the order that buys. -/
theorem lockedPrice_eq (h : t.Between o maker) :
  t.lockedPrice o.price = if o.bookSide = .buy then o.price else maker.price
  := by
  unfold lockedPrice
  rw [h.buyer_eq, h.maker_eq, h.price_eq]
  split
  · exact if_neg h.user_ne.symm
  · exact if_pos rfl

/-- What was locked for a trade: the part of the maker, and that of the taker. -/
theorem released_eq (h : t.Between o maker) (hsym : symIdx o.symbolId = some sym) :
  t.released o.price u c
    = (if c = o.takesFrom.coin sym then (MakerRate.held o.takesFrom u).trade t * t.qty.toNat
        else 0)
      + o.margin t.qty.toNat u c
  := by
  rw [← Order.held_mul hsym]
  unfold Order.takesFrom
  cases hbook : o.bookSide with
  | buy =>
      cases c with
      | usd => simp [released, h.buyer_eq, h.lockedPrice_eq, hbook, Side.opposite, Side.coin,
          MakerRate.held, eq_comm]
      | asset s =>
          rcases eq_or_ne sym s with rfl | hs
          · simp [released, h.seller_eq, h.symbol_eq, h.maker_eq, hbook, hsym, Side.opposite,
              Side.coin, MakerRate.held, eq_comm]
          · simp [released, h.symbol_eq, hsym, Side.opposite, Side.coin, hs, hs.symm]
  | sell =>
      cases c with
      | usd => simp [released, h.buyer_eq, h.lockedPrice_eq, h.maker_eq, h.price_eq, hbook,
          Side.opposite, Side.coin, MakerRate.held, eq_comm]
      | asset s =>
          rcases eq_or_ne sym s with rfl | hs
          · simp [released, h.seller_eq, h.symbol_eq, hbook, hsym, Side.opposite, Side.coin,
              MakerRate.held, eq_comm]
          · simp [released, h.symbol_eq, hsym, Side.opposite, Side.coin, hs, hs.symm]

/-- The parties of a trade are the users of the two orders. -/
theorem among (h : t.Between o maker) {us : Finset UInt64} (huser : o.userId ∈ us)
    (hmaker : maker.userId ∈ us) :
  Ledger.Among t.transfers us
  := by
  have hparties : t.buyerId ∈ us ∧ t.sellerId ∈ us := by
    rw [h.buyer_eq, h.seller_eq]
    split
    · exact ⟨huser, hmaker⟩
    · exact ⟨hmaker, huser⟩
  intro move hmove
  unfold transfers at hmove
  rcases List.mem_cons.mp hmove with rfl | hmove
  · exact hparties
  · obtain ⟨s, -, rfl⟩ := List.mem_map.mp hmove
    exact hparties.symm

end Trade.Between

namespace Layout

variable {L L' : Layout} {sym : Fin NUM_SYMBOLS} {o : Order} {u : UInt64} {c : Coin}

/-- What a ladder of the book of `sym` reserves for a user. -/
def reservedOn (L : Layout) (sym : Fin NUM_SYMBOLS) (u : UInt64) (c : Coin) (s : Side) : Nat :=
  if c = s.coin sym then (MakerRate.held s u).resting (L.resting s) else 0

/-- What the book of `sym` reserves for a user. -/
def reserved (L : Layout) (sym : Fin NUM_SYMBOLS) (u : UInt64) (c : Coin) : Nat :=
  L.reservedOn sym u c .buy + L.reservedOn sym u c .sell

theorem reserved_eq (L : Layout) (sym : Fin NUM_SYMBOLS) (u : UInt64) (c : Coin) (s : Side) :
  L.reserved sym u c = L.reservedOn sym u c s + L.reservedOn sym u c s.opposite
  := by
  cases s with
  | buy => rfl
  | sell => apply Nat.add_comm

theorem reserved_congr (h : L'.ladder = L.ladder) (sym : Fin NUM_SYMBOLS) (u : UInt64) (c : Coin) :
  L'.reserved sym u c = L.reserved sym u c
  := by
  unfold reserved reservedOn resting
  rw [h]

/-- One ladder changes. -/
theorem reserved_of_update {s : Side} {ls : List Level}
    (h : L'.ladder = Function.update L.ladder s ls) :
  L'.reserved sym u c
    = (if c = s.coin sym then (MakerRate.held s u).resting (restingOf ls) else 0)
      + L.reservedOn sym u c s.opposite
  := by
  rw [reserved_eq _ _ _ _ s]
  unfold reservedOn resting
  rw [h, Function.update_self, Function.update_of_ne s.opposite_ne]

theorem reserved_put (hw : L.WellFormed) (r : Resting) (j : Nat)
    (hsym : symIdx r.order.symbolId = some sym) :
  (L.put r j).reserved sym u c
    = L.reserved sym u c + r.order.margin r.order.qty.toNat u c
  := by
  have hL' : (L.put r j).ladder = Function.update L.ladder r.order.bookSide
      (restLadder r.order.bookSide r j (L.ladder r.order.bookSide)) := rfl
  have hput := (MakerRate.held r.order.bookSide u).resting_perm
    (perm_restLadder (r := r) j (hw.sorted r.order.bookSide))
  rw [reserved_of_update hL', hput, reserved_eq L sym u c r.order.bookSide, ← Order.held_mul hsym,
    MakerRate.resting_cons]
  unfold reservedOn resting
  split <;> omega

theorem reserved_remove (pl : L.Place) (hside : pl.order.order.bookSide = pl.side)
    (hsym : symIdx pl.order.order.symbolId = some sym) :
  L.reserved sym u c
    = (L.remove pl).reserved sym u c + pl.order.order.margin pl.order.order.qty.toNat u c
  := by
  have hL' : (L.remove pl).ladder
      = Function.update L.ladder pl.side (pl.above ++ pl.remains ++ pl.below) := rfl
  have hremove := (MakerRate.held pl.side u).resting_perm (WellFormed.perm_remove pl)
  rw [reserved_of_update hL', reserved_eq L sym u c pl.side, ← Order.held_mul hsym, hside]
  unfold reservedOn
  rw [hremove, MakerRate.resting_cons]
  split <;> omega

/-- What was locked for the trades of a taker: the part of the makers, and that of the taker. -/
theorem releases_eq {R : MakerRate} {p : Prop} [Decidable p] {ts : List Trade}
    (hts : ∀ t ∈ ts, t.released o.price u c
      = (if p then R.trade t * t.qty.toNat else 0) + o.margin t.qty.toNat u c) :
  releases ts o.price u c = (if p then R.traded ts else 0) + o.margin (tradedQty ts) u c
  := by
  induction ts with
  | nil => simp [releases]
  | cons t ts ih =>
      have hreleases : releases (t :: ts) o.price u c
          = t.released o.price u c + releases ts o.price u c := rfl
      rw [hreleases, hts t List.mem_cons_self, ih fun t' ht' => hts t' (List.mem_cons_of_mem _ ht'),
        MakerRate.traded_cons, tradedQty_cons, Order.margin_add]
      split <;> omega

/-- A trade of a taker is with an order that rests, at a price the taker accepts. -/
theorem between_of_mem_fills (hw : L.WellFormed) (hside : o.getSide = some o.bookSide)
    (clientId : UInt64) {t : Trade} (ht : t ∈ (L.fills o clientId).trades) :
  ∃ r ∈ L.resting o.takesFrom, t.Between o r.order ∧ o.accepts o.takesFrom r.order.price
  := by
  have hbyte := Order.side_of_getSide hside
  obtain ⟨r, hr, id, qty, taker, htaker, rfl, huser, haccepts⟩ := hw.mem_trades_fills o clientId ht
  have hparties : taker.side = Side.buy.toByte ↔ o.bookSide = .buy := by
    rw [htaker]
    apply Order.side_eq_iff hside .buy
  refine ⟨r, hr, ⟨?_, ?_, rfl, huser, rfl, ?_⟩, haccepts⟩
  · rw [OrderBook.tradeOf]
    simp only [hparties]
    rw [htaker]
  · rw [OrderBook.tradeOf]
    simp only [hparties]
    rw [htaker]
  · rw [OrderBook.tradeOf, htaker]

theorem releases_fills (hw : L.WellFormed) (hside : o.getSide = some o.bookSide)
    (hsym : symIdx o.symbolId = some sym) (clientId : UInt64) :
  releases (L.fills o clientId).trades o.price u c
    = (if c = o.takesFrom.coin sym then
        (MakerRate.held o.takesFrom u).traded (L.fills o clientId).trades else 0)
      + o.margin (tradedQty (L.fills o clientId).trades) u c
  := by
  apply releases_eq
  intro t ht
  obtain ⟨r, -, hbetween, -⟩ := between_of_mem_fills hw hside clientId ht
  apply hbetween.released_eq hsym

/-- Matching releases what it takes off the books and what the taker trades. -/
theorem reserved_taken (hw : L.WellFormed) (hside : o.getSide = some o.bookSide)
    (hsym : symIdx o.symbolId = some sym) (clientId : UInt64) :
  L.reserved sym u c + o.margin o.qty.toNat u c
    = (L.taken o clientId).reserved sym u c + releases (L.fills o clientId).trades o.price u c
      + o.margin (L.fills o clientId).taker.qty.toNat u c
  := by
  have hL' : (L.taken o clientId).ladder
      = Function.update L.ladder o.takesFrom (L.fills o clientId).ladder := rfl
  have hmakers := hw.resting_fills o clientId (MakerRate.held o.takesFrom u)
  have htaker := hw.tradedQty_fills o clientId
  rw [reserved_of_update hL', reserved_eq L sym u c o.takesFrom, releases_fills hw hside hsym,
    ← htaker, Order.margin_add]
  unfold reservedOn
  rw [hmakers]
  split <;> omega

/-- The trades of a taker are between users whose orders rest and the user of the taker. -/
theorem among_fills (hw : L.WellFormed) (hside : o.getSide = some o.bookSide) (clientId : UInt64)
    {us : Finset UInt64} (hresting : ∀ s, ∀ r ∈ L.resting s, r.order.userId ∈ us)
    (huser : o.userId ∈ us) :
  Ledger.Among (transfers (L.fills o clientId).trades) us
  := by
  intro move hmove
  obtain ⟨t, ht, hmove⟩ := List.mem_flatMap.mp hmove
  obtain ⟨r, hr, hbetween, -⟩ := between_of_mem_fills hw hside clientId ht
  exact hbetween.among huser (hresting _ r hr) move hmove

/-- A taker that buys trades at no price above its own. -/
theorem price_le_of_mem_fills (hw : L.WellFormed) (hside : o.getSide = some o.bookSide)
    (clientId : UInt64) (hprice : o.bookSide = .buy → ∀ p, o.accepts o.takesFrom p → p ≤ o.price)
    (hbuy : o.bookSide = .buy) {t : Trade} (ht : t ∈ (L.fills o clientId).trades) :
  t.price ≤ o.price
  := by
  obtain ⟨r, -, hbetween, haccepts⟩ := between_of_mem_fills hw hside clientId ht
  rw [hbetween.price_eq]
  apply hprice hbuy _ haccepts

/-- A buyer pays at most what was locked, and all amounts are words. -/
theorem fits_fills (hw : L.WellFormed) (hside : o.getSide = some o.bookSide)
    (hsym : symIdx o.symbolId = some sym) (clientId : UInt64)
    (hprice : o.bookSide = .buy → ∀ p, o.accepts o.takesFrom p → p ≤ o.price)
    (hrate : o.rate * o.qty.toNat < 2 ^ 64) (hreserved : ∀ u, L.reserved sym u .usd < 2 ^ 64)
    {t : Trade} (ht : t ∈ (L.fills o clientId).trades) :
  t.Fits o.price ∧ t.price ≤ t.lockedPrice o.price
  := by
  obtain ⟨r, -, hbetween, haccepts⟩ := between_of_mem_fills hw hside clientId ht
  have hsymbol : ∃ sym, symIdx t.symbolId = some sym := ⟨sym, by rw [hbetween.symbol_eq, hsym]⟩
  have hle : t.price ≤ t.lockedPrice o.price := by
    rw [hbetween.lockedPrice_eq, hbetween.price_eq]
    split
    · next hbuy => apply hprice hbuy _ haccepts
    · apply UInt64.le_refl
  have hlocked : (t.lockedPrice o.price).toNat * t.qty.toNat < 2 ^ 64 := by
    by_cases hbuy : o.bookSide = .buy
    · -- the taker buys, and has locked its whole quantity
      have hqty := qty_le_tradedQty ht
      have htraded := hw.tradedQty_fills o clientId
      rw [Order.rate, hbuy] at hrate
      rw [hbetween.lockedPrice_eq, if_pos hbuy]
      apply lt_of_le_of_lt (Nat.mul_le_mul_left _ _) hrate
      omega
    · -- the maker buys, and the book reserves what it has locked
      have htaken := reserved_taken (u := t.buyerId) (c := .usd) hw hside hsym clientId
      have hone := released_le_releases ht o.price t.buyerId .usd
      have hmargin : o.margin o.qty.toNat t.buyerId .usd = 0 := by
        have hsell : o.bookSide = .sell := by
          cases hbook : o.bookSide with
          | buy => exact absurd hbook hbuy
          | sell => rfl
        simp [Order.margin, hsym, hsell, Side.coin]
      rw [Trade.released, if_pos rfl] at hone
      have hlt := hreserved t.buyerId
      omega
  refine ⟨⟨hsymbol, hlocked, lt_of_le_of_lt ?_ hlocked⟩, hle⟩
  exact Nat.mul_le_mul_right _ (UInt64.le_iff_toNat_le.mp hle)

end Layout

/-- The quantity of an order that has been processed whose margin the loop gives back. -/
def Order.returned (o : Order) : Except RejectReason ExecutionReport → Nat
  | .ok report =>
      if report.stpTriggered ∨ o.kind = .market then report.remainingQty.toNat else 0
  | .error _ => o.qty.toNat

/-- The taker buys at its cap, or its margin is unlocked and not refunded. -/
def Order.PaysCap (o : Order) (ts : List Trade) (stp : Bool) : Prop :=
  o.kind = .market → o.bookSide = .buy → stp = false → tradedCost ts = o.rate * tradedQty ts

/-- What the loop gives back of the margin of an order once its trades are settled. -/
def Order.refunded (o : Order) (ts : List Trade) (res : Except RejectReason ExecutionReport)
    (u : UInt64) (c : Coin) : Nat :=
  match res with
  | .ok report =>
      if o.kind = .market ∧ o.bookSide = .buy ∧ report.stpTriggered = false then
        if u = o.userId ∧ c = .usd then o.rate * o.qty.toNat - tradedCost ts else 0
      else
        o.margin (o.returned res) u c
  | .error _ => o.margin (o.returned res) u c

/-- A taker that pays its cap is given back the margin of what it has not traded. -/
theorem Order.PaysCap.refunded_eq {o : Order} {ts : List Trade} {report : ExecutionReport}
    {sym : Fin NUM_SYMBOLS} (h : o.PaysCap ts report.stpTriggered)
    (hsym : symIdx o.symbolId = some sym)
    (hqty : tradedQty ts + report.remainingQty.toNat = o.qty.toNat) :
  o.refunded ts (.ok report) = o.margin (o.returned (.ok report))
  := by
  funext u c
  unfold refunded
  dsimp only
  split
  · next hbuy =>
      obtain ⟨hmarket, hbook, hstp⟩ := hbuy
      have hreturned : o.returned (.ok report) = report.remainingQty.toNat :=
        if_pos (Or.inr hmarket)
      rw [h hmarket hbook hstp, ← hqty, Nat.mul_add, Nat.add_sub_cancel_left, hreturned, margin,
        hsym, hbook]
      simp [Side.coin, eq_comm]
  · rfl

section Refunded

variable {o : Order} {ts : List Trade} {report : ExecutionReport}

theorem Order.refunded_of_stp (hstp : report.stpTriggered = true) :
  o.refunded ts (.ok report) = o.margin report.remainingQty.toNat
  := by
  have hreturned : o.returned (.ok report) = report.remainingQty.toNat := if_pos (Or.inl hstp)
  funext u c
  rw [refunded, hreturned, if_neg (by simp [hstp])]

theorem Order.refunded_of_buy (hkind : o.kind = .market) (hbook : o.bookSide = .buy)
    (hstp : report.stpTriggered = false) :
  o.refunded ts (.ok report)
    = fun u c => if u = o.userId ∧ c = .usd then o.rate * o.qty.toNat - tradedCost ts else 0
  := by
  funext u c
  rw [refunded, if_pos ⟨hkind, hbook, hstp⟩]

theorem Order.refunded_of_sell (hkind : o.kind = .market) (hbook : o.bookSide = .sell) :
  o.refunded ts (.ok report) = o.margin report.remainingQty.toNat
  := by
  have hreturned : o.returned (.ok report) = report.remainingQty.toNat := if_pos (Or.inr hkind)
  funext u c
  rw [refunded, hreturned, if_neg (by simp [hbook])]

theorem Order.refunded_of_rest (hkind : o.kind ≠ .market) (hstp : report.stpTriggered = false) :
  o.refunded ts (.ok report) = 0
  := by
  have hreturned : o.returned (.ok report) = 0 := if_neg (by simp [hstp, hkind])
  funext u c
  rw [refunded, hreturned, if_neg (fun h => hkind h.1), margin_zero]

end Refunded

/-- What is left of an order that is processed and does not come to rest is given back. -/
theorem Layout.returned_of_not_rests {L : Layout} {o : Order} {clientId : UInt64}
    (hkind : o.kind = .limit ∨ o.kind = .market) (hrests : ¬ L.Rests o clientId) :
  o.returned (.ok (L.report o clientId)) = (L.fills o clientId).taker.qty.toNat
  := by
  unfold Order.returned
  dsimp only [Layout.report]
  split
  · rfl
  next hdone =>
  rw [not_or, Bool.not_eq_true] at hdone
  obtain ⟨hstp, hmarket⟩ := hdone
  have hqty : (L.fills o clientId).taker.qty = 0 := by
    by_contra hne
    exact hrests ⟨hstp, UInt64.ne_zero_iff_pos.mp hne, hkind.resolve_right hmarket⟩
  rw [hqty, UInt64.toNat_zero]

/-- Processing an order releases what it takes off the books and what the taker trades; what
does not come to rest of the order is given back. -/
theorem Layout.reserved_process {L : Layout} {o : Order} {sym : Fin NUM_SYMBOLS} {u : UInt64}
    {c : Coin} (hw : L.WellFormed) (hside : o.getSide = some o.bookSide)
    (hsym : symIdx o.symbolId = some sym) (hkind : o.kind = .limit ∨ o.kind = .market)
    (clientId : UInt64) :
  L.reserved sym u c + o.margin o.qty.toNat u c
    = (L.process o clientId []).2.1.reserved sym u c
      + releases (L.process o clientId []).2.2 o.price u c
      + o.margin (o.returned (L.process o clientId []).1) u c
  := by
  have hprocessed := L.process_cases o clientId []
  have htaken := reserved_taken (u := u) (c := c) hw hside hsym clientId
  rw [trades_process, List.nil_append]
  generalize (L.process o clientId []).2.1 = L' at hprocessed
  cases hres : (L.process o clientId []).1 with
  | error e =>
      rw [hres] at hprocessed
      obtain ⟨-, -, -, hladder, -⟩ := hprocessed.of_error hw
      rw [fills_trades_of_error hw hres, reserved_congr hladder]
      rfl
  | ok report =>
      rw [hres] at hprocessed
      rcases hprocessed.put_or hw with
        ⟨hladder, hreport⟩ | ⟨⟨hstp, hqty, hlimit⟩, hreport, i, j, L₁, hw₁, hladder, rfl⟩
      · obtain ⟨rfl, hrests⟩ := hreport report rfl
        rw [reserved_congr hladder, returned_of_not_rests hkind hrests, htaken]
      · obtain rfl := Except.ok.inj hreport
        have hreturned : o.returned (.ok (L.report o clientId)) = 0 := by
          rw [Order.returned, if_neg]
          simp [Layout.report, hstp, hlimit]
        have hmargin : (L.fills o clientId).taker.margin = o.margin := by
          rw [taker_fills]
          rfl
        have hsym' : symIdx (L.fills o clientId).taker.symbolId = some sym := by
          rw [taker_fills]
          apply hsym
        rw [reserved_put hw₁ _ _ hsym', reserved_congr hladder, hreturned, hmargin, htaken,
          Order.margin_zero]
        dsimp only [Pi.zero_apply]
        omega

/-! ### Settling a report -/

namespace RiskEngine

variable {o : Order} {sym : Fin NUM_SYMBOLS} {ts : List Trade}

theorem settleTrades_qty (r : RiskEngine) (ts : List Trade) (price : UInt64) :
  (r.settleTrades ts price).2.1 = UInt64.ofNat (tradedQty ts)
  := by
  have hfoldl : ∀ n : UInt64,
      ts.foldl (fun n trade => n + trade.qty) n = n + UInt64.ofNat (tradedQty ts) := by
    induction ts with
    | nil => simp
    | cons t ts ih =>
        intro n
        rw [List.foldl_cons, ih, tradedQty_cons, UInt64.ofNat_add, UInt64.ofNat_toNat,
          UInt64.add_assoc]
  rw [settleTrades_eq]
  dsimp only
  rw [hfoldl, UInt64.zero_add]

theorem settleTrades_cost (r : RiskEngine) {ts : List Trade} {price : UInt64}
    (hts : ∀ t ∈ ts, t.Fits price) :
  (r.settleTrades ts price).2.2 = UInt64.ofNat (tradedCost ts)
  := by
  have hfoldl : ∀ n : UInt64,
      ts.foldl (fun n trade => n + trade.price.saturatingMul trade.qty) n
        = n + UInt64.ofNat (tradedCost ts) := by
    induction ts with
    | nil => simp
    | cons t ts ih =>
        intro n
        have hcost : UInt64.ofNat (t.price.toNat * t.qty.toNat) = t.price.saturatingMul t.qty := by
          rw [← UInt64.toNat_saturatingMul_of_lt (hts t List.mem_cons_self).cost_lt,
            UInt64.ofNat_toNat]
        rw [List.foldl_cons, ih fun t' ht' => hts t' (List.mem_cons_of_mem _ ht'),
          tradedCost_cons, UInt64.ofNat_add, hcost, UInt64.add_assoc]
  rw [settleTrades_eq]
  dsimp only
  rw [hfoldl, UInt64.zero_add]

/-- A market order that buys is refunded what it has not spent of its cap. -/
theorem releases_refund_buy (r : RiskEngine) (u : UInt64) {symbolId : UInt16}
    (hsym : symIdx symbolId = some sym) (price qty executed cost : UInt64) :
  r.Releases (r.refundMarketOrderRemainder u symbolId .buy price qty executed cost)
    (fun v c => if v = u ∧ c = .usd then (price.saturatingMul qty).toNat - cost.toNat else 0)
    fun v c => if v = u ∧ c = .usd then (price.saturatingMul qty).toNat - cost.toNat else 0
  := by
  unfold refundMarketOrderRemainder
  rw [hsym]
  dsimp only
  generalize price.saturatingMul qty = budget
  have hsurplus : (fun v c => if v = u ∧ c = Coin.usd then budget.toNat - cost.toNat else 0)
      = fun v c => if v = u ∧ c = .usd then (budget.saturatingSub cost).toNat else 0 := by
    simp only [UInt64.toNat_saturatingSub]
  have hunlock : (fun a : Account =>
      if cost < budget then
        { a with
          usdLocked := a.usdLocked.saturatingSub (budget - cost)
          usdAvailable := a.usdAvailable + (budget - cost) }
      else a) = (·.unlockUsd (budget.saturatingSub cost)) := by
    funext a
    split
    · next hlt =>
        rw [UInt64.saturatingSub_of_le (UInt64.le_of_lt hlt)]
        rfl
    · next hle =>
        have hzero : budget.saturatingSub cost = 0 := by
          rw [← UInt64.toNat_inj, UInt64.toNat_saturatingSub]
          exact Nat.sub_eq_zero_of_le (UInt64.le_iff_toNat_le.mp (UInt64.not_lt.mp hle))
        rw [hzero]
        simp [Account.unlockUsd]
  rw [hunlock, hsurplus]
  apply Releases.modifyAccount_coin
  · exact fun a c => a.available_unlockUsd _ c
  · exact fun a c => a.locked_unlockUsd _ c

/-- A market order that sells is refunded what it has not sold. -/
theorem releases_refund_sell (r : RiskEngine) (hbook : o.bookSide = .sell)
    (hsym : symIdx o.symbolId = some sym) {executed left : UInt64} (cost : UInt64)
    (hleft : o.qty.saturatingSub executed = left) :
  r.Releases (r.refundMarketOrderRemainder o.userId o.symbolId .sell o.price o.qty executed cost)
    (o.margin left.toNat) (o.margin left.toNat)
  := by
  have hrate : o.rate = 1 := by
    rw [Order.rate, hbook]
  have hmargin : o.margin left.toNat
      = fun u c => if u = o.userId ∧ c = .asset sym then left.toNat else 0 := by
    funext u c
    rw [Order.margin, hsym, hbook, hrate, Nat.one_mul]
    simp [Side.coin, eq_comm]
  unfold refundMarketOrderRemainder
  rw [hsym]
  dsimp only
  rw [hleft, hmargin]
  have hzero : ¬ 0 < left → left = 0 := by
    rw [← UInt64.ne_zero_iff_pos, not_not]
    exact id
  apply Releases.modifyAccount_coin
  · intro a c
    split
    · exact a.available_unlockAsset sym left c
    · next hnone => simp [hzero hnone]
  · intro a c
    split
    · exact a.locked_unlockAsset sym left c
    · next hnone => simp [hzero hnone]

/-- Settling a report releases what was locked for the trades, and what of the order is given
back. -/
theorem releases_settleReport (r : RiskEngine) (hside : o.getSide = some o.bookSide)
    (hsym : symIdx o.symbolId = some sym) {report : ExecutionReport}
    (hfits : ∀ t ∈ ts, t.Fits o.price)
    (hqty : tradedQty ts + report.remainingQty.toNat = o.qty.toNat)
    (hrate : o.rate * o.qty.toNat < 2 ^ 64)
    (hprice : o.bookSide = .buy → ∀ t ∈ ts, t.price ≤ o.price) :
  r.Releases (MultiAssetEngine.settleReport r o report ts)
    (gains ts o.price + o.refunded ts (.ok report))
    (releases ts o.price + o.refunded ts (.ok report))
  := by
  have hsettled := r.releases_settleTrades hfits
  have hexecuted := r.settleTrades_qty ts o.price
  have hspent := r.settleTrades_cost hfits
  have hleft : o.qty.saturatingSub (UInt64.ofNat (tradedQty ts)) = report.remainingQty := by
    have hlt : tradedQty ts < 2 ^ 64 := by
      have hqty' := o.qty.toNat_lt
      omega
    rw [← UInt64.toNat_inj, UInt64.toNat_saturatingSub, UInt64.toNat_ofNat_of_lt' hlt]
    omega
  have hfits' : o.rate * report.remainingQty.toNat < 2 ^ 64 := by
    apply lt_of_le_of_lt _ hrate
    apply Nat.mul_le_mul_left
    omega
  apply hsettled.trans
  unfold MultiAssetEngine.settleReport
  dsimp only
  rw [hexecuted, hspent]
  generalize (r.settleTrades ts o.price).1 = r₁
  by_cases hstp : report.stpTriggered = true
  · have hunlock := r₁.releases_unlock hside hsym hfits'
    rw [Order.refunded_of_stp hstp, if_neg (by simp [hstp])]
    split
    · apply hunlock
    · next hnone =>
        have hzero : report.remainingQty = 0 := by
          by_contra hne
          exact hnone ⟨hstp, UInt64.ne_zero_iff_pos.mp hne⟩
        rw [hzero, UInt64.toNat_zero, Order.margin_zero]
        apply Releases.refl
  · have hno : ¬ (report.stpTriggered = true ∧ 0 < report.remainingQty) := fun h => hstp h.1
    rw [Bool.not_eq_true] at hstp
    by_cases hkind : o.kind = .market
    · rw [if_pos ⟨hkind, hstp⟩, if_neg hno, hside, Option.getD_some]
      cases hbook : o.bookSide with
      | buy =>
          have hrate' : o.rate = o.price.toNat := by
            rw [Order.rate, hbook]
          have hcost : tradedCost ts < 2 ^ 64 := by
            apply lt_of_le_of_lt (tradedCost_le (hprice hbook)) (lt_of_le_of_lt _ hrate)
            rw [hrate', ← hqty]
            exact Nat.mul_le_mul_left _ (Nat.le_add_right _ _)
          have hrefund := r₁.releases_refund_buy o.userId hsym o.price o.qty
            (UInt64.ofNat (tradedQty ts)) (UInt64.ofNat (tradedCost ts))
          rw [UInt64.toNat_ofNat_of_lt' hcost, UInt64.toNat_saturatingMul_of_lt (hrate' ▸ hrate),
            ← hrate', ← Order.refunded_of_buy hkind hbook hstp] at hrefund
          apply hrefund
      | sell =>
          rw [Order.refunded_of_sell hkind hbook]
          apply releases_refund_sell r₁ hbook hsym _ hleft
    · rw [Order.refunded_of_rest hkind hstp, if_neg (fun h => hkind h.1), if_neg hno]
      apply Releases.refl

/-- What the loop does to the accounts once the engine has answered. -/
def settled (r : RiskEngine) (o : Order) (res : Except RejectReason ExecutionReport)
    (ts : List Trade) : RiskEngine :=
  match res with
  | .ok report => MultiAssetEngine.settleReport r o report ts
  | .error _ => r.unlockCancelledOrderMargin o o.qty

/-- The loop releases what was locked for the trades of an order, and what of the order is
given back. -/
theorem releases_settled (r : RiskEngine) {L : Layout} (hw : L.WellFormed)
    (hside : o.getSide = some o.bookSide) (hsym : symIdx o.symbolId = some sym) (clientId : UInt64)
    (hfits : ∀ t ∈ (L.fills o clientId).trades, t.Fits o.price)
    (hrate : o.rate * o.qty.toNat < 2 ^ 64)
    (hprice : o.bookSide = .buy → ∀ t ∈ (L.fills o clientId).trades, t.price ≤ o.price) :
  r.Releases (r.settled o (L.process o clientId []).1 (L.process o clientId []).2.2)
    (gains (L.process o clientId []).2.2 o.price
      + o.refunded (L.process o clientId []).2.2 (L.process o clientId []).1)
    (releases (L.process o clientId []).2.2 o.price
      + o.refunded (L.process o clientId []).2.2 (L.process o clientId []).1)
  := by
  have htrades := L.trades_process o clientId []
  rw [List.nil_append] at htrades
  cases hres : (L.process o clientId []).1 with
  | ok report =>
      obtain rfl := Layout.report_of_process_ok hres
      rw [htrades]
      exact r.releases_settleReport hside hsym hfits (hw.tradedQty_fills o clientId) hrate hprice
  | error e =>
      rw [htrades, Layout.fills_trades_of_error hw hres]
      apply (r.releases_unlock hside hsym hrate).congr
      · exact (zero_add _).symm
      · exact (zero_add _).symm

end RiskEngine

/-- A processed taker that pays its cap is given back the margin of what it has not traded and
does not come to rest. -/
theorem Layout.refunded_process {L : Layout} {o : Order} {sym : Fin NUM_SYMBOLS}
    (hw : L.WellFormed) (hsym : symIdx o.symbolId = some sym) {clientId : UInt64}
    (hcap : o.PaysCap (L.fills o clientId).trades (L.fills o clientId).stp) :
  o.refunded (L.process o clientId []).2.2 (L.process o clientId []).1
    = o.margin (o.returned (L.process o clientId []).1)
  := by
  have htrades := L.trades_process o clientId []
  rw [List.nil_append] at htrades
  cases hres : (L.process o clientId []).1 with
  | ok report =>
      obtain rfl := Layout.report_of_process_ok hres
      rw [htrades]
      exact hcap.refunded_eq hsym (hw.tradedQty_fills o clientId)
  | error e => rfl

/-! ### The exchange -/

theorem Order.ne_cancel {o : Order} (hkind : o.kind = .limit ∨ o.kind = .market) :
  o.kind ≠ .cancel
  := by
  rcases hkind with hkind | hkind <;> rw [hkind] <;> decide

/-- What is locked for an order is a word. -/
theorem RiskEngine.Locked.rate_lt {r r' : RiskEngine} {o : Order} (h : r.Locked o r')
    (hside : o.getSide = some o.bookSide) :
  o.rate * o.qty.toNat < 2 ^ 64
  := by
  unfold Order.rate
  cases h with
  | buy _ _ _ hbuy _ hfits =>
      rw [(Order.side_eq_iff hside .buy).mp hbuy]
      apply hfits
  | sell _ _ _ hbuy =>
      cases hbook : o.bookSide with
      | buy => exact absurd ((Order.side_eq_iff hside .buy).mpr hbook) hbuy
      | sell =>
          rw [Nat.one_mul]
          apply UInt64.toNat_lt

/-- An order that buys has a price. -/
theorem RiskEngine.Locked.price_ne {r r' : RiskEngine} {o : Order} (h : r.Locked o r')
    (hside : o.getSide = some o.bookSide) (hbuy : o.bookSide = .buy) :
  o.price ≠ 0
  := by
  cases h with
  | buy _ _ _ _ hprice => apply hprice
  | sell _ _ _ hsell => exact absurd ((Order.side_eq_iff hside .buy).mpr hbuy) hsell

/-- An order that buys accepts no price above its own. -/
theorem Order.le_of_accepts {o : Order} (hkind : o.kind = .limit ∨ o.kind = .market)
    (hprice : o.price ≠ 0) (hbuy : o.bookSide = .buy) {p : UInt64}
    (haccepts : o.accepts o.takesFrom p) :
  p ≤ o.price
  := by
  have hpos := UInt64.ne_zero_iff_pos.mp hprice
  rw [Order.takesFrom, hbuy, Order.accepts] at haccepts
  apply UInt64.not_lt.mp
  intro hlt
  rcases hkind with hkind | hkind <;> simp [hkind, hpos, Side.opposite, Side.before, hlt] at haccepts

/-- All orders that rest once an order has been processed have a side. -/
theorem Layout.getSide_of_mem_process {L : Layout} {o : Order} {clientId : UInt64}
    (hw : L.WellFormed) (hsides : ∀ s, ∀ r ∈ L.resting s, r.order.getSide = some s)
    (hside : o.getSide = some o.bookSide) {s : Side} {r : Resting}
    (hr : r ∈ (L.process o clientId []).2.1.resting s) :
  r.order.getSide = some s
  := by
  rcases (L.process_cases o clientId []).mem_resting hw hr with
    ⟨r₀, hr₀, rfl | ⟨qty, rfl⟩⟩ | ⟨-, rfl, heq⟩
  · apply hsides s _ hr₀
  · apply hsides s r₀ hr₀
  · rw [heq, taker_fills]
    apply hside

/-- A user none of whose orders rests has nothing reserved. -/
theorem Layout.reserved_eq_zero {L : Layout} {u : UInt64}
    (h : ∀ s, ∀ r ∈ L.resting s, r.order.userId ≠ u) (sym : Fin NUM_SYMBOLS) (c : Coin) :
  L.reserved sym u c = 0
  := by
  have hresting : ∀ s, (MakerRate.held s u).resting (L.resting s) = 0 := by
    intro s
    apply List.sum_eq_zero
    intro n hn
    obtain ⟨r, hr, rfl⟩ := List.mem_map.mp hn
    have hrate : (MakerRate.held s u).order r.order = 0 := if_neg (h s r hr)
    rw [hrate, Nat.zero_mul]
  unfold reserved reservedOn
  rw [hresting, hresting]
  simp

namespace Exchange

/-- What the books reserve for a user. -/
def reserved (E : Fin NUM_SYMBOLS → Layout) (u : UInt64) (c : Coin) : Nat :=
  ∑ sym, (E sym).reserved sym u c

theorem le_reserved (E : Fin NUM_SYMBOLS → Layout) (sym : Fin NUM_SYMBOLS) (u : UInt64) (c : Coin) :
  (E sym).reserved sym u c ≤ reserved E u c
  := Finset.single_le_sum (fun i _ => Nat.zero_le ((E i).reserved i u c)) (Finset.mem_univ sym)

/-- One book changes. -/
theorem reserved_update (E : Fin NUM_SYMBOLS → Layout) (sym : Fin NUM_SYMBOLS) (L : Layout)
    (u : UInt64) (c : Coin) :
  reserved (Function.update E sym L) u c + (E sym).reserved sym u c
    = reserved E u c + L.reserved sym u c
  := by
  have hupdate : ∀ i, (Function.update E sym L i).reserved i u c
      = Function.update (fun i => (E i).reserved i u c) sym (L.reserved sym u c) i :=
    Function.apply_update (fun i (L : Layout) => L.reserved i u c) E sym L
  have hsum := Finset.add_sum_erase Finset.univ (fun i => (E i).reserved i u c)
    (Finset.mem_univ sym)
  unfold reserved
  rw [Finset.sum_congr rfl fun i _ => hupdate i, Finset.sum_update_of_mem (Finset.mem_univ sym),
    ← hsum, Finset.sdiff_singleton_eq_erase]
  omega

/-- What is locked in every account is what the books reserve for it. -/
structure Covered (s : Exchange) (E : Fin NUM_SYMBOLS → Layout) (us : Finset UInt64) : Prop where
  sound : s.Sound E
  account_iff : ∀ u, (s.risk.accounts u).isSome ↔ u ∈ us
  locked_eq : ∀ u ∈ us, ∀ c, (s.risk.locked u c).toNat = reserved E u c

/-- The books reserve what is locked, and all funds come from what there was at the start and
from the trades. -/
structure Solvent (s : Exchange) (E : Fin NUM_SYMBOLS → Layout) (us : Finset UInt64)
    (start : UInt64 → Coin → Nat) (trades : List Trade) : Prop where
  sound : s.Sound E
  sides : ∀ i side, ∀ r ∈ (E i).resting side, r.order.getSide = some side
  keeps : s.risk.Keeps us start (transfers trades)
  locked_eq : ∀ u ∈ us, ∀ c, (s.risk.locked u c).toNat = reserved E u c

/-- The state after an order whose margin is locked. -/
theorem handle_of_lock {s : Exchange} {inbound : InboundMessage}
    (hkind : inbound.order.kind ≠ .cancel) {risk : RiskEngine}
    (hlock : s.risk.lockOrderFunds inbound.order = .ok risk) {o : Order}
    (ho : o = { inbound.order with id := o.id }) {res : Except RejectReason ExecutionReport}
    {engine : MultiAssetEngine} {ts : List Trade}
    (hprocessed : s.processed inbound = (res, engine, ts)) :
  (s.handle inbound).state = ⟨engine, risk.settled o res ts⟩ ∧ (s.handle inbound).trades = ts
  := by
  have hassigned := s.assigned_eq inbound
  cases res with
  | ok report =>
      obtain ⟨hstate, -, htrades⟩ := handle_of_ok hkind hlock hprocessed
      rw [hstate, hassigned, ho]
      exact ⟨rfl, htrades⟩
  | error e =>
      obtain ⟨hstate, -, htrades⟩ := handle_of_error hkind hlock hprocessed
      rw [hstate, hassigned, ho]
      exact ⟨rfl, htrades⟩

namespace Covered

variable {s : Exchange} {E : Fin NUM_SYMBOLS → Layout} {us : Finset UInt64}

theorem user_mem (h : s.Covered E us) (i : Fin NUM_SYMBOLS) (side : Side) {r : Resting}
    (hr : r ∈ (E i).resting side) :
  r.order.userId ∈ us
  := (h.account_iff _).mp (h.sound.account i side r hr)

/-- What a book reserves is a word. -/
theorem reserved_lt (h : s.Covered E us) (sym : Fin NUM_SYMBOLS) (u : UInt64) (c : Coin) :
  (E sym).reserved sym u c < 2 ^ 64
  := by
  by_cases hu : u ∈ us
  · have hle := le_reserved E sym u c
    rw [← h.locked_eq u hu c] at hle
    exact lt_of_le_of_lt hle (UInt64.toNat_lt _)
  · rw [Layout.reserved_eq_zero]
    · decide
    · rintro side r hr rfl
      exact hu (h.user_mem sym side hr)

section

variable (h : s.Covered E us) {o : Order} {sym : Fin NUM_SYMBOLS} {risk : RiskEngine}
  (hkind : o.kind = .limit ∨ o.kind = .market) (hside : o.getSide = some o.bookSide)
  (hsym : symIdx o.symbolId = some sym) (hlock : s.risk.lockOrderFunds o = .ok risk)
  (clientId : UInt64)

include h hkind hside hlock

theorem price_le (hbuy : o.bookSide = .buy) :
  ∀ t ∈ ((E sym).fills o clientId).trades, t.price ≤ o.price
  := by
  intro t ht
  apply Layout.price_le_of_mem_fills (h.sound.layouts.wellFormed sym) hside clientId _ hbuy ht
  intro hbuy p haccepts
  have hlocked := RiskEngine.locked_of_ok (Order.ne_cancel hkind) hlock
  exact Order.le_of_accepts hkind (hlocked.price_ne hside hbuy) hbuy haccepts

include hsym

/-- A buyer pays at most what was locked, and all amounts are words. -/
theorem fits :
  ∀ t ∈ ((E sym).fills o clientId).trades,
    t.Fits o.price ∧ t.price ≤ t.lockedPrice o.price
  := by
  intro t ht
  have hlocked := RiskEngine.locked_of_ok (Order.ne_cancel hkind) hlock
  apply Layout.fits_fills (h.sound.layouts.wellFormed sym) hside hsym clientId _
    (hlocked.rate_lt hside) (fun u => h.reserved_lt sym u .usd) ht
  exact fun hbuy p haccepts =>
    Order.le_of_accepts hkind (hlocked.price_ne hside hbuy) hbuy haccepts

theorem releases_settled :
  risk.Releases
    (risk.settled o ((E sym).process o clientId []).1 ((E sym).process o clientId []).2.2)
    (gains ((E sym).process o clientId []).2.2 o.price
      + o.refunded ((E sym).process o clientId []).2.2 ((E sym).process o clientId []).1)
    (releases ((E sym).process o clientId []).2.2 o.price
      + o.refunded ((E sym).process o clientId []).2.2 ((E sym).process o clientId []).1)
  := by
  have hlocked := RiskEngine.locked_of_ok (Order.ne_cancel hkind) hlock
  apply risk.releases_settled (h.sound.layouts.wellFormed sym) hside hsym clientId
    (fun t ht => (h.fits hkind hside hsym hlock clientId t ht).1) (hlocked.rate_lt hside)
  exact fun hbuy => h.price_le hkind hside hlock clientId hbuy

/-- What the trades of an order make available, and what it is given back, is what was locked
but for what is moved. -/
theorem gain_add_paid (given : UInt64 → Coin → Nat) (u : UInt64) (c : Coin) :
  (gains ((E sym).process o clientId []).2.2 o.price + given) u c
      + Ledger.paid (transfers ((E sym).process o clientId []).2.2) u c
    = (releases ((E sym).process o clientId []).2.2 o.price + given) u c
      + Ledger.received (transfers ((E sym).process o clientId []).2.2) u c
  := by
  have htrades := (E sym).trades_process o clientId []
  have hfits := h.fits hkind hside hsym hlock clientId
  have hgains := gains_add_paid (fun t ht => (hfits t ht).2) u c
  rw [htrades, List.nil_append]
  dsimp only [Pi.add_apply]
  omega

omit hsym in
theorem among_settled :
  Ledger.Among (transfers ((E sym).process o clientId []).2.2) us
  := by
  have hlocked := RiskEngine.locked_of_ok (Order.ne_cancel hkind) hlock
  obtain ⟨a, haccount⟩ := hlocked.exists_account
  have hmem : o.userId ∈ us := (h.account_iff _).mp (by rw [haccount]; rfl)
  rw [(E sym).trades_process o clientId [], List.nil_append]
  exact Layout.among_fills (h.sound.layouts.wellFormed sym) hside clientId
    (fun side r hr => h.user_mem sym side hr) hmem

omit hlock in
/-- The books release what is traded and what does not come to rest of the order. -/
theorem reserved_settled (u : UInt64) (c : Coin) :
  reserved E u c + o.margin o.qty.toNat u c
    = reserved (Function.update E sym ((E sym).process o clientId []).2.1) u c
      + (releases ((E sym).process o clientId []).2.2 o.price
        + o.margin (o.returned ((E sym).process o clientId []).1)) u c
  := by
  have hw := h.sound.layouts.wellFormed sym
  have hbook := Layout.reserved_process (u := u) (c := c) hw hside hsym hkind clientId
  have hbooks := reserved_update E sym ((E sym).process o clientId []).2.1 u c
  dsimp only [Pi.add_apply]
  omega

end

end Covered

namespace Solvent

variable {s : Exchange} {E : Fin NUM_SYMBOLS → Layout} {us : Finset UInt64}
  {start : UInt64 → Coin → Nat} {trades : List Trade} {inbound : InboundMessage}

theorem covered (h : s.Solvent E us start trades) :
  s.Covered E us
  := ⟨h.sound, h.keeps.account_iff, h.locked_eq⟩

/-- Processing and settling an order whose margin is locked keeps the exchange solvent. -/
theorem settled (h : s.Solvent E us start trades) {o : Order} {sym : Fin NUM_SYMBOLS}
    (hkind : o.kind = .limit ∨ o.kind = .market) (hside : o.getSide = some o.bookSide)
    (hsym : symIdx o.symbolId = some sym)
    {risk : RiskEngine} (hlock : s.risk.lockOrderFunds o = .ok risk) (clientId : UInt64)
    (hcap : o.PaysCap ((E sym).fills o clientId).trades ((E sym).fills o clientId).stp)
    {engine : MultiAssetEngine}
    (hengine : engine.HasLayouts (Function.update E sym ((E sym).process o clientId []).2.1)) :
  Solvent ⟨engine, risk.settled o ((E sym).process o clientId []).1
      ((E sym).process o clientId []).2.2⟩
    (Function.update E sym ((E sym).process o clientId []).2.1) us start
    (trades ++ ((E sym).process o clientId []).2.2)
  := by
  have hcovered := h.covered
  have hw := h.sound.layouts.wellFormed sym
  have hlocked := RiskEngine.locked_of_ok (Order.ne_cancel hkind) hlock
  obtain ⟨a, haccount⟩ := hlocked.exists_account
  obtain ⟨hkeeps, hrisk⟩ := h.keeps.lock (hlocked.locks hside)
  have hreserved := hcovered.reserved_settled hkind hside hsym clientId
  have hrelease := hcovered.releases_settled hkind hside hsym hlock clientId
  rw [Layout.refunded_process hw hsym hcap] at hrelease
  obtain ⟨hkeeps', hreleased⟩ := hkeeps.release hrelease
    (hcovered.among_settled hkind hside hlock clientId)
    (hcovered.gain_add_paid hkind hside hsym hlock clientId _) fun u hu c => by
      rw [hrisk u hu c, h.locked_eq u hu c, hreserved]
      apply Nat.le_add_left
  rw [← transfers_append] at hkeeps'
  refine ⟨?_, ?_, hkeeps', ?_⟩
  · refine h.sound.processed (fun u hu => ?_) hsym (by rw [haccount]; rfl) clientId [] hengine
    exact (hkeeps'.account_iff u).mpr ((h.keeps.account_iff u).mp hu)
  · intro i side r hr
    rcases eq_or_ne i sym with rfl | hi
    · rw [Function.update_self] at hr
      exact Layout.getSide_of_mem_process hw (h.sides i) hside hr
    · rw [Function.update_of_ne hi] at hr
      exact h.sides i side r hr
  · intro u hu c
    have hafter := hreleased u hu c
    rw [hrisk u hu c, h.locked_eq u hu c, hreserved] at hafter
    exact Nat.add_right_cancel hafter

/-- Handling an order keeps the exchange solvent. -/
theorem handle_order (h : s.Solvent E us start trades)
    (hkind : inbound.order.kind = .limit ∨ inbound.order.kind = .market)
    (hside : inbound.order.getSide.isSome)
    (hmarket : inbound.order.kind = .market → inbound.order.bookSide = .sell) :
  ∃ E', (s.handle inbound).state.Solvent E' us start (trades ++ (s.handle inbound).trades)
  := by
  have hcancel := Order.ne_cancel hkind
  cases hlock : s.risk.lockOrderFunds inbound.order with
  | error reason =>
      rw [handle_of_reject hcancel hlock, List.append_nil]
      exact ⟨E, h⟩
  | ok risk =>
      obtain ⟨sym, hsym⟩ := (RiskEngine.locked_of_ok hcancel hlock).exists_sym
      obtain ⟨o, e', ho, heq, he'⟩ := processed_eq h.sound.layouts hcancel hsym
      have ho' : o = { inbound.order with id := o.id } := by
        rw [ho]
      obtain ⟨hstate, htrades⟩ := handle_of_lock hcancel hlock ho' heq
      rw [← s.risk.lockOrderFunds_congr ho'] at hlock
      rw [hstate, htrades]
      -- the order under its identifier is like the order of the message
      have hkindo : o.kind = .limit ∨ o.kind = .market := by
        rw [ho]
        apply hkind
      have hmarketo : o.kind = .market → o.bookSide = .sell := by
        rw [ho]
        apply hmarket
      have hsideo : o.getSide = some o.bookSide := by
        apply Order.getSide_eq_bookSide
        rw [ho]
        apply hside
      have hsymo : symIdx o.symbolId = some sym := by
        rw [ho]
        apply hsym
      refine ⟨_, h.settled hkindo hsideo hsymo hlock _ (fun hmarketo' hbuy => ?_) he'⟩
      rw [hmarketo hmarketo'] at hbuy
      contradiction

/-- Taking an order out of its book and unlocking its margin keeps the exchange solvent. -/
theorem removed (h : s.Solvent E us start trades) {sym : Fin NUM_SYMBOLS} (pl : (E sym).Place)
    {engine : MultiAssetEngine}
    (hengine : engine.HasLayouts (Function.update E sym ((E sym).remove pl))) :
  Solvent ⟨engine, s.risk.unlockCancelledOrderMargin pl.order.order pl.order.order.qty⟩
    (Function.update E sym ((E sym).remove pl)) us start trades
  := by
  have hr : pl.order ∈ (E sym).resting pl.side := by
    rw [(Layout.WellFormed.perm_remove pl).mem_iff]
    apply List.mem_cons_self
  have hgetSide := h.sides sym pl.side pl.order hr
  have hside := Order.getSide_eq_bookSide (by rw [hgetSide]; rfl)
  have hbook : pl.order.order.bookSide = pl.side := Option.some.inj (hside.symm.trans hgetSide)
  have hsym := h.sound.symbol_eq sym pl.side pl.order hr
  have hreserved : ∀ u c, reserved E u c
      = reserved (Function.update E sym ((E sym).remove pl)) u c
        + pl.order.order.margin pl.order.order.qty.toNat u c := by
    intro u c
    have hremove := Layout.reserved_remove (u := u) (c := c) pl hbook hsym
    have hbooks := reserved_update E sym ((E sym).remove pl) u c
    omega
  have hrate : pl.order.order.rate * pl.order.order.qty.toNat < 2 ^ 64 := by
    have hmargin : pl.order.order.margin pl.order.order.qty.toNat pl.order.order.userId
        (pl.order.order.bookSide.coin sym) = pl.order.order.rate * pl.order.order.qty.toNat := by
      rw [Order.margin, hsym]
      exact if_pos ⟨rfl, rfl⟩
    have hremove := Layout.reserved_remove (u := pl.order.order.userId)
      (c := pl.order.order.bookSide.coin sym) pl hbook hsym
    have hlt := h.covered.reserved_lt sym pl.order.order.userId (pl.order.order.bookSide.coin sym)
    omega
  have hrelease := s.risk.releases_unlock hside hsym hrate
  obtain ⟨hkeeps, hreleased⟩ := h.keeps.release hrelease (Ledger.among_nil us)
    (fun u c => rfl) fun u hu c => by
      rw [h.locked_eq u hu c, hreserved u c]
      apply Nat.le_add_left
  rw [List.append_nil] at hkeeps
  refine ⟨?_, ?_, hkeeps, ?_⟩
  · refine h.sound.removed (fun u hu => ?_) pl hengine
    exact (hkeeps.account_iff u).mpr ((h.keeps.account_iff u).mp hu)
  · intro i side r hr
    rcases eq_or_ne i sym with rfl | hi
    · rw [Function.update_self] at hr
      exact h.sides i side r (Layout.mem_resting_remove hr)
    · rw [Function.update_of_ne hi] at hr
      exact h.sides i side r hr
  · intro u hu c
    have hbefore := h.locked_eq u hu c
    have hafter := hreleased u hu c
    rw [hreserved u c] at hbefore
    dsimp only
    omega

theorem handle_cancel (h : s.Solvent E us start trades) (hkind : inbound.order.kind = .cancel) :
  ∃ E', (s.handle inbound).state.Solvent E' us start (trades ++ (s.handle inbound).trades)
  := by
  rw [Exchange.handle, if_pos hkind, handleCancel]
  rcases h.sound.layouts.cancelOrder_cases inbound.order.symbolId inbound.order.userId
    inbound.order.id with ⟨reason, heq, -⟩ | ⟨sym, pl, e', -, -, -, heq, he', -⟩
  · rw [heq]
    dsimp only
    rw [List.append_nil]
    exact ⟨E, h⟩
  · rw [heq]
    dsimp only
    rw [List.append_nil]
    exact ⟨_, h.removed pl he'⟩

end Solvent

end Exchange

/-! ### A run -/

/-- A limit order of either side, a market order that sells, or a cancel. -/
def InboundMessage.Margined (inbound : InboundMessage) : Prop :=
  inbound.order.kind = .cancel
    ∨ inbound.order.kind = .limit ∧ inbound.order.getSide.isSome
    ∨ inbound.order.kind = .market ∧ inbound.order.getSide = some .sell

namespace Exchange

variable {s : Exchange} {E : Fin NUM_SYMBOLS → Layout} {us : Finset UInt64}
  {start : UInt64 → Coin → Nat} {trades : List Trade}

theorem Solvent.handle (h : s.Solvent E us start trades) {inbound : InboundMessage}
    (hmargined : inbound.Margined) :
  ∃ E', (s.handle inbound).state.Solvent E' us start (trades ++ (s.handle inbound).trades)
  := by
  rcases hmargined with hkind | ⟨hkind, hside⟩ | ⟨hkind, hside⟩
  · apply h.handle_cancel hkind
  · apply h.handle_order (Or.inl hkind) hside
    intro hmarket
    rw [hkind] at hmarket
    contradiction
  · have hisSome : inbound.order.getSide.isSome := by
      rw [hside]
      rfl
    apply h.handle_order (Or.inr hkind) hisSome
    intro hmarket
    rw [Order.getSide_eq_bookSide hisSome] at hside
    exact Option.some.inj hside

theorem Solvent.run (h : s.Solvent E us start trades) {inbounds : List InboundMessage}
    (hmargined : ∀ inbound ∈ inbounds, inbound.Margined) :
  ∃ E', (s.run inbounds).state.Solvent E' us start (trades ++ (s.run inbounds).trades)
  := by
  induction inbounds generalizing s E trades with
  | nil =>
      rw [Exchange.run, List.append_nil]
      exact ⟨E, h⟩
  | cons inbound inbounds ih =>
      obtain ⟨E', h'⟩ := h.handle (hmargined inbound List.mem_cons_self)
      have hrest := ih h' fun m hm => hmargined m (List.mem_cons_of_mem _ hm)
      rw [List.append_assoc] at hrest
      apply hrest

end Exchange

end LimitOrderBook
