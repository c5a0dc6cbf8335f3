import LimitOrderBook.Rounds
import LimitOrderBook.Authorisation
import LimitOrderBook.MarketFlow
import LimitOrderBook.MarketSettlement

/-!
# What others cannot touch

Whatever the others send, a user who sends nothing is touched by trades alone
(`Exchange.isolated_run`): the account changes by the trades with the orders that the user has at
rest, each settled at its own price, and the orders that no trade names rest as they did.
-/

namespace LimitOrderBook

/-! ### Orders that are left alone -/

namespace MakerTest

variable (T : MakerTest)

/-- The orders on a side that pass the test, best price first and oldest first. -/
def passing (L : Layout) (s : Side) : List Resting := (L.resting s).filter fun r => T.order r.order

/-- A taker that trades with no order that passes the test leaves these orders as they are. -/
theorem filter_matchOrders (accepts : UInt64 → Bool) (takerClientId : UInt64) (taker : Order)
    (nextId : UInt64) (rs : List Resting)
    (h : ∀ t ∈ (matchOrders accepts takerClientId taker nextId rs).trades, T.trade t = false) :
  (matchOrders accepts takerClientId taker nextId rs).left.filter (fun r => T.order r.order)
    = rs.filter fun r => T.order r.order
  := by
  induction rs generalizing taker nextId with
  | nil => rfl
  | cons r rs ih =>
      rw [matchOrders] at h ⊢
      split
      · rfl
      next hstop =>
      split
      · rfl
      next huser =>
      rw [if_neg hstop, if_neg huser] at h
      dsimp only at h ⊢
      split
      · next hfilled =>
          rw [if_pos hfilled] at h
          have hr := h _ List.mem_cons_self
          rw [T.trade_tradeOf] at hr
          rw [List.filter_cons_of_neg (by simp [hr])]
          apply ih _ _ fun t ht => h t (List.mem_cons_of_mem _ ht)
      · next hfilled =>
          rw [if_neg hfilled] at h
          have hr := h _ (List.mem_singleton_self _)
          rw [T.trade_tradeOf] at hr
          have hreduced : T.order (r.reduce (min taker.qty r.order.qty)).order = false := by
            rw [Resting.reduce, T.order_qty, hr]
          rw [List.filter_cons_of_neg (by simp [hreduced]), List.filter_cons_of_neg (by simp [hr])]

/-- Resting a spared order adds nothing to what the others see. -/
theorem filter_restLadder (s : Side) {r : Resting} (j : Nat) (ls : List Level)
    (h : T.order r.order = false) :
  (restingOf (restLadder s r j ls)).filter (fun r => T.order r.order)
    = (restingOf ls).filter fun r => T.order r.order
  := by
  have hpush : ∀ l : Level, (l.push r).queue.filter (fun r => T.order r.order)
      = l.queue.filter fun r => T.order r.order := by
    intro l
    rw [Level.push, List.filter_append, List.filter_cons_of_neg (by simp [h]), List.filter_nil,
      List.append_nil]
  induction ls with
  | nil => simp [restLadder, hpush, Level.empty]
  | cons l ls ih =>
      rw [restLadder]
      split
      · rw [restingOf_cons, List.filter_append, hpush, restingOf_cons, List.filter_append]
      split
      · rw [restingOf_cons, List.filter_append, hpush]
        rfl
      · rw [restingOf_cons, List.filter_append, ih, restingOf_cons, List.filter_append]

variable {T} {L L' : Layout} {o : Order} {clientId : UInt64}

theorem passing_congr (h : L'.ladder = L.ladder) (s : Side) :
  T.passing L' s = T.passing L s
  := by
  unfold passing Layout.resting
  rw [h]

/-- Trades that spare a user leave its orders where they are. -/
theorem passing_taken (hw : L.WellFormed)
    (htrades : ∀ t ∈ (L.fills o clientId).trades, T.trade t = false) (s : Side) :
  T.passing (L.taken o clientId) s = T.passing L s
  := by
  have hladder : (L.taken o clientId).ladder
      = Function.update L.ladder o.takesFrom (L.fills o clientId).ladder := rfl
  have hfills := hw.fills_eq o clientId
  unfold passing Layout.resting
  rw [hladder]
  rcases eq_or_ne s o.takesFrom with rfl | hs
  · rw [Function.update_self]
    have hmatch := T.filter_matchOrders (o.accepts o.takesFrom) clientId (L.stamped o)
      L.tradeIdCounter (L.resting o.takesFrom)
    rw [hfills] at hmatch
    apply hmatch htrades
  · rw [Function.update_of_ne hs]

/-- Filing a spared order leaves the others where they are. -/
theorem passing_put (r : Resting) (j : Nat) (h : T.order r.order = false) (s : Side) :
  T.passing (L.put r j) s = T.passing L s
  := by
  have hladder : (L.put r j).ladder = Function.update L.ladder r.order.bookSide
      (restLadder r.order.bookSide r j (L.ladder r.order.bookSide)) := rfl
  unfold passing Layout.resting
  rw [hladder]
  rcases eq_or_ne s r.order.bookSide with rfl | hs
  · rw [Function.update_self, T.filter_restLadder _ j _ h]
  · rw [Function.update_of_ne hs]

/-- An order that does not pass the test, and that trades with none that does, leaves those that
do as they are. -/
theorem passing_process (hw : L.WellFormed) (trades : List Trade)
    (htaker : T.order (L.fills o clientId).taker = false)
    (htrades : ∀ t ∈ (L.fills o clientId).trades, T.trade t = false) (s : Side) :
  T.passing (L.process o clientId trades).2.1 s = T.passing L s
  := by
  have htaken := passing_taken hw htrades s
  rcases (L.process_cases o clientId trades).put_or hw with
    ⟨hladder, -⟩ | ⟨-, -, i, j, L₁, -, hladder, heq⟩
  · rw [passing_congr hladder, htaken]
  · rw [heq, passing_put _ j htaker, passing_congr hladder, htaken]

/-- Removing a spared order leaves the others where they are. -/
theorem passing_remove (pl : L.Place) (h : T.order pl.order.order = false) (s : Side) :
  T.passing (L.remove pl) s = T.passing L s
  := by
  unfold passing
  rcases eq_or_ne s pl.side with rfl | hs
  · rw [Layout.resting_remove, pl.resting_eq]
    simp only [List.filter_append]
    rw [List.filter_cons_of_neg (by simp [h]), List.filter_append]
  · rw [Layout.resting_remove_of_ne pl hs]

/-- The orders of a user that some trades do not name. -/
def spared (u : UInt64) (ts : List Trade) : MakerTest where
  order o := o.userId = u ∧ ∀ t ∈ ts, t.makerOrderId ≠ o.id
  trade t := t.makerUserId = u ∧ ∀ t' ∈ ts, t'.makerOrderId ≠ t.makerOrderId
  order_qty _ _ := rfl
  trade_tradeOf _ _ _ _ _ _ := rfl

theorem trade_spared {u : UInt64} {ts : List Trade} {t : Trade} (ht : t ∈ ts) :
  (spared u ts).trade t = false
  := decide_eq_false fun h => h.2 t ht rfl

theorem order_spared_of_ne {u : UInt64} {ts : List Trade} (h : o.userId ≠ u) :
  (spared u ts).order o = false
  := decide_eq_false fun hpass => h hpass.1

end MakerTest

/-! ### Accounts that are left alone -/

namespace RiskEngine

variable {r r' : RiskEngine} {u : UInt64} {t : Trade}

/-- A trade of others leaves an account as it is. -/
theorem accounts_settleTrade_of_ne (hbuyer : u ≠ t.buyerId) (hseller : u ≠ t.sellerId)
    (limit : UInt64) :
  (r.settleTrade t limit).accounts u = r.accounts u
  := by
  cases hsym : symIdx t.symbolId with
  | none => rw [settleTrade, hsym]
  | some sym =>
      rw [settleTrade_eq r hsym, accounts_modifyAccount_of_ne _ _ hseller,
        accounts_modifyAccount_of_ne _ _ hbuyer]

/-- The account of the maker of a trade is settled at the price of the trade. -/
theorem accounts_settleTrade_maker (haccounts : r.accounts u = r'.accounts u)
    (hmaker : t.makerUserId = u) (limit : UInt64) :
  (r.settleTrade t limit).accounts u = (r'.settleTrade t t.price).accounts u
  := by
  cases hsym : symIdx t.symbolId with
  | none => rw [settleTrade, settleTrade, hsym, haccounts]
  | some sym =>
      rw [settleTrade_eq r hsym, settleTrade_eq r' hsym]
      have hbought : ((r.modifyAccount t.buyerId (·.buy sym
            ((t.lockedPrice limit).saturatingMul t.qty) (t.price.saturatingMul t.qty)
            t.qty)).accounts u)
          = (r'.modifyAccount t.buyerId (·.buy sym ((t.lockedPrice t.price).saturatingMul t.qty)
            (t.price.saturatingMul t.qty) t.qty)).accounts u := by
        rcases eq_or_ne u t.buyerId with hbuyer | hbuyer
        · rw [← hbuyer, accounts_modifyAccount_self, accounts_modifyAccount_self, haccounts,
            Trade.lockedPrice, Trade.lockedPrice, ← hbuyer, hmaker, if_pos rfl, if_pos rfl]
        · rw [accounts_modifyAccount_of_ne _ _ hbuyer, accounts_modifyAccount_of_ne _ _ hbuyer,
            haccounts]
      rcases eq_or_ne u t.sellerId with hseller | hseller
      · rw [← hseller, accounts_modifyAccount_self, accounts_modifyAccount_self, hbought]
      · rw [accounts_modifyAccount_of_ne _ _ hseller, accounts_modifyAccount_of_ne _ _ hseller,
          hbought]

/-- Settle the trades with the resting orders of a user, each at its own price. -/
def settleMade (r : RiskEngine) (u : UInt64) (ts : List Trade) : RiskEngine :=
  (ts.filter fun t => t.makerUserId = u).foldl (fun r t => r.settleTrade t t.price) r

/-- A user has a part in a trade only as its maker. -/
def OnlyMakes (u : UInt64) (t : Trade) : Prop :=
  u = t.buyerId ∨ u = t.sellerId → t.makerUserId = u

/-- Trades in which a user has a part only as the maker. -/
theorem accounts_settleTrades {ts : List Trade} (hts : ∀ t ∈ ts, OnlyMakes u t)
    (haccounts : r.accounts u = r'.accounts u) (limit : UInt64) :
  (ts.foldl (fun r t => r.settleTrade t limit) r).accounts u = (r'.settleMade u ts).accounts u
  := by
  unfold settleMade
  induction ts generalizing r r' with
  | nil => apply haccounts
  | cons t ts ih =>
      have hrest := fun t' ht' => hts t' (List.mem_cons_of_mem t ht')
      rw [List.foldl_cons]
      by_cases hmaker : t.makerUserId = u
      · rw [List.filter_cons_of_pos (by simp [hmaker]), List.foldl_cons]
        apply ih hrest (accounts_settleTrade_maker haccounts hmaker limit)
      · rw [List.filter_cons_of_neg (by simp [hmaker])]
        apply ih hrest
        have hparty : ¬ (u = t.buyerId ∨ u = t.sellerId) :=
          fun h => hmaker (hts t List.mem_cons_self h)
        rw [accounts_settleTrade_of_ne (fun h => hparty (Or.inl h)) fun h => hparty (Or.inr h)]
        apply haccounts

/-- A market order of another user leaves an account as it is. -/
theorem accounts_refundMarketOrderRemainder_of_ne (r : RiskEngine) {v : UInt64} (hu : u ≠ v)
    (symbolId : UInt16) (side : Side) (price qty executed cost : UInt64) :
  (r.refundMarketOrderRemainder v symbolId side price qty executed cost).accounts u = r.accounts u
  := by
  unfold refundMarketOrderRemainder
  split
  · rfl
  · apply accounts_modifyAccount_of_ne _ _ hu

/-- What follows an order of another user. -/
theorem accounts_settleReport {o : Order} (hu : u ≠ o.userId) {ts : List Trade}
    (hts : ∀ t ∈ ts, OnlyMakes u t) (haccounts : r.accounts u = r'.accounts u)
    (report : ExecutionReport) :
  (MultiAssetEngine.settleReport r o report ts).accounts u = (r'.settleMade u ts).accounts u
  := by
  have hsettled := accounts_settleTrades hts haccounts o.price
  unfold MultiAssetEngine.settleReport
  rw [settleTrades_eq]
  dsimp only
  have hunlocked : ∀ risk : RiskEngine, (if report.stpTriggered ∧ 0 < report.remainingQty then
      risk.unlockCancelledOrderMargin o report.remainingQty else risk).accounts u
        = risk.accounts u := by
    intro risk
    split
    · rw [unlockCancelledOrderMargin, accounts_unlockOrderFunds_of_ne _ hu]
    · rfl
  split
  · rw [accounts_refundMarketOrderRemainder_of_ne _ hu, hunlocked, hsettled]
  · rw [hunlocked, hsettled]

/-- Settling two stretches of trades, as far as a user made them. -/
theorem settleMade_append (r : RiskEngine) (u : UInt64) (ts ts' : List Trade) :
  r.settleMade u (ts ++ ts') = (r.settleMade u ts).settleMade u ts'
  := by
  unfold settleMade
  rw [List.filter_append, List.foldl_append]

/-- What a user has made depends on the account of the user alone. -/
theorem accounts_settleMade_congr (haccounts : r.accounts u = r'.accounts u) (ts : List Trade) :
  (r.settleMade u ts).accounts u = (r'.settleMade u ts).accounts u
  := by
  unfold settleMade
  induction ts generalizing r r' with
  | nil => apply haccounts
  | cons t ts ih =>
      by_cases hmaker : t.makerUserId = u
      · rw [List.filter_cons_of_pos (by simp [hmaker]), List.foldl_cons, List.foldl_cons]
        apply ih (accounts_settleTrade_maker haccounts hmaker t.price)
      · rw [List.filter_cons_of_neg (by simp [hmaker])]
        apply ih haccounts

end RiskEngine

/-- A user other than the taker has a part in the trades of a taker only as their maker. -/
theorem Layout.onlyMakes_of_mem_fills {L : Layout} (hw : L.WellFormed) {o : Order} {u : UInt64}
    (hu : u ≠ o.userId) {clientId : UInt64} {t : Trade} (ht : t ∈ (L.fills o clientId).trades) :
  RiskEngine.OnlyMakes u t
  := by
  have hmem := mem_trades_matchOrders (o.accepts o.takesFrom) clientId (L.stamped o)
    L.tradeIdCounter (L.resting o.takesFrom) (t := t)
  rw [hw.fills_eq] at hmem
  obtain ⟨r, -, id, qty, taker, htaker, rfl, -⟩ := hmem ht
  have huser : taker.userId = o.userId := by
    rw [htaker]
    rfl
  unfold RiskEngine.OnlyMakes OrderBook.tradeOf
  dsimp only
  rintro (hparty | hparty)
  · split at hparty
    · exact absurd (hparty.trans huser) hu
    · exact hparty.symm
  · split at hparty
    · exact hparty.symm
    · exact absurd (hparty.trans huser) hu

/-! ### Runs -/

namespace Exchange

variable {s : Exchange} {E E' : Fin NUM_SYMBOLS → Layout} {inbound : InboundMessage}
  {inbounds : List InboundMessage} {round : Round} {u : UInt64} {T : MakerTest}

/-- A message of another user changes the account of a user by what the user has made. -/
theorem Outcome.accounts_eq (h : s.Outcome E inbound round E') (hE : s.engine.HasLayouts E)
    (hu : u ≠ inbound.order.userId) :
  round.state.risk.accounts u = (s.risk.settleMade u round.trades).accounts u
  := by
  cases h with
  | notCancelled | unfunded => rfl
  | cancelled _ _ pl huser =>
      change (s.risk.unlockCancelledOrderMargin pl.order.order pl.order.order.qty).accounts u = _
      rw [RiskEngine.unlockCancelledOrderMargin, RiskEngine.accounts_unlockOrderFunds_of_ne _
        (by rwa [huser])]
      rfl
  | @taken sym risk engine o report hkind hlock hsym ho =>
      have hassigned : u ≠ (s.assigned inbound).userId := by
        rw [s.assigned_eq]
        apply hu
      have ho' : u ≠ o.userId := by
        rw [ho]
        apply hu
      apply RiskEngine.accounts_settleReport hassigned
      · intro t ht
        apply Layout.onlyMakes_of_mem_fills (hE.wellFormed sym) ho' ht
      · rw [(RiskEngine.locked_of_ok hkind hlock).accounts_of_ne hu]
  | @refused sym risk engine o reason hkind hlock =>
      have hassigned : u ≠ (s.assigned inbound).userId := by
        rw [s.assigned_eq]
        apply hu
      change (risk.unlockCancelledOrderMargin _ _).accounts u = _
      rw [RiskEngine.unlockCancelledOrderMargin, RiskEngine.accounts_unlockOrderFunds_of_ne _ hassigned,
        (RiskEngine.locked_of_ok hkind hlock).accounts_of_ne hu]
      rfl

/-- A message of a user whose orders do not pass a test, with trades that do not pass it either,
leaves the orders that do as they are. -/
theorem Outcome.passing_eq (h : s.Outcome E inbound round E') (hE : s.engine.HasLayouts E)
    (hsender : ∀ o : Order, o.userId = inbound.order.userId → T.order o = false)
    (htrades : ∀ t ∈ round.trades, T.trade t = false) (sym : Fin NUM_SYMBOLS) (side : Side) :
  T.passing (E' sym) side = T.passing (E sym) side
  := by
  have hprocess : ∀ (sym' : Fin NUM_SYMBOLS) (o : Order), o.userId = inbound.order.userId →
      (∀ t ∈ ((E sym').fills o inbound.clientId).trades, T.trade t = false) →
      T.passing (Function.update E sym' ((E sym').process o inbound.clientId []).2.1 sym) side
        = T.passing (E sym) side := by
    intro sym' o huser hfills
    rcases eq_or_ne sym sym' with rfl | hsym
    · rw [Function.update_self]
      apply MakerTest.passing_process (hE.wellFormed sym) [] (hsender _ _) hfills
      rw [Layout.userId_taker_fills, huser]
    · rw [Function.update_of_ne hsym]
  cases h with
  | notCancelled | unfunded => rfl
  | @cancelled sym' _ _ _ pl huser =>
      rcases eq_or_ne sym sym' with rfl | hsym
      · rw [Function.update_self, MakerTest.passing_remove pl (hsender _ huser)]
      · rw [Function.update_of_ne hsym]
  | @taken sym' _ _ o _ _ _ _ ho => exact hprocess sym' o (by rw [ho]) htrades
  | @refused sym' _ _ o _ _ _ _ ho herror =>
      apply hprocess sym' o (by rw [ho])
      rw [Layout.fills_trades_of_error (hE.wellFormed sym') herror]
      exact nofun

/-- The account of a user has changed by what the user has made, and the orders of the user that
no trade names have stayed. -/
structure Spares (s : Exchange) (E : Fin NUM_SYMBOLS → Layout) (u : UInt64) (round : Round)
    (E' : Fin NUM_SYMBOLS → Layout) : Prop where
  accounts_eq : round.state.risk.accounts u = (s.risk.settleMade u round.trades).accounts u
  passing_eq : ∀ ts, (∀ t ∈ round.trades, t ∈ ts) → ∀ sym side,
    (MakerTest.spared u ts).passing (E' sym) side = (MakerTest.spared u ts).passing (E sym) side

/-- One message of another user spares the user once more. -/
theorem Spares.step {first : Round} {E₁ E₂ : Fin NUM_SYMBOLS → Layout}
    (h : s.Spares E u first E₁) (hE₁ : first.state.engine.HasLayouts E₁)
    (houtcome : first.state.Outcome E₁ inbound round E₂) (hu : inbound.order.userId ≠ u) :
  s.Spares E u (first.andThen round) E₂
  := by
  constructor
  · change round.state.risk.accounts u
      = (s.risk.settleMade u (first.trades ++ round.trades)).accounts u
    rw [houtcome.accounts_eq hE₁ hu.symm, RiskEngine.settleMade_append]
    apply RiskEngine.accounts_settleMade_congr h.accounts_eq
  · intro ts htrades sym side
    rw [houtcome.passing_eq hE₁ (fun o huser => MakerTest.order_spared_of_ne (huser ▸ hu))
      fun t ht => MakerTest.trade_spared (htrades t (List.mem_append_right _ ht))]
    apply h.passing_eq ts fun t ht => htrades t (List.mem_append_left _ ht)

/-- A user is touched by the trades of a round alone: the account of the user changes by the
trades with the resting orders of the user, each settled at its own price, and the resting orders
of the user that no trade names are as before, in the same sequence. -/
structure Isolates (s : Exchange) (u : UInt64) (round : Round) : Prop where
  accounts_eq : round.state.risk.accounts u = (s.risk.settleMade u round.trades).accounts u
  orders_eq : ∀ sym side,
    ((round.state.engine.books sym).restingOrders side).filter
        (fun o => o.userId = u ∧ ∀ t ∈ round.trades, t.makerOrderId ≠ o.id)
      = ((s.engine.books sym).restingOrders side).filter
        fun o => o.userId = u ∧ ∀ t ∈ round.trades, t.makerOrderId ≠ o.id

/-- The messages of others touch a user by their trades alone. -/
theorem isolated_run (h : s.Operable) (hsilent : ∀ inbound ∈ inbounds, inbound.order.userId ≠ u) :
  s.Isolates u (s.run inbounds)
  := by
  obtain ⟨E, hsound⟩ := h
  have hE := hsound.layouts
  obtain ⟨E', hE', hspares⟩ : ∃ E', (s.run inbounds).state.engine.HasLayouts E'
      ∧ s.Spares E u (s.run inbounds) E' := by
    apply run_outcomes (P := fun _ round E' => s.Spares E u round E') hE
    · exact ⟨rfl, fun _ _ _ _ => rfl⟩
    · intro earlier inbound E₁ round E₂ hinitial hE₁ _ houtcome hfirst
      apply hfirst.step hE₁ houtcome (hsilent inbound (hinitial.subset (by simp)))
  refine ⟨hspares.accounts_eq, fun sym side => ?_⟩
  rw [(hE'.hasLayout sym).restingOrders_eq, (hE.hasLayout sym).restingOrders_eq, List.filter_map,
    List.filter_map]
  exact congrArg (List.map (·.order)) (hspares.passing_eq _ (fun t ht => ht) sym side)

/-- A user asks for 90 and for 95. -/
def twoAsks : List InboundMessage :=
  [⟨Order.newClientLimit 1 2 .btc .sell 90 5, 8⟩, ⟨Order.newClientLimit 2 2 .btc .sell 95 4, 8⟩]

/-- After the two asks, user 1's bid touches user 2 by its trades alone. -/
theorem isolated_run_twoAsks :
  let s := ((fund twoTraders).run twoAsks).state
  s.Isolates 2 (s.run [⟨Order.newClientLimit 1 1 .btc .buy 100 3, 7⟩])
  := by
  apply isolated_run ((reachable_fund twoTraders).operable.run twoAsks)
  intro inbound hmem
  rw [List.mem_singleton.mp hmem]
  decide

end Exchange

end LimitOrderBook
