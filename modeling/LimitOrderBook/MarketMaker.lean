import LimitOrderBook.Quoting
import LimitOrderBook.Execution
import LimitOrderBook.Recovery

/-!
# The market maker

The market maker quotes for one user on both sides of a base price, cancels its quotes now and
then, and takes with market orders of another user, so that no order meets one of its own
user.  However many market makers there are, whatever the random numbers, and however their
orders interleave, the exchange never has to prevent a self-trade (`Pipeline.separate_dispatched`).
-/

namespace LimitOrderBook

namespace MarketMaker

/-- What the random numbers of a round decide. -/
structure Draw where
  market : Fin 3
  action : Fin 10
  buys : Bool
  spreadOffset : UInt64
  spreadOffset_range : 1 ≤ spreadOffset ∧ spreadOffset < 50
  qty : UInt64
  qty_range : 1 ≤ qty ∧ qty < 5
  cancelIdx : Nat

/-- The symbols. -/
def symbol : Fin 3 → Symbol
  | 0 => .btc
  | 1 => .eth
  | 2 => .sol

/-- The base prices of the symbols. -/
def basePrice : Fin 3 → UInt64
  | 0 => 6500000
  | 1 => 350000
  | 2 => 15000

/-- The side of an order. -/
def side (d : Draw) : Side := if d.buys then .buy else .sell

/-- The price of a quote. -/
def quotePrice (d : Draw) : UInt64 :=
  match side d with
  | .buy => (basePrice d.market).saturatingSub d.spreadOffset
  | .sell => (basePrice d.market).saturatingAdd d.spreadOffset

/-- The order of a round: a quote of user 1, a cancel of an active quote, or a market order of
user 2. -/
def next (q : Quoter) (d : Draw) : Order × Quoter :=
  if d.action < 7 then
    q.quote 1 (symbol d.market) (side d) (quotePrice d) d.qty
  else if h : d.action < 9 ∧ 0 < q.activeQuotes.length then
    q.cancel ⟨d.cancelIdx % q.activeQuotes.length, Nat.mod_lt _ h.2⟩
  else
    q.take fun orderId =>
      Order.newMarket orderId 2 (symbol d.market) (side d) 1 (basePrice d.market + 100)

/-- The orders of the rounds. -/
def orders (q : Quoter) : List Draw → List Order
  | [] => []
  | d :: ds => (next q d).1 :: orders (next q d).2 ds

/-- The maker's loop sends what a quoter may send. -/
theorem sends_next (q : Quoter) (d : Draw) :
  q.Sends (next q d)
  := by
  unfold next
  split
  · apply Quoter.Sends.quote
  split
  · apply Quoter.Sends.cancel
  · apply Quoter.Sends.take
    · exact OrderType.noConfusion
    · rfl

end MarketMaker

/-! ### Orders off the base price -/

/-- What the market makers send: a cancel, a limit order of user 1 off the base price, or a market
order of user 2. -/
inductive Order.OffBase (o : Order) : Prop where
  | cancel (hkind : o.kind = .cancel)
  | quote (hkind : o.kind = .limit) (huser : o.userId = 1)
      (hprice : ∀ sym, symIdx o.symbolId = some sym →
        o.bookSide.before (MarketMaker.basePrice sym) o.price)
  | market (hkind : o.kind = .market) (huser : o.userId = 2)

namespace MarketMaker

/-- Every quote lies on its own side of the base price. -/
theorem before_quotePrice (d : Draw) :
  (side d).before (basePrice d.market) (quotePrice d)
  := by
  obtain ⟨hone, hfifty⟩ := d.spreadOffset_range
  have hbase : 50 ≤ (basePrice d.market).toNat ∧ (basePrice d.market).toNat < 2 ^ 63 := by
    generalize d.market = market
    revert market
    decide
  rw [UInt64.le_iff_toNat_le, UInt64.toNat_one] at hone
  rw [UInt64.lt_iff_toNat_lt] at hfifty
  have hfifty' : d.spreadOffset.toNat < 50 := hfifty
  unfold quotePrice
  cases side d with
  | buy =>
      apply decide_eq_true
      rw [UInt64.lt_iff_toNat_lt, UInt64.toNat_saturatingSub]
      omega
  | sell =>
      apply decide_eq_true
      rw [UInt64.lt_iff_toNat_lt, UInt64.saturatingAdd, if_pos (by omega),
        UInt64.toNat_add_of_lt' (by omega)]
      omega

/-- The maker quotes the symbol of the market it drew. -/
theorem symIdx_symbol {market sym : Fin 3} (h : symIdx (symbol market).code = some sym) :
  sym = market
  := by
  revert h
  revert market sym
  decide

/-- Whatever the draw, the next quote lies off the base price. -/
theorem offBase_next (q : Quoter) (d : Draw) :
  (next q d).1.OffBase
  := by
  unfold next
  split
  · apply Order.OffBase.quote rfl rfl
    intro sym hsym
    obtain rfl := symIdx_symbol hsym
    have hbefore := before_quotePrice d
    have hside : (Order.newLimit q.orderId 1 (symbol d.market) (side d) (quotePrice d)
        d.qty).bookSide = side d := by
      cases side d <;> rfl
    change (Order.newLimit _ _ _ _ _ _).bookSide.before _ (quotePrice d)
    rw [hside]
    apply hbefore
  split
  · exact Order.OffBase.cancel rfl
  · exact Order.OffBase.market rfl rfl

/-- Every quote of a run lies off the base price. -/
theorem offBase_of_mem_orders {q : Quoter} {ds : List Draw} {o : Order} (h : o ∈ orders q ds) :
  o.OffBase
  := by
  induction ds generalizing q with
  | nil => cases h
  | cons d ds ih =>
      rcases List.mem_cons.mp h with rfl | h
      · apply offBase_next
      · apply ih h

/-- Whatever the draws, the maker's orders are a run of a quoter. -/
theorem run_orders (q₀ q : Quoter) {sent : List Order} (h : q₀.Run sent q) (ds : List Draw) :
  ∃ q', q₀.Run (sent ++ orders q ds) q'
  := by
  induction ds generalizing sent q with
  | nil =>
      rw [orders, List.append_nil]
      exact ⟨q, h⟩
  | cons d ds ih =>
      obtain ⟨q', hrun⟩ := ih (next q d).2 (h.concat (sends_next q d))
      rw [List.append_assoc] at hrun
      exact ⟨q', hrun⟩

/-- Each cancel of a market maker names a quote of its own that it has sent before and not
cancelled, whatever the random numbers. -/
theorem consistent_orders {ds : List Draw} (hroom : (orders Quoter.new ds).length + 1 < 2 ^ 64) :
  Quoter.Consistent (orders Quoter.new ds)
  := by
  obtain ⟨q, hrun⟩ := run_orders Quoter.new Quoter.new Quoter.Run.nil ds
  apply hrun.consistent hroom

/-- The draw of a first quote. -/
def firstDraw : Draw where
  market := 0
  action := 0
  buys := true
  spreadOffset := 1
  spreadOffset_range := by decide
  qty := 1
  qty_range := by decide
  cancelIdx := 0

/-- A quote that is cancelled. -/
def twoDraws : List Draw := [firstDraw, { firstDraw with action := 7 }]

theorem consistent_orders_twoDraws :
  Quoter.Consistent (orders Quoter.new twoDraws)
  := by
  apply consistent_orders
  decide

end MarketMaker

namespace Layout

variable {L : Layout} {o : Order} {clientId : UInt64}

/-- Self-trade prevention comes from an order of the same user, at a price that is accepted. -/
theorem exists_of_stp (hw : L.WellFormed) (h : (L.fills o clientId).stp = true) :
  ∃ r ∈ L.resting o.takesFrom, o.accepts o.takesFrom r.order.price ∧ r.order.userId = o.userId
  := by
  obtain ⟨-, r, rest, hleft, haccepts, huser⟩ := (hw.stp_fills_iff o clientId).mp h
  have hr : r ∈ restingOf (L.fills o clientId).ladder := by
    rw [hleft]
    apply List.mem_cons_self
  obtain ⟨l, hl, hr⟩ := mem_restingOf.mp hr
  obtain ⟨l₀, hl₀, -, -, -, hqueue⟩ := hw.mem_ladder_matched hl
  obtain ⟨r₀, hr₀, heq⟩ := hqueue r hr
  refine ⟨r₀, mem_restingOf.mpr ⟨l₀, hl₀, hr₀⟩, ?_⟩
  rcases heq with rfl | ⟨qty, -, rfl⟩
  · exact ⟨haccepts, huser⟩
  · exact ⟨haccepts, huser⟩

/-- A trade is with an order of another user, at a price that is accepted. -/
theorem exists_of_mem_fills (hw : L.WellFormed) {t : Trade}
    (h : t ∈ (L.fills o clientId).trades) :
  ∃ r ∈ L.resting o.takesFrom, t.makerUserId = r.order.userId ∧ t.takerUserId = o.userId
    ∧ r.order.userId ≠ o.userId
  := by
  have hmem := mem_trades_matchOrders (o.accepts o.takesFrom) clientId (L.stamped o)
    L.tradeIdCounter (L.resting o.takesFrom) (t := t)
  rw [hw.fills_eq] at hmem
  obtain ⟨r, hr, id, qty, taker, htaker, rfl, huser, -⟩ := hmem h
  refine ⟨r, hr, rfl, ?_, huser⟩
  change taker.userId = o.userId
  rw [htaker]
  rfl

end Layout

/-- What happens where users 1 and 2 do not meet their own orders: no rejection for a self-trade,
and only fills between a taker 2 and a maker 1. -/
def OutboundEvent.Separate : OutboundEvent → Prop
  | clientReject _ msg => msg.rejectCode ≠ RejectReason.selfTradePrevented.toByte
  | tradeFill _ _ takerMsg makerMsg => takerMsg.userId = 2 ∧ makerMsg.userId = 1
  | _ => True

namespace Exchange

variable {s : Exchange} {E E' : Fin NUM_SYMBOLS → Layout} {inbound : InboundMessage}
  {inbounds : List InboundMessage} {round : Round}

/-- All that rests is of user 1 and off the base price. -/
def OffBase (E : Fin NUM_SYMBOLS → Layout) : Prop :=
  ∀ sym side, ∀ r ∈ (E sym).resting side,
    r.order.userId = 1 ∧ side.before (MarketMaker.basePrice sym) r.order.price

/-- No rejection but that of a self-trade comes of a self-trade. -/
theorem separate_rejection {clientId : UInt64} {order : Order} {reason : RejectReason}
    (h : reason ≠ .selfTradePrevented) :
  (rejection clientId order reason).Separate
  := by
  change reason.toByte ≠ RejectReason.selfTradePrevented.toByte
  rw [ne_eq, RejectReason.toByte_inj]
  apply h

/-- An order that comes to rest is off the base price, and none meets an order of its own user. -/
theorem OffBase.fills (h : OffBase E) (hE : s.engine.HasLayouts E) {o : Order} (ho : o.OffBase)
    (hkind : o.kind ≠ .cancel) {sym : Fin NUM_SYMBOLS} (hsym : symIdx o.symbolId = some sym)
    (clientId : UInt64) :
  ((E sym).fills o clientId).stp = false
    ∧ ∀ t ∈ ((E sym).fills o clientId).trades, t.makerUserId = 1 ∧ t.takerUserId = 2
  := by
  have hw := hE.wellFormed sym
  constructor
  · by_contra hstp
    obtain ⟨r, hr, haccepts, huser⟩ :=
      Layout.exists_of_stp hw (eq_true_of_ne_false hstp)
    obtain ⟨hone, hbefore⟩ := h sym o.takesFrom r hr
    cases ho with
    | cancel hcancel => exact hkind hcancel
    | market _ htwo =>
        rw [hone, htwo] at huser
        exact absurd huser (by decide)
    | quote hlimit _ hprice =>
        -- the bids are below the base price, and the asks above
        have hbeyond := hprice sym hsym
        rw [Order.accepts, hlimit] at haccepts
        unfold Order.takesFrom at hbefore haccepts
        cases hside : o.bookSide <;> rw [hside] at hbefore hbeyond haccepts <;>
          simp only [Side.opposite, Side.before, decide_eq_true_eq] at hbefore hbeyond haccepts <;>
          simp at haccepts
        · exact absurd (UInt64.lt_of_lt_of_le hbefore haccepts) (UInt64.lt_asymm hbeyond)
        · exact absurd (UInt64.lt_of_le_of_lt haccepts hbefore) (UInt64.lt_asymm hbeyond)
  · intro t ht
    obtain ⟨r, hr, hmaker, htaker, hne⟩ := Layout.exists_of_mem_fills hw ht
    obtain ⟨hone, -⟩ := h sym o.takesFrom r hr
    rw [hmaker, htaker, hone]
    refine ⟨rfl, ?_⟩
    cases ho with
    | cancel hcancel => exact absurd hcancel hkind
    | quote _ huser => exact absurd (hone.trans huser.symm) hne
    | market _ htwo => apply htwo

/-- Processing a quote leaves only quotes off the base price resting. -/
theorem OffBase.process (h : OffBase E) (hE : s.engine.HasLayouts E) {o : Order} (ho : o.OffBase)
    {sym : Fin NUM_SYMBOLS} (hsym : symIdx o.symbolId = some sym) (clientId : UInt64) :
  OffBase (Function.update E sym ((E sym).process o clientId []).2.1)
  := by
  intro i side r hr
  rcases eq_or_ne i sym with rfl | hi
  · rw [Function.update_self] at hr
    rcases ((E i).process_cases o clientId []).mem_resting (hE.wellFormed i) hr with
      ⟨r₀, hr₀, rfl | ⟨qty, rfl⟩⟩ | ⟨hrests, rfl, heq⟩
    · apply h i side _ hr₀
    · apply h i side r₀ hr₀
    · rw [heq, Layout.price_taker_fills, Layout.userId_taker_fills]
      obtain ⟨-, -, hlimit⟩ := hrests
      cases ho with
      | quote _ huser hprice => exact ⟨huser, hprice i hsym⟩
      | cancel hcancel =>
          rw [hcancel] at hlimit
          cases hlimit
      | market hmarket =>
          rw [hmarket] at hlimit
          cases hlimit
  · rw [Function.update_of_ne hi] at hr
    apply h i side r hr

/-- A cancel leaves only quotes off the base price resting. -/
theorem OffBase.remove (h : OffBase E) {sym : Fin NUM_SYMBOLS} (pl : (E sym).Place) :
  OffBase (Function.update E sym ((E sym).remove pl))
  := by
  intro i side r hr
  rcases eq_or_ne i sym with rfl | hi
  · rw [Function.update_self] at hr
    apply h i side r (Layout.mem_resting_remove hr)
  · rw [Function.update_of_ne hi] at hr
    apply h i side r hr

/-- The events of an order of a market maker that the engine has taken. -/
theorem OffBase.separate_taken (h : OffBase E) (hE : s.engine.HasLayouts E) {o order : Order}
    (ho : o.OffBase) (hkind : o.kind ≠ .cancel) {sym : Fin NUM_SYMBOLS}
    (hsym : symIdx o.symbolId = some sym) {clientId : UInt64} {report : ExecutionReport}
    (hok : ((E sym).process o clientId []).1 = .ok report) {engine : MultiAssetEngine}
    {symbolId : UInt16} :
  ∀ event ∈ acknowledgement clientId order :: ((E sym).fills o clientId).trades.map fillEvent
      ++ prevention clientId order report ++ bboEvents engine symbolId, event.Separate
  := by
  obtain ⟨hstp, htrades⟩ := h.fills hE ho hkind hsym clientId
  have hreport : report.stpTriggered = false := by
    rw [Layout.report_of_process_ok hok]
    apply hstp
  intro event hmem
  rw [prevention, if_neg (by rw [hreport]; simp)] at hmem
  simp only [List.append_nil, List.cons_append, List.mem_cons, List.mem_append,
    List.mem_map] at hmem
  rcases hmem with rfl | ⟨t, ht, rfl⟩ | hmem
  · exact trivial
  · exact ⟨(htrades t ht).2, (htrades t ht).1⟩
  · obtain ⟨msg, rfl⟩ := exists_of_mem_bboEvents hmem
    exact trivial

theorem separate_singleton {clientId : UInt64} {order : Order} {reason : RejectReason}
    (hreason : reason ≠ .selfTradePrevented) :
  ∀ event ∈ [rejection clientId order reason], event.Separate
  := by
  intro event hmem
  rw [List.mem_singleton.mp hmem]
  apply separate_rejection hreason

/-- A round with an order of a market maker. -/
theorem Outcome.separate (h : s.Outcome E inbound round E') (hE : s.engine.HasLayouts E)
    (hoff : OffBase E) (horder : inbound.order.OffBase) :
  OffBase E' ∧ ∀ event ∈ round.events, event.Separate
  := by
  have hstamped : ({ inbound.order with id := s.exchangeId inbound } : Order).OffBase := by
    cases horder with
    | cancel hkind => exact Order.OffBase.cancel hkind
    | quote hkind huser hprice => exact Order.OffBase.quote hkind huser hprice
    | market hkind huser => exact Order.OffBase.market hkind huser
  cases h with
  | notCancelled hkind hreason =>
      refine ⟨hoff, separate_singleton ?_⟩
      rcases hreason with rfl | rfl | rfl <;> exact RejectReason.noConfusion
  | @cancelled sym _ _ _ pl =>
      refine ⟨hoff.remove pl, ?_⟩
      intro event hmem
      rw [List.mem_singleton.mp hmem]
      exact trivial
  | unfunded _ hlock =>
      refine ⟨hoff, separate_singleton ?_⟩
      rcases RiskEngine.reason_of_lockOrderFunds hlock with rfl | rfl | rfl <;>
        exact RejectReason.noConfusion
  | @taken sym risk engine o report hkind hlock hsym ho hok =>
      subst ho
      exact ⟨hoff.process hE hstamped hsym inbound.clientId,
        hoff.separate_taken hE hstamped hkind hsym hok⟩
  | @refused sym risk engine o reason hkind hlock hsym ho herror =>
      subst ho
      have hprocessed := (E sym).process_cases { inbound.order with id := s.exchangeId inbound }
        inbound.clientId []
      rw [herror] at hprocessed
      obtain ⟨rfl, -⟩ := hprocessed.of_error (hE.wellFormed sym)
      refine ⟨hoff.process hE hstamped hsym inbound.clientId, ?_⟩
      intro event hmem
      rcases List.mem_pair.mp hmem with rfl | rfl
      · exact trivial
      · apply separate_rejection RejectReason.noConfusion

/-- In a run with orders of market makers nothing but a taker 2 and a maker 1 trade, and no
self-trade has to be prevented. -/
theorem separate_run (fs : List Funding) (horders : ∀ inbound ∈ inbounds, inbound.order.OffBase) :
  ∀ event ∈ ((fund fs).run inbounds).events, event.Separate
  := by
  have hnew : (fund fs).engine.HasLayouts fun _ => Layout.new := by
    rw [engine_fund]
    apply MultiAssetEngine.hasLayouts_new
  obtain ⟨E, -, -, hseparate⟩ : ∃ E, ((fund fs).run inbounds).state.engine.HasLayouts E
      ∧ OffBase E ∧ ∀ event ∈ ((fund fs).run inbounds).events, event.Separate := by
    apply run_outcomes (P := fun _ round E => OffBase E ∧ ∀ event ∈ round.events, event.Separate)
      hnew
    · refine ⟨?_, fun event hmem => nomatch hmem⟩
      intro sym side r hr
      simp [Layout.resting, Layout.new] at hr
    · intro earlier inbound E₁ round E₂ hinitial hE₁ _ houtcome hearlier
      obtain ⟨hoff, hseparate⟩ := houtcome.separate hE₁ hearlier.1
        (horders inbound (hinitial.subset (by simp)))
      refine ⟨hoff, ?_⟩
      intro event hmem
      rcases List.mem_append.mp hmem with hmem | hmem
      · apply hearlier.2 event hmem
      · apply hseparate event hmem
  exact hseparate

end Exchange

/-! ### The pipeline -/

/-- Whether an order is one of a market maker does not depend on its identifiers. -/
theorem Order.OffBase.congr {o o' : Order} (h : o.OffBase) (hsame : o.SameButIds o') :
  o'.OffBase
  := by
  have hkind : o'.kind = o.kind := by
    unfold Order.kind Order.getOrderType
    rw [hsame.orderType_eq]
  have hside : o'.bookSide = o.bookSide := by
    unfold Order.bookSide Order.isSell
    rw [hsame.side_eq]
  cases h with
  | cancel hcancel => exact Order.OffBase.cancel (hkind.trans hcancel)
  | market hmarket huser =>
      exact Order.OffBase.market (hkind.trans hmarket) (hsame.userId_eq.trans huser)
  | quote hlimit huser hprice =>
      apply Order.OffBase.quote (hkind.trans hlimit) (hsame.userId_eq.trans huser)
      rw [hsame.symbolId_eq, hside, hsame.price_eq]
      apply hprice

/-- What is admitted was sent. -/
theorem exists_admitted {os os' : List Order} (h : List.Forall₂ Order.Admitted os os') {o' : Order}
    (ho' : o' ∈ os') :
  ∃ o ∈ os, o.Admitted o'
  := by
  induction h with
  | nil => cases ho'
  | @cons o _ os _ hadmitted _ ih =>
      rcases List.mem_cons.mp ho' with rfl | ho'
      · exact ⟨o, List.mem_cons_self, hadmitted⟩
      · obtain ⟨o₁, hmem, hadmitted'⟩ := ih ho'
        exact ⟨o₁, List.mem_cons_of_mem o hmem, hadmitted'⟩

/-- What is forwarded from a part of what a market maker sends is of a market maker. -/
theorem offBase_of_mem_ingress {bytes : List UInt8} {ds : List MarketMaker.Draw}
    (hsent : bytes <+: Order.layout.encodeAll (MarketMaker.orders Quoter.new ds)) {o : Order}
    (h : o ∈ ingress bytes) :
  o.OffBase
  := by
  rw [List.prefix_iff_eq_take.mp hsent] at h
  obtain ⟨o', ho', hadmitted⟩ := exists_admitted
    (ingress_take_encodeAll (MarketMaker.orders Quoter.new ds) bytes.length) h
  have hmem := List.mem_of_mem_take ((List.takeWhile_sublist _).subset ho')
  apply (MarketMaker.offBase_of_mem_orders hmem).congr hadmitted.sameButIds

namespace Pipeline

variable {as : List Pipeline.Action} {p : Pipeline}

/-- However many market makers the exchange serves, from its first start on, and however all that
happens interleaves, nothing but a taker 2 and a maker 1 trade, and no self-trade is prevented. -/
theorem separate_dispatched (h : Runs [] as p) (haccepted : p.accepted < 2 ^ 64)
    (hmakers : ∀ i < p.accepted, ∃ ds,
      arrived [] as i <+: Order.layout.encodeAll (MarketMaker.orders Quoter.new ds)) :
  ∀ event ∈ dispatched [] as, event.Separate
  := by
  have hserves := serves h haccepted
  have horders : ∀ inbound ∈ handled [] as, inbound.order.OffBase := by
    intro inbound hmem
    obtain ⟨i, hi, hread⟩ := hserves.exists_mem_ingress hmem
    obtain ⟨ds, hsent⟩ := hmakers i hi
    rw [hserves.arrived_eq] at hsent
    apply offBase_of_mem_ingress ((List.prefix_append _ _).trans hsent) hread
  intro event hmem
  have hevents := hserves.loops.events_eq
  apply Exchange.separate_run Exchange.testAccounts horders
  change event ∈ (Exchange.prefunded.run (handled [] as)).events
  rw [← Exchange.recover_nil, ← hevents]
  apply List.mem_append_left
  apply List.mem_append_left _ hmem

/-- The one event of the sample run tells of no self-trade. -/
theorem separate_dispatched_firstActions :
  (dispatched [] firstActions).length = 1 ∧ ∀ event ∈ dispatched [] firstActions, event.Separate
  := by
  constructor
  · decide +kernel
  · obtain ⟨p, hrun, haccepted⟩ := exists_runs_firstActions
    apply separate_dispatched hrun
    · rw [haccepted]
      decide
    · intro i hi
      obtain rfl : i = 0 := by omega
      refine ⟨[MarketMaker.firstDraw], ?_⟩
      have harrived : arrived [] firstActions 0 = Order.layout.encode firstOrder := by
        decide +kernel
      have hsent : Order.layout.encodeAll (MarketMaker.orders Quoter.new [MarketMaker.firstDraw])
          = Order.layout.encode firstOrder := by
        decide +kernel
      rw [harrived, hsent]

end Pipeline

end LimitOrderBook
