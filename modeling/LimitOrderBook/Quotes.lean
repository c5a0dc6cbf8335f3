import LimitOrderBook.Lifecycle
import LimitOrderBook.MarketData

/-!
# The quotes that are broadcast

Whenever the engine has taken an order, the loop broadcasts the best bid and the best ask of the
book; when an order is cancelled it broadcasts nothing.  In a run in which all is margined, what was
broadcast last is what the book has best, exactly, until an order of the book is cancelled
(`quotes_run`): what rests is covered by funds, so that no total of a level overflows.
-/

namespace LimitOrderBook

/-- A price and a quantity are the best of a side of a book: no other price comes first, and the
quantity is all that rests at the price. -/
structure OrderBook.Best (b : OrderBook) (s : Side) (price qty : UInt64) : Prop where
  mem : ∃ o ∈ b.restingOrders s, o.price = price
  first : ∀ o ∈ b.restingOrders s, o.price = price ∨ s.before price o.price
  qty_eq : qty.toNat = qtyWhere (fun o => o.price == price) Order.qty (b.restingOrders s)

/-- The price and the quantity that a broadcast gives for a side. -/
def ServerMessage.quote (msg : ServerMessage) : Side → UInt64 × UInt64
  | .buy => (msg.price, msg.qty)
  | .sell => (msg.extraPrice, msg.extraQty)

/-- A broadcast gives the best quotes of a book. -/
structure ServerMessage.Quotes (msg : ServerMessage) (b : OrderBook) : Prop where
  best : ∀ s, b.restingOrders s ≠ [] → b.Best s (msg.quote s).1 (msg.quote s).2
  none : ∀ s, b.restingOrders s = [] → msg.quote s = (0, 0)
  uncrossed : (∀ s, b.restingOrders s ≠ []) → msg.price < msg.extraPrice

namespace OutboundEvent

/-- What a listener knows of the quotes of a book: a broadcast tells them, and a cancel makes them
unknown. -/
def hear (sym : Fin NUM_SYMBOLS) (known : Option ServerMessage) :
    OutboundEvent → Option ServerMessage
  | bboBroadcast msg => if msg.symbolId.toNat = sym then some msg else known
  | clientCancelOk _ msg => if msg.symbolId.toNat = sym then none else known
  | _ => known

/-- What a listener knows of the quotes of a book that was empty. -/
def lastQuote (sym : Fin NUM_SYMBOLS) (events : List OutboundEvent) : Option ServerMessage :=
  events.foldl (hear sym) (some (ServerMessage.bbo (UInt8.ofNat sym) 0 0 0 0))

theorem lastQuote_append (sym : Fin NUM_SYMBOLS) (events events' : List OutboundEvent) :
  lastQuote sym (events ++ events') = events'.foldl (hear sym) (lastQuote sym events)
  := List.foldl_append

/-- Neither a broadcast nor the answer to a cancel. -/
def Silent (event : OutboundEvent) : Prop := ∀ sym known, hear sym known event = known

theorem foldl_hear_of_silent {events : List OutboundEvent} (h : ∀ event ∈ events, event.Silent)
    (sym : Fin NUM_SYMBOLS) (known : Option ServerMessage) :
  events.foldl (hear sym) known = known
  := by
  induction events with
  | nil => rfl
  | cons event events ih =>
      rw [List.foldl_cons, h event List.mem_cons_self]
      apply ih fun event' hmem => h event' (List.mem_cons_of_mem event hmem)

end OutboundEvent

open OutboundEvent

/-! ### The quotes of a layout -/

namespace Layout

variable {L L' : Layout} {s : Side} {msg : ServerMessage}

/-- The first price of a ladder and the total there. -/
def quote (L : Layout) (s : Side) : UInt64 × UInt64 :=
  ((L.ladder s).head?.map fun l => (l.price, l.totalQty)).getD (0, 0)

/-- A message gives the quotes of a layout. -/
def ShownBy (L : Layout) (msg : ServerMessage) : Prop := ∀ s, msg.quote s = L.quote s

theorem ShownBy.congr (h : L.ShownBy msg) (hladder : L'.ladder = L.ladder) :
  L'.ShownBy msg
  := by
  unfold ShownBy quote
  rw [hladder]
  apply h

/-- All that rests at the first price is on the first level. -/
theorem qtyWhere_head (hw : L.WellFormed) {l : Level} {ls : List Level}
    (hladder : L.ladder s = l :: ls) :
  qtyWhere (fun r => r.order.price == l.price) (fun r => r.order.qty) (L.resting s)
    = qtySum l.queue
  := by
  have hprice := hw.price_eq s
  have hsorted := hw.sorted s
  rw [hladder] at hprice hsorted
  have hqueue : (l.queue.filter fun r => r.order.price == l.price) = l.queue :=
    List.filter_eq_self.mpr fun r hr => by simpa using hprice l List.mem_cons_self r hr
  have hothers : ((restingOf ls).filter fun r => r.order.price == l.price) = [] := by
    apply List.filter_eq_nil_iff.mpr
    intro r hr
    obtain ⟨l', hl', hr⟩ := mem_restingOf.mp hr
    rw [hprice l' (List.mem_cons_of_mem l hl') r hr, beq_iff_eq]
    exact Side.ne_of_before ((List.pairwise_cons.mp hsorted).1 l' hl') ∘ Eq.symm
  unfold resting qtyWhere
  rw [hladder, restingOf_cons, List.filter_append, hqueue, hothers, List.append_nil]
  rfl

end Layout

namespace OrderBook.HasLayout

variable {b : OrderBook} {L : Layout} {s : Side} {msg : ServerMessage}

theorem restingOrders_eq_nil_iff (h : b.HasLayout L) (hw : L.WellFormed) (s : Side) :
  b.restingOrders s = [] ↔ L.ladder s = []
  := by
  rw [h.restingOrders_eq, List.map_eq_nil_iff, Layout.resting, restingOf, List.flatMap_eq_nil_iff]
  constructor
  · intro hnone
    apply List.eq_nil_iff_forall_not_mem.mpr
    intro l hl
    exact hw.queue_ne_nil s l hl (hnone l hl)
  · intro hnil l hl
    rw [hnil] at hl
    cases hl

/-- The first level is the best of a side. -/
theorem best (h : b.HasLayout L) (hw : L.WellFormed) (hx : L.Exact) {l : Level} {ls : List Level}
    (hladder : L.ladder s = l :: ls) :
  b.Best s l.price l.totalQty
  := by
  have hmem : l ∈ L.ladder s := by
    rw [hladder]
    apply List.mem_cons_self
  have hprice := hw.price_eq s
  have hsorted := hw.sorted s
  rw [hladder] at hsorted
  constructor
  · obtain ⟨r, hr⟩ := List.exists_mem_of_ne_nil _ (hw.queue_ne_nil s l hmem)
    refine ⟨r.order, ?_, hprice l hmem r hr⟩
    rw [h.restingOrders_eq]
    apply List.mem_map_of_mem (mem_restingOf.mpr ⟨l, hmem, hr⟩)
  · intro o ho
    rw [h.restingOrders_eq] at ho
    obtain ⟨r, hr, rfl⟩ := List.mem_map.mp ho
    obtain ⟨l', hl', hr⟩ := mem_restingOf.mp hr
    rw [hprice l' hl' r hr]
    rw [hladder] at hl'
    rcases List.mem_cons.mp hl' with rfl | hl'
    · exact Or.inl rfl
    · exact Or.inr ((List.pairwise_cons.mp hsorted).1 l' hl')
  · rw [hx s l hmem, ← Layout.qtyWhere_head hw hladder, h.restingOrders_eq]
    unfold qtyWhere
    rw [List.filter_map, List.map_map]
    rfl

/-- What gives the quotes of the layout gives those of the book. -/
theorem quotes (h : b.HasLayout L) (hw : L.WellFormed) (hx : L.Exact) (hshown : L.ShownBy msg) :
  msg.Quotes b
  := by
  have hhead : ∀ s, b.restingOrders s ≠ [] → ∃ l ls, L.ladder s = l :: ls
      ∧ msg.quote s = (l.price, l.totalQty) := by
    intro s hne
    obtain ⟨l, ls, hladder⟩ := List.exists_cons_of_ne_nil
      (mt (h.restingOrders_eq_nil_iff hw s).mpr hne)
    refine ⟨l, ls, hladder, ?_⟩
    rw [hshown s, Layout.quote, hladder]
    rfl
  constructor
  · intro s hne
    obtain ⟨l, ls, hladder, hquote⟩ := hhead s hne
    rw [hquote]
    apply h.best hw hx hladder
  · intro s hnil
    rw [hshown s, Layout.quote, (h.restingOrders_eq_nil_iff hw s).mp hnil]
    rfl
  · intro hne
    obtain ⟨l, ls, hladder, hquote⟩ := hhead .buy (hne .buy)
    obtain ⟨l', ls', hladder', hquote'⟩ := hhead .sell (hne .sell)
    have hbid : msg.price = l.price := congrArg Prod.fst hquote
    have hask : msg.extraPrice = l'.price := congrArg Prod.fst hquote'
    rw [hbid, hask]
    apply hw.uncrossed
    · rw [hladder]
      apply List.mem_cons_self
    · rw [hladder']
      apply List.mem_cons_self

/-- What the loop broadcasts of a book. -/
theorem shownBy_bbo (h : b.HasLayout L) (symbolId : UInt8) :
  L.ShownBy (ServerMessage.bbo symbolId (b.getBbo.1.getD (0, 0)).1 (b.getBbo.1.getD (0, 0)).2
    (b.getBbo.2.getD (0, 0)).1 (b.getBbo.2.getD (0, 0)).2)
  := by
  have hquote : ∀ s, ((b.depth s 1).head?.map fun l => (l.price, l.totalQty)).getD (0, 0)
      = L.quote s := by
    intro s
    rw [h.depth_eq, Layout.quote]
    cases L.ladder s <;> rfl
  rw [getBbo_eq]
  intro s
  rw [← hquote s]
  cases s <;> rfl

end OrderBook.HasLayout

/-! ### What rests is covered -/

/-- What rests on a side is no more than what its owners have reserved for it. -/
theorem qtySum_le_held {s : Side} {us : Finset UInt64} {rs : List Resting}
    (husers : ∀ r ∈ rs, r.order.userId ∈ us) (hprices : s = .buy → ∀ r ∈ rs, r.order.price ≠ 0) :
  qtySum rs ≤ ∑ u ∈ us, (MakerRate.held s u).resting rs
  := by
  induction rs with
  | nil => exact Nat.zero_le _
  | cons r rs ih =>
      have hrest := ih (fun r' hr' => husers r' (List.mem_cons_of_mem r hr'))
        fun hs r' hr' => hprices hs r' (List.mem_cons_of_mem r hr')
      have hrate : 0 < (MakerRate.held s r.order.userId).order r.order := by
        unfold MakerRate.held
        dsimp only
        rw [if_pos rfl]
        cases s with
        | buy =>
            have hpos := UInt64.ne_zero_iff_pos.mp (hprices rfl r List.mem_cons_self)
            apply UInt64.pos_iff_toNat_pos.mp hpos
        | sell => apply Nat.one_pos
      have hone := Nat.le_mul_of_pos_left r.order.qty.toNat hrate
      have hall := Finset.single_le_sum
        (fun u _ => Nat.zero_le ((MakerRate.held s u).order r.order * r.order.qty.toNat))
        (husers r List.mem_cons_self)
      simp only [MakerRate.resting_cons, Finset.sum_add_distrib, qtySum_cons]
      omega

namespace Exchange

variable {s : Exchange} {E E' : Fin NUM_SYMBOLS → Layout} {inbound : InboundMessage}
  {inbounds : List InboundMessage} {round : Round} {sym : Fin NUM_SYMBOLS} {us : Finset UInt64}
  {start : UInt64 → Coin → Nat} {trades : List Trade}

/-- Every bid has a price. -/
def BidsPriced (E : Fin NUM_SYMBOLS → Layout) : Prop :=
  ∀ sym, ∀ r ∈ (E sym).resting .buy, r.order.price ≠ 0

/-- Two layouts of the same books have the same orders at rest. -/
theorem map_resting_eq {e : MultiAssetEngine} (h : e.HasLayouts E) (h' : e.HasLayouts E')
    (sym : Fin NUM_SYMBOLS) (side : Side) :
  ((E sym).resting side).map (·.order) = ((E' sym).resting side).map (·.order)
  := by
  rw [← (h.hasLayout sym).restingOrders_eq, (h'.hasLayout sym).restingOrders_eq]

/-- All that an exchange has at rest fits in a word, as the funds do. -/
theorem Solvent.bounded (h : s.Solvent E us start trades) (hE' : s.engine.HasLayouts E')
    (hpriced : BidsPriced E') (sym : Fin NUM_SYMBOLS) :
  (E' sym).Bounded
  := by
  intro side l hl
  have husers : ∀ r ∈ (E' sym).resting side, r.order.userId ∈ us := by
    intro r hr
    have hmem := List.mem_map_of_mem (f := (·.order)) hr
    rw [map_resting_eq hE' h.sound.layouts] at hmem
    obtain ⟨r', hr', heq⟩ := List.mem_map.mp hmem
    rw [← heq]
    apply (h.keeps.account_iff _).mp (h.sound.account sym side r' hr')
  have hheld := qtySum_le_held husers fun hside r hr => hpriced sym r (hside ▸ hr)
  have hreserved : ∀ u ∈ us, (MakerRate.held side u).resting ((E' sym).resting side)
      ≤ (s.risk.available u (side.coin sym)).toNat + (s.risk.locked u (side.coin sym)).toNat := by
    intro u hu
    have hone : (E' sym).reservedOn sym u (side.coin sym) side
        = (MakerRate.held side u).resting ((E' sym).resting side) := if_pos rfl
    have hsum := (E' sym).reserved_eq sym u (side.coin sym) side
    have hle := le_reserved E' sym u (side.coin sym)
    rw [← hE'.reserved_eq, h.sound.layouts.reserved_eq, ← h.locked_eq u hu] at hle
    omega
  have hfunds := Ledger.sum_balance h.keeps.among fun u hu => h.keeps.balance u hu (side.coin sym)
  have hlevel : qtySum l.queue ≤ qtySum ((E' sym).resting side) := by
    obtain ⟨ls₁, ls₂, hladder⟩ := List.append_of_mem hl
    unfold Layout.resting
    rw [hladder, restingOf_append, restingOf_cons, qtySum_append, qtySum_append]
    omega
  have hlt := h.keeps.sum_lt (side.coin sym)
  have hle := Finset.sum_le_sum hreserved
  omega

/-! ### What a round leaves -/

/-- An order that comes to rest as a bid has a price. -/
theorem Outcome.bidsPriced (h : s.Outcome E inbound round E') (hE : s.engine.HasLayouts E)
    (hpriced : BidsPriced E) (hmargined : inbound.Margined) :
  BidsPriced E'
  := by
  have hupdate : ∀ {sym : Fin NUM_SYMBOLS} {L : Layout},
      (∀ r ∈ L.resting .buy, r.order.price ≠ 0) → BidsPriced (Function.update E sym L) := by
    intro sym L hL i r hr
    rcases eq_or_ne i sym with rfl | hi
    · rw [Function.update_self] at hr
      apply hL r hr
    · rw [Function.update_of_ne hi] at hr
      apply hpriced i r hr
  have hprocess : ∀ {sym : Fin NUM_SYMBOLS} {o : Order} {risk : RiskEngine},
      inbound.order.kind ≠ .cancel → s.risk.lockOrderFunds inbound.order = .ok risk →
      o = { inbound.order with id := s.exchangeId inbound } →
      ∀ r ∈ ((E sym).process o inbound.clientId []).2.1.resting .buy, r.order.price ≠ 0 := by
    intro sym o risk hkind hlock ho r hr
    rcases ((E sym).process_cases o inbound.clientId []).mem_resting (hE.wellFormed sym) hr with
      ⟨r₀, hr₀, rfl | ⟨qty, rfl⟩⟩ | ⟨-, hbuy, heq⟩
    · apply hpriced sym _ hr₀
    · apply hpriced sym r₀ hr₀
    · rw [heq, Layout.taker_fills, ho]
      rw [ho] at hbuy
      have hlocked := RiskEngine.locked_of_ok hkind hlock
      rcases hmargined with hcancel | ⟨-, hside⟩ | ⟨-, hside⟩
      · exact absurd hcancel hkind
      · apply hlocked.price_ne (Order.getSide_eq_bookSide hside) hbuy.symm
      · apply hlocked.price_ne (Order.getSide_eq_bookSide (by rw [hside]; rfl)) hbuy.symm
  cases h with
  | notCancelled | unfunded => apply hpriced
  | cancelled _ _ pl => apply hupdate fun r hr => hpriced _ r (Layout.mem_resting_remove hr)
  | taken hkind hlock _ ho => apply hupdate (hprocess hkind hlock ho)
  | refused hkind hlock _ ho => apply hupdate (hprocess hkind hlock ho)

/-- The totals stay exact where what rests fits in a word. -/
theorem Outcome.exact (h : s.Outcome E inbound round E') (hE : s.engine.HasLayouts E)
    (hexact : ∀ sym, (E sym).Exact) (hbounded : ∀ sym, (E' sym).Bounded) :
  ∀ sym, (E' sym).Exact
  := by
  have hupdate : ∀ {sym : Fin NUM_SYMBOLS} {L : Layout} {c : Call}, (E sym).Step c L →
      (∀ i, (Function.update E sym L i).Bounded) → ∀ i, (Function.update E sym L i).Exact := by
    intro sym L c hstep hb i
    rcases eq_or_ne i sym with rfl | hi
    · have hbound := hb i
      rw [Function.update_self] at hbound ⊢
      apply (hexact i).step (hE.wellFormed i) hstep hbound
    · rw [Function.update_of_ne hi]
      apply hexact
  cases h with
  | notCancelled | unfunded => apply hexact
  | cancelled hkind _ pl => exact hupdate (.cancel (c := .cancelOrder 0 0) trivial pl) hbounded
  | taken hkind _ _ ho => exact hupdate (.process _ _ (by rw [ho]; exact hkind)) hbounded
  | refused hkind _ _ ho => exact hupdate (.process _ _ (by rw [ho]; exact hkind)) hbounded

theorem toUInt8_of_symIdx {symbolId : UInt16} (hsym : symIdx symbolId = some sym) :
  symbolId.toUInt8.toNat = sym
  := by
  unfold symIdx at hsym
  split at hsym
  · next hlt =>
      rw [← Option.some.inj hsym, UInt16.toNat_toUInt8]
      apply Nat.mod_eq_of_lt
      exact Nat.lt_trans hlt (by decide)
  · cases hsym

/-- A round keeps what is known of the quotes, or tells them anew. -/
theorem Outcome.shownBy (h : s.Outcome E inbound round E') (hE : s.engine.HasLayouts E)
    {known : Option ServerMessage} {msg : ServerMessage}
    (hknown : ∀ msg, known = some msg → (E sym).ShownBy msg)
    (hlast : round.events.foldl (hear sym) known = some msg) :
  (E' sym).ShownBy msg
  := by
  cases h with
  | notCancelled | unfunded => apply hknown msg hlast
  | @cancelled sym' engine hkind hsym pl =>
      have hid := toUInt8_of_symIdx hsym
      change (if inbound.order.symbolId.toUInt8.toNat = sym then none else known) = _ at hlast
      rw [hid] at hlast
      split at hlast
      · cases hlast
      · next hne =>
          rw [Function.update_of_ne fun heq => hne (congrArg Fin.val heq.symm)]
          apply hknown msg hlast
  | @taken sym' risk engine o report hkind hlock hsym ho hok hengine =>
      have hid := toUInt8_of_symIdx hsym
      have hassigned : (s.assigned inbound).symbolId = inbound.order.symbolId := by
        rw [s.assigned_eq]
      have hsilent : ∀ event ∈ acknowledgement inbound.clientId (s.assigned inbound)
          :: ((E sym').fills o inbound.clientId).trades.map fillEvent
            ++ prevention inbound.clientId (s.assigned inbound) report, event.Silent := by
        intro event hmem
        simp only [List.cons_append, List.mem_cons, List.mem_append, List.mem_map] at hmem
        rcases hmem with rfl | ⟨t, -, rfl⟩ | hmem
        · exact fun _ _ => rfl
        · exact fun _ _ => rfl
        · obtain ⟨rfl, -⟩ := eq_of_mem_prevention hmem
          exact fun _ _ => rfl
      dsimp only at hlast
      rw [List.foldl_append, foldl_hear_of_silent hsilent, hassigned] at hlast
      unfold bboEvents MultiAssetEngine.getBook at hlast
      rw [hsym] at hlast
      change (if inbound.order.symbolId.toUInt8.toNat = sym then some _ else known) = _ at hlast
      rw [hid] at hlast
      split at hlast
      · next heq =>
          obtain rfl := Fin.ext heq
          rw [← Option.some.inj hlast]
          apply (hengine.hasLayout sym').shownBy_bbo
      · next hne =>
          rw [Function.update_of_ne fun heq => hne (congrArg Fin.val heq.symm)]
          apply hknown msg hlast
  | @refused sym' risk engine o reason hkind hlock hsym ho herror hengine =>
      have hprocessed := (E sym').process_cases o inbound.clientId []
      rw [herror] at hprocessed
      obtain ⟨-, -, -, hladder, -⟩ := hprocessed.of_error (hE.wellFormed sym')
      have hbefore := hknown msg hlast
      rcases eq_or_ne sym sym' with rfl | hne
      · rw [Function.update_self]
        apply hbefore.congr hladder
      · rw [Function.update_of_ne hne]
        apply hbefore

/-! ### Runs -/

/-- The totals are exact, and what is known of the quotes is what the layouts give. -/
structure Shown (round : Round) (E : Fin NUM_SYMBOLS → Layout) : Prop where
  exact : ∀ sym, (E sym).Exact
  priced : BidsPriced E
  shown : ∀ sym msg, lastQuote sym round.events = some msg → (E sym).ShownBy msg

theorem shown_run {fs : List Funding} (hfunds : ∀ c, totalDeposited fs c < 2 ^ 64)
    (hmargined : ∀ inbound ∈ inbounds, inbound.Margined) :
  ∃ E, ((fund fs).run inbounds).state.engine.HasLayouts E ∧ Shown ((fund fs).run inbounds) E
  := by
  apply run_outcomes (P := fun _ round E => Shown round E)
    (solvent_fund hfunds).sound.layouts
  · refine ⟨fun _ => ?_, fun _ => ?_, fun sym msg hmsg s => ?_⟩
    · simp [Layout.Exact, Layout.new]
    · simp [Layout.resting, Layout.new]
    · obtain rfl := Option.some.inj hmsg
      cases s <;> rfl
  · intro earlier inbound E₁ round E₂ hinitial hE₁ hround houtcome hearlier
    have hmargined' := hmargined inbound (hinitial.subset (by simp))
    have hpriced := houtcome.bidsPriced hE₁ hearlier.priced hmargined'
    obtain ⟨E₀, hsolvent⟩ := (solvent_fund hfunds).run
      fun inbound' hmem => hmargined inbound' (hinitial.subset hmem)
    rw [run_concat_eq, hround] at hsolvent
    have hbounded := hsolvent.bounded (houtcome.hasLayouts hE₁) hpriced
    refine ⟨houtcome.exact hE₁ hearlier.exact hbounded, hpriced, fun sym msg hmsg => ?_⟩
    change lastQuote sym (_ ++ round.events) = _ at hmsg
    rw [lastQuote_append] at hmsg
    apply houtcome.shownBy hE₁ (hearlier.shown sym) hmsg

/-- What a listener knows of the quotes of a book after any run of a funded exchange is what the
book has best. -/
theorem quotes_run {fs : List Funding} (hfunds : ∀ c, totalDeposited fs c < 2 ^ 64)
    (hmargined : ∀ inbound ∈ inbounds, inbound.Margined) {msg : ServerMessage}
    (hlast : lastQuote sym ((fund fs).run inbounds).events = some msg) :
  msg.Quotes (((fund fs).run inbounds).state.engine.books sym)
  := by
  obtain ⟨E, hE, hshown⟩ := shown_run hfunds hmargined
  apply (hE.hasLayout sym).quotes (hE.wellFormed sym) (hshown.exact sym)
  apply hshown.shown sym msg hlast

/-- The trading day before the ask is cancelled. -/
def tradingMorning : List InboundMessage := tradingDay.take 3

theorem quotes_run_tradingMorning :
  ∃ msg, lastQuote 0 ((fund twoTraders).run tradingMorning).events = some msg
    ∧ msg.Quotes (((fund twoTraders).run tradingMorning).state.engine.books 0)
  := by
  have hmargined : ∀ inbound ∈ tradingMorning, inbound.Margined := by
    simp only [tradingMorning, tradingDay, List.take_succ_cons, List.take_zero,
      List.forall_mem_cons, InboundMessage.Margined]
    decide
  have hsome : (lastQuote 0 ((fund twoTraders).run tradingMorning).events).isSome := by
    decide +kernel
  obtain ⟨msg, hlast⟩ := Option.isSome_iff_exists.mp hsome
  exact ⟨msg, hlast, quotes_run totalDeposited_twoTraders_lt hmargined hlast⟩

end Exchange

end LimitOrderBook
