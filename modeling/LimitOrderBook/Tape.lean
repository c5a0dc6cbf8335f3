import LimitOrderBook.Execution
import LimitOrderBook.Lifecycle

/-!
# The tape

The trades of a run, in the order in which they are made.  Each of them is told once, none is
between two orders of one user, and those of a symbol are numbered without a gap, whatever else
goes on between them (`Exchange.tape_run`).
-/

namespace LimitOrderBook

/-- The event tells of a trade. -/
def OutboundEvent.isFill : OutboundEvent → Bool
  | tradeFill .. => true
  | _ => false

/-- Events that are no fills leave nothing on the tape. -/
theorem OutboundEvent.filter_isFill_eq_nil {events : List OutboundEvent}
    (h : ∀ event ∈ events, event.isFill = false) :
  events.filter isFill = []
  := List.filter_eq_nil_iff.mpr fun event hmem => by simp [h event hmem]

/-- A trade is of some quantity, between two users. -/
structure Trade.Proper (t : Trade) : Prop where
  qty_pos : 0 < t.qty
  users_ne : t.makerUserId ≠ t.takerUserId

/-- A trade of a well-formed layout is proper. -/
theorem Layout.proper_of_mem_fills {L : Layout} (hw : L.WellFormed) {o : Order}
    {clientId : UInt64} {t : Trade} (ht : t ∈ (L.fills o clientId).trades) :
  t.Proper ∧ t.symbolId = o.symbolId
  := by
  have hmem := mem_trades_matchOrders (o.accepts o.takesFrom) clientId (L.stamped o)
    L.tradeIdCounter (L.resting o.takesFrom) (t := t)
  rw [hw.fills_eq] at hmem
  obtain ⟨r, -, id, qty, taker, htaker, heq, huser, -⟩ := hmem ht
  have hsymbol : taker.symbolId = o.symbolId := by
    rw [htaker]
    rfl
  have htakerUser : taker.userId = (L.stamped o).userId := by
    rw [htaker]
  refine ⟨⟨hw.qty_pos_of_mem_fills o clientId t ht, ?_⟩, ?_⟩
  · rw [heq]
    change r.order.userId ≠ taker.userId
    rwa [htakerUser]
  · rw [heq]
    exact hsymbol

namespace Exchange

variable {s : Exchange} {E E' : Fin NUM_SYMBOLS → Layout} {inbound : InboundMessage}
  {round : Round}

/-- The trades of a symbol. -/
def tradesOf (sym : Fin NUM_SYMBOLS) (ts : List Trade) : List Trade :=
  ts.filter fun t => symIdx t.symbolId = some sym

/-- The trades of a symbol, over two stretches of a run. -/
theorem tradesOf_append (sym : Fin NUM_SYMBOLS) (ts ts' : List Trade) :
  tradesOf sym (ts ++ ts') = tradesOf sym ts ++ tradesOf sym ts'
  := List.filter_append ..

/-- The trades of one order are all of its symbol. -/
theorem tradesOf_eq (sym : Fin NUM_SYMBOLS) {ts : List Trade} {symbolId : UInt16}
    (hts : ∀ t ∈ ts, t.symbolId = symbolId) :
  tradesOf sym ts = if symIdx symbolId = some sym then ts else []
  := by
  unfold tradesOf
  split
  · next hsym =>
      apply List.filter_eq_self.mpr
      intro t ht
      rw [hts t ht]
      apply decide_eq_true hsym
  · next hsym =>
      apply List.filter_eq_nil_iff.mpr
      intro t ht
      rw [hts t ht]
      simpa using hsym

/-- The trades of a round carry on the numbers of the books. -/
theorem Outcome.tradesOf_numbered (h : s.Outcome E inbound round E') (hE : s.engine.HasLayouts E)
    (sym : Fin NUM_SYMBOLS) :
  (tradesOf sym round.trades).map (·.matchId)
      = List.iterate (· + 1) (E sym).tradeIdCounter (tradesOf sym round.trades).length
    ∧ (E' sym).tradeIdCounter
      = (E sym).tradeIdCounter + UInt64.ofNat (tradesOf sym round.trades).length
  := by
  have hnone : (tradesOf sym []).map (·.matchId)
        = List.iterate (· + 1) (E sym).tradeIdCounter (tradesOf sym []).length
      ∧ (E sym).tradeIdCounter
        = (E sym).tradeIdCounter + UInt64.ofNat (tradesOf sym []).length :=
    ⟨rfl, (UInt64.add_zero _).symm⟩
  have hcounter : ∀ (sym' : Fin NUM_SYMBOLS) (o : Order),
      ((E sym').process o inbound.clientId []).2.1.tradeIdCounter = (E sym').tradeIdCounter
        + UInt64.ofNat ((E sym').fills o inbound.clientId).trades.length := by
    intro sym' o
    rw [Layout.tradeIdCounter_processed ((E sym').process_cases o inbound.clientId []),
      (hE.wellFormed sym').nextId_fills]
  cases h with
  | notCancelled | unfunded => exact hnone
  | @cancelled sym' _ _ _ pl =>
      refine ⟨hnone.1, ?_⟩
      rcases eq_or_ne sym sym' with rfl | hne
      · rw [Function.update_self]
        exact hnone.2
      · rw [Function.update_of_ne hne]
        exact hnone.2
  | @taken sym' _ _ o _ _ _ hsym ho =>
      have hw := hE.wellFormed sym'
      have hsymbol : ∀ t ∈ ((E sym').fills o inbound.clientId).trades,
          t.symbolId = inbound.order.symbolId := by
        intro t ht
        rw [(Layout.proper_of_mem_fills hw ht).2, ho]
      have htrades := tradesOf_eq sym hsymbol
      dsimp only
      rcases eq_or_ne sym sym' with rfl | hne
      · rw [htrades, if_pos hsym, Function.update_self]
        exact ⟨hw.matchIds_fills o inbound.clientId, hcounter sym o⟩
      · rw [htrades, if_neg (by rw [hsym]; exact fun h => hne (Option.some.inj h).symm),
          Function.update_of_ne hne]
        exact hnone
  | @refused sym' _ _ o _ _ _ _ _ herror =>
      refine ⟨hnone.1, ?_⟩
      rcases eq_or_ne sym sym' with rfl | hne
      · rw [Function.update_self, hcounter,
          Layout.fills_trades_of_error (hE.wellFormed sym) herror]
        rfl
      · rw [Function.update_of_ne hne]
        exact hnone.2

/-- A round tells of each of its trades once, and they are proper. -/
theorem Outcome.fills_eq (h : s.Outcome E inbound round E') (hE : s.engine.HasLayouts E) :
  round.events.filter OutboundEvent.isFill = round.trades.map fillEvent
    ∧ ∀ t ∈ round.trades, t.Proper
  := by
  cases h with
  | notCancelled | unfunded | cancelled | refused => exact ⟨rfl, nofun⟩
  | @taken sym' _ _ o report =>
      refine ⟨?_, fun t ht => (Layout.proper_of_mem_fills (hE.wellFormed sym') ht).1⟩
      have hfills : ∀ ts : List Trade,
          (ts.map fillEvent).filter OutboundEvent.isFill = ts.map fillEvent := by
        intro ts
        apply List.filter_eq_self.mpr
        intro event hmem
        obtain ⟨t, -, rfl⟩ := List.mem_map.mp hmem
        rfl
      have hprevention : (prevention inbound.clientId (s.assigned inbound) report).filter
          OutboundEvent.isFill = [] := by
        apply OutboundEvent.filter_isFill_eq_nil
        intro event hmem
        obtain ⟨rfl, -⟩ := eq_of_mem_prevention hmem
        rfl
      have hbbo : ∀ (engine : MultiAssetEngine) (symbolId : UInt16),
          (bboEvents engine symbolId).filter OutboundEvent.isFill = [] := by
        intro engine symbolId
        apply OutboundEvent.filter_isFill_eq_nil
        intro event hmem
        obtain ⟨msg, rfl⟩ := exists_of_mem_bboEvents hmem
        rfl
      dsimp only
      rw [List.filter_append, List.filter_append, hprevention, hbbo, List.append_nil,
        List.append_nil, List.filter_cons_of_neg (by simp [acknowledgement, OutboundEvent.isFill]),
        hfills]

/-- The tape of a round: each trade is told once, in order; it is of some quantity and between two
users; and the trades of a symbol carry on the numbers of its book. -/
structure Tape (s : Exchange) (round : Round) : Prop where
  fills_eq : round.events.filter OutboundEvent.isFill = round.trades.map fillEvent
  proper : ∀ t ∈ round.trades, t.Proper
  matchIds_eq : ∀ sym, (tradesOf sym round.trades).map (·.matchId)
    = List.iterate (· + 1) (s.engine.books sym).tradeIdCounter (tradesOf sym round.trades).length
  counter_eq : ∀ sym, (round.state.engine.books sym).tradeIdCounter
    = (s.engine.books sym).tradeIdCounter + UInt64.ofNat (tradesOf sym round.trades).length

/-- Handling one message keeps the tape exact. -/
theorem Tape.step {first : Round} (h : s.Tape first) (hE : first.state.engine.HasLayouts E)
    (hE' : round.state.engine.HasLayouts E')
    (houtcome : first.state.Outcome E inbound round E') :
  s.Tape (first.andThen round)
  := by
  obtain ⟨hfills, hproper⟩ := houtcome.fills_eq hE
  have happend (sym : Fin NUM_SYMBOLS) : tradesOf sym (first.andThen round).trades
      = tradesOf sym first.trades ++ tradesOf sym round.trades := tradesOf_append ..
  constructor
  · change (first.events ++ round.events).filter _ = (first.trades ++ round.trades).map _
    rw [List.filter_append, h.fills_eq, hfills, List.map_append]
  · intro t ht
    rcases List.mem_append.mp ht with ht | ht
    · apply h.proper t ht
    · apply hproper t ht
  · intro sym
    have hnumbered := (houtcome.tradesOf_numbered hE sym).1
    rw [← (hE.hasLayout sym).tradeIdCounter_eq, h.counter_eq] at hnumbered
    rw [happend, List.map_append, List.length_append, List.iterate_add, iterate_add_one,
      ← hnumbered, ← h.matchIds_eq]
  · intro sym
    have hcounter := (houtcome.tradesOf_numbered hE sym).2
    rw [← (hE.hasLayout sym).tradeIdCounter_eq, ← (hE'.hasLayout sym).tradeIdCounter_eq,
      h.counter_eq] at hcounter
    change (round.state.engine.books sym).tradeIdCounter = _
    rw [hcounter, happend, List.length_append, UInt64.ofNat_add, UInt64.add_assoc]

/-- No trade of a run is lost, told twice or numbered twice. -/
theorem tape_run (h : s.Operable) (inbounds : List InboundMessage) :
  s.Tape (s.run inbounds)
  := by
  obtain ⟨E, hsound⟩ := h
  obtain ⟨E', -, htape⟩ : ∃ E', (s.run inbounds).state.engine.HasLayouts E'
      ∧ s.Tape (s.run inbounds) := by
    apply run_outcomes (P := fun _ round _ => s.Tape round) hsound.layouts
    · exact ⟨rfl, nofun, fun _ => rfl, fun _ => (UInt64.add_zero _).symm⟩
    · intro earlier inbound E₁ round E₂ _ hE₁ _ houtcome hearlier
      apply hearlier.step hE₁ (houtcome.hasLayouts hE₁) houtcome
  exact htape

/-- Over the sample day the tape is exact. -/
theorem tape_run_tradingDay :
  (fund twoTraders).Tape ((fund twoTraders).run tradingDay)
  := tape_run (live_fund twoTraders).operable tradingDay

end Exchange

end LimitOrderBook
