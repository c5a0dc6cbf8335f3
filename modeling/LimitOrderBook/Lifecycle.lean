import Mathlib.Data.List.Iterate
import LimitOrderBook.Rounds
import LimitOrderBook.MarketFlow
import LimitOrderBook.MarketSettlement

/-!
# What clients are told of their orders

The loop acknowledges an order under an identifier, and later events speak of the order by it.
The identifiers are consecutive numbers, over all books (`numbers_run`).  What the events report as
filled and as cancelled of a limit order is what is gone from the book: with what is still open
it is the quantity of the order, unless an event has told the client that the rest was turned
away, and then nothing is open (`accounted_run`).
-/

namespace LimitOrderBook

/-! ### What an event says of an order -/

namespace OutboundEvent

/-- The quantity that an event reports as filled or as cancelled of an order. -/
def reported (k : UInt64) : OutboundEvent → Nat
  | tradeFill _ _ takerMsg makerMsg =>
      (if takerMsg.orderId = k then takerMsg.qty.toNat else 0)
        + if makerMsg.orderId = k then makerMsg.qty.toNat else 0
  | clientCancelOk _ msg => if msg.orderId = k then msg.qty.toNat else 0
  | _ => 0

/-- The event says that what is left of an order is turned away. -/
def TurnsAway (k : UInt64) : OutboundEvent → Prop
  | clientReject _ msg =>
      msg.orderId = k
        ∧ (msg.rejectCode = RejectReason.engineFull.toByte
          ∨ msg.rejectCode = RejectReason.selfTradePrevented.toByte)
  | _ => False

/-- The identifier that an event acknowledges. -/
def ackId : OutboundEvent → Option UInt64
  | clientAck _ msg => some msg.orderId
  | _ => none

/-- The quantity that a sequence of events reports. -/
def reportedIn (k : UInt64) (events : List OutboundEvent) : Nat := (events.map (reported k)).sum

@[simp]
theorem reportedIn_nil (k : UInt64) :
  reportedIn k [] = 0
  := rfl

@[simp]
theorem reportedIn_cons (k : UInt64) (event : OutboundEvent) (events : List OutboundEvent) :
  reportedIn k (event :: events) = event.reported k + reportedIn k events
  := by
  unfold reportedIn
  rw [List.map_cons, List.sum_cons]

@[simp]
theorem reportedIn_append (k : UInt64) (events events' : List OutboundEvent) :
  reportedIn k (events ++ events') = reportedIn k events + reportedIn k events'
  := by
  unfold reportedIn
  rw [List.map_append, List.sum_append]

end OutboundEvent

/-! ### What is open of an order -/

/-- What rests in a book under an identifier. -/
def OrderBook.openQty (b : OrderBook) (k : UInt64) : Nat :=
  qtyWhere (fun o => o.id == k) Order.qty (b.restingOrders .buy ++ b.restingOrders .sell)

/-- What rests in all books under an identifier. -/
def MultiAssetEngine.openQty (e : MultiAssetEngine) (k : UInt64) : Nat :=
  ∑ sym, (e.books sym).openQty k

namespace Layout

variable {L : Layout} {o : Order} {clientId : UInt64} {report : ExecutionReport}

def openQty (L : Layout) (k : UInt64) : Nat := (MakerTest.named k).resting (restingOf L.levels)

/-- An order that has an id keeps it. -/
theorem stamp_of_ne (L : Layout) (hid : o.id ≠ 0) :
  L.stamp o = o.id
  := if_neg hid

/-- The identifier of the taker in its trades. -/
theorem takerOrderId_of_mem_fills (hw : L.WellFormed) (hid : o.id ≠ 0) :
  ∀ t ∈ (L.fills o clientId).trades, t.takerOrderId = o.id
  := by
  intro t ht
  have hmem := mem_trades_matchOrders (o.accepts o.takesFrom) clientId (L.stamped o)
    L.tradeIdCounter (L.resting o.takesFrom) (t := t)
  rw [hw.fills_eq] at hmem
  obtain ⟨r, -, id, qty, taker, htaker, rfl, -⟩ := hmem ht
  change taker.id = o.id
  rw [htaker, ← L.stamp_of_ne hid]
  rfl

/-- What is open when the engine has taken an order: what was, less what has been traded, and
what comes to rest. -/
theorem openQty_of_ok (hw : L.WellFormed) (hid : o.id ≠ 0) {trades : List Trade}
    (hok : (L.process o clientId trades).1 = .ok report) (k : UInt64) :
  (L.process o clientId trades).2.1.openQty k
      + qtyWhere (MakerTest.named k).trade Trade.qty (L.fills o clientId).trades
    = L.openQty k + if o.id = k ∧ L.Rests o clientId then report.remainingQty.toNat else 0
  := by
  have htaken := (MakerTest.named k).resting_taken hw o clientId
  have hreport := report_of_process_ok hok
  have hprocessed := L.process_cases o clientId trades
  rw [hok] at hprocessed
  generalize (L.process o clientId trades).2.1 = L' at hprocessed ⊢
  unfold openQty
  rcases hprocessed.put_or hw with ⟨hladder, hnot⟩ | ⟨hrests, -, i, j, L₁, hw₁, hladder, rfl⟩
  · rw [if_neg fun h => (hnot report rfl).2 h.2, MakerTest.resting_congr _ hladder]
    omega
  · have hput := (MakerTest.named k).resting_put hw₁ ⟨i, (L.fills o clientId).taker, clientId⟩ j
    have hnamed : ((MakerTest.named k).order (L.fills o clientId).taker = true) = (o.id = k) := by
      change (((L.fills o clientId).taker.id == k) = true) = _
      rw [id_taker_fills, L.stamp_of_ne hid, beq_iff_eq]
    rw [MakerTest.resting_congr _ hladder] at hput
    rw [hput, hreport]
    simp only [hnamed, hrests, and_true, Layout.report]
    omega

/-- No more is traded with an order than was open of it. -/
theorem traded_le_openQty (hw : L.WellFormed) (o : Order) (clientId k : UInt64) :
  qtyWhere (MakerTest.named k).trade Trade.qty (L.fills o clientId).trades ≤ L.openQty k
  := by
  have htaken := (MakerTest.named k).resting_taken hw o clientId
  unfold openQty
  omega

/-- An order the book refuses leaves nothing of anyone's open or closed. -/
theorem openQty_of_error (hw : L.WellFormed) {trades : List Trade} {reason : RejectReason}
    (herror : (L.process o clientId trades).1 = .error reason) (k : UInt64) :
  (L.process o clientId trades).2.1.openQty k = L.openQty k
  := by
  have hprocessed := L.process_cases o clientId trades
  rw [herror] at hprocessed
  obtain ⟨-, -, -, hladder, -⟩ := hprocessed.of_error hw
  apply MakerTest.resting_congr _ hladder

/-- A cancel takes from the open quantity what it removes. -/
theorem openQty_remove (pl : L.Place) (k : UInt64) :
  (L.remove pl).openQty k + (if pl.order.order.id = k then pl.order.order.qty.toNat else 0)
    = L.openQty k
  := by
  have hremove := (MakerTest.named k).resting_remove pl
  unfold openQty
  rw [hremove, Nat.add_comm]
  simp only [MakerTest.named, beq_iff_eq]

end Layout

/-- The open quantity under an id, read off the layout. -/
theorem OrderBook.HasLayout.openQty_eq {b : OrderBook} {L : Layout} (h : b.HasLayout L)
    (k : UInt64) :
  b.openQty k = L.openQty k
  := by
  have hmap (rs : List Resting) : qtyWhere (fun o => o.id == k) Order.qty (rs.map (·.order))
      = (MakerTest.named k).resting rs := by
    unfold MakerTest.resting qtyWhere
    rw [List.filter_map, List.map_map]
    rfl
  unfold OrderBook.openQty Layout.openQty Layout.levels
  rw [h.restingOrders_eq, h.restingOrders_eq, ← List.map_append, hmap]
  unfold Layout.resting restingOf
  rw [List.flatMap_append]

namespace Exchange

variable {s : Exchange} {E E' : Fin NUM_SYMBOLS → Layout} {inbound : InboundMessage}
  {inbounds : List InboundMessage} {round : Round}

def openQty (E : Fin NUM_SYMBOLS → Layout) (k : UInt64) : Nat := ∑ sym, (E sym).openQty k

/-- One book changes. -/
theorem openQty_update (E : Fin NUM_SYMBOLS → Layout) (sym : Fin NUM_SYMBOLS) (L : Layout)
    (k : UInt64) :
  openQty (Function.update E sym L) k + (E sym).openQty k = openQty E k + L.openQty k
  := by
  have hupdate : ∀ i, (Function.update E sym L i).openQty k
      = Function.update (fun i => (E i).openQty k) sym (L.openQty k) i :=
    Function.apply_update (fun _ (L : Layout) => L.openQty k) E sym L
  have hsum := Finset.add_sum_erase Finset.univ (fun i => (E i).openQty k) (Finset.mem_univ sym)
  unfold openQty
  rw [Finset.sum_congr rfl fun i _ => hupdate i, Finset.sum_update_of_mem (Finset.mem_univ sym),
    ← hsum, Finset.sdiff_singleton_eq_erase]
  omega

theorem openQty_le (E : Fin NUM_SYMBOLS → Layout) (sym : Fin NUM_SYMBOLS) (k : UInt64) :
  (E sym).openQty k ≤ openQty E k
  := Finset.single_le_sum (fun i _ => Nat.zero_le ((E i).openQty k)) (Finset.mem_univ sym)

end Exchange

/-- The open quantity under an id, over all three books. -/
theorem MultiAssetEngine.HasLayouts.openQty_eq {e : MultiAssetEngine}
    {E : Fin NUM_SYMBOLS → Layout} (h : e.HasLayouts E) (k : UInt64) :
  e.openQty k = Exchange.openQty E k
  := Finset.sum_congr rfl fun sym _ => (h.hasLayout sym).openQty_eq k

open OutboundEvent

/-! ### What a round reports -/

namespace Exchange

variable {s : Exchange} {E E' : Fin NUM_SYMBOLS → Layout} {inbound : InboundMessage}
  {inbounds : List InboundMessage} {round : Round}

/-- The rejections that turn an order away after its margin was locked. -/
theorem turnsAway_rejection {k clientId : UInt64} {order : Order} {reason : RejectReason} :
  (rejection clientId order reason).TurnsAway k
    ↔ order.id = k ∧ (reason = .engineFull ∨ reason = .selfTradePrevented)
  := by
  change order.id = k ∧ (reason.toByte = _ ∨ reason.toByte = _) ↔ _
  rw [RejectReason.toByte_inj, RejectReason.toByte_inj]

/-- What the fills of a taker report. -/
theorem reportedIn_fills {k id : UInt64} {trades : List Trade}
    (htaker : ∀ t ∈ trades, t.takerOrderId = id) :
  reportedIn k (trades.map fillEvent)
    = (if id = k then tradedQty trades else 0)
      + qtyWhere (MakerTest.named k).trade Trade.qty trades
  := by
  induction trades with
  | nil => simp
  | cons t trades ih =>
      have hid := htaker t List.mem_cons_self
      rw [List.map_cons, reportedIn_cons, ih fun t' ht' => htaker t' (List.mem_cons_of_mem t ht'),
        qtyWhere_cons, tradedQty_cons]
      change (if t.takerOrderId = k then t.qty.toNat else 0)
        + (if t.makerOrderId = k then t.qty.toNat else 0) + _ = _
      rw [hid]
      simp only [MakerTest.named, beq_iff_eq]
      split <;> omega

theorem reportedIn_eq_zero {k : UInt64} {events : List OutboundEvent}
    (h : ∀ event ∈ events, event.reported k = 0) :
  reportedIn k events = 0
  := by
  apply List.sum_eq_zero
  intro n hn
  obtain ⟨event, hmem, rfl⟩ := List.mem_map.mp hn
  apply h event hmem

/-- The events around the fills report no quantity, and only a prevention turns an order away. -/
theorem reportedIn_bboEvents (k : UInt64) (engine : MultiAssetEngine) (symbolId : UInt16) :
  reportedIn k (bboEvents engine symbolId) = 0
    ∧ ∀ event ∈ bboEvents engine symbolId, ¬ event.TurnsAway k
  := by
  constructor
  · apply reportedIn_eq_zero
    intro event hmem
    obtain ⟨msg, rfl⟩ := exists_of_mem_bboEvents hmem
    rfl
  · intro event hmem
    obtain ⟨msg, rfl⟩ := exists_of_mem_bboEvents hmem
    exact not_false

/-- The report of a prevented self-trade reports no quantity. -/
theorem reportedIn_prevention (k clientId : UInt64) (order : Order) (report : ExecutionReport) :
  reportedIn k (prevention clientId order report) = 0
  := by
  apply reportedIn_eq_zero
  intro event hmem
  obtain ⟨rfl, -⟩ := eq_of_mem_prevention hmem
  rfl

/-- A prevented self-trade turns the remaining quantity away. -/
theorem turnsAway_prevention {k clientId : UInt64} {order : Order} {report : ExecutionReport} :
  (∃ event ∈ prevention clientId order report, event.TurnsAway k)
    ↔ order.id = k ∧ report.stpTriggered = true ∧ 0 < report.remainingQty
  := by
  unfold prevention
  split
  · next hstp =>
      simp only [List.mem_singleton, exists_eq_left, turnsAway_rejection, or_true, and_true]
      exact (and_iff_left hstp).symm
  · next hstp =>
      simp only [List.not_mem_nil, false_and, exists_false, false_iff, not_and]
      exact fun _ hstp' hpos => hstp ⟨hstp', hpos⟩

/-- What is reported when the engine has taken an order. -/
theorem reportedIn_taken {k clientId : UInt64} {order : Order} {trades : List Trade}
    {report : ExecutionReport} {engine : MultiAssetEngine} {symbolId : UInt16}
    (htaker : ∀ t ∈ trades, t.takerOrderId = order.id) :
  reportedIn k (acknowledgement clientId order :: trades.map fillEvent
        ++ prevention clientId order report ++ bboEvents engine symbolId)
      = (if order.id = k then tradedQty trades else 0)
        + qtyWhere (MakerTest.named k).trade Trade.qty trades
    ∧ ((∃ event ∈ acknowledgement clientId order :: trades.map fillEvent
        ++ prevention clientId order report ++ bboEvents engine symbolId, event.TurnsAway k)
      ↔ order.id = k ∧ report.stpTriggered = true ∧ 0 < report.remainingQty)
  := by
  obtain ⟨hnone, hbbo⟩ := reportedIn_bboEvents k engine symbolId
  constructor
  · rw [reportedIn_append, reportedIn_append, reportedIn_cons, reportedIn_fills htaker,
      reportedIn_prevention, hnone]
    exact Nat.zero_add _
  · rw [← @turnsAway_prevention k clientId]
    simp only [List.cons_append, List.mem_cons, List.mem_append, List.mem_map]
    constructor
    · rintro ⟨event, rfl | (⟨t, -, rfl⟩ | hmem) | hmem, haway⟩
      · exact absurd haway not_false
      · exact absurd haway not_false
      · exact ⟨event, hmem, haway⟩
      · exact absurd haway (hbbo event hmem)
    · rintro ⟨event, hmem, haway⟩
      exact ⟨event, Or.inr (Or.inl (Or.inr hmem)), haway⟩

end Exchange

/-- What the events tell of an order, and what is open of it. -/
structure Order.Accounted (order : Order) (events : List OutboundEvent) (openQty : Nat) : Prop where
  le : OutboundEvent.reportedIn order.id events + openQty ≤ order.qty.toNat
  eq_of_limit : order.kind = .limit → (∀ event ∈ events, ¬ event.TurnsAway order.id) →
    OutboundEvent.reportedIn order.id events + openQty = order.qty.toNat
  open_of_turnsAway : (∃ event ∈ events, event.TurnsAway order.id) → openQty = 0
  open_of_ne_limit : order.kind ≠ .limit → openQty = 0

/-- Later events keep the account of an order. -/
theorem Order.Accounted.append {order : Order} {events events' : List OutboundEvent}
    {openQty openQty' : Nat} (h : order.Accounted events openQty)
    (hopen : openQty' + OutboundEvent.reportedIn order.id events' = openQty)
    (haway : ∀ event ∈ events', ¬ event.TurnsAway order.id) :
  order.Accounted (events ++ events') openQty'
  := by
  obtain ⟨hle, heq, hclosed, hother⟩ := h
  constructor
  · rw [OutboundEvent.reportedIn_append]
    omega
  · intro hkind hnone
    have hall := heq hkind fun event hmem => hnone event (List.mem_append_left _ hmem)
    rw [OutboundEvent.reportedIn_append]
    omega
  · rintro ⟨event, hmem, htold⟩
    rcases List.mem_append.mp hmem with hmem | hmem
    · have hzero := hclosed ⟨event, hmem, htold⟩
      omega
    · exact absurd htold (haway event hmem)
  · intro hkind
    have hzero := hother hkind
    omega

/-- Events that say nothing of an order may come first. -/
theorem Order.Accounted.prepend {order : Order} {events events' : List OutboundEvent}
    {openQty : Nat} (h : order.Accounted events' openQty)
    (hnone : OutboundEvent.reportedIn order.id events = 0)
    (haway : ∀ event ∈ events, ¬ event.TurnsAway order.id) :
  order.Accounted (events ++ events') openQty
  := by
  obtain ⟨hle, heq, hclosed, hother⟩ := h
  constructor
  · rw [OutboundEvent.reportedIn_append, hnone, Nat.zero_add]
    apply hle
  · intro hkind hall
    rw [OutboundEvent.reportedIn_append, hnone, Nat.zero_add]
    apply heq hkind fun event hmem => hall event (List.mem_append_right _ hmem)
  · rintro ⟨event, hmem, htold⟩
    rcases List.mem_append.mp hmem with hmem | hmem
    · exact absurd htold (haway event hmem)
    · apply hclosed ⟨event, hmem, htold⟩
  · apply hother

namespace Exchange

variable {s : Exchange} {E E' : Fin NUM_SYMBOLS → Layout} {inbound : InboundMessage}
  {inbounds : List InboundMessage} {round : Round}

/-- An order that has passed the quarantine gets the next identifier, and the engine takes it
under that. -/
theorem assigned_of_quarantined (hid : inbound.order.id = 0)
    (hcounter : s.engine.globalOrderIdCounter ≠ 0) :
  (s.assigned inbound).id = s.engine.globalOrderIdCounter
    ∧ { inbound.order with id := s.exchangeId inbound } = s.assigned inbound
  := by
  have hassigned : (s.assigned inbound).id = s.engine.globalOrderIdCounter := by
    unfold assigned assignId
    rw [if_pos hid]
    rfl
  refine ⟨hassigned, ?_⟩
  rw [s.assigned_eq inbound]
  unfold exchangeId MultiAssetEngine.stampId
  rw [if_neg (by rwa [hassigned])]

section

variable {L : Layout} {o : Order} {clientId k : UInt64} {report : ExecutionReport}
  {reason : RejectReason} {engine : MultiAssetEngine} {symbolId : UInt16}

/-- What is reported of other orders when the engine takes an order is gone from its book. -/
theorem reportedIn_of_ok (hw : L.WellFormed) (hid : o.id ≠ 0)
    (hok : (L.process o clientId []).1 = .ok report) (hk : o.id ≠ k) :
  (L.process o clientId []).2.1.openQty k
      + reportedIn k (acknowledgement clientId o :: (L.fills o clientId).trades.map fillEvent
        ++ prevention clientId o report ++ bboEvents engine symbolId) = L.openQty k
    ∧ ∀ event ∈ acknowledgement clientId o :: (L.fills o clientId).trades.map fillEvent
        ++ prevention clientId o report ++ bboEvents engine symbolId, ¬ event.TurnsAway k
  := by
  have hopen := Layout.openQty_of_ok hw hid hok k
  obtain ⟨hreported, haway⟩ := reportedIn_taken (Layout.takerOrderId_of_mem_fills hw hid)
  rw [if_neg fun h => hk h.1] at hopen
  rw [if_neg hk] at hreported
  constructor
  · rw [hreported]
    omega
  · intro event hmem htold
    exact hk (haway.mp ⟨event, hmem, htold⟩).1

/-- What is left of an order that the engine has taken rests, unless it has met an order of its
own user. -/
theorem rests_iff_of_ok (hok : (L.process o clientId []).1 = .ok report) :
  (L.Rests o clientId
      ↔ report.stpTriggered = false ∧ 0 < report.remainingQty ∧ o.kind = .limit)
    ∧ report.remainingQty = (L.fills o clientId).taker.qty
  := by
  rw [Layout.report_of_process_ok hok]
  exact ⟨Iff.rfl, rfl⟩

/-- An order that the engine takes is accounted for. -/
theorem accounted_of_ok (hw : L.WellFormed) (hid : o.id ≠ 0)
    (hok : (L.process o clientId []).1 = .ok report) (hfresh : L.openQty o.id = 0) :
  o.Accounted (acknowledgement clientId o :: (L.fills o clientId).trades.map fillEvent
      ++ prevention clientId o report ++ bboEvents engine symbolId)
    ((L.process o clientId []).2.1.openQty o.id)
  := by
  have hopen := Layout.openQty_of_ok hw hid hok o.id
  have htraded := Layout.traded_le_openQty hw o clientId o.id
  have hall := hw.tradedQty_fills o clientId
  obtain ⟨hreported, haway⟩ := reportedIn_taken (Layout.takerOrderId_of_mem_fills hw hid)
  obtain ⟨hrests, hremaining⟩ := rests_iff_of_ok hok
  rw [if_pos rfl] at hreported
  rw [← hremaining] at hall
  simp only [true_and, hrests] at hopen
  constructor
  · rw [hreported]
    split at hopen <;> omega
  · intro hlimit hnone
    rw [hreported]
    have hpos : 0 < report.remainingQty ↔ 0 < report.remainingQty.toNat :=
      UInt64.pos_iff_toNat_pos
    by_cases hzero : 0 < report.remainingQty
    · have hfree : report.stpTriggered = false := by
        by_contra hprevented
        obtain ⟨event, hevent, htold⟩ :=
          haway.mpr ⟨rfl, eq_true_of_ne_false hprevented, hzero⟩
        exact hnone event hevent htold
      rw [if_pos ⟨hfree, hzero, hlimit⟩] at hopen
      omega
    · rw [if_neg fun h => hzero h.2.1] at hopen
      rw [hpos] at hzero
      omega
  · intro htold
    obtain ⟨-, hprevented, -⟩ := haway.mp htold
    rw [if_neg (by rw [hprevented]; simp)] at hopen
    omega
  · intro hother
    rw [if_neg fun h => hother h.2.2] at hopen
    omega

/-- An order that the engine turns away is accounted for. -/
theorem accounted_of_error (hw : L.WellFormed)
    (herror : (L.process o clientId []).1 = .error reason) (hfresh : L.openQty o.id = 0) :
  o.Accounted [acknowledgement clientId o, rejection clientId o reason]
    ((L.process o clientId []).2.1.openQty o.id)
  := by
  have hprocessed := L.process_cases o clientId []
  rw [herror] at hprocessed
  obtain ⟨rfl, -⟩ := hprocessed.of_error hw
  rw [Layout.openQty_of_error hw herror, hfresh]
  refine ⟨Nat.zero_le _, fun _ hnone => ?_, fun _ => rfl, fun _ => rfl⟩
  exact absurd (turnsAway_rejection.mpr ⟨rfl, Or.inl rfl⟩)
    (hnone _ (List.mem_cons_of_mem _ (List.mem_singleton_self _)))

/-- A rejection that is not the engine's turns no order away. -/
theorem not_turnsAway_rejection {order : Order}
    (hreason : reason ≠ .engineFull ∧ reason ≠ .selfTradePrevented) :
  ∀ event ∈ [rejection clientId order reason], ¬ event.TurnsAway k
  := by
  intro event hmem
  rw [List.mem_singleton.mp hmem, turnsAway_rejection]
  rintro ⟨-, heq | heq⟩
  · exact hreason.1 heq
  · exact hreason.2 heq

end

/-- What a round reports of an order it has not accepted is what is gone from the books. -/
theorem Outcome.reportedIn_eq (h : s.Outcome E inbound round E') (hE : s.engine.HasLayouts E)
    (hquarantined : inbound.Quarantined) (hcounter : s.engine.globalOrderIdCounter ≠ 0)
    {k : UInt64} (hk : ∀ record ∈ round.wal, record.kind ≠ .cancel → record.id ≠ k) :
  openQty E' k + reportedIn k round.events = openQty E k
    ∧ ∀ event ∈ round.events, ¬ event.TurnsAway k
  := by
  have hassigned (hkind : inbound.order.kind ≠ .cancel) : (s.assigned inbound).kind ≠ .cancel := by
    rw [s.assigned_eq]
    apply hkind
  cases h with
  | notCancelled hkind hreason =>
      refine ⟨rfl, not_turnsAway_rejection ?_⟩
      rcases hreason with rfl | rfl | rfl <;> decide
  | unfunded hkind hlock =>
      refine ⟨rfl, not_turnsAway_rejection ?_⟩
      rcases RiskEngine.reason_of_lockOrderFunds hlock with rfl | rfl | rfl <;> decide
  | @cancelled sym engine hkind hsym pl =>
      have hremove := Layout.openQty_remove pl k
      have hupdate := openQty_update E sym ((E sym).remove pl) k
      constructor
      · rw [reportedIn_cons, reportedIn_nil]
        change _ + ((if pl.order.order.id = k then pl.order.order.qty.toNat else 0) + 0) = _
        omega
      · intro event hmem
        rw [List.mem_singleton.mp hmem]
        exact not_false
  | @taken sym risk engine o report hkind hlock hsym ho hok =>
      obtain ⟨hid, heq⟩ := s.assigned_of_quarantined (hquarantined.id_eq hkind) hcounter
      obtain rfl := ho.trans heq
      have hupdate := openQty_update E sym
        ((E sym).process (s.assigned inbound) inbound.clientId []).2.1 k
      obtain ⟨hreported, haway⟩ := reportedIn_of_ok (hE.wellFormed sym) (by rwa [hid]) hok
        (hk _ (List.mem_singleton_self _) (hassigned hkind))
      refine ⟨?_, haway⟩
      rw [← hreported] at hupdate
      dsimp only
      omega
  | @refused sym risk engine o reason hkind hlock hsym ho herror =>
      have hne := hk _ (List.mem_singleton_self _) (hassigned hkind)
      have hopen := Layout.openQty_of_error (hE.wellFormed sym) herror k
      have hupdate := openQty_update E sym ((E sym).process o inbound.clientId []).2.1 k
      constructor
      · change openQty _ k + 0 = _
        omega
      · intro event hmem htold
        rcases List.mem_pair.mp hmem with rfl | rfl
        · exact htold
        · exact hne (turnsAway_rejection.mp htold).1

/-- An order that is accepted is accounted for from then on. -/
theorem Outcome.accounted (h : s.Outcome E inbound round E') (hE : s.engine.HasLayouts E)
    (hquarantined : inbound.Quarantined) (hcounter : s.engine.globalOrderIdCounter ≠ 0)
    (hopen : openQty E s.engine.globalOrderIdCounter = 0) :
  ∀ record ∈ round.wal, record.kind ≠ .cancel →
    record.id = s.engine.globalOrderIdCounter
      ∧ record.Accounted round.events (openQty E' record.id)
  := by
  -- of the identifier that is next nothing is open in any book
  have hupdate (sym : Fin NUM_SYMBOLS) (L : Layout) :
      (E sym).openQty s.engine.globalOrderIdCounter = 0
        ∧ openQty (Function.update E sym L) s.engine.globalOrderIdCounter
          = L.openQty s.engine.globalOrderIdCounter := by
    have hsum := openQty_update E sym L s.engine.globalOrderIdCounter
    have hle := openQty_le E sym s.engine.globalOrderIdCounter
    omega
  intro record hmem hrecord
  cases h with
  | notCancelled | unfunded => cases hmem
  | cancelled hkind =>
      rw [List.mem_singleton.mp hmem] at hrecord
      exact absurd hkind hrecord
  | @taken sym risk engine o report hkind hlock hsym ho hok =>
      obtain ⟨hid, heq⟩ := s.assigned_of_quarantined (hquarantined.id_eq hkind) hcounter
      obtain rfl := ho.trans heq
      rw [← hid] at hupdate hcounter ⊢
      rw [List.mem_singleton.mp hmem, (hupdate sym _).2]
      exact ⟨rfl, accounted_of_ok (hE.wellFormed sym) hcounter hok (hupdate sym (E sym)).1⟩
  | @refused sym risk engine o reason hkind hlock hsym ho herror =>
      obtain ⟨hid, heq⟩ := s.assigned_of_quarantined (hquarantined.id_eq hkind) hcounter
      obtain rfl := ho.trans heq
      rw [← hid] at hupdate ⊢
      rw [List.mem_singleton.mp hmem, (hupdate sym _).2]
      exact ⟨rfl, accounted_of_error (hE.wellFormed sym) herror (hupdate sym (E sym)).1⟩

/-! ### Runs -/

/-- An exchange that has given away the identifiers of all orders that rest. -/
structure Live (s : Exchange) : Prop where
  operable : s.Operable
  counter_ne : s.engine.globalOrderIdCounter ≠ 0
  openQty_eq : ∀ k, s.engine.globalOrderIdCounter ≤ k → s.engine.openQty k = 0

/-- The counter after a round: it has gone on if an order has been accepted. -/
theorem counter_handle_cases (h : s.Operable) (hquarantined : inbound.Quarantined)
    (hcounter : s.engine.globalOrderIdCounter ≠ 0) :
  ((∀ record ∈ (s.handle inbound).wal, record.kind = .cancel)
      ∧ (s.handle inbound).state.engine.globalOrderIdCounter = s.engine.globalOrderIdCounter)
    ∨ ((s.handle inbound).wal = [s.assigned inbound] ∧ (s.assigned inbound).kind ≠ .cancel
      ∧ (s.handle inbound).state.engine.globalOrderIdCounter
        = s.engine.globalOrderIdCounter + 1)
  := by
  rcases handle_cases h inbound with ⟨hstate, hwal⟩ | ⟨hkind, -, hstate, hwal⟩ | ⟨hkind, risk, hlock⟩
  · rw [hstate, hwal]
    exact Or.inl ⟨nofun, rfl⟩
  · rw [hstate, hwal]
    refine Or.inl ⟨fun record hmem => ?_, rfl⟩
    rw [List.mem_singleton.mp hmem]
    apply hkind
  · right
    refine ⟨wal_of_lock hkind hlock, ?_,
      counter_handle_of_lock hkind (hquarantined.id_eq hkind) hlock hcounter⟩
    rw [s.assigned_eq]
    apply hkind

/-- Under each identifier that has still to be given away nothing is open and nothing has been
told; under the others, the orders that have been accepted are accounted for. -/
structure Tracks (round : Round) (E : Fin NUM_SYMBOLS → Layout) : Prop where
  fresh : ∀ k, round.state.engine.globalOrderIdCounter ≤ k → openQty E k = 0
    ∧ reportedIn k round.events = 0 ∧ ∀ event ∈ round.events, ¬ event.TurnsAway k
  accounted : ∀ record ∈ round.wal, record.kind ≠ .cancel →
    record.id < round.state.engine.globalOrderIdCounter
      ∧ record.Accounted round.events (openQty E record.id)

/-- Every message keeps the accounts of every order. -/
theorem Tracks.step {first : Round} (h : Tracks first E) (hE : first.state.engine.HasLayouts E)
    (hround : first.state.handle inbound = round) (houtcome : first.state.Outcome E inbound round E')
    (hoperable : first.state.Operable) (hquarantined : inbound.Quarantined)
    (hcounter : first.state.engine.globalOrderIdCounter ≠ 0)
    (hroom : first.state.engine.globalOrderIdCounter.toNat + 1 < 2 ^ 64) :
  Tracks (first.andThen round) E'
  := by
  have hcases := counter_handle_cases hoperable hquarantined hcounter
  have hnew := houtcome.accounted hE hquarantined hcounter (h.fresh _ (UInt64.le_refl _)).1
  rw [hround] at hcases
  -- an order is accepted under the identifier that was next
  have hle : first.state.engine.globalOrderIdCounter
      ≤ round.state.engine.globalOrderIdCounter
    ∧ ∀ record ∈ round.wal, record.kind ≠ .cancel →
      record.id < round.state.engine.globalOrderIdCounter := by
    rcases hcases with ⟨hcancels, heq⟩ | ⟨hwal, hkind, heq⟩
    · rw [heq]
      exact ⟨UInt64.le_refl _, fun record hmem hrecord => absurd (hcancels record hmem) hrecord⟩
    · have hlt : first.state.engine.globalOrderIdCounter
          < round.state.engine.globalOrderIdCounter := by
        rw [heq, UInt64.lt_iff_toNat_lt, UInt64.toNat_add_of_lt'] <;> rw [UInt64.toNat_one]
        · exact Nat.lt_succ_self _
        · omega
      refine ⟨UInt64.le_of_lt hlt, fun record hmem hrecord => ?_⟩
      rw [(hnew record hmem hrecord).1]
      apply hlt
  have hother : ∀ k, (∀ record ∈ round.wal, record.kind ≠ .cancel → record.id ≠ k) →
      openQty E' k + reportedIn k round.events = openQty E k
        ∧ ∀ event ∈ round.events, ¬ event.TurnsAway k :=
    fun k hk => houtcome.reportedIn_eq hE hquarantined hcounter hk
  constructor
  · intro k hk
    change round.state.engine.globalOrderIdCounter ≤ k at hk
    obtain ⟨hzero, hnone, haway⟩ := h.fresh k (UInt64.le_trans hle.1 hk)
    obtain ⟨heq, haway'⟩ := hother k fun record hmem hrecord =>
      UInt64.ne_of_lt (UInt64.lt_of_lt_of_le (hle.2 record hmem hrecord) hk)
    refine ⟨by omega, ?_, ?_⟩
    · change reportedIn k (first.events ++ round.events) = 0
      rw [reportedIn_append]
      omega
    · intro event hmem
      rcases List.mem_append.mp hmem with hmem | hmem
      · apply haway event hmem
      · apply haway' event hmem
  · intro record hmem hrecord
    change record ∈ first.wal ++ round.wal at hmem
    rcases List.mem_append.mp hmem with hmem | hmem
    · obtain ⟨hlt, haccounted⟩ := h.accounted record hmem hrecord
      obtain ⟨heq, haway⟩ := hother record.id fun record' hmem' hrecord' => by
        rw [(hnew record' hmem' hrecord').1]
        exact (UInt64.ne_of_lt hlt).symm
      exact ⟨UInt64.lt_of_lt_of_le hlt hle.1, haccounted.append heq haway⟩
    · obtain ⟨hid, haccounted⟩ := hnew record hmem hrecord
      refine ⟨hle.2 record hmem hrecord, ?_⟩
      obtain ⟨-, hnone, haway⟩ := h.fresh record.id (by rw [hid]; exact UInt64.le_refl _)
      apply haccounted.prepend hnone haway

/-- In every run from a live start the orders are accounted for. -/
theorem Live.tracks (h : s.Live) (hquarantined : ∀ inbound ∈ inbounds, inbound.Quarantined)
    (hroom : s.engine.globalOrderIdCounter.toNat + inbounds.length < 2 ^ 64) :
  ∃ E, (s.run inbounds).state.engine.HasLayouts E ∧ Tracks (s.run inbounds) E
  := by
  obtain ⟨E, hsound⟩ := id h.operable
  apply run_outcomes (P := fun _ round E => Tracks round E) hsound.layouts
  · constructor
    · intro k hk
      rw [← hsound.layouts.openQty_eq]
      exact ⟨h.openQty_eq k hk, rfl, nofun⟩
    · exact nofun
  · intro earlier inbound E₁ round E₂ hinitial hE₁ hround houtcome htracks
    have hlength := hinitial.length_le
    rw [List.length_append, List.length_singleton] at hlength
    have hq := hquarantined inbound (hinitial.subset (by simp))
    obtain ⟨hcounter, hle⟩ := counter_run h.operable
      (fun m hm => hquarantined m (hinitial.subset (List.mem_append_left _ hm)))
      h.counter_ne (by omega)
    apply htracks.step hE₁ hround houtcome (h.operable.run earlier) hq hcounter (by omega)

/-- A run goes from live state to live state, short of the counter's wrap. -/
theorem Live.run (h : s.Live) (hquarantined : ∀ inbound ∈ inbounds, inbound.Quarantined)
    (hroom : s.engine.globalOrderIdCounter.toNat + inbounds.length < 2 ^ 64) :
  (s.run inbounds).state.Live
  := by
  obtain ⟨E, hE, htracks⟩ := h.tracks hquarantined hroom
  refine ⟨h.operable.run inbounds, (counter_run h.operable hquarantined h.counter_ne hroom).1, ?_⟩
  intro k hk
  rw [hE.openQty_eq]
  apply (htracks.fresh k hk).1

theorem engine_fund (fs : List Funding) :
  (fund fs).engine = MultiAssetEngine.new
  := by
  induction fs using List.reverseRecOn with
  | nil => rfl
  | append_singleton fs f ih =>
      rw [fund_concat]
      apply ih

/-- The funded exchange is live. -/
theorem live_fund (fs : List Funding) :
  (fund fs).Live
  := by
  refine ⟨(reachable_fund fs).operable, ?_, ?_⟩
  · rw [engine_fund]
    decide
  · intro k _
    rw [engine_fund, MultiAssetEngine.hasLayouts_new.openQty_eq]
    apply Finset.sum_eq_zero
    intro sym _
    simp [Layout.openQty, MakerTest.resting, Layout.levels, Layout.new, restingOf, qtyWhere]

/-- Every order logged is acknowledged, and the identifiers count on. -/
structure Numbers (s : Exchange) (round : Round) : Prop where
  wal_eq : (round.wal.filter fun record => record.kind ≠ .cancel).map (·.id)
    = round.events.filterMap ackId
  ackIds_eq : round.events.filterMap ackId
    = List.iterate (· + 1) s.engine.globalOrderIdCounter (round.events.filterMap ackId).length
  counter_eq : round.state.engine.globalOrderIdCounter
    = s.engine.globalOrderIdCounter + UInt64.ofNat (round.events.filterMap ackId).length

theorem iterate_add_one (n : Nat) (k : UInt64) :
  (· + 1)^[n] k = k + UInt64.ofNat n
  := by
  induction n with
  | zero => exact (UInt64.add_zero _).symm
  | succ n ih => rw [Function.iterate_succ_apply', ih, UInt64.ofNat_add, ← UInt64.add_assoc]; rfl

theorem ackIds_eq_nil {events : List OutboundEvent} (h : ∀ event ∈ events, event.ackId = none) :
  events.filterMap ackId = []
  := List.filterMap_eq_nil_iff.mpr h

/-- Only an acknowledgement gives an identifier away. -/
theorem ackIds_taken (clientId : UInt64) (order : Order) (trades : List Trade)
    (report : ExecutionReport) (engine : MultiAssetEngine) (symbolId : UInt16) :
  (acknowledgement clientId order :: trades.map fillEvent ++ prevention clientId order report
      ++ bboEvents engine symbolId).filterMap ackId = [order.id]
  := by
  have hfills : (trades.map fillEvent).filterMap ackId = [] := by
    apply ackIds_eq_nil
    intro event hmem
    obtain ⟨t, -, rfl⟩ := List.mem_map.mp hmem
    rfl
  have hprevention : (prevention clientId order report).filterMap ackId = [] := by
    apply ackIds_eq_nil
    intro event hmem
    obtain ⟨rfl, -⟩ := eq_of_mem_prevention hmem
    rfl
  have hbbo : (bboEvents engine symbolId).filterMap ackId = [] := by
    apply ackIds_eq_nil
    intro event hmem
    obtain ⟨msg, rfl⟩ := exists_of_mem_bboEvents hmem
    rfl
  rw [List.filterMap_append, List.filterMap_append, hprevention, hbbo, List.append_nil,
    List.append_nil]
  change order.id :: (trades.map fillEvent).filterMap ackId = _
  rw [hfills]

/-- What a round acknowledges is what it logs. -/
theorem Outcome.wal_eq (h : s.Outcome E inbound round E') :
  (round.wal.filter fun record => record.kind ≠ .cancel).map (·.id)
    = round.events.filterMap ackId
  := by
  have hassigned (hkind : inbound.order.kind ≠ .cancel) :
      ([s.assigned inbound].filter fun record => record.kind ≠ .cancel) = [s.assigned inbound] := by
    apply List.filter_cons_of_pos
    rw [s.assigned_eq]
    apply decide_eq_true hkind
  cases h with
  | notCancelled | unfunded => rfl
  | cancelled hkind =>
      have hnone : ([inbound.order].filter fun record => record.kind ≠ .cancel) = [] := by
        apply List.filter_cons_of_neg
        simpa using hkind
      change ([inbound.order].filter _).map _ = _
      rw [hnone]
      rfl
  | taken hkind =>
      change ([s.assigned inbound].filter _).map _ = List.filterMap ackId _
      rw [hassigned hkind, ackIds_taken]
      rfl
  | refused hkind =>
      change ([s.assigned inbound].filter _).map _ = _
      rw [hassigned hkind]
      rfl

/-- Every message keeps the numbering. -/
theorem Numbers.step {first : Round} (h : Numbers s first)
    (hround : first.state.handle inbound = round) (houtcome : first.state.Outcome E inbound round E')
    (hoperable : first.state.Operable) (hquarantined : inbound.Quarantined)
    (hcounter : first.state.engine.globalOrderIdCounter ≠ 0) :
  Numbers s (first.andThen round)
  := by
  have hcases := counter_handle_cases hoperable hquarantined hcounter
  have hwal := houtcome.wal_eq
  rw [hround] at hcases
  -- the round acknowledges nothing, or one order under the identifier that was next
  have hnext : round.events.filterMap ackId
        = List.iterate (· + 1) first.state.engine.globalOrderIdCounter
          (round.events.filterMap ackId).length
      ∧ round.state.engine.globalOrderIdCounter = first.state.engine.globalOrderIdCounter
        + UInt64.ofNat (round.events.filterMap ackId).length := by
    rcases hcases with ⟨hcancels, heq⟩ | ⟨hone, hkind, heq⟩
    · have hnil : (round.wal.filter fun record => record.kind ≠ .cancel) = [] :=
        List.filter_eq_nil_iff.mpr fun record hmem => by simpa using hcancels record hmem
      rw [← hwal, hnil, heq]
      exact ⟨rfl, (UInt64.add_zero _).symm⟩
    · have hfilter : ([first.state.assigned inbound].filter fun record => record.kind ≠ .cancel)
          = [first.state.assigned inbound] := List.filter_cons_of_pos (decide_eq_true hkind)
      have horder : inbound.order.kind ≠ .cancel := by
        rwa [first.state.assigned_eq] at hkind
      have hid := (first.state.assigned_of_quarantined (hquarantined.id_eq horder) hcounter).1
      rw [← hwal, hone, hfilter, heq]
      refine ⟨?_, rfl⟩
      change [(first.state.assigned inbound).id] = [_]
      rw [hid]
  obtain ⟨hlogged, hids, hlevel⟩ := h
  have happend : (first.andThen round).events.filterMap ackId
      = first.events.filterMap ackId ++ round.events.filterMap ackId := List.filterMap_append
  constructor
  · rw [happend, ← hlogged, ← hwal, ← List.map_append, ← List.filter_append]
    rfl
  · rw [happend, List.length_append, List.iterate_add, ← hids, iterate_add_one, ← hlevel]
    exact congrArg _ hnext.1
  · change round.state.engine.globalOrderIdCounter = _
    rw [happend, List.length_append, UInt64.ofNat_add, ← UInt64.add_assoc, ← hlevel]
    exact hnext.2

end Exchange

end LimitOrderBook
