import LimitOrderBook.EngineRuns

/-!
# The three routes of a cancel

A cancel reaches a book through `OrderBook.process`, through `MultiAssetEngine.process` or
through `MultiAssetEngine.cancelOrder`.  The routes take the target from different places,
and `MultiAssetEngine.process` stamps the message before it looks at its type.
-/

namespace LimitOrderBook

namespace MultiAssetEngine

/-- The report `OrderBook.process` makes of a cancelled order. -/
def cancelReport (cancelled : Order) : ExecutionReport where
  executedQty := 0
  remainingQty := cancelled.qty
  stpTriggered := false

/-- The three routes of a cancel to the book `sym` answer the same, leave the same engine,
and advance no counter. -/
structure RoutesAgree (e : MultiAssetEngine) (sym : Fin NUM_SYMBOLS) (o : Order)
    (clientId : UInt64) (trades : List Trade) : Prop where
  book_answer : ((e.books sym).process o clientId trades).1
    = (e.cancelOrder o.symbolId o.userId o.id).1.map cancelReport
  engine_answer : (e.process o clientId trades).1
    = (e.cancelOrder o.symbolId o.userId o.id).1.map cancelReport
  book_state : e.setBook sym ((e.books sym).process o clientId trades).2.1
    = (e.cancelOrder o.symbolId o.userId o.id).2
  engine_state : (e.process o clientId trades).2.1
    = (e.cancelOrder o.symbolId o.userId o.id).2
  book_counter : ∀ i, ((e.cancelOrder o.symbolId o.userId o.id).2.books i).orderIdCounter
    = (e.books i).orderIdCounter
  engine_counter : (e.cancelOrder o.symbolId o.userId o.id).2.globalOrderIdCounter
    = e.globalOrderIdCounter

/-- A cancel leaves the counter of a book alone. -/
theorem orderIdCounter_cancelOrder {b : OrderBook} {L : Layout} (h : b.HasLayout L)
    (hw : L.WellFormed) (u k : UInt64) :
  (b.cancelOrder u k).2.orderIdCounter = b.orderIdCounter
  := by
  rcases h.cancelOrder_cases hw u k with ⟨reason, heq, -⟩ | ⟨pl, b', -, -, heq, h'⟩
  · rw [heq]
  · rw [heq, h'.orderIdCounter_eq, h.orderIdCounter_eq]
    rfl

/-- Stamping a message leaves the counter alone if the message has an identifier and the
counter is past it. -/
theorem globalOrderIdCounter_stampId_eq_iff (e : MultiAssetEngine) (o : Order) :
  (e.stampId o).2.globalOrderIdCounter = e.globalOrderIdCounter
    ↔ o.id ≠ 0 ∧ o.id + 1 ≤ e.globalOrderIdCounter
  := by
  unfold stampId
  by_cases hid : o.id = 0
  · rw [if_pos hid]
    dsimp only
    constructor
    · intro heq
      grind
    · rintro ⟨hne, -⟩
      exact absurd hid hne
  · rw [if_neg hid]
    dsimp only
    rw [UInt64.max_eq_self_iff]
    exact ⟨fun h => ⟨hid, h⟩, fun h => h.2⟩

/-- The routes of a cancel agree exactly if the message has an identifier below the
counter of the engine. -/
theorem routesAgree_iff (cs : List EngineCall) {o : Order} (hkind : o.kind = .cancel)
    {sym : Fin NUM_SYMBOLS} (hsym : symIdx o.symbolId = some sym) (clientId : UInt64)
    (trades : List Trade) :
  (new.calls cs).RoutesAgree sym o clientId trades
    ↔ o.id ≠ 0 ∧ o.id + 1 ≤ (new.calls cs).globalOrderIdCounter
  := by
  generalize he : new.calls cs = e
  have hcancel : e.cancelOrder o.symbolId o.userId o.id
      = (((e.books sym).cancelOrder o.userId o.id).1,
        e.setBook sym ((e.books sym).cancelOrder o.userId o.id).2) := by
    rw [cancelOrder, hsym]
  have hkind' : (e.stampId o).1.kind = .cancel := by
    rw [stampId_fst]
    apply hkind
  rw [← globalOrderIdCounter_stampId_eq_iff]
  constructor
  · intro h
    have hcounter := congrArg globalOrderIdCounter h.engine_state
    rw [h.engine_counter, process_of_sym hsym] at hcounter
    apply hcounter
  · intro hcounter
    obtain ⟨hid, -⟩ := (globalOrderIdCounter_stampId_eq_iff e o).mp hcounter
    have hstamp : e.stampId o = (o, e) := by
      have hmax : max e.globalOrderIdCounter (o.id + 1) = e.globalOrderIdCounter := by
        rw [stampId, if_neg hid] at hcounter
        apply hcounter
      rw [stampId, if_neg hid, hmax]
    have hbook := (e.books sym).process_of_cancel hkind clientId trades
    rw [if_pos hid] at hbook
    dsimp only at hbook
    constructor
    · rw [hbook, hcancel]
      rfl
    · rw [process_of_sym hsym, hstamp]
      dsimp only
      rw [hbook, hcancel]
      rfl
    · rw [hbook, hcancel]
    · rw [process_of_sym hsym, hstamp]
      dsimp only
      rw [hbook, hcancel]
    · intro i
      rw [hcancel]
      dsimp only [setBook]
      rcases eq_or_ne i sym with rfl | hi
      · obtain ⟨L, h, hw⟩ := exists_layout cs i
        rw [he] at h
        rw [Function.update_self, orderIdCounter_cancelOrder h hw]
      · rw [Function.update_of_ne hi]
    · rw [hcancel]
      rfl

/-- An order of user 1 under client identifier 7, resting in the first book. -/
def sampleSubmission : List EngineCall :=
  [.process (Order.newClientLimit 7 1 .btc .buy 100 5) 0 []]

/-- The cancel of that order by its client identifier. -/
def sampleCancel : Order := { Order.newCancel 0 1 .btc with clientOrderId := 7 }

/-- The cancel of that order by its exchange identifier. -/
theorem routesAgree_sampleSubmission :
  (new.calls sampleSubmission).RoutesAgree 0 (Order.newCancel 1 1 .btc) 0 []
  := (routesAgree_iff sampleSubmission rfl rfl 0 []).mpr (by decide +kernel)

/-- By its client identifier the book cancels the order, and the engine does not find it. -/
theorem not_routesAgree_sampleCancel :
  ¬ (new.calls sampleSubmission).RoutesAgree 0 sampleCancel 0 []
  := by
  intro h
  have hbook : (((new.calls sampleSubmission).books 0).process sampleCancel 0 []).1
      = .ok ⟨0, 5, false⟩ := by decide +kernel
  have hengine : ((new.calls sampleSubmission).process sampleCancel 0 []).1
      = .error .orderNotFound := by decide +kernel
  have heq := h.book_answer.trans h.engine_answer.symm
  rw [hbook, hengine] at heq
  contradiction

end MultiAssetEngine

end LimitOrderBook
