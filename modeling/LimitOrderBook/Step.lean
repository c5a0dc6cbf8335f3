import LimitOrderBook.Simulation

/-!
# What one call does

`Layout.Processed` lists the outcomes of processing an order, and `Layout.Step` those of a
call of either method.  A book of a layout that is called has a layout again, one step on
(`HasLayout.call`), so what holds of a new layout and is kept by a step holds after every
sequence of calls (`calls_induction`).
-/

namespace LimitOrderBook

/-! ### Processing -/

namespace Layout

/-- The identifier an order goes by. -/
def stamp (L : Layout) (o : Order) : UInt64 := if o.id = 0 then L.orderIdCounter else o.id

/-- The order under its identifier. -/
def stamped (L : Layout) (o : Order) : Order := { o with id := L.stamp o }

/-- The counter after an order has been stamped. -/
def nextOrderId (L : Layout) (o : Order) : UInt64 :=
  if o.id = 0 then L.orderIdCounter + 1 else max L.orderIdCounter (o.id + 1)

/-- Stamping an order reads and moves the id counter. -/
theorem stampId_eq (L : Layout) (o : Order) :
  L.stampId o = (L.stamped o, { L with orderIdCounter := L.nextOrderId o })
  := by
  unfold stampId stamped stamp nextOrderId
  split <;> rfl

/-- What an order does to the ladder it takes from. -/
def fills (L : Layout) (o : Order) (clientId : UInt64) : LadderFills :=
  matchLadder (o.accepts o.takesFrom) clientId (L.stamped o) L.tradeIdCounter
    (L.ladder o.takesFrom)

/-- The layout when an order has been matched. -/
def taken (L : Layout) (o : Order) (clientId : UInt64) : Layout :=
  { L with orderIdCounter := L.nextOrderId o }.matched o.takesFrom (L.fills o clientId)

/-- The remainder of an order comes to rest. -/
def Rests (L : Layout) (o : Order) (clientId : UInt64) : Prop :=
  (L.fills o clientId).stp = false ∧ 0 < (L.fills o clientId).taker.qty ∧ o.kind = .limit

instance (L : Layout) (o : Order) (clientId : UInt64) : Decidable (L.Rests o clientId) :=
  inferInstanceAs (Decidable (_ ∧ _))

/-- What an order that is processed reports. -/
def report (L : Layout) (o : Order) (clientId : UInt64) : ExecutionReport where
  executedQty := o.qty.saturatingSub (L.fills o clientId).taker.qty
  remainingQty := (L.fills o clientId).taker.qty
  stpTriggered := (L.fills o clientId).stp

/-- The outcomes of processing an order: nothing comes to rest, or the remainder joins a
level, or it opens one, or there is no slot for it, or there is none for its level. -/
inductive Processed (L : Layout) (o : Order) (clientId : UInt64) :
    Except RejectReason ExecutionReport → Layout → Prop where
  | done (h : ¬ L.Rests o clientId) :
      Processed L o clientId (.ok (L.report o clientId)) (L.taken o clientId)
  | full (h : L.Rests o clientId) (hfree : (L.taken o clientId).freeOrders = []) :
      Processed L o clientId (.error .engineFull) (L.taken o clientId)
  | joined {i : Nat} {freeOrders : List Nat} (h : L.Rests o clientId)
      (hfree : (L.taken o clientId).freeOrders = i :: freeOrders)
      (hprice : o.price ∈ (L.ladder o.bookSide).map (·.price)) :
      Processed L o clientId (.ok (L.report o clientId))
        ({ L.taken o clientId with freeOrders := freeOrders }.put
          ⟨i, (L.fills o clientId).taker, clientId⟩ 0)
  | lost {i : Nat} {freeOrders : List Nat} (h : L.Rests o clientId)
      (hfree : (L.taken o clientId).freeOrders = i :: freeOrders)
      (hprice : o.price ∉ (L.ladder o.bookSide).map (·.price))
      (hlevel : (L.taken o clientId).freeLevels = []) :
      Processed L o clientId (.error .engineFull)
        { L.taken o clientId with
          freeOrders := freeOrders
          freeLevels := []
          lostOrders := i :: L.lostOrders }
  | opened {i j : Nat} {freeOrders freeLevels : List Nat} (h : L.Rests o clientId)
      (hfree : (L.taken o clientId).freeOrders = i :: freeOrders)
      (hprice : o.price ∉ (L.ladder o.bookSide).map (·.price))
      (hlevel : (L.taken o clientId).freeLevels = j :: freeLevels) :
      Processed L o clientId (.ok (L.report o clientId))
        ({ L.taken o clientId with freeOrders := freeOrders, freeLevels := freeLevels }.put
          ⟨i, (L.fills o clientId).taker, clientId⟩ j)

/-- Matching changes nothing of the taker but its quantity. -/
theorem taker_fills (L : Layout) (o : Order) (clientId : UInt64) :
  (L.fills o clientId).taker
    = { o with id := L.stamp o, qty := (L.fills o clientId).taker.qty }
  := taker_matchLadder ..

/-! What is left of a taker is the taker, but for its identifier and its quantity. -/

@[simp]
theorem bookSide_taker_fills (L : Layout) (o : Order) (clientId : UInt64) :
  (L.fills o clientId).taker.bookSide = o.bookSide
  := by
  rw [taker_fills]
  rfl

@[simp]
theorem price_taker_fills (L : Layout) (o : Order) (clientId : UInt64) :
  (L.fills o clientId).taker.price = o.price
  := by
  rw [taker_fills]

@[simp]
theorem userId_taker_fills (L : Layout) (o : Order) (clientId : UInt64) :
  (L.fills o clientId).taker.userId = o.userId
  := by
  rw [taker_fills]

@[simp]
theorem id_taker_fills (L : Layout) (o : Order) (clientId : UInt64) :
  (L.fills o clientId).taker.id = L.stamp o
  := by
  rw [taker_fills]

/-- Matching leaves the taker's own side as it is. -/
theorem ladder_taken_bookSide (L : Layout) (o : Order) (clientId : UInt64) :
  (L.taken o clientId).ladder o.bookSide = L.ladder o.bookSide
  := by
  apply Function.update_of_ne
  unfold Order.takesFrom
  exact (Side.opposite_ne o.bookSide).symm

/-- Matching leaves on the other side what the trades left. -/
theorem ladder_taken_takesFrom (L : Layout) (o : Order) (clientId : UInt64) :
  (L.taken o clientId).ladder o.takesFrom = (L.fills o clientId).ladder
  := Function.update_self ..

/-- Matching leaves a well-formed layout. -/
theorem WellFormed.taken {L : Layout} (hw : L.WellFormed) (o : Order) (clientId : UInt64) :
  (L.taken o clientId).WellFormed
  := by
  have hw₀ : { L with orderIdCounter := L.nextOrderId o }.WellFormed := hw.congr rfl rfl rfl
  apply hw₀.matched

/-- Processing an order is matching it and, if a remainder is to rest, resting that. -/
theorem process_eq_ite (L : Layout) (o : Order) (clientId : UInt64) (trades : List Trade) :
  L.process o clientId trades
    = if L.Rests o clientId then
        let res := (L.taken o clientId).rest (L.fills o clientId).taker clientId
        (res.1.map fun _ => L.report o clientId, res.2, trades ++ (L.fills o clientId).trades)
      else
        (.ok (L.report o clientId), L.taken o clientId, trades ++ (L.fills o clientId).trades)
  := by
  unfold process
  rw [stampId_eq]
  dsimp only
  by_cases h : L.Rests o clientId
  · rw [if_pos h, if_pos (by exact h)]
    generalize hres : Layout.rest _ _ _ = res
    rw [show (L.taken o clientId).rest (L.fills o clientId).taker clientId = res from hres]
    obtain ⟨_ | _, L₂⟩ := res <;> rfl
  · rw [if_neg h, if_neg (by exact h)]
    rfl

/-- The trades of a processed order are those of its fills, whatever becomes of the
remainder. -/
theorem trades_process (L : Layout) (o : Order) (clientId : UInt64) (trades : List Trade) :
  (L.process o clientId trades).2.2 = trades ++ (L.fills o clientId).trades
  := by
  rw [process_eq_ite]
  split <;> rfl

/-- Processing an order is always one of the cases. -/
theorem process_cases (L : Layout) (o : Order) (clientId : UInt64) (trades : List Trade) :
  L.Processed o clientId (L.process o clientId trades).1 (L.process o clientId trades).2.1
  := by
  rw [process_eq_ite]
  by_cases h : L.Rests o clientId
  · rw [if_pos h]
    unfold rest
    rw [bookSide_taker_fills, price_taker_fills, ladder_taken_bookSide]
    cases hfree : (L.taken o clientId).freeOrders with
    | nil => exact .full h hfree
    | cons i freeOrders =>
        dsimp only
        by_cases hmem : o.price ∈ (L.ladder o.bookSide).map (·.price)
        · rw [if_pos hmem]
          exact .joined h hfree hmem
        · rw [if_neg hmem]
          cases hlevel : (L.taken o clientId).freeLevels with
          | nil => exact .lost h hfree hmem hlevel
          | cons j freeLevels => exact .opened h hfree hmem hlevel
  · rw [if_neg h]
    exact .done h

/-- An order of which nothing comes to rest is matched, and that is all. -/
theorem process_of_not_rests {L : Layout} {o : Order} {clientId : UInt64}
    (h : ¬ L.Rests o clientId) (trades : List Trade) :
  L.process o clientId trades
    = (.ok (L.report o clientId), L.taken o clientId, trades ++ (L.fills o clientId).trades)
  := by
  rw [process_eq_ite, if_neg h]

/-- An accepted order is reported as its layout says. -/
theorem report_of_process_ok {L : Layout} {o : Order} {clientId : UInt64} {trades : List Trade}
    {report : ExecutionReport} (hok : (L.process o clientId trades).1 = .ok report) :
  report = L.report o clientId
  := by
  have hprocessed := L.process_cases o clientId trades
  rw [hok] at hprocessed
  generalize (L.process o clientId trades).2.1 = L' at hprocessed
  cases hprocessed <;> rfl

/-- Processing an order leaves the ladders as they are when it has been matched, or the
remainder comes to rest there. -/
theorem Processed.put_or {L L' : Layout} {o : Order} {clientId : UInt64}
    {res : Except RejectReason ExecutionReport} (h : L.Processed o clientId res L')
    (hw : L.WellFormed) :
  (L'.ladder = (L.taken o clientId).ladder ∧ ∀ report, res = .ok report →
      report = L.report o clientId ∧ ¬ L.Rests o clientId)
    ∨ L.Rests o clientId ∧ res = .ok (L.report o clientId) ∧ ∃ (i j : Nat) (L₁ : Layout),
      L₁.WellFormed ∧ L₁.ladder = (L.taken o clientId).ladder
        ∧ L' = L₁.put ⟨i, (L.fills o clientId).taker, clientId⟩ j
  := by
  have hw' := hw.taken o clientId
  cases h with
  | done h => exact Or.inl ⟨rfl, fun report heq => ⟨(Except.ok.inj heq).symm, h⟩⟩
  | full => exact Or.inl ⟨rfl, fun report heq => nomatch heq⟩
  | joined h =>
      refine Or.inr ⟨h, rfl, _, _, _, ?_, ?_, rfl⟩
      · exact hw'.congr rfl rfl rfl
      · rfl
  | lost => exact Or.inl ⟨rfl, fun report heq => nomatch heq⟩
  | opened h =>
      refine Or.inr ⟨h, rfl, _, _, _, ?_, ?_, rfl⟩
      · exact hw'.congr rfl rfl rfl
      · rfl

/-! ### What rests after a step -/

/-- What rests when an order has been processed: an order that rested before, at most with
less quantity, or what is left of the order. -/
theorem Processed.mem_resting {L L' : Layout} {o : Order} {clientId : UInt64}
    {res : Except RejectReason ExecutionReport} (h : L.Processed o clientId res L')
    (hw : L.WellFormed) {s : Side} {r : Resting} (hr : r ∈ L'.resting s) :
  (∃ r₀ ∈ L.resting s, r = r₀ ∨ ∃ qty, r = r₀.reduce qty)
    ∨ L.Rests o clientId ∧ s = o.bookSide ∧ r.order = (L.fills o clientId).taker
  := by
  have hL' : (L.taken o clientId).ladder
      = Function.update L.ladder o.takesFrom (L.fills o clientId).ladder := rfl
  have htaken : ∀ s', ∀ l ∈ (L.taken o clientId).ladder s', ∀ r ∈ l.queue,
      ∃ r₀ ∈ L.resting s', r = r₀ ∨ ∃ qty, r = r₀.reduce qty := by
    refine WellFormed.forall_ladder_update hL' (p := fun s' l => ∀ r ∈ l.queue,
      ∃ r₀ ∈ L.resting s', r = r₀ ∨ ∃ qty, r = r₀.reduce qty) ?_ ?_
    · intro s' l hl r hr
      exact ⟨r, mem_restingOf.mpr ⟨l, hl, hr⟩, Or.inl rfl⟩
    · intro l hl r hr
      obtain ⟨l₀, hl₀, -, -, -, hqueue⟩ := hw.mem_ladder_matched hl
      obtain ⟨r₀, hr₀, heq | ⟨qty, -, heq⟩⟩ := hqueue r hr
      · exact ⟨r₀, mem_restingOf.mpr ⟨l₀, hl₀, hr₀⟩, Or.inl heq⟩
      · exact ⟨r₀, mem_restingOf.mpr ⟨l₀, hl₀, hr₀⟩, Or.inr ⟨qty, heq⟩⟩
  obtain ⟨l, hl, hrl⟩ := mem_restingOf.mp hr
  rcases h.put_or hw with ⟨hladder, -⟩ | ⟨hrests, -, i, j, L₁, hw₁, hladder, rfl⟩
  · rw [hladder] at hl
    apply Or.inl (htaken s l hl r hrl)
  · rw [← hladder] at htaken
    rw [put] at hl
    dsimp only at hl
    rw [bookSide_taker_fills] at hl
    rcases eq_or_ne s o.bookSide with rfl | hs
    · rw [Function.update_self] at hl
      have hmem := (perm_restLadder j (hw₁.sorted o.bookSide)).mem_iff.mp
        (mem_restingOf.mpr ⟨l, hl, hrl⟩)
      rcases List.mem_cons.mp hmem with rfl | hmem
      · exact Or.inr ⟨hrests, rfl, rfl⟩
      · obtain ⟨l', hl', hr'⟩ := mem_restingOf.mp hmem
        apply Or.inl (htaken o.bookSide l' hl' r hr')
    · rw [Function.update_of_ne hs] at hl
      apply Or.inl (htaken s l hl r hrl)

/-- Removing an order brings in none. -/
theorem mem_resting_remove {L : Layout} {pl : L.Place} {s : Side} {r : Resting}
    (hr : r ∈ (L.remove pl).resting s) :
  r ∈ L.resting s
  := by
  rcases eq_or_ne s pl.side with rfl | hs
  · rw [(WellFormed.perm_remove pl).mem_iff]
    apply List.mem_cons_of_mem
    rw [resting, remove] at hr
    dsimp only at hr
    rwa [Function.update_self] at hr
  · rw [resting, remove] at hr
    dsimp only at hr
    rwa [Function.update_of_ne hs] at hr

/-! ### Failure -/

/-- The fills of an order that has met nothing it trades with. -/
def idle (L : Layout) (o : Order) : LadderFills :=
  ⟨L.stamped o, L.ladder o.takesFrom, [], [], [], L.tradeIdCounter, false⟩

/-- An order that meets nothing leaves the ladders as they are. -/
theorem taken_of_idle {L : Layout} {o : Order} {clientId : UInt64}
    (h : L.fills o clientId = L.idle o) :
  L.taken o clientId = { L with orderIdCounter := L.nextOrderId o }
  := by
  unfold taken
  rw [h]
  apply matched_self <;> rfl

/-- An order whose remainder comes to rest and that has emptied no level has met nothing. -/
theorem Rests.fills_eq_idle {L : Layout} {o : Order} {clientId : UInt64}
    (h : L.Rests o clientId) (hemptied : (L.fills o clientId).emptied = []) :
  L.fills o clientId = L.idle o
  := by
  obtain ⟨hstp, hqty, -⟩ := h
  have hqty' := UInt64.ne_zero_iff_pos.mpr hqty
  unfold fills at hstp hqty' hemptied ⊢
  unfold idle
  cases hls : L.ladder o.takesFrom with
  | nil => rfl
  | cons l ls =>
      rw [hls, matchLadder] at hstp hqty' hemptied
      rw [matchLadder]
      by_cases hstop : (L.stamped o).qty = 0 ∨ o.accepts o.takesFrom l.price = false
      · rw [if_pos hstop]
      rw [if_neg hstop] at hstp hqty' hemptied
      rcases matchOrders_stops clientId (L.stamped o) L.tradeIdCounter l.queue with
        ⟨hleft, -⟩ | ⟨hleft, hdone⟩
      · rw [if_pos hleft] at hemptied
        contradiction
      · rw [if_neg hleft] at hstp hqty'
        rcases hdone with hdone | hdone
        · rw [hdone] at hstp
          contradiction
        · exact absurd hdone hqty'

/-- An order that has filled no order has emptied no level. -/
theorem WellFormed.emptied_eq_nil {L : Layout} (hw : L.WellFormed) {o : Order}
    {clientId : UInt64} (hfilled : (L.fills o clientId).filled = []) :
  (L.fills o clientId).emptied = []
  := by
  unfold fills at hfilled ⊢
  have hls := hw.levels_wf o.takesFrom
  cases hladder : L.ladder o.takesFrom with
  | nil => rfl
  | cons l ls =>
      rw [hladder] at hfilled hls
      rw [matchLadder] at hfilled ⊢
      split
      · rfl
      next hstop =>
      rw [if_neg hstop] at hfilled
      dsimp only at hfilled ⊢
      split
      · next hleft =>
          -- an emptied level has been filled whole
          obtain ⟨rest, hqueue, hrest | ⟨r, rest', qty, -, -, -, hrest, -⟩⟩ :=
            matchOrders_split (fun _ => true) clientId (L.stamped o) L.tradeIdCounter l.queue
          · rw [if_pos hleft] at hfilled
            obtain ⟨hnil, -⟩ := List.append_eq_nil_iff.mp hfilled
            rw [hnil, ← hrest, hleft] at hqueue
            exact absurd hqueue (hls l List.mem_cons_self).1
          · rw [hleft] at hrest
            contradiction
      · rfl

/-- An order that is refused has met nothing, and the levels and the indices are as
before. -/
theorem Processed.of_error {L L' : Layout} {o : Order} {clientId : UInt64} {e : RejectReason}
    (h : L.Processed o clientId (.error e) L') (hw : L.WellFormed) :
  e = .engineFull ∧ L.Rests o clientId ∧ L.fills o clientId = L.idle o ∧ L'.ladder = L.ladder
    ∧ L'.orderIndex = L.orderIndex ∧ L'.clientIndex = L.clientIndex
  := by
  have hidle : L.fills o clientId = L.idle o →
      (L.taken o clientId).ladder = L.ladder ∧ (L.taken o clientId).orderIndex = L.orderIndex
        ∧ (L.taken o clientId).clientIndex = L.clientIndex := by
    intro hfills
    rw [taken_of_idle hfills]
    exact ⟨rfl, rfl, rfl⟩
  cases h with
  | full hrests hfree =>
      obtain ⟨hfilled, -⟩ := List.append_eq_nil_iff.mp hfree
      have hemptied := hw.emptied_eq_nil (by simpa using hfilled)
      have hfills := hrests.fills_eq_idle hemptied
      exact ⟨rfl, hrests, hfills, hidle hfills⟩
  | lost hrests hfree hprice hlevel =>
      obtain ⟨hemptied, -⟩ := List.append_eq_nil_iff.mp hlevel
      have hfills := hrests.fills_eq_idle (by simpa using hemptied)
      exact ⟨rfl, hrests, hfills, hidle hfills⟩

/-- An order that is refused has not traded. -/
theorem fills_trades_of_error {L : Layout} (hw : L.WellFormed) {o : Order}
    {clientId : UInt64} {trades : List Trade} {e : RejectReason}
    (herror : (L.process o clientId trades).1 = .error e) :
  (L.fills o clientId).trades = []
  := by
  have hprocessed := L.process_cases o clientId trades
  rw [herror] at hprocessed
  obtain ⟨-, -, hidle, -⟩ := hprocessed.of_error hw
  rw [hidle]
  rfl

end Layout

/-! ### Calls -/

/-- A call of one of the two methods that change a book. -/
inductive Call where
  | process (order : Order) (clientId : UInt64) (trades : List Trade)
  | cancelOrder (requestingUserId orderId : UInt64)

/-- The calls that cancel: a cancel may also come as an order. -/
def Call.Cancels : Call → Prop
  | .process o _ _ => o.kind = .cancel
  | .cancelOrder _ _ => True

/-- The outcomes of a call: an order is processed, or a cancel fails, or it takes an order
out. -/
inductive Layout.Step (L : Layout) : Call → Layout → Prop where
  | process {o : Order} (clientId : UInt64) (trades : List Trade) (hkind : o.kind ≠ .cancel) :
      Step L (.process o clientId trades) (L.process o clientId trades).2.1
  | noCancel {c : Call} (h : c.Cancels) : Step L c L
  | cancel {c : Call} (h : c.Cancels) (pl : L.Place) : Step L c (L.remove pl)

/-- Every step leaves a well-formed layout. -/
theorem Layout.Step.wellFormed {L L' : Layout} {c : Call} (h : L.Step c L') (hw : L.WellFormed) :
  L'.WellFormed
  := by
  cases h with
  | process clientId trades => apply hw.process
  | noCancel => apply hw
  | cancel _ pl => apply hw.remove

namespace OrderBook

/-- The book after a call. -/
def call (b : OrderBook) : Call → OrderBook
  | .process o clientId trades => (b.process o clientId trades).2.1
  | .cancelOrder u k => (b.cancelOrder u k).2

/-- The book after a sequence of calls. -/
def calls (b : OrderBook) (cs : List Call) : OrderBook := cs.foldl call b

theorem calls_append (b : OrderBook) (cs cs' : List Call) :
  b.calls (cs ++ cs') = (b.calls cs).calls cs'
  := List.foldl_append

theorem calls_concat (b : OrderBook) (cs : List Call) (c : Call) :
  b.calls (cs ++ [c]) = (b.calls cs).call c
  := by
  rw [calls, List.foldl_append]
  rfl

/-- A cancel that comes as an order. -/
theorem process_of_cancel (b : OrderBook) {o : Order} (hkind : o.kind = .cancel)
    (clientId : UInt64) (trades : List Trade) :
  b.process o clientId trades
    = (let target := if o.id ≠ 0 then o.id else o.clientOrderId
      ((b.cancelOrder o.userId target).1.map fun cancelled =>
          { executedQty := 0, remainingQty := cancelled.qty, stpTriggered := false },
        (b.cancelOrder o.userId target).2, trades))
  := by
  unfold process
  rw [if_pos hkind]
  dsimp only
  generalize b.cancelOrder o.userId (if o.id ≠ 0 then o.id else o.clientOrderId) = res
  obtain ⟨_ | _, b'⟩ := res <;> rfl

namespace HasLayout

variable {b : OrderBook} {L : Layout}

/-- A cancel takes its step on the layout, whether it finds its order or not. -/
theorem cancelOrder_step (h : b.HasLayout L) (hw : L.WellFormed) (u k : UInt64) {c : Call}
    (hc : c.Cancels) :
  ∃ L', (b.cancelOrder u k).2.HasLayout L' ∧ L.Step c L'
  := by
  rcases h.cancelOrder_cases hw u k with ⟨e, heq, -⟩ | ⟨pl, b', -, -, heq, h'⟩
  · rw [heq]
    exact ⟨L, h, .noCancel hc⟩
  · rw [heq]
    exact ⟨L.remove pl, h', .cancel hc pl⟩

/-- A call takes a book of a layout one step on. -/
theorem call (h : b.HasLayout L) (hw : L.WellFormed) (c : Call) :
  ∃ L', (b.call c).HasLayout L' ∧ L.Step c L'
  := by
  cases c with
  | process o clientId trades =>
      by_cases hkind : o.kind = .cancel
      · rw [OrderBook.call, b.process_of_cancel hkind]
        exact h.cancelOrder_step hw _ _ hkind
      · obtain ⟨b', heq, h'⟩ := h.process_eq hw hkind clientId trades
        rw [OrderBook.call, heq]
        exact ⟨_, h', .process clientId trades hkind⟩
  | cancelOrder u k => exact h.cancelOrder_step hw u k trivial

end HasLayout

/-- The run rule: what holds of a new layout and is kept by every step holds after every
sequence of calls. -/
theorem calls_induction (symbol : Symbol) {P : List Call → Layout → Prop}
    (hnew : P [] Layout.new)
    (hstep : ∀ cs c L L', ((OrderBook.new symbol).calls cs).HasLayout L → L.WellFormed → P cs L →
      ((OrderBook.new symbol).calls (cs ++ [c])).HasLayout L' → L'.WellFormed → L.Step c L' →
      P (cs ++ [c]) L')
    (cs : List Call) :
  ∃ L, ((OrderBook.new symbol).calls cs).HasLayout L ∧ L.WellFormed ∧ P cs L
  := by
  induction cs using List.reverseRecOn with
  | nil => exact ⟨Layout.new, HasLayout.new symbol, Layout.wellFormed_new, hnew⟩
  | append_singleton cs c ih =>
      obtain ⟨L, h, hw, hP⟩ := ih
      obtain ⟨L', h', hs⟩ := h.call hw c
      rw [← calls_concat] at h'
      have hw' := hs.wellFormed hw
      exact ⟨L', h', hw', hstep cs c L L' h hw hP h' hw' hs⟩

/-- Every reachable book has a well-formed layout. -/
theorem exists_layout (symbol : Symbol) (cs : List Call) :
  ∃ L, ((OrderBook.new symbol).calls cs).HasLayout L ∧ L.WellFormed
  := by
  obtain ⟨L, h, hw, -⟩ := calls_induction symbol (P := fun _ _ => True) trivial
    (fun _ _ _ _ _ _ _ _ _ _ => trivial) cs
  exact ⟨L, h, hw⟩

end OrderBook

end LimitOrderBook
