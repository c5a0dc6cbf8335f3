import LimitOrderBook.Execution
import LimitOrderBook.Matching

/-!
# Refused orders

The book allocates a slot for the remainder of an order after the order has been matched.  An
order that is refused for lack of a slot has met nothing to trade with: one that has traded and
has quantity left has emptied a level, whose slots are free.  So a refused order leaves the
levels, the queues and the indices as they were (`OrderBook.intact_or_rested`).
-/

namespace LimitOrderBook

open Intrusive

/-- The levels, the queues, their orders and the indices are as before. -/
structure OrderBook.Intact (b b' : OrderBook) : Prop where
  levelArena_eq : b'.levelArena = b.levelArena
  best_eq : ∀ s, b'.best s = b.best s
  node_eq : ∀ k ∈ b.orderSlots, b'.orderArena.nodes k = b.orderArena.nodes k
  queueSlots_eq : ∀ i ∈ b.levelSlots, b'.queueSlots i = b.queueSlots i
  priceIndex_eq : b'.priceIndex = b.priceIndex
  orderIndex_eq : b'.orderIndex = b.orderIndex
  clientOrderIndex_eq : b'.clientOrderIndex = b.clientOrderIndex

/-- A new order rests in slot `k` of a side. -/
structure OrderBook.RestsAnew (b b' : OrderBook) (s : Side) (k : Nat) (o : Order) : Prop where
  mem : k ∈ b'.restingSlots s
  notMem : k ∉ b.restingSlots s
  order_eq : (b'.orderArena.nodes k).order = o

/-! ### Orders that meet nothing -/

namespace Layout

variable {L : Layout} {o : Order} {clientId : UInt64}

/-- An order that comes to rest and has met nothing does not accept the best price. -/
theorem Rests.head_of_idle (h : L.Rests o clientId) (hidle : L.fills o clientId = L.idle o) :
  ∀ l ∈ (L.ladder o.takesFrom).head?, o.accepts o.takesFrom l.price = false
  := by
  obtain ⟨hstp, hqty, -⟩ := h
  have hhead := matchLadder_head _ _ _ _ _ hstp (UInt64.ne_zero_iff_pos.mpr hqty)
  rw [← fills, hidle] at hhead
  apply hhead

/-- An order that meets nothing and comes to rest at a price that is new to its side. -/
theorem Rests.price_ne_of_idle (h : L.Rests o clientId) (hw : L.WellFormed)
    (hidle : L.fills o clientId = L.idle o)
    (hprice : o.price ∉ (L.ladder o.bookSide).map (·.price)) :
  ∀ l ∈ L.levels, l.price ≠ o.price
  := by
  obtain ⟨hstp, hqty, hkind⟩ := h
  apply price_ne_of_notMem hprice
  intro l hl
  have hmem : l ∈ (L.fills o clientId).ladder := by
    rw [hidle]
    apply hl
  have hbefore : o.takesFrom.before (L.stamped o).price l.price :=
    hw.before_of_mem_matched hkind hstp (UInt64.ne_zero_iff_pos.mpr hqty) hmem
  apply hbefore

end Layout

namespace OrderBook

/-- The slot an order is allocated in is the only one that changes. -/
theorem nodes_allocate_of_ne {a a' : OrderArena} {o : Order} {clientId : UInt64} {i k : Nat}
    (h : a.allocate o clientId = .ok (i, a')) (hk : k ≠ i) :
  a'.nodes k = a.nodes k
  := by
  unfold OrderArena.allocate at h
  split at h
  · cases h
  · cases h
    apply Function.update_of_ne hk

namespace HasLayout

variable {b b' : OrderBook} {L L' : Layout} {o : Order} {clientId : UInt64}

/-- The loops of an order that meets nothing end at once. -/
theorem matching_of_idle (h : b.HasLayout L) (hrests : L.Rests o clientId)
    (hidle : L.fills o clientId = L.idle o) (trades : List Trade) :
  b.matching o clientId trades = b.start o trades
  := by
  have hhead := hrests.head_of_idle hidle
  obtain ⟨hstamp, h₀⟩ := h.stampId_eq o
  rw [L.stampId_eq] at hstamp h₀
  unfold matching OrderBook.start
  rw [matchSide_eq, hstamp]
  have hside : (L.stamped o).takesFrom = o.takesFrom := rfl
  apply While.run_of_none
  cases hls : L.ladder o.takesFrom with
  | nil =>
      have hnull := (h₀.best_eq_null_iff o.takesFrom).mpr hls
      simp [matchStep, hside, hnull]
  | cons l ls =>
      rw [hls] at hhead
      have haccepts : (L.stamped o).accepts o.takesFrom l.price = false := hhead l rfl
      have hstep := matchStep_eq h₀ hls clientId (L.stamped o) trades
      rw [if_pos (Or.inr haccepts)] at hstep
      apply hstep

/-- Resting fails without a free slot for the order, and changes nothing. -/
theorem restOrder_of_full (h : b.HasLayout L) (hfree : L.freeOrders = []) :
  b.restOrder o clientId = (.error .engineFull, b)
  := by
  have hst := h.storage
  rw [hfree] at hst
  unfold restOrder
  rw [hst.allocOrder_nil]

/-- Resting fails without a free slot for the level, and only the slot of the order
changes. -/
theorem restOrder_of_lost (h : b.HasLayout L) {i : Nat} {freeOrders : List Nat}
    (hfree : L.freeOrders = i :: freeOrders) (hfresh : ∀ l ∈ L.levels, l.price ≠ o.price)
    (hlevel : L.freeLevels = []) :
  ∃ arena, b.restOrder o clientId = (.error .engineFull, { b with orderArena := arena })
    ∧ ∀ k, k ≠ i → arena.nodes k = b.orderArena.nodes k
  := by
  have hst := h.storage
  rw [hfree] at hst
  obtain ⟨arena, halloc, hst', -, -⟩ := hst.allocOrder o clientId
  rw [hlevel] at hst'
  have hnone : b.priceIndex.lookup o.price = none := by
    apply Option.eq_none_iff_forall_ne_some.mpr
    intro i hi
    obtain ⟨l, hl, hprice, -⟩ := (h.priceIndex_iff _ i).mp hi
    exact hfresh l hl hprice
  refine ⟨arena, ?_, fun k hk => nodes_allocate_of_ne halloc hk⟩
  unfold restOrder
  rw [halloc]
  simp only [levelFor, hnone, hst'.allocLevel_nil o.price]

/-! ### Refusal -/

/-- A free slot is in no queue. -/
theorem notMem_orderSlots (h : b.HasLayout L) {i : Nat} (hi : i ∈ L.freeOrders) :
  i ∉ b.orderSlots
  := by
  intro hmem
  rw [h.orderSlots_eq] at hmem
  obtain ⟨-, -, hdisjoint⟩ := List.nodup_append.mp h.storage.orders.pool.nodup
  exact hdisjoint i (List.mem_append_right _ hmem) i hi rfl

/-- A book whose slots in use are as before is as before, if nothing else has changed. -/
theorem intact (h : b.HasLayout L) (h' : b'.HasLayout L') (hladder : L'.ladder = L.ladder)
    (hlevels : b'.levelArena = b.levelArena) (hbest : ∀ s, b'.best s = b.best s)
    (hnodes : ∀ k ∈ b.orderSlots, b'.orderArena.nodes k = b.orderArena.nodes k)
    (hprices : b'.priceIndex = b.priceIndex) (horders : b'.orderIndex = b.orderIndex)
    (hclients : b'.clientOrderIndex = b.clientOrderIndex) :
  b.Intact b' where
  levelArena_eq := hlevels
  best_eq := hbest
  node_eq := hnodes
  queueSlots_eq i hi := by
    have hsame : L'.levels = L.levels := by
      unfold Layout.levels
      rw [hladder]
    rw [h.levelSlots_eq] at hi
    obtain ⟨l, hl, rfl⟩ := List.mem_map.mp hi
    rw [h.queueSlots_eq hl, h'.queueSlots_eq (by rw [hsame]; exact hl)]
  priceIndex_eq := hprices
  orderIndex_eq := horders
  clientOrderIndex_eq := hclients

theorem stampId_book (b : OrderBook) (o : Order) :
  (b.stampId o).2 = { b with orderIdCounter := (b.stampId o).2.orderIdCounter }
  := by
  unfold stampId
  split <;> rfl

theorem process_error (h : b.HasLayout L) (hw : L.WellFormed) (hkind : o.kind ≠ .cancel)
    {trades : List Trade} {e : RejectReason} (herror : (b.process o clientId trades).1 = .error e) :
  (b.process o clientId trades).2.2 = trades ∧ b.Intact (b.process o clientId trades).2.1
  := by
  obtain ⟨b', heq, h'⟩ := h.process_eq hw hkind clientId trades
  have hprocessed := L.process_cases o clientId trades
  have hres : (L.process o clientId trades).1 = .error e := by
    rw [heq] at herror
    apply herror
  rw [hres] at hprocessed
  obtain ⟨-, hrests, hidle, hladder, -⟩ := hprocessed.of_error hw
  constructor
  · rw [heq, L.trades_process, hidle]
    apply List.append_nil
  -- the loops end at once, and the book is that of `restOrder`
  obtain ⟨hstamp, h₀⟩ := h.stampId_eq o
  rw [L.stampId_eq] at hstamp h₀
  dsimp only at hstamp h₀
  have hbook : (b.process o clientId trades).2.1
      = ((b.stampId o).2.restOrder (L.stamped o) clientId).2 := by
    rw [b.process_eq_matching hkind, h.matching_of_idle hrests hidle,
      if_pos ((h.rests_iff o clientId trades).mpr hrests)]
    dsimp only [OrderBook.start]
    rw [hstamp]
  have hafter : (b.process o clientId trades).2.1.HasLayout (L.process o clientId trades).2.1 := by
    rw [heq]
    apply h'
  have htaken := Layout.taken_of_idle hidle
  generalize (L.process o clientId trades).2.1 = L' at hprocessed hladder hafter
  rw [hbook] at hafter ⊢
  have hb₀ := stampId_book b o
  cases hprocessed with
  | full _ hfree =>
      rw [htaken] at hfree
      rw [h₀.restOrder_of_full hfree] at hafter ⊢
      rw [hb₀] at hafter ⊢
      apply h.intact hafter hladder rfl (fun s => by cases s <;> rfl) (fun _ _ => rfl) rfl rfl rfl
  | lost _ hfree hprice hlevel =>
      rw [htaken] at hfree hlevel
      have hfresh : ∀ l ∈ L.levels, l.price ≠ (L.stamped o).price :=
        hrests.price_ne_of_idle hw hidle hprice
      obtain ⟨arena, hrest, hnodes⟩ := h₀.restOrder_of_lost hfree hfresh hlevel
      rw [hrest] at hafter ⊢
      rw [hb₀] at hafter hnodes ⊢
      apply h.intact hafter hladder rfl (fun s => by cases s <;> rfl) _ rfl rfl rfl
      intro k hk
      apply hnodes
      rintro rfl
      apply h.notMem_orderSlots _ hk
      dsimp only at hfree
      rw [hfree]
      apply List.mem_cons_self

/-- An order that has traded is not refused, and what is left of a limit order comes to
rest. -/
theorem process_of_trade (h : b.HasLayout L) (hw : L.WellFormed) (hlimit : o.kind = .limit)
    (trades : List Trade) (hmade : (L.fills o clientId).trades ≠ []) :
  ∃ report, (b.process o clientId trades).1 = .ok report
    ∧ (report.stpTriggered = false → 0 < report.remainingQty →
      ∃ k, b.RestsAnew (b.process o clientId trades).2.1 o.bookSide k
        { o with id := (b.stampId o).1.id, qty := report.remainingQty })
  := by
  have hkind : o.kind ≠ .cancel := ne_of_eq_of_ne hlimit (by decide)
  obtain ⟨b', heq, h'⟩ := h.process_eq hw hkind clientId trades
  have hprocessed := L.process_cases o clientId trades
  have hslots := h.restingSlots_eq o.bookSide
  rw [heq, h.stampId_id]
  dsimp only
  generalize (L.process o clientId trades).1 = res at hprocessed ⊢
  generalize (L.process o clientId trades).2.1 = L' at hprocessed h'
  cases res with
  | error e =>
      obtain ⟨-, -, hidle, -⟩ := hprocessed.of_error hw
      rw [hidle] at hmade
      contradiction
  | ok report =>
      refine ⟨report, rfl, fun hstp hqty => ?_⟩
      rcases hprocessed.put_or hw with ⟨-, hdone⟩ | ⟨-, hok, i, j, L₁, hw₁, hladder, rfl⟩
      · obtain ⟨rfl, hrests⟩ := hdone report rfl
        exact absurd ⟨hstp, hqty, hlimit⟩ hrests
      · obtain rfl := Except.ok.inj hok
        have hmem := Layout.mem_resting_put hw₁ ⟨i, (L.fills o clientId).taker, clientId⟩ j
        dsimp only at hmem
        rw [L.bookSide_taker_fills] at hmem
        refine ⟨i, ⟨?_, ?_, ?_⟩⟩
        · rw [h'.restingSlots_eq]
          apply List.mem_map_of_mem hmem
        · -- the slot is not in use on the side of the order
          rw [hslots]
          intro hold
          obtain ⟨r, hr, hslot⟩ := List.mem_map.mp hold
          rw [Layout.resting, ← L.ladder_taken_bookSide o clientId, ← hladder] at hr
          obtain ⟨l, hl, hrl⟩ := mem_restingOf.mp hr
          apply h'.slot_notMem_of_put hw₁ _ l hl
          exact List.mem_map.mpr ⟨r, hrl, hslot⟩
        · rw [(h'.node_eq hmem).1]
          apply L.taker_fills

end HasLayout

/-- An order that is refused has not traded, and the book is as before; a limit order that has
traded is not refused, and what is left of it comes to rest. -/
theorem intact_or_rested (symbol : Symbol) (cs : List Call) {o : Order}
    (hkind : o.kind ≠ .cancel) (clientId : UInt64) (trades : List Trade) :
  let b := (OrderBook.new symbol).calls cs
  let res := b.process o clientId trades
  (∀ e, res.1 = .error e → res.2.2 = trades ∧ b.Intact res.2.1)
    ∧ ∀ made, res.2.2 = trades ++ made → made ≠ [] → o.kind = .limit →
      ∃ report, res.1 = .ok report
        ∧ (report.stpTriggered = false → 0 < report.remainingQty →
          ∃ k, b.RestsAnew res.2.1 o.bookSide k
            { o with id := (b.stampId o).1.id, qty := report.remainingQty })
  := by
  obtain ⟨L, h, hw⟩ := exists_layout symbol cs
  dsimp only
  constructor
  · intro e herror
    apply h.process_error hw hkind herror
  · intro made hmade hne hlimit
    obtain ⟨b', heq, -⟩ := h.process_eq hw hkind clientId trades
    rw [heq, L.trades_process] at hmade
    apply h.process_of_trade hw hlimit
    rw [List.append_cancel_left hmade]
    apply hne

/-- A bid of more than the asks of `sampleCalls` trades with both and comes to rest. -/
theorem intact_or_rested_sampleBid :
  let b := (OrderBook.new .btc).calls (sampleCalls.take 2)
  let o := Order.newLimit 3 9 .btc .buy 100 10
  ∃ report, (b.process o 0 []).1 = .ok report
    ∧ (report.stpTriggered = false → 0 < report.remainingQty →
      ∃ k, b.RestsAnew (b.process o 0 []).2.1 .buy k
        { o with id := (b.stampId o).1.id, qty := report.remainingQty })
  := by
  have hne : (((OrderBook.new .btc).calls (sampleCalls.take 2)).process
      (Order.newLimit 3 9 .btc .buy 100 10) 0 []).2.2 ≠ [] := by decide +kernel
  exact (intact_or_rested .btc (sampleCalls.take 2) (by decide) 0 []).2 _ rfl hne rfl

end OrderBook

end LimitOrderBook
