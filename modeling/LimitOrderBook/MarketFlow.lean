import LimitOrderBook.Trades

/-!
# The flow of a market

From what the calls of a run return, its `MarketFlow`, one can reckon what is open at a price:
the remainders of the limit orders submitted there, less what was traded and what was cancelled.

The orders are taken account of by a `MakerTest`: what passes the test and was submitted rests,
or was traded, or was cancelled (`Layout.Accounts`).
-/

namespace LimitOrderBook

/-! ### Quantities -/

section

variable {α : Type} (p : α → Bool) (qty : α → UInt64)

/-- The quantities of the elements of a list that pass a test. -/
def qtyWhere (as : List α) : Nat := ((as.filter p).map fun a => (qty a).toNat).sum

@[simp]
theorem qtyWhere_nil :
  qtyWhere p qty [] = 0
  := rfl

@[simp]
theorem qtyWhere_cons (a : α) (as : List α) :
  qtyWhere p qty (a :: as) = (if p a then (qty a).toNat else 0) + qtyWhere p qty as
  := by
  unfold qtyWhere
  rw [List.filter_cons]
  split
  · rfl
  · rw [Nat.zero_add]

@[simp]
theorem qtyWhere_append (as bs : List α) :
  qtyWhere p qty (as ++ bs) = qtyWhere p qty as + qtyWhere p qty bs
  := by
  simp [qtyWhere]

/-- The sequence does not count. -/
theorem qtyWhere_perm {as bs : List α} (h : as.Perm bs) :
  qtyWhere p qty as = qtyWhere p qty bs
  := ((h.filter p).map _).sum_nat

/-- What passes a test counts once, and what does not counts nothing. -/
theorem qtyWhere_eq_sum (as : List α) :
  qtyWhere p qty as = (as.map fun a => (if p a then 1 else 0) * (qty a).toNat).sum
  := by
  induction as with
  | nil => rfl
  | cons a as ih =>
      rw [qtyWhere_cons, ih, List.map_cons, List.sum_cons]
      split <;> simp

/-- Without quantity there is nothing to sum. -/
theorem qtyWhere_of_zero {as : List α} (h : ∀ a ∈ as, qty a = 0) :
  qtyWhere p qty as = 0
  := by
  induction as with
  | nil => rfl
  | cons a as ih =>
      rw [qtyWhere_cons, h a List.mem_cons_self, ih fun b hb => h b (List.mem_cons_of_mem a hb)]
      split <;> rfl

/-- Without an element of the kind there is nothing to sum. -/
theorem qtyWhere_of_none {as : List α} (h : ∀ a ∈ as, ¬ p a = true) :
  qtyWhere p qty as = 0
  := by
  unfold qtyWhere
  rw [List.filter_eq_nil_iff.mpr h]
  rfl

/-- A sum that is positive has an element of the kind. -/
theorem exists_of_qtyWhere_pos {as : List α} (h : 0 < qtyWhere p qty as) :
  ∃ a ∈ as, p a
  := by
  by_contra hnone
  rw [qtyWhere_of_none] at h
  · cases h
  · intro a ha hp
    exact hnone ⟨a, ha, hp⟩

/-- An element of the kind with quantity makes the sum positive. -/
theorem qtyWhere_pos {as : List α} {a : α} (ha : a ∈ as) (hp : p a) (hqty : 0 < qty a) :
  0 < qtyWhere p qty as
  := by
  obtain ⟨as₁, as₂, rfl⟩ := List.append_of_mem ha
  have hpos := UInt64.pos_iff_toNat_pos.mp hqty
  rw [qtyWhere_append, qtyWhere_cons, if_pos hp]
  omega

/-- The quantity of the one element of a key. -/
theorem qtyWhere_of_nodup {κ : Type} [BEq κ] [LawfulBEq κ] {f : α → κ} {as : List α} {a : α}
    (hnodup : (as.map f).Nodup) (ha : a ∈ as) :
  qtyWhere (fun b => f b == f a) qty as = (qty a).toNat
  := by
  obtain ⟨as₁, as₂, rfl⟩ := List.append_of_mem ha
  have hperm : ((as₁ ++ a :: as₂).map f).Perm (f a :: (as₁ ++ as₂).map f) :=
    List.perm_middle.map f
  rw [hperm.nodup_iff, List.nodup_cons] at hnodup
  have hnone : qtyWhere (fun b => f b == f a) qty (as₁ ++ as₂) = 0 := by
    apply qtyWhere_of_none
    intro b hb heq
    apply hnodup.1
    rw [← beq_iff_eq.mp heq]
    apply List.mem_map_of_mem hb
  rw [qtyWhere_append] at hnone
  rw [qtyWhere_append, qtyWhere_cons, if_pos BEq.rfl]
  omega

end

/-! ### The flow of a market -/

/-- What the calls of a run return, as far as it concerns the orders at rest: the orders that
were submitted to the book, each with the quantity that remained of it, the trades that were
made, and the orders that were cancelled. -/
@[ext]
structure MarketFlow where
  submissions : List Order
  trades : List Trade
  cancellations : List Order

namespace MarketFlow

/-- Nothing was returned. -/
def none : MarketFlow := ⟨[], [], []⟩

instance : Append MarketFlow where
  append F G :=
    ⟨F.submissions ++ G.submissions, F.trades ++ G.trades, F.cancellations ++ G.cancellations⟩

@[simp]
theorem submissions_append (F G : MarketFlow) :
  (F ++ G).submissions = F.submissions ++ G.submissions
  := rfl

@[simp]
theorem trades_append (F G : MarketFlow) :
  (F ++ G).trades = F.trades ++ G.trades
  := rfl

@[simp]
theorem cancellations_append (F G : MarketFlow) :
  (F ++ G).cancellations = F.cancellations ++ G.cancellations
  := rfl

theorem append_none (F : MarketFlow) :
  F ++ none = F
  := MarketFlow.ext (List.append_nil _) (List.append_nil _) (List.append_nil _)

theorem append_assoc (F G H : MarketFlow) :
  F ++ G ++ H = F ++ (G ++ H)
  := MarketFlow.ext (List.append_assoc ..) (List.append_assoc ..) (List.append_assoc ..)

/-- What is open on the side `s` at the price `p`: what was submitted, less what was traded and
what was cancelled. -/
def openQty (F : MarketFlow) (s : Side) (p : UInt64) : Int :=
  qtyWhere (fun o => o.side == s.toByte && o.price == p) Order.qty F.submissions
    - qtyWhere (fun t => t.makerSide == s.toByte && t.price == p) Trade.qty F.trades
    - qtyWhere (fun o => o.side == s.toByte && o.price == p) Order.qty F.cancellations

/-- An order that was submitted is neither fully traded nor cancelled. -/
def isOpen (F : MarketFlow) (o : Order) : Bool :=
  qtyWhere (fun t => t.makerOrderId == o.id) Trade.qty F.trades < o.qty.toNat
    && !(F.cancellations.map (·.id)).contains o.id

/-- The number of orders open on the side `s` at the price `p`. -/
def openOrders (F : MarketFlow) (s : Side) (p : UInt64) : Nat :=
  (F.submissions.filter fun o => o.side == s.toByte && o.price == p && F.isOpen o).length

/-- What market data has to show on the side `s` at the price `p`. -/
def openLevel (F : MarketFlow) (s : Side) (p : UInt64) : MarketDepthLevel where
  price := p
  totalQty := UInt64.ofNat (F.openQty s p).toNat
  orderCount := F.openOrders s p

end MarketFlow

namespace OrderBook

/-- What a cancel returns, if it succeeds. -/
def cancelFlow (b : OrderBook) (userId orderId : UInt64) : MarketFlow where
  submissions := []
  trades := []
  cancellations := (b.cancelOrder userId orderId).1.toOption.toList

/-- What a call returns.  A limit order that succeeds, and has met no order of its own user, is
submitted with what remains of it, if only nothing; an order that cancels has `cancelOrder`
return an order. -/
def flow1 (b : OrderBook) : Call → MarketFlow
  | .process o clientId trades =>
      if o.kind = .cancel then
        b.cancelFlow o.userId (if o.id ≠ 0 then o.id else o.clientOrderId)
      else
        let res := b.process o clientId trades
        { submissions :=
            (res.1.toOption.toList.filter fun report =>
                o.kind == .limit && !report.stpTriggered).map
              fun report => { (b.stampId o).1 with qty := report.remainingQty }
          trades := res.2.2.drop trades.length
          cancellations := [] }
  | .cancelOrder u k => b.cancelFlow u k

/-- What a sequence of calls returns. -/
def flow (b : OrderBook) : List Call → MarketFlow
  | [] => .none
  | c :: cs => b.flow1 c ++ (b.call c).flow cs

end OrderBook

/-! ### Every quantity is accounted for -/

/-- A test of orders that does not depend on their quantity, with the test of trades that the
trades of the orders pass. -/
structure MakerTest where
  order : Order → Bool
  trade : Trade → Bool
  order_qty : ∀ (o : Order) (qty : UInt64), order { o with qty := qty } = order o
  trade_tradeOf : ∀ (nextId : UInt64) (maker taker : Order) (makerClientId takerClientId qty : UInt64),
    trade (OrderBook.tradeOf nextId maker taker makerClientId takerClientId qty) = order maker

namespace MakerTest

/-- The orders of a side at a price. -/
def atPrice (s : Side) (p : UInt64) : MakerTest where
  order o := o.side == s.toByte && o.price == p
  trade t := t.makerSide == s.toByte && t.price == p
  order_qty _ _ := rfl
  trade_tradeOf _ _ _ _ _ _ := rfl

/-- The orders of an identifier. -/
def named (id : UInt64) : MakerTest where
  order o := o.id == id
  trade t := t.makerOrderId == id
  order_qty _ _ := rfl
  trade_tradeOf _ _ _ _ _ _ := rfl

variable (T : MakerTest)

/-- The test as a rate. -/
def rate : MakerRate where
  order o := if T.order o then 1 else 0
  trade t := if T.trade t then 1 else 0
  order_qty _ _ := by rw [T.order_qty]
  trade_tradeOf _ _ _ _ _ _ := by rw [T.trade_tradeOf]

/-- The quantity of the resting orders that pass the test. -/
def resting (rs : List Resting) : Nat := qtyWhere (fun r => T.order r.order) (fun r => r.order.qty) rs

/-- What a taker takes off the orders is what it trades. -/
theorem resting_matchOrders (accepts : UInt64 → Bool) (takerClientId : UInt64) (taker : Order)
    (nextId : UInt64) (rs : List Resting) :
  T.resting rs
    = T.resting (matchOrders accepts takerClientId taker nextId rs).left
      + qtyWhere T.trade Trade.qty (matchOrders accepts takerClientId taker nextId rs).trades
  := by
  have hrate := T.rate.resting_matchOrders accepts takerClientId taker nextId rs
  unfold resting
  rw [qtyWhere_eq_sum, qtyWhere_eq_sum, qtyWhere_eq_sum]
  apply hrate

variable {L L' : Layout}

/-- What rests when one ladder changes. -/
theorem resting_of_update {s : Side} {ls : List Level}
    (h : L'.ladder = Function.update L.ladder s ls) :
  T.resting (restingOf L'.levels)
    = T.resting (restingOf ls) + T.resting (L.resting s.opposite)
  := by
  have hperm := (Layout.levels_perm_of_update h).flatMap_right (·.queue)
  rw [List.flatMap_append] at hperm
  unfold resting
  rw [← qtyWhere_append]
  apply qtyWhere_perm _ _ hperm

/-- What rests is in the ladders. -/
theorem resting_congr (h : L'.ladder = L.ladder) :
  T.resting (restingOf L'.levels) = T.resting (restingOf L.levels)
  := by
  unfold Layout.levels
  rw [h]

/-- What rests is on one of the two sides. -/
theorem resting_eq (L : Layout) (s : Side) :
  T.resting (restingOf L.levels)
    = T.resting (L.resting s) + T.resting (L.resting s.opposite)
  := T.resting_of_update (Function.update_eq_self s L.ladder).symm

/-- What a taker trades is gone from what rests. -/
theorem resting_taken (hw : L.WellFormed) (o : Order) (clientId : UInt64) :
  T.resting (restingOf L.levels)
    = T.resting (restingOf (L.taken o clientId).levels)
      + qtyWhere T.trade Trade.qty (L.fills o clientId).trades
  := by
  have hmatch := T.resting_matchOrders (o.accepts o.takesFrom) clientId (L.stamped o)
    L.tradeIdCounter (L.resting o.takesFrom)
  rw [hw.fills_eq] at hmatch
  have hL' : (L.taken o clientId).ladder
      = Function.update L.ladder o.takesFrom (L.fills o clientId).ladder := rfl
  rw [T.resting_eq L o.takesFrom, hmatch, T.resting_of_update hL']
  dsimp only
  omega

/-- An order that comes to rest is added to what rests. -/
theorem resting_put (hw : L.WellFormed) (r : Resting) (j : Nat) :
  T.resting (restingOf (L.put r j).levels)
    = (if T.order r.order then r.order.qty.toNat else 0) + T.resting (restingOf L.levels)
  := by
  have hL' : (L.put r j).ladder = Function.update L.ladder r.order.bookSide
      (restLadder r.order.bookSide r j (L.ladder r.order.bookSide)) := rfl
  have hput : T.resting (restingOf (restLadder r.order.bookSide r j (L.ladder r.order.bookSide)))
      = T.resting (r :: L.resting r.order.bookSide) :=
    qtyWhere_perm _ _ (perm_restLadder j (hw.sorted r.order.bookSide))
  rw [T.resting_of_update hL', hput, T.resting_eq L r.order.bookSide]
  simp only [resting, qtyWhere_cons]
  omega

/-- An order that is cancelled is gone from what rests. -/
theorem resting_remove (pl : L.Place) :
  T.resting (restingOf L.levels)
    = (if T.order pl.order.order then pl.order.order.qty.toNat else 0)
      + T.resting (restingOf (L.remove pl).levels)
  := by
  have hL' : (L.remove pl).ladder
      = Function.update L.ladder pl.side (pl.above ++ pl.remains ++ pl.below) := rfl
  have hremove : T.resting (L.resting pl.side)
      = T.resting (pl.order :: restingOf (pl.above ++ pl.remains ++ pl.below)) :=
    qtyWhere_perm _ _ (Layout.WellFormed.perm_remove pl)
  rw [T.resting_of_update hL', T.resting_eq L pl.side, hremove]
  simp only [resting, qtyWhere_cons]
  omega

end MakerTest

/-! ### What a call returns -/

namespace Layout

/-- The outcomes of a call, with what it returns: an order is matched and nothing of it comes to
rest, or its remainder does; a cancel fails, or it takes an order out. -/
inductive Returns (L : Layout) : Call → MarketFlow → Layout → Prop where
  | matched {o : Order} {clientId : UInt64} {trades : List Trade} {os : List Order} {L' : Layout}
      (hkind : o.kind ≠ .cancel) (hladder : L'.ladder = (L.taken o clientId).ladder)
      (hos : ∀ x ∈ os, x.qty = 0) :
      Returns L (.process o clientId trades) ⟨os, (L.fills o clientId).trades, []⟩ L'
  | rested {o : Order} {clientId : UInt64} {trades : List Trade} {L₁ : Layout} (i j : Nat)
      (hkind : o.kind ≠ .cancel) (hw₁ : L₁.WellFormed)
      (hladder : L₁.ladder = (L.taken o clientId).ladder) :
      Returns L (.process o clientId trades)
        ⟨[(L.fills o clientId).taker], (L.fills o clientId).trades, []⟩
        (L₁.put ⟨i, (L.fills o clientId).taker, clientId⟩ j)
  | noCancel {c : Call} (h : c.Cancels) : Returns L c .none L
  | cancelled {c : Call} (h : c.Cancels) (pl : L.Place) :
      Returns L c ⟨[], [], [pl.order.order]⟩ (L.remove pl)

/-- Every quantity that passes the test and was submitted rests, or was traded, or was
cancelled. -/
def Accounts (L : Layout) (T : MakerTest) (F : MarketFlow) : Prop :=
  qtyWhere T.order Order.qty F.submissions
    = T.resting (restingOf L.levels) + qtyWhere T.trade Trade.qty F.trades
      + qtyWhere T.order Order.qty F.cancellations

/-- In a new book nothing rests, and nothing has happened. -/
theorem accounts_new (T : MakerTest) :
  new.Accounts T .none
  := rfl

/-- A call keeps the accounts. -/
theorem Accounts.step {L L' : Layout} {T : MakerTest} {F G : MarketFlow} {c : Call}
    (h : L.Accounts T F) (hw : L.WellFormed) (hr : L.Returns c G L') :
  L'.Accounts T (F ++ G)
  := by
  unfold Accounts at h ⊢
  cases hr with
  | @matched o clientId _ os _ _ hladder hos =>
      have hzero : qtyWhere T.order Order.qty os = 0 := qtyWhere_of_zero _ _ hos
      have htaken := T.resting_taken hw o clientId
      rw [T.resting_congr hladder]
      simp only [MarketFlow.submissions_append, MarketFlow.trades_append,
        MarketFlow.cancellations_append, qtyWhere_append, qtyWhere_nil]
      omega
  | @rested o clientId _ L₁ i j _ hw₁ hladder =>
      have htaken := T.resting_taken hw o clientId
      have hput := T.resting_put hw₁ ⟨i, (L.fills o clientId).taker, clientId⟩ j
      rw [T.resting_congr hladder] at hput
      rw [hput]
      simp only [MarketFlow.submissions_append, MarketFlow.trades_append,
        MarketFlow.cancellations_append, qtyWhere_append, qtyWhere_cons, qtyWhere_nil]
      omega
  | noCancel =>
      rw [MarketFlow.append_none]
      apply h
  | cancelled _ pl =>
      have hremove := T.resting_remove pl
      simp only [MarketFlow.submissions_append, MarketFlow.trades_append,
        MarketFlow.cancellations_append, qtyWhere_append, qtyWhere_cons, qtyWhere_nil]
      omega

end Layout

namespace OrderBook.HasLayout

variable {b : OrderBook} {L : Layout}

/-- What a cancel returns, and what it does. -/
theorem cancelFlow_returns (h : b.HasLayout L) (hw : L.WellFormed) (u k : UInt64) {c : Call}
    (hc : c.Cancels) :
  ∃ L', (b.cancelOrder u k).2.HasLayout L' ∧ L.Step c L' ∧ L.Returns c (b.cancelFlow u k) L'
  := by
  unfold cancelFlow
  rcases h.cancelOrder_cases hw u k with ⟨e, heq, -⟩ | ⟨pl, b', -, -, heq, h'⟩
  · rw [heq]
    exact ⟨L, h, .noCancel hc, .noCancel hc⟩
  · rw [heq]
    exact ⟨L.remove pl, h', .cancel hc pl, .cancelled hc pl⟩

/-- What a call returns, and what it does. -/
theorem flow1_returns (h : b.HasLayout L) (hw : L.WellFormed) (c : Call) :
  ∃ L', (b.call c).HasLayout L' ∧ L.Step c L' ∧ L.Returns c (b.flow1 c) L'
  := by
  cases c with
  | cancelOrder u k => exact h.cancelFlow_returns hw u k trivial
  | process o clientId trades =>
      by_cases hkind : o.kind = .cancel
      · rw [OrderBook.call, b.process_of_cancel hkind, flow1, if_pos hkind]
        exact h.cancelFlow_returns hw _ _ hkind
      · obtain ⟨b', heq, h'⟩ := h.process_eq hw hkind clientId trades
        have hstamp : (b.stampId o).1 = L.stamped o := by
          rw [(h.stampId_eq o).1, L.stampId_eq]
        rw [OrderBook.call, flow1, if_neg hkind, heq, hstamp, L.trades_process]
        dsimp only
        rw [List.drop_left]
        refine ⟨_, h', .process clientId trades hkind, ?_⟩
        have hprocessed := L.process_cases o clientId trades
        generalize (L.process o clientId trades).1 = res at hprocessed ⊢
        generalize (L.process o clientId trades).2.1 = L' at hprocessed ⊢
        rcases hprocessed.put_or hw with ⟨hladder, hok⟩ | ⟨hrests, rfl, i, j, L₁, hw₁, hladder, rfl⟩
        · apply Layout.Returns.matched hkind hladder
          intro x hx
          obtain ⟨report, hreport, rfl⟩ := List.mem_map.mp hx
          obtain ⟨hres, hlimit⟩ := List.mem_filter.mp hreport
          have hres' : res = .ok report := by
            cases res with
            | error e => cases hres
            | ok report' => rw [List.mem_singleton.mp hres]
          obtain ⟨rfl, hrests⟩ := hok report hres'
          rw [Bool.and_eq_true, beq_iff_eq, Bool.not_eq_true'] at hlimit
          by_contra hne
          apply hrests
          exact ⟨hlimit.2, UInt64.ne_zero_iff_pos.mp hne, hlimit.1⟩
        · have hlimit : (o.kind == .limit && !(L.report o clientId).stpTriggered) = true := by
            rw [Bool.and_eq_true, beq_iff_eq, Bool.not_eq_true']
            exact ⟨hrests.2.2, hrests.1⟩
          have htaker : { L.stamped o with qty := (L.report o clientId).remainingQty }
              = (L.fills o clientId).taker := (L.taker_fills o clientId).symm
          simp only [Except.toOption, Option.toList_some, List.filter_cons, hlimit, if_true,
            List.filter_nil, List.map_cons, List.map_nil, htaker]
          exact .rested i j hkind hw₁ hladder

end OrderBook.HasLayout

/-! ### Runs -/

namespace OrderBook

/-- What has happened after one more call. -/
theorem flow_concat (b : OrderBook) (cs : List Call) (c : Call) :
  b.flow (cs ++ [c]) = b.flow cs ++ (b.calls cs).flow1 c
  := by
  induction cs generalizing b with
  | nil =>
      rw [List.nil_append, flow, flow, flow, MarketFlow.append_none]
      rfl
  | cons c' cs ih =>
      rw [List.cons_append, flow, flow, ih, MarketFlow.append_assoc]
      rfl

/-- Only an order that is processed is a submission. -/
theorem submissions_flow1 (b : OrderBook) (c : Call) :
  ((b.flow1 c).submissions.map (·.id)).Sublist (b.usedId c).toList
  := by
  cases c with
  | cancelOrder u k => apply List.nil_sublist
  | process o clientId trades =>
      by_cases hkind : o.kind = .cancel
      · rw [flow1, if_pos hkind]
        apply List.nil_sublist
      · rw [flow1, if_neg hkind, usedId_process b hkind]
        dsimp only
        rw [List.map_map]
        cases (b.process o clientId trades).1 with
        | error e => apply List.nil_sublist
        | ok report =>
            apply (List.filter_sublist.map _).trans
            exact List.Sublist.refl [(b.stampId o).1.id]

/-- Submissions go by the identifiers in use. -/
theorem submissions_flow (b : OrderBook) (cs : List Call) :
  ((b.flow cs).submissions.map (·.id)).Sublist (b.usedIds cs)
  := by
  induction cs generalizing b with
  | nil => exact List.Sublist.refl []
  | cons c cs ih =>
      rw [flow, MarketFlow.submissions_append, List.map_append, usedIds]
      exact (b.submissions_flow1 c).append (ih (b.call c))

end OrderBook

/-- The order of a call is on one of the two sides. -/
def Call.SideValid : Call → Prop
  | .process o _ _ => o.kind ≠ .cancel → o.getSide.isSome
  | .cancelOrder _ _ => True

instance : DecidablePred Call.SideValid
  | .process o _ _ => inferInstanceAs (Decidable (o.kind ≠ .cancel → o.getSide.isSome))
  | .cancelOrder _ _ => .isTrue trivial

/-- The submissions of calls with valid sides have valid sides. -/
theorem OrderBook.getSide_submissions_flow (b : OrderBook) {cs : List Call}
    (hsides : ∀ c ∈ cs, c.SideValid) :
  ∀ o ∈ (b.flow cs).submissions, o.getSide.isSome
  := by
  induction cs generalizing b with
  | nil =>
      intro o ho
      cases ho
  | cons c cs ih =>
      intro o ho
      rw [flow, MarketFlow.submissions_append] at ho
      rcases List.mem_append.mp ho with ho | ho
      · have hc := hsides c List.mem_cons_self
        cases c with
        | cancelOrder u k => cases ho
        | process o' clientId trades =>
            by_cases hkind : o'.kind = .cancel
            · rw [flow1, if_pos hkind] at ho
              cases ho
            · rw [flow1, if_neg hkind] at ho
              obtain ⟨report, -, rfl⟩ := List.mem_map.mp ho
              have hside : (b.stampId o').1.side = o'.side := by
                unfold stampId
                split <;> rfl
              have hgetSide : ({ (b.stampId o').1 with qty := report.remainingQty } : Order).getSide
                  = o'.getSide := congrArg Side.tryFrom hside
              rw [hgetSide]
              exact hc hkind
      · exact ih (b.call c) (fun c' hc' => hsides c' (List.mem_cons_of_mem c hc')) o ho

/-- What the identifiers in use, the flow of the market and a layout have to do with each
other. -/
structure Layout.Traced (used : List UInt64) (F : MarketFlow) (L : Layout) : Prop where
  identified : OrderBook.Identified used L
  accounts : ∀ T, L.Accounts T F
  cancelled_used : ∀ x ∈ F.cancellations, x.id ∈ used
  cancelled_gone : ∀ x ∈ F.cancellations,
    (MakerTest.named x.id).resting (restingOf L.levels) = 0

namespace Layout.Traced

variable {used : List UInt64} {F G : MarketFlow} {L L' : Layout}

/-- In a new book nothing rests that could have been submitted. -/
theorem new :
  Traced [] .none Layout.new
  := ⟨.new, accounts_new, fun _ hx => (nomatch hx), fun _ hx => nomatch hx⟩

/-- An identifier in use does not come to rest again. -/
theorem resting_named_eq_zero {b : OrderBook} {c : Call} {id : UInt64} (h : b.HasLayout L)
    (hw : L.WellFormed) (hnew : (used ++ (b.usedId c).toList).Nodup) (hid : id ∈ used)
    (hr : L.Returns c G L') (hzero : (MakerTest.named id).resting (restingOf L.levels) = 0) :
  (MakerTest.named id).resting (restingOf L'.levels) = 0
  := by
  cases hr with
  | @matched o clientId _ _ _ _ hladder _ =>
      have htaken := (MakerTest.named id).resting_taken hw o clientId
      rw [MakerTest.resting_congr _ hladder]
      omega
  | @rested o clientId _ L₁ i j hkind hw₁ hladder =>
      have htaken := (MakerTest.named id).resting_taken hw o clientId
      have hput := (MakerTest.named id).resting_put hw₁ ⟨i, (L.fills o clientId).taker, clientId⟩ j
      have hne : ¬ (MakerTest.named id).order (L.fills o clientId).taker = true := by
        rw [OrderBook.usedId_process _ hkind, h.stampId_id, Option.toList_some] at hnew
        rw [L.taker_fills]
        intro heq
        apply (List.nodup_append.mp hnew).2.2 id hid (L.stamp o) (List.mem_singleton_self _)
        exact (beq_iff_eq.mp heq).symm
      rw [MakerTest.resting_congr _ hladder, if_neg hne] at hput
      omega
  | noCancel => apply hzero
  | cancelled _ pl =>
      have hremove := (MakerTest.named id).resting_remove pl
      omega

/-- An order that is cancelled was the only one of its identifier. -/
theorem resting_named_remove (hid : OrderBook.Identified used L) (pl : L.Place) :
  (MakerTest.named pl.order.order.id).resting (restingOf (L.remove pl).levels) = 0
  := by
  have hnodup := hid.knows.nodup
  have hperm := ((WellFormed.entries_remove pl).map FastIndexEntry.orderId).nodup_iff.mp hnodup
  rw [List.map_cons, List.nodup_cons] at hperm
  apply qtyWhere_of_none
  intro r hr heq
  apply hperm.1
  apply List.mem_map.mpr
  exact ⟨r.entry, List.mem_map_of_mem hr, beq_iff_eq.mp heq⟩

/-- A step keeps what rests traced to what has happened. -/
theorem step {b : OrderBook} {c : Call} (ht : Traced used F L) (h : b.HasLayout L)
    (hw : L.WellFormed) (hnew : (used ++ (b.usedId c).toList).Nodup) (hs : L.Step c L')
    (hr : L.Returns c G L') :
  Traced (used ++ (b.usedId c).toList) (F ++ G) L'
  := by
  refine ⟨ht.identified.step h hw hnew hs, fun T => (ht.accounts T).step hw hr, ?_, ?_⟩
  · intro x hx
    apply List.mem_append_left
    rcases List.mem_append.mp hx with hx | hx
    · apply ht.cancelled_used x hx
    · cases hr with
      | matched => cases hx
      | rested => cases hx
      | noCancel => cases hx
      | cancelled _ pl =>
          rw [List.mem_singleton.mp hx]
          apply ht.identified.used pl.order.entry
          exact (WellFormed.entries_remove pl).mem_iff.mpr List.mem_cons_self
  · intro x hx
    rcases List.mem_append.mp hx with hx | hx
    · exact resting_named_eq_zero h hw hnew (ht.cancelled_used x hx) hr (ht.cancelled_gone x hx)
    · cases hr with
      | matched => cases hx
      | rested => cases hx
      | noCancel => cases hx
      | cancelled _ pl =>
          rw [List.mem_singleton.mp hx]
          apply resting_named_remove ht.identified

end Layout.Traced

namespace OrderBook

/-- The run rule for the flow of a market. -/
theorem traced_calls (symbol : Symbol) (cs : List Call)
    (hids : ((OrderBook.new symbol).usedIds cs).Nodup)
    (hbound : ∀ cs', cs' <+: cs → ((OrderBook.new symbol).calls cs').QtyBounded) :
  ∃ L, ((OrderBook.new symbol).calls cs).HasLayout L ∧ L.WellFormed ∧ L.Exact
    ∧ L.Traced ((OrderBook.new symbol).usedIds cs) ((OrderBook.new symbol).flow cs)
  := by
  induction cs using List.reverseRecOn with
  | nil =>
      refine ⟨Layout.new, HasLayout.new symbol, Layout.wellFormed_new, ?_, .new⟩
      intro s l hl
      cases hl
  | append_singleton cs c ih =>
      obtain ⟨L, h, hw, hx, ht⟩ := ih (nodup_of_usedIds_concat hids)
        fun cs' hcs' => hbound cs' (hcs'.trans (List.prefix_append cs [c]))
      obtain ⟨L', h', hs, hr⟩ := h.flow1_returns hw c
      rw [usedIds_concat] at hids ⊢
      rw [flow_concat]
      rw [← calls_concat] at h'
      have hb := h'.bounded (hbound (cs ++ [c]) (List.prefix_refl _))
      exact ⟨L', h', hs.wellFormed hw, hx.step hw hs hb, ht.step h hw hids hs hr⟩

end OrderBook

end LimitOrderBook
