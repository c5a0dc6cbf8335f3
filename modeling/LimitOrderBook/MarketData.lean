import LimitOrderBook.MarketFlow

/-!
# Market data

The market data of a book shows what is open according to what the calls have returned: the
levels of `getDepth` are the prices at which anything is, best price first, and `getBbo` is the
first of them (`reconciles_calls`). A number of levels whose vector cannot be allocated is not
answered at all (`not_getDepth_usizeMax`).
-/

namespace LimitOrderBook

namespace OrderBook

/-- The market data of a book shows what is open, at the prices of either side at which anything
is. -/
structure Reconciles (b : OrderBook) (F : MarketFlow) (prices : Side → List UInt64) : Prop where
  sorted : ∀ s, (prices s).Pairwise fun p q => s.before p q
  mem_iff : ∀ s p, p ∈ prices s ↔ 0 < F.openQty s p
  bounded : ∀ s p, 0 ≤ F.openQty s p ∧ F.openQty s p < 2 ^ 64
  getDepth : ∀ maxLevels, 24 * maxLevels < 2 ^ 63 → b.getDepth maxLevels
    = some (((prices .buy).take maxLevels).map (F.openLevel .buy),
        ((prices .sell).take maxLevels).map (F.openLevel .sell))
  getBbo : b.getBbo
    = ((prices .buy).head?.map fun p => (p, (F.openLevel .buy p).totalQty),
        (prices .sell).head?.map fun p => (p, (F.openLevel .sell p).totalQty))

end OrderBook

/-! ### What is at rest and what is open -/

namespace MakerTest

/-- The orders that share identifier, side and price with an order. -/
def like (x : Order) : MakerTest where
  order o := o.id == x.id && (o.side == x.side && o.price == x.price)
  trade t := t.makerOrderId == x.id && (t.makerSide == x.side && t.price == x.price)
  order_qty _ _ := rfl
  trade_tradeOf _ _ _ _ _ _ := rfl

end MakerTest

namespace Layout

variable {L : Layout} {s : Side} {F : MarketFlow} {used : List UInt64} {r : Resting}

theorem WellFormed.qty_pos_of_mem (hw : L.WellFormed) (hr : r ∈ restingOf L.levels) :
  0 < r.order.qty
  := by
  obtain ⟨l, hl, hr⟩ := mem_restingOf.mp hr
  obtain ⟨s, hl⟩ := mem_levels.mp hl
  apply hw.qty_pos s l hl r hr

namespace Traced

/-- An order at rest was submitted. -/
theorem exists_submission (ht : L.Traced used F) (hw : L.WellFormed)
    (hr : r ∈ restingOf L.levels) :
  ∃ o ∈ F.submissions, o.id = r.order.id ∧ o.side = r.order.side ∧ o.price = r.order.price
  := by
  have hlike : (MakerTest.like r.order).order r.order = true := by
    simp [MakerTest.like]
  have hpos : 0 < (MakerTest.like r.order).resting (restingOf L.levels) :=
    qtyWhere_pos _ _ hr hlike (hw.qty_pos_of_mem hr)
  have haccounts := ht.accounts (MakerTest.like r.order)
  unfold Accounts at haccounts
  obtain ⟨o, ho, hmatch⟩ := exists_of_qtyWhere_pos _ _
    (show 0 < qtyWhere (MakerTest.like r.order).order Order.qty F.submissions by omega)
  simp only [MakerTest.like, Bool.and_eq_true, beq_iff_eq] at hmatch
  exact ⟨o, ho, hmatch⟩

/-- An order at rest is on the side its byte says. -/
theorem side_eq (ht : L.Traced used F) (hw : L.WellFormed)
    (hsides : ∀ o ∈ F.submissions, o.getSide.isSome) {l : Level} (hl : l ∈ L.ladder s)
    (hr : r ∈ l.queue) :
  r.order.side = s.toByte
  := by
  obtain ⟨o, ho, -, hside, -⟩ :=
    ht.exists_submission hw (mem_restingOf.mpr ⟨l, mem_levels.mpr ⟨s, hl⟩, hr⟩)
  have hvalid : r.order.getSide.isSome := by
    unfold Order.getSide
    rw [← hside]
    apply hsides o ho
  rw [← hw.side_eq s l hl r hr]
  apply Order.side_eq_toByte hvalid

/-- An order that was submitted is open as long as it rests. -/
theorem isOpen_iff (ht : L.Traced used F) (hw : L.WellFormed)
    (hnodup : (F.submissions.map (·.id)).Nodup) {o : Order} (ho : o ∈ F.submissions) :
  F.isOpen o = true ↔ ∃ r ∈ restingOf L.levels, r.order.id = o.id
  := by
  have haccounts := ht.accounts (MakerTest.named o.id)
  have hsubmitted : qtyWhere (MakerTest.named o.id).order Order.qty F.submissions = o.qty.toNat :=
    qtyWhere_of_nodup Order.qty hnodup ho
  rw [Accounts, hsubmitted] at haccounts
  rw [MarketFlow.isOpen, Bool.and_eq_true, decide_eq_true_eq, Bool.not_eq_true',
    List.contains_eq_mem, decide_eq_false_iff_not]
  change qtyWhere (MakerTest.named o.id).trade Trade.qty F.trades < o.qty.toNat ∧ _ ↔ _
  constructor
  · rintro ⟨htraded, hcancelled⟩
    have hnone : qtyWhere (MakerTest.named o.id).order Order.qty F.cancellations = 0 := by
      apply qtyWhere_of_none
      intro x hx heq
      apply hcancelled
      rw [← beq_iff_eq.mp heq]
      apply List.mem_map_of_mem hx
    obtain ⟨r, hr, heq⟩ := exists_of_qtyWhere_pos _ _
      (show 0 < (MakerTest.named o.id).resting (restingOf L.levels) by omega)
    exact ⟨r, hr, beq_iff_eq.mp heq⟩
  · rintro ⟨r, hr, hid⟩
    have hpos : 0 < (MakerTest.named o.id).resting (restingOf L.levels) :=
      qtyWhere_pos _ _ hr (beq_iff_eq.mpr hid) (hw.qty_pos_of_mem hr)
    refine ⟨by omega, ?_⟩
    intro hmem
    obtain ⟨x, hx, heq⟩ := List.mem_map.mp hmem
    have hgone := ht.cancelled_gone x hx
    rw [heq] at hgone
    omega

/-- As many orders are open on a side at a price as rest there. -/
theorem openOrders_eq (ht : L.Traced used F) (hw : L.WellFormed)
    (hnodup : (F.submissions.map (·.id)).Nodup) (s : Side) (p : UInt64) :
  F.openOrders s p
    = ((restingOf L.levels).filter fun r => (MakerTest.atPrice s p).order r.order).length
  := by
  have hresting : ((restingOf L.levels).map (·.order.id)).Nodup := by
    have hids := ht.identified.knows.nodup
    rw [entries, List.map_map] at hids
    apply hids
  have hperm : ((F.submissions.filter fun o =>
        o.side == s.toByte && o.price == p && F.isOpen o).map (·.id)).Perm
      (((restingOf L.levels).filter fun r =>
        (MakerTest.atPrice s p).order r.order).map (·.order.id)) := by
    apply (List.perm_ext_iff_of_nodup (hnodup.sublist (List.filter_sublist.map _))
      (hresting.sublist (List.filter_sublist.map _))).mpr
    intro id
    simp only [List.mem_map, List.mem_filter, Bool.and_eq_true, beq_iff_eq, MakerTest.atPrice]
    constructor
    · rintro ⟨o, ⟨ho, ⟨hside, hprice⟩, hopen⟩, rfl⟩
      obtain ⟨r, hr, hid⟩ := (ht.isOpen_iff hw hnodup ho).mp hopen
      obtain ⟨o', ho', hid', hside', hprice'⟩ := ht.exists_submission hw hr
      -- the order at rest was submitted as the order that is open
      have heq : o' = o := List.inj_on_of_nodup_map hnodup ho' ho (hid'.trans hid)
      subst heq
      exact ⟨r, ⟨hr, hside' ▸ hside, hprice' ▸ hprice⟩, hid⟩
    · rintro ⟨r, ⟨hr, hside, hprice⟩, rfl⟩
      obtain ⟨o, ho, hid, hside', hprice'⟩ := ht.exists_submission hw hr
      refine ⟨o, ⟨ho, ⟨hside'.trans hside, hprice'.trans hprice⟩, ?_⟩, hid⟩
      apply (ht.isOpen_iff hw hnodup ho).mpr ⟨r, hr, hid.symm⟩
  have hlen := hperm.length_eq
  rw [List.length_map, List.length_map] at hlen
  apply hlen

theorem openQty_eq (ht : L.Traced used F) (s : Side) (p : UInt64) :
  F.openQty s p = (MakerTest.atPrice s p).resting (restingOf L.levels)
  := by
  have haccounts := ht.accounts (MakerTest.atPrice s p)
  unfold Accounts at haccounts
  unfold MarketFlow.openQty
  change ((qtyWhere (MakerTest.atPrice s p).order Order.qty F.submissions : Nat) : Int)
    - (qtyWhere (MakerTest.atPrice s p).trade Trade.qty F.trades : Nat)
    - (qtyWhere (MakerTest.atPrice s p).order Order.qty F.cancellations : Nat) = _
  omega

/-- The orders at rest on a side at the price of a level are its queue. -/
theorem filter_resting (ht : L.Traced used F) (hw : L.WellFormed)
    (hsides : ∀ o ∈ F.submissions, o.getSide.isSome) {l : Level} (hl : l ∈ L.ladder s) :
  ((restingOf L.levels).filter fun r => (MakerTest.atPrice s l.price).order r.order).Perm l.queue
  := by
  obtain ⟨above, below, hladder⟩ := List.append_of_mem hl
  have hperm : (restingOf L.levels).Perm
      (l.queue ++ restingOf (above ++ below ++ L.ladder s.opposite)) := by
    have hlevels := (levels_perm_of_eq hladder).flatMap_right (·.queue)
    rw [List.flatMap_cons] at hlevels
    apply hlevels
  have hqueue : l.queue.filter (fun r => (MakerTest.atPrice s l.price).order r.order) = l.queue := by
    apply List.filter_eq_self.mpr
    intro r hr
    simp only [MakerTest.atPrice, Bool.and_eq_true, beq_iff_eq]
    exact ⟨ht.side_eq hw hsides hl hr, hw.price_eq s l hl r hr⟩
  have hothers : (restingOf (above ++ below ++ L.ladder s.opposite)).filter
      (fun r => (MakerTest.atPrice s l.price).order r.order) = [] := by
    apply List.filter_eq_nil_iff.mpr
    intro r hr
    simp only [MakerTest.atPrice, Bool.and_eq_true, beq_iff_eq]
    rintro ⟨hside, hprice⟩
    obtain ⟨l', hl', hr⟩ := mem_restingOf.mp hr
    rcases List.mem_append.mp hl' with hl' | hl'
    · -- another level of the ladder has another price
      have hmem : l' ∈ L.ladder s := by
        rw [hladder]
        simp only [List.mem_append, List.mem_cons] at hl' ⊢
        tauto
      have hsorted := hw.sorted s
      rw [hladder, List.pairwise_append, List.pairwise_cons] at hsorted
      obtain ⟨-, ⟨hbelow, -⟩, habove⟩ := hsorted
      have heq : l'.price = l.price := (hw.price_eq s l' hmem r hr).symm.trans hprice
      rcases List.mem_append.mp hl' with hl' | hl'
      · exact Side.ne_of_before (habove l' hl' l List.mem_cons_self) heq
      · exact Side.ne_of_before (hbelow l' hl') heq.symm
    · rw [ht.side_eq hw hsides hl' hr, Side.toByte_inj] at hside
      exact s.opposite_ne hside
  have hfilter := hperm.filter fun r => (MakerTest.atPrice s l.price).order r.order
  rw [List.filter_append, hqueue, hothers, List.append_nil] at hfilter
  apply hfilter

/-- The quantity open at the price of a level is its total. -/
theorem openQty_price (ht : L.Traced used F) (hw : L.WellFormed) (hx : L.Exact)
    (hsides : ∀ o ∈ F.submissions, o.getSide.isSome) {l : Level} (hl : l ∈ L.ladder s) :
  F.openQty s l.price = l.totalQty.toNat
  := by
  rw [ht.openQty_eq, hx s l hl]
  congr 1
  exact ((ht.filter_resting hw hsides hl).map _).sum_nat

/-- What market data has to show at the price of a level is what it shows. -/
theorem openLevel_price (ht : L.Traced used F) (hw : L.WellFormed) (hx : L.Exact)
    (hnodup : (F.submissions.map (·.id)).Nodup)
    (hsides : ∀ o ∈ F.submissions, o.getSide.isSome) {l : Level} (hl : l ∈ L.ladder s) :
  F.openLevel s l.price = l.shown
  := by
  rw [MarketFlow.openLevel, ht.openQty_price hw hx hsides hl, ht.openOrders_eq hw hnodup,
    (ht.filter_resting hw hsides hl).length_eq, Int.toNat_natCast, UInt64.ofNat_toNat]
  rfl

/-- Nothing is open but at the prices of the levels. -/
theorem mem_prices_of_pos (ht : L.Traced used F) (hw : L.WellFormed)
    (hsides : ∀ o ∈ F.submissions, o.getSide.isSome) {p : UInt64} (hpos : 0 < F.openQty s p) :
  p ∈ (L.ladder s).map (·.price)
  := by
  rw [ht.openQty_eq] at hpos
  obtain ⟨r, hr, hmatch⟩ := exists_of_qtyWhere_pos _ _
    (show 0 < (MakerTest.atPrice s p).resting (restingOf L.levels) by omega)
  simp only [MakerTest.atPrice, Bool.and_eq_true, beq_iff_eq] at hmatch
  obtain ⟨l, hl, hr⟩ := mem_restingOf.mp hr
  obtain ⟨s', hl⟩ := mem_levels.mp hl
  have hside := hmatch.1
  rw [ht.side_eq hw hsides hl hr, Side.toByte_inj] at hside
  subst hside
  rw [← hmatch.2, hw.price_eq s' l hl r hr]
  apply List.mem_map_of_mem hl

end Traced

end Layout

/-! ### The market data of a run -/

namespace OrderBook

/-- The best bid and offer are what `getDepth` shows first. -/
theorem getBbo_eq (b : OrderBook) :
  b.getBbo
    = ((b.depth .buy 1).head?.map fun l => (l.price, l.totalQty),
        (b.depth .sell 1).head?.map fun l => (l.price, l.totalQty))
  := by
  have hquote (head : Nat) :
      (if head ≠ NULL_IDX then
        some ((b.levelArena.nodes head).price, (b.levelArena.nodes head).totalQty)
      else none)
        = (depthFrom b.levelArena.nodes 1 head).head?.map fun l => (l.price, l.totalQty) := by
    rw [depthFrom]
    split <;> rfl
  unfold getBbo depth
  dsimp only
  rw [hquote, hquote]
  rfl

theorem HasLayout.reconciles {b : OrderBook} {L : Layout} {used : List UInt64} {F : MarketFlow}
    (h : b.HasLayout L) (hw : L.WellFormed) (hx : L.Exact) (ht : L.Traced used F)
    (hnodup : (F.submissions.map (·.id)).Nodup)
    (hsides : ∀ o ∈ F.submissions, o.getSide.isSome) :
  b.Reconciles F fun s => (L.ladder s).map (·.price)
  := by
  have hdepth (s : Side) (n : Nat) :
      b.depth s n = (((L.ladder s).map (·.price)).take n).map (F.openLevel s) := by
    rw [h.depth_eq, ← List.map_take, List.map_map]
    apply List.map_congr_left
    intro l hl
    exact (ht.openLevel_price hw hx hnodup hsides (List.mem_of_mem_take hl)).symm
  constructor
  · intro s
    apply List.pairwise_map.mpr (hw.sorted s)
  · intro s p
    refine ⟨?_, ht.mem_prices_of_pos hw hsides⟩
    intro hp
    obtain ⟨l, hl, rfl⟩ := List.mem_map.mp hp
    obtain ⟨r, hr⟩ := List.exists_mem_of_ne_nil _ (hw.queue_ne_nil s l hl)
    have hmem : r ∈ restingOf L.levels :=
      mem_restingOf.mpr ⟨l, Layout.mem_levels.mpr ⟨s, hl⟩, hr⟩
    have hmatch : (MakerTest.atPrice s l.price).order r.order = true := by
      simp only [MakerTest.atPrice, Bool.and_eq_true, beq_iff_eq]
      exact ⟨ht.side_eq hw hsides hl hr, hw.price_eq s l hl r hr⟩
    have hpos : 0 < (MakerTest.atPrice s l.price).resting (restingOf L.levels) :=
      qtyWhere_pos _ _ hmem hmatch (hw.qty_pos_of_mem hmem)
    rw [ht.openQty_eq]
    omega
  · intro s p
    have hnonneg : 0 ≤ F.openQty s p := by
      rw [ht.openQty_eq]
      apply Int.natCast_nonneg
    refine ⟨hnonneg, ?_⟩
    by_cases hpos : 0 < F.openQty s p
    · obtain ⟨l, hl, rfl⟩ := List.mem_map.mp (ht.mem_prices_of_pos hw hsides hpos)
      have hlt := l.totalQty.toNat_lt
      rw [ht.openQty_price hw hx hsides hl]
      omega
    · omega
  · intro maxLevels hcapacity
    rw [getDepth_eq, if_pos hcapacity, hdepth, hdepth]
  · rw [getBbo_eq, hdepth, hdepth]
    simp only [List.head?_map, List.head?_take, Option.map_map, Nat.one_ne_zero, if_false]
    rfl

/-- The market data after a sequence of calls is what the calls have left open. -/
theorem reconciles_calls (symbol : Symbol) {cs : List Call} (hsides : ∀ c ∈ cs, c.SideValid)
    (hids : ((OrderBook.new symbol).usedIds cs).Nodup)
    (hbound : ∀ cs', cs' <+: cs → ((OrderBook.new symbol).calls cs').QtyBounded) :
  ∃ prices, ((OrderBook.new symbol).calls cs).Reconciles ((OrderBook.new symbol).flow cs) prices
  := by
  obtain ⟨L, h, hw, hx, ht⟩ := traced_calls symbol cs hids hbound
  have hnodup := hids.sublist (submissions_flow (OrderBook.new symbol) cs)
  exact ⟨_, h.reconciles hw hx ht hnodup (getSide_submissions_flow _ hsides)⟩

theorem reconciles_sampleCalls :
  ∃ prices, ((OrderBook.new .btc).calls sampleCalls).Reconciles
    ((OrderBook.new .btc).flow sampleCalls) prices
  := by
  have hbound : ∀ cs' ∈ sampleCalls.inits, ((OrderBook.new .btc).calls cs').QtyBounded := by
    decide +kernel
  apply reconciles_calls .btc (by decide) (by decide +kernel)
  intro cs' hcs'
  apply hbound cs' ((List.mem_inits _ _).mpr hcs')

/-- At `usize::MAX` levels not even an empty book answers. -/
theorem not_getDepth_usizeMax :
  ¬ ∃ prices : Side → List UInt64, ∀ maxLevels < 2 ^ 64,
    ((OrderBook.new .btc).calls []).getDepth maxLevels
      = some (((prices .buy).take maxLevels).map (((OrderBook.new .btc).flow []).openLevel .buy),
          ((prices .sell).take maxLevels).map (((OrderBook.new .btc).flow []).openLevel .sell))
  := by
  rintro ⟨prices, hprices⟩
  have hdepth := hprices (2 ^ 64 - 1) (by decide)
  rw [getDepth_eq, if_neg (by decide)] at hdepth
  contradiction

end OrderBook

end LimitOrderBook
