import LimitOrderBook.Matching

/-!
# The two sides of a book

A reachable book is not crossed: every bid is below every ask.  The two sides share one
price index, which therefore never leads from an order to a level of the other side.
-/

namespace LimitOrderBook

/-- A level at the price of an order that comes to rest is on the side of that order. -/
theorem Layout.WellFormed.mem_bookSide_of_rests {L : Layout} (hw : L.WellFormed) {l : Level}
    {o : Order} {clientId : UInt64} (hrests : L.Rests o clientId) (hl : l ∈ (L.taken o clientId).levels)
    (hprice : l.price = o.price) :
  l ∈ (L.taken o clientId).ladder o.bookSide
  := by
  obtain ⟨hstp, hqty, hkind⟩ := hrests
  obtain ⟨s, hl⟩ := Layout.mem_levels.mp hl
  rcases eq_or_ne s o.bookSide with rfl | hs
  · apply hl
  · obtain rfl : s = o.takesFrom := Side.eq_opposite_of_ne hs
    rw [L.ladder_taken_takesFrom] at hl
    -- what matching leaves is beyond the price of the order
    have hlimit : (L.stamped o).kind = .limit := hkind
    have hbeyond := hw.before_of_mem_matched hlimit hstp (UInt64.ne_zero_iff_pos.mpr hqty) hl
    exact absurd hprice.symm (Side.ne_of_before hbeyond)

namespace OrderBook

/-- No bid meets an ask, and the price index keeps the sides apart. -/
structure Uncrossed (b : OrderBook) : Prop where
  below : ∀ i ∈ b.ladderSlots .buy, ∀ j ∈ b.ladderSlots .sell,
    (b.levelArena.nodes i).price < (b.levelArena.nodes j).price
  side_eq : ∀ s, ∀ i ∈ b.ladderSlots s, ∀ k ∈ b.queueSlots i,
    (b.orderArena.nodes k).order.bookSide = s
  lookup_eq : ∀ s, ∀ i ∈ b.ladderSlots s, ∀ k ∈ b.queueSlots i,
    b.priceIndex.lookup (b.orderArena.nodes k).order.price = some i
  /-- the level at which an order is cancelled -/
  cancelled : ∀ u k entry, b.findEntry u k = .ok entry →
    ∃ i ∈ b.ladderSlots (if entry.side == Side.sell.toByte then .sell else .buy),
      b.priceIndex.lookup entry.price = some i ∧ entry.nodeIdx ∈ b.queueSlots i
  /-- the level an order joins -/
  joined : ∀ order clientId trades, b.Rests order clientId trades →
    ∀ i, (b.matching order clientId trades).book.priceIndex.lookup order.price = some i →
      i ∈ (b.matching order clientId trades).book.ladderSlots order.bookSide

namespace HasLayout

variable {b : OrderBook} {L : Layout} {s : Side} {l : Level} {r : Resting}

/-- The price of a resting order leads to its level. -/
theorem lookup_price (h : b.HasLayout L) (hw : L.WellFormed) (hl : l ∈ L.ladder s)
    (hr : r ∈ l.queue) :
  b.priceIndex.lookup r.order.price = some l.slot
  := (h.priceIndex_iff _ _).mpr
    ⟨l, Layout.mem_levels.mpr ⟨s, hl⟩, (hw.price_eq s l hl r hr).symm, rfl⟩

theorem uncrossed (h : b.HasLayout L) (hw : L.WellFormed) :
  b.Uncrossed
  := by
  have hmem : ∀ {s i}, i ∈ b.ladderSlots s → ∃ l ∈ L.ladder s, l.slot = i := by
    intro s i hi
    rw [h.ladderSlots_eq] at hi
    exact List.mem_map.mp hi
  have hqueue : ∀ {s l k}, l ∈ L.ladder s → k ∈ b.queueSlots l.slot → ∃ r ∈ l.queue, r.slot = k := by
    intro s l k hl hk
    rw [h.queueSlots_eq (Layout.mem_levels.mpr ⟨s, hl⟩)] at hk
    exact List.mem_map.mp hk
  have hstored : ∀ {s l}, l ∈ L.ladder s → l.Stored b.orderArena b.levelArena :=
    fun hl => h.stored (Layout.mem_levels.mpr ⟨_, hl⟩)
  constructor
  · intro i hi j hj
    obtain ⟨l, hl, rfl⟩ := hmem hi
    obtain ⟨l', hl', rfl⟩ := hmem hj
    rw [(hstored hl).price_eq, (hstored hl').price_eq]
    apply hw.uncrossed l hl l' hl'
  · intro s i hi k hk
    obtain ⟨l, hl, rfl⟩ := hmem hi
    obtain ⟨r, hr, rfl⟩ := hqueue hl hk
    rw [(hstored hl).order_eq r hr]
    apply hw.side_eq s l hl r hr
  · intro s i hi k hk
    obtain ⟨l, hl, rfl⟩ := hmem hi
    obtain ⟨r, hr, rfl⟩ := hqueue hl hk
    rw [(hstored hl).order_eq r hr]
    apply h.lookup_price hw hl hr
  · intro u k entry hfind
    rw [h.findEntry_eq] at hfind
    obtain ⟨hentry, -⟩ := hw.findEntry_sound hfind
    obtain ⟨s, hentry⟩ := Layout.mem_entries.mp hentry
    obtain ⟨r, hr, rfl⟩ := List.mem_map.mp hentry
    obtain ⟨l, hl, hr⟩ := mem_restingOf.mp hr
    have hside : (if r.order.side == Side.sell.toByte then Side.sell else .buy) = s := by
      apply hw.side_eq s l hl r hr
    refine ⟨l.slot, ?_, ?_, ?_⟩
    · rw [Resting.entry, hside, h.ladderSlots_eq]
      apply List.mem_map_of_mem hl
    · apply h.lookup_price hw hl hr
    · rw [h.queueSlots_eq (Layout.mem_levels.mpr ⟨s, hl⟩)]
      apply List.mem_map_of_mem hr
  · intro order clientId trades hrests i hi
    obtain ⟨b₁, heq, h₁⟩ := h.matching_eq order clientId trades
    rw [heq] at hi ⊢
    obtain ⟨l, hl, hprice, rfl⟩ := (h₁.priceIndex_iff _ i).mp hi
    rw [h₁.ladderSlots_eq]
    apply List.mem_map_of_mem
    apply hw.mem_bookSide_of_rests ((h.rests_iff order clientId trades).mp hrests) hl hprice

end HasLayout

/-- Every sequence of calls leaves the book uncrossed. -/
theorem uncrossed_calls (symbol : Symbol) (cs : List Call) :
  ((OrderBook.new symbol).calls cs).Uncrossed
  := by
  obtain ⟨L, h, hw⟩ := exists_layout symbol cs
  apply h.uncrossed hw

end OrderBook

end LimitOrderBook
