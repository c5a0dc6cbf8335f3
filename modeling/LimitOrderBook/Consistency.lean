import LimitOrderBook.Reading

/-!
# The links of a book

`Consistent` says of the nodes of a book what its layout says in lists: the ladders and the
queues are doubly linked, the counts at a level are those of its queue, the price index knows
the levels of the ladders, and the free lists hold what is left over.

That a level's `totalQty` is the sum of its quantities is not a matter of the links: the
machine sum wraps.  `Layout.Exact` is kept as long as the quantities at a price do not add
up to `2 ^ 64`.
-/

namespace LimitOrderBook

open Intrusive

/-! ### Sums of quantities -/

/-- The quantity of a list of orders. -/
def qtySum (rs : List Resting) : Nat := (rs.map (·.order.qty.toNat)).sum

@[simp]
theorem qtySum_nil :
  qtySum [] = 0
  := rfl

@[simp]
theorem qtySum_cons (r : Resting) (rs : List Resting) :
  qtySum (r :: rs) = r.order.qty.toNat + qtySum rs
  := List.sum_cons

@[simp]
theorem qtySum_append (rs rs' : List Resting) :
  qtySum (rs ++ rs') = qtySum rs + qtySum rs'
  := by
  simp [qtySum]

/-- What a taker loses is what the orders lose. -/
theorem qtySum_matchOrders (accepts : UInt64 → Bool) (takerClientId : UInt64) (taker : Order)
    (nextId : UInt64) (rs : List Resting) :
  qtySum (matchOrders accepts takerClientId taker nextId rs).left + taker.qty.toNat
    = qtySum rs + (matchOrders accepts takerClientId taker nextId rs).taker.qty.toNat
  := by
  induction rs generalizing taker nextId with
  | nil => simp [matchOrders]
  | cons r rs ih =>
      have htaker := UInt64.toNat_sub_min taker.qty r.order.qty
      have hmaker := UInt64.toNat_sub_min' taker.qty r.order.qty
      rw [matchOrders]
      split
      · rfl
      split
      · rfl
      dsimp only
      split
      · next hzero =>
          have hrec := ih (taker.reduce (min taker.qty r.order.qty)) (nextId + 1)
          rw [← UInt64.toNat_inj] at hzero
          simp only [Order.reduce, qtySum_cons, UInt64.toNat_zero] at hrec hzero ⊢
          omega
      · simp only [Order.reduce, Resting.reduce, qtySum_cons]
        omega

/-- A taker is left with at most what it came with. -/
theorem qty_le_matchOrders (accepts : UInt64 → Bool) (takerClientId : UInt64) (taker : Order)
    (nextId : UInt64) (rs : List Resting) :
  (matchOrders accepts takerClientId taker nextId rs).taker.qty ≤ taker.qty
  := by
  rw [UInt64.le_iff_toNat_le]
  induction rs generalizing taker nextId with
  | nil => rfl
  | cons r rs ih =>
      have htaker := UInt64.toNat_sub_min taker.qty r.order.qty
      rw [matchOrders]
      split
      · rfl
      split
      · rfl
      dsimp only
      split
      · have hrec := ih (taker.reduce (min taker.qty r.order.qty)) (nextId + 1)
        simp only [Order.reduce] at hrec ⊢
        omega
      · simp only [Order.reduce]
        omega

/-! ### Exact totals -/

namespace Layout

/-- The total of every level is the sum of its quantities. -/
def Exact (L : Layout) : Prop := ∀ s, ∀ l ∈ L.ladder s, l.totalQty.toNat = qtySum l.queue

/-- The quantities at every price add up to less than `2 ^ 64`. -/
def Bounded (L : Layout) : Prop := ∀ s, ∀ l ∈ L.ladder s, qtySum l.queue < 2 ^ 64

namespace Exact

variable {L L' : Layout}

/-- Matching a taker keeps the totals exact. -/
theorem matched (h : L.Exact) (s : Side) (accepts : UInt64 → Bool) (takerClientId : UInt64)
    (taker : Order) (nextId : UInt64) :
  (L.matched s (matchLadder accepts takerClientId taker nextId (L.ladder s))).Exact
  := by
  apply WellFormed.forall_ladder_update rfl h
  intro l hl
  obtain ⟨ls₁, ls₂, hls, -, hladder | ⟨l₁, ls', taker', nextId', hls₂, -, hladder⟩⟩ :=
    matchLadder_split accepts takerClientId taker nextId (L.ladder s)
  · apply h s
    rw [hls, ← hladder]
    apply List.mem_append_right _ hl
  · rw [hladder] at hl
    rcases List.mem_cons.mp hl with rfl | hl
    · have htotal := h s l₁ (by simp [hls, hls₂])
      have hsum := qtySum_matchOrders (fun _ => true) takerClientId taker' nextId' l₁.queue
      have hle := qty_le_matchOrders (fun _ => true) takerClientId taker' nextId' l₁.queue
      have hspent := UInt64.toNat_sub_of_le _ _ hle
      have hle' := UInt64.le_iff_toNat_le.mp hle
      dsimp only [Level.matched]
      rw [UInt64.toNat_sub_of_le _ _ (UInt64.le_iff_toNat_le.mpr (by omega))]
      omega
    · apply h s
      rw [hls, hls₂]
      apply List.mem_append_right _ (List.mem_cons_of_mem _ hl)

/-- An order that comes to rest keeps the totals exact, as long as they do not overflow. -/
theorem put (h : L.Exact) (hw : L.WellFormed) (r : Resting) (j : Nat) (hb : (L.put r j).Bounded) :
  (L.put r j).Exact
  := by
  have hladder : (L.put r j).ladder r.order.bookSide
      = restLadder r.order.bookSide r j (L.ladder r.order.bookSide) := Function.update_self ..
  apply WellFormed.forall_ladder_update rfl h
  intro l hl
  have hbound := hb r.order.bookSide l (hladder ▸ hl)
  rcases mem_restLadder j (hw.sorted _) hl with hl | ⟨l₀, hl₀, -, rfl⟩ | rfl
  · apply h _ l hl
  · have htotal := h _ l₀ hl₀
    simp only [Level.push, qtySum_append, qtySum_cons, qtySum_nil] at hbound ⊢
    rw [UInt64.toNat_add_of_lt' (by omega)]
    omega
  · simp only [Level.push, Level.empty, qtySum_append, qtySum_cons, qtySum_nil, UInt64.zero_add]
    omega

/-- A cancel keeps the totals exact. -/
theorem remove (h : L.Exact) (pl : L.Place) :
  (L.remove pl).Exact
  := by
  apply WellFormed.forall_ladder_update rfl h
  intro l hl
  have hmem : ∀ l' ∈ pl.above ++ pl.level :: pl.below, l'.totalQty.toNat = qtySum l'.queue := by
    rw [← pl.ladder_eq]
    apply h pl.side
  have htotal := hmem pl.level (by simp)
  unfold Place.remains at hl
  split at hl
  · apply hmem
    simp only [List.mem_append, List.mem_cons, List.append_nil] at hl ⊢
    tauto
  · simp only [List.mem_append, List.mem_singleton] at hl
    rcases hl with (hl | rfl) | hl
    · apply hmem l (by simp [hl])
    · rw [pl.queue_eq] at htotal
      rw [UInt64.toNat_saturatingSub, htotal]
      simp only [qtySum_append, qtySum_cons]
      omega
    · apply hmem l (by simp [hl])

/-- An order that has been matched leaves exact totals. -/
theorem taken (h : L.Exact) (o : Order) (clientId : UInt64) :
  (L.taken o clientId).Exact
  := by
  have h₀ : { L with orderIdCounter := L.nextOrderId o }.Exact := h
  apply h₀.matched

/-- A step that leaves the quantities bounded keeps the totals exact. -/
theorem step (h : L.Exact) (hw : L.WellFormed) {c : Call} (hs : L.Step c L') (hb : L'.Bounded) :
  L'.Exact
  := by
  cases hs with
  | @process o clientId trades _ =>
      have hx := h.taken o clientId
      have hprocessed := L.process_cases o clientId trades
      rcases hprocessed.put_or hw with ⟨hladder, -⟩ | ⟨-, -, i, j, L₁, hw₁, hladder, heq⟩
      · unfold Exact
        rw [hladder]
        apply hx
      · have hx₁ : L₁.Exact := by
          unfold Exact
          rw [hladder]
          apply hx
        rw [heq] at hb ⊢
        apply hx₁.put hw₁ _ _ hb
  | noCancel => apply h
  | cancel _ pl => apply h.remove

end Exact

end Layout

/-! ### Consistent books -/

namespace OrderBook

/-- The quantities resting at each price add up to less than `2 ^ 64`. -/
def QtyBounded (b : OrderBook) : Prop :=
  ∀ s, ∀ entry ∈ b.readLadder s, (entry.2.map (·.qty.toNat)).sum < 2 ^ 64

instance (b : OrderBook) : Decidable b.QtyBounded :=
  decidable_of_iff
    (∀ s ∈ [Side.buy, Side.sell], ∀ entry ∈ b.readLadder s,
      (entry.2.map (·.qty.toNat)).sum < 2 ^ 64)
    ⟨fun h s => h s (by cases s <;> simp), fun h s _ => h s⟩

/-- The representation invariant of the linked structures. -/
structure Consistent (b : OrderBook) : Prop where
  ladder : ∀ s, ∃ t, Seg (PriceLevelNode.nextLevel ∘ b.levelArena.nodes)
    (PriceLevelNode.prevLevel ∘ b.levelArena.nodes) NULL_IDX (b.best s) (b.ladderSlots s) t NULL_IDX
  sorted : ∀ s, (b.ladderSlots s).Pairwise fun i j =>
    s.before (b.levelArena.nodes i).price (b.levelArena.nodes j).price
  levels_nodup : b.levelSlots.Nodup
  levels_active : ∀ i ∈ b.levelSlots, i < MAX_PRICE_LEVELS ∧ (b.levelArena.nodes i).active
  queue : ∀ i ∈ b.levelSlots, Seg (OrderNode.next ∘ b.orderArena.nodes)
    (OrderNode.prev ∘ b.orderArena.nodes) NULL_IDX (b.levelArena.nodes i).headOrder
    (b.queueSlots i) (b.levelArena.nodes i).tailOrder NULL_IDX
  queue_ne_nil : ∀ i ∈ b.levelSlots, b.queueSlots i ≠ []
  orders_nodup : b.orderSlots.Nodup
  orders_active : ∀ k ∈ b.orderSlots, k < MAX_ARENA_ORDERS ∧ (b.orderArena.nodes k).active
  qty_pos : ∀ k ∈ b.orderSlots, 0 < (b.orderArena.nodes k).order.qty
  price_eq : ∀ i ∈ b.levelSlots, ∀ k ∈ b.queueSlots i,
    (b.orderArena.nodes k).order.price = (b.levelArena.nodes i).price
  totalQty : ∀ i ∈ b.levelSlots,
    (b.levelArena.nodes i).totalQty.toNat = ((b.readQueue i).map (·.qty.toNat)).sum
  orderCount : ∀ i ∈ b.levelSlots, (b.levelArena.nodes i).orderCount = (b.queueSlots i).length
  priceIndex : ∀ p i, b.priceIndex.lookup p = some i
    ↔ i ∈ b.levelSlots ∧ (b.levelArena.nodes i).price = p
  freeOrders : Chain (OrderNode.next ∘ b.orderArena.nodes) NULL_IDX b.orderArena.freeHead
    b.freeOrderSlots
  freeOrders_nodup : b.freeOrderSlots.Nodup
  freeOrders_inactive : ∀ k ∈ b.freeOrderSlots,
    k < MAX_ARENA_ORDERS ∧ (b.orderArena.nodes k).active = false ∧ k ∉ b.orderSlots
  freeLevels : Chain (PriceLevelNode.nextFree ∘ b.levelArena.nodes) NULL_IDX
    b.levelArena.freeHead b.freeLevelSlots
  freeLevels_nodup : b.freeLevelSlots.Nodup
  freeLevels_inactive : ∀ i ∈ b.freeLevelSlots,
    i < MAX_PRICE_LEVELS ∧ (b.levelArena.nodes i).active = false ∧ i ∉ b.levelSlots

namespace HasLayout

variable {b : OrderBook} {L : Layout}

/-- The bound on what rests at a price, in terms of the layout. -/
theorem bounded (h : b.HasLayout L) (hb : b.QtyBounded) :
  L.Bounded
  := by
  intro s l hl
  have hsum := hb s (l.price, l.queue.map (·.order))
  rw [h.readLadder_eq, List.map_map] at hsum
  apply hsum
  exact List.mem_map_of_mem hl

theorem mem_levelSlots (h : b.HasLayout L) {i : Nat} :
  i ∈ b.levelSlots ↔ ∃ s, ∃ l ∈ L.ladder s, l.slot = i
  := by
  rw [h.levelSlots_eq, List.mem_map]
  simp only [Layout.mem_levels]
  tauto

theorem mem_orderSlots (h : b.HasLayout L) {k : Nat} :
  k ∈ b.orderSlots ↔ ∃ r ∈ restingOf L.levels, r.slot = k
  := by
  rw [h.orderSlots_eq, List.mem_map]

/-- What is stored in the slot of a level of the book. -/
theorem exists_level (h : b.HasLayout L) {i : Nat} (hi : i ∈ b.levelSlots) :
  ∃ s, ∃ l ∈ L.ladder s, l.slot = i ∧ l.Stored b.orderArena b.levelArena
    ∧ b.queueSlots i = l.orderSlots
    ∧ b.readQueue i = l.queue.map (·.order)
  := by
  obtain ⟨s, l, hl, rfl⟩ := h.mem_levelSlots.mp hi
  have hmem := Layout.mem_levels.mpr ⟨s, hl⟩
  exact ⟨s, l, hl, rfl, h.stored hmem, h.queueSlots_eq hmem, h.readQueue_eq hmem⟩

/-- The prices read from a ladder are in strict order. -/
theorem pairwise_price (h : b.HasLayout L) (hw : L.WellFormed) (s : Side) :
  (b.ladderSlots s).Pairwise fun i j =>
    s.before (b.levelArena.nodes i).price (b.levelArena.nodes j).price
  := by
  rw [h.ladderSlots_eq, List.pairwise_map]
  apply (hw.sorted s).imp_of_mem
  intro l l' hl hl' hbefore
  rw [(h.stored (Layout.mem_levels.mpr ⟨s, hl⟩)).price_eq,
    (h.stored (Layout.mem_levels.mpr ⟨s, hl'⟩)).price_eq]
  apply hbefore

/-- The price index leads to the level of a price, and to no other. -/
theorem priceIndex_iff_levelSlots (h : b.HasLayout L) (p : UInt64) (i : Nat) :
  b.priceIndex.lookup p = some i ↔ i ∈ b.levelSlots ∧ (b.levelArena.nodes i).price = p
  := by
  rw [h.priceIndex_iff, h.mem_levelSlots]
  constructor
  · rintro ⟨l, hl, rfl, rfl⟩
    obtain ⟨s, hl'⟩ := Layout.mem_levels.mp hl
    exact ⟨⟨s, l, hl', rfl⟩, (h.stored hl).price_eq⟩
  · rintro ⟨⟨s, l, hl, rfl⟩, rfl⟩
    have hmem := Layout.mem_levels.mpr ⟨s, hl⟩
    exact ⟨l, hmem, (h.stored hmem).price_eq.symm, rfl⟩

/-- A slot in a queue is allocated. -/
theorem active_of_mem_orderSlots (h : b.HasLayout L) {k : Nat} (hk : k ∈ b.orderSlots) :
  k < MAX_ARENA_ORDERS ∧ (b.orderArena.nodes k).active
  := by
  have hpool := h.storage.orders.pool
  rw [h.orderSlots_eq] at hk
  have hused := List.mem_append_right L.lostOrders hk
  rw [← h.storage.orders.capacity_eq]
  exact ⟨hpool.lt_of_used hused, hpool.used_active k hused⟩

/-- The slot of a level is allocated. -/
theorem active_of_mem_levelSlots (h : b.HasLayout L) {i : Nat} (hi : i ∈ b.levelSlots) :
  i < MAX_PRICE_LEVELS ∧ (b.levelArena.nodes i).active
  := by
  have hpool := h.storage.levels.pool
  rw [h.levelSlots_eq] at hi
  rw [← h.storage.levels.len_eq]
  exact ⟨hpool.lt_of_used hi, hpool.used_active i hi⟩

/-- A slot in the free list of the orders is not allocated, and in no queue. -/
theorem inactive_of_mem_freeOrderSlots (h : b.HasLayout L) {k : Nat}
    (hk : k ∈ b.freeOrderSlots) :
  k < MAX_ARENA_ORDERS ∧ (b.orderArena.nodes k).active = false ∧ k ∉ b.orderSlots
  := by
  have hpool := h.storage.orders.pool
  rw [h.freeOrderSlots_eq] at hk
  rw [← h.storage.orders.capacity_eq, h.orderSlots_eq]
  refine ⟨hpool.lt_of_free hk, hpool.free_inactive k hk, fun hk' => ?_⟩
  apply hpool.ne_of_used_of_free (List.mem_append_right L.lostOrders hk') hk rfl

/-- A slot in the free list of the levels is not allocated, and in no ladder. -/
theorem inactive_of_mem_freeLevelSlots (h : b.HasLayout L) {i : Nat}
    (hi : i ∈ b.freeLevelSlots) :
  i < MAX_PRICE_LEVELS ∧ (b.levelArena.nodes i).active = false ∧ i ∉ b.levelSlots
  := by
  have hpool := h.storage.levels.pool
  rw [h.freeLevelSlots_eq] at hi
  rw [← h.storage.levels.len_eq, h.levelSlots_eq]
  refine ⟨hpool.lt_of_free hi, hpool.free_inactive i hi, fun hi' => ?_⟩
  apply hpool.ne_of_used_of_free hi' hi rfl

/-- A book with a well-formed layout and exact totals is consistent. -/
theorem consistent (h : b.HasLayout L) (hw : L.WellFormed) (hx : L.Exact) :
  b.Consistent
  := by
  have hpool := h.storage.orders.pool
  have hpool' := h.storage.levels.pool
  constructor
  · intro s
    rw [h.ladderSlots_eq]
    apply h.linked
  · apply h.pairwise_price hw
  · rw [h.levelSlots_eq]
    exact (List.nodup_append.mp hpool'.nodup).1
  · intro i hi
    apply h.active_of_mem_levelSlots hi
  · intro i hi
    obtain ⟨s, l, hl, rfl, hstored, hqueue, -⟩ := h.exists_level hi
    rw [hqueue]
    apply hstored.queue
  · intro i hi
    obtain ⟨s, l, hl, rfl, -, hqueue, -⟩ := h.exists_level hi
    rw [hqueue, Level.orderSlots, ne_eq, List.map_eq_nil_iff]
    apply hw.queue_ne_nil s l hl
  · rw [h.orderSlots_eq]
    exact (List.nodup_append.mp h.storage.used_nodup).2.1
  · intro k hk
    apply h.active_of_mem_orderSlots hk
  · intro k hk
    obtain ⟨r, hr, rfl⟩ := h.mem_orderSlots.mp hk
    obtain ⟨l, hl, hr⟩ := mem_restingOf.mp hr
    obtain ⟨s, hs⟩ := Layout.mem_levels.mp hl
    rw [(h.stored hl).order_eq r hr]
    apply hw.qty_pos s l hs r hr
  · intro i hi k hk
    obtain ⟨s, l, hl, rfl, hstored, hqueue, -⟩ := h.exists_level hi
    rw [hqueue] at hk
    obtain ⟨r, hr, rfl⟩ := List.mem_map.mp hk
    rw [hstored.order_eq r hr, hstored.price_eq]
    apply hw.price_eq s l hl r hr
  · intro i hi
    obtain ⟨s, l, hl, rfl, hstored, -, hread⟩ := h.exists_level hi
    rw [hstored.totalQty_eq, hread, List.map_map, hx s l hl]
    rfl
  · intro i hi
    obtain ⟨s, l, hl, rfl, hstored, hqueue, -⟩ := h.exists_level hi
    rw [hstored.orderCount_eq, hqueue, Level.orderSlots, List.length_map]
  · apply h.priceIndex_iff_levelSlots
  · rw [h.freeOrderSlots_eq]
    apply hpool.chain
  · rw [h.freeOrderSlots_eq]
    exact (List.nodup_append.mp hpool.nodup).2.1
  · intro k hk
    apply h.inactive_of_mem_freeOrderSlots hk
  · rw [h.freeLevelSlots_eq]
    apply hpool'.chain
  · rw [h.freeLevelSlots_eq]
    exact (List.nodup_append.mp hpool'.nodup).2.1
  · intro i hi
    apply h.inactive_of_mem_freeLevelSlots hi

end HasLayout

/-- Every sequence of calls leaves the links of a book consistent. -/
theorem consistent_calls (symbol : Symbol) (cs : List Call)
    (hbound : ∀ cs', cs' <+: cs → ((OrderBook.new symbol).calls cs').QtyBounded) :
  ((OrderBook.new symbol).calls cs).Consistent
  := by
  obtain ⟨L, h, hw, hx⟩ := calls_induction symbol
    (P := fun cs L => (∀ cs', cs' <+: cs → ((OrderBook.new symbol).calls cs').QtyBounded) → L.Exact)
    (by simp [Layout.Exact, Layout.new])
    (fun cs c L L' _ hw hx h' _ hs hbound => by
      have hx' := hx fun cs' hcs' => hbound cs' (hcs'.trans (List.prefix_append cs [c]))
      have hb := h'.bounded (hbound (cs ++ [c]) (List.prefix_refl _))
      apply hx'.step hw hs hb)
    cs
  apply h.consistent hw (hx hbound)

/-- Two asks come to rest at one price; a bid fills the first and a part of the second,
which is cancelled. -/
def sampleCalls : List Call :=
  [.process (Order.newLimit 1 7 .btc .sell 100 5) 0 [],
    .process (Order.newLimit 2 8 .btc .sell 100 3) 0 [],
    .process (Order.newLimit 3 9 .btc .buy 100 6) 0 [],
    .cancelOrder 8 2]

theorem consistent_sampleCalls :
  ((OrderBook.new .btc).calls sampleCalls).Consistent
  := by
  have hbound : ∀ cs' ∈ sampleCalls.inits, ((OrderBook.new .btc).calls cs').QtyBounded := by
    decide +kernel
  apply consistent_calls
  intro cs' hcs'
  apply hbound cs' ((List.mem_inits _ _).mpr hcs')

end OrderBook

end LimitOrderBook
