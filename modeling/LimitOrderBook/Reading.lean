import LimitOrderBook.Step

/-!
# Reading a book

The slots of a book in the order in which its links visit them, and what is in them.  On a
book with a layout these are the lists of the layout.
-/

namespace LimitOrderBook

open Intrusive

namespace OrderBook

/-- The level slots of a ladder, from its head along `nextLevel`. -/
def ladderSlots (b : OrderBook) (s : Side) : List Nat :=
  walk (PriceLevelNode.nextLevel ∘ b.levelArena.nodes) NULL_IDX MAX_PRICE_LEVELS (b.best s)

/-- The order slots of the queue of a level, from its head along `next`. -/
def queueSlots (b : OrderBook) (levelIdx : Nat) : List Nat :=
  walk (OrderNode.next ∘ b.orderArena.nodes) NULL_IDX MAX_ARENA_ORDERS
    (b.levelArena.nodes levelIdx).headOrder

/-- The order slots on the free list. -/
def freeOrderSlots (b : OrderBook) : List Nat :=
  walk (OrderNode.next ∘ b.orderArena.nodes) NULL_IDX MAX_ARENA_ORDERS b.orderArena.freeHead

/-- The level slots on the free list. -/
def freeLevelSlots (b : OrderBook) : List Nat :=
  walk (PriceLevelNode.nextFree ∘ b.levelArena.nodes) NULL_IDX MAX_PRICE_LEVELS
    b.levelArena.freeHead

/-- The level slots on either ladder. -/
def levelSlots (b : OrderBook) : List Nat := b.ladderSlots .buy ++ b.ladderSlots .sell

/-- The order slots in any queue. -/
def orderSlots (b : OrderBook) : List Nat := b.levelSlots.flatMap b.queueSlots

/-- The orders of the queue of a level, oldest first. -/
def readQueue (b : OrderBook) (levelIdx : Nat) : List Order :=
  (b.queueSlots levelIdx).map fun i => (b.orderArena.nodes i).order

/-- The prices of a ladder, best first, each with the orders resting at it. -/
def readLadder (b : OrderBook) (s : Side) : List (UInt64 × List Order) :=
  (b.ladderSlots s).map fun i => ((b.levelArena.nodes i).price, b.readQueue i)

/-- The orders resting on a side, best price first and oldest first. -/
def restingOrders (b : OrderBook) (s : Side) : List Order := (b.readLadder s).flatMap (·.2)

namespace HasLayout

variable {b : OrderBook} {L : Layout} {s : Side} {l : Level}

/-- Reading a ladder along its links gives the slots of its levels. -/
theorem ladderSlots_eq (h : b.HasLayout L) (s : Side) :
  b.ladderSlots s = (L.ladder s).map (·.slot)
  := by
  obtain ⟨t, ht⟩ := h.linked s
  apply ht.chain.walk_eq (h.null_notMem_ladder s)
  rw [List.length_map]
  apply h.ladder_length_le

/-- Reading a queue along its links gives the slots of its orders. -/
theorem queueSlots_eq (h : b.HasLayout L) (hl : l ∈ L.levels) :
  b.queueSlots l.slot = l.orderSlots
  := by
  obtain ⟨ls₁, ls₂, heq⟩ := List.append_of_mem hl
  have hst := h.storage.perm (heq ▸ List.perm_middle)
  apply (h.stored hl).queue.chain.walk_eq hst.null_notMem_orderSlots
  have hlen := hst.orders.pool.length_add
  rw [hst.orders.capacity_eq] at hlen
  simp only [restingOf_cons, List.length_append, List.length_map, Level.orderSlots] at hlen ⊢
  omega

/-- Reading the free list of the order arena gives the free slots. -/
theorem freeOrderSlots_eq (h : b.HasLayout L) :
  b.freeOrderSlots = L.freeOrders
  := by
  apply h.storage.orders.pool.chain.walk_eq
  · intro hmem
    have hlt := h.storage.orders.pool.lt_of_free hmem
    rw [h.storage.orders.capacity_eq] at hlt
    exact absurd hlt (by decide)
  · have hlen := h.storage.orders.pool.length_add
    rw [h.storage.orders.capacity_eq] at hlen
    omega

/-- Reading the free list of the level arena gives the free slots. -/
theorem freeLevelSlots_eq (h : b.HasLayout L) :
  b.freeLevelSlots = L.freeLevels
  := by
  apply h.storage.levels.pool.chain.walk_eq
  · intro hmem
    have hlt := h.storage.levels.pool.lt_of_free hmem
    rw [h.storage.levels.len_eq] at hlt
    exact absurd hlt (by decide)
  · have hlen := h.storage.levels.pool.length_add
    rw [h.storage.levels.len_eq] at hlen
    omega

theorem levelSlots_eq (h : b.HasLayout L) :
  b.levelSlots = L.levels.map (·.slot)
  := by
  rw [levelSlots, h.ladderSlots_eq, h.ladderSlots_eq, Layout.levels, List.map_append]

theorem orderSlots_eq (h : b.HasLayout L) :
  b.orderSlots = (restingOf L.levels).map (·.slot)
  := by
  rw [orderSlots, h.levelSlots_eq, List.flatMap_map, restingOf, List.map_flatMap]
  apply List.flatMap_congr
  intro l hl
  apply h.queueSlots_eq hl

/-- Reading a queue gives its orders, first to last. -/
theorem readQueue_eq (h : b.HasLayout L) (hl : l ∈ L.levels) :
  b.readQueue l.slot = l.queue.map (·.order)
  := by
  rw [readQueue, h.queueSlots_eq hl, Level.orderSlots, List.map_map]
  apply List.map_congr_left
  intro r hr
  apply (h.stored hl).order_eq r hr

/-- Reading a ladder gives its prices and the orders at them. -/
theorem readLadder_eq (h : b.HasLayout L) (s : Side) :
  b.readLadder s = (L.ladder s).map fun l => (l.price, l.queue.map (·.order))
  := by
  rw [readLadder, h.ladderSlots_eq, List.map_map]
  apply List.map_congr_left
  intro l hl
  have hmem := Layout.mem_levels.mpr ⟨s, hl⟩
  rw [Function.comp_apply, (h.stored hmem).price_eq, h.readQueue_eq hmem]

/-- The orders read from a side are those that rest there. -/
theorem restingOrders_eq (h : b.HasLayout L) (s : Side) :
  b.restingOrders s = (L.resting s).map (·.order)
  := by
  rw [restingOrders, h.readLadder_eq, List.flatMap_map, Layout.resting, restingOf,
    List.map_flatMap]

end HasLayout

/-! ### Market depth -/

/-- One side of `getDepth`. -/
def depth (b : OrderBook) (s : Side) (maxLevels : Nat) : List MarketDepthLevel :=
  depthFrom b.levelArena.nodes maxLevels (b.best s)

theorem getDepth_eq (b : OrderBook) (maxLevels : Nat) :
  b.getDepth maxLevels
    = if 24 * maxLevels < 2 ^ 63 then
        some (b.depth .buy maxLevels, b.depth .sell maxLevels)
      else none
  := rfl

end OrderBook

/-- What `getDepth` shows of a level. -/
def Level.shown (l : Level) : MarketDepthLevel where
  price := l.price
  totalQty := l.totalQty
  orderCount := l.queue.length

namespace OrderBook

/-- Walking down a ladder shows its levels, as many as are asked for. -/
theorem depthFrom_eq {nodes : Nat → PriceLevelNode} {ls : List Level} {head : Nat}
    (hchain : Chain (PriceLevelNode.nextLevel ∘ nodes) NULL_IDX head (ls.map (·.slot)))
    (hnull : NULL_IDX ∉ ls.map (·.slot))
    (hshown : ∀ l ∈ ls, (⟨(nodes l.slot).price, (nodes l.slot).totalQty,
      (nodes l.slot).orderCount⟩ : MarketDepthLevel) = l.shown) (maxLevels : Nat) :
  depthFrom nodes maxLevels head = (ls.take maxLevels).map Level.shown
  := by
  induction ls generalizing head maxLevels with
  | nil =>
      have hhead : head = NULL_IDX := hchain
      cases maxLevels <;> simp [depthFrom, hhead]
  | cons l ls ih =>
      obtain ⟨rfl, hchain⟩ := hchain
      obtain ⟨hne, hnull⟩ := List.ne_and_not_mem_of_not_mem_cons hnull
      cases maxLevels with
      | zero => rfl
      | succ maxLevels =>
          rw [depthFrom, if_pos hne.symm]
          dsimp only
          rw [hshown l List.mem_cons_self, List.take_succ_cons, List.map_cons]
          congr 1
          apply ih hchain hnull
          intro l' hl'
          apply hshown l' (List.mem_cons_of_mem l hl')

/-- The depth of a side shows its first levels. -/
theorem HasLayout.depth_eq {b : OrderBook} {L : Layout} (h : b.HasLayout L) (s : Side)
    (maxLevels : Nat) :
  b.depth s maxLevels = ((L.ladder s).take maxLevels).map Level.shown
  := by
  obtain ⟨t, ht⟩ := h.linked s
  apply depthFrom_eq ht.chain (h.null_notMem_ladder s)
  intro l hl
  have hstored := h.stored (Layout.mem_levels.mpr ⟨s, hl⟩)
  rw [hstored.price_eq, hstored.totalQty_eq, hstored.orderCount_eq]
  rfl

end OrderBook

end LimitOrderBook
