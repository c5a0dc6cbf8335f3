import LimitOrderBook.Storage

/-!
# Books and their layouts

`b.HasLayout L` says that the book `b` holds what `L` says: its arenas store the levels of
`L`, its two ladders are doubly linked in the order of `L`, the price index knows exactly
the levels of the ladders, and the other indices and the counters are those of `L`.

Every operation on the book keeps it, and does to the layout what the operation of the
same name does.
-/

namespace LimitOrderBook

open Intrusive

/-- The levels of a ladder, linked from its head. -/
def OrderBook.Linked (b : OrderBook) (s : Side) (ls : List Level) : Prop :=
  ∃ t, Seg (PriceLevelNode.nextLevel ∘ b.levelArena.nodes)
    (PriceLevelNode.prevLevel ∘ b.levelArena.nodes) NULL_IDX (b.best s) (ls.map (·.slot)) t NULL_IDX

structure OrderBook.HasLayout (b : OrderBook) (L : Layout) : Prop where
  storage : Storage b.orderArena b.levelArena L.lostOrders L.levels L.freeOrders L.freeLevels
  linked : ∀ s, b.Linked s (L.ladder s)
  priceIndex_valid : b.priceIndex.Valid
  priceIndex_iff : ∀ p i,
    b.priceIndex.lookup p = some i ↔ ∃ l ∈ L.levels, l.price = p ∧ l.slot = i
  orderIndex_valid : b.orderIndex.Valid
  orderIndex_eq : ∀ k, b.orderIndex.lookup k = L.orderIndex k
  clientIndex_valid : b.clientOrderIndex.Valid
  clientIndex_eq : ∀ u c, b.clientOrderIndex.lookup u c = L.clientIndex u c
  tradeIdCounter_eq : b.tradeIdCounter = L.tradeIdCounter
  orderIdCounter_eq : b.orderIdCounter = L.orderIdCounter

/-! ### The levels of the two ladders -/

namespace Layout

variable {L L' : Layout} {s : Side} {l : Level} {ls ls₁ ls₂ : List Level}

/-- The levels are those of the one side and those of the other. -/
theorem levels_perm (L : Layout) (s : Side) :
  L.levels.Perm (L.ladder s ++ L.ladder s.opposite)
  := by
  cases s with
  | buy => rfl
  | sell => apply List.perm_append_comm

/-- The levels, with one of them brought to the front. -/
theorem levels_perm_of_eq (h : L.ladder s = ls₁ ++ l :: ls₂) :
  L.levels.Perm (l :: (ls₁ ++ ls₂ ++ L.ladder s.opposite))
  := by
  apply (L.levels_perm s).trans
  rw [h, List.append_assoc, List.append_assoc]
  apply List.perm_middle

/-- Changing one side's ladder changes the levels by that ladder alone. -/
theorem levels_perm_of_update (h : L'.ladder = Function.update L.ladder s ls) :
  L'.levels.Perm (ls ++ L.ladder s.opposite)
  := by
  have hp := L'.levels_perm s
  rw [h, Function.update_self, Function.update_of_ne s.opposite_ne] at hp
  apply hp

/-- A price that is not on a ladder and before all of the other has no level. -/
theorem price_ne_of_notMem {price : UInt64} (hmem : price ∉ (L.ladder s).map (·.price))
    (hcross : ∀ l ∈ L.ladder s.opposite, s.opposite.before price l.price) :
  ∀ l ∈ L.levels, l.price ≠ price
  := by
  intro l hl heq
  rcases List.mem_append.mp ((L.levels_perm s).mem_iff.mp hl) with hl | hl
  · apply hmem
    rw [← heq]
    apply List.mem_map_of_mem hl
  · exact Side.ne_of_before (hcross l hl) heq.symm

/-- When one ladder changes, a level is on either ladder as before but for those of that
one. -/
theorem ladder_update_of_ne {s' : Side} (h : L'.ladder = Function.update L.ladder s ls)
    (hs : s' ≠ s) :
  L'.ladder s' = L.ladder s'
  := by
  rw [h, Function.update_of_ne hs]

end Layout

namespace OrderBook

variable {b b' : OrderBook} {L L' : Layout} {s : Side} {l l' : Level} {ls ls₁ ls₂ : List Level}
  {r : Resting} {q : List Resting}

/-- The levels of a ladder stay linked when no link between levels changes. -/
theorem Linked.congr (h : b.Linked s ls) (hbest : b'.best s = b.best s)
    (hnext : PriceLevelNode.nextLevel ∘ b'.levelArena.nodes
      = PriceLevelNode.nextLevel ∘ b.levelArena.nodes)
    (hprev : PriceLevelNode.prevLevel ∘ b'.levelArena.nodes
      = PriceLevelNode.prevLevel ∘ b.levelArena.nodes)
    {ls' : List Level} (hls : ls'.map (·.slot) = ls.map (·.slot)) :
  b'.Linked s ls'
  := by
  obtain ⟨t, ht⟩ := h
  use t
  rw [hnext, hprev, hbest, hls]
  apply ht

/-- The levels of a ladder stay linked when only links at the slots `S` change, none of them
theirs. -/
theorem Linked.of_notMem (h : b.Linked s ls) {S : List Nat} (hbest : b'.best s = b.best s)
    (hS : ∀ l ∈ ls, l.slot ∉ S)
    (hnext : ∀ i ∉ S, (PriceLevelNode.nextLevel ∘ b'.levelArena.nodes) i
      = (PriceLevelNode.nextLevel ∘ b.levelArena.nodes) i)
    (hprev : ∀ i ∉ S, (PriceLevelNode.prevLevel ∘ b'.levelArena.nodes) i
      = (PriceLevelNode.prevLevel ∘ b.levelArena.nodes) i) :
  b'.Linked s ls
  := by
  obtain ⟨t, ht⟩ := h
  use t
  rw [hbest]
  apply ht.congr
  · intro i hi
    obtain ⟨l, hl, rfl⟩ := List.mem_map.mp hi
    apply hnext l.slot (hS l hl)
  · intro i hi
    obtain ⟨l, hl, rfl⟩ := List.mem_map.mp hi
    apply hprev l.slot (hS l hl)

namespace HasLayout

/-- The storage, with one level of a ladder in front. -/
theorem storage_of_eq (h : b.HasLayout L) (hl : L.ladder s = ls₁ ++ l :: ls₂) :
  Storage b.orderArena b.levelArena L.lostOrders (l :: (ls₁ ++ ls₂ ++ L.ladder s.opposite))
    L.freeOrders L.freeLevels
  := h.storage.perm (Layout.levels_perm_of_eq hl)

/-- A level's slot lies in the arena. -/
theorem level_lt (h : b.HasLayout L) (hl : l ∈ L.levels) :
  l.slot < MAX_PRICE_LEVELS
  := by
  rw [← h.storage.levels.len_eq]
  apply h.storage.levels.pool.lt_of_used
  apply List.mem_map_of_mem hl

theorem level_ne_null (h : b.HasLayout L) (hl : l ∈ L.levels) :
  l.slot ≠ NULL_IDX
  := by
  have hlt := h.level_lt hl
  unfold MAX_PRICE_LEVELS NULL_IDX at *
  omega

/-- No level sits in the null slot. -/
theorem null_notMem_ladder (h : b.HasLayout L) (s : Side) :
  NULL_IDX ∉ (L.ladder s).map (·.slot)
  := by
  intro hmem
  obtain ⟨l, hl, hslot⟩ := List.mem_map.mp hmem
  apply h.level_ne_null (Layout.mem_levels.mpr ⟨s, hl⟩) hslot

/-- The levels of a side sit in slots of their own. -/
theorem ladder_nodup (h : b.HasLayout L) (s : Side) :
  ((L.ladder s).map (·.slot)).Nodup
  := by
  have hnd := (List.nodup_append.mp h.storage.levels.pool.nodup).1
  have hp := (L.levels_perm s).map (·.slot)
  rw [hp.nodup_iff, List.map_append] at hnd
  exact (List.nodup_append.mp hnd).1

/-- No level of one side shares its slot with a level of the other. -/
theorem ladder_disjoint (h : b.HasLayout L) {l' : Level} (hl : l ∈ L.ladder s)
    (hl' : l' ∈ L.ladder s.opposite) :
  l'.slot ≠ l.slot
  := by
  have hnd := (List.nodup_append.mp h.storage.levels.pool.nodup).1
  have hp := (L.levels_perm s).map (·.slot)
  rw [hp.nodup_iff, List.map_append] at hnd
  exact ((List.nodup_append.mp hnd).2.2 l.slot (List.mem_map_of_mem hl) l'.slot
    (List.mem_map_of_mem hl')).symm

/-- A side has no more levels than the arena has slots. -/
theorem ladder_length_le (h : b.HasLayout L) (s : Side) :
  (L.ladder s).length ≤ MAX_PRICE_LEVELS
  := by
  have hlen := h.storage.levels.pool.length_add
  have hp := (L.levels_perm s).length_eq
  rw [h.storage.levels.len_eq] at hlen
  simp only [List.length_append, List.length_map] at hlen hp
  omega

/-- The best pointer of a side is null exactly when the side is empty. -/
theorem best_eq_null_iff (h : b.HasLayout L) (s : Side) :
  b.best s = NULL_IDX ↔ L.ladder s = []
  := by
  obtain ⟨t, ht⟩ := h.linked s
  rw [ht.head_eq_null_iff (h.null_notMem_ladder s), List.map_eq_nil_iff]

/-- The best pointer of a side is the slot of its first level. -/
theorem best_eq (h : b.HasLayout L) (hl : L.ladder s = l :: ls) :
  b.best s = l.slot
  := by
  obtain ⟨t, ht⟩ := h.linked s
  rw [hl, List.map_cons] at ht
  apply ht.head_eq

/-- Every level is stored in the arenas. -/
theorem stored (h : b.HasLayout L) (hl : l ∈ L.levels) :
  l.Stored b.orderArena b.levelArena
  := h.storage.stored l hl

/-- A level is empty in the arena exactly when its queue is. -/
theorem isEmpty_iff (h : b.HasLayout L) (hl : l ∈ L.levels) :
  (b.levelArena.nodes l.slot).isEmpty = true ↔ l.queue = []
  := by
  obtain ⟨ls₁, ls₂, heq⟩ := List.append_of_mem hl
  have hst := h.storage.perm (heq ▸ List.perm_middle)
  have hiff := (h.stored hl).queue.head_eq_null_iff hst.null_notMem_orderSlots
  rw [Level.orderSlots, List.map_eq_nil_iff] at hiff
  rw [PriceLevelNode.isEmpty, beq_iff_eq, hiff]

/-- A level's head pointer is the slot of its first order. -/
theorem headOrder_eq (h : b.HasLayout L) (hl : l ∈ L.levels) (hq : l.queue = r :: q) :
  (b.levelArena.nodes l.slot).headOrder = r.slot
  := by
  have hqueue := (h.stored hl).queue
  rw [Level.orderSlots, hq, List.map_cons] at hqueue
  apply hqueue.head_eq

/-- An operation on one queue keeps the ladders and the price index. -/
theorem of_storage (h : b.HasLayout L) (hl : L.ladder s = ls₁ ++ l :: ls₂)
    (hL' : L'.ladder = Function.update L.ladder s (ls₁ ++ l' :: ls₂))
    (hst : Storage b'.orderArena b'.levelArena L'.lostOrders
      (l' :: (ls₁ ++ ls₂ ++ L.ladder s.opposite)) L'.freeOrders L'.freeLevels)
    (hslot : l'.slot = l.slot) (hprice : l'.price = l.price)
    (hbest : ∀ s, b'.best s = b.best s)
    (hnext : PriceLevelNode.nextLevel ∘ b'.levelArena.nodes
      = PriceLevelNode.nextLevel ∘ b.levelArena.nodes)
    (hprev : PriceLevelNode.prevLevel ∘ b'.levelArena.nodes
      = PriceLevelNode.prevLevel ∘ b.levelArena.nodes)
    (hprices : b'.priceIndex = b.priceIndex)
    (horders : b'.orderIndex.Valid ∧ ∀ k, b'.orderIndex.lookup k = L'.orderIndex k)
    (hclients : b'.clientOrderIndex.Valid
      ∧ ∀ u c, b'.clientOrderIndex.lookup u c = L'.clientIndex u c)
    (htrade : b'.tradeIdCounter = L'.tradeIdCounter)
    (horder : b'.orderIdCounter = L'.orderIdCounter) :
  b'.HasLayout L' where
  storage := by
    apply hst.perm
    apply List.Perm.symm
    apply (Layout.levels_perm_of_update hL').trans
    rw [List.append_assoc, List.append_assoc]
    apply List.perm_middle
  linked s' := by
    apply (h.linked s').congr (hbest s') hnext hprev
    rcases eq_or_ne s' s with rfl | hs
    · rw [hL', Function.update_self, hl]
      simp [hslot]
    · rw [Layout.ladder_update_of_ne hL' hs]
  priceIndex_valid := by
    rw [hprices]
    apply h.priceIndex_valid
  priceIndex_iff p i := by
    rw [hprices, h.priceIndex_iff]
    have hp : L'.levels.Perm (l' :: (ls₁ ++ ls₂ ++ L.ladder s.opposite)) := by
      apply (Layout.levels_perm_of_update hL').trans
      rw [List.append_assoc, List.append_assoc]
      apply List.perm_middle
    simp only [hp.mem_iff, (Layout.levels_perm_of_eq hl).mem_iff, List.exists_mem_cons_iff, hslot,
      hprice]
  orderIndex_valid := horders.1
  orderIndex_eq := horders.2
  clientIndex_valid := hclients.1
  clientIndex_eq := hclients.2
  tradeIdCounter_eq := htrade
  orderIdCounter_eq := horder

/-- A new book. -/
theorem new (symbol : Symbol) :
  (OrderBook.new symbol).HasLayout Layout.new
  := by
  constructor
  · dsimp only [OrderBook.new, Layout.new, Layout.levels]
    apply Storage.new
  · intro s
    exact ⟨NULL_IDX, by cases s <;> rfl, rfl⟩
  · apply OpenAddressing.Table.valid_new
  · intro p i
    have hlookup : (OrderBook.new symbol).priceIndex.lookup p = none := by
      rw [FastPriceIndex.lookup, OrderBook.new, OpenAddressing.Table.lookup_new]
      rfl
    simp [hlookup, Layout.new, Layout.levels]
  · apply OpenAddressing.Table.valid_new
  · intro k
    apply OpenAddressing.Table.lookup_new
  · apply OpenAddressing.Table.valid_new
  · intro u c
    rw [FastClientIndex.lookup, OrderBook.new, OpenAddressing.Table.lookup_new]
    rfl
  · rfl
  · rfl

end HasLayout

end OrderBook

end LimitOrderBook
