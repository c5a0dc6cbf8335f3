import LimitOrderBook.Layout
import LimitOrderBook.Lib.Intrusive

/-!
# Levels in the arenas

`Storage` says that the two arenas hold a list of levels: each level's node carries its
price and its counts and heads the doubly linked list of its orders' nodes, and the slots
that hold no level and no order are the chains of free slots.  The order of the levels
does not matter to it; the ladders are a matter of `HasLayout`.

There is one lemma for each thing the code does to the arenas: a quantity taken off an
order (`Storage.reduce`), an order taken out of its queue (`Storage.unlink`) and appended
to it (`Storage.push`), and the four ways a slot changes hands (`Storage.allocOrder`,
`Storage.freeOrder`, `Storage.allocLevel`, `Storage.freeLevel`).
-/

namespace LimitOrderBook

open Intrusive

/-- The slots `used` of an order arena are allocated, and the slots `free` are on its free
list. -/
structure OrderArena.Slots (a : OrderArena) (used free : List Nat) : Prop where
  pool : Pool (OrderNode.next ∘ a.nodes) (OrderNode.active ∘ a.nodes) NULL_IDX a.capacity
    a.freeHead used free
  capacity_eq : a.capacity = MAX_ARENA_ORDERS
  count_eq : a.activeCount = used.length

/-- The slots `used` of a level arena are allocated, and the slots `free` are on its free
list. -/
structure PriceLevelArena.Slots (a : PriceLevelArena) (used free : List Nat) : Prop where
  pool : Pool (PriceLevelNode.nextFree ∘ a.nodes) (PriceLevelNode.active ∘ a.nodes) NULL_IDX a.len
    a.freeHead used free
  len_eq : a.len = MAX_PRICE_LEVELS

/-- In a new order arena every slot is free. -/
theorem OrderArena.pool_new {capacity : Nat} (h : 0 < capacity) :
  Pool (OrderNode.next ∘ (OrderArena.new capacity).nodes)
    (OrderNode.active ∘ (OrderArena.new capacity).nodes) NULL_IDX capacity 0 []
    (List.range capacity)
  := Pool.new h

/-- In a new level arena every slot is free. -/
theorem PriceLevelArena.pool_new {capacity : Nat} (h : 0 < capacity) :
  Pool (PriceLevelNode.nextFree ∘ (PriceLevelArena.new capacity).nodes)
    (PriceLevelNode.active ∘ (PriceLevelArena.new capacity).nodes) NULL_IDX capacity 0 []
    (List.range capacity)
  := Pool.new h

/-- A level node without its links to other levels. -/
def PriceLevelNode.bare (n : PriceLevelNode) : PriceLevelNode :=
  { n with prevLevel := NULL_IDX, nextLevel := NULL_IDX }

/-- The arenas hold a level and its queue. -/
structure Level.Stored (l : Level) (oa : OrderArena) (la : PriceLevelArena) : Prop where
  price_eq : (la.nodes l.slot).price = l.price
  totalQty_eq : (la.nodes l.slot).totalQty = l.totalQty
  orderCount_eq : (la.nodes l.slot).orderCount = l.queue.length
  queue : Seg (OrderNode.next ∘ oa.nodes) (OrderNode.prev ∘ oa.nodes) NULL_IDX
    (la.nodes l.slot).headOrder l.orderSlots (la.nodes l.slot).tailOrder NULL_IDX
  order_eq : ∀ r ∈ l.queue, (oa.nodes r.slot).order = r.order
  clientId_eq : ∀ r ∈ l.queue, (oa.nodes r.slot).clientId = r.clientId

/-- The arenas hold the levels of a list, and besides the allocated but unlinked orders
`lost`. -/
structure Storage (oa : OrderArena) (la : PriceLevelArena) (lost : List Nat) (ls : List Level)
    (freeOrders freeLevels : List Nat) : Prop where
  orders : oa.Slots (lost ++ (restingOf ls).map (·.slot)) freeOrders
  levels : la.Slots (ls.map (·.slot)) freeLevels
  stored : ∀ l ∈ ls, l.Stored oa la

/-- The new arenas hold no order and no level. -/
theorem Storage.new :
  Storage (OrderArena.new MAX_ARENA_ORDERS) (PriceLevelArena.new MAX_PRICE_LEVELS) [] []
    (List.range MAX_ARENA_ORDERS) (List.range MAX_PRICE_LEVELS) where
  orders := ⟨OrderArena.pool_new (by decide), rfl, rfl⟩
  levels := ⟨PriceLevelArena.pool_new (by decide), rfl⟩
  stored := by simp

/-! ### Frames -/

/-- A level stays stored while its own node and its orders' nodes stay as they are. -/
theorem Level.Stored.congr {l : Level} {oa oa' : OrderArena} {la la' : PriceLevelArena}
    (h : l.Stored oa la) (hla : (la'.nodes l.slot).bare = (la.nodes l.slot).bare)
    (hoa : ∀ r ∈ l.queue, oa'.nodes r.slot = oa.nodes r.slot) :
  l.Stored oa' la' where
  price_eq := by
    rw [← h.price_eq]
    apply congrArg PriceLevelNode.price hla
  totalQty_eq := by
    rw [← h.totalQty_eq]
    apply congrArg PriceLevelNode.totalQty hla
  orderCount_eq := by
    rw [← h.orderCount_eq]
    apply congrArg PriceLevelNode.orderCount hla
  queue := by
    have hhead : (la'.nodes l.slot).headOrder = (la.nodes l.slot).headOrder :=
      (congrArg PriceLevelNode.headOrder hla :)
    have htail : (la'.nodes l.slot).tailOrder = (la.nodes l.slot).tailOrder :=
      (congrArg PriceLevelNode.tailOrder hla :)
    rw [hhead, htail]
    apply h.queue.congr
    · intro i hi
      obtain ⟨r, hr, rfl⟩ := List.mem_map.mp hi
      simp only [Function.comp_apply, hoa r hr]
    · intro i hi
      obtain ⟨r, hr, rfl⟩ := List.mem_map.mp hi
      simp only [Function.comp_apply, hoa r hr]
  order_eq r hr := by rw [hoa r hr, h.order_eq r hr]
  clientId_eq r hr := by rw [hoa r hr, h.clientId_eq r hr]

namespace Storage

variable {oa oa' : OrderArena} {la la' : PriceLevelArena} {lost freeOrders freeLevels : List Nat}
  {l : Level} {ls ls' : List Level} {r : Resting}

/-- The order in which the levels are listed does not matter. -/
theorem perm (h : Storage oa la lost ls freeOrders freeLevels) (hp : ls.Perm ls') :
  Storage oa la lost ls' freeOrders freeLevels where
  orders :=
    { h.orders with
      pool := h.orders.pool.perm_used (((hp.flatMap_right _).map _).append_left lost)
      count_eq := by
        rw [h.orders.count_eq]
        apply (((hp.flatMap_right _).map _).append_left lost).length_eq }
  levels := { h.levels with pool := h.levels.pool.perm_used (hp.map _) }
  stored l hl := h.stored l (hp.mem_iff.mpr hl)

theorem used_nodup (h : Storage oa la lost ls freeOrders freeLevels) :
  (lost ++ (restingOf ls).map (·.slot)).Nodup
  := (List.nodup_append.mp h.orders.pool.nodup).1

/-- The orders of a level sit in slots of their own. -/
theorem orderSlots_nodup (h : Storage oa la lost (l :: ls) freeOrders freeLevels) :
  l.orderSlots.Nodup
  := by
  have hnd := (List.nodup_append.mp h.used_nodup).2.1
  rw [restingOf_cons, List.map_append] at hnd
  exact (List.nodup_append.mp hnd).1

theorem slot_mem_used (_ : Storage oa la lost ls freeOrders freeLevels) (hl : l ∈ ls)
    (hr : r ∈ l.queue) :
  r.slot ∈ lost ++ (restingOf ls).map (·.slot)
  := by
  apply List.mem_append_right
  apply List.mem_map_of_mem
  apply mem_restingOf.mpr ⟨l, hl, hr⟩

/-- No order of a level sits in the null slot. -/
theorem null_notMem_orderSlots (h : Storage oa la lost (l :: ls) freeOrders freeLevels) :
  NULL_IDX ∉ l.orderSlots
  := by
  intro hmem
  obtain ⟨r, hr, hslot⟩ := List.mem_map.mp hmem
  have hlt := h.orders.pool.lt_of_used (h.slot_mem_used List.mem_cons_self hr)
  rw [hslot, h.orders.capacity_eq] at hlt
  exact absurd hlt (by decide)

/-- No order is in two queues. -/
theorem slot_ne (h : Storage oa la lost (l :: ls) freeOrders freeLevels) {i : Nat}
    (hi : i ∈ l.orderSlots) {l' : Level} (hl' : l' ∈ ls) (hr : r ∈ l'.queue) :
  r.slot ≠ i
  := by
  have hnd := (List.nodup_append.mp h.used_nodup).2.1
  rw [restingOf_cons, List.map_append] at hnd
  apply ((List.nodup_append.mp hnd).2.2 i hi r.slot _).symm
  apply List.mem_map_of_mem
  apply mem_restingOf.mpr ⟨l', hl', hr⟩

/-- No slot holds two levels. -/
theorem level_slot_ne (h : Storage oa la lost (l :: ls) freeOrders freeLevels) {l' : Level}
    (hl' : l' ∈ ls) :
  l'.slot ≠ l.slot
  := by
  have hnd := (List.nodup_append.mp h.levels.pool.nodup).1
  rw [List.map_cons] at hnd
  intro heq
  apply (List.nodup_cons.mp hnd).1
  rw [← heq]
  apply List.mem_map_of_mem hl'

end Storage

/-! ### Assignments -/

namespace OrderArena

variable {a : OrderArena} {i : Nat} {f : OrderNode → OrderNode} {used free : List Nat}

theorem nodes_modify_of_ne {j : Nat} (h : j ≠ i) :
  (a.modify i f).nodes j = a.nodes j
  := Function.update_of_ne h ..

theorem comp_modify {α : Type} (g : OrderNode → α) :
  g ∘ (a.modify i f).nodes = Function.update (g ∘ a.nodes) i (g (f (a.nodes i)))
  := Function.comp_update ..

theorem comp_modify_of_eq {α : Type} {g : OrderNode → α} (h : g (f (a.nodes i)) = g (a.nodes i)) :
  g ∘ (a.modify i f).nodes = g ∘ a.nodes
  := comp_update_of_eq h

/-- Changing a used node apart from its flag leaves the arena's slots as they are. -/
theorem Slots.modify (h : a.Slots used free) (hi : i ∈ used)
    (hf : (f (a.nodes i)).active = (a.nodes i).active) :
  (a.modify i f).Slots used free where
  pool := by
    apply h.pool.congr
    · intro j hj
      rw [Function.comp_apply, nodes_modify_of_ne (h.pool.ne_of_used_of_free hi hj).symm,
        Function.comp_apply]
    · apply comp_modify_of_eq hf
  capacity_eq := h.capacity_eq
  count_eq := h.count_eq

theorem Slots.perm_used {used' : List Nat} (h : a.Slots used free) (hp : used.Perm used') :
  a.Slots used' free where
  pool := h.pool.perm_used hp
  capacity_eq := h.capacity_eq
  count_eq := by rw [h.count_eq, hp.length_eq]

/-- The free list's head is null exactly when no slot is free. -/
theorem Slots.freeHead_eq_null_iff (h : a.Slots used free) :
  a.freeHead = NULL_IDX ↔ free = []
  := by
  apply h.pool.head_eq_null_iff
  rw [h.capacity_eq]
  decide

theorem Slots.freeHead_eq {free : List Nat} (h : a.Slots used (i :: free)) :
  a.freeHead = i
  := h.pool.chain.1

end OrderArena

namespace PriceLevelArena

variable {a : PriceLevelArena} {i : Nat} {f : PriceLevelNode → PriceLevelNode}
  {used free : List Nat}

@[simp]
theorem nodes_modify_self :
  (a.modify i f).nodes i = f (a.nodes i)
  := Function.update_self ..

theorem nodes_modify_of_ne {j : Nat} (h : j ≠ i) :
  (a.modify i f).nodes j = a.nodes j
  := Function.update_of_ne h ..

theorem comp_modify {α : Type} (g : PriceLevelNode → α) :
  g ∘ (a.modify i f).nodes = Function.update (g ∘ a.nodes) i (g (f (a.nodes i)))
  := Function.comp_update ..

theorem comp_modify_of_eq {α : Type} {g : PriceLevelNode → α}
    (h : g (f (a.nodes i)) = g (a.nodes i)) :
  g ∘ (a.modify i f).nodes = g ∘ a.nodes
  := comp_update_of_eq h

theorem nodes_deallocate_of_ne {j : Nat} (h : j ≠ i) :
  (a.deallocate i).nodes j = a.nodes j
  := by
  unfold deallocate
  split
  · rfl
  · apply Function.update_of_ne h

theorem Slots.modify (h : a.Slots used free)
    (hfree : (f (a.nodes i)).nextFree = (a.nodes i).nextFree)
    (hactive : (f (a.nodes i)).active = (a.nodes i).active) :
  (a.modify i f).Slots used free where
  pool := by
    apply h.pool.congr
    · intro j _
      rw [comp_modify_of_eq hfree]
    · apply comp_modify_of_eq hactive
  len_eq := h.len_eq

theorem Slots.freeHead_eq_null_iff (h : a.Slots used free) :
  a.freeHead = NULL_IDX ↔ free = []
  := by
  apply h.pool.head_eq_null_iff
  rw [h.len_eq]
  decide

theorem Slots.freeHead_eq {free : List Nat} (h : a.Slots used (i :: free)) :
  a.freeHead = i
  := h.pool.chain.1

end PriceLevelArena

/-! ### The queue operations, node by node -/

namespace PriceLevelNode

variable (level : PriceLevelNode) (i : Nat) (arena : OrderArena)

/-- Unlinking an order moves the level's ends past it and takes it off its totals. -/
theorem unlinkOrder_fst :
  (level.unlinkOrder i arena).1
    = { level with
        headOrder :=
          if (arena.nodes i).prev = NULL_IDX then (arena.nodes i).next else level.headOrder
        tailOrder :=
          if (arena.nodes i).next = NULL_IDX then (arena.nodes i).prev else level.tailOrder
        totalQty := level.totalQty.saturatingSub (arena.nodes i).order.qty
        orderCount := level.orderCount - 1 }
  := by
  have horder : ∀ (a : OrderArena) j k g, (∀ n : OrderNode, (g n).order = n.order) →
      ((a.modify j g).nodes k).order = (a.nodes k).order := by
    intro a j k g hg
    apply congrFun (OrderArena.comp_modify_of_eq (hg (a.nodes j))) k
  unfold unlinkOrder
  by_cases hp : (arena.nodes i).prev = NULL_IDX <;>
    by_cases hn : (arena.nodes i).next = NULL_IDX <;>
      simp [hp, hn, horder]

/-- What unlinking does to a field of the nodes that is not a link. -/
theorem comp_unlinkOrder {α : Type} {g : OrderNode → α}
    (hg : ∀ n p q, g { n with prev := p, next := q } = g n) :
  g ∘ (level.unlinkOrder i arena).2.nodes = g ∘ arena.nodes
  := by
  have hprev : ∀ n p, g { n with prev := p } = g n := fun n p => hg n p n.next
  have hnext : ∀ n q, g { n with next := q } = g n := fun n q => hg n n.prev q
  unfold unlinkOrder
  by_cases hp : (arena.nodes i).prev = NULL_IDX <;>
    by_cases hn : (arena.nodes i).next = NULL_IDX <;>
      simp only [hp, hn, ne_eq, not_true_eq_false, not_false_eq_true, if_true, if_false]
  · rw [OrderArena.comp_modify_of_eq (hprev ..)]
  · rw [OrderArena.comp_modify_of_eq (hnext ..)]
  · rw [OrderArena.comp_modify_of_eq (hprev ..), OrderArena.comp_modify_of_eq (hnext ..)]

/-- Unlinking an order makes its predecessor point past it. -/
theorem next_unlinkOrder :
  OrderNode.next ∘ (level.unlinkOrder i arena).2.nodes
    = if (arena.nodes i).prev = NULL_IDX then OrderNode.next ∘ arena.nodes
      else Function.update (OrderNode.next ∘ arena.nodes) (arena.nodes i).prev
        (arena.nodes i).next
  := by
  unfold unlinkOrder
  by_cases hp : (arena.nodes i).prev = NULL_IDX <;>
    by_cases hn : (arena.nodes i).next = NULL_IDX <;>
      simp only [hp, hn, ne_eq, not_true_eq_false, not_false_eq_true, if_true, if_false]
  · rw [OrderArena.comp_modify_of_eq rfl]
  · rw [OrderArena.comp_modify]
  · rw [OrderArena.comp_modify_of_eq rfl, OrderArena.comp_modify]

/-- Unlinking an order makes its successor point back past it. -/
theorem prev_unlinkOrder :
  OrderNode.prev ∘ (level.unlinkOrder i arena).2.nodes
    = if (arena.nodes i).next = NULL_IDX then OrderNode.prev ∘ arena.nodes
      else Function.update (OrderNode.prev ∘ arena.nodes) (arena.nodes i).next
        (arena.nodes i).prev
  := by
  unfold unlinkOrder
  by_cases hp : (arena.nodes i).prev = NULL_IDX <;>
    by_cases hn : (arena.nodes i).next = NULL_IDX <;>
      simp only [hp, hn, ne_eq, not_true_eq_false, not_false_eq_true, if_true, if_false]
  · rw [OrderArena.comp_modify]
  · rw [OrderArena.comp_modify_of_eq rfl]
  · rw [OrderArena.comp_modify, OrderArena.comp_modify_of_eq rfl]

/-- Unlinking an order changes its neighbours alone. -/
theorem nodes_unlinkOrder_of_ne {j : Nat}
    (hp : (arena.nodes i).prev = NULL_IDX ∨ j ≠ (arena.nodes i).prev)
    (hn : (arena.nodes i).next = NULL_IDX ∨ j ≠ (arena.nodes i).next) :
  (level.unlinkOrder i arena).2.nodes j = arena.nodes j
  := by
  unfold unlinkOrder
  by_cases hp' : (arena.nodes i).prev = NULL_IDX <;>
    by_cases hn' : (arena.nodes i).next = NULL_IDX <;>
      simp only [hp', hn', ne_eq, not_true_eq_false, not_false_eq_true, if_true, if_false]
  · rw [OrderArena.nodes_modify_of_ne (hn.resolve_left hn')]
  · rw [OrderArena.nodes_modify_of_ne (hp.resolve_left hp')]
  · rw [OrderArena.nodes_modify_of_ne (hn.resolve_left hn'),
      OrderArena.nodes_modify_of_ne (hp.resolve_left hp')]

theorem unlinkOrder_frame :
  (level.unlinkOrder i arena).2.freeHead = arena.freeHead
    ∧ (level.unlinkOrder i arena).2.capacity = arena.capacity
    ∧ (level.unlinkOrder i arena).2.activeCount = arena.activeCount
  := by
  unfold unlinkOrder
  by_cases hp : (arena.nodes i).prev = NULL_IDX <;>
    by_cases hn : (arena.nodes i).next = NULL_IDX <;>
      simp [hp, hn, OrderArena.modify]

/-- Pushing an order makes it the level's tail and adds it to its totals. -/
theorem pushOrder_fst :
  (level.pushOrder i arena).1
    = { level with
        headOrder := if level.tailOrder = NULL_IDX then i else level.headOrder
        tailOrder := i
        totalQty := level.totalQty + (arena.nodes i).order.qty
        orderCount := level.orderCount + 1 }
  := by
  have horder : ∀ (a : OrderArena) j k g, (∀ n : OrderNode, (g n).order = n.order) →
      ((a.modify j g).nodes k).order = (a.nodes k).order := by
    intro a j k g hg
    apply congrFun (OrderArena.comp_modify_of_eq (hg (a.nodes j))) k
  unfold pushOrder
  by_cases ht : level.tailOrder = NULL_IDX <;> simp [ht, horder]

/-- What pushing does to a field of the nodes that is not a link. -/
theorem comp_pushOrder {α : Type} {g : OrderNode → α}
    (hg : ∀ n p q, g { n with prev := p, next := q } = g n) :
  g ∘ (level.pushOrder i arena).2.nodes = g ∘ arena.nodes
  := by
  have hnext : ∀ n q, g { n with next := q } = g n := fun n q => hg n n.prev q
  unfold pushOrder
  by_cases ht : level.tailOrder = NULL_IDX <;>
    simp only [ht, ne_eq, not_true_eq_false, not_false_eq_true, if_true, if_false]
  · rw [OrderArena.comp_modify_of_eq (hg ..)]
  · rw [OrderArena.comp_modify_of_eq (hnext ..), OrderArena.comp_modify_of_eq (hg ..)]

/-- Pushing an order makes the old tail point to it. -/
theorem next_pushOrder (hi : i ≠ level.tailOrder) :
  OrderNode.next ∘ (level.pushOrder i arena).2.nodes
    = Function.update
        (if level.tailOrder = NULL_IDX then OrderNode.next ∘ arena.nodes
          else Function.update (OrderNode.next ∘ arena.nodes) level.tailOrder i)
        i NULL_IDX
  := by
  unfold pushOrder
  by_cases ht : level.tailOrder = NULL_IDX <;>
    simp only [ht, ne_eq, not_true_eq_false, not_false_eq_true, if_true, if_false]
  · rw [OrderArena.comp_modify]
  · rw [OrderArena.comp_modify, OrderArena.comp_modify, Function.update_comm hi]

/-- Pushing an order makes it point back to the old tail. -/
theorem prev_pushOrder :
  OrderNode.prev ∘ (level.pushOrder i arena).2.nodes
    = Function.update (OrderNode.prev ∘ arena.nodes) i level.tailOrder
  := by
  unfold pushOrder
  by_cases ht : level.tailOrder = NULL_IDX <;>
    simp only [ht, ne_eq, not_true_eq_false, not_false_eq_true, if_true, if_false]
  · rw [OrderArena.comp_modify]
  · rw [OrderArena.comp_modify_of_eq rfl, OrderArena.comp_modify]

/-- Pushing an order changes it and the old tail alone. -/
theorem nodes_pushOrder_of_ne {j : Nat} (hi : j ≠ i)
    (ht : level.tailOrder = NULL_IDX ∨ j ≠ level.tailOrder) :
  (level.pushOrder i arena).2.nodes j = arena.nodes j
  := by
  unfold pushOrder
  by_cases ht' : level.tailOrder = NULL_IDX <;>
    simp only [ht', ne_eq, not_true_eq_false, not_false_eq_true, if_true, if_false]
  · rw [OrderArena.nodes_modify_of_ne hi]
  · rw [OrderArena.nodes_modify_of_ne (ht.resolve_left ht'), OrderArena.nodes_modify_of_ne hi]

theorem pushOrder_frame :
  (level.pushOrder i arena).2.freeHead = arena.freeHead
    ∧ (level.pushOrder i arena).2.capacity = arena.capacity
    ∧ (level.pushOrder i arena).2.activeCount = arena.activeCount
  := by
  unfold pushOrder
  by_cases ht : level.tailOrder = NULL_IDX <;> simp [ht, OrderArena.modify]

/-- Popping is unlinking the head. -/
theorem popOrder_eq_unlinkOrder {level : PriceLevelNode} {arena : OrderArena}
    (hhead : level.headOrder ≠ NULL_IDX)
    (hprev : (arena.nodes level.headOrder).prev = NULL_IDX) :
  level.popOrder arena = (some level.headOrder, level.unlinkOrder level.headOrder arena)
  := by
  unfold popOrder unlinkOrder
  by_cases hn : (arena.nodes level.headOrder).next = NULL_IDX <;> simp [hhead, hprev, hn]

end PriceLevelNode

namespace Storage

variable {oa oa' : OrderArena} {la la' : PriceLevelArena}
  {lost lost' freeOrders freeOrders' freeLevels : List Nat}
  {l l' : Level} {ls : List Level} {r : Resting}

/-- An operation on one level and its queue leaves the others in place. -/
theorem replace (h : Storage oa la lost (l :: ls) freeOrders freeLevels)
    (horders : oa'.Slots (lost' ++ (restingOf (l' :: ls)).map (·.slot)) freeOrders')
    (hframe : ∀ l₁ ∈ ls, ∀ r ∈ l₁.queue, oa'.nodes r.slot = oa.nodes r.slot)
    {f : PriceLevelNode → PriceLevelNode}
    (hfree : (f (la.nodes l.slot)).nextFree = (la.nodes l.slot).nextFree)
    (hactive : (f (la.nodes l.slot)).active = (la.nodes l.slot).active)
    (hslot : l'.slot = l.slot) (hl' : l'.Stored oa' (la.modify l.slot f)) :
  Storage oa' (la.modify l.slot f) lost' (l' :: ls) freeOrders' freeLevels where
  orders := horders
  levels := by
    rw [List.map_cons, hslot]
    apply h.levels.modify hfree hactive
  stored l₁ hl₁ := by
    rcases List.mem_cons.mp hl₁ with rfl | hl₁
    · apply hl'
    · apply (h.stored l₁ (List.mem_cons_of_mem l hl₁)).congr
      · rw [PriceLevelArena.nodes_modify_of_ne (h.level_slot_ne hl₁)]
      · apply hframe l₁ hl₁

/-- The order at the head of a queue is reduced. -/
theorem reduce (h : Storage oa la lost (l :: ls) freeOrders freeLevels) {q : List Resting}
    (hq : l.queue = r :: q) (qty : UInt64) :
  Storage
    (oa.modify r.slot fun n => { n with order := { n.order with qty := n.order.qty - qty } })
    (la.modify l.slot fun n => { n with totalQty := n.totalQty - qty })
    lost ({ l with queue := r.reduce qty :: q, totalQty := l.totalQty - qty } :: ls)
    freeOrders freeLevels
  := by
  have hl := h.stored l List.mem_cons_self
  have hr : r ∈ l.queue := by rw [hq]; exact List.mem_cons_self
  have hmem := h.slot_mem_used List.mem_cons_self hr
  have hnd := h.orderSlots_nodup
  rw [Level.orderSlots, hq, List.map_cons] at hnd
  apply h.replace
  · have heq : (restingOf ({ l with queue := r.reduce qty :: q, totalQty := l.totalQty - qty }
        :: ls)).map (·.slot) = (restingOf (l :: ls)).map (·.slot) := by
      simp [hq]
    rw [heq]
    apply h.orders.modify hmem
    rfl
  · intro l₁ hl₁ r₁ hr₁
    apply OrderArena.nodes_modify_of_ne
    apply h.slot_ne (List.mem_map_of_mem hr) hl₁ hr₁
  · rfl
  · rfl
  · rfl
  · have hne : ∀ r₁ ∈ q, r₁.slot ≠ r.slot := by
      intro r₁ hr₁ heq
      apply (List.nodup_cons.mp hnd).1
      rw [← heq]
      apply List.mem_map_of_mem hr₁
    constructor
    · simp [hl.price_eq]
    · simp [hl.totalQty_eq]
    · simp [hl.orderCount_eq, hq]
    · have hqueue := hl.queue
      rw [Level.orderSlots, hq] at hqueue
      rw [OrderArena.comp_modify_of_eq rfl, OrderArena.comp_modify_of_eq rfl,
        PriceLevelArena.nodes_modify_self]
      apply hqueue
    · intro r₁ hr₁
      rcases List.mem_cons.mp hr₁ with rfl | hr₁
      · simp [OrderArena.modify, hl.order_eq r hr, Resting.reduce]
      · rw [OrderArena.nodes_modify_of_ne (hne r₁ hr₁)]
        apply hl.order_eq
        rw [hq]
        apply List.mem_cons_of_mem r hr₁
    · intro r₁ hr₁
      rcases List.mem_cons.mp hr₁ with rfl | hr₁
      · simp [OrderArena.modify, hl.clientId_eq r hr, Resting.reduce]
      · rw [OrderArena.nodes_modify_of_ne (hne r₁ hr₁)]
        apply hl.clientId_eq
        rw [hq]
        apply List.mem_cons_of_mem r hr₁

/-- The neighbours of an order are in its queue. -/
theorem neighbours_eq_or_mem (h : Storage oa la lost (l :: ls) freeOrders freeLevels)
    {q₁ q₂ : List Resting} (hq : l.queue = q₁ ++ r :: q₂) :
  ((oa.nodes r.slot).prev = NULL_IDX ∨ (oa.nodes r.slot).prev ∈ l.orderSlots)
    ∧ ((oa.nodes r.slot).next = NULL_IDX ∨ (oa.nodes r.slot).next ∈ l.orderSlots)
  := by
  have hqueue := (h.stored l List.mem_cons_self).queue
  have hslots : l.orderSlots = q₁.map (·.slot) ++ r.slot :: q₂.map (·.slot) := by
    rw [Level.orderSlots, hq, List.map_append, List.map_cons]
  rw [hslots] at hqueue ⊢
  constructor
  · apply hqueue.prev_eq_or_mem.imp_right
    apply List.mem_append_left
  · apply hqueue.next_eq_or_mem.imp_right
    intro hmem
    apply List.mem_append_right _ (List.mem_cons_of_mem _ hmem)

/-- The slot of an order that is taken out of its queue stays allocated. -/
theorem unlink_slots (h : Storage oa la lost (l :: ls) freeOrders freeLevels)
    {q₁ q₂ : List Resting} (hq : l.queue = q₁ ++ r :: q₂) (totalQty : UInt64) :
  OrderArena.Slots ((la.nodes l.slot).unlinkOrder r.slot oa).2
    (r.slot :: lost
      ++ (restingOf ({ l with queue := q₁ ++ q₂, totalQty := totalQty } :: ls)).map (·.slot))
    freeOrders
  := by
  obtain ⟨hprev, -⟩ := h.neighbours_eq_or_mem hq
  obtain ⟨hfree, hcap, hcount⟩ := (la.nodes l.slot).unlinkOrder_frame r.slot oa
  have hpool : Pool (OrderNode.next ∘ ((la.nodes l.slot).unlinkOrder r.slot oa).2.nodes)
      (OrderNode.active ∘ oa.nodes) NULL_IDX oa.capacity oa.freeHead
      (lost ++ (restingOf (l :: ls)).map (·.slot)) freeOrders := by
    apply h.orders.pool.congr
    · intro j hj
      rw [PriceLevelNode.next_unlinkOrder]
      split
      · rfl
      · next hp =>
          obtain ⟨r₁, hr₁, hslot⟩ := List.mem_map.mp (hprev.resolve_left hp)
          have hmem := h.slot_mem_used List.mem_cons_self hr₁
          rw [Function.update_of_ne]
          rw [← hslot]
          apply (h.orders.pool.ne_of_used_of_free hmem hj).symm
    · rfl
  have hslots : OrderArena.Slots ((la.nodes l.slot).unlinkOrder r.slot oa).2
      (lost ++ (restingOf (l :: ls)).map (·.slot)) freeOrders := by
    constructor
    · rw [PriceLevelNode.comp_unlinkOrder (g := OrderNode.active) _ _ _ (fun _ _ _ => rfl),
        hcap, hfree]
      apply hpool
    · rw [hcap, h.orders.capacity_eq]
    · rw [hcount, h.orders.count_eq]
  apply hslots.perm_used
  apply List.perm_iff_count.mpr
  intro j
  simp only [restingOf_cons, hq, List.map_append, List.map_cons, List.count_append,
    List.count_cons, List.cons_append]
  omega

/-- The level after an order has been taken out of its queue. -/
theorem unlink_stored (h : Storage oa la lost (l :: ls) freeOrders freeLevels)
    {q₁ q₂ : List Resting} (hq : l.queue = q₁ ++ r :: q₂) :
  Level.Stored
    { l with queue := q₁ ++ q₂, totalQty := l.totalQty.saturatingSub r.order.qty }
    ((la.nodes l.slot).unlinkOrder r.slot oa).2
    (la.modify l.slot fun _ => ((la.nodes l.slot).unlinkOrder r.slot oa).1)
  := by
  have hl := h.stored l List.mem_cons_self
  have hr : r ∈ l.queue := by rw [hq]; simp
  have hmem : ∀ r₁ ∈ q₁ ++ q₂, r₁ ∈ l.queue := by
    intro r₁ hr₁
    rw [hq]
    simp only [List.mem_append, List.mem_cons] at hr₁ ⊢
    tauto
  constructor
  · rw [PriceLevelArena.nodes_modify_self, PriceLevelNode.unlinkOrder_fst]
    apply hl.price_eq
  · rw [PriceLevelArena.nodes_modify_self, PriceLevelNode.unlinkOrder_fst]
    simp only [hl.totalQty_eq, hl.order_eq r hr]
  · rw [PriceLevelArena.nodes_modify_self, PriceLevelNode.unlinkOrder_fst]
    simp only [hl.orderCount_eq, hq, List.length_append, List.length_cons]
    omega
  · have hqueue := hl.queue
    have hnull := h.null_notMem_orderSlots
    have hnd := h.orderSlots_nodup
    rw [Level.orderSlots, hq, List.map_append, List.map_cons] at hqueue hnull hnd
    rw [PriceLevelArena.nodes_modify_self, PriceLevelNode.unlinkOrder_fst,
      PriceLevelNode.next_unlinkOrder, PriceLevelNode.prev_unlinkOrder, Level.orderSlots,
      List.map_append]
    apply hqueue.unlink hnull hnd
  · intro r₁ hr₁
    rw [← hl.order_eq r₁ (hmem r₁ hr₁)]
    have heq := PriceLevelNode.comp_unlinkOrder (la.nodes l.slot) r.slot oa
      (g := OrderNode.order) (fun _ _ _ => rfl)
    apply congrFun heq
  · intro r₁ hr₁
    rw [← hl.clientId_eq r₁ (hmem r₁ hr₁)]
    have heq := PriceLevelNode.comp_unlinkOrder (la.nodes l.slot) r.slot oa
      (g := OrderNode.clientId) (fun _ _ _ => rfl)
    apply congrFun heq

/-- An order is taken out of its queue.  Its slot stays allocated. -/
theorem unlink (h : Storage oa la lost (l :: ls) freeOrders freeLevels)
    {q₁ q₂ : List Resting} (hq : l.queue = q₁ ++ r :: q₂) :
  Storage ((la.nodes l.slot).unlinkOrder r.slot oa).2
    (la.modify l.slot fun _ => ((la.nodes l.slot).unlinkOrder r.slot oa).1)
    (r.slot :: lost)
    ({ l with
        queue := q₁ ++ q₂
        totalQty := l.totalQty.saturatingSub r.order.qty } :: ls)
    freeOrders freeLevels
  := by
  obtain ⟨hprev, hnext⟩ := h.neighbours_eq_or_mem hq
  apply h.replace
  · apply h.unlink_slots hq
  · intro l₁ hl₁ r₁ hr₁
    apply PriceLevelNode.nodes_unlinkOrder_of_ne
    · apply hprev.imp_right
      intro hmem
      apply h.slot_ne hmem hl₁ hr₁
    · apply hnext.imp_right
      intro hmem
      apply h.slot_ne hmem hl₁ hr₁
  · rw [PriceLevelNode.unlinkOrder_fst]
  · rw [PriceLevelNode.unlinkOrder_fst]
  · rfl
  · apply h.unlink_stored hq

/-- The last order of a queue, if there is one, is in it. -/
theorem tailOrder_eq_or_mem (h : Storage oa la lost (l :: ls) freeOrders freeLevels) :
  (la.nodes l.slot).tailOrder = NULL_IDX ∨ (la.nodes l.slot).tailOrder ∈ l.orderSlots
  := by
  have hqueue := (h.stored l List.mem_cons_self).queue
  rcases List.eq_nil_or_concat' l.orderSlots with heq | ⟨q, i, heq⟩
  · rw [heq] at hqueue
    apply Or.inl hqueue.2
  · rw [heq] at hqueue ⊢
    rw [hqueue.last_eq]
    apply Or.inr
    simp

/-- A slot that is allocated and not linked is that of no order. -/
theorem notMem_of_lost {i : Nat} (h : Storage oa la (i :: lost) ls freeOrders freeLevels) :
  i ∉ (restingOf ls).map (·.slot)
  := by
  intro hmem
  apply (List.nodup_append.mp h.used_nodup).2.2 i List.mem_cons_self i hmem rfl

/-- A slot taken but not yet filed is on no level's queue. -/
theorem notMem_orderSlots_of_lost {i : Nat}
    (h : Storage oa la (i :: lost) (l :: ls) freeOrders freeLevels) :
  i ∉ l.orderSlots
  := by
  intro hmem
  apply h.notMem_of_lost
  rw [restingOf_cons, List.map_append]
  apply List.mem_append_left _ hmem

theorem ne_null_of_lost {i : Nat} (h : Storage oa la (i :: lost) ls freeOrders freeLevels) :
  i ≠ NULL_IDX
  := by
  have hlt := h.orders.pool.lt_of_used (i := i) (by simp)
  rw [h.orders.capacity_eq] at hlt
  intro heq
  rw [heq] at hlt
  exact absurd hlt (by decide)

theorem ne_tailOrder_of_lost {i : Nat}
    (h : Storage oa la (i :: lost) (l :: ls) freeOrders freeLevels) :
  i ≠ (la.nodes l.slot).tailOrder
  := by
  rcases h.tailOrder_eq_or_mem with htail | htail
  · rw [htail]
    apply h.ne_null_of_lost
  · rintro heq
    rw [← heq] at htail
    exact h.notMem_orderSlots_of_lost htail

/-- The slot of an order that is appended to a queue is linked. -/
theorem push_slots (h : Storage oa la (r.slot :: lost) (l :: ls) freeOrders freeLevels) :
  OrderArena.Slots ((la.nodes l.slot).pushOrder r.slot oa).2
    (lost ++ (restingOf (l.push r :: ls)).map (·.slot)) freeOrders
  := by
  obtain ⟨hfree, hcap, hcount⟩ := (la.nodes l.slot).pushOrder_frame r.slot oa
  have hslots : OrderArena.Slots ((la.nodes l.slot).pushOrder r.slot oa).2
      (r.slot :: lost ++ (restingOf (l :: ls)).map (·.slot)) freeOrders := by
    constructor
    · rw [PriceLevelNode.comp_pushOrder (g := OrderNode.active) _ _ _ (fun _ _ _ => rfl),
        hcap, hfree]
      apply h.orders.pool.congr
      · intro j hj
        have hj₁ : j ≠ r.slot :=
          (h.orders.pool.ne_of_used_of_free (by simp) hj).symm
        rw [PriceLevelNode.next_pushOrder _ _ _ h.ne_tailOrder_of_lost,
          Function.update_of_ne hj₁]
        split
        · rfl
        · next ht =>
            obtain ⟨r₁, hr₁, hslot⟩ := List.mem_map.mp (h.tailOrder_eq_or_mem.resolve_left ht)
            have hmem := h.slot_mem_used List.mem_cons_self hr₁
            rw [Function.update_of_ne]
            rw [← hslot]
            apply (h.orders.pool.ne_of_used_of_free hmem hj).symm
      · rfl
    · rw [hcap, h.orders.capacity_eq]
    · rw [hcount, h.orders.count_eq]
  apply hslots.perm_used
  apply List.perm_iff_count.mpr
  intro j
  simp only [restingOf_cons, Level.push, List.map_append, List.map_cons, List.map_nil,
    List.count_append, List.count_cons, List.cons_append, List.count_nil]
  omega

/-- The level after an order has been appended to its queue. -/
theorem push_stored (h : Storage oa la (r.slot :: lost) (l :: ls) freeOrders freeLevels)
    (horder : (oa.nodes r.slot).order = r.order)
    (hclient : (oa.nodes r.slot).clientId = r.clientId) :
  (l.push r).Stored ((la.nodes l.slot).pushOrder r.slot oa).2
    (la.modify l.slot fun _ => ((la.nodes l.slot).pushOrder r.slot oa).1)
  := by
  have hl := h.stored l List.mem_cons_self
  have horder_eq := PriceLevelNode.comp_pushOrder (la.nodes l.slot) r.slot oa
    (g := OrderNode.order) (fun _ _ _ => rfl)
  have hclientId_eq := PriceLevelNode.comp_pushOrder (la.nodes l.slot) r.slot oa
    (g := OrderNode.clientId) (fun _ _ _ => rfl)
  constructor
  · rw [Level.push, PriceLevelArena.nodes_modify_self, PriceLevelNode.pushOrder_fst]
    apply hl.price_eq
  · rw [Level.push, PriceLevelArena.nodes_modify_self, PriceLevelNode.pushOrder_fst]
    simp only [hl.totalQty_eq, horder]
  · rw [Level.push, PriceLevelArena.nodes_modify_self, PriceLevelNode.pushOrder_fst]
    simp only [hl.orderCount_eq, List.length_append, List.length_singleton]
  · have hnotMem := h.notMem_orderSlots_of_lost
    have hnil : Seg (OrderNode.next ∘ oa.nodes) (OrderNode.prev ∘ oa.nodes)
        (la.nodes l.slot).tailOrder NULL_IDX [] (la.nodes l.slot).tailOrder NULL_IDX := ⟨rfl, rfl⟩
    have hins := hl.queue.insert (x := r.slot) hnil
      (by simpa using ⟨h.null_notMem_orderSlots, h.ne_null_of_lost.symm⟩)
      (by simpa [List.nodup_append] using
        ⟨h.orderSlots_nodup, fun i hi heq => hnotMem (heq ▸ hi)⟩)
    simp only [Level.push, PriceLevelArena.nodes_modify_self, PriceLevelNode.pushOrder_fst,
      PriceLevelNode.next_pushOrder _ _ _ h.ne_tailOrder_of_lost, PriceLevelNode.prev_pushOrder,
      Level.orderSlots, List.map_append, List.map_cons, List.map_nil]
    simpa [Level.orderSlots] using hins
  · intro r₁ hr₁
    rcases List.mem_append.mp hr₁ with hr₁ | hr₁
    · rw [← hl.order_eq r₁ hr₁]
      apply congrFun horder_eq
    · rw [List.mem_singleton.mp hr₁, ← horder]
      apply congrFun horder_eq
  · intro r₁ hr₁
    rcases List.mem_append.mp hr₁ with hr₁ | hr₁
    · rw [← hl.clientId_eq r₁ hr₁]
      apply congrFun hclientId_eq
    · rw [List.mem_singleton.mp hr₁, ← hclient]
      apply congrFun hclientId_eq

/-- An allocated order is appended to a queue. -/
theorem push (h : Storage oa la (r.slot :: lost) (l :: ls) freeOrders freeLevels)
    (horder : (oa.nodes r.slot).order = r.order)
    (hclient : (oa.nodes r.slot).clientId = r.clientId) :
  Storage ((la.nodes l.slot).pushOrder r.slot oa).2
    (la.modify l.slot fun _ => ((la.nodes l.slot).pushOrder r.slot oa).1)
    lost (l.push r :: ls) freeOrders freeLevels
  := by
  apply h.replace
  · apply h.push_slots
  · intro l₁ hl₁ r₁ hr₁
    apply PriceLevelNode.nodes_pushOrder_of_ne
    · intro heq
      apply h.notMem_of_lost
      rw [← heq]
      apply List.mem_map_of_mem
      apply mem_restingOf.mpr ⟨l₁, List.mem_cons_of_mem l hl₁, hr₁⟩
    · apply h.tailOrder_eq_or_mem.imp_right
      intro hmem
      apply h.slot_ne hmem hl₁ hr₁
  · rw [PriceLevelNode.pushOrder_fst]
  · rw [PriceLevelNode.pushOrder_fst]
  · rfl
  · apply h.push_stored horder hclient

/-! ### Slots change hands -/

/-- A full order arena refuses an order. -/
theorem allocOrder_nil (h : Storage oa la lost ls [] freeLevels) (o : Order) (clientId : UInt64) :
  oa.allocate o clientId = .error .engineFull
  := by
  rw [OrderArena.allocate, if_pos (h.orders.freeHead_eq_null_iff.mpr rfl)]

/-- A free order slot is allocated. -/
theorem allocOrder {i : Nat} (h : Storage oa la lost ls (i :: freeOrders) freeLevels)
    (o : Order) (clientId : UInt64) :
  ∃ oa', oa.allocate o clientId = .ok (i, oa')
    ∧ Storage oa' la (i :: lost) ls freeOrders freeLevels
    ∧ (oa'.nodes i).order = o ∧ (oa'.nodes i).clientId = clientId
  := by
  have hhead := h.orders.freeHead_eq
  have hne : oa.freeHead ≠ NULL_IDX := by
    rw [ne_eq, h.orders.freeHead_eq_null_iff]
    apply List.cons_ne_nil
  rw [OrderArena.allocate, if_neg hne]
  refine ⟨_, by rw [hhead], ?_, ?_, ?_⟩
  · constructor
    · constructor
      · simp only [Function.comp_update]
        apply h.orders.pool.take
      · apply h.orders.capacity_eq
      · simp only [h.orders.count_eq, List.cons_append, List.length_cons]
    · apply h.levels
    · intro l hl
      apply (h.stored l hl).congr rfl
      intro r hr
      apply Function.update_of_ne
      apply h.orders.pool.ne_of_used_of_free (h.slot_mem_used hl hr) List.mem_cons_self
  · simp
  · simp

/-- An allocated order that is in no queue is freed. -/
theorem freeOrder {i : Nat} (h : Storage oa la (i :: lost) ls freeOrders freeLevels) :
  Storage (oa.deallocate i) la lost ls (i :: freeOrders) freeLevels
  := by
  have hlt := h.orders.pool.lt_of_used (i := i) (by simp)
  have hcond : ¬ (i = NULL_IDX ∨ oa.capacity ≤ i) := by
    rw [h.orders.capacity_eq] at hlt ⊢
    unfold MAX_ARENA_ORDERS NULL_IDX at *
    omega
  rw [OrderArena.deallocate, if_neg hcond]
  constructor
  · constructor
    · simp only [OrderArena.comp_modify]
      apply h.orders.pool.give
    · apply h.orders.capacity_eq
    · simp [h.orders.count_eq]
  · apply h.levels
  · intro l hl
    apply (h.stored l hl).congr rfl
    intro r hr
    apply Function.update_of_ne
    intro heq
    apply (List.nodup_cons.mp h.used_nodup).1
    rw [← heq]
    apply List.mem_append_right
    apply List.mem_map_of_mem
    apply mem_restingOf.mpr ⟨l, hl, hr⟩

/-- Popping a queue unlinks its first order. -/
theorem popOrder_eq (h : Storage oa la lost (l :: ls) freeOrders freeLevels)
    {q : List Resting} (hq : l.queue = r :: q) :
  (la.nodes l.slot).popOrder oa = (some r.slot, (la.nodes l.slot).unlinkOrder r.slot oa)
  := by
  have hqueue := (h.stored l List.mem_cons_self).queue
  have hnull := h.null_notMem_orderSlots
  rw [Level.orderSlots, hq, List.map_cons] at hqueue hnull
  obtain ⟨hhead, hprev, -⟩ := hqueue
  rw [← hhead]
  apply PriceLevelNode.popOrder_eq_unlinkOrder
  · rw [hhead]
    rintro heq
    rw [heq] at hnull
    exact hnull List.mem_cons_self
  · rw [hhead]
    apply hprev

/-- The first order of a queue is popped and freed. -/
theorem pop (h : Storage oa la lost (l :: ls) freeOrders freeLevels) {q : List Resting}
    (hq : l.queue = r :: q) :
  ∃ level oa', (la.nodes l.slot).popOrder oa = (some r.slot, level, oa')
    ∧ Storage (oa'.deallocate r.slot) (la.modify l.slot fun _ => level) lost
        ({ l with queue := q, totalQty := l.totalQty.saturatingSub r.order.qty } :: ls)
        (r.slot :: freeOrders) freeLevels
    ∧ level.nextLevel = (la.nodes l.slot).nextLevel
    ∧ level.prevLevel = (la.nodes l.slot).prevLevel
  := by
  have hq' : l.queue = [] ++ r :: q := hq
  use ((la.nodes l.slot).unlinkOrder r.slot oa).1, ((la.nodes l.slot).unlinkOrder r.slot oa).2
  refine ⟨h.popOrder_eq hq, (h.unlink hq').freeOrder, ?_, ?_⟩
  · rw [PriceLevelNode.unlinkOrder_fst]
  · rw [PriceLevelNode.unlinkOrder_fst]

/-- A full level arena refuses a level. -/
theorem allocLevel_nil (h : Storage oa la lost ls freeOrders []) (price : UInt64) :
  la.allocate price = .error .engineFull
  := by
  rw [PriceLevelArena.allocate, if_pos (h.levels.freeHead_eq_null_iff.mpr rfl)]

/-- A free level slot is allocated. -/
theorem allocLevel {j : Nat} (h : Storage oa la lost ls freeOrders (j :: freeLevels))
    (price : UInt64) :
  ∃ la', la.allocate price = .ok (j, la')
    ∧ Storage oa la' lost (Level.empty j price :: ls) freeOrders freeLevels
    ∧ ∀ k, k ≠ j → la'.nodes k = la.nodes k
  := by
  have hhead := h.levels.freeHead_eq
  have hne : la.freeHead ≠ NULL_IDX := by
    rw [ne_eq, h.levels.freeHead_eq_null_iff]
    apply List.cons_ne_nil
  rw [PriceLevelArena.allocate, if_neg hne]
  refine ⟨_, by rw [hhead], ?_, ?_⟩
  · constructor
    · apply h.orders
    · constructor
      · simp only [Function.comp_update]
        apply h.levels.pool.take
      · apply h.levels.len_eq
    · intro l hl
      rcases List.mem_cons.mp hl with rfl | hl
      · constructor <;>
          simp [Level.empty, Level.orderSlots, PriceLevelNode.default, Seg]
      · apply (h.stored l hl).congr
        · apply congrArg
          apply Function.update_of_ne
          apply h.levels.pool.ne_of_used_of_free (List.mem_map_of_mem hl) List.mem_cons_self
        · intro r _
          rfl
  · intro k hk
    apply Function.update_of_ne hk

/-- A level without orders is freed. -/
theorem freeLevel (h : Storage oa la lost (l :: ls) freeOrders freeLevels) (hq : l.queue = []) :
  Storage oa (la.deallocate l.slot) lost ls freeOrders (l.slot :: freeLevels)
  := by
  have hlt := h.levels.pool.lt_of_used (i := l.slot) (by simp)
  have hcond : ¬ (l.slot = NULL_IDX ∨ la.len ≤ l.slot) := by
    rw [h.levels.len_eq] at hlt ⊢
    unfold MAX_PRICE_LEVELS NULL_IDX at *
    omega
  constructor
  · have horders := h.orders
    rw [restingOf_cons, hq] at horders
    apply horders
  · rw [PriceLevelArena.deallocate, if_neg hcond]
    constructor
    · simp only [PriceLevelArena.comp_modify]
      apply h.levels.pool.give
    · apply h.levels.len_eq
  · intro l₁ hl₁
    apply (h.stored l₁ (List.mem_cons_of_mem l hl₁)).congr
    · rw [PriceLevelArena.nodes_deallocate_of_ne (h.level_slot_ne hl₁)]
    · intro r _
      rfl

/-- The links between levels are of no concern to the storage. -/
theorem relink (h : Storage oa la lost ls freeOrders freeLevels)
    (hbare : ∀ i, (la'.nodes i).bare = (la.nodes i).bare) (hlen : la'.len = la.len)
    (hhead : la'.freeHead = la.freeHead) :
  Storage oa la' lost ls freeOrders freeLevels where
  orders := h.orders
  levels :=
    { pool := by
        rw [hlen, hhead]
        apply h.levels.pool.congr
        · intro j _
          apply (congrArg PriceLevelNode.nextFree (hbare j) :)
        · funext j
          apply (congrArg PriceLevelNode.active (hbare j) :)
      len_eq := by rw [hlen, h.levels.len_eq] }
  stored l hl := (h.stored l hl).congr (hbare l.slot) (fun _ _ => rfl)

end Storage

end LimitOrderBook
