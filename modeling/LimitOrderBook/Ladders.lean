import LimitOrderBook.HasLayout

/-!
# Levels enter and leave the ladders

A level whose queue is empty is taken off its ladder (`HasLayout.retireLevel`), and a new
price gets a level at its place in the ladder (`HasLayout.openLevel`).  In both, all that
changes at the other levels is links, which is `Relinked`.
-/

namespace LimitOrderBook

open Intrusive

namespace OrderBook

variable {b b' : OrderBook} {L L' : Layout} {s : Side} {l l' : Level} {ls ls₁ ls₂ : List Level}
  {r : Resting} {q : List Resting}

/-! ### Links between levels -/

section Links

variable (b : OrderBook) (i p n : Nat)

@[simp]
theorem nextLevel_modifyLevel_next :
  PriceLevelNode.nextLevel ∘
      (b.modifyLevel i fun node => { node with nextLevel := n }).levelArena.nodes
    = Function.update (PriceLevelNode.nextLevel ∘ b.levelArena.nodes) i n
  := PriceLevelArena.comp_modify ..

@[simp]
theorem nextLevel_modifyLevel_prev :
  PriceLevelNode.nextLevel ∘
      (b.modifyLevel i fun node => { node with prevLevel := p }).levelArena.nodes
    = PriceLevelNode.nextLevel ∘ b.levelArena.nodes
  := PriceLevelArena.comp_modify_of_eq rfl

@[simp]
theorem nextLevel_modifyLevel_links :
  PriceLevelNode.nextLevel ∘
      (b.modifyLevel i fun node =>
        { node with prevLevel := p, nextLevel := n }).levelArena.nodes
    = Function.update (PriceLevelNode.nextLevel ∘ b.levelArena.nodes) i n
  := PriceLevelArena.comp_modify ..

@[simp]
theorem prevLevel_modifyLevel_prev :
  PriceLevelNode.prevLevel ∘
      (b.modifyLevel i fun node => { node with prevLevel := p }).levelArena.nodes
    = Function.update (PriceLevelNode.prevLevel ∘ b.levelArena.nodes) i p
  := PriceLevelArena.comp_modify ..

@[simp]
theorem prevLevel_modifyLevel_next :
  PriceLevelNode.prevLevel ∘
      (b.modifyLevel i fun node => { node with nextLevel := n }).levelArena.nodes
    = PriceLevelNode.prevLevel ∘ b.levelArena.nodes
  := PriceLevelArena.comp_modify_of_eq rfl

@[simp]
theorem prevLevel_modifyLevel_links :
  PriceLevelNode.prevLevel ∘
      (b.modifyLevel i fun node =>
        { node with prevLevel := p, nextLevel := n }).levelArena.nodes
    = Function.update (PriceLevelNode.prevLevel ∘ b.levelArena.nodes) i p
  := PriceLevelArena.comp_modify ..

end Links

/-- `b'` differs from `b` in the links between levels only. -/
structure Relinked (b b' : OrderBook) : Prop where
  bare : PriceLevelNode.bare ∘ b'.levelArena.nodes = PriceLevelNode.bare ∘ b.levelArena.nodes
  len : b'.levelArena.len = b.levelArena.len
  freeHead : b'.levelArena.freeHead = b.levelArena.freeHead
  orderArena : b'.orderArena = b.orderArena
  priceIndex : b'.priceIndex = b.priceIndex
  orderIndex : b'.orderIndex = b.orderIndex
  clientOrderIndex : b'.clientOrderIndex = b.clientOrderIndex
  tradeIdCounter : b'.tradeIdCounter = b.tradeIdCounter
  orderIdCounter : b'.orderIdCounter = b.orderIdCounter

namespace Relinked

theorem refl (b : OrderBook) : Relinked b b :=
  ⟨rfl, rfl, rfl, rfl, rfl, rfl, rfl, rfl, rfl⟩

/-- Relinking twice is relinking. -/
theorem trans {b₁ b₂ b₃ : OrderBook} (h : Relinked b₁ b₂) (h' : Relinked b₂ b₃) :
  Relinked b₁ b₃ where
  bare := h'.bare.trans h.bare
  len := h'.len.trans h.len
  freeHead := h'.freeHead.trans h.freeHead
  orderArena := h'.orderArena.trans h.orderArena
  priceIndex := h'.priceIndex.trans h.priceIndex
  orderIndex := h'.orderIndex.trans h.orderIndex
  clientOrderIndex := h'.clientOrderIndex.trans h.clientOrderIndex
  tradeIdCounter := h'.tradeIdCounter.trans h.tradeIdCounter
  orderIdCounter := h'.orderIdCounter.trans h.orderIdCounter

/-- The head of a ladder may be set. -/
theorem setBest (b : OrderBook) (s : Side) (i : Nat) :
  Relinked b (b.setBest s i)
  := by
  cases s <;> exact ⟨rfl, rfl, rfl, rfl, rfl, rfl, rfl, rfl, rfl⟩

/-- The links of a level may be set. -/
theorem modifyLevel (b : OrderBook) (i : Nat) {f : PriceLevelNode → PriceLevelNode}
    (hf : ∀ n, (f n).bare = n.bare) :
  Relinked b (b.modifyLevel i f)
  := ⟨PriceLevelArena.comp_modify_of_eq (hf _), rfl, rfl, rfl, rfl, rfl, rfl, rfl, rfl⟩

/-- Relinking leaves the queues and the free lists. -/
theorem storage {lost freeOrders freeLevels : List Nat} (h : Relinked b b')
    (hst : Storage b.orderArena b.levelArena lost ls freeOrders freeLevels) :
  Storage b'.orderArena b'.levelArena lost ls freeOrders freeLevels
  := by
  rw [h.orderArena]
  apply hst.relink (congrFun h.bare) h.len h.freeHead

end Relinked

/-! ### A level is retired -/

section Unlink

variable (b : OrderBook) (i : Nat) (s : Side)

theorem nextLevel_unlinkPriceLevel :
  PriceLevelNode.nextLevel ∘ (b.unlinkPriceLevel i (s == .sell)).levelArena.nodes
    = Function.update
        (if (b.levelArena.nodes i).prevLevel = NULL_IDX then
          PriceLevelNode.nextLevel ∘ b.levelArena.nodes
        else Function.update (PriceLevelNode.nextLevel ∘ b.levelArena.nodes)
          (b.levelArena.nodes i).prevLevel (b.levelArena.nodes i).nextLevel)
        i NULL_IDX
  := by
  unfold unlinkPriceLevel
  by_cases hp : (b.levelArena.nodes i).prevLevel = NULL_IDX <;>
    by_cases hn : (b.levelArena.nodes i).nextLevel = NULL_IDX <;>
      cases s <;> simp [hp, hn]

theorem prevLevel_unlinkPriceLevel :
  PriceLevelNode.prevLevel ∘ (b.unlinkPriceLevel i (s == .sell)).levelArena.nodes
    = Function.update
        (if (b.levelArena.nodes i).nextLevel = NULL_IDX then
          PriceLevelNode.prevLevel ∘ b.levelArena.nodes
        else Function.update (PriceLevelNode.prevLevel ∘ b.levelArena.nodes)
          (b.levelArena.nodes i).nextLevel (b.levelArena.nodes i).prevLevel)
        i NULL_IDX
  := by
  unfold unlinkPriceLevel
  by_cases hp : (b.levelArena.nodes i).prevLevel = NULL_IDX <;>
    by_cases hn : (b.levelArena.nodes i).nextLevel = NULL_IDX <;>
      cases s <;> simp [hp, hn]

/-- Unlinking the first level makes the next one the best. -/
theorem best_unlinkPriceLevel :
  (b.unlinkPriceLevel i (s == .sell)).best s
    = if (b.levelArena.nodes i).prevLevel = NULL_IDX then (b.levelArena.nodes i).nextLevel
      else b.best s
  := by
  unfold unlinkPriceLevel
  by_cases hp : (b.levelArena.nodes i).prevLevel = NULL_IDX <;>
    by_cases hn : (b.levelArena.nodes i).nextLevel = NULL_IDX <;>
      cases s <;> simp [hp, hn, modifyLevel, best]

/-- Unlinking a level leaves the head of the other side. -/
theorem best_unlinkPriceLevel_of_ne {s' : Side} (hs : s' ≠ s) :
  (b.unlinkPriceLevel i (s == .sell)).best s' = b.best s'
  := by
  unfold unlinkPriceLevel
  by_cases hp : (b.levelArena.nodes i).prevLevel = NULL_IDX <;>
    by_cases hn : (b.levelArena.nodes i).nextLevel = NULL_IDX <;>
      cases s <;> cases s' <;> simp [hp, hn, modifyLevel, best] at hs ⊢

/-- Unlinking a level changes nothing but links. -/
theorem relinked_unlinkPriceLevel :
  Relinked b (b.unlinkPriceLevel i (s == .sell))
  := by
  -- the assignment in front of the level
  have hfirst : ∀ p n, Relinked b
      (if p ≠ NULL_IDX then b.modifyLevel p fun node => { node with nextLevel := n }
      else if s == .sell then { b with bestAsk := n }
      else { b with bestBid := n }) := by
    intro p n
    split
    · apply Relinked.modifyLevel b p (by intro _; rfl)
    · cases s
      · apply Relinked.setBest b .buy
      · apply Relinked.setBest b .sell
  unfold unlinkPriceLevel
  dsimp only
  refine Relinked.trans ?_ (Relinked.modifyLevel _ i (by intro _; rfl))
  split
  · refine (hfirst _ _).trans (Relinked.modifyLevel _ _ (by intro _; rfl))
  · apply hfirst

theorem nextLevel_retireLevel_of_ne (price : UInt64) {j : Nat} (hj : j ≠ i) :
  (PriceLevelNode.nextLevel ∘ (b.retireLevel i price (s == .sell)).levelArena.nodes) j
    = (if (b.levelArena.nodes i).prevLevel = NULL_IDX then
        PriceLevelNode.nextLevel ∘ b.levelArena.nodes
      else Function.update (PriceLevelNode.nextLevel ∘ b.levelArena.nodes)
        (b.levelArena.nodes i).prevLevel (b.levelArena.nodes i).nextLevel) j
  := by
  have hunlink := congrFun (nextLevel_unlinkPriceLevel b i s) j
  rw [Function.update_of_ne hj] at hunlink
  rw [← hunlink]
  apply congrArg PriceLevelNode.nextLevel (PriceLevelArena.nodes_deallocate_of_ne hj)

theorem prevLevel_retireLevel_of_ne (price : UInt64) {j : Nat} (hj : j ≠ i) :
  (PriceLevelNode.prevLevel ∘ (b.retireLevel i price (s == .sell)).levelArena.nodes) j
    = (if (b.levelArena.nodes i).nextLevel = NULL_IDX then
        PriceLevelNode.prevLevel ∘ b.levelArena.nodes
      else Function.update (PriceLevelNode.prevLevel ∘ b.levelArena.nodes)
        (b.levelArena.nodes i).nextLevel (b.levelArena.nodes i).prevLevel) j
  := by
  have hunlink := congrFun (prevLevel_unlinkPriceLevel b i s) j
  rw [Function.update_of_ne hj] at hunlink
  rw [← hunlink]
  apply congrArg PriceLevelNode.prevLevel (PriceLevelArena.nodes_deallocate_of_ne hj)

/-- Retiring a level sets the heads as unlinking it does. -/
theorem best_retireLevel (price : UInt64) (s' : Side) :
  (b.retireLevel i price (s == .sell)).best s' = (b.unlinkPriceLevel i (s == .sell)).best s'
  := by
  cases s' <;> rfl

end Unlink

namespace HasLayout

/-- A level is on one side only. -/
theorem notMem_of_other_ladder (h : b.HasLayout L) {s' : Side} (hs : s' ≠ s)
    (hl : l ∈ L.ladder s') :
  l.slot ∉ (L.ladder s).map (·.slot)
  := by
  have hopp := Side.eq_opposite_of_ne hs
  intro hmem
  obtain ⟨l₁, hl₁, heq⟩ := List.mem_map.mp hmem
  apply h.ladder_disjoint hl₁ (hopp ▸ hl) heq.symm

/-- There is one level for each price. -/
theorem slot_eq_of_price_eq (h : b.HasLayout L) (hl : l ∈ L.levels) (hl' : l' ∈ L.levels)
    (hprice : l.price = l'.price) :
  l.slot = l'.slot
  := by
  have hi := (h.priceIndex_iff l.price l.slot).mpr ⟨l, hl, rfl, rfl⟩
  have hi' := (h.priceIndex_iff l.price l'.slot).mpr ⟨l', hl', hprice.symm, rfl⟩
  rw [hi] at hi'
  apply Option.some.inj hi'

/-- What unlinking an empty level does to the ladders. -/
theorem linked_retireLevel (h : b.HasLayout L) (hl : L.ladder s = ls₁ ++ l :: ls₂)
    (price : UInt64) (s' : Side) :
  (b.retireLevel l.slot price (s == .sell)).Linked s'
    (Function.update L.ladder s (ls₁ ++ ls₂) s')
  := by
  have hmap : (L.ladder s).map (·.slot) = ls₁.map (·.slot) ++ l.slot :: ls₂.map (·.slot) := by
    rw [hl, List.map_append, List.map_cons]
  have hmem : l.slot ∈ (L.ladder s).map (·.slot) := by
    rw [hmap]
    simp
  obtain ⟨t, ht⟩ := h.linked s
  have hnull := h.null_notMem_ladder s
  have hnd := h.ladder_nodup s
  rw [hmap] at ht hnull hnd
  rcases eq_or_ne s' s with rfl | hs
  · have hne : ∀ i ∈ ls₁.map (·.slot) ++ ls₂.map (·.slot), i ≠ l.slot := by
      rintro i hi rfl
      have hnd' := (List.perm_middle.nodup_iff).mp hnd
      exact (List.nodup_cons.mp hnd').1 hi
    rw [Function.update_self]
    use if (b.levelArena.nodes l.slot).nextLevel = NULL_IDX then
        (b.levelArena.nodes l.slot).prevLevel else t
    rw [best_retireLevel, best_unlinkPriceLevel, List.map_append]
    apply (ht.unlink hnull hnd).congr
    · intro i hi
      rw [nextLevel_retireLevel_of_ne b l.slot s' price (hne i hi)]
      rfl
    · intro i hi
      rw [prevLevel_retireLevel_of_ne b l.slot s' price (hne i hi)]
      rfl
  · rw [Function.update_of_ne hs]
    have hne : ∀ i, i ∉ (L.ladder s).map (·.slot) → i ≠ l.slot := by
      rintro i hi rfl
      exact hi hmem
    apply (h.linked s').of_notMem (S := (L.ladder s).map (·.slot))
    · rw [best_retireLevel, best_unlinkPriceLevel_of_ne b l.slot s hs]
    · intro l' hl'
      apply h.notMem_of_other_ladder hs hl'
    · intro i hi
      rw [nextLevel_retireLevel_of_ne b l.slot s price (hne i hi)]
      apply ite_update_of_notMem _ hi
      rw [hmap]
      apply ht.prev_eq_or_mem.imp_right
      apply List.mem_append_left
    · intro i hi
      rw [prevLevel_retireLevel_of_ne b l.slot s price (hne i hi)]
      apply ite_update_of_notMem _ hi
      rw [hmap]
      apply ht.next_eq_or_mem.imp_right
      intro hi'
      apply List.mem_append_right _ (List.mem_cons_of_mem _ hi')

/-- An empty level is taken off its ladder and its slot freed. -/
theorem retireLevel (h : b.HasLayout L) (hl : L.ladder s = ls₁ ++ l :: ls₂) (hq : l.queue = []) :
  (b.retireLevel l.slot l.price (s == .sell)).HasLayout
    { L with
      ladder := Function.update L.ladder s (ls₁ ++ ls₂)
      freeLevels := l.slot :: L.freeLevels }
  := by
  have hlinks := relinked_unlinkPriceLevel b l.slot s
  have hst := h.storage_of_eq hl
  have hperm : L.levels.Perm (l :: (ls₁ ++ ls₂ ++ L.ladder s.opposite)) :=
    Layout.levels_perm_of_eq hl
  have hperm' : (Layout.levels
      { L with
        ladder := Function.update L.ladder s (ls₁ ++ ls₂)
        freeLevels := l.slot :: L.freeLevels }).Perm (ls₁ ++ ls₂ ++ L.ladder s.opposite) :=
    Layout.levels_perm_of_update rfl
  obtain ⟨hvalid, hlookup⟩ := FastPriceIndex.remove_spec h.priceIndex_valid l.price
  have hprices : (b.retireLevel l.slot l.price (s == .sell)).priceIndex
      = (b.priceIndex.remove l.price).2 := by
    simp only [OrderBook.retireLevel, hlinks.priceIndex]
  constructor
  · apply ((hlinks.storage hst).freeLevel hq).perm hperm'.symm
  · apply h.linked_retireLevel hl
  · rw [hprices]
    apply hvalid
  · intro p i
    rw [hprices, hlookup]
    have hmem : l ∈ L.levels := hperm.mem_iff.mpr List.mem_cons_self
    split
    · -- no other level has the price
      next hp =>
        simp only [reduceCtorEq, false_iff, not_exists, not_and]
        intro l' hl' hprice
        rw [hperm'.mem_iff] at hl'
        have hmem' : l' ∈ L.levels := hperm.mem_iff.mpr (List.mem_cons_of_mem l hl')
        have hslot := h.slot_eq_of_price_eq hmem' hmem (hprice.trans hp)
        exact absurd hslot (hst.level_slot_ne hl')
    · next hp =>
        rw [h.priceIndex_iff]
        simp only [hperm.mem_iff, hperm'.mem_iff, List.exists_mem_cons_iff]
        constructor
        · rintro (⟨hprice, -⟩ | hex)
          · exact absurd hprice.symm hp
          · apply hex
        · apply Or.inr
  · apply hlinks.orderIndex ▸ h.orderIndex_valid
  · apply hlinks.orderIndex ▸ h.orderIndex_eq
  · apply hlinks.clientOrderIndex ▸ h.clientIndex_valid
  · apply hlinks.clientOrderIndex ▸ h.clientIndex_eq
  · apply hlinks.tradeIdCounter.trans h.tradeIdCounter_eq
  · apply hlinks.orderIdCounter.trans h.orderIdCounter_eq

end HasLayout

/-! ### A level is opened -/

/-- The walk down a ladder stops at the level behind which `restLadder` puts a new price. -/
theorem walk_eq {nodes : Nat → PriceLevelNode} {fuel i : Nat}
    (hchain : Chain (PriceLevelNode.nextLevel ∘ nodes) NULL_IDX l.slot ((l :: ls).map (·.slot)))
    (hnull : NULL_IDX ∉ ls.map (·.slot)) (hfuel : ls.length ≤ fuel)
    (hprice : ∀ l' ∈ l :: ls, (nodes l'.slot).price = l'.price)
    (hfresh : ∀ l' ∈ l :: ls, l'.price ≠ r.order.price)
    (hhead : s.before r.order.price l.price = false) :
  ∃ ls₁ l₁ ls₂, l :: ls = ls₁ ++ l₁ :: ls₂
    ∧ While.run (walkStep nodes s.before r.order.price) fuel l.slot = l₁.slot
    ∧ restLadder s r i (l :: ls)
      = ls₁ ++ l₁ :: (Level.empty i r.order.price).push r :: ls₂
  := by
  have hlfresh := hfresh l List.mem_cons_self
  induction ls generalizing l fuel with
  | nil =>
      have hend : (nodes l.slot).nextLevel = NULL_IDX := hchain.2
      use [], l, []
      refine ⟨rfl, ?_, ?_⟩
      · apply While.run_of_none
        simp [walkStep, hend]
      · simp [restLadder, hlfresh, hhead]
  | cons l' ls ih =>
      obtain ⟨-, hchain⟩ := hchain
      have hnext : (nodes l.slot).nextLevel = l'.slot := hchain.1
      have hne : l'.slot ≠ NULL_IDX := by
        intro heq
        apply hnull
        simp [heq]
      have hprice' : (nodes l'.slot).price = l'.price := hprice l' (by simp)
      have hfresh' : l'.price ≠ r.order.price := hfresh l' (by simp)
      have hrest : restLadder s r i (l :: l' :: ls) = l :: restLadder s r i (l' :: ls) := by
        rw [restLadder, if_neg hlfresh, if_neg (by simp [hhead])]
      by_cases hbefore : s.before l'.price r.order.price
      · -- the walk goes on
        cases fuel with
        | zero => simp at hfuel
        | succ fuel =>
            have hstep : walkStep nodes s.before r.order.price l.slot = some l'.slot := by
              simp [walkStep, hnext, hne, hprice', hbefore]
            have hfuel' : ls.length ≤ fuel := by simpa using hfuel
            obtain ⟨ls₁, l₁, ls₂, hls, hrun, hrest'⟩ := ih
              (by rw [← hnext]; apply hchain)
              (fun hmem => hnull (List.mem_cons_of_mem _ hmem)) hfuel'
              (fun l₂ hl₂ => hprice l₂ (List.mem_cons_of_mem l hl₂))
              (fun l₂ hl₂ => hfresh l₂ (List.mem_cons_of_mem l hl₂))
              (Side.before_asymm hbefore) hfresh'
            use l :: ls₁, l₁, ls₂
            refine ⟨by rw [hls]; rfl, ?_, ?_⟩
            · rw [While.run_of_some hstep, hrun]
            · rw [hrest, hrest']
              rfl
      · use [], l, l' :: ls
        have hafter := Side.before_of_ne hfresh'.symm (by simpa using hbefore)
        refine ⟨rfl, ?_, ?_⟩
        · apply While.run_of_none
          simp [walkStep, hnext, hprice', hbefore]
        · rw [hrest, restLadder, if_neg hfresh', if_pos hafter]
          rfl

/-- Where a new level goes: between the levels `ls₁` and `ls₂`, the last of the former
being `p` and the first of the latter `n`, if there are any. -/
structure Inserted (b b' : OrderBook) (s : Side) (i : Nat) (r : Resting) (ls : List Level) :
    Prop where
  relinked : Relinked b b'
  best_of_ne : ∀ s', s' ≠ s → b'.best s' = b.best s'
  split : ∃ ls₁ ls₂ p n t, ls = ls₁ ++ ls₂
    ∧ restLadder s r i ls = ls₁ ++ (Level.empty i r.order.price).push r :: ls₂
    ∧ Seg (PriceLevelNode.nextLevel ∘ b.levelArena.nodes)
        (PriceLevelNode.prevLevel ∘ b.levelArena.nodes) NULL_IDX (b.best s) (ls₁.map (·.slot)) p n
    ∧ Seg (PriceLevelNode.nextLevel ∘ b.levelArena.nodes)
        (PriceLevelNode.prevLevel ∘ b.levelArena.nodes) p n (ls₂.map (·.slot)) t NULL_IDX
    ∧ b'.best s = (if p = NULL_IDX then i else b.best s)
    ∧ PriceLevelNode.nextLevel ∘ b'.levelArena.nodes
      = Function.update
          (if p = NULL_IDX then PriceLevelNode.nextLevel ∘ b.levelArena.nodes
          else Function.update (PriceLevelNode.nextLevel ∘ b.levelArena.nodes) p i) i n
    ∧ PriceLevelNode.prevLevel ∘ b'.levelArena.nodes
      = Function.update
          (if n = NULL_IDX then PriceLevelNode.prevLevel ∘ b.levelArena.nodes
          else Function.update (PriceLevelNode.prevLevel ∘ b.levelArena.nodes) n i) i p

@[simp]
theorem best_setBest {i : Nat} :
  (b.setBest s i).best s = i
  := by
  cases s <;> rfl

theorem best_setBest_of_ne {i : Nat} {s' : Side} (hs : s' ≠ s) :
  (b.setBest s i).best s' = b.best s'
  := by
  cases s <;> cases s' <;> simp [setBest, best] at hs ⊢

@[simp]
theorem levelArena_setBest {i : Nat} :
  (b.setBest s i).levelArena = b.levelArena
  := by
  cases s <;> rfl

@[simp]
theorem best_modifyLevel {i : Nat} {f : PriceLevelNode → PriceLevelNode} :
  (b.modifyLevel i f).best s = b.best s
  := by
  cases s <;> rfl

/-- Linking a level into an empty ladder. -/
theorem inserted_linkLadder_nil {i : Nat} (hbest : b.best s = NULL_IDX) :
  Inserted b (b.linkLadder s s.before i) s i r []
  := by
  rw [linkLadder, if_pos hbest]
  constructor
  · apply (Relinked.setBest b s i).trans (Relinked.modifyLevel _ i (by intro _; rfl))
  · intro s' hs
    rw [best_modifyLevel, best_setBest_of_ne hs]
  · use [], [], NULL_IDX, NULL_IDX, NULL_IDX
    refine ⟨rfl, rfl, ⟨hbest, rfl⟩, ⟨rfl, rfl⟩, ?_, ?_, ?_⟩ <;> simp

/-- The new price is better than all of the ladder. -/
theorem inserted_linkLadder_head {i t : Nat}
    (ht : Seg (PriceLevelNode.nextLevel ∘ b.levelArena.nodes)
      (PriceLevelNode.prevLevel ∘ b.levelArena.nodes) NULL_IDX (b.best s)
      ((l :: ls).map (·.slot)) t NULL_IDX)
    (hne : b.best s ≠ NULL_IDX) (hi : i ≠ l.slot)
    (hprice : (b.levelArena.nodes l.slot).price = l.price) (hfresh : l.price ≠ r.order.price)
    (hnew : (b.levelArena.nodes i).price = r.order.price)
    (hhead : s.before r.order.price l.price) :
  Inserted b (b.linkLadder s s.before i) s i r (l :: ls)
  := by
  have hbest : b.best s = l.slot := ht.head_eq
  rw [linkLadder, hnew, if_neg hne, hbest, hprice, if_pos hhead]
  rw [hbest] at hne
  constructor
  · refine Relinked.trans ?_ (Relinked.setBest _ s i)
    refine Relinked.trans ?_ (Relinked.modifyLevel _ _ (by intro _; rfl))
    apply Relinked.modifyLevel _ _ (by intro _; rfl)
  · intro s' hs
    rw [best_setBest_of_ne hs, best_modifyLevel, best_modifyLevel]
  · use [], l :: ls, NULL_IDX, l.slot, t
    refine ⟨rfl, ?_, ⟨hbest, rfl⟩, hbest ▸ ht, ?_, ?_, ?_⟩
    · rw [restLadder, if_neg hfresh, if_pos hhead]
      rfl
    · simp
    · simp
    · simp [hne, Function.update_comm hi]

/-- The new price belongs behind the level `l`, where the walk has stopped. -/
theorem inserted_linkLadder_behind {i t : Nat} {ls₁ ls₂ : List Level}
    (ht : Seg (PriceLevelNode.nextLevel ∘ b.levelArena.nodes)
      (PriceLevelNode.prevLevel ∘ b.levelArena.nodes) NULL_IDX (b.best s)
      ((ls₁ ++ l :: ls₂).map (·.slot)) t NULL_IDX)
    (hnull : NULL_IDX ∉ (ls₁ ++ l :: ls₂).map (·.slot))
    (hi : i ∉ (ls₁ ++ l :: ls₂).map (·.slot)) (hbest : b.best s ≠ NULL_IDX)
    (hnew : (b.levelArena.nodes i).price = r.order.price)
    (hhead : s.before r.order.price (b.levelArena.nodes (b.best s)).price = false)
    (hrun : While.run (walkStep b.levelArena.nodes s.before r.order.price) MAX_PRICE_LEVELS
      (b.best s) = l.slot)
    (hrest : restLadder s r i (ls₁ ++ l :: ls₂)
      = ls₁ ++ l :: (Level.empty i r.order.price).push r :: ls₂) :
  Inserted b (b.linkLadder s s.before i) s i r (ls₁ ++ l :: ls₂)
  := by
  rw [List.map_append, List.map_cons] at ht hnull hi
  obtain ⟨hseg₁, hseg₂⟩ := ht.split
  have hne : l.slot ≠ NULL_IDX := by
    intro heq
    apply hnull
    simp [heq]
  -- the level behind `l`, if there is one, is on the ladder
  have hnext : (b.levelArena.nodes l.slot).nextLevel = NULL_IDX
      ∨ i ≠ (b.levelArena.nodes l.slot).nextLevel := by
    apply ht.next_eq_or_mem.imp_right
    rintro hmem rfl
    apply hi
    apply List.mem_append_right _ (List.mem_cons_of_mem _ hmem)
  rw [linkLadder, hnew, if_neg hbest, if_neg (by simp [hhead]), hrun]
  constructor
  · dsimp only
    split
    · refine Relinked.trans ?_ (Relinked.modifyLevel _ _ (by intro _; rfl))
      refine Relinked.trans ?_ (Relinked.modifyLevel _ _ (by intro _; rfl))
      apply Relinked.modifyLevel _ _ (by intro _; rfl)
    · refine Relinked.trans ?_ (Relinked.modifyLevel _ _ (by intro _; rfl))
      apply Relinked.modifyLevel _ _ (by intro _; rfl)
  · intro s' hs
    dsimp only
    split <;> simp
  · use ls₁ ++ [l], ls₂, l.slot, (b.levelArena.nodes l.slot).nextLevel, t
    refine ⟨by simp, by simp [hrest], ?_, hseg₂, ?_, ?_, ?_⟩
    · rw [List.map_append]
      refine seg_append.mpr ⟨_, _, hseg₁, ?_⟩
      exact ⟨rfl, rfl, rfl, rfl⟩
    · dsimp only
      split <;> simp
    · dsimp only
      split <;> simp
    · dsimp only
      by_cases hn : (b.levelArena.nodes l.slot).nextLevel = NULL_IDX
      · simp [hn]
      · simp [hn, Function.update_comm (hnext.resolve_left hn)]

/-- Linking a level puts it at its place in a ladder. -/
theorem inserted_linkLadder {i : Nat} (hlinked : b.Linked s ls)
    (hnull : NULL_IDX ∉ ls.map (·.slot)) (hi : i ∉ ls.map (·.slot))
    (hfuel : ls.length ≤ MAX_PRICE_LEVELS)
    (hprice : ∀ l ∈ ls, (b.levelArena.nodes l.slot).price = l.price)
    (hfresh : ∀ l ∈ ls, l.price ≠ r.order.price)
    (hnew : (b.levelArena.nodes i).price = r.order.price) :
  Inserted b (b.linkLadder s s.before i) s i r ls
  := by
  obtain ⟨t, ht⟩ := hlinked
  cases ls with
  | nil => exact inserted_linkLadder_nil ht.1
  | cons l ls =>
      have hbest : b.best s = l.slot := ht.head_eq
      obtain ⟨hnl, hnull'⟩ := List.ne_and_not_mem_of_not_mem_cons hnull
      have hne : b.best s ≠ NULL_IDX := hbest ▸ hnl.symm
      have hli := (List.ne_and_not_mem_of_not_mem_cons hi).1
      have hlprice := hprice l List.mem_cons_self
      have hlfresh := hfresh l List.mem_cons_self
      by_cases hhead : s.before r.order.price l.price
      · apply inserted_linkLadder_head ht hne hli hlprice hlfresh hnew hhead
      · rw [Bool.not_eq_true] at hhead
        have hfuel' : ls.length ≤ MAX_PRICE_LEVELS := by
          rw [List.length_cons] at hfuel
          omega
        obtain ⟨ls₁, l₁, ls₂, hls, hrun, hrest⟩ := walk_eq (i := i) (hbest ▸ ht.chain) hnull'
          hfuel' hprice hfresh hhead
        rw [← hlprice, ← hbest] at hhead
        rw [← hbest] at hrun
        rw [hls] at ht hnull hi hrest ⊢
        apply inserted_linkLadder_behind ht hnull hi hne hnew hhead hrun hrest

/-- The ladder with the new level is linked, and so are the other ladders. -/
theorem Inserted.linked {j : Nat} (h : Inserted b b' s j r ls) (hj : NULL_IDX ≠ j)
    (hnull : NULL_IDX ∉ ls.map (·.slot)) (hnodup : (ls.map (·.slot)).Nodup)
    (hnew : j ∉ ls.map (·.slot)) :
  ∃ ls₁ ls₂, ls = ls₁ ++ ls₂
    ∧ restLadder s r j ls = ls₁ ++ (Level.empty j r.order.price).push r :: ls₂
    ∧ b'.Linked s (ls₁ ++ Level.empty j r.order.price :: ls₂)
    ∧ ∀ s', s' ≠ s → ∀ ls', b.Linked s' ls' →
      (∀ l ∈ ls', l.slot ∉ j :: ls.map (·.slot)) → b'.Linked s' ls'
  := by
  obtain ⟨ls₁, ls₂, p, n, t, hls, hrest, hseg₁, hseg₂, hbest, hnext, hprev⟩ := h.split
  refine ⟨ls₁, ls₂, hls, hrest, ?_, ?_⟩
  · rw [hls, List.map_append] at hnull hnodup hnew
    refine ⟨if n = NULL_IDX then j else t, ?_⟩
    rw [hnext, hprev, hbest, List.map_append, List.map_cons]
    apply hseg₁.insert hseg₂
    · rw [List.perm_middle.mem_iff]
      apply List.not_mem_cons_of_ne_of_not_mem hj hnull
    · rw [List.perm_middle.nodup_iff]
      apply List.nodup_cons.mpr ⟨hnew, hnodup⟩
  · intro s' hs ls' hlinked hother
    apply hlinked.of_notMem (h.best_of_ne s' hs) hother
    · intro i hi
      obtain ⟨hij, hi⟩ := List.ne_and_not_mem_of_not_mem_cons hi
      rw [hnext, Function.update_of_ne hij]
      apply ite_update_of_notMem _ hi
      rw [hls, List.map_append]
      apply hseg₁.tail_eq_or_mem.imp_right
      apply List.mem_append_left
    · intro i hi
      obtain ⟨hij, hi⟩ := List.ne_and_not_mem_of_not_mem_cons hi
      rw [hprev, Function.update_of_ne hij]
      apply ite_update_of_notMem _ hi
      rw [hls, List.map_append]
      apply hseg₂.head_eq_or_mem.imp_right
      apply List.mem_append_right

/-- The code links a level into the ladder of its side. -/
theorem linkPriceLevel_eq (b : OrderBook) (i : Nat) (s : Side) :
  b.linkPriceLevel i (s == .sell) = b.linkLadder s s.before i
  := by
  cases s <;> rfl

namespace HasLayout

/-- The price index has room for one more price. -/
theorem priceIndex_count_lt (h : b.HasLayout L) :
  b.priceIndex.count < FastPriceIndex.scheme.limit
  := by
  have hle : b.priceIndex.count ≤ (L.levels.map (·.price)).length := by
    apply FastPriceIndex.count_le_length h.priceIndex_valid
    intro p i hlookup
    obtain ⟨l, hl, rfl, -⟩ := (h.priceIndex_iff p i).mp hlookup
    apply List.mem_map_of_mem hl
  have hlen := h.storage.levels.pool.length_add
  rw [h.storage.levels.len_eq] at hlen
  have hlimit : MAX_PRICE_LEVELS < FastPriceIndex.scheme.limit := by decide
  simp only [List.length_map] at hle hlen
  omega

/-- The price index when a new price has been entered in it. -/
theorem priceIndex_iff_insert (h : b.HasLayout L) {price : UInt64} {j : Nat}
    (hfresh : ∀ l ∈ L.levels, l.price ≠ price) {ls : List Level}
    (hperm : ls.Perm (Level.empty j price :: L.levels)) (q : UInt64) (i : Nat) :
  (if q = price then some j else b.priceIndex.lookup q) = some i
    ↔ ∃ l ∈ ls, l.price = q ∧ l.slot = i
  := by
  simp only [hperm.mem_iff, List.exists_mem_cons_iff]
  split
  · next hq =>
      rw [hq]
      constructor
      · intro hi
        apply Or.inl ⟨rfl, Option.some.inj hi⟩
      · rintro (⟨-, hi⟩ | ⟨l, hl, hprice, -⟩)
        · rw [← hi]
          rfl
        · exact absurd hprice (hfresh l hl)
  · next hq =>
      rw [h.priceIndex_iff]
      constructor
      · apply Or.inr
      · rintro (⟨hprice, -⟩ | hex)
        · exact absurd hprice.symm hq
        · apply hex

/-- A price without a level is not in the price index. -/
theorem lookup_eq_none (h : b.HasLayout L) {price : UInt64}
    (hfresh : ∀ l ∈ L.levels, l.price ≠ price) :
  b.priceIndex.lookup price = none
  := by
  apply Option.eq_none_iff_forall_ne_some.mpr
  intro i hi
  obtain ⟨l, hl, hprice, -⟩ := (h.priceIndex_iff _ i).mp hi
  exact hfresh l hl hprice

/-- A level that is not on the ladders is written; the ladders stay linked. -/
theorem linked_of_nodes_eq (h : b.HasLayout L) {j : Nat} (hj : ∀ l ∈ L.levels, l.slot ≠ j)
    {la : PriceLevelArena} {priceIndex : FastPriceIndex}
    (hnodes : ∀ i, i ≠ j → la.nodes i = b.levelArena.nodes i) (s : Side) :
  OrderBook.Linked { b with levelArena := la, priceIndex := priceIndex } s (L.ladder s)
  := by
  apply (h.linked s).of_notMem (S := [j])
  · cases s <;> rfl
  · intro l hl
    simpa using hj l (Layout.mem_levels.mpr ⟨s, hl⟩)
  · intro i hi
    simp only [Function.comp_apply, hnodes i (by simpa using hi)]
  · intro i hi
    simp only [Function.comp_apply, hnodes i (by simpa using hi)]

/-- A new level is one more level of the book. -/
theorem levels_perm_openLevel {s : Side} {ls₁ ls₂ : List Level} (hls : L.ladder s = ls₁ ++ ls₂)
    (l : Level) (freeLevels : List Nat) :
  (Layout.levels
    { L with
      ladder := Function.update L.ladder s (ls₁ ++ l :: ls₂)
      freeLevels := freeLevels }).Perm (l :: L.levels)
  := by
  apply (Layout.levels_perm_of_update rfl).trans
  rw [List.append_assoc, List.cons_append]
  apply List.perm_middle.trans
  rw [← List.append_assoc, ← hls]
  apply (L.levels_perm s).symm.cons

/-- A new level, stored but not yet linked, is inserted in its ladder. -/
theorem inserted_linkLadder_openLevel (h : b.HasLayout L) {la : PriceLevelArena}
    {priceIndex : FastPriceIndex} {j : Nat} {freeOrders freeLevels : List Nat}
    (hst : Storage b.orderArena la L.lostOrders (Level.empty j r.order.price :: L.levels)
      freeOrders freeLevels)
    (hnodes : ∀ i, i ≠ j → la.nodes i = b.levelArena.nodes i)
    (hfresh : ∀ l ∈ L.levels, l.price ≠ r.order.price) (s : Side) :
  Inserted { b with levelArena := la, priceIndex := priceIndex }
    ({ b with levelArena := la, priceIndex := priceIndex }.linkLadder s s.before j) s j r
    (L.ladder s)
  := by
  have hj : ∀ l ∈ L.levels, l.slot ≠ j := fun l hl => hst.level_slot_ne hl
  apply inserted_linkLadder (h.linked_of_nodes_eq hj hnodes s) (h.null_notMem_ladder s) _
    (h.ladder_length_le s)
  · intro l hl
    have hmem := Layout.mem_levels.mpr ⟨s, hl⟩
    simp only [hnodes l.slot (hj l hmem)]
    apply (h.stored hmem).price_eq
  · intro l hl
    apply hfresh l (Layout.mem_levels.mpr ⟨s, hl⟩)
  · apply (hst.stored _ List.mem_cons_self).price_eq
  · intro hmem
    obtain ⟨l, hl, hslot⟩ := List.mem_map.mp hmem
    exact hj l (Layout.mem_levels.mpr ⟨s, hl⟩) hslot

/-- A new price gets a level of its own, still without orders. -/
theorem openLevel (h : b.HasLayout L) {j : Nat} {freeLevels : List Nat}
    (hfree : L.freeLevels = j :: freeLevels)
    (hfresh : ∀ l ∈ L.levels, l.price ≠ r.order.price) (s : Side) :
  ∃ b' ls₁ ls₂, b.levelFor r.order.price (s == .sell) = (.ok j, b')
    ∧ L.ladder s = ls₁ ++ ls₂
    ∧ restLadder s r j (L.ladder s) = ls₁ ++ (Level.empty j r.order.price).push r :: ls₂
    ∧ b'.HasLayout
      { L with
        ladder := Function.update L.ladder s (ls₁ ++ Level.empty j r.order.price :: ls₂)
        freeLevels := freeLevels }
    ∧ b'.orderArena = b.orderArena ∧ b'.orderIndex = b.orderIndex
    ∧ b'.clientOrderIndex = b.clientOrderIndex
  := by
  have hst := h.storage
  rw [hfree] at hst
  obtain ⟨la, halloc, hst', hnodes⟩ := hst.allocLevel r.order.price
  obtain ⟨priceIndex, hins, hvalid, hlookup⟩ := FastPriceIndex.insert_spec h.priceIndex_valid
    h.priceIndex_count_lt r.order.price j
  have hj : ∀ l ∈ L.levels, l.slot ≠ j := fun l hl => hst'.level_slot_ne hl
  have hj' : ∀ s', j ∉ (L.ladder s').map (·.slot) := by
    intro s' hmem
    obtain ⟨l, hl, hslot⟩ := List.mem_map.mp hmem
    exact hj l (Layout.mem_levels.mpr ⟨s', hl⟩) hslot
  -- the book before the new level is linked
  let b₁ : OrderBook := { b with levelArena := la, priceIndex := priceIndex }
  have hlinked : ∀ s', b₁.Linked s' (L.ladder s') := h.linked_of_nodes_eq hj hnodes
  have hinserted : Inserted b₁ (b₁.linkLadder s s.before j) s j r (L.ladder s) :=
    h.inserted_linkLadder_openLevel hst' hnodes hfresh s
  have hrelinked := hinserted.relinked
  have hne : NULL_IDX ≠ j := by
    have hlt := hst.levels.pool.lt_of_free (i := j) List.mem_cons_self
    rw [hst.levels.len_eq] at hlt
    unfold MAX_PRICE_LEVELS NULL_IDX at *
    omega
  obtain ⟨ls₁, ls₂, hls, hrest, hown, hothers⟩ :=
    hinserted.linked hne (h.null_notMem_ladder s) (h.ladder_nodup s) (hj' s)
  have hperm := levels_perm_openLevel hls (Level.empty j r.order.price) freeLevels
  use b₁.linkLadder s s.before j, ls₁, ls₂
  refine ⟨?_, hls, hrest, ?_, hrelinked.orderArena, hrelinked.orderIndex,
    hrelinked.clientOrderIndex⟩
  · simp only [levelFor, h.lookup_eq_none hfresh, halloc, hins, linkPriceLevel_eq]
    rfl
  constructor
  · apply (hrelinked.storage hst').perm hperm.symm
  · intro s'
    rcases eq_or_ne s' s with rfl | hs
    · dsimp only
      rw [Function.update_self]
      apply hown
    · rw [Layout.ladder_update_of_ne rfl hs]
      apply hothers s' hs _ (hlinked s')
      intro l hl
      apply List.not_mem_cons_of_ne_of_not_mem
      · apply hj l (Layout.mem_levels.mpr ⟨s', hl⟩)
      · apply h.notMem_of_other_ladder hs hl
  · rw [hrelinked.priceIndex]
    apply hvalid
  · intro q i
    rw [hrelinked.priceIndex, hlookup]
    apply h.priceIndex_iff_insert hfresh hperm
  · apply hrelinked.orderIndex ▸ h.orderIndex_valid
  · apply hrelinked.orderIndex ▸ h.orderIndex_eq
  · apply hrelinked.clientOrderIndex ▸ h.clientIndex_valid
  · apply hrelinked.clientOrderIndex ▸ h.clientIndex_eq
  · apply hrelinked.tradeIdCounter.trans h.tradeIdCounter_eq
  · apply hrelinked.orderIdCounter.trans h.orderIdCounter_eq

end HasLayout

end OrderBook

end LimitOrderBook
