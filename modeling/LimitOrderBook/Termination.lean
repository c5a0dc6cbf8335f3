import LimitOrderBook.Matching

/-!
# Every loop ends, and the tables have room

The loops of the book run without a bound: over the queue of a level, over a ladder, down a
ladder to the place of a new level, and around the tables.  `Terminates` says of a book that
each of them ends of itself, whatever the arguments, and `Roomy` that the tables hold too
little for an insertion to fail.
-/

namespace LimitOrderBook

open Intrusive

namespace OrderBook

/-! ### The tables -/

/-- The loops in the methods of the three tables end. -/
structure TablesEnd (b : OrderBook) : Prop where
  orderIndex : b.orderIndex.LoopsEnd
  priceIndex : b.priceIndex.LoopsEnd
  clientOrderIndex : b.clientOrderIndex.LoopsEnd

structure TablesValid (b : OrderBook) : Prop where
  orderIndex : b.orderIndex.Valid
  priceIndex : b.priceIndex.Valid
  clientOrderIndex : b.clientOrderIndex.Valid

namespace TablesValid

variable {b : OrderBook} {m m' : Matching}

/-- Where the tables are valid, every probe sequence of theirs comes to an end. -/
theorem tablesEnd (h : b.TablesValid) :
  b.TablesEnd
  := ⟨h.orderIndex.loopsEnd, h.priceIndex.loopsEnd, h.clientOrderIndex.loopsEnd⟩

theorem fillHead (h : m.book.TablesValid) (clientId : UInt64) (levelIdx : Nat) :
  (fillHead clientId levelIdx m).book.TablesValid
  := by
  unfold OrderBook.fillHead
  dsimp only
  split
  · constructor
    · apply (FastOrderIndex.remove_spec h.orderIndex _).1
    · apply h.priceIndex
    · apply (FastClientIndex.remove_spec h.clientOrderIndex _ _).1
  · exact ⟨h.orderIndex, h.priceIndex, h.clientOrderIndex⟩

/-- A step of the walk along one level's queue keeps the tables valid. -/
theorem matchLevelStep (h : m.book.TablesValid) {clientId : UInt64} {levelIdx : Nat}
    (hstep : matchLevelStep clientId levelIdx m = some m') :
  m'.book.TablesValid
  := by
  unfold OrderBook.matchLevelStep at hstep
  split at hstep
  · contradiction
  dsimp only at hstep
  split at hstep
  · split at hstep
    · obtain rfl := Option.some.inj hstep
      apply h
    · obtain rfl := Option.some.inj hstep
      apply h.fillHead
  · contradiction

/-- The whole walk along one level's queue keeps the tables valid. -/
theorem matchLevelRun (h : m.book.TablesValid) (clientId : UInt64) (levelIdx fuel : Nat) :
  (While.run (OrderBook.matchLevelStep clientId levelIdx) fuel m).book.TablesValid
  := While.run_invariant (I := fun m : Matching => m.book.TablesValid)
    (fun _ _ h hstep => h.matchLevelStep hstep) fuel h

/-- Dropping an emptied level leaves the tables valid. -/
theorem retireLevel (h : b.TablesValid) (levelIdx : Nat) (price : UInt64) (s : Side) :
  (b.retireLevel levelIdx price (s == .sell)).TablesValid
  := by
  have hlinks := relinked_unlinkPriceLevel (b := b) (i := levelIdx) (s := s)
  constructor
  · apply hlinks.orderIndex ▸ h.orderIndex
  · apply (FastPriceIndex.remove_spec (hlinks.priceIndex ▸ h.priceIndex) price).1
  · apply hlinks.clientOrderIndex ▸ h.clientOrderIndex

/-- A step of the matching loop keeps the tables valid. -/
theorem matchStep (h : m.book.TablesValid) {s : Side} {beyond : UInt64 → UInt64 → Bool}
    {clientId : UInt64} (hstep : matchStep s beyond clientId m = some m') :
  m'.book.TablesValid
  := by
  have hlevel := h.matchLevelRun clientId (m.book.best s) (MAX_ARENA_ORDERS + 1)
  unfold OrderBook.matchStep at hstep
  split at hstep
  · contradiction
  split at hstep
  · dsimp only at hstep
    split at hstep
    · contradiction
    split at hstep
    · contradiction
    split at hstep
    · obtain rfl := Option.some.inj hstep
      apply TablesValid.retireLevel hlevel
    · obtain rfl := Option.some.inj hstep
      apply hlevel
  · contradiction

end TablesValid

/-- The tables of a laid-out book are valid. -/
theorem HasLayout.tablesValid {b : OrderBook} {L : Layout} (h : b.HasLayout L) :
  b.TablesValid
  := ⟨h.orderIndex_valid, h.priceIndex_valid, h.clientIndex_valid⟩

/-! ### The matching loops -/

/-- One round of the loop over a ladder that `process` enters. -/
def matchRound (b : OrderBook) (order : Order) (clientId : UInt64) : Matching → Option Matching :=
  if (b.stampId order).1.isSell then
    matchStep .buy (fun best price => best < price) clientId
  else
    matchStep .sell (fun best price => best > price) clientId

/-- What the loop over a ladder has reached after some rounds. -/
def matchRounds (b : OrderBook) (order : Order) (clientId : UInt64) (trades : List Trade)
    (rounds : Nat) : Matching :=
  While.run (b.matchRound order clientId) rounds (b.start order trades)

/-- The matching loop is the bounded iteration of its own round. -/
theorem matching_eq_matchRounds (b : OrderBook) (o : Order) (clientId : UInt64)
    (trades : List Trade) :
  b.matching o clientId trades = b.matchRounds o clientId trades (MAX_PRICE_LEVELS + 1)
  := by
  unfold matching matchRounds matchRound
  split <;> rfl

theorem matchRound_eq (b : OrderBook) (o : Order) (clientId : UInt64) :
  b.matchRound o clientId
    = matchStep o.takesFrom (fun best price => o.takesFrom.before price best) clientId
  := by
  have hsell : (b.stampId o).1.isSell = o.isSell := by
    unfold stampId
    split <;> rfl
  unfold matchRound Order.takesFrom Order.bookSide
  rw [hsell]
  cases o.isSell <;> rfl

namespace HasLayout

variable {b : OrderBook} {L : Layout} {s : Side} {l : Level} {ls : List Level}

/-- The loop over the first level of a ladder ends. -/
theorem matchLevelStep_matchLevel (h : b.HasLayout L) (hl : L.ladder s = l :: ls)
    (clientId : UInt64) (taker : Order) (trades : List Trade) :
  matchLevelStep clientId l.slot (matchLevel clientId l.slot ⟨b, taker, trades, false⟩) = none
  := by
  obtain ⟨b₁, hlevel, h₁⟩ := matchLevel_eq clientId h hl taker trades
  have hstops := matchOrders_stops clientId taker L.tradeIdCounter l.queue
  rw [hlevel]
  generalize matchOrders (fun _ => true) clientId taker L.tradeIdCounter l.queue = m
    at h₁ hstops ⊢
  have hl₁ : (L.matched s (queueFills l ls taker.qty m)).ladder s
      = l.matched taker.qty m :: ls := Function.update_self ..
  have hempty : (b₁.levelArena.nodes l.slot).isEmpty = true ↔ m.left = [] :=
    h₁.isEmpty_iff (l := l.matched taker.qty m)
      (Layout.mem_levels.mpr ⟨s, by rw [hl₁]; exact List.mem_cons_self⟩)
  rcases hstops with ⟨hleft, -⟩ | ⟨-, hstp | hqty⟩
  · simp [matchLevelStep, hempty.mpr hleft]
  · simp [matchLevelStep, hstp]
  · simp [matchLevelStep, hqty]

/-- A round of the loop over a ladder leaves a book with a layout, and the loop over a level
in it ends. -/
theorem matchStep_some (h : b.HasLayout L) {clientId : UInt64} {taker : Order}
    {trades : List Trade} {stp : Bool} {m' : Matching}
    (hstep : matchStep s (fun best price => s.before price best) clientId ⟨b, taker, trades, stp⟩
      = some m') :
  (∃ L', m'.book.HasLayout L')
    ∧ matchLevelStep clientId (b.best s) (matchLevel clientId (b.best s) ⟨b, taker, trades, stp⟩)
      = none
  := by
  cases stp with
  | true => simp [matchStep] at hstep
  | false =>
      cases hl : L.ladder s with
      | nil =>
          have hnull := (h.best_eq_null_iff s).mpr hl
          simp [matchStep, hnull] at hstep
      | cons l ls =>
          rw [h.best_eq hl]
          refine ⟨?_, h.matchLevelStep_matchLevel hl clientId taker trades⟩
          rw [matchStep_eq h hl] at hstep
          split at hstep
          · contradiction
          obtain ⟨b₁, hlevel, h₁⟩ := matchLevel_eq clientId h hl taker trades
          rw [hlevel] at hstep
          dsimp only at hstep
          generalize matchOrders (fun _ => true) clientId taker L.tradeIdCounter l.queue = m
            at h₁ hstep
          have hl₁ : (L.matched s (queueFills l ls taker.qty m)).ladder s
              = [] ++ l.matched taker.qty m :: ls := Function.update_self ..
          have hempty : (b₁.levelArena.nodes l.slot).isEmpty = true ↔ m.left = [] :=
            h₁.isEmpty_iff (l := l.matched taker.qty m)
              (Layout.mem_levels.mpr ⟨s, by rw [hl₁]; simp⟩)
          split at hstep
          · next hif =>
              obtain rfl := Option.some.inj hstep
              have h₂ := h₁.retireLevel hl₁ (hempty.mp hif)
              exact ⟨_, h₂⟩
          · obtain rfl := Option.some.inj hstep
            exact ⟨_, h₁⟩

/-- What the matching loop starts from is laid out. -/
theorem start (h : b.HasLayout L) (o : Order) (trades : List Trade) :
  ∃ L', (b.start o trades).book.HasLayout L'
  := ⟨_, (h.stampId_eq o).2⟩

/-- Any number of rounds of the matching loop leaves the book laid out. -/
theorem matchRounds (h : b.HasLayout L) (o : Order) (clientId : UInt64) (trades : List Trade)
    (rounds : Nat) :
  ∃ L', (b.matchRounds o clientId trades rounds).book.HasLayout L'
  := by
  refine While.run_invariant (I := fun m : Matching => ∃ L', m.book.HasLayout L') ?_ rounds
    (h.start o trades)
  rintro m m' ⟨L', h'⟩ hstep
  rw [matchRound_eq] at hstep
  apply (h'.matchStep_some hstep).1

/-- The loop over a ladder ends. -/
theorem matchRound_matching (h : b.HasLayout L) (o : Order) (clientId : UInt64)
    (trades : List Trade) :
  b.matchRound o clientId (b.matching o clientId trades) = none
  := by
  obtain ⟨b₁, heq, h₁⟩ := h.matching_eq o clientId trades
  rw [matchRound_eq, heq]
  cases hstp : (L.fills o clientId).stp with
  | true => simp [matchStep]
  | false =>
      by_cases hqty : (L.fills o clientId).taker.qty = 0
      · simp [matchStep, hqty]
      · cases hl : (L.fills o clientId).ladder with
        | nil =>
            have hnull := (h₁.best_eq_null_iff o.takesFrom).mpr
              ((L.ladder_taken_takesFrom o clientId).trans hl)
            simp [matchStep, hnull]
        | cons l ls =>
            have haccepts := matchLadder_head _ _ _ _ _ hstp hqty l (by
              rw [show (matchLadder _ _ _ _ _).ladder = l :: ls from hl]
              rfl)
            have htaker := L.taker_fills o clientId
            rw [matchStep_eq h₁ ((L.ladder_taken_takesFrom o clientId).trans hl), if_pos]
            right
            rw [htaker]
            apply haccepts

end HasLayout

/-! ### The walk to the place of a new level -/

/-- The walk down a ladder ends. -/
theorem walkStep_run {nodes : Nat → PriceLevelNode} {before : UInt64 → UInt64 → Bool}
    {price : UInt64} {head : Nat} {ls : List Nat}
    (hchain : Chain (PriceLevelNode.nextLevel ∘ nodes) NULL_IDX head ls) (hnull : NULL_IDX ∉ ls)
    (hlen : ls.length ≤ MAX_PRICE_LEVELS) (hhead : head ≠ NULL_IDX) :
  walkStep nodes before price (While.run (walkStep nodes before price) MAX_PRICE_LEVELS head)
    = none
  := by
  let next := PriceLevelNode.nextLevel ∘ nodes
  apply (While.run_spec
    (fun i => i ≠ NULL_IDX ∧ ∃ is, Chain next NULL_IDX i is ∧ NULL_IDX ∉ is
      ∧ is.length ≤ MAX_PRICE_LEVELS)
    (fun i => (walk next NULL_IDX MAX_PRICE_LEVELS i).length) _
    ⟨hhead, ls, hchain, hnull, hlen⟩ _).2
  · rintro i j ⟨hi, is, hc, hn, hle⟩ hstep
    unfold walkStep at hstep
    dsimp only at hstep
    split at hstep
    · next hgo =>
        obtain rfl := Option.some.inj hstep
        cases is with
        | nil => exact absurd hc hi
        | cons k is =>
            have hwalk := hc.walk_eq hn hle
            obtain ⟨rfl, hc⟩ := hc
            obtain ⟨-, hn'⟩ := List.ne_and_not_mem_of_not_mem_cons hn
            have hle' : is.length ≤ MAX_PRICE_LEVELS := by
              rw [List.length_cons] at hle
              omega
            have hwalk' : walk next NULL_IDX MAX_PRICE_LEVELS (nodes i).nextLevel = is :=
              hc.walk_eq hn' hle'
            refine ⟨⟨hgo.1, is, hc, hn', hle'⟩, ?_⟩
            rw [hwalk, hwalk', List.length_cons]
            omega
    · contradiction
  · rw [hchain.walk_eq hnull hlen]
    apply hlen

/-- The walk for a new level's place stops, and stops at that place. -/
theorem HasLayout.walkStep_run {b : OrderBook} {L : Layout} (h : b.HasLayout L) (s : Side)
    {price : UInt64} {i : Nat} {la : PriceLevelArena}
    (halloc : b.levelArena.allocate price = .ok (i, la)) (hbest : b.best s ≠ NULL_IDX) :
  walkStep la.nodes s.before price
      (While.run (walkStep la.nodes s.before price) MAX_PRICE_LEVELS (b.best s))
    = none
  := by
  obtain ⟨t, ht⟩ := h.linked s
  have hst := h.storage
  cases hfree : L.freeLevels with
  | nil =>
      rw [hfree] at hst
      rw [hst.allocLevel_nil] at halloc
      contradiction
  | cons j freeLevels =>
      rw [hfree] at hst
      obtain ⟨la', heq, -, hnodes⟩ := hst.allocLevel price
      rw [heq] at halloc
      obtain ⟨rfl, rfl⟩ := Prod.mk.inj (Except.ok.inj halloc)
      have hlen : ((L.ladder s).map (·.slot)).length ≤ MAX_PRICE_LEVELS := by
        rw [List.length_map]
        apply h.ladder_length_le
      apply OrderBook.walkStep_run (ht.chain.congr _) (h.null_notMem_ladder s) hlen hbest
      intro k hk
      obtain ⟨l, hl, rfl⟩ := List.mem_map.mp hk
      apply congrArg PriceLevelNode.nextLevel
      apply hnodes
      apply hst.levels.pool.ne_of_used_of_free _ List.mem_cons_self
      apply List.mem_map_of_mem (Layout.mem_levels.mpr ⟨s, hl⟩)

/-! ### Room in the tables -/

/-- The tables hold no more than what rests in the book, and an insertion cannot fail. -/
structure Roomy (b : OrderBook) : Prop where
  orderIndex_count : b.orderIndex.count ≤ b.orderSlots.length
  clientOrderIndex_count : b.clientOrderIndex.count ≤ b.orderSlots.length
  orderSlots_length : b.orderSlots.length ≤ MAX_ARENA_ORDERS
  priceIndex_count : b.priceIndex.count = b.levelSlots.length
  levelSlots_length : b.levelSlots.length ≤ MAX_PRICE_LEVELS
  active_iff : ∀ i < MAX_PRICE_LEVELS, (b.levelArena.nodes i).active ↔ i ∈ b.levelSlots
  orderIndex_vacant : ∃ i < FAST_MAP_CAPACITY, (b.orderIndex.entries i).occupied = false
  priceIndex_vacant : ∃ i < FAST_PRICE_CAPACITY, (b.priceIndex.entries i).occupied = false
  clientOrderIndex_vacant : ∃ i < FAST_CLIENT_CAPACITY,
    (b.clientOrderIndex.entries i).occupied = false
  orderIndex_insert : ∀ orderId clientOrderId userId price nodeIdx side, ∃ t,
    b.orderIndex.insert orderId clientOrderId userId price nodeIdx side = .ok t
  priceIndex_insert : ∀ price levelIdx, ∃ t, b.priceIndex.insert price levelIdx = .ok t
  clientOrderIndex_insert : ∀ userId clientOrderId exchangeOrderId, ∃ t,
    b.clientOrderIndex.insert userId clientOrderId exchangeOrderId = .ok t

namespace HasLayout

variable {b : OrderBook} {L : Layout}

/-- The price index has one entry for each level. -/
theorem priceIndex_count_eq (h : b.HasLayout L) :
  b.priceIndex.count = L.levels.length
  := by
  have hkeys : {p | OpenAddressing.Table.lookup b.priceIndex p ≠ none}
      = ((L.levels.map (·.price)).toFinset : Set UInt64) := by
    ext p
    have hlookup : OpenAddressing.Table.lookup b.priceIndex p ≠ none
        ↔ ∃ i, b.priceIndex.lookup p = some i := by
      rw [← Option.ne_none_iff_exists', FastPriceIndex.lookup, ne_eq, ne_eq,
        Option.map_eq_none_iff]
    rw [Set.mem_ofPred_eq, hlookup]
    simp only [h.priceIndex_iff, List.coe_toFinset, List.mem_map, Set.mem_ofPred_eq]
    constructor
    · rintro ⟨i, l, hl, hprice, -⟩
      exact ⟨l, hl, hprice⟩
    · rintro ⟨l, hl, hprice⟩
      exact ⟨l.slot, l, hl, hprice, rfl⟩
  have hnodup : (L.levels.map (·.price)).Nodup := by
    apply List.Nodup.map_on
    · intro l hl l' hl' hprice
      apply List.inj_on_of_nodup_map (List.nodup_append.mp h.storage.levels.pool.nodup).1 hl hl'
      apply h.slot_eq_of_price_eq hl hl' hprice
    · apply List.Nodup.of_map
      apply (List.nodup_append.mp h.storage.levels.pool.nodup).1
  rw [h.priceIndex_valid.count_eq_ncard, hkeys, Set.ncard_coe_finset,
    List.toFinset_card_of_nodup hnodup, List.length_map]

/-- In a well-formed layout each table has room for what a call inserts. -/
theorem roomy (h : b.HasLayout L) (hw : L.WellFormed) :
  b.Roomy
  := by
  have hpool := h.storage.levels.pool
  have hlen := hpool.length_add
  rw [h.storage.levels.len_eq, List.length_map] at hlen
  constructor
  · rw [h.orderSlots_eq, List.length_map]
    apply h.orderIndex_count_le hw
  · rw [h.orderSlots_eq, List.length_map]
    apply h.clientIndex_count_le hw
  · rw [h.orderSlots_eq, List.length_map]
    apply h.resting_length_le
  · rw [h.levelSlots_eq, List.length_map]
    apply h.priceIndex_count_eq
  · rw [h.levelSlots_eq, List.length_map]
    omega
  · intro i hi
    rw [h.levelSlots_eq]
    constructor
    · intro hactive
      rw [← h.storage.levels.len_eq] at hi
      rcases List.mem_append.mp (hpool.perm.mem_iff.mpr (List.mem_range.mpr hi)) with hi | hi
      · apply hi
      · rw [show (b.levelArena.nodes i).active = false from hpool.free_inactive i hi] at hactive
        contradiction
    · intro hi
      apply hpool.used_active i hi
  · apply h.orderIndex_valid.exists_vacant
  · apply h.priceIndex_valid.exists_vacant
  · apply h.clientIndex_valid.exists_vacant
  · intro orderId clientOrderId userId price nodeIdx side
    obtain ⟨t, ht, -⟩ := FastOrderIndex.insert_spec h.orderIndex_valid (h.orderIndex_count_lt hw)
      orderId clientOrderId userId price nodeIdx side
    exact ⟨t, ht⟩
  · intro price levelIdx
    obtain ⟨t, ht, -⟩ := FastPriceIndex.insert_spec h.priceIndex_valid h.priceIndex_count_lt
      price levelIdx
    exact ⟨t, ht⟩
  · intro userId clientOrderId exchangeOrderId
    obtain ⟨t, ht, -⟩ := FastClientIndex.insert_spec h.clientIndex_valid
      (h.clientIndex_count_lt hw) userId clientOrderId exchangeOrderId
    exact ⟨t, ht⟩

end HasLayout

/-! ### Termination -/

/-- The loops of `process` end, and no insertion into a table fails. -/
structure ProcessEnds (b : OrderBook) (order : Order) (clientId : UInt64) (trades : List Trade) :
    Prop where
  /-- the loop over the ladder -/
  ladder : b.matchRound order clientId (b.matching order clientId trades) = none
  /-- the loop over a level, in every round of the former -/
  level : ∀ rounds, (b.matchRound order clientId (b.matchRounds order clientId trades rounds)).isSome →
    let m := b.matchRounds order clientId trades rounds
    matchLevelStep clientId (m.book.best order.takesFrom)
      (matchLevel clientId (m.book.best order.takesFrom) m) = none
  /-- the loops of the tables, in every round of either -/
  tables : ∀ rounds fills,
    let m := b.matchRounds order clientId trades rounds
    (While.run (matchLevelStep clientId (m.book.best order.takesFrom)) fills m).book.TablesEnd
  /-- the walk to the place of a new level -/
  walk : ∀ price i la, (b.matching order clientId trades).book.levelArena.allocate price = .ok (i, la) →
    let best := (b.matching order clientId trades).book.best order.bookSide
    best ≠ NULL_IDX → walkStep la.nodes order.bookSide.before price
      (While.run (walkStep la.nodes order.bookSide.before price) MAX_PRICE_LEVELS best) = none
  /-- the insertions, when an order comes to rest -/
  roomy : (b.matching order clientId trades).book.Roomy

/-- The loops of every method end, whatever its arguments, and the tables have room. -/
structure Terminates (b : OrderBook) : Prop where
  roomy : b.Roomy
  tables : b.TablesEnd
  process : ∀ order clientId trades, b.ProcessEnds order clientId trades
  depth : ∀ s maxLevels, (b.depth s maxLevels).length = min maxLevels (b.ladderSlots s).length

/-- On a laid-out book every loop of every call comes to an end. -/
theorem HasLayout.terminates {b : OrderBook} {L : Layout} (h : b.HasLayout L) (hw : L.WellFormed) :
  b.Terminates
  := by
  refine ⟨h.roomy hw, h.tablesValid.tablesEnd, ?_, ?_⟩
  · intro order clientId trades
    obtain ⟨b₁, heq, h₁⟩ := h.matching_eq order clientId trades
    constructor
    · apply h.matchRound_matching
    · intro rounds hsome
      obtain ⟨L', h'⟩ := h.matchRounds order clientId trades rounds
      obtain ⟨m', hm'⟩ := Option.isSome_iff_exists.mp hsome
      rw [matchRound_eq] at hm'
      apply (h'.matchStep_some hm').2
    · intro rounds fills
      obtain ⟨L', h'⟩ := h.matchRounds order clientId trades rounds
      apply (h'.tablesValid.matchLevelRun clientId _ fills).tablesEnd
    · intro price i la halloc
      rw [heq] at halloc ⊢
      apply h₁.walkStep_run order.bookSide halloc
    · rw [heq]
      apply h₁.roomy (hw.taken order clientId)
  · intro s maxLevels
    rw [h.depth_eq, h.ladderSlots_eq, List.length_map, List.length_take, List.length_map]

/-- Every loop of every call ends, in every reachable book. -/
theorem terminates_calls (symbol : Symbol) (cs : List Call) :
  ((OrderBook.new symbol).calls cs).Terminates
  := by
  obtain ⟨L, h, hw⟩ := exists_layout symbol cs
  apply h.terminates hw

end OrderBook

end LimitOrderBook
