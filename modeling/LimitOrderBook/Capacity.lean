import LimitOrderBook.Consistency

/-!
# The slots of a book

An order takes a slot before a level is found for it.  When the price is new and all
levels are in use the order is refused, and its slot is in no queue and not free again:
it is lost (`lostOrders`).  No other step loses a slot (`lostOrders_process_eq_nil_iff`),
so the slots of a book are all accounted for as long as no call is of that kind
(`noSlotLost_calls_iff`).
-/

namespace LimitOrderBook

open Intrusive

/-! ### Losing a slot -/

namespace Layout

variable {L : Layout} {o : Order}

/-- A limit order that trades with nothing: the best price of the other side does not reach
its limit, or there is none. -/
structure Unmatched (L : Layout) (o : Order) : Prop where
  kind_eq : o.kind = .limit
  qty_ne : o.qty ≠ 0
  refused : ∀ l ∈ (L.ladder o.takesFrom).head?, o.takesFrom.before o.price l.price

/-- There is no slot for an order, or none for the level it needs. -/
def NoRoom (L : Layout) (o : Order) : Prop :=
  L.freeOrders = [] ∨ o.price ∉ (L.ladder o.bookSide).map (·.price) ∧ L.freeLevels = []

/-- An order that trades with nothing, needs a new level, and finds none free. -/
structure Loses (L : Layout) (o : Order) : Prop extends L.Unmatched o where
  price_new : o.price ∉ (L.ladder o.bookSide).map (·.price)
  no_level : L.freeLevels = []
  order_slot : L.freeOrders ≠ []

theorem accepts_limit (hkind : o.kind = .limit) (s : Side) (price : UInt64) :
  o.accepts s price = false ↔ s.before o.price price
  := by
  simp [Order.accepts, hkind]

theorem Unmatched.fills_eq_idle (h : L.Unmatched o) (clientId : UInt64) :
  L.fills o clientId = L.idle o
  := by
  have hrefused := h.refused
  unfold fills idle
  cases hls : L.ladder o.takesFrom with
  | nil => rfl
  | cons l ls =>
      have hl := hrefused l (by simp [hls])
      rw [← accepts_limit h.kind_eq] at hl
      rw [matchLadder, if_pos (Or.inr hl)]

theorem Unmatched.rests (h : L.Unmatched o) (clientId : UInt64) :
  L.Rests o clientId
  := by
  unfold Rests
  rw [h.fills_eq_idle clientId]
  exact ⟨rfl, UInt64.ne_zero_iff_pos.mp h.qty_ne, h.kind_eq⟩

/-- An order that rests and has met nothing accepts no price of the ladder it takes from. -/
theorem Rests.unmatched {clientId : UInt64} (h : L.Rests o clientId)
    (hidle : L.fills o clientId = L.idle o) :
  L.Unmatched o
  := by
  obtain ⟨hstp, hqty, hkind⟩ := h
  have hqty' := UInt64.ne_zero_iff_pos.mpr hqty
  have hhead := matchLadder_head _ _ _ _ _ hstp hqty'
  have hladder : (matchLadder (o.accepts o.takesFrom) clientId (L.stamped o) L.tradeIdCounter
      (L.ladder o.takesFrom)).ladder = L.ladder o.takesFrom := congrArg LadderFills.ladder hidle
  rw [hladder] at hhead
  rw [hidle] at hqty'
  constructor
  · apply hkind
  · apply hqty'
  · intro l hl
    rw [← accepts_limit hkind]
    apply hhead l hl

/-- An order is refused exactly when it trades with nothing and there is no room for it. -/
theorem process_eq_error_iff (hw : L.WellFormed) (o : Order) (clientId : UInt64)
    (trades : List Trade) (e : RejectReason) :
  (L.process o clientId trades).1 = .error e ↔ e = .engineFull ∧ L.Unmatched o ∧ L.NoRoom o
  := by
  have hprocessed := L.process_cases o clientId trades
  generalize (L.process o clientId trades).1 = res at hprocessed ⊢
  generalize (L.process o clientId trades).2.1 = L' at hprocessed
  constructor
  · rintro rfl
    obtain ⟨rfl, hrests, hidle, -⟩ := hprocessed.of_error hw
    refine ⟨rfl, hrests.unmatched hidle, ?_⟩
    have htaken := taken_of_idle hidle
    cases hprocessed with
    | full _ hfree =>
        rw [htaken] at hfree
        apply Or.inl hfree
    | lost _ _ hprice hlevel =>
        rw [htaken] at hlevel
        apply Or.inr ⟨hprice, hlevel⟩
  · rintro ⟨rfl, hunmatched, hroom⟩
    have htaken := taken_of_idle (hunmatched.fills_eq_idle clientId)
    unfold NoRoom at hroom
    cases hprocessed with
    | done hrests => exact absurd (hunmatched.rests clientId) hrests
    | full => rfl
    | lost => rfl
    | joined _ hfree hprice =>
        rw [htaken] at hfree
        rcases hroom with hroom | hroom
        · exact absurd (hroom ▸ hfree) (List.cons_ne_nil _ _).symm
        · exact absurd hprice hroom.1
    | opened _ hfree _ hlevel =>
        rw [htaken] at hfree hlevel
        rcases hroom with hroom | hroom
        · exact absurd (hroom ▸ hfree) (List.cons_ne_nil _ _).symm
        · exact absurd (hroom.2 ▸ hlevel) (List.cons_ne_nil _ _).symm

/-- An order loses a slot exactly when `Loses` says so. -/
theorem lostOrders_process_eq_nil_iff (hw : L.WellFormed) (o : Order) (clientId : UInt64)
    (trades : List Trade) :
  (L.process o clientId trades).2.1.lostOrders = [] ↔ L.lostOrders = [] ∧ ¬ L.Loses o
  := by
  have hprocessed := L.process_cases o clientId trades
  generalize (L.process o clientId trades).1 = res at hprocessed
  generalize (L.process o clientId trades).2.1 = L' at hprocessed ⊢
  have hkeeps : ¬ L.Loses o → (L.lostOrders = [] ↔ L.lostOrders = [] ∧ ¬ L.Loses o) := by
    tauto
  cases hprocessed with
  | done h =>
      apply hkeeps
      exact fun hloses => h (hloses.toUnmatched.rests clientId)
  | full h hfree =>
      apply hkeeps
      intro hloses
      rw [taken_of_idle (hloses.toUnmatched.fills_eq_idle clientId)] at hfree
      apply hloses.order_slot hfree
  | joined h hfree hprice =>
      apply hkeeps
      exact fun hloses => hloses.price_new hprice
  | lost h hfree hprice hlevel =>
      obtain ⟨-, -, hidle, -⟩ := (Processed.lost h hfree hprice hlevel).of_error hw
      rw [taken_of_idle hidle] at hfree hlevel
      have hloses : L.Loses o :=
        { h.unmatched hidle with
          price_new := hprice
          no_level := hlevel
          order_slot := hfree ▸ List.cons_ne_nil _ _ }
      simp [hloses]
  | opened h hfree hprice hlevel =>
      apply hkeeps
      intro hloses
      rw [taken_of_idle (hloses.toUnmatched.fills_eq_idle clientId)] at hlevel
      rw [hloses.no_level] at hlevel
      contradiction

end Layout

/-! ### Books that have lost no slot -/

namespace OrderBook

/-- Every slot of the two arenas is linked once or free, and the count of orders is that of
the linked ones. -/
structure NoSlotLost (b : OrderBook) : Prop where
  activeCount_eq : b.orderArena.activeCount = b.orderSlots.length
  orders : (b.orderSlots ++ b.freeOrderSlots).Perm (List.range MAX_ARENA_ORDERS)
  levels : (b.levelSlots ++ b.freeLevelSlots).Perm (List.range MAX_PRICE_LEVELS)

/-- A call that takes a slot and links it nowhere: a limit order that trades with nothing,
at a price that has no level, when no level is free but a slot for the order is. -/
def Loses (b : OrderBook) : Call → Prop
  | .process o _ _ =>
      o.kind = .limit ∧ o.qty ≠ 0
        ∧ (b.best o.takesFrom = NULL_IDX
          ∨ o.takesFrom.before o.price (b.levelArena.nodes (b.best o.takesFrom)).price)
        ∧ b.priceIndex.lookup o.price = none
        ∧ b.levelArena.freeHead = NULL_IDX ∧ b.orderArena.freeHead ≠ NULL_IDX
  | .cancelOrder _ _ => False

namespace HasLayout

variable {b b' : OrderBook} {L L' : Layout}

theorem noSlotLost_iff (h : b.HasLayout L) :
  b.NoSlotLost ↔ L.lostOrders = []
  := by
  have hpool := h.storage.orders.pool
  have hpool' := h.storage.levels.pool
  rw [h.storage.orders.capacity_eq] at hpool
  rw [h.storage.levels.len_eq] at hpool'
  have hcount := h.storage.orders.count_eq
  rw [List.length_append] at hcount
  constructor
  · intro hlost
    have hactive := hlost.activeCount_eq
    rw [h.orderSlots_eq, hcount] at hactive
    apply List.eq_nil_of_length_eq_zero
    omega
  · intro hnil
    rw [hnil] at hpool hcount
    constructor
    · rw [h.orderSlots_eq, hcount, List.length_nil, Nat.zero_add]
    · rw [h.orderSlots_eq, h.freeOrderSlots_eq]
      apply hpool.perm
    · rw [h.levelSlots_eq, h.freeLevelSlots_eq]
      apply hpool'.perm

theorem freeLevels_eq_nil_iff (h : b.HasLayout L) :
  b.levelArena.freeHead = NULL_IDX ↔ L.freeLevels = []
  := by
  apply h.storage.levels.pool.head_eq_null_iff
  rw [h.storage.levels.len_eq]
  decide

theorem freeOrders_eq_nil_iff (h : b.HasLayout L) :
  b.orderArena.freeHead = NULL_IDX ↔ L.freeOrders = []
  := by
  apply h.storage.orders.pool.head_eq_null_iff
  rw [h.storage.orders.capacity_eq]
  decide

/-- The bound of the price of an order, at the head of the ladder it takes from. -/
theorem refused_iff (h : b.HasLayout L) (s : Side) (price : UInt64) :
  (b.best s = NULL_IDX ∨ s.before price (b.levelArena.nodes (b.best s)).price)
    ↔ ∀ l ∈ (L.ladder s).head?, s.before price l.price
  := by
  cases hls : L.ladder s with
  | nil => simp [(h.best_eq_null_iff s).mpr hls]
  | cons l ls =>
      have hmem : l ∈ L.levels := Layout.mem_levels.mpr ⟨s, by simp [hls]⟩
      have hnull := h.level_ne_null hmem
      rw [h.best_eq hls, (h.stored hmem).price_eq]
      simp [hnull]

/-- A price beyond which the other side begins is looked up on its own side. -/
theorem lookup_eq_some_iff (h : b.HasLayout L) (hw : L.WellFormed) {s : Side} {price : UInt64}
    (hhead : ∀ l ∈ (L.ladder s.opposite).head?, s.opposite.before price l.price) (i : Nat) :
  b.priceIndex.lookup price = some i ↔ ∃ l ∈ L.ladder s, l.price = price ∧ l.slot = i
  := by
  have hopposite : ∀ l ∈ L.ladder s.opposite, l.price ≠ price := by
    have hsorted := hw.sorted s.opposite
    intro l hl
    cases hls : L.ladder s.opposite with
    | nil => simp [hls] at hl
    | cons l₀ ls =>
        rw [hls] at hl hsorted
        have hfirst := hhead l₀ (by simp [hls])
        rcases List.mem_cons.mp hl with rfl | hl
        · apply (Side.ne_of_before hfirst).symm
        · have hbefore := Side.before_trans hfirst ((List.pairwise_cons.mp hsorted).1 l hl)
          apply (Side.ne_of_before hbefore).symm
  rw [h.priceIndex_iff]
  constructor
  · rintro ⟨l, hl, hprice, hslot⟩
    rw [(L.levels_perm s).mem_iff] at hl
    rcases List.mem_append.mp hl with hl | hl
    · exact ⟨l, hl, hprice, hslot⟩
    · exact absurd hprice (hopposite l hl)
  · rintro ⟨l, hl, hprice, hslot⟩
    exact ⟨l, Layout.mem_levels.mpr ⟨s, hl⟩, hprice, hslot⟩

/-- A price beyond which the other side begins has a level if its own side has one. -/
theorem lookup_eq_none_iff (h : b.HasLayout L) (hw : L.WellFormed) {s : Side} {price : UInt64}
    (hhead : ∀ l ∈ (L.ladder s.opposite).head?, s.opposite.before price l.price) :
  b.priceIndex.lookup price = none ↔ price ∉ (L.ladder s).map (·.price)
  := by
  constructor
  · intro hnone hmem
    obtain ⟨l, hl, rfl⟩ := List.mem_map.mp hmem
    have hsome := (h.priceIndex_iff l.price l.slot).mpr
      ⟨l, Layout.mem_levels.mpr ⟨s, hl⟩, rfl, rfl⟩
    rw [hnone] at hsome
    contradiction
  · intro hmem
    cases hlookup : b.priceIndex.lookup price with
    | none => rfl
    | some i =>
        obtain ⟨l, hl, hprice, -⟩ := (h.lookup_eq_some_iff hw hhead i).mp hlookup
        exact absurd (hprice ▸ List.mem_map_of_mem hl) hmem

theorem loses_iff (h : b.HasLayout L) (hw : L.WellFormed) (o : Order) (clientId : UInt64)
    (trades : List Trade) :
  b.Loses (.process o clientId trades) ↔ L.Loses o
  := by
  dsimp only [Loses]
  rw [h.refused_iff, h.freeLevels_eq_nil_iff, ne_eq b.orderArena.freeHead, h.freeOrders_eq_nil_iff]
  constructor
  · rintro ⟨hkind, hqty, hhead, hprice, hlevel, horder⟩
    exact ⟨⟨hkind, hqty, hhead⟩, (h.lookup_eq_none_iff hw hhead).mp hprice, hlevel, horder⟩
  · rintro ⟨⟨hkind, hqty, hhead⟩, hprice, hlevel, horder⟩
    exact ⟨hkind, hqty, hhead, (h.lookup_eq_none_iff hw hhead).mpr hprice, hlevel, horder⟩

/-- A step loses a slot exactly when `Loses` says so. -/
theorem lostOrders_step_iff (h : b.HasLayout L) (hw : L.WellFormed) {c : Call}
    (hs : L.Step c L') :
  L'.lostOrders = [] ↔ L.lostOrders = [] ∧ ¬ b.Loses c
  := by
  have hcancel : c.Cancels → ¬ b.Loses c := by
    cases c with
    | process o clientId trades =>
        intro hkind hloses
        rw [Call.Cancels, hloses.1] at hkind
        contradiction
    | cancelOrder u k => exact fun _ => id
  cases hs with
  | process clientId trades _ =>
      rw [h.loses_iff hw]
      apply Layout.lostOrders_process_eq_nil_iff hw
  | noCancel hc => simp [hcancel hc]
  | cancel hc pl => simp [hcancel hc, Layout.remove]

end HasLayout

/-- A run accounts for every slot exactly as long as no call loses one. -/
theorem noSlotLost_calls_iff (symbol : Symbol) (cs : List Call) :
  ((OrderBook.new symbol).calls cs).NoSlotLost
    ↔ ∀ cs' c, cs' ++ [c] <+: cs → ¬ ((OrderBook.new symbol).calls cs').Loses c
  := by
  obtain ⟨L, h, -, hlost⟩ := calls_induction symbol
    (P := fun cs L => L.lostOrders = []
      ↔ ∀ cs' c, cs' ++ [c] <+: cs → ¬ ((OrderBook.new symbol).calls cs').Loses c)
    (by simp [Layout.new])
    (fun cs c L L' h hw ih _ _ hs => by
      rw [h.lostOrders_step_iff hw hs, ih]
      constructor
      · rintro ⟨hall, hlast⟩ cs' c' hpre
        rcases List.prefix_concat_iff.mp hpre with heq | hpre
        · obtain ⟨rfl, hc⟩ := List.append_inj' heq rfl
          obtain rfl := List.singleton_inj.mp hc
          apply hlast
        · apply hall cs' c' hpre
      · intro hall
        constructor
        · intro cs' c' hpre
          apply hall cs' c' (hpre.trans (List.prefix_append cs [c]))
        · apply hall cs c (List.prefix_refl _))
    cs
  rw [h.noSlotLost_iff, hlost]

/-! ### One price too many -/

/-- The bid for one unit at the price `n + 1`. -/
def bidAt (n : Nat) : Call :=
  .process (Order.newLimit (UInt64.ofNat (n + 1)) 1 .btc .buy (UInt64.ofNat (n + 1)) 1) 0 []

/-- Bids at `n` different prices. -/
def bids (n : Nat) : List Call := (List.range n).map bidAt

/-- The layout after `n` bids. -/
structure Bids (n : Nat) (L : Layout) : Prop where
  asks_eq : L.ladder .sell = []
  price_le : ∀ l ∈ L.ladder .buy, l.price.toNat ≤ n
  lost_eq : L.lostOrders = []
  freeLevels_length : L.freeLevels.length + n = MAX_PRICE_LEVELS
  freeOrders_length : L.freeOrders.length + n = MAX_ARENA_ORDERS

/-- The bids trade with nothing. -/
theorem Bids.unmatched {n : Nat} {L : Layout} (h : Bids n L) {o : Order} (hkind : o.kind = .limit)
    (hside : o.bookSide = .buy) (hqty : o.qty ≠ 0) :
  L.Unmatched o
  := by
  refine ⟨hkind, hqty, ?_⟩
  rw [Order.takesFrom, hside]
  change ∀ l ∈ (L.ladder .sell).head?, _
  simp [h.asks_eq]

/-- A bid at the next price opens a level if one is free, and is refused and loses its slot if
none is. -/
theorem Bids.process {n : Nat} {L : Layout} (h : Bids n L) (hw : L.WellFormed)
    (hn : n ≤ MAX_PRICE_LEVELS) {o : Order} (hkind : o.kind = .limit) (hside : o.bookSide = .buy)
    (hqty : o.qty ≠ 0) (hprice : o.price.toNat = n + 1) (clientId : UInt64) (trades : List Trade) :
  n < MAX_PRICE_LEVELS ∧ Bids (n + 1) (L.process o clientId trades).2.1
      ∧ (L.process o clientId trades).1 = .ok (L.report o clientId)
    ∨ n = MAX_PRICE_LEVELS ∧ (L.process o clientId trades).2.1.lostOrders ≠ []
      ∧ (L.process o clientId trades).1 = .error .engineFull
  := by
  have hunmatched := h.unmatched hkind hside hqty
  have hidle := hunmatched.fills_eq_idle clientId
  have htaken := Layout.taken_of_idle hidle
  have hn₁ := h.freeLevels_length
  have hn₂ := h.freeOrders_length
  have hprocessed := L.process_cases o clientId trades
  generalize (L.process o clientId trades).1 = res at hprocessed ⊢
  generalize (L.process o clientId trades).2.1 = L' at hprocessed ⊢
  cases hprocessed with
  | done hdone => exact absurd (hunmatched.rests clientId) hdone
  | full _ hfree =>
      rw [htaken] at hfree
      rw [show L.freeOrders = [] from hfree] at hn₂
      unfold MAX_PRICE_LEVELS MAX_ARENA_ORDERS at *
      simp only [List.length_nil] at hn₂
      omega
  | joined _ _ hmem =>
      rw [hside] at hmem
      obtain ⟨l, hl, heq⟩ := List.mem_map.mp hmem
      have hle := h.price_le l hl
      rw [heq] at hle
      omega
  | lost _ _ _ hlevel =>
      rw [htaken] at hlevel
      rw [show L.freeLevels = [] from hlevel] at hn₁
      refine Or.inr ⟨?_, List.cons_ne_nil _ _, rfl⟩
      simpa using hn₁
  | @opened i j freeOrders freeLevels _ hfree hmem hlevel =>
      rw [htaken] at hfree hlevel
      rw [show L.freeLevels = j :: freeLevels from hlevel, List.length_cons] at hn₁
      rw [show L.freeOrders = i :: freeOrders from hfree, List.length_cons] at hn₂
      have htaker : (L.fills o clientId).taker.bookSide = .buy := by
        rw [L.bookSide_taker_fills, hside]
      refine Or.inl ⟨by omega, ?_, rfl⟩
      rw [htaken]
      constructor
      · dsimp only [Layout.put]
        rw [htaker, Function.update_of_ne (by decide)]
        apply h.asks_eq
      · intro l hl
        dsimp only [Layout.put] at hl
        rw [htaker, Function.update_self] at hl
        rcases mem_restLadder j (hw.sorted .buy) hl with hl | ⟨l₀, hl₀, -, rfl⟩ | rfl
        · apply Nat.le_succ_of_le (h.price_le l hl)
        · apply Nat.le_succ_of_le (h.price_le l₀ hl₀)
        · dsimp only [Level.push, Level.empty]
          rw [L.price_taker_fills, hprice]
      · apply h.lost_eq
      · dsimp only [Layout.put]
        omega
      · dsimp only [Layout.put]
        omega

/-- The next bid opens a level if one is free, and loses its slot if none is. -/
theorem Bids.step {n : Nat} {L L' : Layout} (h : Bids n L) (hw : L.WellFormed)
    (hn : n ≤ MAX_PRICE_LEVELS) (hs : L.Step (bidAt n) L') :
  n < MAX_PRICE_LEVELS ∧ Bids (n + 1) L' ∨ n = MAX_PRICE_LEVELS ∧ L'.lostOrders ≠ []
  := by
  unfold bidAt at hs
  have hprice : (UInt64.ofNat (n + 1)).toNat = n + 1 := by
    apply UInt64.toNat_ofNat_of_lt'
    unfold MAX_PRICE_LEVELS at hn
    unfold UInt64.size
    omega
  cases hs with
  | noCancel hcancel => exact absurd hcancel (by decide : OrderType.limit ≠ .cancel)
  | cancel hcancel => exact absurd hcancel (by decide : OrderType.limit ≠ .cancel)
  | process =>
      rcases h.process hw hn (o := Order.newLimit _ 1 .btc .buy _ 1) rfl rfl
        (by decide : (1 : UInt64) ≠ 0) hprice 0 [] with ⟨hlt, hbids, -⟩ | ⟨heq, hlost, -⟩
      · exact Or.inl ⟨hlt, hbids⟩
      · exact Or.inr ⟨heq, hlost⟩

theorem exists_bids {n : Nat} (hn : n ≤ MAX_PRICE_LEVELS) :
  ∃ L, ((OrderBook.new .btc).calls (bids n)).HasLayout L ∧ L.WellFormed ∧ Bids n L
  := by
  induction n with
  | zero =>
      refine ⟨Layout.new, HasLayout.new .btc, Layout.wellFormed_new, ?_⟩
      constructor
      · rfl
      · simp [Layout.new]
      · rfl
      · rw [Nat.add_zero]
        apply List.length_range
      · rw [Nat.add_zero]
        apply List.length_range
  | succ n ih =>
      obtain ⟨L, h, hw, hbids⟩ := ih (Nat.le_of_succ_le hn)
      obtain ⟨L', h', hs⟩ := h.call hw (bidAt n)
      rw [← calls_concat] at h'
      have heq : bids (n + 1) = bids n ++ [bidAt n] := by
        simp [bids, List.range_succ]
      rw [heq]
      rcases hbids.step hw (Nat.le_of_succ_le hn) hs with ⟨-, hbids'⟩ | ⟨hfull, -⟩
      · exact ⟨L', h', hs.wellFormed hw, hbids'⟩
      · omega

/-- The bid for which there is no level loses its slot. -/
theorem not_noSlotLost_bids :
  ¬ ((OrderBook.new .btc).calls (bids MAX_PRICE_LEVELS ++ [bidAt MAX_PRICE_LEVELS])).NoSlotLost
  := by
  obtain ⟨L, h, hw, hbids⟩ := exists_bids (Nat.le_refl MAX_PRICE_LEVELS)
  obtain ⟨L', h', hs⟩ := h.call hw (bidAt MAX_PRICE_LEVELS)
  rw [← calls_concat] at h'
  rw [h'.noSlotLost_iff]
  rcases hbids.step hw (Nat.le_refl _) hs with ⟨hlt, -⟩ | ⟨-, hlost⟩
  · exact absurd hlt (Nat.lt_irrefl _)
  · apply hlost

end OrderBook

end LimitOrderBook
