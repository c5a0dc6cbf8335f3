import LimitOrderBook.Layout

/-!
# Well-formed layouts

A layout is well-formed when its ladders are sorted and do not cross, no level is without
orders, every order rests at its price on its side with quantity left, and what the
indices know rests in the book.

On well-formed ladders, matching level by level is matching order by order
(`matchLadder_matchOrders`): it takes an initial segment of the orders, and takes at most
something off the order behind it (`matchOrders_split`).
-/

namespace LimitOrderBook

/-! ### Matching order by order -/

/-- A taker that accepts the orders of `q` goes through `q` first. -/
theorem matchOrders_append {accepts : UInt64 → Bool} {q : List Resting}
    (hq : ∀ r ∈ q, accepts r.order.price) (takerClientId : UInt64) (taker : Order)
    (nextId : UInt64) (rs : List Resting) :
  matchOrders accepts takerClientId taker nextId (q ++ rs)
    = (let m := matchOrders (fun _ => true) takerClientId taker nextId q
      if m.left = [] then
        let m' := matchOrders accepts takerClientId m.taker m.nextId rs
        { m' with filled := m.filled ++ m'.filled, trades := m.trades ++ m'.trades }
      else
        { m with left := m.left ++ rs })
  := by
  induction q generalizing taker nextId with
  | nil => rfl
  | cons r q ih =>
      have hr := hq r List.mem_cons_self
      have hq' : ∀ r ∈ q, accepts r.order.price := fun r hr => hq r (List.mem_cons_of_mem _ hr)
      rw [List.cons_append, matchOrders, matchOrders]
      by_cases hqty : taker.qty = 0
      · simp [hqty]
      by_cases huser : r.order.userId = taker.userId
      · simp [hqty, huser, hr]
      by_cases hzero : r.order.qty - min taker.qty r.order.qty = 0
      · simp only [hqty, hr, huser, hzero, ih hq', Bool.true_eq_false, or_self, if_false, if_true]
        split <;> rfl
      · simp [hqty, huser, hr, hzero]

/-- On levels that hold orders of their price, matching level by level is matching order
by order. -/
theorem matchLadder_matchOrders (accepts : UInt64 → Bool) (takerClientId : UInt64)
    (taker : Order) (nextId : UInt64) {ls : List Level}
    (hls : ∀ l ∈ ls, l.queue ≠ [] ∧ ∀ r ∈ l.queue, r.order.price = l.price) :
  matchOrders accepts takerClientId taker nextId (restingOf ls)
    = (let m := matchLadder accepts takerClientId taker nextId ls
      ⟨m.taker, restingOf m.ladder, m.filled, m.trades, m.nextId, m.stp⟩)
  := by
  induction ls generalizing taker nextId with
  | nil => rfl
  | cons l ls ih =>
      obtain ⟨hne, hprice⟩ := hls l List.mem_cons_self
      rw [restingOf_cons, matchLadder]
      by_cases hstop : taker.qty = 0 ∨ accepts l.price = false
      · rw [if_pos hstop]
        cases hq : l.queue with
        | nil => exact absurd hq hne
        | cons r q =>
            have hr : r.order.price = l.price := hprice r (by simp [hq])
            rw [List.cons_append, matchOrders, hr, if_pos hstop]
            simp [hq]
      · rw [if_neg hstop, matchOrders_append]
        · dsimp only
          rw [ih _ _ (fun l' hl' => hls l' (List.mem_cons_of_mem l hl'))]
          dsimp only
          split <;> rfl
        · intro r hr
          rw [hprice r hr]
          simpa using (not_or.mp hstop).2

/-- A taker takes an initial segment of the orders, and takes at most something off the
order behind it, which spends the taker. -/
theorem matchOrders_split (accepts : UInt64 → Bool) (takerClientId : UInt64) (taker : Order)
    (nextId : UInt64) (rs : List Resting) :
  ∃ rest, rs = (matchOrders accepts takerClientId taker nextId rs).filled ++ rest
    ∧ ((matchOrders accepts takerClientId taker nextId rs).left = rest
      ∨ ∃ r rest' qty, rest = r :: rest' ∧ 0 < qty ∧ qty < r.order.qty
        ∧ (matchOrders accepts takerClientId taker nextId rs).left = r.reduce qty :: rest'
        ∧ (matchOrders accepts takerClientId taker nextId rs).taker.qty = 0)
  := by
  induction rs generalizing taker nextId with
  | nil => exact ⟨[], rfl, Or.inl rfl⟩
  | cons r rs ih =>
      rw [matchOrders]
      split
      · exact ⟨r :: rs, rfl, Or.inl rfl⟩
      next hstop =>
      split
      · exact ⟨r :: rs, rfl, Or.inl rfl⟩
      dsimp only
      split
      · obtain ⟨rest, hrest, hleft⟩ :=
          ih (taker.reduce (min taker.qty r.order.qty)) (nextId + 1)
        exact ⟨rest, congrArg (r :: ·) hrest, hleft⟩
      · next hne =>
          have hpos : taker.qty ≠ 0 := fun heq => hstop (Or.inl heq)
          rw [ne_eq, ← UInt64.toNat_inj] at hpos
          rw [← UInt64.toNat_inj, UInt64.toNat_sub_min'] at hne
          refine ⟨r :: rs, rfl, Or.inr ⟨r, rs, _, rfl, ?_, ?_, rfl, ?_⟩⟩
          · rw [UInt64.lt_iff_toNat_lt, UInt64.toNat_min]
            simp only [UInt64.toNat_zero] at *
            omega
          · rw [UInt64.lt_iff_toNat_lt, UInt64.toNat_min]
            simp only [UInt64.toNat_zero] at *
            omega
          · rw [← UInt64.toNat_inj, Order.reduce, UInt64.toNat_sub_min]
            simp only [UInt64.toNat_zero] at *
            omega

/-- A taker empties the first levels of a ladder, and at most goes into the queue of the
level behind them. -/
theorem matchLadder_split (accepts : UInt64 → Bool) (takerClientId : UInt64) (taker : Order)
    (nextId : UInt64) (ls : List Level) :
  ∃ ls₁ ls₂, ls = ls₁ ++ ls₂
    ∧ (matchLadder accepts takerClientId taker nextId ls).emptied = ls₁.map (·.slot)
    ∧ ((matchLadder accepts takerClientId taker nextId ls).ladder = ls₂
      ∨ ∃ l ls' taker' nextId', ls₂ = l :: ls'
        ∧ (matchOrders (fun _ => true) takerClientId taker' nextId' l.queue).left ≠ []
        ∧ (matchLadder accepts takerClientId taker nextId ls).ladder
          = l.matched taker'.qty
              (matchOrders (fun _ => true) takerClientId taker' nextId' l.queue) :: ls')
  := by
  induction ls generalizing taker nextId with
  | nil => exact ⟨[], [], rfl, rfl, Or.inl rfl⟩
  | cons l ls ih =>
      rw [matchLadder]
      split
      · exact ⟨[], l :: ls, rfl, rfl, Or.inl rfl⟩
      dsimp only
      split
      · obtain ⟨ls₁, ls₂, hls, hemptied, hladder⟩ :=
          ih (matchOrders (fun _ => true) takerClientId taker nextId l.queue).taker
            (matchOrders (fun _ => true) takerClientId taker nextId l.queue).nextId
        refine ⟨l :: ls₁, ls₂, congrArg (l :: ·) hls, ?_, hladder⟩
        rw [List.map_cons, hemptied]
      · next hleft => exact ⟨[], l :: ls, rfl, rfl, Or.inr ⟨l, ls, taker, nextId, rfl, hleft, rfl⟩⟩

/-- A taker with quantity left that has met no order of its own stops at a price it does not
accept. -/
theorem matchLadder_head (accepts : UInt64 → Bool) (takerClientId : UInt64) (taker : Order)
    (nextId : UInt64) (ls : List Level)
    (hstp : (matchLadder accepts takerClientId taker nextId ls).stp = false)
    (hqty : (matchLadder accepts takerClientId taker nextId ls).taker.qty ≠ 0) :
  ∀ l ∈ (matchLadder accepts takerClientId taker nextId ls).ladder.head?, accepts l.price = false
  := by
  induction ls generalizing taker nextId with
  | nil => simp [matchLadder]
  | cons l ls ih =>
      rw [matchLadder] at hstp hqty ⊢
      by_cases hstop : taker.qty = 0 ∨ accepts l.price = false
      · rw [if_pos hstop] at hqty ⊢
        simpa using hstop.resolve_left hqty
      rw [if_neg hstop] at hstp hqty ⊢
      rcases matchOrders_stops takerClientId taker nextId l.queue with
        ⟨hleft, -⟩ | ⟨hleft, hdone⟩
      · rw [if_pos hleft] at hstp hqty ⊢
        apply ih _ _ hstp hqty
      · rw [if_neg hleft] at hstp hqty
        rcases hdone with hdone | hdone
        · rw [hdone] at hstp
          contradiction
        · exact absurd hdone hqty

/-- What a taker leaves in a queue was there before, at most with more quantity. -/
theorem mem_left_matchOrders {accepts : UInt64 → Bool} {takerClientId : UInt64} {taker : Order}
    {nextId : UInt64} {rs : List Resting} {r : Resting}
    (hr : r ∈ (matchOrders accepts takerClientId taker nextId rs).left) :
  ∃ r₀ ∈ rs, r = r₀ ∨ ∃ qty, qty < r₀.order.qty ∧ r = r₀.reduce qty
  := by
  obtain ⟨rest, hrs, hleft | ⟨r₁, rest', qty, hrest, -, hlt, hleft, -⟩⟩ :=
    matchOrders_split accepts takerClientId taker nextId rs
  · refine ⟨r, ?_, Or.inl rfl⟩
    rw [hrs, ← hleft]
    apply List.mem_append_right _ hr
  · rw [hleft] at hr
    rcases List.mem_cons.mp hr with rfl | hr
    · refine ⟨r₁, ?_, Or.inr ⟨qty, hlt, rfl⟩⟩
      rw [hrs, hrest]
      simp
    · refine ⟨r, ?_, Or.inl rfl⟩
      rw [hrs, hrest]
      apply List.mem_append_right _ (List.mem_cons_of_mem _ hr)

/-- The index entries of the orders taken and of those left. -/
theorem entries_matchOrders (accepts : UInt64 → Bool) (takerClientId : UInt64) (taker : Order)
    (nextId : UInt64) (rs : List Resting) :
  rs.map Resting.entry
    = (matchOrders accepts takerClientId taker nextId rs).filled.map Resting.entry
      ++ (matchOrders accepts takerClientId taker nextId rs).left.map Resting.entry
  := by
  obtain ⟨rest, hrs, hleft | ⟨r, rest', qty, hrest, -, -, hleft, -⟩⟩ :=
    matchOrders_split accepts takerClientId taker nextId rs
  · conv_lhs => rw [hrs]
    rw [List.map_append, hleft]
  · conv_lhs => rw [hrs]
    rw [List.map_append, hleft, hrest, List.map_cons, List.map_cons, Resting.entry_reduce]

/-! ### Well-formedness -/

namespace Layout

/-- The index entries of all resting orders. -/
def entries (L : Layout) : List FastIndexEntry := (restingOf L.levels).map Resting.entry

theorem mem_entries {L : Layout} {e : FastIndexEntry} :
  e ∈ L.entries ↔ ∃ s, e ∈ (L.resting s).map Resting.entry
  := by
  simp only [entries, List.mem_map, mem_restingOf, mem_levels, resting]
  constructor
  · rintro ⟨r, ⟨l, ⟨s, hl⟩, hr⟩, rfl⟩
    exact ⟨s, r, ⟨l, hl, hr⟩, rfl⟩
  · rintro ⟨s, r, ⟨l, hl, hr⟩, rfl⟩
    exact ⟨r, ⟨l, ⟨s, hl⟩, hr⟩, rfl⟩

structure WellFormed (L : Layout) : Prop where
  sorted : ∀ s, (L.ladder s).Pairwise fun l l' => s.before l.price l'.price
  uncrossed : ∀ l ∈ L.ladder .buy, ∀ l' ∈ L.ladder .sell, l.price < l'.price
  queue_ne_nil : ∀ s, ∀ l ∈ L.ladder s, l.queue ≠ []
  price_eq : ∀ s, ∀ l ∈ L.ladder s, ∀ r ∈ l.queue, r.order.price = l.price
  qty_pos : ∀ s, ∀ l ∈ L.ladder s, ∀ r ∈ l.queue, 0 < r.order.qty
  side_eq : ∀ s, ∀ l ∈ L.ladder s, ∀ r ∈ l.queue, r.order.bookSide = s
  orderIndex_sound : ∀ k e, L.orderIndex k = some e → e ∈ L.entries ∧ e.orderId = k
  clientIndex_sound : ∀ u c k, L.clientIndex u c = some k →
    ∃ e ∈ L.entries, e.userId = u ∧ e.clientOrderId = c ∧ e.orderId = k

theorem wellFormed_new :
  new.WellFormed
  := by
  constructor <;> simp [new]

namespace WellFormed

variable {L L' : Layout} {s : Side} {l : Level} {r : Resting}

theorem levels_wf (h : L.WellFormed) (s : Side) :
  ∀ l ∈ L.ladder s, l.queue ≠ [] ∧ ∀ r ∈ l.queue, r.order.price = l.price
  := fun l hl => ⟨h.queue_ne_nil s l hl, h.price_eq s l hl⟩

/-- What a taker leaves of a ladder: each of its levels was there before. -/
theorem mem_ladder_matched (h : L.WellFormed) {accepts : UInt64 → Bool} {takerClientId : UInt64}
    {taker : Order} {nextId : UInt64}
    (hl : l ∈ (matchLadder accepts takerClientId taker nextId (L.ladder s)).ladder) :
  ∃ l₀ ∈ L.ladder s, l.slot = l₀.slot ∧ l.price = l₀.price ∧ l.queue ≠ []
    ∧ ∀ r ∈ l.queue, ∃ r₀ ∈ l₀.queue, r = r₀ ∨ ∃ qty, qty < r₀.order.qty ∧ r = r₀.reduce qty
  := by
  obtain ⟨ls₁, ls₂, hls, -, hladder | ⟨l₁, ls', taker', nextId', hls₂, hleft, hladder⟩⟩ :=
    matchLadder_split accepts takerClientId taker nextId (L.ladder s)
  · have hmem : l ∈ L.ladder s := by
      rw [hls, ← hladder]
      apply List.mem_append_right _ hl
    exact ⟨l, hmem, rfl, rfl, h.queue_ne_nil s l hmem, fun r hr => ⟨r, hr, Or.inl rfl⟩⟩
  · rw [hladder] at hl
    rcases List.mem_cons.mp hl with rfl | hl
    · refine ⟨l₁, ?_, rfl, rfl, hleft, fun r hr => mem_left_matchOrders hr⟩
      rw [hls, hls₂]
      simp
    · have hmem : l ∈ L.ladder s := by
        rw [hls, hls₂]
        apply List.mem_append_right _ (List.mem_cons_of_mem _ hl)
      exact ⟨l, hmem, rfl, rfl, h.queue_ne_nil s l hmem, fun r hr => ⟨r, hr, Or.inl rfl⟩⟩

/-- What is known of the orders of one ladder after it has changed, from what is known of
those that stay. -/
theorem mem_entries_of_update {ls : List Level} (hL' : L'.ladder = Function.update L.ladder s ls)
    {e : FastIndexEntry} (he : e ∈ L.entries)
    (hstay : e ∈ (L.resting s).map Resting.entry → e ∈ (restingOf ls).map Resting.entry) :
  e ∈ L'.entries
  := by
  obtain ⟨s', he⟩ := mem_entries.mp he
  apply mem_entries.mpr
  use s'
  rcases eq_or_ne s' s with rfl | hs
  · rw [resting, hL', Function.update_self]
    apply hstay he
  · rw [resting, hL', Function.update_of_ne hs]
    apply he

/-- The levels of either ladder after one has changed. -/
theorem forall_ladder_update {ls : List Level} (hL' : L'.ladder = Function.update L.ladder s ls)
    {p : Side → Level → Prop} (h : ∀ s', ∀ l ∈ L.ladder s', p s' l) (hs : ∀ l ∈ ls, p s l) :
  ∀ s', ∀ l ∈ L'.ladder s', p s' l
  := by
  intro s' l hl
  rw [hL'] at hl
  rcases eq_or_ne s' s with rfl | hne
  · rw [Function.update_self] at hl
    apply hs l hl
  · rw [Function.update_of_ne hne] at hl
    apply h s' l hl

/-- The ladders stay uncrossed when one of them changes and has no new price. -/
theorem uncrossed_update {ls : List Level} (h : L.WellFormed)
    (hL' : L'.ladder = Function.update L.ladder s ls)
    (hprices : ∀ l ∈ ls, ∃ l₀ ∈ L.ladder s, l.price = l₀.price) :
  ∀ l ∈ L'.ladder .buy, ∀ l' ∈ L'.ladder .sell, l.price < l'.price
  := by
  have hold : ∀ s', ∀ l ∈ L'.ladder s', ∃ l₀ ∈ L.ladder s', l.price = l₀.price :=
    forall_ladder_update hL' (fun s' l hl => ⟨l, hl, rfl⟩) hprices
  intro l hl l' hl'
  obtain ⟨l₀, hl₀, hprice⟩ := hold .buy l hl
  obtain ⟨l₀', hl₀', hprice'⟩ := hold .sell l' hl'
  rw [hprice, hprice']
  apply h.uncrossed l₀ hl₀ l₀' hl₀'

theorem sorted_update {ls : List Level} (h : L.WellFormed)
    (hL' : L'.ladder = Function.update L.ladder s ls)
    (hls : ls.Pairwise fun l l' => s.before l.price l'.price) :
  ∀ s', (L'.ladder s').Pairwise fun l l' => s'.before l.price l'.price
  := by
  intro s'
  rw [hL']
  rcases eq_or_ne s' s with rfl | hs
  · rw [Function.update_self]
    apply hls
  · rw [Function.update_of_ne hs]
    apply h.sorted s'

theorem sorted_matchLadder (h : L.WellFormed) (accepts : UInt64 → Bool)
    (takerClientId : UInt64) (taker : Order) (nextId : UInt64) :
  (matchLadder accepts takerClientId taker nextId (L.ladder s)).ladder.Pairwise
    fun l l' => s.before l.price l'.price
  := by
  have hsorted := h.sorted s
  obtain ⟨ls₁, ls₂, hls, -, hladder | ⟨l₁, ls', taker', nextId', hls₂, -, hladder⟩⟩ :=
    matchLadder_split accepts takerClientId taker nextId (L.ladder s)
  · rw [hls] at hsorted
    rw [hladder]
    apply (List.pairwise_append.mp hsorted).2.1
  · rw [hls, hls₂] at hsorted
    rw [hladder]
    obtain ⟨hhead, htail⟩ := List.pairwise_cons.mp (List.pairwise_append.mp hsorted).2.1
    apply List.Pairwise.cons
    · apply hhead
    · apply htail

/-- The prices that matching leaves a limit order are all beyond its own. -/
theorem before_of_mem_matched (h : L.WellFormed) {taker : Order} (hkind : taker.kind = .limit)
    {takerClientId nextId : UInt64}
    (hstp : (matchLadder (taker.accepts s) takerClientId taker nextId (L.ladder s)).stp = false)
    (hqty : (matchLadder (taker.accepts s) takerClientId taker nextId (L.ladder s)).taker.qty ≠ 0)
    (hl : l ∈ (matchLadder (taker.accepts s) takerClientId taker nextId (L.ladder s)).ladder) :
  s.before taker.price l.price
  := by
  have hhead := matchLadder_head _ _ _ _ _ hstp hqty
  have hsorted := h.sorted_matchLadder (s := s) (taker.accepts s) takerClientId taker nextId
  generalize (matchLadder (taker.accepts s) takerClientId taker nextId (L.ladder s)).ladder = ls
    at hl hhead hsorted
  cases ls with
  | nil => simp at hl
  | cons l₁ ls =>
      have hfirst : s.before taker.price l₁.price := by
        simpa [Order.accepts, hkind] using hhead l₁ rfl
      rcases List.mem_cons.mp hl with rfl | hl
      · apply hfirst
      · apply Side.before_trans hfirst ((List.pairwise_cons.mp hsorted).1 l hl)

/-- An entry stays on the ladder unless its order is filled. -/
theorem entry_mem_matched (h : L.WellFormed) {accepts : UInt64 → Bool}
    {takerClientId nextId : UInt64} {taker : Order} {e : FastIndexEntry}
    (he : e ∈ (L.resting s).map Resting.entry)
    (hfilled : ∀ r ∈ (matchLadder accepts takerClientId taker nextId (L.ladder s)).filled,
      r.entry ≠ e) :
  e ∈ (restingOf (matchLadder accepts takerClientId taker nextId (L.ladder s)).ladder).map
    Resting.entry
  := by
  have hflat := matchLadder_matchOrders accepts takerClientId taker nextId (h.levels_wf s)
  have hentries := entries_matchOrders accepts takerClientId taker nextId (restingOf (L.ladder s))
  rw [hflat] at hentries
  rw [resting, hentries] at he
  apply (List.mem_append.mp he).resolve_left
  intro hmem
  obtain ⟨r, hr, hre⟩ := List.mem_map.mp hmem
  apply hfilled r hr hre

/-- Matching keeps a layout well-formed. -/
theorem matched (h : L.WellFormed) (s : Side) (accepts : UInt64 → Bool)
    (takerClientId : UInt64) (taker : Order) (nextId : UInt64) :
  (L.matched s (matchLadder accepts takerClientId taker nextId (L.ladder s))).WellFormed
  := by
  have hL' : (L.matched s (matchLadder accepts takerClientId taker nextId (L.ladder s))).ladder
      = Function.update L.ladder s
        (matchLadder accepts takerClientId taker nextId (L.ladder s)).ladder := rfl
  constructor
  · apply h.sorted_update hL'
    apply h.sorted_matchLadder
  · apply h.uncrossed_update hL'
    intro l hl
    obtain ⟨l₀, hl₀, -, hprice, -⟩ := h.mem_ladder_matched hl
    exact ⟨l₀, hl₀, hprice⟩
  · apply forall_ladder_update hL' h.queue_ne_nil
    intro l hl
    obtain ⟨l₀, hl₀, -, -, hne, -⟩ := h.mem_ladder_matched hl
    apply hne
  · apply forall_ladder_update hL' h.price_eq
    intro l hl r hr
    obtain ⟨l₀, hl₀, -, hprice, -, hqueue⟩ := h.mem_ladder_matched hl
    obtain ⟨r₀, hr₀, rfl | ⟨qty, -, rfl⟩⟩ := hqueue r hr
    · rw [hprice, h.price_eq s l₀ hl₀ r hr₀]
    · rw [hprice, Resting.price_reduce, h.price_eq s l₀ hl₀ r₀ hr₀]
  · apply forall_ladder_update hL' h.qty_pos
    intro l hl r hr
    obtain ⟨l₀, hl₀, -, -, -, hqueue⟩ := h.mem_ladder_matched hl
    obtain ⟨r₀, hr₀, rfl | ⟨qty, hlt, rfl⟩⟩ := hqueue r hr
    · apply h.qty_pos s l₀ hl₀ r hr₀
    · rw [UInt64.lt_iff_toNat_lt] at hlt ⊢
      rw [Resting.reduce, UInt64.toNat_sub_of_le _ _ (UInt64.le_iff_toNat_le.mpr (by omega)),
        UInt64.toNat_zero]
      omega
  · apply forall_ladder_update hL' h.side_eq
    intro l hl r hr
    obtain ⟨l₀, hl₀, -, -, -, hqueue⟩ := h.mem_ladder_matched hl
    obtain ⟨r₀, hr₀, rfl | ⟨qty, -, rfl⟩⟩ := hqueue r hr
    · apply h.side_eq s l₀ hl₀ r hr₀
    · apply h.side_eq s l₀ hl₀ r₀ hr₀
  · intro k e he
    dsimp only [Layout.matched] at he
    split at he
    · contradiction
    next hk =>
    obtain ⟨hmem, rfl⟩ := h.orderIndex_sound k e he
    refine ⟨mem_entries_of_update hL' hmem fun he => h.entry_mem_matched he ?_, rfl⟩
    rintro r hr rfl
    apply hk (List.mem_map_of_mem hr)
  · intro u c k he
    dsimp only [Layout.matched] at he
    split at he
    · contradiction
    next hk =>
    obtain ⟨e, hmem, rfl, rfl, rfl⟩ := h.clientIndex_sound u c k he
    refine ⟨e, mem_entries_of_update hL' hmem fun he => h.entry_mem_matched he ?_, rfl, rfl, rfl⟩
    rintro r hr rfl
    apply hk (List.mem_map_of_mem hr)

end WellFormed

end Layout

/-! ### An order comes to rest -/

section Rest

variable {s : Side} {r : Resting} {ls : List Level} (j : Nat)

/-- An order of a known price joins the queue of its level. -/
theorem restLadder_of_mem (hsorted : ls.Pairwise fun l l' => s.before l.price l'.price)
    (hmem : r.order.price ∈ ls.map (·.price)) :
  ∃ ls₁ l ls₂, ls = ls₁ ++ l :: ls₂ ∧ l.price = r.order.price
    ∧ restLadder s r j ls = ls₁ ++ l.push r :: ls₂
  := by
  induction ls with
  | nil => simp at hmem
  | cons l ls ih =>
      obtain ⟨hhead, htail⟩ := List.pairwise_cons.mp hsorted
      by_cases hprice : l.price = r.order.price
      · refine ⟨[], l, ls, rfl, hprice, ?_⟩
        rw [restLadder, if_pos hprice]
        rfl
      · have hmem' : r.order.price ∈ ls.map (·.price) := by
          rw [List.map_cons] at hmem
          apply (List.mem_cons.mp hmem).resolve_left
          exact fun heq => hprice heq.symm
        obtain ⟨l', hl', hprice'⟩ := List.mem_map.mp hmem'
        have hbefore := Side.before_asymm (hhead l' hl')
        rw [hprice'] at hbefore
        obtain ⟨ls₁, l₁, ls₂, hls, hprice₁, hrest⟩ := ih htail hmem'
        refine ⟨l :: ls₁, l₁, ls₂, congrArg (l :: ·) hls, hprice₁, ?_⟩
        rw [restLadder, if_neg hprice, if_neg (by simp [hbefore]), hrest]
        rfl

/-- An order of a new price gets a level between the better and the worse ones. -/
theorem restLadder_of_notMem (hsorted : ls.Pairwise fun l l' => s.before l.price l'.price)
    (hmem : r.order.price ∉ ls.map (·.price)) :
  ∃ ls₁ ls₂, ls = ls₁ ++ ls₂
    ∧ restLadder s r j ls = ls₁ ++ (Level.empty j r.order.price).push r :: ls₂
    ∧ (∀ l ∈ ls₁, s.before l.price r.order.price) ∧ ∀ l ∈ ls₂, s.before r.order.price l.price
  := by
  induction ls with
  | nil => exact ⟨[], [], rfl, rfl, by simp, by simp⟩
  | cons l ls ih =>
      obtain ⟨hhead, htail⟩ := List.pairwise_cons.mp hsorted
      obtain ⟨hprice, hmem'⟩ := List.ne_and_not_mem_of_not_mem_cons hmem
      by_cases hbefore : s.before r.order.price l.price
      · refine ⟨[], l :: ls, rfl, ?_, by simp, ?_⟩
        · rw [restLadder, if_neg hprice.symm, if_pos hbefore]
          rfl
        · intro l' hl'
          rcases List.mem_cons.mp hl' with rfl | hl'
          · apply hbefore
          · apply Side.before_trans hbefore (hhead l' hl')
      · obtain ⟨ls₁, ls₂, hls, hrest, hbetter, hworse⟩ := ih htail hmem'
        refine ⟨l :: ls₁, ls₂, congrArg (l :: ·) hls, ?_, ?_, hworse⟩
        · rw [restLadder, if_neg hprice.symm, if_neg hbefore, hrest]
          rfl
        · intro l' hl'
          rcases List.mem_cons.mp hl' with rfl | hl'
          · apply Side.before_of_ne hprice.symm (by simpa using hbefore)
          · apply hbetter l' hl'

/-- The levels of a ladder after an order has come to rest. -/
theorem mem_restLadder (hsorted : ls.Pairwise fun l l' => s.before l.price l'.price) {l : Level}
    (hl : l ∈ restLadder s r j ls) :
  l ∈ ls ∨ (∃ l₀ ∈ ls, l₀.price = r.order.price ∧ l = l₀.push r)
    ∨ l = (Level.empty j r.order.price).push r
  := by
  by_cases hmem : r.order.price ∈ ls.map (·.price)
  · obtain ⟨ls₁, l₁, ls₂, hls, hprice, hrest⟩ := restLadder_of_mem j hsorted hmem
    rw [hrest] at hl
    rw [hls]
    simp only [List.mem_append, List.mem_cons] at hl ⊢
    grind
  · obtain ⟨ls₁, ls₂, hls, hrest, -⟩ := restLadder_of_notMem j hsorted hmem
    rw [hrest] at hl
    rw [hls]
    simp only [List.mem_append, List.mem_cons] at hl ⊢
    grind

theorem sorted_restLadder (hsorted : ls.Pairwise fun l l' => s.before l.price l'.price) :
  (restLadder s r j ls).Pairwise fun l l' => s.before l.price l'.price
  := by
  by_cases hmem : r.order.price ∈ ls.map (·.price)
  · obtain ⟨ls₁, l₁, ls₂, hls, hprice, hrest⟩ := restLadder_of_mem j hsorted hmem
    rw [hrest]
    rw [hls] at hsorted
    simp only [List.pairwise_append, List.pairwise_cons, List.mem_cons] at hsorted ⊢
    grind [Level.push]
  · obtain ⟨ls₁, ls₂, hls, hrest, hbetter, hworse⟩ := restLadder_of_notMem j hsorted hmem
    rw [hrest]
    rw [hls] at hsorted
    simp only [List.pairwise_append, List.pairwise_cons, List.mem_cons] at hsorted ⊢
    grind [Level.push, Level.empty]

/-- The orders of a ladder after another has come to rest. -/
theorem perm_restLadder (hsorted : ls.Pairwise fun l l' => s.before l.price l'.price) :
  (restingOf (restLadder s r j ls)).Perm (r :: restingOf ls)
  := by
  by_cases hmem : r.order.price ∈ ls.map (·.price)
  · obtain ⟨ls₁, l₁, ls₂, hls, hprice, hrest⟩ := restLadder_of_mem j hsorted hmem
    rw [hrest, hls]
    apply List.perm_iff_count.mpr
    intro r'
    simp only [restingOf_append, restingOf_cons, Level.push, List.count_append, List.count_cons,
      List.count_nil]
    omega
  · obtain ⟨ls₁, ls₂, hls, hrest, -⟩ := restLadder_of_notMem j hsorted hmem
    rw [hrest, hls]
    apply List.perm_iff_count.mpr
    intro r'
    simp only [restingOf_append, restingOf_cons, Level.push, Level.empty, List.count_append,
      List.count_cons, List.count_nil]
    omega

/-- What holds of the orders of a ladder and of a new order holds of the orders when the new one
has come to rest. -/
theorem forall_queue_restLadder (hsorted : ls.Pairwise fun l l' => s.before l.price l'.price)
    {p : Resting → Prop} (h : ∀ l ∈ ls, ∀ r' ∈ l.queue, p r') (hr : p r) :
  ∀ l ∈ restLadder s r j ls, ∀ r' ∈ l.queue, p r'
  := by
  intro l hl r' hr'
  have hmem := (perm_restLadder j hsorted).mem_iff.mp (mem_restingOf.mpr ⟨l, hl, hr'⟩)
  rcases List.mem_cons.mp hmem with rfl | hmem
  · apply hr
  · obtain ⟨l₀, hl₀, hr₀⟩ := mem_restingOf.mp hmem
    apply h l₀ hl₀ r' hr₀

end Rest

/-! ### Resting and removing keep a layout well-formed -/

namespace Layout

namespace WellFormed

variable {L L' : Layout} {s : Side} {l : Level} {r : Resting}

/-- Well-formedness is about the ladders and the indices. -/
theorem congr (h : L.WellFormed) (hladder : L'.ladder = L.ladder)
    (horder : L'.orderIndex = L.orderIndex) (hclient : L'.clientIndex = L.clientIndex) :
  L'.WellFormed
  := by
  have hentries : L'.entries = L.entries := by
    simp only [entries, levels, hladder]
  constructor
  · rw [hladder]
    apply h.sorted
  · rw [hladder]
    apply h.uncrossed
  · rw [hladder]
    apply h.queue_ne_nil
  · rw [hladder]
    apply h.price_eq
  · rw [hladder]
    apply h.qty_pos
  · rw [hladder]
    apply h.side_eq
  · rw [horder, hentries]
    apply h.orderIndex_sound
  · rw [hclient, hentries]
    apply h.clientIndex_sound

/-- An order that does not cross the other side leaves the ladders uncrossed. -/
theorem uncrossed_put (h : L.WellFormed) (j : Nat)
    (hcross : ∀ l ∈ L.ladder r.order.bookSide.opposite,
      r.order.bookSide.opposite.before r.order.price l.price) :
  ∀ l ∈ (L.put r j).ladder .buy, ∀ l' ∈ (L.put r j).ladder .sell, l.price < l'.price
  := by
  have hL' : (L.put r j).ladder = Function.update L.ladder r.order.bookSide
      (restLadder r.order.bookSide r j (L.ladder r.order.bookSide)) := rfl
  have hprices : ∀ s', ∀ l ∈ (L.put r j).ladder s',
      (∃ l₀ ∈ L.ladder s', l.price = l₀.price)
        ∨ (s' = r.order.bookSide ∧ l.price = r.order.price) := by
    apply forall_ladder_update hL' (fun s' l hl => Or.inl ⟨l, hl, rfl⟩)
    intro l hl
    rcases mem_restLadder j (h.sorted _) hl with hl | ⟨l₀, -, hprice, rfl⟩ | rfl
    · exact Or.inl ⟨l, hl, rfl⟩
    · exact Or.inr ⟨rfl, hprice⟩
    · exact Or.inr ⟨rfl, rfl⟩
  intro l hl l' hl'
  rcases hprices .buy l hl with ⟨l₀, hl₀, hprice⟩ | ⟨hs, hprice⟩ <;>
    rcases hprices .sell l' hl' with ⟨l₀', hl₀', hprice'⟩ | ⟨hs', hprice'⟩
  · rw [hprice, hprice']
    apply h.uncrossed l₀ hl₀ l₀' hl₀'
  · rw [← hs'] at hcross
    rw [hprice, hprice']
    simpa [Side.before, Side.opposite] using hcross l₀ hl₀
  · rw [← hs] at hcross
    rw [hprice, hprice']
    simpa [Side.before, Side.opposite] using hcross l₀' hl₀'
  · rw [← hs] at hs'
    contradiction

/-- An order that does not cross the other side comes to rest. -/
theorem put (h : L.WellFormed) (j : Nat) (hqty : 0 < r.order.qty)
    (hcross : ∀ l ∈ L.ladder r.order.bookSide.opposite,
      r.order.bookSide.opposite.before r.order.price l.price) :
  (L.put r j).WellFormed
  := by
  have hL' : (L.put r j).ladder = Function.update L.ladder r.order.bookSide
      (restLadder r.order.bookSide r j (L.ladder r.order.bookSide)) := rfl
  have hsorted := h.sorted r.order.bookSide
  have hperm := perm_restLadder (r := r) j hsorted
  have hstay : ∀ e, e ∈ (L.resting r.order.bookSide).map Resting.entry →
      e ∈ (restingOf (restLadder r.order.bookSide r j (L.ladder r.order.bookSide))).map
        Resting.entry := by
    intro e he
    rw [(hperm.map _).mem_iff]
    apply List.mem_cons_of_mem _ he
  have hnew : r.entry ∈ (L.put r j).entries := by
    apply mem_entries.mpr
    use r.order.bookSide
    rw [resting, hL', Function.update_self, (hperm.map _).mem_iff]
    apply List.mem_cons_self
  constructor
  · apply h.sorted_update hL' (sorted_restLadder j hsorted)
  · apply h.uncrossed_put j hcross
  · apply forall_ladder_update hL' h.queue_ne_nil
    intro l hl
    rcases mem_restLadder j hsorted hl with hl | ⟨l₀, -, -, rfl⟩ | rfl
    · apply h.queue_ne_nil _ l hl
    · apply List.append_ne_nil_of_right_ne_nil
      apply List.cons_ne_nil
    · apply List.cons_ne_nil
  · apply forall_ladder_update hL' h.price_eq
    intro l hl r' hr'
    rcases mem_restLadder j hsorted hl with hl | ⟨l₀, hl₀, hprice, rfl⟩ | rfl
    · apply h.price_eq _ l hl r' hr'
    · rcases List.mem_append.mp hr' with hr' | hr'
      · apply h.price_eq _ l₀ hl₀ r' hr'
      · rw [List.mem_singleton.mp hr', Level.push, hprice]
    · rw [List.mem_singleton.mp hr']
      rfl
  · apply forall_ladder_update hL' h.qty_pos
    apply forall_queue_restLadder j hsorted (h.qty_pos _) hqty
  · apply forall_ladder_update hL' h.side_eq
    apply forall_queue_restLadder j hsorted (h.side_eq _) rfl
  · intro k e he
    dsimp only [Layout.put] at he
    split at he
    · next hk =>
        obtain rfl := Option.some.inj he
        exact ⟨hnew, hk.symm⟩
    · obtain ⟨hmem, hid⟩ := h.orderIndex_sound k e he
      exact ⟨mem_entries_of_update hL' hmem (hstay e), hid⟩
  · intro u c k he
    dsimp only [Layout.put] at he
    split at he
    · next hk =>
        obtain rfl := Option.some.inj he
        exact ⟨r.entry, hnew, (Prod.ext_iff.mp hk).1.symm, (Prod.ext_iff.mp hk).2.symm, rfl⟩
    · obtain ⟨e, hmem, hdata⟩ := h.clientIndex_sound u c k he
      exact ⟨e, mem_entries_of_update hL' hmem (hstay e), hdata⟩

/-- The levels around a place after its order has left. -/
theorem mem_remove {pl : L.Place} (hl : l ∈ pl.above ++ pl.remains ++ pl.below) :
  l ∈ L.ladder pl.side
    ∨ (pl.front ++ pl.back ≠ [] ∧ l.price = pl.level.price ∧ l.queue = pl.front ++ pl.back)
  := by
  rw [pl.ladder_eq]
  unfold Place.remains at hl
  split at hl
  · simp only [List.mem_append, List.mem_cons, List.append_nil] at hl ⊢
    tauto
  · next hne =>
      rcases List.mem_append.mp hl with hl | hl
      · rcases List.mem_append.mp hl with hl | hl
        · exact Or.inl (List.mem_append_left _ hl)
        · rw [List.mem_singleton.mp hl]
          exact Or.inr ⟨hne, rfl, rfl⟩
      · exact Or.inl (List.mem_append_right _ (List.mem_cons_of_mem _ hl))

/-- An order that an order leaves behind was in its queue. -/
theorem mem_queue_of_mem_append (pl : L.Place) (hr : r ∈ pl.front ++ pl.back) :
  r ∈ pl.level.queue
  := by
  rw [pl.queue_eq]
  simp only [List.mem_append, List.mem_cons] at hr ⊢
  tauto

/-- What holds of the orders of a side holds of those left when one of them is taken out. -/
theorem forall_queue_remove (pl : L.Place) {p : Resting → Prop}
    (h : ∀ l ∈ L.ladder pl.side, ∀ r ∈ l.queue, p r) :
  ∀ l ∈ pl.above ++ pl.remains ++ pl.below, ∀ r ∈ l.queue, p r
  := by
  intro l hl r hr
  rcases mem_remove hl with hl | ⟨-, -, hq⟩
  · apply h l hl r hr
  · apply h pl.level pl.level_mem r (mem_queue_of_mem_append pl (hq ▸ hr))

theorem perm_remove (pl : L.Place) :
  (L.resting pl.side).Perm
    (pl.order :: restingOf (pl.above ++ pl.remains ++ pl.below))
  := by
  rw [resting, pl.ladder_eq]
  apply List.perm_iff_count.mpr
  intro r
  unfold Place.remains
  split
  · next hnil =>
      obtain ⟨hfront, hback⟩ := List.append_eq_nil_iff.mp hnil
      simp only [restingOf_append, restingOf_cons, pl.queue_eq, hfront, hback, List.count_append,
        List.count_cons, List.count_nil, List.append_nil]
      omega
  · simp only [restingOf_append, restingOf_cons, restingOf_nil, pl.queue_eq, List.count_append,
      List.count_cons, List.count_nil]
    omega

theorem sorted_remove (h : L.WellFormed) (pl : L.Place) :
  (pl.above ++ pl.remains ++ pl.below).Pairwise fun l l' => pl.side.before l.price l'.price
  := by
  have hsorted := h.sorted pl.side
  rw [pl.ladder_eq] at hsorted
  unfold Place.remains
  split
  · rw [List.append_nil]
    apply List.Pairwise.sublist _ hsorted
    apply List.Sublist.append_left
    apply List.sublist_cons_self
  · rw [List.append_assoc, List.singleton_append]
    simp only [List.pairwise_append, List.pairwise_cons, List.mem_cons] at hsorted ⊢
    grind

/-- An order is taken out. -/
theorem remove (h : L.WellFormed) (pl : L.Place) :
  (L.remove pl).WellFormed
  := by
  have hL' : (L.remove pl).ladder
      = Function.update L.ladder pl.side (pl.above ++ pl.remains ++ pl.below) := rfl
  have hlevel := pl.level_mem
  have hstay : ∀ e : FastIndexEntry, e ≠ pl.order.entry →
      e ∈ (L.resting pl.side).map Resting.entry →
      e ∈ (restingOf (pl.above ++ pl.remains ++ pl.below)).map Resting.entry := by
    intro e hne he
    rw [((perm_remove pl).map _).mem_iff, List.map_cons] at he
    apply (List.mem_cons.mp he).resolve_left hne
  constructor
  · apply h.sorted_update hL' (h.sorted_remove pl)
  · apply h.uncrossed_update hL'
    intro l hl
    rcases mem_remove hl with hl | ⟨-, hprice, -⟩
    · exact ⟨l, hl, rfl⟩
    · exact ⟨pl.level, hlevel, hprice⟩
  · apply forall_ladder_update hL' h.queue_ne_nil
    intro l hl
    rcases mem_remove hl with hl | ⟨hne, -, hq⟩
    · apply h.queue_ne_nil _ l hl
    · rw [hq]
      apply hne
  · apply forall_ladder_update hL' h.price_eq
    intro l hl r hr
    rcases mem_remove hl with hl | ⟨-, hprice, hq⟩
    · apply h.price_eq _ l hl r hr
    · rw [hprice]
      apply h.price_eq _ pl.level hlevel r (mem_queue_of_mem_append pl (hq ▸ hr))
  · apply forall_ladder_update hL' h.qty_pos
    apply forall_queue_remove pl (h.qty_pos _)
  · apply forall_ladder_update hL' h.side_eq
    apply forall_queue_remove pl (h.side_eq _)
  · intro k e he
    dsimp only [Layout.remove] at he
    split at he
    · contradiction
    next hk =>
    obtain ⟨hmem, rfl⟩ := h.orderIndex_sound k e he
    refine ⟨mem_entries_of_update hL' hmem (hstay e ?_), rfl⟩
    rintro rfl
    exact hk rfl
  · intro u c k he
    dsimp only [Layout.remove] at he
    split at he
    · contradiction
    next hk =>
    obtain ⟨e, hmem, rfl, rfl, rfl⟩ := h.clientIndex_sound u c k he
    refine ⟨e, mem_entries_of_update hL' hmem (hstay e ?_), rfl, rfl, rfl⟩
    rintro rfl
    exact hk rfl

/-- What a cancel acts on is a resting order, which it names by the exchange identifier or,
if that finds nothing, through the client identifier of an order of the requesting user. -/
theorem findEntry_sound (h : L.WellFormed) {u k : UInt64} {e : FastIndexEntry}
    (he : L.findEntry u k = .ok e) :
  e ∈ L.entries ∧ (e.orderId = k
    ∨ ∃ e' ∈ L.entries, e'.userId = u ∧ e'.clientOrderId = k ∧ e'.orderId = e.orderId)
  := by
  unfold findEntry at he
  cases hk : L.orderIndex k with
  | some e₁ =>
      rw [hk] at he
      obtain rfl := Except.ok.inj he
      obtain ⟨hmem, hid⟩ := h.orderIndex_sound k e₁ hk
      exact ⟨hmem, Or.inl hid⟩
  | none =>
      rw [hk] at he
      cases hc : L.clientIndex u k with
      | none => simp [hc] at he
      | some exchangeId =>
          simp only [hc] at he
          cases hx : L.orderIndex exchangeId with
          | none => simp [hx] at he
          | some e₁ =>
              simp only [hx] at he
              obtain rfl := Except.ok.inj he
              obtain ⟨hmem, hid⟩ := h.orderIndex_sound exchangeId e₁ hx
              obtain ⟨e', hmem', hu, hcid, hid'⟩ := h.clientIndex_sound u k exchangeId hc
              exact ⟨hmem, Or.inr ⟨e', hmem', hu, hcid, hid'.trans hid.symm⟩⟩

/-- The entry a cancel acts on is that of the order at a place. -/
theorem exists_place_of_findEntry (h : L.WellFormed) {u k : UInt64} {e : FastIndexEntry}
    (he : L.findEntry u k = .ok e) :
  ∃ pl : L.Place, pl.order.entry = e
  := by
  obtain ⟨s, hmem⟩ := mem_entries.mp (h.findEntry_sound he).1
  obtain ⟨r, hr, rfl⟩ := List.mem_map.mp hmem
  obtain ⟨pl, -, rfl⟩ := exists_place hr
  exact ⟨pl, rfl⟩

theorem rest (h : L.WellFormed) {o : Order} (clientId : UInt64) (hqty : 0 < o.qty)
    (hcross : ∀ l ∈ L.ladder o.bookSide.opposite, o.bookSide.opposite.before o.price l.price) :
  (L.rest o clientId).2.WellFormed
  := by
  unfold Layout.rest
  cases L.freeOrders with
  | nil => apply h
  | cons i freeOrders =>
      -- resting does not look at the slots that are left over
      have hput : ∀ L' : Layout, L'.ladder = L.ladder → L'.orderIndex = L.orderIndex →
          L'.clientIndex = L.clientIndex → ∀ j, (L'.put ⟨i, o, clientId⟩ j).WellFormed := by
        intro L' hladder horder hclient j
        apply put (h.congr hladder horder hclient) j hqty
        rw [hladder]
        apply hcross
      dsimp only
      split
      · exact hput _ (by rfl) (by rfl) (by rfl) _
      · cases L.freeLevels with
        | nil => exact h.congr rfl rfl rfl
        | cons j freeLevels => exact hput _ (by rfl) (by rfl) (by rfl) _

/-- Processing an order keeps a layout well-formed. -/
theorem process (h : L.WellFormed) (o : Order) (clientId : UInt64) (trades : List Trade) :
  (L.process o clientId trades).2.1.WellFormed
  := by
  have h₀ : (L.stampId o).2.WellFormed := by
    unfold Layout.stampId
    split <;> exact h.congr rfl rfl rfl
  unfold Layout.process
  dsimp only
  generalize (L.stampId o).1 = o₁
  generalize (L.stampId o).2 = L₀ at h₀ ⊢
  have h₁ := h₀.matched o₁.takesFrom (o₁.accepts o₁.takesFrom) clientId o₁ L₀.tradeIdCounter
  split
  · next hrest =>
      obtain ⟨hstp, hqty, hlimit⟩ := hrest
      have htaker := taker_matchLadder (o₁.accepts o₁.takesFrom) clientId o₁ L₀.tradeIdCounter
        (L₀.ladder o₁.takesFrom)
      have hcross : ∀ l ∈ (matchLadder (o₁.accepts o₁.takesFrom) clientId o₁ L₀.tradeIdCounter
          (L₀.ladder o₁.takesFrom)).ladder, o₁.takesFrom.before o₁.price l.price := fun l hl =>
        h₀.before_of_mem_matched hlimit hstp (UInt64.ne_zero_iff_pos.mpr hqty) hl
      generalize matchLadder (o₁.accepts o₁.takesFrom) clientId o₁ L₀.tradeIdCounter
        (L₀.ladder o₁.takesFrom) = m at h₁ hqty htaker hcross ⊢
      have hopp : ∀ l ∈ (L₀.matched o₁.takesFrom m).ladder m.taker.bookSide.opposite,
          m.taker.bookSide.opposite.before m.taker.price l.price := by
        intro l hl
        rw [htaker] at hl ⊢
        have hladder := Function.update_self o₁.takesFrom m.ladder L₀.ladder
        exact hcross l (hladder ▸ hl)
      have h₂ := h₁.rest clientId hqty hopp
      generalize (L₀.matched o₁.takesFrom m).rest m.taker clientId = res at h₂ ⊢
      obtain ⟨_ | _, L₂⟩ := res <;> exact h₂
  · apply h₁

end WellFormed

end Layout

end LimitOrderBook
