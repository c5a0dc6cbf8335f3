import LimitOrderBook.Ladders
import LimitOrderBook.WellFormed

/-!
# The book simulates its layout

Each operation of the book, from a book with a layout, answers what the operation on the
layout answers, and leaves a book with the layout that one leaves.  The matching loops are
followed by induction on the queue and on the ladder.
-/

namespace LimitOrderBook

open Intrusive

namespace OrderBook

variable {b b' : OrderBook} {L L' : Layout} {s : Side} {l l' : Level} {ls ls₁ ls₂ : List Level}
  {r : Resting} {q : List Resting}

namespace HasLayout

/-! ### One fill -/

/-- A fill that leaves the resting order with quantity. -/
theorem fillHead_of_partial (h : b.HasLayout L) (hl : L.ladder s = l :: ls)
    (hq : l.queue = r :: q) (takerClientId : UInt64) (taker : Order) (trades : List Trade)
    (stp : Bool) {qty : UInt64} (hqty : qty = min taker.qty r.order.qty)
    (hne : r.order.qty - qty ≠ 0) :
  ∃ b', fillHead takerClientId l.slot ⟨b, taker, trades, stp⟩
      = ⟨b', taker.reduce qty,
          trades ++ [tradeOf L.tradeIdCounter r.order taker r.clientId takerClientId qty], stp⟩
    ∧ b'.HasLayout (L.matched s
        ⟨taker.reduce qty,
          { l with queue := r.reduce qty :: q, totalQty := l.totalQty - qty } :: ls,
          [], [], [], L.tradeIdCounter + 1, false⟩)
  := by
  have hmem : l ∈ L.levels := Layout.mem_levels.mpr ⟨s, by rw [hl]; exact List.mem_cons_self⟩
  have hr : r ∈ l.queue := by rw [hq]; exact List.mem_cons_self
  have hhead := h.headOrder_eq hmem hq
  have horder := (h.stored hmem).order_eq r hr
  have hclient := (h.stored hmem).clientId_eq r hr
  have hl' : L.ladder s = [] ++ l :: ls := hl
  use
    { b with
      tradeIdCounter := b.tradeIdCounter + 1
      orderArena := b.orderArena.modify r.slot fun n =>
        { n with order := { n.order with qty := n.order.qty - qty } }
      levelArena := b.levelArena.modify l.slot fun n =>
        { n with totalQty := n.totalQty - qty } }
  constructor
  · simp only [fillHead, hhead, horder, hclient, ← hqty, h.tradeIdCounter_eq]
    rw [if_neg]
    · rfl
    · simp only [OrderArena.modify, Function.update_self, horder]
      apply hne
  · apply h.of_storage hl' rfl
    · apply (h.storage_of_eq hl').reduce hq
    · rfl
    · rfl
    · intro s'
      cases s' <;> rfl
    · apply PriceLevelArena.comp_modify_of_eq rfl
    · apply PriceLevelArena.comp_modify_of_eq rfl
    · rfl
    · refine ⟨h.orderIndex_valid, ?_⟩
      simpa [Layout.matched] using h.orderIndex_eq
    · refine ⟨h.clientIndex_valid, ?_⟩
      simpa [Layout.matched] using h.clientIndex_eq
    · simp [Layout.matched, h.tradeIdCounter_eq]
    · apply h.orderIdCounter_eq

/-- A fill that takes the resting order whole. -/
theorem fillHead_of_whole (h : b.HasLayout L) (hl : L.ladder s = l :: ls)
    (hq : l.queue = r :: q) (takerClientId : UInt64) (taker : Order) (trades : List Trade)
    (stp : Bool) {qty : UInt64} (hqty : qty = min taker.qty r.order.qty)
    (hzero : r.order.qty - qty = 0) :
  ∃ b', fillHead takerClientId l.slot ⟨b, taker, trades, stp⟩
      = ⟨b', taker.reduce qty,
          trades ++ [tradeOf L.tradeIdCounter r.order taker r.clientId takerClientId qty], stp⟩
    ∧ b'.HasLayout (L.matched s
        ⟨taker.reduce qty, { l with queue := q, totalQty := l.totalQty - qty } :: ls,
          [], [r], [], L.tradeIdCounter + 1, false⟩)
  := by
  have hmem : l ∈ L.levels := Layout.mem_levels.mpr ⟨s, by rw [hl]; exact List.mem_cons_self⟩
  have hr : r ∈ l.queue := by rw [hq]; exact List.mem_cons_self
  have hhead := h.headOrder_eq hmem hq
  have horder := (h.stored hmem).order_eq r hr
  have hclient := (h.stored hmem).clientId_eq r hr
  have hl' : L.ladder s = [] ++ l :: ls := hl
  obtain ⟨level, arena, hpop, hst, hnext, hprev⟩ :=
    ((h.storage_of_eq hl').reduce hq qty).pop rfl
  dsimp only at hpop hst hnext hprev
  rw [Resting.slot_reduce] at hpop hst
  have hremove : (r.reduce qty).order.qty = 0 := hzero
  rw [hremove, UInt64.saturatingSub_zero] at hst
  have hid : ((b.orderArena.modify r.slot fun n =>
      { n with order := { n.order with qty := n.order.qty - qty } }).nodes r.slot).order
      = (r.reduce qty).order := by
    simp only [OrderArena.modify, Function.update_self, horder, Resting.reduce]
  simp only [fillHead, hhead, horder, hclient, ← hqty, h.tradeIdCounter_eq, hid, hremove, if_true,
    hpop]
  refine ⟨_, rfl, ?_⟩
  apply h.of_storage hl' rfl
  · apply hst
  · rfl
  · rfl
  · intro s'
    cases s' <;> rfl
  · refine (PriceLevelArena.comp_modify_of_eq hnext).trans ?_
    apply PriceLevelArena.comp_modify_of_eq rfl
  · refine (PriceLevelArena.comp_modify_of_eq hprev).trans ?_
    apply PriceLevelArena.comp_modify_of_eq rfl
  · rfl
  · obtain ⟨hvalid, hlookup⟩ := FastOrderIndex.remove_spec h.orderIndex_valid r.order.id
    refine ⟨hvalid, ?_⟩
    intro k
    simpa [Layout.matched, h.orderIndex_eq, Resting.reduce] using hlookup k
  · obtain ⟨hvalid, hlookup⟩ := FastClientIndex.remove_spec h.clientIndex_valid r.order.userId
      r.order.clientOrderId
    refine ⟨hvalid, ?_⟩
    intro u c
    simpa [Layout.matched, h.clientIndex_eq, Resting.clientKey, Resting.reduce] using hlookup u c
  · rfl
  · apply h.orderIdCounter_eq

/-! ### Matching -/

/-- What the loop over one level does to the layout. -/
def queueFills (l : Level) (ls : List Level) (qty : UInt64) (m : Fills) : LadderFills :=
  ⟨m.taker, l.matched qty m :: ls, [], m.filled, m.trades, m.nextId, m.stp⟩

theorem matched_queueFills_self (hl : L.ladder s = l :: ls) (hq : l.queue = q) (taker : Order)
    (trades : List Trade) (stp : Bool) :
  L.matched s (queueFills l ls taker.qty ⟨taker, q, [], trades, L.tradeIdCounter, stp⟩) = L
  := by
  apply Layout.matched_self _ rfl rfl rfl
  simp [queueFills, Level.matched, hl, ← hq]

/-- A fill of `qty`, and then what the rest of the taker does to the rest of the queue. -/
theorem matched_queueFills_matched {qty : UInt64} (L : Layout) (l : Level) (taker : Order)
    (m : Fills) (m₁ : LadderFills) :
  (L.matched s m₁).matched s
      (queueFills { l with queue := q, totalQty := l.totalQty - qty } ls (taker.reduce qty).qty m)
    = L.matched s
        { queueFills l ls taker.qty m with
          emptied := m₁.emptied, filled := m₁.filled ++ m.filled }
  := by
  have htotal : l.totalQty - qty - (taker.qty - qty - m.taker.qty)
      = l.totalQty - (taker.qty - m.taker.qty) := by grind
  rw [Layout.matched_matched]
  simp only [queueFills, Level.matched, Order.reduce, htotal, List.append_nil]

/-- One round of the loop over a level, by the head of its queue. -/
theorem matchLevelStep_eq (h : b.HasLayout L) (hl : L.ladder s = l :: ls) (hq : l.queue = r :: q)
    (takerClientId : UInt64) (taker : Order) (trades : List Trade) :
  matchLevelStep takerClientId l.slot ⟨b, taker, trades, false⟩
    = if taker.qty = 0 then none
      else if r.order.userId = taker.userId then some ⟨b, taker, trades, true⟩
      else some (fillHead takerClientId l.slot ⟨b, taker, trades, false⟩)
  := by
  have hmem : l ∈ L.levels := Layout.mem_levels.mpr ⟨s, by rw [hl]; exact List.mem_cons_self⟩
  have hr : r ∈ l.queue := by rw [hq]; exact List.mem_cons_self
  have hempty : (b.levelArena.nodes l.slot).isEmpty = false := by
    rw [Bool.eq_false_iff, ne_eq, h.isEmpty_iff hmem, hq]
    apply List.cons_ne_nil
  simp only [matchLevelStep, hempty, h.headOrder_eq hmem hq, (h.stored hmem).order_eq r hr,
    and_true, Bool.false_eq_true, if_false, ← UInt64.ne_zero_iff_pos, ne_eq, ite_not]

/-- The loop over the level `l` leaves what `m` says of a book with the layout `L`. -/
def MatchesLevel (b : OrderBook) (L : Layout) (s : Side) (l : Level) (ls : List Level)
    (takerClientId : UInt64) (fuel : Nat) (taker : Order) (trades : List Trade) (m : Fills) : Prop :=
  ∃ b', While.run (matchLevelStep takerClientId l.slot) fuel ⟨b, taker, trades, false⟩
      = ⟨b', m.taker, trades ++ m.trades, m.stp⟩
    ∧ b'.HasLayout (L.matched s (queueFills l ls taker.qty m))

/-- The loop over a level stops at once. -/
theorem matchesLevel_of_none (h : b.HasLayout L) (hl : L.ladder s = l :: ls) (hq : l.queue = q)
    {takerClientId : UInt64} {taker : Order} {trades : List Trade} (fuel : Nat)
    (hstep : matchLevelStep takerClientId l.slot ⟨b, taker, trades, false⟩ = none) :
  MatchesLevel b L s l ls takerClientId fuel taker trades
    ⟨taker, q, [], [], L.tradeIdCounter, false⟩
  := by
  refine ⟨b, ?_, ?_⟩
  · rw [While.run_of_none hstep, List.append_nil]
  · rw [matched_queueFills_self hl hq]
    apply h

/-- The loop over a level meets an order of the taker's user. -/
theorem matchesLevel_of_prevented (h : b.HasLayout L) (hl : L.ladder s = l :: ls)
    (hq : l.queue = q) {takerClientId : UInt64} {taker : Order} {trades : List Trade} (fuel : Nat)
    (hstep : matchLevelStep takerClientId l.slot ⟨b, taker, trades, false⟩
      = some ⟨b, taker, trades, true⟩) :
  MatchesLevel b L s l ls takerClientId (fuel + 1) taker trades
    ⟨taker, q, [], [], L.tradeIdCounter, true⟩
  := by
  refine ⟨b, ?_, ?_⟩
  · rw [While.run_of_some hstep, While.run_of_none, List.append_nil]
    simp [matchLevelStep]
  · rw [matched_queueFills_self hl hq]
    apply h

/-- The loop over a level fills its first order and goes on with the rest of its queue. -/
theorem matchesLevel_of_whole (h : b.HasLayout L) (hl : L.ladder s = l :: ls)
    (hq : l.queue = r :: q) {takerClientId : UInt64} {taker : Order} {trades : List Trade}
    {fuel : Nat} {qty : UInt64} (hqty : qty = min taker.qty r.order.qty)
    (hstep : matchLevelStep takerClientId l.slot ⟨b, taker, trades, false⟩
      = some (fillHead takerClientId l.slot ⟨b, taker, trades, false⟩))
    (hzero : r.order.qty - qty = 0) {m : Fills}
    (hrest : ∀ b₁ L₁ l₁, HasLayout b₁ L₁ → L₁.ladder s = l₁ :: ls → l₁.queue = q →
      L₁.tradeIdCounter = L.tradeIdCounter + 1 → ∀ trades₁,
      MatchesLevel b₁ L₁ s l₁ ls takerClientId fuel (taker.reduce qty) trades₁ m) :
  MatchesLevel b L s l ls takerClientId (fuel + 1) taker trades
    { m with
      filled := r :: m.filled
      trades := tradeOf L.tradeIdCounter r.order taker r.clientId takerClientId qty :: m.trades }
  := by
  obtain ⟨b₁, hfill, h₁⟩ := h.fillHead_of_whole hl hq takerClientId taker trades false hqty hzero
  obtain ⟨b₂, hrun, h₂⟩ := hrest b₁ _ _ h₁ (Function.update_self ..) rfl rfl
    (trades ++ [tradeOf L.tradeIdCounter r.order taker r.clientId takerClientId qty])
  refine ⟨b₂, ?_, ?_⟩
  · rw [While.run_of_some hstep, hfill, hrun, List.append_assoc]
    rfl
  · rw [matched_queueFills_matched] at h₂
    apply h₂

/-- The first order of a level is more than the taker wants. -/
theorem matchesLevel_of_partial (h : b.HasLayout L) (hl : L.ladder s = l :: ls)
    (hq : l.queue = r :: q) {takerClientId : UInt64} {taker : Order} {trades : List Trade}
    (fuel : Nat) {qty : UInt64} (hqty : qty = min taker.qty r.order.qty)
    (hstep : matchLevelStep takerClientId l.slot ⟨b, taker, trades, false⟩
      = some (fillHead takerClientId l.slot ⟨b, taker, trades, false⟩))
    (hzero : r.order.qty - qty ≠ 0) :
  MatchesLevel b L s l ls takerClientId (fuel + 1) taker trades
    ⟨taker.reduce qty, r.reduce qty :: q, [],
      [tradeOf L.tradeIdCounter r.order taker r.clientId takerClientId qty],
      L.tradeIdCounter + 1, false⟩
  := by
  obtain ⟨b₁, hfill, h₁⟩ := h.fillHead_of_partial hl hq takerClientId taker trades false hqty hzero
  have hspent : (taker.reduce qty).qty = 0 := by
    apply UInt64.toNat_inj.mp
    subst hqty
    rw [Order.reduce, UInt64.toNat_sub_min]
    rw [ne_eq, ← UInt64.toNat_inj, UInt64.toNat_sub_min'] at hzero
    simp only [UInt64.toNat_zero] at *
    omega
  have htotal : l.totalQty - (taker.qty - (taker.reduce qty).qty) = l.totalQty - qty := by
    simp only [Order.reduce]
    grind
  refine ⟨b₁, ?_, ?_⟩
  · rw [While.run_of_some hstep, hfill]
    apply While.run_of_none
    simp [matchLevelStep, hspent]
  · simp only [queueFills, Level.matched, htotal]
    apply h₁

theorem run_matchLevel (takerClientId : UInt64) {fuel : Nat} (hfuel : q.length < fuel)
    (h : b.HasLayout L) (hl : L.ladder s = l :: ls) (hq : l.queue = q) (taker : Order)
    (trades : List Trade) :
  MatchesLevel b L s l ls takerClientId fuel taker trades
    (matchOrders (fun _ => true) takerClientId taker L.tradeIdCounter q)
  := by
  induction q generalizing b L l fuel taker trades with
  | nil =>
      have hmem : l ∈ L.levels := Layout.mem_levels.mpr ⟨s, by rw [hl]; exact List.mem_cons_self⟩
      apply matchesLevel_of_none h hl hq
      simp [matchLevelStep, (h.isEmpty_iff hmem).mpr hq]
  | cons r q ih =>
      obtain ⟨fuel, rfl⟩ : ∃ n, fuel = n + 1 := ⟨fuel - 1, by omega⟩
      have hstep := matchLevelStep_eq h hl hq takerClientId taker trades
      rw [matchOrders]
      by_cases hqty : taker.qty = 0
      · rw [if_pos hqty] at hstep
        rw [if_pos (Or.inl hqty)]
        apply matchesLevel_of_none h hl hq _ hstep
      rw [if_neg hqty] at hstep
      rw [if_neg (by simp [hqty])]
      by_cases huser : r.order.userId = taker.userId
      · rw [if_pos huser] at hstep
        rw [if_pos huser]
        apply matchesLevel_of_prevented h hl hq _ hstep
      rw [if_neg huser] at hstep
      rw [if_neg huser]
      by_cases hzero : r.order.qty - min taker.qty r.order.qty = 0
      · rw [if_pos hzero]
        apply matchesLevel_of_whole h hl hq rfl hstep hzero
        intro b₁ L₁ l₁ h₁ hl₁ hq₁ hid trades₁
        rw [← hid]
        apply ih (by simpa using hfuel) h₁ hl₁ hq₁
      · rw [if_neg hzero]
        apply matchesLevel_of_partial h hl hq _ rfl hstep hzero

theorem matchLevel_eq (takerClientId : UInt64) (h : b.HasLayout L) (hl : L.ladder s = l :: ls)
    (taker : Order) (trades : List Trade) :
  ∃ b', matchLevel takerClientId l.slot ⟨b, taker, trades, false⟩
      = ⟨b', (matchOrders (fun _ => true) takerClientId taker L.tradeIdCounter l.queue).taker,
          trades ++ (matchOrders (fun _ => true) takerClientId taker L.tradeIdCounter l.queue).trades,
          (matchOrders (fun _ => true) takerClientId taker L.tradeIdCounter l.queue).stp⟩
    ∧ b'.HasLayout (L.matched s (queueFills l ls taker.qty
        (matchOrders (fun _ => true) takerClientId taker L.tradeIdCounter l.queue)))
  := by
  apply run_matchLevel takerClientId _ h hl rfl
  have hl' : L.ladder s = [] ++ l :: ls := hl
  have hlen := (h.storage_of_eq hl').orders.pool.length_add
  rw [h.storage.orders.capacity_eq, restingOf_cons] at hlen
  simp only [List.length_append, List.length_map] at hlen
  omega

/-- One round of the loop over a ladder, by its first level. -/
theorem matchStep_eq (h : b.HasLayout L) (hl : L.ladder s = l :: ls) (clientId : UInt64)
    (taker : Order) (trades : List Trade) :
  matchStep s (fun best price => s.before price best) clientId ⟨b, taker, trades, false⟩
    = if taker.qty = 0 ∨ taker.accepts s l.price = false then none
      else
        let m := matchLevel clientId l.slot ⟨b, taker, trades, false⟩
        if (m.book.levelArena.nodes l.slot).isEmpty then
          some { m with book := m.book.retireLevel l.slot l.price (s == .sell) }
        else
          some m
  := by
  have hmem : l ∈ L.levels := Layout.mem_levels.mpr ⟨s, by rw [hl]; exact List.mem_cons_self⟩
  have hne := h.level_ne_null hmem
  by_cases hqty : taker.qty = 0
  · simp [matchStep, hqty]
  have hpos : 0 < taker.qty := UInt64.ne_zero_iff_pos.mp hqty
  by_cases hlimit : taker.kind = .limit ∧ s.before taker.price l.price
  · simp [matchStep, h.best_eq hl, hne, hpos, (h.stored hmem).price_eq, hlimit, Order.accepts]
  by_cases hmarket : taker.kind = .market ∧ 0 < taker.price ∧ s.before taker.price l.price
  · simp [matchStep, h.best_eq hl, hne, hpos, (h.stored hmem).price_eq, hmarket, Order.accepts]
  have haccepts : taker.accepts s l.price = true := by
    simp only [Order.accepts, Bool.and_eq_true, Bool.not_eq_true', Bool.and_eq_false_imp,
      beq_iff_eq, decide_eq_true_eq]
    grind
  simp only [matchStep, h.best_eq hl, (h.stored hmem).price_eq, hpos, hne, ne_eq,
    not_false_eq_true, and_self, Bool.false_eq_true, if_false, if_true, hlimit, hmarket, hqty,
    haccepts, Bool.true_eq_false, or_self]

/-- The loop over a ladder leaves what `m` says of a book with the layout `L`. -/
def MatchesLadder (b : OrderBook) (L : Layout) (s : Side) (clientId : UInt64) (fuel : Nat)
    (taker : Order) (trades : List Trade) (m : LadderFills) : Prop :=
  ∃ b', While.run (matchStep s (fun best price => s.before price best) clientId) fuel
      ⟨b, taker, trades, false⟩ = ⟨b', m.taker, trades ++ m.trades, m.stp⟩
    ∧ b'.HasLayout (L.matched s m)

/-- The loop over a ladder stops at once. -/
theorem matchesLadder_of_none (h : b.HasLayout L) (hl : L.ladder s = ls) {clientId : UInt64}
    {taker : Order} {trades : List Trade} (fuel : Nat)
    (hstep : matchStep s (fun best price => s.before price best) clientId
      ⟨b, taker, trades, false⟩ = none) :
  MatchesLadder b L s clientId fuel taker trades
    ⟨taker, ls, [], [], [], L.tradeIdCounter, false⟩
  := by
  refine ⟨b, ?_, ?_⟩
  · rw [While.run_of_none hstep, List.append_nil]
  · rw [Layout.matched_self hl.symm rfl rfl rfl]
    apply h

section

variable {clientId : UInt64} {taker : Order} {trades : List Trade} {m : Fills} {b₁ : OrderBook}
  (h₁ : b₁.HasLayout (L.matched s (queueFills l ls taker.qty m)))

include h₁

theorem isEmpty_iff_left :
  (b₁.levelArena.nodes l.slot).isEmpty = true ↔ m.left = []
  := by
  have hl₁ : (L.matched s (queueFills l ls taker.qty m)).ladder s = l.matched taker.qty m :: ls :=
    Function.update_self ..
  have hmem : l.matched taker.qty m ∈ (L.matched s (queueFills l ls taker.qty m)).levels :=
    Layout.mem_levels.mpr ⟨s, by rw [hl₁]; exact List.mem_cons_self⟩
  apply h₁.isEmpty_iff hmem

/-- The taker empties a level: it is retired, and the loop goes on with the levels below. -/
theorem matchesLadder_of_emptied (hleft : m.left = []) {fuel : Nat} {rest : LadderFills}
    (hstep : matchStep s (fun best price => s.before price best) clientId
      ⟨b, taker, trades, false⟩
        = some ⟨b₁.retireLevel l.slot l.price (s == .sell), m.taker, trades ++ m.trades, false⟩)
    (hrest : ∀ b₂ L₂, HasLayout b₂ L₂ → L₂.ladder s = ls → L₂.tradeIdCounter = m.nextId →
      MatchesLadder b₂ L₂ s clientId fuel m.taker (trades ++ m.trades) rest) :
  MatchesLadder b L s clientId (fuel + 1) taker trades
    { rest with
      emptied := l.slot :: rest.emptied
      filled := m.filled ++ rest.filled
      trades := m.trades ++ rest.trades }
  := by
  have hl₁ : (L.matched s (queueFills l ls taker.qty m)).ladder s
      = [] ++ l.matched taker.qty m :: ls := Function.update_self ..
  have h₂ : (b₁.retireLevel l.slot l.price (s == .sell)).HasLayout
      (L.matched s ⟨m.taker, ls, [l.slot], m.filled, m.trades, m.nextId, m.stp⟩) := by
    have hretired := h₁.retireLevel hl₁ hleft
    simpa [Layout.matched, queueFills, Level.matched] using hretired
  obtain ⟨b₃, hrun, h₃⟩ := hrest _ _ h₂ (Function.update_self ..) rfl
  refine ⟨b₃, ?_, ?_⟩
  · rw [While.run_of_some hstep, hrun, List.append_assoc]
  · rw [Layout.matched_matched] at h₃
    apply h₃

/-- The taker stops within a level. -/
theorem matchesLadder_of_done (hdone : m.stp = true ∨ m.taker.qty = 0) (fuel : Nat)
    (hstep : matchStep s (fun best price => s.before price best) clientId
      ⟨b, taker, trades, false⟩ = some ⟨b₁, m.taker, trades ++ m.trades, m.stp⟩) :
  MatchesLadder b L s clientId (fuel + 1) taker trades (queueFills l ls taker.qty m)
  := by
  refine ⟨b₁, ?_, h₁⟩
  rw [While.run_of_some hstep]
  apply While.run_of_none
  rcases hdone with hstp | hqty
  · simp [matchStep, hstp]
  · simp [matchStep, hqty]

end

theorem run_matchLadder (clientId : UInt64) {fuel : Nat} (hfuel : ls.length < fuel)
    (h : b.HasLayout L) (hl : L.ladder s = ls) (taker : Order) (trades : List Trade) :
  MatchesLadder b L s clientId fuel taker trades
    (matchLadder (taker.accepts s) clientId taker L.tradeIdCounter ls)
  := by
  induction ls generalizing b L fuel taker trades with
  | nil =>
      apply matchesLadder_of_none h hl
      simp [matchStep, (h.best_eq_null_iff s).mpr hl]
  | cons l ls ih =>
      obtain ⟨fuel, rfl⟩ : ∃ n, fuel = n + 1 := ⟨fuel - 1, by omega⟩
      have hstep := matchStep_eq h hl clientId taker trades
      rw [matchLadder]
      by_cases hstop : taker.qty = 0 ∨ taker.accepts s l.price = false
      · rw [if_pos hstop] at hstep ⊢
        apply matchesLadder_of_none h hl _ hstep
      rw [if_neg hstop] at hstep ⊢
      obtain ⟨b₁, hlevel, h₁⟩ := matchLevel_eq clientId h hl taker trades
      have htaker := taker_matchOrders (fun _ => true) clientId taker L.tradeIdCounter l.queue
      have hstops := matchOrders_stops clientId taker L.tradeIdCounter l.queue
      rw [hlevel] at hstep
      generalize matchOrders (fun _ => true) clientId taker L.tradeIdCounter l.queue = m
        at hstep h₁ htaker hstops ⊢
      have haccepts : taker.accepts s = m.taker.accepts s := by
        rw [htaker]
        rfl
      dsimp only at hstep
      rcases hstops with ⟨hleft, hstp⟩ | ⟨hleft, hdone⟩
      · rw [if_pos ((isEmpty_iff_left h₁).mpr hleft), hstp] at hstep
        rw [if_pos hleft]
        apply matchesLadder_of_emptied h₁ hleft hstep
        intro b₂ L₂ h₂ hl₂ hid
        rw [haccepts, ← hid]
        apply ih (by simpa using hfuel) h₂ hl₂
      · rw [if_neg fun hempty => hleft ((isEmpty_iff_left h₁).mp hempty)] at hstep
        rw [if_neg hleft]
        apply matchesLadder_of_done h₁ hdone _ hstep

/-! ### Resting -/

theorem resting_length_le (h : b.HasLayout L) :
  (restingOf L.levels).length ≤ MAX_ARENA_ORDERS
  := by
  have hlen := h.storage.orders.pool.length_add
  rw [h.storage.orders.capacity_eq] at hlen
  simp only [List.length_append, List.length_map] at hlen
  omega

/-- Every entry of the order index is that of a resting order. -/
theorem orderIndex_count_le (h : b.HasLayout L) (hw : L.WellFormed) :
  b.orderIndex.count ≤ (restingOf L.levels).length
  := by
  have hle : b.orderIndex.count ≤ (L.entries.map (·.orderId)).length := by
    apply h.orderIndex_valid.count_le_length
    intro k e hlookup
    have he : L.orderIndex k = some e := by
      rw [← h.orderIndex_eq]
      apply hlookup
    obtain ⟨hmem, rfl⟩ := hw.orderIndex_sound k e he
    apply List.mem_map_of_mem hmem
  rw [List.length_map, Layout.entries, List.length_map] at hle
  apply hle

theorem clientIndex_count_le (h : b.HasLayout L) (hw : L.WellFormed) :
  b.clientOrderIndex.count ≤ (restingOf L.levels).length
  := by
  have hle : b.clientOrderIndex.count
      ≤ (L.entries.map fun e => (e.userId, e.clientOrderId)).length := by
    apply FastClientIndex.count_le_length h.clientIndex_valid
    intro u c k hlookup
    rw [h.clientIndex_eq] at hlookup
    obtain ⟨e, hmem, rfl, rfl, -⟩ := hw.clientIndex_sound u c k hlookup
    apply List.mem_map_of_mem hmem
  rw [List.length_map, Layout.entries, List.length_map] at hle
  apply hle

theorem orderIndex_count_lt (h : b.HasLayout L) (hw : L.WellFormed) :
  b.orderIndex.count < FastOrderIndex.scheme.limit
  := by
  have hle := h.orderIndex_count_le hw
  have hlen := h.resting_length_le
  have hlimit : MAX_ARENA_ORDERS < FastOrderIndex.scheme.limit := by decide
  omega

theorem clientIndex_count_lt (h : b.HasLayout L) (hw : L.WellFormed) :
  b.clientOrderIndex.count < FastClientIndex.scheme.limit
  := by
  have hle := h.clientIndex_count_le hw
  have hlen := h.resting_length_le
  have hlimit : MAX_ARENA_ORDERS < FastClientIndex.scheme.limit := by decide
  omega

/-- An allocated order is linked behind the orders of its level, and indexed. -/
theorem pushOrder (h : b.HasLayout L) {lost : List Nat} (hlost : L.lostOrders = r.slot :: lost)
    (hl : L.ladder s = ls₁ ++ l :: ls₂) (horder : (b.orderArena.nodes r.slot).order = r.order)
    (hclient : (b.orderArena.nodes r.slot).clientId = r.clientId)
    (hcount : b.orderIndex.count < FastOrderIndex.scheme.limit)
    (hcount' : b.clientOrderIndex.count < FastClientIndex.scheme.limit) :
  ∃ orderIndex clientOrderIndex,
    b.orderIndex.insert r.order.id r.order.clientOrderId r.order.userId r.order.price r.slot
        r.order.side = .ok orderIndex
    ∧ b.clientOrderIndex.insert r.order.userId r.order.clientOrderId r.order.id
        = .ok clientOrderIndex
    ∧ OrderBook.HasLayout
        { b with
          levelArena := b.levelArena.modify l.slot fun _ =>
            ((b.levelArena.nodes l.slot).pushOrder r.slot b.orderArena).1
          orderArena := ((b.levelArena.nodes l.slot).pushOrder r.slot b.orderArena).2
          orderIndex := orderIndex
          clientOrderIndex := clientOrderIndex }
        { L with
          ladder := Function.update L.ladder s (ls₁ ++ l.push r :: ls₂)
          lostOrders := lost
          orderIndex := fun k => if k = r.order.id then some r.entry else L.orderIndex k
          clientIndex := fun u c =>
            if (u, c) = r.clientKey then some r.order.id else L.clientIndex u c }
  := by
  obtain ⟨orderIndex, hins, hvalid, hlookup⟩ := FastOrderIndex.insert_spec h.orderIndex_valid
    hcount r.order.id r.order.clientOrderId r.order.userId r.order.price r.slot r.order.side
  obtain ⟨clientOrderIndex, hins', hvalid', hlookup'⟩ := FastClientIndex.insert_spec
    h.clientIndex_valid hcount' r.order.userId r.order.clientOrderId r.order.id
  have hst := h.storage_of_eq hl
  rw [hlost] at hst
  refine ⟨orderIndex, clientOrderIndex, hins, hins', ?_⟩
  apply h.of_storage hl rfl
  · apply hst.push horder hclient
  · rfl
  · rfl
  · intro s'
    cases s' <;> rfl
  · apply PriceLevelArena.comp_modify_of_eq
    rw [PriceLevelNode.pushOrder_fst]
  · apply PriceLevelArena.comp_modify_of_eq
    rw [PriceLevelNode.pushOrder_fst]
  · rfl
  · refine ⟨hvalid, ?_⟩
    intro k
    rw [hlookup, h.orderIndex_eq]
    rfl
  · refine ⟨hvalid', ?_⟩
    intro u c
    rw [hlookup', h.clientIndex_eq]
    rfl
  · apply h.tradeIdCounter_eq
  · apply h.orderIdCounter_eq

/-- At a price that has a level, the order joins that level. -/
theorem levelFor_of_mem (h : b.HasLayout L) {r : Resting} {s : Side}
    (hsorted : (L.ladder s).Pairwise fun l l' => s.before l.price l'.price)
    (hmem : r.order.price ∈ (L.ladder s).map (·.price)) (isSell : Bool) :
  ∃ ls₁ l ls₂, b.levelFor r.order.price isSell = (.ok l.slot, b)
    ∧ L.ladder s = ls₁ ++ l :: ls₂
    ∧ restLadder s r 0 (L.ladder s) = ls₁ ++ l.push r :: ls₂
  := by
  obtain ⟨ls₁, l, ls₂, hls, hprice, hrest⟩ := restLadder_of_mem (r := r) 0 hsorted hmem
  have hl : l ∈ L.levels := Layout.mem_levels.mpr ⟨s, by simp [hls]⟩
  have hlookup : b.priceIndex.lookup r.order.price = some l.slot :=
    (h.priceIndex_iff _ _).mpr ⟨l, hl, hprice, rfl⟩
  refine ⟨ls₁, l, ls₂, ?_, hls, hrest⟩
  rw [levelFor, hlookup]

/-- With all level slots taken, a price without a level is refused. -/
theorem levelFor_of_full (h : b.HasLayout L) {price : UInt64}
    (hfresh : ∀ l ∈ L.levels, l.price ≠ price) (hfull : L.freeLevels = []) (isSell : Bool) :
  b.levelFor price isSell = (.error .engineFull, b)
  := by
  have hst := h.storage
  rw [hfull] at hst
  rw [levelFor, h.lookup_eq_none hfresh]
  dsimp only
  rw [hst.allocLevel_nil price]

/-- The remainder of an order comes to rest. -/
theorem restOrder_eq (h : b.HasLayout L) (hw : L.WellFormed) (o : Order) (clientId : UInt64)
    (hcross : ∀ l ∈ L.ladder o.bookSide.opposite, o.bookSide.opposite.before o.price l.price) :
  ∃ b', b.restOrder o clientId = ((L.rest o clientId).1, b')
    ∧ b'.HasLayout (L.rest o clientId).2
  := by
  have hst := h.storage
  have hcount := h.orderIndex_count_lt hw
  have hcount' := h.clientIndex_count_lt hw
  unfold restOrder Layout.rest
  cases hfree : L.freeOrders with
  | nil =>
      rw [hfree] at hst
      rw [hst.allocOrder_nil]
      exact ⟨b, rfl, h⟩
  | cons i freeOrders =>
      rw [hfree] at hst
      obtain ⟨oa, halloc, hst₁, horder, hclient⟩ := hst.allocOrder o clientId
      rw [halloc]
      dsimp only
      -- the book with the slot allocated and the order still unlinked
      have h₁ : OrderBook.HasLayout { b with orderArena := oa }
          { L with freeOrders := freeOrders, lostOrders := i :: L.lostOrders } :=
        { h with
          storage := hst₁
          linked := fun s => (h.linked s).congr (by cases s <;> rfl) rfl rfl rfl }
      rw [o.isSell_eq]
      by_cases hmem : o.price ∈ (L.ladder o.bookSide).map (·.price)
      · rw [if_pos hmem]
        obtain ⟨ls₁, l, ls₂, hlevel, hls, hrest⟩ :=
          h₁.levelFor_of_mem (r := ⟨i, o, clientId⟩) (hw.sorted o.bookSide) hmem
            (o.bookSide == .sell)
        obtain ⟨orderIndex, clientOrderIndex, hins, hins', h₂⟩ :=
          h₁.pushOrder (r := ⟨i, o, clientId⟩) rfl hls horder hclient hcount hcount'
        simp only [hlevel, hins, hins']
        refine ⟨_, rfl, ?_⟩
        rw [← hrest] at h₂
        apply h₂
      · rw [if_neg hmem]
        have hfresh := Layout.price_ne_of_notMem hmem hcross
        cases hfreeLevels : L.freeLevels with
        | nil =>
            simp only [h₁.levelFor_of_full hfresh hfreeLevels]
            rw [hfreeLevels] at h₁
            exact ⟨_, rfl, h₁⟩
        | cons j freeLevels =>
            obtain ⟨b₂, ls₁, ls₂, hlevel, hls, hrest, h₂, harena, hindex, hclients⟩ :=
              h₁.openLevel (r := ⟨i, o, clientId⟩) hfreeLevels hfresh o.bookSide
            dsimp only at hlevel harena hindex hclients
            rw [← harena] at horder hclient
            rw [← hindex] at hcount
            rw [← hclients] at hcount'
            obtain ⟨orderIndex, clientOrderIndex, hins, hins', h₃⟩ :=
              h₂.pushOrder (r := ⟨i, o, clientId⟩) rfl (Function.update_self ..) horder hclient
                hcount hcount'
            simp only [hlevel, hins, hins']
            refine ⟨_, rfl, ?_⟩
            simp only [Function.update_idem, ← hrest] at h₃
            apply h₃

/-! ### Cancelling -/

theorem findEntry_eq (h : b.HasLayout L) (u k : UInt64) :
  b.findEntry u k = L.findEntry u k
  := by
  unfold OrderBook.findEntry Layout.findEntry
  rw [h.orderIndex_eq, h.clientIndex_eq]
  cases L.orderIndex k with
  | some e => rfl
  | none =>
      cases L.clientIndex u k with
      | none => rfl
      | some exchangeId =>
          cases hx : L.orderIndex exchangeId <;> simp [h.orderIndex_eq, hx]

/-- An order that has been taken out of its queue is freed and leaves the indices. -/
theorem release (h : b.HasLayout L) {lost : List Nat} (hlost : L.lostOrders = r.slot :: lost) :
  OrderBook.HasLayout
    { b with
      orderArena := b.orderArena.deallocate r.slot
      orderIndex := (b.orderIndex.remove r.order.id).2
      clientOrderIndex := (b.clientOrderIndex.remove r.order.userId r.order.clientOrderId).2 }
    { L with
      lostOrders := lost
      freeOrders := r.slot :: L.freeOrders
      orderIndex := fun k => if k = r.order.id then none else L.orderIndex k
      clientIndex := fun u c => if (u, c) = r.clientKey then none else L.clientIndex u c }
  := by
  have hst := h.storage
  rw [hlost] at hst
  obtain ⟨hvalid, hlookup⟩ := FastOrderIndex.remove_spec h.orderIndex_valid r.order.id
  obtain ⟨hvalid', hlookup'⟩ := FastClientIndex.remove_spec h.clientIndex_valid r.order.userId
    r.order.clientOrderId
  constructor
  · apply hst.freeOrder
  · intro s
    apply (h.linked s).congr (by cases s <;> rfl) rfl rfl rfl
  · apply h.priceIndex_valid
  · apply h.priceIndex_iff
  · apply hvalid
  · intro k
    rw [hlookup, h.orderIndex_eq]
  · apply hvalid'
  · intro u c
    rw [hlookup', h.clientIndex_eq]
    rfl
  · apply h.tradeIdCounter_eq
  · apply h.orderIdCounter_eq

/-- An order is taken out of its queue, and its level off the ladder if no other order is
left in it.  The slot of the order is still allocated. -/
theorem unlinkOrder (h : b.HasLayout L) (pl : L.Place) :
  OrderBook.HasLayout
    (let (level, arena) :=
      (b.levelArena.nodes pl.level.slot).unlinkOrder pl.order.slot b.orderArena
    let b' :=
      { b with
        levelArena := b.levelArena.modify pl.level.slot fun _ => level
        orderArena := arena }
    if (b'.levelArena.nodes pl.level.slot).isEmpty then
      b'.retireLevel pl.level.slot pl.level.price (pl.side == .sell)
    else
      b')
    { L with
      ladder := Function.update L.ladder pl.side (pl.above ++ pl.remains ++ pl.below)
      lostOrders := pl.order.slot :: L.lostOrders
      freeLevels :=
        if pl.front ++ pl.back = [] then pl.level.slot :: L.freeLevels else L.freeLevels }
  := by
  let level : Level :=
    { pl.level with
      queue := pl.front ++ pl.back
      totalQty := pl.level.totalQty.saturatingSub pl.order.order.qty }
  have h₁ : OrderBook.HasLayout
      { b with
        levelArena := b.levelArena.modify pl.level.slot fun _ =>
          ((b.levelArena.nodes pl.level.slot).unlinkOrder pl.order.slot b.orderArena).1
        orderArena := ((b.levelArena.nodes pl.level.slot).unlinkOrder pl.order.slot b.orderArena).2 }
      { L with
        ladder := Function.update L.ladder pl.side (pl.above ++ level :: pl.below)
        lostOrders := pl.order.slot :: L.lostOrders } := by
    apply h.of_storage pl.ladder_eq rfl
    · apply (h.storage_of_eq pl.ladder_eq).unlink pl.queue_eq
    · rfl
    · rfl
    · intro s'
      cases s' <;> rfl
    · apply PriceLevelArena.comp_modify_of_eq
      rw [PriceLevelNode.unlinkOrder_fst]
    · apply PriceLevelArena.comp_modify_of_eq
      rw [PriceLevelNode.unlinkOrder_fst]
    · rfl
    · exact ⟨h.orderIndex_valid, h.orderIndex_eq⟩
    · exact ⟨h.clientIndex_valid, h.clientIndex_eq⟩
    · apply h.tradeIdCounter_eq
    · apply h.orderIdCounter_eq
  have hladder := Function.update_self pl.side (pl.above ++ level :: pl.below) L.ladder
  have hempty := h₁.isEmpty_iff (l := level)
    (Layout.mem_levels.mpr ⟨pl.side, by dsimp only; rw [hladder]; simp⟩)
  dsimp only [Layout.Place.remains]
  by_cases hnil : pl.front ++ pl.back = []
  · rw [if_pos (hempty.mpr hnil), if_pos hnil, if_pos hnil]
    have h₂ := h₁.retireLevel hladder hnil
    simp only [Function.update_idem] at h₂
    rw [List.append_nil]
    apply h₂
  · rw [if_neg (fun he => hnil (hempty.mp he)), if_neg hnil, if_neg hnil]
    rw [List.append_assoc, List.singleton_append]
    apply h₁

theorem cancelOrder_of_error (h : b.HasLayout L) {u k : UInt64} {e : RejectReason}
    (hfind : L.findEntry u k = .error e) :
  b.cancelOrder u k = (.error e, b)
  := by
  unfold cancelOrder
  rw [h.findEntry_eq, hfind]

/-- An order of another user is not cancelled. -/
theorem cancelOrder_of_user_ne (h : b.HasLayout L) {u k : UInt64} {e : FastIndexEntry}
    (hfind : L.findEntry u k = .ok e) (huser : e.userId ≠ u) :
  b.cancelOrder u k = (.error .unauthorized, b)
  := by
  unfold cancelOrder
  rw [h.findEntry_eq, hfind]
  dsimp only
  rw [if_pos huser]

/-- An order of the requesting user is taken out of the book. -/
theorem cancelOrder_of_place (h : b.HasLayout L) (hw : L.WellFormed) {u k : UInt64} (pl : L.Place)
    (hfind : L.findEntry u k = .ok pl.order.entry) (huser : pl.order.order.userId = u) :
  ∃ b', b.cancelOrder u k = (.ok pl.order.order, b') ∧ b'.HasLayout (L.remove pl)
  := by
  have hlevel := pl.level_mem
  have hlevel' : pl.level ∈ L.levels := Layout.mem_levels.mpr ⟨_, hlevel⟩
  have hqueue := pl.order_mem
  have horder := (h.stored hlevel').order_eq pl.order hqueue
  have hactive : (b.orderArena.nodes pl.order.slot).active = true :=
    h.storage.orders.pool.used_active _ (h.storage.slot_mem_used hlevel' hqueue)
  have hlookup : b.priceIndex.lookup pl.order.order.price = some pl.level.slot :=
    (h.priceIndex_iff _ _).mpr
      ⟨pl.level, hlevel', (hw.price_eq _ _ hlevel _ hqueue).symm, rfl⟩
  have hside : (pl.order.order.side == Side.sell.toByte) = (pl.side == .sell) := by
    rw [← hw.side_eq _ _ hlevel _ hqueue, ← pl.order.order.isSell_eq]
    rfl
  have hunlinked := h.unlinkOrder pl
  rw [← hw.price_eq _ _ hlevel _ hqueue] at hunlinked
  refine ⟨_, ?_, hunlinked.release rfl⟩
  unfold cancelOrder
  rw [h.findEntry_eq, hfind]
  simp only [Resting.entry, huser, horder, hactive, hlookup, hside, ne_eq, not_true_eq_false,
    Bool.true_eq_false, or_self, if_false]

/-- A cancel fails and leaves the book as it was, or it takes an order of the requesting
user out of the book and answers that order. -/
theorem cancelOrder_cases (h : b.HasLayout L) (hw : L.WellFormed) (u k : UInt64) :
  (∃ e, b.cancelOrder u k = (.error e, b)
      ∧ ∀ entry, L.findEntry u k = .ok entry → entry.userId ≠ u)
    ∨ ∃ (pl : L.Place) (b' : OrderBook), L.findEntry u k = .ok pl.order.entry
      ∧ pl.order.order.userId = u ∧ b.cancelOrder u k = (.ok pl.order.order, b')
      ∧ b'.HasLayout (L.remove pl)
  := by
  cases hfind : L.findEntry u k with
  | error e => exact Or.inl ⟨e, h.cancelOrder_of_error hfind, fun entry heq => nomatch heq⟩
  | ok e =>
      obtain ⟨pl, rfl⟩ := hw.exists_place_of_findEntry hfind
      by_cases huser : pl.order.order.userId = u
      · obtain ⟨b', heq, h'⟩ := h.cancelOrder_of_place hw pl hfind huser
        exact Or.inr ⟨pl, b', rfl, huser, heq, h'⟩
      · apply Or.inl
        refine ⟨.unauthorized, h.cancelOrder_of_user_ne hfind huser, ?_⟩
        intro entry heq
        obtain rfl := Except.ok.inj heq
        apply huser

/-! ### Processing -/

theorem stampId_eq (h : b.HasLayout L) (o : Order) :
  (b.stampId o).1 = (L.stampId o).1 ∧ (b.stampId o).2.HasLayout (L.stampId o).2
  := by
  unfold OrderBook.stampId Layout.stampId
  rw [h.orderIdCounter_eq]
  split
  · exact ⟨rfl, { h with orderIdCounter_eq := rfl }⟩
  · exact ⟨rfl, { h with orderIdCounter_eq := rfl }⟩

/-- The two matching loops are one loop over the ladder the taker takes from. -/
theorem matchSide_eq (o : Order) (clientId : UInt64) (m : Matching) :
  (if o.isSell then matchBids clientId m else matchAsks clientId m)
    = While.run (matchStep o.takesFrom (fun best price => o.takesFrom.before price best) clientId)
        (MAX_PRICE_LEVELS + 1) m
  := by
  have hbuy : (fun best price : UInt64 => decide (best < price))
      = fun best price => Side.buy.before price best := rfl
  have hsell : (fun best price : UInt64 => decide (best > price))
      = fun best price => Side.sell.before price best := rfl
  unfold Order.takesFrom Order.bookSide
  cases o.isSell with
  | true => simp only [if_true, matchBids, hbuy, Side.opposite]
  | false => simp only [Bool.false_eq_true, if_false, matchAsks, hsell, Side.opposite]

/-- Processing an order that is not a cancel. -/
theorem process_eq (h : b.HasLayout L) (hw : L.WellFormed) {o : Order} (hkind : o.kind ≠ .cancel)
    (clientId : UInt64) (trades : List Trade) :
  ∃ b', b.process o clientId trades
      = ((L.process o clientId trades).1, b', (L.process o clientId trades).2.2)
    ∧ b'.HasLayout (L.process o clientId trades).2.1
  := by
  obtain ⟨hstamp, h₀⟩ := h.stampId_eq o
  have hw₀ : (L.stampId o).2.WellFormed := by
    unfold Layout.stampId
    split <;> exact hw.congr rfl rfl rfl
  rw [OrderBook.process, if_neg hkind, Layout.process]
  dsimp only
  rw [hstamp]
  generalize (L.stampId o).1 = o₁
  generalize (b.stampId o).2 = b₀ at h₀ ⊢
  generalize (L.stampId o).2 = L₀ at h₀ hw₀ ⊢
  rw [matchSide_eq]
  have hfuel : (L₀.ladder o₁.takesFrom).length < MAX_PRICE_LEVELS + 1 :=
    Nat.lt_succ_of_le (h₀.ladder_length_le _)
  obtain ⟨b₁, hrun, h₁⟩ := h₀.run_matchLadder clientId hfuel rfl o₁ trades
  have hw₁ := hw₀.matched o₁.takesFrom (o₁.accepts o₁.takesFrom) clientId o₁ L₀.tradeIdCounter
  have htaker := taker_matchLadder (o₁.accepts o₁.takesFrom) clientId o₁ L₀.tradeIdCounter
    (L₀.ladder o₁.takesFrom)
  rw [hrun]
  dsimp only
  have hcross : (matchLadder (o₁.accepts o₁.takesFrom) clientId o₁ L₀.tradeIdCounter
      (L₀.ladder o₁.takesFrom)).stp = false → 0 < (matchLadder (o₁.accepts o₁.takesFrom) clientId
      o₁ L₀.tradeIdCounter (L₀.ladder o₁.takesFrom)).taker.qty → o₁.kind = .limit →
      ∀ l ∈ (matchLadder (o₁.accepts o₁.takesFrom) clientId o₁ L₀.tradeIdCounter
        (L₀.ladder o₁.takesFrom)).ladder, o₁.takesFrom.before o₁.price l.price := by
    intro hstp hqty hlimit l hl
    exact hw₀.before_of_mem_matched hlimit hstp (UInt64.ne_zero_iff_pos.mpr hqty) hl
  generalize matchLadder (o₁.accepts o₁.takesFrom) clientId o₁ L₀.tradeIdCounter
    (L₀.ladder o₁.takesFrom) = m at h₁ hw₁ htaker hcross ⊢
  by_cases hrest : m.stp = false ∧ 0 < m.taker.qty ∧ o₁.kind = .limit
  · obtain ⟨hstp, hqty, hlimit⟩ := hrest
    have hside : m.taker.bookSide = o₁.bookSide := by
      rw [htaker]
      rfl
    have hprice : m.taker.price = o₁.price := by
      rw [htaker]
    have hopp : ∀ l ∈ (L₀.matched o₁.takesFrom m).ladder m.taker.bookSide.opposite,
        m.taker.bookSide.opposite.before m.taker.price l.price := by
      intro l hl
      rw [hside] at hl ⊢
      rw [hprice]
      have hladder := Function.update_self o₁.takesFrom m.ladder L₀.ladder
      exact hcross hstp hqty hlimit l (hladder ▸ hl)
    obtain ⟨b₂, hrun₂, h₂⟩ := h₁.restOrder_eq hw₁ m.taker clientId hopp
    simp only [hstp, hqty, hlimit, hrun₂, reduceCtorEq, Bool.false_eq_true, and_self, if_true,
      if_false]
    generalize (L₀.matched o₁.takesFrom m).rest m.taker clientId = res at h₂ ⊢
    obtain ⟨_ | _, L₂⟩ := res
    · exact ⟨b₂, rfl, h₂⟩
    · exact ⟨b₂, rfl, h₂⟩
  · rw [if_neg hrest]
    refine ⟨b₁, ?_, h₁⟩
    grind

end HasLayout

end OrderBook

end LimitOrderBook
