import LimitOrderBook.Refusals
import LimitOrderBook.Trades
import LimitOrderBook.Reading

/-!
# Cancelling what was submitted

A limit order that comes to rest in full is cancelled at once by its user.  The account and
the depth of the book are then what they were before, as long as the four places that read
the side byte agree on it and no total overflows (`cancelUndoes_iff`).
-/

namespace LimitOrderBook

/-! ### The place of an order -/

/-- A list has one place for a key, if no two of its elements have the same. -/
theorem append_cons_inj_of_nodup {α κ : Type*} {f : α → κ} {as l₁ l₂ l₁' l₂' : List α} {a a' : α}
    (hnodup : (as.map f).Nodup) (h : as = l₁ ++ a :: l₂) (h' : as = l₁' ++ a' :: l₂')
    (hf : f a = f a') :
  l₁ = l₁' ∧ a = a' ∧ l₂ = l₂'
  := by
  have ha : a = a' := List.inj_on_of_nodup_map hnodup (by simp [h]) (by simp [h']) hf
  subst ha
  have hnodup' := hnodup.of_map
  rw [h, List.nodup_middle, List.nodup_cons, List.mem_append, not_or] at hnodup'
  exact (List.append_cons_inj_of_notMem hnodup'.1.1 hnodup'.1.2).mp (h.symm.trans h')

namespace Layout

variable {L : Layout}

theorem WellFormed.nodup_prices (hw : L.WellFormed) (s : Side) :
  ((L.ladder s).map (·.price)).Nodup
  := by
  apply List.pairwise_map.mpr
  exact (hw.sorted s).imp fun hbefore => Side.ne_of_before hbefore

theorem Place.order_mem_levels (pl : L.Place) :
  pl.order ∈ restingOf L.levels
  := mem_restingOf.mpr ⟨pl.level, mem_levels.mpr ⟨pl.side, pl.level_mem⟩, pl.order_mem⟩

theorem mem_restingOf_put (hw : L.WellFormed) (r : Resting) (j : Nat) :
  r ∈ restingOf (L.put r j).levels
  := by
  obtain ⟨l, hl, hr⟩ := mem_restingOf.mp (mem_resting_put hw r j)
  exact mem_restingOf.mpr ⟨l, mem_levels.mpr ⟨_, hl⟩, hr⟩

/-- An order has one place. -/
theorem Place.eq_of_slot_eq (hw : L.WellFormed)
    (hnodup : ((restingOf L.levels).map (·.slot)).Nodup) {pl pl' : L.Place}
    (hslot : pl.order.slot = pl'.order.slot) :
  pl = pl'
  := by
  have horder : pl.order = pl'.order :=
    List.inj_on_of_nodup_map hnodup pl.order_mem_levels pl'.order_mem_levels hslot
  have hside : pl.side = pl'.side := by
    rw [← hw.side_eq _ _ pl.level_mem _ pl.order_mem, horder,
      hw.side_eq _ _ pl'.level_mem _ pl'.order_mem]
  have hprice : pl.level.price = pl'.level.price := by
    rw [← hw.price_eq _ _ pl.level_mem _ pl.order_mem, horder,
      hw.price_eq _ _ pl'.level_mem _ pl'.order_mem]
  have hladder' := pl'.ladder_eq
  rw [← hside] at hladder'
  obtain ⟨habove, hlevel, hbelow⟩ :=
    append_cons_inj_of_nodup (hw.nodup_prices _) pl.ladder_eq hladder' hprice
  have hqueue' := pl'.queue_eq
  rw [← hlevel] at hqueue'
  have hslots : (pl.level.queue.map (·.slot)).Nodup := by
    apply List.Nodup.sublist _ hnodup
    apply List.Sublist.map
    obtain ⟨ls₁, ls₂, hlevels⟩ := List.append_of_mem (mem_levels.mpr ⟨pl.side, pl.level_mem⟩)
    rw [hlevels, restingOf_append, restingOf_cons]
    exact (List.sublist_append_left _ _).trans (List.sublist_append_right _ _)
  obtain ⟨hfront, -, hback⟩ := append_cons_inj_of_nodup hslots pl.queue_eq hqueue' hslot
  cases pl
  cases pl'
  dsimp only at hside habove hlevel hbelow hfront horder hback
  subst hside habove hlevel hbelow hfront horder hback
  rfl

/-- A level that a quantity has joined and left again. -/
def passed (qty : UInt64) (l : Level) : Level :=
  { l with totalQty := (l.totalQty + qty).saturatingSub qty }

/-- A level shows what it showed before, if its total has not overflowed. -/
theorem shown_passed_iff (qty : UInt64) (l : Level) :
  (passed qty l).shown = l.shown ↔ l.totalQty.toNat + qty.toNat < 2 ^ 64
  := by
  rw [← UInt64.add_saturatingSub_eq_iff]
  simp [Level.shown, passed]

/-- When an order is taken out right after it was put in, the ladders are as before, but for the
total of the level of its price. -/
theorem ladder_remove_put (hw : L.WellFormed) {r : Resting} {j : Nat}
    (hw' : (L.put r j).WellFormed)
    (hnodup : ((restingOf (L.put r j).levels).map (·.slot)).Nodup) {pl : (L.put r j).Place}
    (hslot : pl.order.slot = r.slot) :
  ((L.put r j).remove pl).ladder
    = Function.update L.ladder r.order.bookSide ((L.ladder r.order.bookSide).map fun l =>
        if l.price = r.order.price then passed r.order.qty l else l)
  := by
  have hladder : (L.put r j).ladder = Function.update L.ladder r.order.bookSide
      (restLadder r.order.bookSide r j (L.ladder r.order.bookSide)) := rfl
  have hown : (L.put r j).ladder r.order.bookSide
      = restLadder r.order.bookSide r j (L.ladder r.order.bookSide) := by
    rw [hladder, Function.update_self]
  have hothers : ∀ ls : List Level, (∀ l ∈ ls, l.price ≠ r.order.price) →
      (ls.map fun l => if l.price = r.order.price then passed r.order.qty l else l) = ls := by
    intro ls hls
    conv_rhs => rw [← List.map_id ls]
    apply List.map_congr_left
    intro l hl
    exact if_neg (hls l hl)
  by_cases hmem : r.order.price ∈ (L.ladder r.order.bookSide).map (·.price)
  · obtain ⟨ls₁, l, ls₂, hls, hprice, hrest⟩ := restLadder_of_mem j (hw.sorted _) hmem
    have hl : l ∈ L.ladder r.order.bookSide := by simp [hls]
    obtain rfl : pl = ⟨r.order.bookSide, ls₁, l.push r, ls₂, l.queue, r, [], hown.trans hrest, rfl⟩ :=
      Place.eq_of_slot_eq hw' hnodup hslot
    have hqueue : l.queue ++ [] ≠ [] := by
      rw [List.append_nil]
      apply hw.queue_ne_nil _ l hl
    -- no other level has the price of the order
    have hprices := hw.nodup_prices r.order.bookSide
    rw [hls, List.map_append, List.map_cons, List.nodup_middle, List.nodup_cons,
      ← List.map_append, hprice] at hprices
    have hne : ∀ l' ∈ ls₁ ++ ls₂, l'.price ≠ r.order.price := by
      rintro l' hl' heq
      apply hprices.1
      rw [← heq]
      apply List.mem_map_of_mem hl'
    dsimp only [remove, Place.remains]
    rw [if_neg hqueue, hls, List.map_append, List.map_cons, if_pos hprice,
      hothers ls₁ (fun l' hl' => hne l' (List.mem_append_left _ hl')),
      hothers ls₂ (fun l' hl' => hne l' (List.mem_append_right _ hl')), hladder,
      Function.update_idem, List.append_assoc]
    simp [passed, Level.push]
  · obtain ⟨ls₁, ls₂, hls, hrest, -⟩ := restLadder_of_notMem j (hw.sorted _) hmem
    obtain rfl : pl = ⟨r.order.bookSide, ls₁, (Level.empty j r.order.price).push r, ls₂, [], r, [],
        hown.trans hrest, rfl⟩ :=
      Place.eq_of_slot_eq hw' hnodup hslot
    dsimp only [remove, Place.remains]
    rw [if_pos (List.append_nil []), List.append_nil, ← hls, hladder, Function.update_idem,
      hothers]
    intro l hl heq
    exact hmem (heq ▸ List.mem_map_of_mem hl)

/-- When an order is taken out right after it was put in, the ladders show what they showed
before, exactly if the total of its level has not overflowed. -/
theorem shown_remove_put (hw : L.WellFormed) {r : Resting} {j : Nat}
    (hw' : (L.put r j).WellFormed)
    (hnodup : ((restingOf (L.put r j).levels).map (·.slot)).Nodup) {pl : (L.put r j).Place}
    (hslot : pl.order.slot = r.slot) :
  (∀ s, (((L.put r j).remove pl).ladder s).map Level.shown = (L.ladder s).map Level.shown)
    ↔ ∀ l ∈ L.ladder r.order.bookSide, l.price = r.order.price →
      l.totalQty.toNat + r.order.qty.toNat < 2 ^ 64
  := by
  rw [ladder_remove_put hw hw' hnodup hslot]
  have hown : ((L.ladder r.order.bookSide).map fun l =>
        if l.price = r.order.price then passed r.order.qty l else l).map Level.shown
      = (L.ladder r.order.bookSide).map Level.shown
        ↔ ∀ l ∈ L.ladder r.order.bookSide, l.price = r.order.price →
          l.totalQty.toNat + r.order.qty.toNat < 2 ^ 64 := by
    rw [List.map_map, List.map_inj_left]
    apply forall₂_congr
    intro l _
    rw [Function.comp_apply]
    split
    · next hprice => simp [hprice, shown_passed_iff]
    · next hprice => simp [hprice]
  rw [← hown]
  constructor
  · intro hall
    have hat := hall r.order.bookSide
    rw [Function.update_self] at hat
    apply hat
  · intro hat s
    rcases eq_or_ne s r.order.bookSide with rfl | hs
    · rw [Function.update_self]
      apply hat
    · rw [Function.update_of_ne hs]

end Layout

/-! ### The order in the book -/

namespace OrderBook.HasLayout

variable {b b' : OrderBook} {L L' : Layout}

/-- Two books show the same depth exactly if their ladders do. -/
theorem depth_eq_iff (h : b.HasLayout L) (h' : b'.HasLayout L') (s : Side) :
  (∀ maxLevels, b'.depth s maxLevels = b.depth s maxLevels)
    ↔ (L'.ladder s).map Level.shown = (L.ladder s).map Level.shown
  := by
  constructor
  · intro hall
    have hdepth := hall ((L'.ladder s).length + (L.ladder s).length)
    rw [h.depth_eq, h'.depth_eq, List.take_of_length_le (Nat.le_add_right _ _),
      List.take_of_length_le (Nat.le_add_left _ _)] at hdepth
    apply hdepth
  · intro hshown maxLevels
    rw [h.depth_eq, h'.depth_eq, List.map_take, List.map_take, hshown]

theorem nodup_slots (h : b.HasLayout L) :
  ((restingOf L.levels).map (·.slot)).Nodup
  := (List.nodup_append.mp h.storage.used_nodup).2.1

/-- The cancel of an order that has just been put into a book takes out that order. -/
theorem cancelOrder_put (hw : L.WellFormed) {r : Resting} {j : Nat} (h : b.HasLayout (L.put r j))
    (hw' : (L.put r j).WellFormed) :
  ∃ (pl : (L.put r j).Place) (b' : OrderBook), pl.order.slot = r.slot
    ∧ b.cancelOrder r.order.userId r.order.id = (.ok r.order, b')
    ∧ b'.HasLayout ((L.put r j).remove pl)
  := by
  have hfind : (L.put r j).findEntry r.order.userId r.order.id = .ok r.entry := by
    rw [Layout.findEntry]
    dsimp only [Layout.put]
    rw [if_pos rfl]
  rcases h.cancelOrder_cases hw' r.order.userId r.order.id with
    ⟨reason, -, hnone⟩ | ⟨pl, b', hfind', -, heq, h'⟩
  · exact absurd rfl (hnone r.entry hfind)
  · rw [hfind] at hfind'
    have hslot : pl.order.slot = r.slot :=
      (congrArg FastIndexEntry.nodeIdx (Except.ok.inj hfind')).symm
    have horder : pl.order = r := List.inj_on_of_nodup_map h.nodup_slots pl.order_mem_levels
      (Layout.mem_restingOf_put hw r j) hslot
    rw [horder] at heq
    exact ⟨pl, b', hslot, heq, h'⟩

end OrderBook.HasLayout

namespace Layout

variable {L : Layout} {o : Order} {clientId : UInt64}

/-- An order with an identifier that comes to rest without a trade is put into a layout with
the ladders as they were. -/
theorem exists_put_of_no_trade (hw : L.WellFormed) (hid : o.id ≠ 0) (hrests : L.Rests o clientId)
    (htrades : (L.fills o clientId).trades = []) {report : ExecutionReport}
    (hok : (L.process o clientId []).1 = .ok report) :
  ∃ (i j : Nat) (L₁ : Layout), L₁.WellFormed ∧ L₁.ladder = L.ladder
    ∧ (L.process o clientId []).2.1 = L₁.put ⟨i, o, clientId⟩ j
  := by
  have hidle := hrests.fills_eq_idle_of_no_trade hw htrades
  have htaker : (L.fills o clientId).taker = o := by
    rw [hidle]
    dsimp only [idle, stamped, stamp]
    rw [if_neg hid]
  rcases (L.process_cases o clientId []).put_or hw with
    ⟨-, hdone⟩ | ⟨-, -, i, j, L₁, hw₁, hladder, heq⟩
  · exact absurd hrests (hdone report hok).2
  · rw [taken_of_idle hidle] at hladder
    rw [htaker] at heq
    exact ⟨i, j, L₁, hw₁, hladder, heq⟩

end Layout

/-! ### The cancel of the order -/

namespace MultiAssetEngine.HasLayouts

variable {e : MultiAssetEngine} {E : Fin NUM_SYMBOLS → Layout} {sym : Fin NUM_SYMBOLS}

/-- The cancel of an order that has just been put into a book takes out that order. -/
theorem cancelOrder_put (h : e.HasLayouts E) {L : Layout} (hw : L.WellFormed) {r : Resting}
    {j : Nat} (hput : E sym = L.put r j) {symbolId : UInt16} (hsym : symIdx symbolId = some sym) :
  ∃ (pl : (L.put r j).Place) (e' : MultiAssetEngine), pl.order.slot = r.slot
    ∧ e.cancelOrder symbolId r.order.userId r.order.id = (.ok r.order, e')
    ∧ e'.HasLayouts (Function.update E sym ((L.put r j).remove pl))
  := by
  have hbook := h.hasLayout sym
  have hw' := h.wellFormed sym
  rw [hput] at hbook hw'
  obtain ⟨pl, b', hslot, heq, h'⟩ := hbook.cancelOrder_put hw hw'
  unfold MultiAssetEngine.cancelOrder
  rw [hsym]
  dsimp only
  rw [heq]
  exact ⟨pl, _, hslot, rfl, h.setBook h' (hw'.remove pl)⟩

/-- When an order that has just been put into a book is taken out again, all books show the
depth they showed before, exactly if the level of its price has had room for its quantity. -/
theorem depth_remove_put_iff (h : e.HasLayouts E) {L : Layout} (hw : L.WellFormed)
    (hladder : L.ladder = (E sym).ladder) {r : Resting} {j : Nat}
    (hunmatched : (E sym).Unmatched r.order) {e₁ e₂ : MultiAssetEngine}
    (h₁ : e₁.HasLayouts (Function.update E sym (L.put r j))) {pl : (L.put r j).Place}
    (hslot : pl.order.slot = r.slot)
    (h₂ : e₂.HasLayouts (Function.update E sym ((L.put r j).remove pl))) :
  (∀ i s maxLevels, (e₂.books i).depth s maxLevels = (e.books i).depth s maxLevels)
    ↔ ∀ i, (e.books sym).priceIndex.lookup r.order.price = some i →
      ((e.books sym).levelArena.nodes i).totalQty.toNat + r.order.qty.toNat < 2 ^ 64
  := by
  have hw₁ := h₁.wellFormed sym
  have hslots := (h₁.hasLayout sym).nodup_slots
  have hbook := h₂.hasLayout sym
  rw [Function.update_self] at hw₁ hslots hbook
  have hshown := Layout.shown_remove_put hw hw₁ hslots hslot
  rw [hladder] at hshown
  have htotals : (∀ l ∈ (E sym).ladder r.order.bookSide, l.price = r.order.price →
        l.totalQty.toNat + r.order.qty.toNat < 2 ^ 64)
      ↔ ∀ i, (e.books sym).priceIndex.lookup r.order.price = some i →
        ((e.books sym).levelArena.nodes i).totalQty.toNat + r.order.qty.toNat < 2 ^ 64 := by
    have hlookup := (h.hasLayout sym).lookup_eq_some_iff (h.wellFormed sym) hunmatched.refused
    have htotal : ∀ l ∈ (E sym).ladder r.order.bookSide,
        ((e.books sym).levelArena.nodes l.slot).totalQty = l.totalQty := fun l hl =>
      ((h.hasLayout sym).stored (Layout.mem_levels.mpr ⟨_, hl⟩)).totalQty_eq
    constructor
    · intro hall i hi
      obtain ⟨l, hl, hprice, rfl⟩ := (hlookup i).mp hi
      rw [htotal l hl]
      apply hall l hl hprice
    · intro hall l hl hprice
      rw [← htotal l hl]
      apply hall l.slot ((hlookup l.slot).mpr ⟨l, hl, hprice, rfl⟩)
  rw [← htotals, ← hshown]
  constructor
  · intro hall s
    apply ((h.hasLayout sym).depth_eq_iff hbook s).mp (hall sym s)
  · intro hall i s
    rcases eq_or_ne i sym with rfl | hi
    · apply ((h.hasLayout i).depth_eq_iff hbook s).mpr (hall s)
    · have hother := h₂.hasLayout i
      rw [Function.update_of_ne hi] at hother
      apply ((h.hasLayout i).depth_eq_iff hother s).mpr rfl

end MultiAssetEngine.HasLayouts

namespace Exchange

variable {s : Exchange} {inbound cancel : InboundMessage} {risk : RiskEngine}

/-- An order comes to rest with its whole quantity, and no trade is made. -/
structure RestsInFull (s : Exchange) (inbound : InboundMessage) : Prop where
  processed : ∃ report, (s.processed inbound).1 = .ok report ∧ report.stpTriggered = false
    ∧ report.remainingQty = inbound.order.qty
  no_trade : (s.processed inbound).2.2 = []

/-- A message cancels an order that has been submitted, for its user and under its identifier. -/
structure Targets (s : Exchange) (inbound cancel : InboundMessage) : Prop where
  kind_eq : cancel.order.kind = .cancel
  symbolId_eq : cancel.order.symbolId = inbound.order.symbolId
  userId_eq : cancel.order.userId = inbound.order.userId
  id_eq : cancel.order.id = s.exchangeId inbound

/-- The cancel of an order that has been submitted succeeds, and the account of the user and
the depth of the books are as they were before the order. -/
structure CancelUndoes (s : Exchange) (inbound cancel : InboundMessage) : Prop where
  succeeds : ∃ cancelled, ((s.handle inbound).state.engine.cancelOrder cancel.order.symbolId
    cancel.order.userId cancel.order.id).1 = .ok cancelled
  account : ((s.handle inbound).state.handle cancel).state.risk.accounts inbound.order.userId
    = s.risk.accounts inbound.order.userId
  depth : ∀ sym side maxLevels,
    (((s.handle inbound).state.handle cancel).state.engine.books sym).depth side maxLevels
      = (s.engine.books sym).depth side maxLevels

/-- The locked part of the account has room for the margin of an order, whose side is a valid
one, and the level of its price has room for its quantity. -/
def HasRoomFor (s : Exchange) (o : Order) : Prop :=
  ∀ sym a, symIdx o.symbolId = some sym → s.risk.accounts o.userId = some a →
    a.HasRoom sym o ∧ ∀ i, (s.engine.books sym).priceIndex.lookup o.price = some i →
      ((s.engine.books sym).levelArena.nodes i).totalQty.toNat + o.qty.toNat < 2 ^ 64

/-- The state after an order has come to rest in full: it has been put into its book, and its
margin is locked. -/
theorem handle_of_restsInFull {E : Fin NUM_SYMBOLS → Layout} {sym : Fin NUM_SYMBOLS}
    (h : s.engine.HasLayouts E) (hkind : inbound.order.kind = .limit)
    (hlock : s.risk.lockOrderFunds inbound.order = .ok risk) (hrests : s.RestsInFull inbound)
    (hsym : symIdx inbound.order.symbolId = some sym) :
  ∃ (r : Resting) (j : Nat) (L : Layout) (engine : MultiAssetEngine),
    r.order = { inbound.order with id := s.exchangeId inbound }
      ∧ L.WellFormed ∧ L.ladder = (E sym).ladder ∧ (E sym).Unmatched r.order
      ∧ (s.handle inbound).state = ⟨engine, risk⟩
      ∧ engine.HasLayouts (Function.update E sym (L.put r j))
  := by
  have hkind' : inbound.order.kind ≠ .cancel := ne_of_eq_of_ne hkind (by decide)
  have hmarket : (s.assigned inbound).kind ≠ .market := by
    rw [s.assigned_eq inbound]
    change inbound.order.kind ≠ .market
    rw [hkind]
    decide
  obtain ⟨o, e', ho, hprocessed, he'⟩ := processed_eq h hkind' hsym
  have hid : o.id ≠ 0 := by
    rw [ho]
    apply s.exchangeId_ne_zero inbound
  obtain ⟨report, hok, hstp, hremaining⟩ := hrests.processed
  have htrades := hrests.no_trade
  rw [hprocessed] at hok htrades
  dsimp only at hok htrades
  rw [hok, htrades] at hprocessed
  rw [Layout.trades_process, List.nil_append] at htrades
  have hrests' : (E sym).Rests o inbound.clientId := by
    rw [Layout.report_of_process_ok hok] at hstp hremaining
    refine ⟨hstp, ?_, ?_⟩
    · apply UInt64.ne_zero_iff_pos.mp
      exact hremaining.trans_ne (RiskEngine.locked_of_ok hkind' hlock).qty_ne
    · rw [ho]
      apply hkind
  obtain ⟨i, j, L, hw, hladder, hput⟩ :=
    Layout.exists_put_of_no_trade (h.wellFormed sym) hid hrests' htrades hok
  have hidle := hrests'.fills_eq_idle_of_no_trade (h.wellFormed sym) htrades
  rw [hput] at he'
  have hstate := (handle_of_ok hkind' hlock hprocessed).1
  rw [RiskEngine.settleReport_nil _ hmarket, if_neg (by simp [hstp])] at hstate
  exact ⟨⟨i, o, inbound.clientId⟩, j, L, e', ho, hw, hladder, hrests'.unmatched hidle, hstate, he'⟩

/-- The state after the cancel of an order that has just been put into its book: the order is
taken out, and its margin is unlocked. -/
theorem handle_cancel_of_put {E : Fin NUM_SYMBOLS → Layout} {sym : Fin NUM_SYMBOLS}
    (h : s.engine.HasLayouts E) {L : Layout} (hw : L.WellFormed) {r : Resting} {j : Nat}
    (hput : E sym = L.put r j) (hsym : symIdx cancel.order.symbolId = some sym)
    (hkind : cancel.order.kind = .cancel) (huser : cancel.order.userId = r.order.userId)
    (hid : cancel.order.id = r.order.id) :
  ∃ (pl : (L.put r j).Place) (engine : MultiAssetEngine), pl.order.slot = r.slot
    ∧ (s.engine.cancelOrder cancel.order.symbolId cancel.order.userId cancel.order.id).1
      = .ok r.order
    ∧ (s.handle cancel).state
      = ⟨engine, s.risk.unlockCancelledOrderMargin r.order r.order.qty⟩
    ∧ engine.HasLayouts (Function.update E sym ((L.put r j).remove pl))
  := by
  obtain ⟨pl, engine, hslot, hcancelled, hengine⟩ := h.cancelOrder_put hw hput hsym
  rw [← huser, ← hid] at hcancelled
  refine ⟨pl, engine, hslot, ?_, ?_, hengine⟩
  · rw [hcancelled]
  · rw [handle, if_pos hkind, handleCancel]
    rw [hcancelled]

/-- A cancel undoes the order exactly if there is room for its margin and its quantity. -/
theorem cancelUndoes_iff (h : s.Reachable) (hkind : inbound.order.kind = .limit)
    (hlock : s.risk.lockOrderFunds inbound.order = .ok risk) (hrests : s.RestsInFull inbound)
    (hcancel : s.Targets inbound cancel) :
  s.CancelUndoes inbound cancel ↔ s.HasRoomFor inbound.order
  := by
  obtain ⟨E, hs⟩ := h.exists_sound
  have hkind' : inbound.order.kind ≠ .cancel := ne_of_eq_of_ne hkind (by decide)
  have hlocked := RiskEngine.locked_of_ok hkind' hlock
  obtain ⟨sym, hsym⟩ := hlocked.exists_sym
  obtain ⟨a, haccount⟩ := hlocked.exists_account
  obtain ⟨r, j, L, engine, hr, hw, hladder, hunmatched, hstate, hengine⟩ :=
    handle_of_restsInFull hs.layouts hkind hlock hrests hsym
  have huser : cancel.order.userId = r.order.userId := by
    rw [hcancel.userId_eq, hr]
  have hid : cancel.order.id = r.order.id := by
    rw [hcancel.id_eq, hr]
  have hsym' : symIdx cancel.order.symbolId = some sym := by
    rw [hcancel.symbolId_eq, hsym]
  obtain ⟨pl, engine', hslot, hcancelled, hstate', hengine'⟩ := handle_cancel_of_put
    (s := ⟨engine, risk⟩) hengine hw (Function.update_self ..) hsym' hcancel.kind_eq huser hid
  rw [Function.update_idem] at hengine'
  have hunlock : risk.unlockCancelledOrderMargin r.order r.order.qty
      = risk.unlockCancelledOrderMargin inbound.order inbound.order.qty := by
    rw [hr]
    rfl
  dsimp only at hstate' hcancelled
  rw [hunlock, ← hstate] at hstate'
  have hdepth := hs.layouts.depth_remove_put_iff hw hladder hunmatched hengine hslot hengine'
  rw [hr] at hdepth
  constructor
  · intro hundoes
    have hroom := hundoes.account
    have hlevel := hundoes.depth
    rw [hstate'] at hroom hlevel
    intro sym₀ a₀ hsym₀ haccount₀
    obtain rfl := Option.some.inj (hsym.symm.trans hsym₀)
    obtain rfl := Option.some.inj (haccount.symm.trans haccount₀)
    exact ⟨(hlocked.unlock_self_iff hsym haccount).mp hroom, hdepth.mp hlevel⟩
  · intro hroom
    obtain ⟨hmargin, hlevel⟩ := hroom sym a hsym haccount
    constructor
    · rw [hstate]
      exact ⟨_, hcancelled⟩
    · rw [hstate']
      apply (hlocked.unlock_self_iff hsym haccount).mpr hmargin
    · rw [hstate']
      apply hdepth.mpr hlevel

/-- A client funds an account with dollars and units of the first symbol. -/
def stocked : Exchange := Exchange.new.deposit 1 1000000000 0 10

/-- The limit order of the client for five units at 100 dollars, of the side a byte encodes. -/
def sideMessage (side : UInt8) : InboundMessage where
  order := { Order.newClientLimit 9 1 .btc .buy 100 5 with side := side }
  clientId := 7

/-- The cancel of that order. -/
def sideCancel : InboundMessage where
  order := Order.newCancel 1 1 .btc
  clientId := 7

theorem reachable_stocked :
  stocked.Reachable
  := Reachable.new.deposit 1 1000000000 0 10

theorem restsInFull_sideMessage {side : UInt8} (h : side = 0 ∨ side = 2) :
  (∃ risk, stocked.risk.lockOrderFunds (sideMessage side).order = .ok risk)
    ∧ stocked.RestsInFull (sideMessage side) ∧ stocked.Targets (sideMessage side) sideCancel
  := by
  have hkind : (sideMessage side).order.kind ≠ .cancel := (by decide : OrderType.limit ≠ .cancel)
  refine ⟨(RiskEngine.covers_iff hkind).mp ?_, ⟨⟨⟨0, 5, false⟩, ?_, rfl, rfl⟩, ?_⟩, ?_⟩
  · refine ⟨(by decide : (5 : UInt64) ≠ 0), 0, _, rfl, rfl, ?_⟩
    rcases h with rfl | rfl <;> decide
  · rcases h with rfl | rfl <;> decide +kernel
  · rcases h with rfl | rfl <;> decide +kernel
  · exact ⟨rfl, rfl, rfl, by rcases h with rfl | rfl <;> rfl⟩

theorem cancelUndoes_sideMessage :
  stocked.CancelUndoes (sideMessage 0) sideCancel
  := by
  obtain ⟨⟨risk, hlock⟩, hrests, hcancel⟩ := restsInFull_sideMessage (Or.inl rfl)
  have hsym₀ : symIdx (sideMessage 0).order.symbolId = some 0 := rfl
  have hlookup : (stocked.engine.books 0).priceIndex.lookup (sideMessage 0).order.price = none := by
    decide +kernel
  refine (cancelUndoes_iff reachable_stocked rfl hlock hrests hcancel).mpr ?_
  intro sym a hsym haccount
  obtain rfl := Option.some.inj (hsym₀.symm.trans hsym)
  obtain rfl := Option.some.inj haccount
  refine ⟨Or.inl ⟨rfl, by decide⟩, fun i hi => ?_⟩
  rw [hlookup] at hi
  contradiction

/-- An order of a side byte that encodes no side is cancelled, and its margin stays locked. -/
theorem not_cancelUndoes_sideMessage :
  (∃ risk, stocked.risk.lockOrderFunds (sideMessage 2).order = .ok risk)
    ∧ stocked.RestsInFull (sideMessage 2) ∧ stocked.Targets (sideMessage 2) sideCancel
    ∧ ¬ stocked.CancelUndoes (sideMessage 2) sideCancel
  := by
  obtain ⟨hlock, hrests, hcancel⟩ := restsInFull_sideMessage (Or.inr rfl)
  refine ⟨hlock, hrests, hcancel, fun hundoes => ?_⟩
  have hat := congrArg (Option.map fun a : Account => a.assetLocked 0) hundoes.account
  have hafter : (((stocked.handle (sideMessage 2)).state.handle sideCancel).state.risk.accounts
      1).map (fun a : Account => a.assetLocked 0) = some 5 := by decide +kernel
  rw [show (sideMessage 2).order.userId = 1 from rfl, hafter] at hat
  exact absurd hat (by decide)

end Exchange

end LimitOrderBook
