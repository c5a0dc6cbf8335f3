import LimitOrderBook.Reference

/-!
# Buy and sell are mirror images

The reflection of the prices at `K` exchanges the two sides of a book: a bid at `p` becomes an
ask at `K - p`.  The operations on layouts commute with it, so a book that is given the mirror
image of what another is given answers the mirror image of what that answers, and shows its
depth with the sides exchanged (`OrderBook.answer_mirror`).
-/

namespace LimitOrderBook

/-! ### Mirror images -/

/-- The byte of the other side. -/
def mirrorSide (v : UInt8) : UInt8 :=
  if v = Side.sell.toByte then Side.buy.toByte else Side.sell.toByte

/-- The order on the other side, at the price reflected at `K`. -/
def Order.mirror (K : UInt64) (o : Order) : Order :=
  { o with side := mirrorSide o.side, price := K - o.price }

/-- The trade between the other sides, at the reflected price. -/
def Trade.mirror (K : UInt64) (t : Trade) : Trade :=
  { t with
    buyerId := t.sellerId, sellerId := t.buyerId
    makerSide := mirrorSide t.makerSide, price := K - t.price }

def MarketDepthLevel.mirror (K : UInt64) (d : MarketDepthLevel) : MarketDepthLevel :=
  { d with price := K - d.price }

def Response.mirror (K : UInt64) : Response → Response
  | .report executed => .report executed
  | .cancelled o => .cancelled (o.mirror K)

def Call.mirror (K : UInt64) : Call → Call
  | .process o clientId trades => .process (o.mirror K) clientId (trades.map (Trade.mirror K))
  | .cancelOrder u k => .cancelOrder u k

/-- The calls that have a mirror image at `K`: limit orders of a valid side at a price up to `K`,
and cancels. -/
def Call.Within (K : UInt64) : Call → Prop
  | .process o _ _ =>
      o.kind = .cancel ∨ o.kind = .limit ∧ (∃ s, o.getSide = some s) ∧ o.price ≤ K
  | .cancelOrder _ _ => True

def FastIndexEntry.mirror (K : UInt64) (e : FastIndexEntry) : FastIndexEntry :=
  { e with side := mirrorSide e.side, price := K - e.price }

def Resting.mirror (K : UInt64) (r : Resting) : Resting := { r with order := r.order.mirror K }

def Level.mirror (K : UInt64) (l : Level) : Level :=
  { l with price := K - l.price, queue := l.queue.map (Resting.mirror K) }

def Fills.mirror (K : UInt64) (m : Fills) : Fills :=
  { m with
    taker := m.taker.mirror K
    left := m.left.map (Resting.mirror K)
    filled := m.filled.map (Resting.mirror K)
    trades := m.trades.map (Trade.mirror K) }

def LadderFills.mirror (K : UInt64) (m : LadderFills) : LadderFills :=
  { m with
    taker := m.taker.mirror K
    ladder := m.ladder.map (Level.mirror K)
    filled := m.filled.map (Resting.mirror K)
    trades := m.trades.map (Trade.mirror K) }

def Layout.mirror (K : UInt64) (L : Layout) : Layout :=
  { L with
    ladder := fun s => (L.ladder s.opposite).map (Level.mirror K)
    orderIndex := fun k => (L.orderIndex k).map (FastIndexEntry.mirror K) }

variable {K : UInt64}

/-! ### Prices -/

namespace Side

/-- The reflection turns the ranking of the prices round. -/
theorem before_mirror (s : Side) {p q : UInt64} (hp : p ≤ K) (hq : q ≤ K) :
  s.opposite.before (K - p) (K - q) = s.before p q
  := by
  have hp' := UInt64.toNat_sub_of_le _ _ hp
  have hq' := UInt64.toNat_sub_of_le _ _ hq
  rw [UInt64.le_iff_toNat_le] at hp hq
  cases s <;>
  · simp only [opposite, before, decide_eq_decide, UInt64.lt_iff_toNat_lt, hp', hq']
    omega

end Side

namespace Order

variable {o : Order}

/-- The mirror image of an order rests on the other side. -/
@[simp]
theorem bookSide_mirror (o : Order) :
  (o.mirror K).bookSide = o.bookSide.opposite
  := by
  unfold bookSide isSell mirror mirrorSide
  by_cases h : o.side = Side.sell.toByte
  · simp [h, Side.opposite, Side.toByte]
  · simp [h, Side.opposite]

@[simp]
theorem takesFrom_mirror (o : Order) :
  (o.mirror K).takesFrom = o.takesFrom.opposite
  := by
  rw [takesFrom, bookSide_mirror, takesFrom]

/-- A limit order accepts the mirror images of the prices it accepts. -/
theorem accepts_mirror (hkind : o.kind = .limit) (hprice : o.price ≤ K) (s : Side) {price : UInt64}
    (h : price ≤ K) :
  (o.mirror K).accepts s.opposite (K - price) = o.accepts s price
  := by
  have hkind' : (o.mirror K).kind = .limit := hkind
  have hprice' : (o.mirror K).price = K - o.price := rfl
  unfold accepts
  rw [hkind, hkind', hprice', s.before_mirror hprice h]
  rfl

end Order

/-! ### Matching -/

/-- Buyer and seller change places, if the side of the taker is one of the two. -/
theorem tradeOf_mirror {taker : Order} (hside : ∃ s, taker.getSide = some s) (matchId : UInt64)
    (resting : Order) (makerClientId takerClientId qty : UInt64) :
  OrderBook.tradeOf matchId (resting.mirror K) (taker.mirror K) makerClientId takerClientId qty
    = (OrderBook.tradeOf matchId resting taker makerClientId takerClientId qty).mirror K
  := by
  obtain ⟨s, hs⟩ := hside
  have hbyte := Order.side_of_getSide hs
  have hne : Side.sell.toByte ≠ Side.buy.toByte := by decide
  unfold OrderBook.tradeOf Trade.mirror Order.mirror mirrorSide
  cases s <;> simp [hbyte, hne, hne.symm]

/-- Mirrored, an order meets the mirrored queue in the mirrored trades. -/
theorem matchOrders_mirror (takerClientId : UInt64) {taker : Order}
    (hside : ∃ s, taker.getSide = some s) (nextId : UInt64) (rs : List Resting) :
  matchOrders (fun _ => true) takerClientId (taker.mirror K) nextId (rs.map (Resting.mirror K))
    = (matchOrders (fun _ => true) takerClientId taker nextId rs).mirror K
  := by
  induction rs generalizing taker nextId with
  | nil => rfl
  | cons r rs ih =>
      have hqty : (taker.mirror K).qty = taker.qty := rfl
      have huser : (taker.mirror K).userId = taker.userId := rfl
      have hqty' : (r.mirror K).order.qty = r.order.qty := rfl
      have huser' : (r.mirror K).order.userId = r.order.userId := rfl
      rw [List.map_cons, matchOrders, matchOrders, hqty, huser, hqty', huser']
      simp only [Bool.true_eq_false, or_false]
      split
      · rfl
      split
      · rfl
      have htrade : OrderBook.tradeOf nextId (r.mirror K).order (taker.mirror K)
          (r.mirror K).clientId takerClientId (min taker.qty r.order.qty)
          = (OrderBook.tradeOf nextId r.order taker r.clientId takerClientId
            (min taker.qty r.order.qty)).mirror K := tradeOf_mirror hside ..
      have hreduce : (taker.mirror K).reduce (min taker.qty r.order.qty)
          = (taker.reduce (min taker.qty r.order.qty)).mirror K := rfl
      rw [htrade]
      split
      · rw [hreduce, ih (by exact hside)]
        rfl
      · rfl

/-- A limit order does to the mirror image of a ladder the mirror image of what it does to the
ladder. -/
theorem matchLadder_mirror (takerClientId : UInt64) {taker : Order}
    (hside : ∃ s, taker.getSide = some s) (nextId : UInt64) {accepts accepts' : UInt64 → Bool}
    {ls : List Level} (haccepts : ∀ l ∈ ls, accepts' (K - l.price) = accepts l.price) :
  matchLadder accepts' takerClientId (taker.mirror K) nextId (ls.map (Level.mirror K))
    = (matchLadder accepts takerClientId taker nextId ls).mirror K
  := by
  induction ls generalizing taker nextId with
  | nil => rfl
  | cons l ls ih =>
      obtain ⟨haccepts, haccepts'⟩ := List.forall_mem_cons.mp haccepts
      have hqty : (taker.mirror K).qty = taker.qty := rfl
      have hprice : (l.mirror K).price = K - l.price := rfl
      have hqueue : (l.mirror K).queue = l.queue.map (Resting.mirror K) := rfl
      have hmatched := matchOrders_mirror (K := K) takerClientId hside nextId l.queue
      have htaker := taker_matchOrders (fun _ => true) takerClientId taker nextId l.queue
      rw [List.map_cons, matchLadder, matchLadder, hqty, hprice, haccepts, hqueue, hmatched]
      generalize matchOrders (fun _ => true) takerClientId taker nextId l.queue = m at htaker ⊢
      split
      · rfl
      have hleft : (m.mirror K).left = [] ↔ m.left = [] := List.map_eq_nil_iff
      dsimp only
      by_cases hnil : m.left = []
      · have hside' : ∃ s, m.taker.getSide = some s := by
          rw [htaker]
          exact hside
        have hrest := ih hside' m.nextId haccepts'
        rw [if_pos hnil, if_pos (hleft.mpr hnil)]
        dsimp only [Fills.mirror]
        rw [hrest]
        simp only [LadderFills.mirror, List.map_append]
        rfl
      · rw [if_neg hnil, if_neg (mt hleft.mp hnil)]
        rfl

/-! ### Resting -/

/-- An order is put into the mirror image of a ladder where its mirror image would be. -/
theorem restLadder_mirror (s : Side) {r : Resting} (hr : r.order.price ≤ K) (j : Nat)
    {ls : List Level} (hls : ∀ l ∈ ls, l.price ≤ K) :
  restLadder s.opposite (r.mirror K) j (ls.map (Level.mirror K))
    = (restLadder s r j ls).map (Level.mirror K)
  := by
  have hpush : ∀ l : Level, (l.mirror K).push (r.mirror K) = (l.push r).mirror K := by
    intro l
    unfold Level.push Level.mirror
    rw [List.map_append, List.map_singleton]
    rfl
  have hprice : (r.mirror K).order.price = K - r.order.price := rfl
  have hempty : Level.empty j (K - r.order.price) = (Level.empty j r.order.price).mirror K := rfl
  induction ls with
  | nil =>
      rw [List.map_nil, restLadder, restLadder, hprice, hempty, hpush]
      rfl
  | cons l ls ih =>
      obtain ⟨hl, hls⟩ := List.forall_mem_cons.mp hls
      have hlevel : (l.mirror K).price = K - l.price := rfl
      rw [List.map_cons, restLadder, restLadder, hprice, hlevel, s.before_mirror hr hl, hempty,
        hpush, hpush, ih hls]
      simp only [UInt64.sub_right_inj]
      split
      · rfl
      split
      · rfl
      · rfl

namespace Layout

variable {L : Layout}

/-- The prices of a layout are up to `K`. -/
def PricesLe (K : UInt64) (L : Layout) : Prop := ∀ s, ∀ l ∈ L.ladder s, l.price ≤ K

/-- The prices of a well-formed layout are bounded when those of its orders are. -/
theorem pricesLe_iff (hw : L.WellFormed) :
  L.PricesLe K ↔ ∀ s, ∀ r ∈ L.resting s, r.order.price ≤ K
  := by
  constructor
  · intro hL s r hr
    obtain ⟨l, hl, hr⟩ := mem_restingOf.mp hr
    rw [hw.price_eq s l hl r hr]
    apply hL s l hl
  · intro hL s l hl
    obtain ⟨r, q, hq⟩ := List.exists_cons_of_ne_nil (hw.queue_ne_nil s l hl)
    have hr : r ∈ l.queue := by
      rw [hq]
      apply List.mem_cons_self
    rw [← hw.price_eq s l hl r hr]
    apply hL s r (mem_restingOf.mpr ⟨l, hl, hr⟩)

/-- Taking from the other side brings in no price. -/
theorem PricesLe.taken (hL : L.PricesLe K) (hw : L.WellFormed) (o : Order) (clientId : UInt64) :
  (L.taken o clientId).PricesLe K
  := by
  refine WellFormed.forall_ladder_update (L := L) (s := o.takesFrom) rfl hL ?_
  intro l hl
  obtain ⟨l₀, hl₀, -, hprice, -⟩ := hw.mem_ladder_matched hl
  rw [hprice]
  apply hL _ l₀ hl₀

/-- Processing an order brings in no price but its own. -/
theorem PricesLe.process (hL : L.PricesLe K) (hw : L.WellFormed) {o : Order} (ho : o.price ≤ K)
    (clientId : UInt64) (trades : List Trade) :
  (L.process o clientId trades).2.1.PricesLe K
  := by
  apply (pricesLe_iff (hw.process o clientId trades)).mpr
  intro s r hr
  rcases (L.process_cases o clientId trades).mem_resting hw hr with
    ⟨r₀, hr₀, rfl | ⟨qty, rfl⟩⟩ | ⟨-, -, horder⟩
  · apply (pricesLe_iff hw).mp hL s r hr₀
  · apply (pricesLe_iff hw).mp hL s r₀ hr₀
  · rw [horder, price_taker_fills]
    apply ho

/-- Removing an order brings in no price. -/
theorem PricesLe.remove (hL : L.PricesLe K) (hw : L.WellFormed) (pl : L.Place) :
  (L.remove pl).PricesLe K
  := by
  apply (pricesLe_iff (hw.remove pl)).mpr
  intro s r hr
  apply (pricesLe_iff hw).mp hL s r (mem_resting_remove hr)

@[simp]
theorem ladder_mirror (L : Layout) (s : Side) :
  (L.mirror K).ladder s = (L.ladder s.opposite).map (Level.mirror K)
  := rfl

/-- A ladder that changes, seen in the mirror. -/
theorem update_mirror (ladder : Side → List Level) (s : Side) (ls : List Level) :
  Function.update (fun s => (ladder s.opposite).map (Level.mirror K)) s.opposite
      (ls.map (Level.mirror K))
    = fun s' => (Function.update ladder s ls s'.opposite).map (Level.mirror K)
  := by
  funext s'
  cases s <;> cases s' <;> rfl

/-- A new layout is its mirror image. -/
theorem mirror_new :
  new.mirror K = new
  := by
  unfold mirror new
  simp only [List.map_nil, Option.map_none]

/-- Filing an order at its level commutes with the mirror. -/
theorem put_mirror {r : Resting} (hr : r.order.price ≤ K) (hL : L.PricesLe K) (j : Nat) :
  (L.mirror K).put (r.mirror K) j = (L.put r j).mirror K
  := by
  have hside : (r.mirror K).order.bookSide = r.order.bookSide.opposite :=
    Order.bookSide_mirror r.order
  have hid : (r.mirror K).order.id = r.order.id := rfl
  have hindex : ∀ k, (if k = r.order.id then some (r.mirror K).entry
        else (L.orderIndex k).map (FastIndexEntry.mirror K))
      = (if k = r.order.id then some r.entry else L.orderIndex k).map
        (FastIndexEntry.mirror K) := by
    intro k
    split <;> rfl
  unfold put mirror
  dsimp only
  rw [hside, hid, Side.opposite_opposite, restLadder_mirror _ hr j (hL _), update_mirror]
  simp only [hindex]
  rfl

/-- Resting an order commutes with the mirror. -/
theorem rest_mirror {o : Order} (ho : o.price ≤ K) (hL : L.PricesLe K) (clientId : UInt64) :
  (L.mirror K).rest (o.mirror K) clientId
    = ((L.rest o clientId).1, (L.rest o clientId).2.mirror K)
  := by
  have hmem : (o.mirror K).price
        ∈ ((L.ladder (o.mirror K).bookSide.opposite).map (Level.mirror K)).map (·.price)
      ↔ o.price ∈ (L.ladder o.bookSide).map (·.price) := by
    have hprice : (o.mirror K).price = K - o.price := rfl
    rw [Order.bookSide_mirror, Side.opposite_opposite, hprice, List.map_map]
    simp only [List.mem_map, Function.comp_apply, Level.mirror, UInt64.sub_right_inj]
  have hput : ∀ freeOrders freeLevels i j,
      ({ L with freeOrders := freeOrders, freeLevels := freeLevels }.mirror K).put
          (Resting.mirror K ⟨i, o, clientId⟩) j
        = ({ L with freeOrders := freeOrders, freeLevels := freeLevels }.put
          ⟨i, o, clientId⟩ j).mirror K :=
    fun _ _ _ j => put_mirror (by exact ho) (by exact hL) j
  obtain ⟨ladder, lostOrders, freeOrders, freeLevels, orderIndex, clientIndex, _, _⟩ := L
  unfold rest mirror
  dsimp only
  simp only [hmem]
  cases freeOrders with
  | nil => rfl
  | cons i freeOrders =>
      dsimp only
      split
      · exact Prod.ext rfl (hput freeOrders freeLevels i 0)
      · cases freeLevels with
        | nil => rfl
        | cons j freeLevels => exact Prod.ext rfl (hput freeOrders freeLevels i j)

/-! ### Processing -/

/-- Taking the matched orders off a ladder commutes with the mirror. -/
theorem matched_mirror (L : Layout) (s : Side) (m : LadderFills) :
  (L.mirror K).matched s.opposite (m.mirror K) = (L.matched s m).mirror K
  := by
  unfold matched mirror LadderFills.mirror
  dsimp only
  rw [update_mirror]
  simp only [List.map_map, apply_ite (Option.map (FastIndexEntry.mirror K)), Option.map_none]
  rfl

section

variable {o : Order} (hkind : o.kind = .limit) (hside : ∃ s, o.getSide = some s)
  (hprice : o.price ≤ K) (hL : L.PricesLe K) (clientId : UInt64)

include hkind hside hprice hL

/-- The mirrored order makes the mirrored trades. -/
theorem fills_mirror :
  (L.mirror K).fills (o.mirror K) clientId = (L.fills o clientId).mirror K
  := by
  have hstamped : (L.mirror K).stamped (o.mirror K) = (L.stamped o).mirror K := rfl
  have hside' : ∃ s, (L.stamped o).getSide = some s := hside
  unfold fills
  rw [Order.takesFrom_mirror, ladder_mirror, Side.opposite_opposite, hstamped]
  apply matchLadder_mirror clientId hside'
  intro l hl
  apply Order.accepts_mirror hkind hprice
  apply hL _ l hl

/-- The mirrored order leaves the mirrored ladders behind. -/
theorem taken_mirror :
  (L.mirror K).taken (o.mirror K) clientId = (L.taken o clientId).mirror K
  := by
  unfold taken
  rw [fills_mirror hkind hside hprice hL, Order.takesFrom_mirror]
  apply matched_mirror { L with orderIdCounter := L.nextOrderId o }

theorem report_mirror :
  (L.mirror K).report (o.mirror K) clientId = L.report o clientId
  := by
  unfold report
  rw [fills_mirror hkind hside hprice hL]
  rfl

/-- The mirrored order rests exactly when the order does. -/
theorem rests_mirror :
  (L.mirror K).Rests (o.mirror K) clientId ↔ L.Rests o clientId
  := by
  unfold Rests
  rw [fills_mirror hkind hside hprice hL]
  rfl

/-- Processing the mirror image of an order in the mirror image of a layout. -/
theorem process_mirror (hw : L.WellFormed) (trades : List Trade) :
  (L.mirror K).process (o.mirror K) clientId (trades.map (Trade.mirror K))
    = ((L.process o clientId trades).1, (L.process o clientId trades).2.1.mirror K,
      (L.process o clientId trades).2.2.map (Trade.mirror K))
  := by
  have hfills := fills_mirror hkind hside hprice hL clientId
  have htaken := taken_mirror hkind hside hprice hL clientId
  have hreport := report_mirror hkind hside hprice hL clientId
  have hrests := rests_mirror hkind hside hprice hL clientId
  rw [process_eq_ite, process_eq_ite, hfills, htaken, hreport]
  by_cases h : L.Rests o clientId
  · have htaker : (L.fills o clientId).taker.price ≤ K := by
      rw [price_taker_fills]
      apply hprice
    have hL' : (L.taken o clientId).PricesLe K := hL.taken hw o clientId
    have hrest := rest_mirror htaker hL' clientId
    rw [if_pos h, if_pos (hrests.mpr h)]
    dsimp only [LadderFills.mirror]
    rw [hrest, List.map_append]
  · rw [if_neg h, if_neg (mt hrests.mp h)]
    dsimp only [LadderFills.mirror]
    rw [List.map_append]

end

/-! ### Cancels -/

/-- The mirrored book knows the same client ids. -/
theorem findEntry_mirror (L : Layout) (u k : UInt64) :
  (L.mirror K).findEntry u k = (L.findEntry u k).map (FastIndexEntry.mirror K)
  := by
  unfold findEntry mirror
  dsimp only
  cases L.orderIndex k with
  | some e => rfl
  | none =>
      cases L.clientIndex u k with
      | none => rfl
      | some exchangeId =>
          dsimp only [Option.map]
          cases L.orderIndex exchangeId <;> rfl

/-- The mirror image of a place. -/
def Place.mirror (K : UInt64) (pl : L.Place) : (L.mirror K).Place where
  side := pl.side.opposite
  above := pl.above.map (Level.mirror K)
  level := pl.level.mirror K
  below := pl.below.map (Level.mirror K)
  front := pl.front.map (Resting.mirror K)
  order := pl.order.mirror K
  back := pl.back.map (Resting.mirror K)
  ladder_eq := by
    rw [ladder_mirror, Side.opposite_opposite, pl.ladder_eq, List.map_append, List.map_cons]
  queue_eq := by
    rw [Level.mirror, pl.queue_eq, List.map_append, List.map_cons]

theorem remains_mirror (pl : L.Place) :
  (pl.mirror K).remains = pl.remains.map (Level.mirror K)
  := by
  unfold Place.remains Place.mirror
  dsimp only
  rw [← List.map_append]
  simp only [List.map_eq_nil_iff]
  split <;> rfl

/-- Removing an order commutes with the mirror. -/
theorem remove_mirror (pl : L.Place) :
  (L.mirror K).remove (pl.mirror K) = (L.remove pl).mirror K
  := by
  have hnil : pl.front.map (Resting.mirror K) ++ pl.back.map (Resting.mirror K) = []
      ↔ pl.front ++ pl.back = [] := by
    rw [← List.map_append, List.map_eq_nil_iff]
  unfold remove
  rw [remains_mirror]
  dsimp only [Place.mirror, mirror]
  rw [← List.map_append, ← List.map_append, update_mirror]
  simp only [hnil, apply_ite (Option.map (FastIndexEntry.mirror K)), Option.map_none]
  rfl

end Layout

/-! ### Runs -/

namespace OrderBook

/-- The book `b'` is the mirror image of the book `b`, which has the layout `L`. -/
structure Mirrored (K : UInt64) (b b' : OrderBook) (L : Layout) : Prop where
  layout : b.HasLayout L
  wellFormed : L.WellFormed
  pricesLe : L.PricesLe K
  layout' : b'.HasLayout (L.mirror K)
  wellFormed' : (L.mirror K).WellFormed

namespace Mirrored

variable {b b' : OrderBook} {L : Layout}

/-- The empty book is its own mirror. -/
theorem new (symbol : Symbol) :
  Mirrored K (OrderBook.new symbol) (OrderBook.new symbol) Layout.new
  := by
  constructor
  · apply HasLayout.new
  · apply Layout.wellFormed_new
  · intro s l hl
    cases hl
  · rw [Layout.mirror_new]
    apply HasLayout.new
  · rw [Layout.mirror_new]
    apply Layout.wellFormed_new

/-- What is a bid in one book is an ask in the other. -/
theorem depth_eq (h : Mirrored K b b' L) (s : Side) (maxLevels : Nat) :
  b'.depth s maxLevels = (b.depth s.opposite maxLevels).map (MarketDepthLevel.mirror K)
  := by
  rw [h.layout'.depth_eq, h.layout.depth_eq, Layout.ladder_mirror, ← List.map_take, List.map_map,
    List.map_map]
  apply List.map_congr_left
  intro l _
  dsimp only [Function.comp_apply, Level.shown, Level.mirror, MarketDepthLevel.mirror]
  rw [List.length_map]

/-- Cancels have mirrored answers and leave mirrored books. -/
theorem cancelOrder (h : Mirrored K b b' L) (u k : UInt64) :
  (b'.cancelOrder u k).1 = (b.cancelOrder u k).1.map (Order.mirror K)
    ∧ ∃ L', Mirrored K (b.cancelOrder u k).2 (b'.cancelOrder u k).2 L'
  := by
  have hfind' := L.findEntry_mirror (K := K) u k
  cases hfind : L.findEntry u k with
  | error e =>
      rw [hfind] at hfind'
      rw [h.layout.cancelOrder_of_error hfind, h.layout'.cancelOrder_of_error hfind']
      exact ⟨rfl, L, h⟩
  | ok e =>
      obtain ⟨pl, rfl⟩ := h.wellFormed.exists_place_of_findEntry hfind
      rw [hfind] at hfind'
      by_cases huser : pl.order.order.userId = u
      · obtain ⟨b₁, heq, h₁⟩ := h.layout.cancelOrder_of_place h.wellFormed pl hfind huser
        obtain ⟨b₁', heq', h₁'⟩ := h.layout'.cancelOrder_of_place h.wellFormed' (pl.mirror K)
          hfind' huser
        rw [heq, heq']
        refine ⟨rfl, L.remove pl, h₁, h.wellFormed.remove pl, ?_, ?_, ?_⟩
        · apply h.pricesLe.remove h.wellFormed
        · rw [← Layout.remove_mirror]
          apply h₁'
        · rw [← Layout.remove_mirror]
          apply h.wellFormed'.remove
      · rw [h.layout.cancelOrder_of_user_ne hfind huser,
          h.layout'.cancelOrder_of_user_ne hfind' (by exact huser)]
        exact ⟨rfl, L, h⟩

/-- The mirror image of a call is answered by the mirror image of the answer, and the books stay
mirror images of each other. -/
theorem call (h : Mirrored K b b' L) {c : Call} (hc : c.Within K) :
  b'.answer (c.mirror K)
      = ((b.answer c).1.map (Response.mirror K), (b.answer c).2.map (Trade.mirror K))
    ∧ ∃ L', Mirrored K (b.call c) (b'.call (c.mirror K)) L'
  := by
  cases c with
  | cancelOrder u k =>
      obtain ⟨hres, hbook⟩ := h.cancelOrder u k
      refine ⟨?_, hbook⟩
      dsimp only [answer, Call.mirror]
      rw [hres]
      cases (b.cancelOrder u k).1 <;> rfl
  | process o clientId trades =>
      rcases hc with hkind | ⟨hkind, hside, hprice⟩
      · have hkind' : (o.mirror K).kind = .cancel := hkind
        have huser : (o.mirror K).userId = o.userId := rfl
        have htarget : (if (o.mirror K).id ≠ 0 then (o.mirror K).id else (o.mirror K).clientOrderId)
            = if o.id ≠ 0 then o.id else o.clientOrderId := rfl
        obtain ⟨hres, hbook⟩ := h.cancelOrder o.userId (if o.id ≠ 0 then o.id else o.clientOrderId)
        dsimp only [answer, OrderBook.call, Call.mirror]
        rw [process_of_cancel b hkind, process_of_cancel b' hkind']
        dsimp only
        rw [htarget, huser, hres]
        refine ⟨?_, hbook⟩
        cases (b.cancelOrder o.userId (if o.id ≠ 0 then o.id else o.clientOrderId)).1 <;> rfl
      · have hcancel : o.kind ≠ .cancel := ne_of_eq_of_ne hkind (by decide)
        obtain ⟨b₁, heq, h₁⟩ := h.layout.process_eq h.wellFormed hcancel clientId trades
        obtain ⟨b₁', heq', h₁'⟩ := h.layout'.process_eq h.wellFormed' (o := o.mirror K) hcancel
          clientId (trades.map (Trade.mirror K))
        have hw' := h.wellFormed'.process (o.mirror K) clientId (trades.map (Trade.mirror K))
        have hprocess := Layout.process_mirror hkind hside hprice h.pricesLe clientId h.wellFormed
          trades
        rw [hprocess] at heq' h₁' hw'
        dsimp only [answer, OrderBook.call, Call.mirror]
        rw [heq, heq']
        refine ⟨?_, _, h₁, ?_, ?_, h₁', hw'⟩
        · cases (L.process o clientId trades).1 <;> rfl
        · apply h.wellFormed.process
        · apply h.pricesLe.process h.wellFormed hprice

/-- Mirrored call sequences leave mirrored books. -/
theorem calls (symbol : Symbol) {cs : List Call} (hcs : ∀ c ∈ cs, c.Within K) :
  ∃ L, Mirrored K ((OrderBook.new symbol).calls cs)
    ((OrderBook.new symbol).calls (cs.map (Call.mirror K))) L
  := by
  induction cs using List.reverseRecOn with
  | nil => exact ⟨Layout.new, new symbol⟩
  | append_singleton cs c ih =>
      rw [List.forall_mem_append, List.forall_mem_singleton] at hcs
      obtain ⟨L, h⟩ := ih hcs.1
      rw [List.map_append, List.map_singleton, calls_concat, calls_concat]
      apply (h.call hcs.2).2

end Mirrored

/-- The mirror images of calls are answered call by call by the mirror images of the answers, and
after every call the depth is the mirror image of the depth. -/
theorem answer_mirror (symbol : Symbol) {K : UInt64} {cs : List Call} {c : Call}
    (hcs : ∀ c ∈ cs, c.Within K) (hc : c.Within K) :
  let b := (OrderBook.new symbol).calls cs
  let b' := (OrderBook.new symbol).calls (cs.map (Call.mirror K))
  b'.answer (c.mirror K)
      = ((b.answer c).1.map (Response.mirror K), (b.answer c).2.map (Trade.mirror K))
    ∧ ∀ maxLevels, (b'.call (c.mirror K)).getDepth maxLevels
      = ((b.call c).getDepth maxLevels).map fun depth =>
        (depth.2.map (MarketDepthLevel.mirror K), depth.1.map (MarketDepthLevel.mirror K))
  := by
  obtain ⟨L, h⟩ := Mirrored.calls symbol hcs
  obtain ⟨hanswer, L', h'⟩ := h.call hc
  refine ⟨hanswer, fun maxLevels => ?_⟩
  rw [getDepth_eq, getDepth_eq, h'.depth_eq, h'.depth_eq]
  split <;> rfl

/-- In the mirror at 200, the asks of `sampleCalls` are bids and `sampleBid` sells to them. -/
theorem answer_mirror_sampleBid :
  (((OrderBook.new .btc).calls ((sampleCalls.take 2).map (Call.mirror 200))).answer
      (sampleBid.mirror 200)).1
    = .ok (.report { executedQty := 6, remainingQty := 0, stpTriggered := false })
  := by
  have hcs : ∀ c ∈ sampleCalls.take 2, c.Within 200 :=
    List.forall_mem_cons.mpr ⟨Or.inr ⟨rfl, ⟨.sell, rfl⟩, by decide⟩,
      List.forall_mem_singleton.mpr (Or.inr ⟨rfl, ⟨.sell, rfl⟩, by decide⟩)⟩
  have hc : sampleBid.Within 200 := Or.inr ⟨rfl, ⟨.buy, rfl⟩, by decide⟩
  have hanswer := (answer_mirror .btc hcs hc).1
  rw [hanswer]
  rfl

end OrderBook

end LimitOrderBook
