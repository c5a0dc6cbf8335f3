import LimitOrderBook.Capacity
import LimitOrderBook.Exactness

/-!
# The book as lists of queues

A book as one would describe it: on each side a list of prices, best first, each with the
queue of the orders at it.  A taker trades with the head of the first queue as long as the
price is marketable; the remainder of a limit order joins the tail of its price's queue; a
cancel deletes the order that its number names, as an exchange's identifier if it is one.  As
long as no identifier, of the exchange or of a client, is used twice, a call determines its step
(`ListBook.Step.unique`).

Reading a book of the arenas gives such a book, and a call that succeeds does to what is
read what `ListBook.Step` says (`answer_refines`).
-/

namespace LimitOrderBook

/-- An order in a queue, and the client its fills are sent to. -/
structure Booked where
  order : Order
  clientId : UInt64
  deriving DecidableEq, Repr

@[ext]
structure ListBook where
  ladder : Side → List (UInt64 × List Booked)
  tradeIdCounter : UInt64
  orderIdCounter : UInt64

namespace ListBook

/-- The prices of either side are in strict order, and no price is without orders. -/
def Sorted (R : ListBook) : Prop :=
  ∀ s, (R.ladder s).Pairwise (fun e e' => s.before e.1 e'.1) ∧ ∀ e ∈ R.ladder s, e.2 ≠ []

/-- The limit of a taker reaches a price of the other side. -/
def reaches (taker : Order) (price : UInt64) : Bool :=
  if taker.isSell then taker.price ≤ price else price ≤ taker.price

/-- The prices a taker trades at: a limit order up to its limit, a market order up to its
cap if it has one. -/
def marketable (taker : Order) (price : UInt64) : Bool :=
  match taker.kind with
  | .limit => reaches taker price
  | .market => taker.price == 0 || reaches taker price
  | _ => true

/-- What a taker leaves of itself and of a ladder, and its trades. -/
structure Traded where
  taker : Order
  ladder : List (UInt64 × List Booked)
  trades : List Trade
  nextId : UInt64
  stp : Bool
  deriving DecidableEq, Repr

/-- A taker trades with the head of the first queue until it is filled, the price is not
marketable, or the head is of its own user. -/
def trade (takerClientId : UInt64) (taker : Order) (nextId : UInt64) :
    List (UInt64 × List Booked) → Traded
  | [] => ⟨taker, [], [], nextId, false⟩
  | (_, []) :: ladder => trade takerClientId taker nextId ladder
  | (price, maker :: queue) :: ladder =>
      if taker.qty = 0 ∨ marketable taker price = false then
        ⟨taker, (price, maker :: queue) :: ladder, [], nextId, false⟩
      else if maker.order.userId = taker.userId then
        ⟨taker, (price, maker :: queue) :: ladder, [], nextId, true⟩
      else
        let qty := min taker.qty maker.order.qty
        let made := OrderBook.tradeOf nextId maker.order taker maker.clientId takerClientId qty
        if maker.order.qty = qty then
          let rest := trade takerClientId (taker.reduce qty) (nextId + 1) ((price, queue) :: ladder)
          { rest with trades := made :: rest.trades }
        else
          ⟨taker.reduce qty, (price, { maker with order := maker.order.reduce qty } :: queue)
            :: ladder, [made], nextId + 1, false⟩
termination_by ladder => (ladder.map (·.2.length + 1)).sum

/-- Append an order to the queue of its price. -/
def append (s : Side) (x : Booked) : List (UInt64 × List Booked) → List (UInt64 × List Booked)
  | [] => [(x.order.price, [x])]
  | (price, queue) :: ladder =>
      if price = x.order.price then
        (price, queue ++ [x]) :: ladder
      else if s.before x.order.price price then
        (x.order.price, [x]) :: (price, queue) :: ladder
      else
        (price, queue) :: append s x ladder

/-- The identifier of an order: its own, or the next of the book. -/
def idOf (R : ListBook) (o : Order) : UInt64 := if o.id = 0 then R.orderIdCounter else o.id

/-- What the order `o`, not a cancel, does to a ladder of the other side. -/
def traded (R : ListBook) (o : Order) (clientId : UInt64) : Traded :=
  trade clientId { o with id := R.idOf o } R.tradeIdCounter (R.ladder o.takesFrom)

def report (R : ListBook) (o : Order) (clientId : UInt64) : ExecutionReport where
  executedQty := o.qty - (R.traded o clientId).taker.qty
  remainingQty := (R.traded o clientId).taker.qty
  stpTriggered := (R.traded o clientId).stp

/-- The remainder of a limit order stays in the book unless it has met an order of its own
user; every other remainder is dropped. -/
def process (R : ListBook) (o : Order) (clientId : UInt64) : ListBook :=
  let m := R.traded o clientId
  let ladder := Function.update R.ladder o.takesFrom m.ladder
  { ladder :=
      if m.stp = false ∧ 0 < m.taker.qty ∧ o.kind = .limit then
        Function.update ladder o.bookSide (append o.bookSide ⟨m.taker, clientId⟩ (ladder o.bookSide))
      else
        ladder
    tradeIdCounter := m.nextId
    orderIdCounter :=
      if o.id = 0 then R.orderIdCounter + 1 else max R.orderIdCounter (o.id + 1) }

/-- The orders in the book. -/
def booked (R : ListBook) : List Booked :=
  (R.ladder .buy ++ R.ladder .sell).flatMap (·.2)

/-- The order `x` rests in the book. -/
def Holds (R : ListBook) (x : Booked) : Prop := ∃ s, ∃ e ∈ R.ladder s, x ∈ e.2

/-- No two orders in the book go by one identifier. -/
def Distinct (R : ListBook) : Prop := (R.booked.map (·.order.id)).Nodup

/-- The order `x` answers to the name `k` in a request of the user `u`: `k` is its
identifier, or the client identifier `u` gave to an order of this identifier. As long as
every order has come under an identifier of its own, which is `once`, the name is taken for
a client identifier only if no order in the book has it for its identifier. -/
inductive Named (R : ListBook) (once : Prop) (u k : UInt64) (x : Booked) : Prop where
  | byId (hid : x.order.id = k)
  | byClientId (y : Booked) (hy : R.Holds y) (huser : y.order.userId = u)
      (hclient : y.order.clientOrderId = k) (hid : y.order.id = x.order.id)
      (hnone : once → ∀ z, R.Holds z → z.order.id ≠ k)

/-- One order, of the requesting user, is deleted from its queue, and its price with it if
no other order is left there. -/
inductive Cancel (R : ListBook) (once : Prop) (u k : UInt64) : Order → ListBook → Prop where
  | delete (s : Side) (above below : List (UInt64 × List Booked)) (price : UInt64)
      (front back : List Booked) (x : Booked)
      (hladder : R.ladder s = above ++ (price, front ++ x :: back) :: below)
      (huser : x.order.userId = u) (hnamed : R.Named once u k x) :
      Cancel R once u k x.order
        { R with
          ladder := Function.update R.ladder s
            (above ++ (if front ++ back = [] then [] else [(price, front ++ back)]) ++ below) }

end ListBook

/-- What a call that succeeds answers. -/
inductive Response where
  | report (report : ExecutionReport)
  | cancelled (order : Order)
  deriving DecidableEq, Repr

/-- A call on a list book, with its answer and the trades it makes. -/
inductive ListBook.Step (R : ListBook) (once : Prop) :
    Call → Response → List Trade → ListBook → Prop where
  | process (o : Order) (clientId : UInt64) (trades : List Trade) (hkind : o.kind ≠ .cancel) :
      Step R once (.process o clientId trades) (.report (R.report o clientId))
        (R.traded o clientId).trades (R.process o clientId)
  | processCancel (o : Order) (clientId : UInt64) (trades : List Trade) (hkind : o.kind = .cancel)
      {x : Order} {R' : ListBook}
      (h : R.Cancel once o.userId (if o.id ≠ 0 then o.id else o.clientOrderId) x R') :
      Step R once (.process o clientId trades)
        (.report { executedQty := 0, remainingQty := x.qty, stpTriggered := false }) [] R'
  | cancelOrder (u k : UInt64) {x : Order} {R' : ListBook} (h : R.Cancel once u k x R') :
      Step R once (.cancelOrder u k) (.cancelled x) [] R'

/-! ### The step is a function of the call -/

namespace ListBook

variable {R R' R₁ R₂ : ListBook} {once : Prop} {u k : UInt64} {x y : Booked}

/-- The booked orders are those the book holds. -/
theorem mem_booked :
  x ∈ R.booked ↔ R.Holds x
  := by
  simp only [booked, Holds, List.mem_flatMap, List.mem_append]
  constructor
  · rintro ⟨e, he | he, hx⟩
    · exact ⟨.buy, e, he, hx⟩
    · exact ⟨.sell, e, he, hx⟩
  · rintro ⟨s, e, he, hx⟩
    cases s with
    | buy => exact ⟨e, Or.inl he, hx⟩
    | sell => exact ⟨e, Or.inr he, hx⟩

/-- Distinct ids tell the orders apart. -/
theorem Distinct.eq_of_id (h : R.Distinct) (hx : R.Holds x) (hy : R.Holds y)
    (hid : x.order.id = y.order.id) :
  x = y
  := List.inj_on_of_nodup_map h (mem_booked.mpr hx) (mem_booked.mpr hy) hid

/-- No two orders in the book are of one user under one client identifier. -/
def DistinctClients (R : ListBook) : Prop :=
  ∀ x y, R.Holds x → R.Holds y → x.order.userId = y.order.userId →
    x.order.clientOrderId = y.order.clientOrderId → x = y

/-- A name is that of one order: of the order that goes by it, or else of the order the user
has given it to. -/
theorem Named.eq (honce : once) (hdistinct : R.Distinct) (hclients : R.DistinctClients)
    (hx : R.Holds x) (hy : R.Holds y) (hnx : R.Named once u k x) (hny : R.Named once u k y) :
  x = y
  := by
  cases hnx with
  | byId hidx =>
      cases hny with
      | byId hidy => exact hdistinct.eq_of_id hx hy (hidx.trans hidy.symm)
      | byClientId _ _ _ _ _ hnone => exact absurd hidx (hnone honce x hx)
  | byClientId x' hx' huserx hclientx hidx hnone =>
      cases hny with
      | byId hidy => exact absurd hidy (hnone honce y hy)
      | byClientId y' hy' husery hclienty hidy _ =>
          have hxy := hclients x' y' hx' hy' (huserx.trans husery.symm)
            (hclientx.trans hclienty.symm)
          apply hdistinct.eq_of_id hx hy
          rw [← hidx, ← hidy, hxy]

/-- A ladder without the order of an identifier, and without the price it has left empty. -/
def without (i : UInt64) (ladder : List (UInt64 × List Booked)) : List (UInt64 × List Booked) :=
  (ladder.map fun e => (e.1, e.2.filter (·.order.id ≠ i))).filter (·.2 ≠ [])

theorem without_append (i : UInt64) (above below : List (UInt64 × List Booked)) :
  without i (above ++ below) = without i above ++ without i below
  := by
  simp only [without, List.map_append, List.filter_append]

/-- A ladder that does not hold the order is left as it is. -/
theorem without_eq_self {i : UInt64} {ladder : List (UInt64 × List Booked)}
    (hne : ∀ e ∈ ladder, e.2 ≠ []) (hid : ∀ e ∈ ladder, ∀ z ∈ e.2, z.order.id ≠ i) :
  without i ladder = ladder
  := by
  have hmap : (ladder.map fun e => (e.1, e.2.filter (·.order.id ≠ i))) = ladder := by
    conv_rhs => rw [← List.map_id ladder]
    apply List.map_congr_left
    intro e he
    rw [List.filter_eq_self.mpr fun z hz => decide_eq_true (hid e he z hz)]
    rfl
  rw [without, hmap]
  apply List.filter_eq_self.mpr fun e he => decide_eq_true (hne e he)

/-- The queue of one price without the order, which is neither before nor behind itself. -/
theorem without_singleton {price : UInt64} {front back : List Booked}
    (hid : ∀ z ∈ front ++ back, z.order.id ≠ x.order.id) :
  without x.order.id [(price, front ++ x :: back)]
    = if front ++ back = [] then [] else [(price, front ++ back)]
  := by
  have hqueue : (front ++ x :: back).filter (·.order.id ≠ x.order.id) = front ++ back := by
    rw [List.filter_append, List.filter_cons_of_neg (by simp), ← List.filter_append]
    apply List.filter_eq_self.mpr fun z hz => decide_eq_true (hid z hz)
  rw [without, List.map_singleton, hqueue, List.filter_singleton]
  split <;> simp_all

/-- The orders in the book around one of them. -/
theorem Distinct.ne_of_split (h : R.Distinct) {s : Side} {above below : List (UInt64 × List Booked)}
    {price : UInt64} {front back : List Booked}
    (hladder : R.ladder s = above ++ (price, front ++ x :: back) :: below) :
  ∀ z ∈ (above.flatMap (·.2) ++ front) ++ (back ++ below.flatMap (·.2)
      ++ (R.ladder s.opposite).flatMap (·.2)), z.order.id ≠ x.order.id
  := by
  have hperm : R.booked.Perm
      ((R.ladder s).flatMap (·.2) ++ (R.ladder s.opposite).flatMap (·.2)) := by
    rw [booked, List.flatMap_append]
    cases s with
    | buy => rfl
    | sell => exact List.perm_append_comm
  have hnodup := (hperm.map fun y : Booked => y.order.id).nodup_iff.mp h
  rw [hladder, List.flatMap_append, List.flatMap_cons] at hnodup
  simp only [List.append_assoc, List.cons_append] at hnodup
  rw [← List.append_assoc, List.map_append, List.map_cons, List.nodup_middle, ← List.map_append,
    List.nodup_cons] at hnodup
  intro z hz heq
  apply hnodup.1
  rw [← heq]
  apply List.mem_map_of_mem
  simpa only [List.append_assoc] using hz

/-- Leaving an order out of the ladders is taking it out of its queue. -/
theorem Distinct.without_eq (hsorted : R.Sorted) (h : R.Distinct) {s : Side}
    {above below : List (UInt64 × List Booked)} {price : UInt64} {front back : List Booked}
    (hladder : R.ladder s = above ++ (price, front ++ x :: back) :: below) :
  (fun s' => without x.order.id (R.ladder s'))
    = Function.update R.ladder s
      (above ++ (if front ++ back = [] then [] else [(price, front ++ back)]) ++ below)
  := by
  have hne := h.ne_of_split hladder
  have hparts : R.ladder s = above ++ [(price, front ++ x :: back)] ++ below := by
    rw [hladder, List.append_assoc, List.singleton_append]
  have hkeep (s' : Side) {part : List (UInt64 × List Booked)} (hpart : part ⊆ R.ladder s')
      (hid : ∀ z ∈ part.flatMap (·.2), z.order.id ≠ x.order.id) :
      without x.order.id part = part := by
    apply without_eq_self
    · intro e he
      apply (hsorted s').2 e (hpart he)
    · intro e he z hz
      apply hid z (List.mem_flatMap_of_mem he hz)
  have habove : without x.order.id above = above := by
    refine hkeep s ?_ ?_
    · rw [hladder]
      apply List.subset_append_left
    · intro z hz
      apply hne z (List.mem_append_left _ (List.mem_append_left _ hz))
  have hbelow : without x.order.id below = below := by
    refine hkeep s ?_ ?_
    · rw [hparts]
      apply List.subset_append_right
    · intro z hz
      apply hne z (List.mem_append_right _ (List.mem_append_left _ (List.mem_append_right _ hz)))
  have hother : without x.order.id (R.ladder s.opposite) = R.ladder s.opposite := by
    apply hkeep s.opposite (List.Subset.refl _)
    intro z hz
    apply hne z (List.mem_append_right _ (List.mem_append_right _ hz))
  have hqueue : ∀ z ∈ front ++ back, z.order.id ≠ x.order.id := by
    intro z hz
    apply hne z
    rcases List.mem_append.mp hz with hz | hz <;> simp [hz]
  funext s'
  by_cases hs : s' = s
  · rw [hs, Function.update_self, hparts, without_append, without_append, habove, hbelow,
      without_singleton hqueue]
  · rw [Function.update_of_ne hs, Side.eq_opposite_of_ne hs, hother]

/-- A cancel takes the order it answers out of the book, and nothing else. -/
theorem Cancel.eq_without (hsorted : R.Sorted) (hdistinct : R.Distinct) {o : Order}
    (h : R.Cancel once u k o R') :
  ∃ x, R.Holds x ∧ R.Named once u k x ∧ x.order = o
    ∧ R' = { R with ladder := fun s => without o.id (R.ladder s) }
  := by
  cases h with
  | delete s above below price front back x hladder huser hnamed =>
      have hholds : (price, front ++ x :: back) ∈ R.ladder s := by
        rw [hladder]
        simp
      refine ⟨x, ⟨s, _, hholds, by simp⟩, hnamed, rfl, ?_⟩
      rw [hdistinct.without_eq hsorted hladder]

/-- A cancel answers one order and leaves one book. -/
theorem Cancel.unique (honce : once) (hsorted : R.Sorted) (hdistinct : R.Distinct)
    (hclients : R.DistinctClients) {o₁ o₂ : Order} (h₁ : R.Cancel once u k o₁ R₁)
    (h₂ : R.Cancel once u k o₂ R₂) :
  o₁ = o₂ ∧ R₁ = R₂
  := by
  obtain ⟨x, hx, hnx, rfl, rfl⟩ := h₁.eq_without hsorted hdistinct
  obtain ⟨y, hy, hny, rfl, rfl⟩ := h₂.eq_without hsorted hdistinct
  have hxy := Named.eq honce hdistinct hclients hx hy hnx hny
  rw [hxy]
  exact ⟨rfl, rfl⟩

/-- The step is a function of the call, as long as every order has come under identifiers of
its own. -/
theorem Step.unique (honce : once) (hsorted : R.Sorted) (hdistinct : R.Distinct)
    (hclients : R.DistinctClients) {c : Call} {response₁ response₂ : Response}
    {trades₁ trades₂ : List Trade} (h₁ : R.Step once c response₁ trades₁ R₁)
    (h₂ : R.Step once c response₂ trades₂ R₂) :
  response₁ = response₂ ∧ trades₁ = trades₂ ∧ R₁ = R₂
  := by
  cases h₁ with
  | process o clientId trades hkind =>
      cases h₂ with
      | process => exact ⟨rfl, rfl, rfl⟩
      | processCancel _ _ _ hcancel _ => exact absurd hcancel hkind
  | processCancel o clientId trades hkind h₁ =>
      cases h₂ with
      | process _ _ _ hcancel => exact absurd hkind hcancel
      | processCancel _ _ _ _ h₂ =>
          obtain ⟨rfl, rfl⟩ := Cancel.unique honce hsorted hdistinct hclients h₁ h₂
          exact ⟨rfl, rfl, rfl⟩
  | cancelOrder _ _ h₁ =>
      cases h₂ with
      | cancelOrder _ _ h₂ =>
          obtain ⟨rfl, rfl⟩ := Cancel.unique honce hsorted hdistinct hclients h₁ h₂
          exact ⟨rfl, rfl, rfl⟩

end ListBook

/-! ### Reading a list book -/

namespace OrderBook

/-- The queue of a level. -/
def bookedAt (b : OrderBook) (levelIdx : Nat) : List Booked :=
  (b.queueSlots levelIdx).map fun i =>
    ⟨(b.orderArena.nodes i).order, (b.orderArena.nodes i).clientId⟩

/-- The ladders and the queues of a book, read along its links. -/
def toListBook (b : OrderBook) : ListBook where
  ladder s := (b.ladderSlots s).map fun i => ((b.levelArena.nodes i).price, b.bookedAt i)
  tradeIdCounter := b.tradeIdCounter
  orderIdCounter := b.orderIdCounter

/-- The answer of a call, and the vector of trades it leaves. -/
def answer (b : OrderBook) : Call → Except RejectReason Response × List Trade
  | .process o clientId trades =>
      ((b.process o clientId trades).1.map .report, (b.process o clientId trades).2.2)
  | .cancelOrder u k => ((b.cancelOrder u k).1.map .cancelled, [])

end OrderBook

/-- The vector of trades a call is given. -/
def Call.trades : Call → List Trade
  | .process _ _ trades => trades
  | .cancelOrder _ _ => []

/-! ### The layout as a list book -/

def Resting.booked (r : Resting) : Booked := ⟨r.order, r.clientId⟩

def Level.booked (l : Level) : UInt64 × List Booked := (l.price, l.queue.map Resting.booked)

def Layout.toListBook (L : Layout) : ListBook where
  ladder := List.map Level.booked ∘ L.ladder
  tradeIdCounter := L.tradeIdCounter
  orderIdCounter := L.orderIdCounter

/-- The reference book of a laid-out book is that of its layout. -/
theorem OrderBook.HasLayout.toListBook_eq {b : OrderBook} {L : Layout} (h : b.HasLayout L) :
  b.toListBook = L.toListBook
  := by
  ext1
  · funext s
    dsimp only [OrderBook.toListBook, Layout.toListBook, Function.comp_apply]
    rw [h.ladderSlots_eq, List.map_map]
    apply List.map_congr_left
    intro l hl
    have hmem : l ∈ L.levels := Layout.mem_levels.mpr ⟨s, hl⟩
    rw [Function.comp_apply, Level.booked, (h.stored hmem).price_eq, bookedAt, h.queueSlots_eq hmem,
      Level.orderSlots, List.map_map]
    congr 1
    apply List.map_congr_left
    intro r hr
    rw [Function.comp_apply, Resting.booked, (h.stored hmem).order_eq r hr,
      (h.stored hmem).clientId_eq r hr]
  · apply h.tradeIdCounter_eq
  · apply h.orderIdCounter_eq

namespace ListBook

/-- An order may take from a level in the reference exactly when it may in the layout. -/
theorem marketable_eq (taker : Order) (price : UInt64) :
  marketable taker price = taker.accepts taker.takesFrom price
  := by
  have hreaches : reaches taker price = !taker.takesFrom.before taker.price price := by
    unfold reaches Order.takesFrom Order.bookSide
    cases taker.isSell <;> simp [Side.before, Side.opposite, ← UInt64.not_lt]
  unfold marketable Order.accepts
  rw [hreaches]
  cases hkind : taker.kind with
  | market =>
      by_cases hprice : taker.price = 0
      · simp [hprice]
      · have hne : (taker.price == 0) = false := beq_false_of_ne hprice
        simp [hne, UInt64.ne_zero_iff_pos.mp hprice]
  | _ => simp

/-- A taker in the queue of one price. -/
theorem trade_queue (takerClientId : UInt64) (taker : Order) (nextId : UInt64) {price : UInt64}
    (hprice : marketable taker price = true) (q : List Resting)
    (ladder : List (UInt64 × List Booked)) :
  trade takerClientId taker nextId ((price, q.map Resting.booked) :: ladder)
    = (let m := matchOrders (fun _ => true) takerClientId taker nextId q
      if m.left = [] then
        let rest := trade takerClientId m.taker m.nextId ladder
        { rest with trades := m.trades ++ rest.trades }
      else
        ⟨m.taker, (price, m.left.map Resting.booked) :: ladder, m.trades, m.nextId, m.stp⟩)
  := by
  induction q generalizing taker nextId with
  | nil =>
      rw [List.map_nil, trade]
      rfl
  | cons r q ih =>
      rw [List.map_cons, trade, matchOrders, hprice]
      simp only [Bool.true_eq_false, or_false]
      by_cases hqty : taker.qty = 0
      · simp only [hqty, if_true]
        rfl
      simp only [hqty, if_false]
      by_cases huser : r.order.userId = taker.userId
      · rw [if_pos (by exact huser), if_pos huser]
        rfl
      rw [if_neg (by exact huser), if_neg huser]
      have hzero : r.order.qty - min taker.qty r.order.qty = 0
          ↔ r.order.qty = min taker.qty r.order.qty := by
        rw [← UInt64.toNat_inj, ← UInt64.toNat_inj, UInt64.toNat_sub_min', UInt64.toNat_min]
        simp only [UInt64.toNat_zero]
        omega
      by_cases hfilled : r.order.qty = min taker.qty r.order.qty
      · rw [if_pos (by exact hfilled), if_pos (hzero.mpr hfilled), Resting.booked,
          ih (taker.reduce (min taker.qty r.order.qty)) (nextId + 1) hprice]
        dsimp only
        split <;> rfl
      · rw [if_neg (by exact hfilled), if_neg (mt hzero.mp hfilled)]
        rfl

/-- A taker in the queues of a ladder. -/
theorem trade_map (takerClientId : UInt64) (taker : Order) (nextId : UInt64)
    {accepts : UInt64 → Bool} (haccepts : ∀ price, accepts price = marketable taker price)
    {ls : List Level} (hls : ∀ l ∈ ls, l.queue ≠ []) :
  trade takerClientId taker nextId (ls.map Level.booked)
    = (let m := matchLadder accepts takerClientId taker nextId ls
      ⟨m.taker, m.ladder.map Level.booked, m.trades, m.nextId, m.stp⟩)
  := by
  induction ls generalizing taker nextId with
  | nil => simp [trade, matchLadder]
  | cons l ls ih =>
      rw [List.map_cons, matchLadder, haccepts]
      by_cases hstop : taker.qty = 0 ∨ marketable taker l.price = false
      · obtain ⟨r, q, hq⟩ := List.exists_cons_of_ne_nil (hls l List.mem_cons_self)
        rw [if_pos hstop, Level.booked, hq, List.map_cons, trade, if_pos hstop]
        simp [Level.booked, hq]
      · rw [if_neg hstop, Level.booked,
          trade_queue _ _ _ (by simpa using (not_or.mp hstop).2)]
        have haccepts' : ∀ price, accepts price = marketable
            (matchOrders (fun _ => true) takerClientId taker nextId l.queue).taker price := by
          intro price
          rw [taker_matchOrders, haccepts]
          rfl
        dsimp only
        split
        · rw [ih _ _ haccepts' (fun l' hl' => hls l' (List.mem_cons_of_mem l hl'))]
        · rfl

/-- The reference appends where the layout files. -/
theorem append_map (s : Side) (r : Resting) (j : Nat) (ls : List Level) :
  append s r.booked (ls.map Level.booked) = (restLadder s r j ls).map Level.booked
  := by
  induction ls with
  | nil => rfl
  | cons l ls ih =>
      rw [List.map_cons, restLadder, Level.booked, append, ih]
      by_cases hprice : l.price = r.order.price
      · rw [if_pos hprice, if_pos (by exact hprice)]
        simp [Level.push, Level.booked]
      rw [if_neg hprice, if_neg (by exact hprice)]
      by_cases hbefore : s.before r.order.price l.price
      · rw [if_pos hbefore, if_pos (by exact hbefore)]
        rfl
      · rw [if_neg hbefore, if_neg (by exact hbefore)]
        rfl

end ListBook

namespace Layout

variable {L L' : Layout} {o : Order}

/-- The reference book of a well-formed layout is sorted. -/
theorem sorted_toListBook (hw : L.WellFormed) :
  L.toListBook.Sorted
  := by
  intro s
  constructor
  · apply List.pairwise_map.mpr (hw.sorted s)
  · intro e he
    obtain ⟨l, hl, rfl⟩ := List.mem_map.mp he
    rw [Level.booked, ne_eq, List.map_eq_nil_iff]
    apply hw.queue_ne_nil s l hl

/-- The reference makes the trades of the layout. -/
theorem toListBook_traded (hw : L.WellFormed) (o : Order) (clientId : UInt64) :
  L.toListBook.traded o clientId
    = (let m := L.fills o clientId
      ⟨m.taker, m.ladder.map Level.booked, m.trades, m.nextId, m.stp⟩)
  := by
  apply ListBook.trade_map
  · intro price
    rw [ListBook.marketable_eq]
    rfl
  · intro l hl
    apply hw.queue_ne_nil _ l hl

theorem toListBook_put (L : Layout) (r : Resting) (j : Nat) :
  (L.put r j).toListBook
    = { L.toListBook with
        ladder := Function.update L.toListBook.ladder r.order.bookSide
          (ListBook.append r.order.bookSide r.booked (L.toListBook.ladder r.order.bookSide)) }
  := by
  dsimp only [toListBook, put]
  rw [Function.comp_update, Function.comp_apply, ListBook.append_map]

theorem toListBook_taken (L : Layout) (o : Order) (clientId : UInt64) :
  (L.taken o clientId).toListBook.ladder
    = Function.update L.toListBook.ladder o.takesFrom
      ((L.fills o clientId).ladder.map Level.booked)
  := Function.comp_update ..

/-- The reference processes an order as the layout does. -/
theorem toListBook_process (hw : L.WellFormed) (o : Order) (clientId : UInt64) :
  L.toListBook.process o clientId
    = if L.Rests o clientId then
        { (L.taken o clientId).toListBook with
          ladder := Function.update (L.taken o clientId).toListBook.ladder o.bookSide
            (ListBook.append o.bookSide ⟨(L.fills o clientId).taker, clientId⟩
              ((L.taken o clientId).toListBook.ladder o.bookSide)) }
      else
        (L.taken o clientId).toListBook
  := by
  unfold ListBook.process
  rw [toListBook_traded hw, toListBook_taken]
  by_cases h : L.Rests o clientId
  · rw [if_pos h]
    dsimp only
    rw [if_pos (by exact h)]
    rfl
  · rw [if_neg h]
    dsimp only
    rw [if_neg (by exact h), ← toListBook_taken]
    rfl

/-- What a taker is left with is at most what it came with. -/
theorem qty_le_fills (hw : L.WellFormed) (o : Order) (clientId : UInt64) :
  (L.fills o clientId).taker.qty ≤ o.qty
  := by
  have hle := qty_le_matchOrders (o.accepts o.takesFrom) clientId (L.stamped o) L.tradeIdCounter
    (restingOf (L.ladder o.takesFrom))
  rw [matchLadder_matchOrders _ _ _ _ (hw.levels_wf _)] at hle
  apply hle

/-- The reference reports what the layout reports. -/
theorem toListBook_report (hw : L.WellFormed) (o : Order) (clientId : UInt64) :
  L.toListBook.report o clientId = L.report o clientId
  := by
  unfold ListBook.report report
  rw [toListBook_traded hw, UInt64.saturatingSub_of_le (qty_le_fills hw o clientId)]

/-- An order that is processed does what it does to the list book. -/
theorem Processed.toListBook {clientId : UInt64} {report : ExecutionReport}
    (h : L.Processed o clientId (.ok report) L') (hw : L.WellFormed) :
  report = L.toListBook.report o clientId ∧ L'.toListBook = L.toListBook.process o clientId
  := by
  have hside := L.bookSide_taker_fills o clientId
  rw [toListBook_report hw, toListBook_process hw]
  cases h with
  | done hdone =>
      rw [if_neg hdone]
      exact ⟨rfl, rfl⟩
  | joined hrests =>
      rw [if_pos hrests, toListBook_put]
      dsimp only
      rw [hside]
      exact ⟨rfl, rfl⟩
  | opened hrests =>
      rw [if_pos hrests, toListBook_put]
      dsimp only
      rw [hside]
      exact ⟨rfl, rfl⟩

/-- Removing an order from the layout removes it from the reference. -/
theorem toListBook_remove (L : Layout) (pl : L.Place) :
  (L.remove pl).toListBook
    = { L.toListBook with
        ladder := Function.update L.toListBook.ladder pl.side
          (pl.above.map Level.booked
            ++ (if pl.front.map Resting.booked ++ pl.back.map Resting.booked = [] then []
              else [(pl.level.price, pl.front.map Resting.booked ++ pl.back.map Resting.booked)])
            ++ pl.below.map Level.booked) }
  := by
  have hnil : pl.front.map Resting.booked ++ pl.back.map Resting.booked = []
      ↔ pl.front ++ pl.back = [] := by
    rw [← List.map_append, List.map_eq_nil_iff]
  dsimp only [toListBook, remove]
  rw [Function.comp_update, List.map_append, List.map_append, Place.remains]
  simp only [hnil]
  split <;> simp [Level.booked]

/-- The orders of the reference book are those of the layout. -/
theorem booked_toListBook (L : Layout) :
  L.toListBook.booked = (restingOf L.levels).map Resting.booked
  := by
  have hladders : L.toListBook.ladder .buy ++ L.toListBook.ladder .sell
      = L.levels.map Level.booked := List.map_append.symm
  rw [ListBook.booked, hladders, List.flatMap_map, restingOf, List.map_flatMap]
  rfl

/-- An order index that knows the orders at rest tells them apart. -/
theorem distinct_toListBook (hknows : byOrderId.Knows L) :
  L.toListBook.Distinct
  := by
  have hnodup := hknows.nodup
  rw [entries, List.map_map] at hnodup
  rw [ListBook.Distinct, booked_toListBook, List.map_map]
  apply hnodup

theorem holds_toListBook {x : Booked} :
  L.toListBook.Holds x ↔ ∃ r ∈ restingOf L.levels, r.booked = x
  := by
  simp only [ListBook.Holds, mem_restingOf, mem_levels]
  constructor
  · rintro ⟨s, e, he, hx⟩
    obtain ⟨l, hl, rfl⟩ := List.mem_map.mp he
    obtain ⟨r, hr, rfl⟩ := List.mem_map.mp hx
    exact ⟨r, ⟨l, ⟨s, hl⟩, hr⟩, rfl⟩
  · rintro ⟨r, ⟨l, ⟨s, hl⟩, hr⟩, rfl⟩
    exact ⟨s, l.booked, List.mem_map_of_mem hl, List.mem_map_of_mem hr⟩

/-- The order a cancel finds answers to the name it is given. -/
theorem named_toListBook (hw : L.WellFormed) {once : Prop} (hknows : once → byOrderId.Knows L)
    {u k : UInt64} {r : Resting} (hfind : L.findEntry u k = .ok r.entry) :
  L.toListBook.Named once u k r.booked
  := by
  obtain ⟨-, hid | ⟨e, he, huser, hclient, hid⟩⟩ := hw.findEntry_sound hfind
  · exact .byId hid
  by_cases hk : r.order.id = k
  · exact .byId hk
  obtain ⟨r', hr', rfl⟩ := List.mem_map.mp he
  refine .byClientId r'.booked (holds_toListBook.mpr ⟨r', hr', rfl⟩) huser hclient hid ?_
  intro honce z hz hzk
  obtain ⟨r'', hr'', rfl⟩ := holds_toListBook.mp hz
  -- the index would have found the order that goes by `k`
  have hlookup : L.orderIndex k = some r''.entry := by
    rw [← hzk]
    apply (hknows honce).eq_some r''.entry (List.mem_map_of_mem hr'')
  rw [findEntry, hlookup] at hfind
  apply hk
  rw [← hzk]
  exact congrArg FastIndexEntry.orderId (Except.ok.inj hfind).symm

/-- A cancel that finds an entry deletes its order. -/
theorem toListBook_cancel (hw : L.WellFormed) {once : Prop} (hknows : once → byOrderId.Knows L)
    {u k : UInt64} (pl : L.Place) (hfind : L.findEntry u k = .ok pl.order.entry)
    (huser : pl.order.order.userId = u) :
  L.toListBook.Cancel once u k pl.order.order (L.remove pl).toListBook
  := by
  rw [toListBook_remove]
  apply ListBook.Cancel.delete pl.side _ _ _ _ _ pl.order.booked _ huser
    (named_toListBook hw hknows hfind)
  dsimp only [toListBook, Function.comp_apply]
  rw [pl.ladder_eq, List.map_append, List.map_cons, Level.booked, pl.queue_eq, List.map_append,
    List.map_cons]

end Layout

namespace OrderBook

namespace HasLayout

variable {b : OrderBook} {L : Layout}

/-- A cancel that finds its order is the cancel of the reference. -/
theorem cancel_refines (h : b.HasLayout L) (hw : L.WellFormed) {once : Prop}
    (hknows : once → Layout.byOrderId.Knows L) {u k : UInt64} {o : Order}
    (hok : (b.cancelOrder u k).1 = .ok o) :
  b.toListBook.Cancel once u k o (b.cancelOrder u k).2.toListBook
  := by
  rcases h.cancelOrder_cases hw u k with ⟨e, heq, -⟩ | ⟨pl, b', hfind, huser, heq, h'⟩
  · rw [heq] at hok
    contradiction
  · rw [heq] at hok ⊢
    obtain rfl := Except.ok.inj hok
    rw [h.toListBook_eq, h'.toListBook_eq]
    apply Layout.toListBook_cancel hw hknows pl hfind huser

end HasLayout

/-- Every reachable book has a well-formed layout, whose order index knows the orders at rest
if each has come under an identifier of its own. -/
theorem exists_layout_knows (symbol : Symbol) (cs : List Call) :
  ∃ L, ((OrderBook.new symbol).calls cs).HasLayout L ∧ L.WellFormed
    ∧ (((OrderBook.new symbol).usedIds cs).Nodup → Layout.byOrderId.Knows L)
  := by
  by_cases hids : ((OrderBook.new symbol).usedIds cs).Nodup
  · obtain ⟨L, h, hw, hid⟩ := identified_calls symbol cs hids
    exact ⟨L, h, hw, fun _ => hid.knows⟩
  · obtain ⟨L, h, hw⟩ := exists_layout symbol cs
    exact ⟨L, h, hw, fun hids' => absurd hids' hids⟩

/-- A call that succeeds on a reachable book answers what it would answer on a list book,
makes the same trades and leaves the same book. -/
theorem answer_refines (symbol : Symbol) (cs : List Call) (c : Call) {response : Response}
    (hok : (((OrderBook.new symbol).calls cs).answer c).1 = .ok response) :
  let once := ((OrderBook.new symbol).usedIds cs).Nodup
  ((OrderBook.new symbol).calls cs).toListBook.Sorted
    ∧ (once → ((OrderBook.new symbol).calls cs).toListBook.Distinct)
    ∧ ∃ trades, (((OrderBook.new symbol).calls cs).answer c).2 = c.trades ++ trades
      ∧ ((OrderBook.new symbol).calls cs).toListBook.Step once c response trades
        (((OrderBook.new symbol).calls cs).call c).toListBook
  := by
  obtain ⟨L, h, hw, hknows⟩ := exists_layout_knows symbol cs
  dsimp only
  generalize ((OrderBook.new symbol).usedIds cs).Nodup = once at hknows ⊢
  generalize (OrderBook.new symbol).calls cs = b at h hok ⊢
  refine ⟨h.toListBook_eq ▸ Layout.sorted_toListBook hw,
    fun honce => h.toListBook_eq ▸ Layout.distinct_toListBook (hknows honce), ?_⟩
  cases c with
  | process o clientId trades =>
      dsimp only [answer, call, Call.trades] at hok ⊢
      by_cases hkind : o.kind = .cancel
      · rw [b.process_of_cancel hkind] at hok ⊢
        dsimp only at hok ⊢
        generalize htarget : (if o.id ≠ 0 then o.id else o.clientOrderId) = target at hok ⊢
        refine ⟨[], (List.append_nil trades).symm, ?_⟩
        cases hres : (b.cancelOrder o.userId target).1 with
        | error e => simp [hres, Except.map] at hok
        | ok x =>
            rw [hres] at hok
            obtain rfl := Except.ok.inj hok
            apply ListBook.Step.processCancel o clientId trades hkind
            rw [htarget]
            apply h.cancel_refines hw hknows hres
      · obtain ⟨b', heq, h'⟩ := h.process_eq hw hkind clientId trades
        rw [heq] at hok ⊢
        dsimp only at hok ⊢
        have hprocessed := L.process_cases o clientId trades
        generalize (L.process o clientId trades).1 = res at hprocessed hok
        cases res with
        | error e => simp [Except.map] at hok
        | ok report =>
            obtain rfl := Except.ok.inj hok
            obtain ⟨rfl, hbook⟩ := hprocessed.toListBook hw
            refine ⟨(L.fills o clientId).trades, L.trades_process o clientId trades, ?_⟩
            rw [h.toListBook_eq, h'.toListBook_eq, hbook]
            have htraded := Layout.toListBook_traded hw o clientId
            have htrades : (L.fills o clientId).trades = (L.toListBook.traded o clientId).trades := by
              rw [htraded]
            rw [htrades]
            apply ListBook.Step.process o clientId trades hkind
  | cancelOrder u k =>
      dsimp only [answer, call, Call.trades] at hok ⊢
      refine ⟨[], rfl, ?_⟩
      cases hres : (b.cancelOrder u k).1 with
      | error e => simp [hres, Except.map] at hok
      | ok o =>
          rw [hres] at hok
          obtain rfl := Except.ok.inj hok
          apply ListBook.Step.cancelOrder u k (h.cancel_refines hw hknows hres)

/-- The bid of `sampleCalls`. -/
def sampleBid : Call := .process (Order.newLimit 3 9 .btc .buy 100 6) 0 []

/-- The sample bid is a step of the reference book. -/
theorem answer_refines_sampleBid :
  ((OrderBook.new .btc).calls (sampleCalls.take 2)).toListBook.Sorted
    ∧ ((OrderBook.new .btc).calls (sampleCalls.take 2)).toListBook.Distinct
    ∧ ∃ trades, (((OrderBook.new .btc).calls (sampleCalls.take 2)).answer sampleBid).2
        = sampleBid.trades ++ trades
      ∧ ((OrderBook.new .btc).calls (sampleCalls.take 2)).toListBook.Step True sampleBid
        (.report { executedQty := 6, remainingQty := 0, stpTriggered := false }) trades
        (((OrderBook.new .btc).calls (sampleCalls.take 2)).call sampleBid).toListBook
  := by
  have hids : ((OrderBook.new .btc).usedIds (sampleCalls.take 2)).Nodup := by decide +kernel
  have honce := eq_true hids
  obtain ⟨hsorted, hdistinct, trades, htrades, hstep⟩ :=
    answer_refines .btc (sampleCalls.take 2) sampleBid rfl
  rw [honce] at hstep
  exact ⟨hsorted, hdistinct hids, trades, htrades, hstep⟩

end OrderBook

end LimitOrderBook
