import LimitOrderBook.Reference
import Mathlib.Data.List.Forall2

/-!
# Price-time priority

`Timed` is a book together with a clock and, at each order slot, the time of the call that
last rested an order there.  The clock is no part of the book: it counts the calls.

The queue of every level is in order of time (`Layout.Timely`), whatever is filled,
cancelled or rested, and a taker makes its trades with an initial segment of the orders of a
side (`matchOrders_makers`).
-/

namespace LimitOrderBook

open Intrusive OrderBook

/-! ### The makers of a taker -/

/-- The trade is with the order `o` of the client `clientId`. -/
structure Trade.With (t : Trade) (o : Order) (clientId : UInt64) : Prop where
  makerOrderId : t.makerOrderId = o.id
  makerClientOrderId : t.makerClientOrderId = o.clientOrderId
  makerUserId : t.makerUserId = o.userId
  makerClientId : t.makerClientId = clientId
  price : t.price = o.price

/-- A trade is made with the maker that it names. -/
theorem Trade.with_tradeOf (nextId : UInt64) (r : Resting) (taker : Order)
    (takerClientId qty : UInt64) :
  (OrderBook.tradeOf nextId r.order taker r.clientId takerClientId qty).With r.order r.clientId
  := ⟨rfl, rfl, rfl, rfl, rfl⟩

/-- The trades of a taker: each of the first orders is filled whole, and the one behind
them may be filled in part. -/
theorem matchOrders_makers (accepts : UInt64 → Bool) (takerClientId : UInt64) (taker : Order)
    (nextId : UInt64) (rs : List Resting) :
  ∃ whole part rest, rs = (matchOrders accepts takerClientId taker nextId rs).filled ++ rest
    ∧ (matchOrders accepts takerClientId taker nextId rs).trades = whole ++ part
    ∧ List.Forall₂ (fun r (t : Trade) => t.With r.order r.clientId ∧ t.qty = r.order.qty)
      (matchOrders accepts takerClientId taker nextId rs).filled whole
    ∧ (part = [] ∧ (matchOrders accepts takerClientId taker nextId rs).left = rest
      ∨ ∃ t r rest', part = [t] ∧ rest = r :: rest' ∧ t.With r.order r.clientId
        ∧ 0 < t.qty ∧ t.qty < r.order.qty
        ∧ (matchOrders accepts takerClientId taker nextId rs).left = r.reduce t.qty :: rest')
  := by
  induction rs generalizing taker nextId with
  | nil => exact ⟨[], [], [], rfl, rfl, .nil, Or.inl ⟨rfl, rfl⟩⟩
  | cons r rs ih =>
      rw [matchOrders]
      split
      · exact ⟨[], [], r :: rs, rfl, rfl, .nil, Or.inl ⟨rfl, rfl⟩⟩
      next hstop =>
      split
      · exact ⟨[], [], r :: rs, rfl, rfl, .nil, Or.inl ⟨rfl, rfl⟩⟩
      have hpos : taker.qty ≠ 0 := fun heq => hstop (Or.inl heq)
      have hmaker := UInt64.toNat_sub_min' taker.qty r.order.qty
      have hmin := UInt64.toNat_min taker.qty r.order.qty
      rw [ne_eq, ← UInt64.toNat_inj, UInt64.toNat_zero] at hpos
      dsimp only
      split
      · next hzero =>
          obtain ⟨whole, part, rest, hrest, htrades, hwhole, hpart⟩ :=
            ih (taker.reduce (min taker.qty r.order.qty)) (nextId + 1)
          have hqty : min taker.qty r.order.qty = r.order.qty := by
            rw [← UInt64.toNat_inj, UInt64.toNat_zero] at hzero
            rw [← UInt64.toNat_inj]
            omega
          refine ⟨_ :: whole, part, rest, congrArg (r :: ·) hrest, congrArg (_ :: ·) htrades,
            .cons ⟨Trade.with_tradeOf .., ?_⟩ hwhole, hpart⟩
          apply hqty
      · next hne =>
          rw [← UInt64.toNat_inj, UInt64.toNat_zero] at hne
          refine ⟨[], [_], r :: rs, rfl, rfl, .nil,
            Or.inr ⟨_, r, rs, rfl, rfl, Trade.with_tradeOf .., ?_, ?_, rfl⟩⟩
          · rw [UInt64.lt_iff_toNat_lt, UInt64.toNat_zero]
            dsimp only [OrderBook.tradeOf]
            omega
          · rw [UInt64.lt_iff_toNat_lt]
            dsimp only [OrderBook.tradeOf]
            omega

/-- What a taker leaves of a queue is at the end of it. -/
theorem slots_matchOrders (accepts : UInt64 → Bool) (takerClientId : UInt64) (taker : Order)
    (nextId : UInt64) (rs : List Resting) :
  rs.map (·.slot)
    = (matchOrders accepts takerClientId taker nextId rs).filled.map (·.slot)
      ++ (matchOrders accepts takerClientId taker nextId rs).left.map (·.slot)
  := by
  have hslots := congrArg (List.map FastIndexEntry.nodeIdx)
    (entries_matchOrders accepts takerClientId taker nextId rs)
  rw [List.map_append, List.map_map, List.map_map, List.map_map] at hslots
  apply hslots

/-! ### Queues in order of time -/

/-- The slots of a queue are in order of time, and before the clock. -/
structure Timely (clock : Nat) (restedAt : Nat → Nat) (q : List Nat) : Prop where
  sorted : q.Pairwise fun i k => restedAt i < restedAt k
  past : ∀ i ∈ q, restedAt i < clock

namespace Timely

variable {clock : Nat} {restedAt : Nat → Nat} {q q' : List Nat}

/-- Part of a timely queue is timely. -/
theorem sublist (h : Timely clock restedAt q) (hq : q'.Sublist q) :
  Timely clock restedAt q' where
  sorted := h.sorted.sublist hq
  past i hi := h.past i (hq.subset hi)

theorem tick (h : Timely clock restedAt q) :
  Timely (clock + 1) restedAt q where
  sorted := h.sorted
  past i hi := Nat.lt_succ_of_lt (h.past i hi)

/-- Another slot gets a time. -/
theorem update (h : Timely clock restedAt q) {k : Nat} (hk : k ∉ q) :
  Timely (clock + 1) (Function.update restedAt k clock) q where
  sorted := by
    apply h.sorted.imp_of_mem
    intro i j hi hj hlt
    rw [Function.update_of_ne (ne_of_mem_of_not_mem hi hk),
      Function.update_of_ne (ne_of_mem_of_not_mem hj hk)]
    apply hlt
  past i hi := by
    rw [Function.update_of_ne (ne_of_mem_of_not_mem hi hk)]
    apply Nat.lt_succ_of_lt (h.past i hi)

/-- A slot joins the queue now. -/
theorem push (h : Timely clock restedAt q) {k : Nat} (hk : k ∉ q) :
  Timely (clock + 1) (Function.update restedAt k clock) (q ++ [k]) where
  sorted := by
    apply List.pairwise_append.mpr
    refine ⟨(h.update hk).sorted, List.pairwise_singleton _ _, ?_⟩
    intro i hi j hj
    rw [List.mem_singleton.mp hj, Function.update_self,
      Function.update_of_ne (ne_of_mem_of_not_mem hi hk)]
    apply h.past i hi
  past i hi := by
    rcases List.mem_append.mp hi with hi | hi
    · apply (h.update hk).past i hi
    · rw [List.mem_singleton.mp hi, Function.update_self]
      apply Nat.lt_succ_self

end Timely

/-- Every queue is in order of time. -/
def Layout.Timely (L : Layout) (clock : Nat) (restedAt : Nat → Nat) : Prop :=
  ∀ s, ∀ l ∈ L.ladder s, LimitOrderBook.Timely clock restedAt l.orderSlots

namespace Layout

namespace Timely

variable {L L' : Layout} {clock : Nat} {restedAt : Nat → Nat}

/-- A tick of the clock leaves a timely layout timely. -/
theorem tick (h : L.Timely clock restedAt) (hladder : L'.ladder = L.ladder) :
  L'.Timely (clock + 1) restedAt
  := by
  intro s l hl
  rw [hladder] at hl
  apply (h s l hl).tick

/-- Matching leaves a timely layout. -/
theorem taken (h : L.Timely clock restedAt) (o : Order) (clientId : UInt64) :
  (L.taken o clientId).Timely clock restedAt
  := by
  apply WellFormed.forall_ladder_update rfl h
  intro l hl
  obtain ⟨ls₁, ls₂, hls, -, hladder | ⟨l₁, ls', taker, nextId, hls₂, -, hladder⟩⟩ :=
    matchLadder_split (o.accepts o.takesFrom) clientId (L.stamped o) L.tradeIdCounter
      (L.ladder o.takesFrom)
  · apply h o.takesFrom
    rw [hls, ← hladder]
    apply List.mem_append_right _ hl
  · unfold fills at hl
    rw [hladder] at hl
    rcases List.mem_cons.mp hl with rfl | hl
    · apply (h o.takesFrom l₁ (by simp [hls, hls₂])).sublist
      rw [Level.orderSlots, Level.orderSlots,
        slots_matchOrders (fun _ => true) clientId taker nextId l₁.queue]
      apply List.sublist_append_right
    · apply h o.takesFrom
      rw [hls, hls₂]
      apply List.mem_append_right _ (List.mem_cons_of_mem _ hl)

/-- Removing an order leaves a timely layout. -/
theorem remove (h : L.Timely clock restedAt) (pl : L.Place) :
  (L.remove pl).Timely clock restedAt
  := by
  apply WellFormed.forall_ladder_update rfl h
  intro l hl
  have hmem : ∀ l' ∈ pl.above ++ pl.level :: pl.below,
      LimitOrderBook.Timely clock restedAt l'.orderSlots := by
    rw [← pl.ladder_eq]
    apply h pl.side
  unfold Place.remains at hl
  split at hl
  · apply hmem
    simp only [List.mem_append, List.mem_cons, List.append_nil] at hl ⊢
    tauto
  · simp only [List.mem_append, List.mem_singleton] at hl
    rcases hl with (hl | rfl) | hl
    · apply hmem l (by simp [hl])
    · apply (hmem pl.level (by simp)).sublist
      rw [Level.orderSlots, Level.orderSlots, pl.queue_eq]
      apply List.Sublist.map
      apply List.Sublist.append_left
      apply List.sublist_cons_self
    · apply hmem l (by simp [hl])

/-- An order comes to rest now, in a slot of its own. -/
theorem put (h : L.Timely clock restedAt) (hw : L.WellFormed) (r : Resting) (j : Nat)
    (hslot : ∀ s, ∀ l ∈ L.ladder s, r.slot ∉ l.orderSlots) :
  (L.put r j).Timely (clock + 1) (Function.update restedAt r.slot clock)
  := by
  have hothers : ∀ s, ∀ l ∈ L.ladder s,
      LimitOrderBook.Timely (clock + 1) (Function.update restedAt r.slot clock) l.orderSlots :=
    fun s l hl => (h s l hl).update (hslot s l hl)
  apply WellFormed.forall_ladder_update rfl hothers
  intro l hl
  rcases mem_restLadder j (hw.sorted _) hl with hl | ⟨l₀, hl₀, -, rfl⟩ | rfl
  · apply hothers _ l hl
  · rw [Level.orderSlots, Level.push, List.map_append]
    apply (h _ l₀ hl₀).push (hslot _ l₀ hl₀)
  · have hnil : LimitOrderBook.Timely clock restedAt [] := ⟨.nil, by simp⟩
    apply hnil.push
    simp

end Timely

end Layout

/-! ### Books with a clock -/

namespace OrderBook

/-- The slot in which the remainder of the order of a call has come to rest, if it has: the
tail of the queue of its price. -/
def restedSlot (b : OrderBook) : Call → Option Nat
  | .process o clientId trades =>
      let b' := b.call (.process o clientId trades)
      match (b.process o clientId trades).1 with
      | .ok report =>
          if o.kind = .limit ∧ report.stpTriggered = false ∧ 0 < report.remainingQty then
            (b'.priceIndex.lookup o.price).map fun i => (b'.levelArena.nodes i).tailOrder
          else
            none
      | .error _ => none
  | .cancelOrder _ _ => none

/-- The order slots of a side, best price first and along the queue of each. -/
def restingSlots (b : OrderBook) (s : Side) : List Nat := (b.ladderSlots s).flatMap b.queueSlots

end OrderBook

structure Timed where
  book : OrderBook
  clock : Nat
  restedAt : Nat → Nat

namespace Timed

def new (symbol : Symbol) : Timed where
  book := OrderBook.new symbol
  clock := 0
  restedAt _ := 0

def call (t : Timed) (c : Call) : Timed where
  book := t.book.call c
  clock := t.clock + 1
  restedAt :=
    match t.book.restedSlot c with
    | some i => Function.update t.restedAt i t.clock
    | none => t.restedAt

def calls (t : Timed) (cs : List Call) : Timed := cs.foldl call t

theorem calls_concat (t : Timed) (cs : List Call) (c : Call) :
  t.calls (cs ++ [c]) = (t.calls cs).call c
  := by
  rw [calls, List.foldl_append]
  rfl

@[simp]
theorem book_calls (t : Timed) (cs : List Call) :
  (t.calls cs).book = t.book.calls cs
  := by
  induction cs generalizing t with
  | nil => rfl
  | cons c cs ih => apply ih (t.call c)

/-- The order in slot `i` has priority over the one in slot `k`: its price is better, or it
has rested longer at the same price. -/
def Prior (t : Timed) (s : Side) (i k : Nat) : Prop :=
  s.before (t.book.orderArena.nodes i).order.price (t.book.orderArena.nodes k).order.price
    ∨ (t.book.orderArena.nodes i).order.price = (t.book.orderArena.nodes k).order.price
      ∧ t.restedAt i < t.restedAt k

/-- Of two orders at most one is prior. -/
theorem Prior.asymm {t : Timed} {s : Side} {i k : Nat} (h : t.Prior s i k) :
  ¬ t.Prior s k i
  := by
  rcases h with h | ⟨heq, hlt⟩
  · rintro (h' | ⟨heq', -⟩)
    · rw [Side.before_asymm h] at h'
      contradiction
    · exact Side.ne_of_before h heq'.symm
  · rintro (h' | ⟨-, hlt'⟩)
    · exact Side.ne_of_before h' heq.symm
    · exact Nat.lt_asymm hlt hlt'

end Timed

/-! ### Where an order comes to rest -/

namespace Layout

/-- A filed order rests on its side. -/
theorem mem_resting_put {L : Layout} (hw : L.WellFormed) (r : Resting) (j : Nat) :
  r ∈ (L.put r j).resting r.order.bookSide
  := by
  unfold resting put
  dsimp only
  rw [Function.update_self, (perm_restLadder j (hw.sorted _)).mem_iff]
  apply List.mem_cons_self

/-- The order that comes to rest is the last of its level. -/
theorem exists_level_put {L : Layout} (hw : L.WellFormed) (r : Resting) (j : Nat) :
  ∃ l ∈ (L.put r j).ladder r.order.bookSide, l.price = r.order.price
    ∧ ∃ q, l.orderSlots = q ++ [r.slot]
  := by
  have hladder : (L.put r j).ladder r.order.bookSide
      = restLadder r.order.bookSide r j (L.ladder r.order.bookSide) := Function.update_self ..
  have hsorted := hw.sorted r.order.bookSide
  rw [hladder]
  by_cases hmem : r.order.price ∈ (L.ladder r.order.bookSide).map (·.price)
  · obtain ⟨ls₁, l, ls₂, -, hprice, hrest⟩ := restLadder_of_mem j hsorted hmem
    rw [hrest]
    refine ⟨l.push r, by simp, hprice, l.orderSlots, ?_⟩
    rw [Level.orderSlots, Level.push, List.map_append]
    rfl
  · obtain ⟨ls₁, ls₂, -, hrest, -⟩ := restLadder_of_notMem j hsorted hmem
    rw [hrest]
    exact ⟨(Level.empty j r.order.price).push r, by simp, rfl, [], rfl⟩

end Layout

namespace OrderBook

/-- A cancel rests nothing. -/
theorem restedSlot_of_cancels (b : OrderBook) {c : Call} (hc : c.Cancels) :
  b.restedSlot c = none
  := by
  cases c with
  | cancelOrder u k => rfl
  | process o clientId trades =>
      dsimp only [restedSlot]
      have hkind : o.kind ≠ .limit := by
        rw [show o.kind = .cancel from hc]
        decide
      cases (b.process o clientId trades).1 with
      | error e => rfl
      | ok report =>
          dsimp only
          rw [if_neg fun hcond => hkind hcond.1]

namespace HasLayout

variable {b : OrderBook} {L L' : Layout}

/-- The slot the links of a book lead to is that of the order that has come to rest. -/
theorem tailOrder_put {L₁ : Layout} {r : Resting} {j : Nat} (h : b.HasLayout (L₁.put r j))
    (hw : L₁.WellFormed) :
  (b.priceIndex.lookup r.order.price).map (fun i => (b.levelArena.nodes i).tailOrder)
    = some r.slot
  := by
  obtain ⟨l, hl, hprice, q, hslots⟩ := Layout.exists_level_put hw r j
  have hmem : l ∈ (L₁.put r j).levels := Layout.mem_levels.mpr ⟨_, hl⟩
  have hlookup := (h.priceIndex_iff r.order.price l.slot).mpr ⟨l, hmem, hprice, rfl⟩
  have hqueue := (h.stored hmem).queue
  rw [hslots] at hqueue
  rw [hlookup, Option.map_some, hqueue.last_eq]

/-- Where an order comes to rest, if it does: then the ladders are those after matching,
with the order at the end of a queue of its own side. -/
theorem restedSlot_process (h : b.HasLayout L) (hw : L.WellFormed) {o : Order}
    (hkind : o.kind ≠ .cancel) (clientId : UInt64) (trades : List Trade) :
  (b.restedSlot (.process o clientId trades) = none
      ∧ (L.process o clientId trades).2.1.ladder = (L.taken o clientId).ladder)
    ∨ ∃ (r : Resting) (j : Nat) (L₁ : Layout),
      b.restedSlot (.process o clientId trades) = some r.slot
      ∧ r.order.bookSide = o.bookSide ∧ L₁.WellFormed ∧ L₁.ladder = (L.taken o clientId).ladder
      ∧ (L.process o clientId trades).2.1 = L₁.put r j
  := by
  obtain ⟨b', heq, h'⟩ := h.process_eq hw hkind clientId trades
  have hprocessed := L.process_cases o clientId trades
  have hcall : b.call (.process o clientId trades) = b' := congrArg (·.2.1) heq
  dsimp only [restedSlot]
  rw [hcall, heq]
  dsimp only
  rcases hprocessed.put_or hw with
    ⟨hladder, hok⟩ | ⟨hrests, hres, i, j, L₁, hw₁, hladder, heq'⟩
  · refine Or.inl ⟨?_, hladder⟩
    cases hres : (L.process o clientId trades).1 with
    | error e => rfl
    | ok report =>
        obtain ⟨rfl, hrests⟩ := hok report hres
        dsimp only
        rw [if_neg fun hcond => hrests ⟨hcond.2.1, hcond.2.2, hcond.1⟩]
  · rw [heq'] at h' ⊢
    have htail := h'.tailOrder_put hw₁
    dsimp only at htail
    rw [L.price_taker_fills] at htail
    refine Or.inr ⟨_, j, L₁, ?_, L.bookSide_taker_fills o clientId, hw₁, hladder, rfl⟩
    rw [hres]
    dsimp only
    rw [if_pos ⟨hrests.2.2, hrests.1, hrests.2.1⟩, htail]

/-- The slot of an order that has come to rest is that of no other order. -/
theorem slot_notMem_of_put {L₁ : Layout} {r : Resting} {j : Nat} (h : b.HasLayout (L₁.put r j))
    (hw : L₁.WellFormed) :
  ∀ s, ∀ l ∈ L₁.ladder s, r.slot ∉ l.orderSlots
  := by
  have hperm : (restingOf (L₁.put r j).levels).Perm (r :: restingOf L₁.levels) := by
    have hladder : (L₁.put r j).ladder = Function.update L₁.ladder r.order.bookSide
      (restLadder r.order.bookSide r j (L₁.ladder r.order.bookSide)) := rfl
    have hnew := (Layout.levels_perm_of_update hladder).flatMap_right (·.queue)
    have hold := (L₁.levels_perm r.order.bookSide).flatMap_right (·.queue)
    rw [List.flatMap_append] at hnew hold
    apply hnew.trans
    apply ((perm_restLadder j (hw.sorted _)).append_right _).trans
    apply List.Perm.cons r hold.symm
  have hnodup := (List.nodup_append.mp h.storage.used_nodup).2.1
  rw [(hperm.map _).nodup_iff, List.map_cons, List.nodup_cons] at hnodup
  intro s l hl hmem
  obtain ⟨r', hr', hslot⟩ := List.mem_map.mp hmem
  apply hnodup.1
  rw [← hslot]
  apply List.mem_map_of_mem
  exact mem_restingOf.mpr ⟨l, Layout.mem_levels.mpr ⟨s, hl⟩, hr'⟩

end HasLayout

end OrderBook

/-! ### Runs -/

namespace Timed

/-- Every reachable book is laid out in the sequence of its rest times. -/
theorem exists_timely (symbol : Symbol) (cs : List Call) :
  ∃ L, ((OrderBook.new symbol).calls cs).HasLayout L ∧ L.WellFormed
    ∧ L.Timely ((new symbol).calls cs).clock ((new symbol).calls cs).restedAt
  := by
  apply OrderBook.calls_induction symbol
    (P := fun cs L => L.Timely ((new symbol).calls cs).clock ((new symbol).calls cs).restedAt)
  · intro s l hl
    simp [Layout.new] at hl
  · intro cs c L L' h hw ht h' hw' hs
    rw [calls_concat, call, book_calls]
    generalize ((new symbol).calls cs).clock = clock at ht ⊢
    generalize ((new symbol).calls cs).restedAt = restedAt at ht ⊢
    dsimp only [new]
    cases hs with
    | @process o clientId trades hkind =>
        rcases h.restedSlot_process hw hkind clientId trades with
          ⟨hnone, hladder⟩ | ⟨r, j, L₁, hsome, -, hw₁, hladder, heq⟩
        · rw [hnone]
          apply (ht.taken o clientId).tick hladder
        · rw [hsome]
          rw [heq] at h' ⊢
          have ht₁ : L₁.Timely clock restedAt := by
            unfold Layout.Timely
            rw [hladder]
            apply ht.taken o clientId
          apply ht₁.put hw₁ r j (h'.slot_notMem_of_put hw₁)
    | noCancel hc =>
        rw [OrderBook.restedSlot_of_cancels _ hc]
        apply ht.tick rfl
    | cancel hc pl =>
        rw [OrderBook.restedSlot_of_cancels _ hc]
        apply (ht.remove pl).tick rfl

/-- A taker has traded with the orders in the slots `makers`, the first of a side, and has
left those in the slots `rest` alone: `t` is before and `t'` after the call. -/
structure TradedInOrder (t t' : Timed) (s : Side) (made : List Trade) (makers rest : List Nat) :
    Prop where
  sorted : (t.book.restingSlots s).Pairwise (t.Prior s)
  segment : t.book.restingSlots s = makers ++ rest
  makers_eq : List.Forall₂ (fun i (trade : Trade) =>
    trade.With (t.book.orderArena.nodes i).order (t.book.orderArena.nodes i).clientId) makers made
  /-- all makers are filled, or all but the last, which stays at the head -/
  filled :
    (List.Forall₂ (fun i (trade : Trade) => trade.qty = (t.book.orderArena.nodes i).order.qty)
        makers made
      ∧ t'.book.restingSlots s = rest)
    ∨ ∃ (whole : List Nat) (i : Nat) (made₁ : List Trade) (trade : Trade),
      makers = whole ++ [i] ∧ made = made₁ ++ [trade]
      ∧ List.Forall₂ (fun k (trade : Trade) => trade.qty = (t.book.orderArena.nodes k).order.qty)
        whole made₁
      ∧ 0 < trade.qty ∧ trade.qty < (t.book.orderArena.nodes i).order.qty
      ∧ (t'.book.orderArena.nodes i).order
        = (t.book.orderArena.nodes i).order.reduce trade.qty
      ∧ t'.book.restingSlots s = i :: rest
  unchanged : ∀ k ∈ rest, (t'.book.orderArena.nodes k).order = (t.book.orderArena.nodes k).order
  restedAt_eq : ∀ k ∈ t'.book.restingSlots s, t'.restedAt k = t.restedAt k
  /-- no order that is left has priority over one that has traded -/
  not_prior : ∀ i ∈ makers, ∀ k ∈ t'.book.restingSlots s, ¬ t.Prior s k i

end Timed

namespace OrderBook.HasLayout

variable {b : OrderBook} {L : Layout} {s : Side}

/-- The slots of a side, read off the layout. -/
theorem restingSlots_eq (h : b.HasLayout L) (s : Side) :
  b.restingSlots s = (L.resting s).map (·.slot)
  := by
  rw [restingSlots, h.ladderSlots_eq, List.flatMap_map, Layout.resting, restingOf,
    List.map_flatMap]
  apply List.flatMap_congr
  intro l hl
  apply h.queueSlots_eq (Layout.mem_levels.mpr ⟨s, hl⟩)

theorem node_eq (h : b.HasLayout L) {r : Resting} (hr : r ∈ L.resting s) :
  (b.orderArena.nodes r.slot).order = r.order ∧ (b.orderArena.nodes r.slot).clientId = r.clientId
  := by
  obtain ⟨l, hl, hr⟩ := mem_restingOf.mp hr
  have hstored := h.stored (Layout.mem_levels.mpr ⟨s, hl⟩)
  exact ⟨hstored.order_eq r hr, hstored.clientId_eq r hr⟩

/-- The orders of a side are in order of priority. -/
theorem pairwise_prior {t : Timed} (h : t.book.HasLayout L) (hw : L.WellFormed)
    (ht : L.Timely t.clock t.restedAt) (s : Side) :
  (t.book.restingSlots s).Pairwise (t.Prior s)
  := by
  have hnode : ∀ {l r}, l ∈ L.ladder s → r ∈ l.queue →
      (t.book.orderArena.nodes r.slot).order.price = l.price := by
    intro l r hl hr
    rw [(h.node_eq (mem_restingOf.mpr ⟨l, hl, hr⟩)).1, hw.price_eq s l hl r hr]
  rw [h.restingSlots_eq, List.pairwise_map, Layout.resting, restingOf, List.pairwise_flatMap]
  constructor
  · intro l hl
    have hsorted := (ht s l hl).sorted
    rw [Level.orderSlots, List.pairwise_map] at hsorted
    apply hsorted.imp_of_mem
    intro r r' hr hr' hlt
    refine Or.inr ⟨?_, hlt⟩
    rw [hnode hl hr, hnode hl hr']
  · apply (hw.sorted s).imp_of_mem
    intro l l' hl hl' hbefore r hr r' hr'
    apply Or.inl
    rw [hnode hl hr, hnode hl' hr']
    apply hbefore

/-- The side an order has traded with, when it has been processed: the ladder is the one its
fills leave, and the times there are as before. -/
theorem takesFrom_process {t : Timed} (h : t.book.HasLayout L) (hw : L.WellFormed) {o : Order}
    (hkind : o.kind ≠ .cancel) (clientId : UInt64) (trades : List Trade) :
  ∃ L', (t.call (.process o clientId trades)).book.HasLayout L'
    ∧ L'.ladder o.takesFrom = (L.fills o clientId).ladder
    ∧ ∀ k ∈ (L'.resting o.takesFrom).map (·.slot),
      (t.call (.process o clientId trades)).restedAt k = t.restedAt k
  := by
  obtain ⟨b', heq, h'⟩ := h.process_eq hw hkind clientId trades
  have hbook : (t.call (.process o clientId trades)).book = b' := congrArg (·.2.1) heq
  rw [hbook]
  refine ⟨_, h', ?_⟩
  dsimp only [Timed.call]
  rcases h.restedSlot_process hw hkind clientId trades with
    ⟨hnone, hladder⟩ | ⟨r, j, L₁, hsome, hside, hw₁, hladder, heq'⟩
  · rw [hnone, hladder, Layout.ladder_taken_takesFrom]
    exact ⟨rfl, fun _ _ => rfl⟩
  · rw [heq'] at h' ⊢
    have hput : (L₁.put r j).ladder o.takesFrom = L₁.ladder o.takesFrom := by
      apply Function.update_of_ne
      rw [hside]
      exact Side.opposite_ne o.bookSide
    rw [hsome, hput]
    constructor
    · rw [hladder, Layout.ladder_taken_takesFrom]
    · intro k hk
      apply Function.update_of_ne
      rintro rfl
      obtain ⟨r', hr', hslot⟩ := List.mem_map.mp hk
      rw [Layout.resting, hput] at hr'
      obtain ⟨l, hl, hr'⟩ := mem_restingOf.mp hr'
      apply h'.slot_notMem_of_put hw₁ _ l hl
      rw [← hslot]
      apply List.mem_map_of_mem hr'

/-- Trades that fill their makers, seen from the slots the makers are in. -/
theorem forall₂_filled {t : Timed} {rs : List Resting} {trades : List Trade}
    (hnode : ∀ r ∈ rs, (t.book.orderArena.nodes r.slot).order = r.order
      ∧ (t.book.orderArena.nodes r.slot).clientId = r.clientId)
    (hwhole : List.Forall₂ (fun (r : Resting) (trade : Trade) =>
      trade.With r.order r.clientId ∧ trade.qty = r.order.qty) rs trades) :
  List.Forall₂ (fun i (trade : Trade) =>
    trade.With (t.book.orderArena.nodes i).order (t.book.orderArena.nodes i).clientId
      ∧ trade.qty = (t.book.orderArena.nodes i).order.qty) (rs.map (·.slot)) trades
  := by
  rw [List.forall₂_map_left_iff]
  apply List.Forall₂.imp _ ((List.forall₂_and_left _ _).mpr ⟨hnode, hwhole⟩)
  rintro r trade ⟨⟨horder, hclient⟩, hwith, hqty⟩
  rw [horder, hclient]
  exact ⟨hwith, hqty⟩

/-- All makers are filled. -/
theorem tradedInOrder_of_filled {t t' : Timed} {rs rest : List Resting} {trades : List Trade}
    (hsorted : (t.book.restingSlots s).Pairwise (t.Prior s))
    (hslots : t.book.restingSlots s = (rs ++ rest).map (·.slot))
    (hslots' : t'.book.restingSlots s = rest.map (·.slot))
    (hnode : ∀ r ∈ rs ++ rest, (t.book.orderArena.nodes r.slot).order = r.order
      ∧ (t.book.orderArena.nodes r.slot).clientId = r.clientId)
    (hnode' : ∀ r ∈ rest, (t'.book.orderArena.nodes r.slot).order = r.order)
    (hrestedAt : ∀ k ∈ t'.book.restingSlots s, t'.restedAt k = t.restedAt k)
    (hwhole : List.Forall₂ (fun (r : Resting) (trade : Trade) =>
      trade.With r.order r.clientId ∧ trade.qty = r.order.qty) rs trades) :
  Timed.TradedInOrder t t' s trades (rs.map (·.slot)) (rest.map (·.slot))
  := by
  have hmakers := forall₂_filled (fun r hr => hnode r (List.mem_append_left rest hr)) hwhole
  constructor
  · apply hsorted
  · rw [hslots, List.map_append]
  · apply hmakers.imp fun _ _ h => h.1
  · exact Or.inl ⟨hmakers.imp fun _ _ h => h.2, hslots'⟩
  · intro k hk
    obtain ⟨r, hr, rfl⟩ := List.mem_map.mp hk
    rw [hnode' r hr, (hnode r (List.mem_append_right _ hr)).1]
  · apply hrestedAt
  · intro i hi k hk
    rw [hslots, List.map_append, List.pairwise_append] at hsorted
    rw [hslots'] at hk
    apply (hsorted.2.2 i hi k hk).asymm

/-- The last maker is filled in part, and stays at the head. -/
theorem tradedInOrder_of_part {t t' : Timed} {rs rest : List Resting} {r : Resting}
    {trades : List Trade} {trade : Trade}
    (hsorted : (t.book.restingSlots s).Pairwise (t.Prior s))
    (hslots : t.book.restingSlots s = (rs ++ r :: rest).map (·.slot))
    (hslots' : t'.book.restingSlots s = (r.reduce trade.qty :: rest).map (·.slot))
    (hnode : ∀ r' ∈ rs ++ r :: rest, (t.book.orderArena.nodes r'.slot).order = r'.order
      ∧ (t.book.orderArena.nodes r'.slot).clientId = r'.clientId)
    (hnode' : ∀ r' ∈ r.reduce trade.qty :: rest,
      (t'.book.orderArena.nodes r'.slot).order = r'.order)
    (hrestedAt : ∀ k ∈ t'.book.restingSlots s, t'.restedAt k = t.restedAt k)
    (hwhole : List.Forall₂ (fun (r' : Resting) (trade : Trade) =>
      trade.With r'.order r'.clientId ∧ trade.qty = r'.order.qty) rs trades)
    (hwith : trade.With r.order r.clientId) (hpos : 0 < trade.qty)
    (hlt : trade.qty < r.order.qty) :
  Timed.TradedInOrder t t' s (trades ++ [trade]) (rs.map (·.slot) ++ [r.slot])
    (rest.map (·.slot))
  := by
  have hmakers := forall₂_filled (fun r' hr => hnode r' (List.mem_append_left _ hr)) hwhole
  obtain ⟨horder, hclient⟩ := hnode r (by simp)
  constructor
  · apply hsorted
  · simp [hslots]
  · apply List.rel_append
    · apply hmakers.imp fun _ _ h => h.1
    · rw [List.forall₂_cons, horder, hclient]
      exact ⟨hwith, .nil⟩
  · refine Or.inr ⟨rs.map (·.slot), r.slot, trades, trade, rfl, rfl,
      hmakers.imp fun _ _ h => h.2, hpos, ?_, ?_, hslots'⟩
    · rw [horder]
      apply hlt
    · have hpart := hnode' (r.reduce trade.qty) List.mem_cons_self
      rw [Resting.slot_reduce] at hpart
      rw [hpart, horder]
      rfl
  · intro k hk
    obtain ⟨r', hr', rfl⟩ := List.mem_map.mp hk
    rw [hnode' r' (List.mem_cons_of_mem _ hr'), (hnode r' (by simp [hr'])).1]
  · apply hrestedAt
  · intro i hi k hk hprior
    rw [hslots'] at hk
    simp only [hslots, List.map_append, List.map_cons, List.pairwise_append,
      List.pairwise_cons] at hsorted
    obtain ⟨-, ⟨hhead, -⟩, hbetween⟩ := hsorted
    rcases List.mem_append.mp hi with hi | hi
    · exact (hbetween i hi k hk).asymm hprior
    · rw [List.mem_singleton.mp hi] at hprior
      rcases List.mem_cons.mp hk with rfl | hk
      · exact hprior.asymm hprior
      · exact (hhead k hk).asymm hprior

/-- On a timely layout an order trades by price and then by time. -/
theorem tradedInOrder_call {t : Timed} (h : t.book.HasLayout L) (hw : L.WellFormed)
    (ht : L.Timely t.clock t.restedAt) {o : Order} (hkind : o.kind ≠ .cancel)
    (clientId : UInt64) (trades : List Trade) :
  ∃ makers rest, Timed.TradedInOrder t (t.call (.process o clientId trades)) o.takesFrom
    (L.fills o clientId).trades makers rest
  := by
  have hsorted := h.pairwise_prior hw ht o.takesFrom
  obtain ⟨L', h', hladder, hrestedAt⟩ := h.takesFrom_process hw hkind clientId trades
  obtain ⟨whole, part, rest, hrest, htrades, hwhole, hpart⟩ :=
    matchOrders_makers (o.accepts o.takesFrom) clientId (L.stamped o) L.tradeIdCounter
      (L.resting o.takesFrom)
  have hflat := matchLadder_matchOrders (o.accepts o.takesFrom) clientId (L.stamped o)
    L.tradeIdCounter (hw.levels_wf o.takesFrom)
  rw [Layout.resting, hflat] at hrest htrades hwhole hpart
  have hslots := h.restingSlots_eq o.takesFrom
  have hslots' := h'.restingSlots_eq o.takesFrom
  have hleft : L'.resting o.takesFrom = restingOf (L.fills o clientId).ladder := by
    rw [Layout.resting, hladder]
  have hnode : ∀ r ∈ restingOf (L.ladder o.takesFrom),
      (t.book.orderArena.nodes r.slot).order = r.order
        ∧ (t.book.orderArena.nodes r.slot).clientId = r.clientId := fun r hr => h.node_eq hr
  have hnode' : ∀ r ∈ restingOf (L.fills o clientId).ladder,
      ((t.call (.process o clientId trades)).book.orderArena.nodes r.slot).order = r.order := by
    rw [← hleft]
    exact fun r hr => (h'.node_eq hr).1
  rw [← hslots'] at hrestedAt
  rw [hleft] at hslots'
  dsimp only at hrest htrades hwhole hpart
  rw [← Layout.fills] at hrest htrades hwhole hpart
  generalize L.fills o clientId = m at *
  rw [Layout.resting, hrest] at hslots
  rw [hrest] at hnode
  rw [htrades]
  rcases hpart with ⟨rfl, hrest'⟩ | ⟨trade, r, rest', rfl, rfl, hwith, hpos, hlt, hrest'⟩
  · rw [hrest'] at hslots' hnode'
    rw [List.append_nil]
    exact ⟨_, _, tradedInOrder_of_filled hsorted hslots hslots' hnode hnode' hrestedAt hwhole⟩
  · rw [hrest'] at hslots' hnode'
    exact ⟨_, _, tradedInOrder_of_part hsorted hslots hslots' hnode hnode' hrestedAt hwhole
      hwith hpos hlt⟩

end OrderBook.HasLayout

/-- Price-time priority: a call that trades does so with the first orders of the other side,
in order of price and then of time, and fills all of them but the last. -/
theorem Timed.tradedInOrder (symbol : Symbol) (cs : List Call) (o : Order) (clientId : UInt64)
    (trades made : List Trade)
    (hmade : (((OrderBook.new symbol).calls cs).process o clientId trades).2.2 = trades ++ made)
    (hne : made ≠ []) :
  ∃ makers rest, TradedInOrder ((new symbol).calls cs)
    ((new symbol).calls (cs ++ [.process o clientId trades])) o.takesFrom made makers rest
  := by
  obtain ⟨L, h, hw, ht⟩ := exists_timely symbol cs
  by_cases hkind : o.kind = .cancel
  · rw [OrderBook.process_of_cancel _ hkind] at hmade
    exact absurd (List.append_right_eq_self.mp hmade.symm) hne
  · obtain ⟨b', heq, h'⟩ := h.process_eq hw hkind clientId trades
    rw [heq, L.trades_process] at hmade
    rw [calls_concat, ← List.append_cancel_left hmade]
    have hbook : ((new symbol).calls cs).book = (OrderBook.new symbol).calls cs :=
      book_calls (new symbol) cs
    rw [← hbook] at h
    apply h.tradedInOrder_call hw ht hkind

/-- The sample bid trades by price and then by time. -/
theorem Timed.tradedInOrder_sampleBid :
  ∃ makers rest, TradedInOrder ((new .btc).calls (sampleCalls.take 2))
    ((new .btc).calls (sampleCalls.take 2 ++ [sampleBid])) .sell
    (((OrderBook.new .btc).calls (sampleCalls.take 2)).process
      (Order.newLimit 3 9 .btc .buy 100 6) 0 []).2.2 makers rest
  := tradedInOrder .btc (sampleCalls.take 2) (Order.newLimit 3 9 .btc .buy 100 6) 0 [] _ rfl
    (by decide +kernel)

end LimitOrderBook
