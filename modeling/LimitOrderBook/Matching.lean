import LimitOrderBook.Reading

/-!
# The matching phase of a call

`OrderBook.matching` is what `process` has when its matching loops have ended: it is at this
book that the remainder of a limit order comes to rest.
-/

namespace LimitOrderBook

namespace OrderBook

/-- The variables of the loops when `process` enters them. -/
def start (b : OrderBook) (order : Order) (trades : List Trade) : Matching where
  book := (b.stampId order).2
  incoming := (b.stampId order).1
  trades := trades
  stp := false

/-- The variables of the loops when they have ended. -/
def matching (b : OrderBook) (order : Order) (clientId : UInt64) (trades : List Trade) :
    Matching :=
  if (b.stampId order).1.isSell then
    matchBids clientId (b.start order trades)
  else
    matchAsks clientId (b.start order trades)

/-- The remainder of an order comes to rest after the loops. -/
def Rests (b : OrderBook) (order : Order) (clientId : UInt64) (trades : List Trade) : Prop :=
  (b.matching order clientId trades).stp = false
    ∧ 0 < (b.matching order clientId trades).incoming.qty ∧ order.kind = .limit

instance (b : OrderBook) (order : Order) (clientId : UInt64) (trades : List Trade) :
    Decidable (b.Rests order clientId trades) :=
  inferInstanceAs (Decidable (_ ∧ _))

/-- Stamping an order leaves its kind. -/
theorem kind_stampId (b : OrderBook) (o : Order) :
  (b.stampId o).1.kind = o.kind
  := by
  unfold stampId
  split <;> rfl

/-- What `process` does with an order that is not a cancel is what follows the loops. -/
theorem process_eq_matching (b : OrderBook) {o : Order} (hkind : o.kind ≠ .cancel)
    (clientId : UInt64) (trades : List Trade) :
  b.process o clientId trades
    = (let m := b.matching o clientId trades
      let report : ExecutionReport :=
        { executedQty := o.qty.saturatingSub m.incoming.qty, remainingQty := m.incoming.qty,
          stpTriggered := m.stp }
      if b.Rests o clientId trades then
        let res := m.book.restOrder m.incoming clientId
        (res.1.map fun _ => report, res.2, m.trades)
      else
        (.ok report, m.book, m.trades))
  := by
  have hqty : (b.stampId o).1.qty = o.qty := by
    unfold stampId
    split <;> rfl
  have hrests : b.Rests o clientId trades
      ↔ (b.matching o clientId trades).stp = false
        ∧ 0 < (b.matching o clientId trades).incoming.qty ∧ o.kind = .limit := Iff.rfl
  unfold process
  rw [if_neg hkind]
  dsimp only
  rw [show (if (b.stampId o).1.isSell = true then matchBids clientId ⟨_, _, trades, false⟩
    else matchAsks clientId ⟨_, _, trades, false⟩) = b.matching o clientId trades from rfl]
  rw [kind_stampId, hqty]
  generalize b.matching o clientId trades = m at hrests ⊢
  cases hstp : m.stp with
  | true =>
      rw [if_pos rfl, if_neg (fun h => by simp [hstp, hrests] at h)]
  | false =>
      rw [if_neg (by simp)]
      by_cases hmarket : o.kind = .market
      · rw [if_pos hmarket, if_neg (fun h => by simp [hmarket, hrests] at h)]
      · rw [if_neg hmarket]
        by_cases hrest : 0 < m.incoming.qty ∧ o.kind = .limit
        · rw [if_pos hrest, if_pos (hrests.mpr ⟨hstp, hrest⟩)]
          obtain ⟨_ | _, b'⟩ := m.book.restOrder m.incoming clientId <;> rfl
        · rw [if_neg hrest, if_neg (fun h => hrest (hrests.mp h).2)]

namespace HasLayout

variable {b : OrderBook} {L : Layout}

/-- The matching phase does to the book what `fills` does to its layout. -/
theorem matching_eq (h : b.HasLayout L) (o : Order) (clientId : UInt64) (trades : List Trade) :
  ∃ b₁, b.matching o clientId trades
      = ⟨b₁, (L.fills o clientId).taker, trades ++ (L.fills o clientId).trades,
          (L.fills o clientId).stp⟩
    ∧ b₁.HasLayout (L.taken o clientId)
  := by
  obtain ⟨hstamp, h₀⟩ := h.stampId_eq o
  rw [L.stampId_eq] at hstamp h₀
  have hfuel : (L.ladder o.takesFrom).length < MAX_PRICE_LEVELS + 1 :=
    Nat.lt_succ_of_le (h.ladder_length_le _)
  obtain ⟨b₁, hrun, h₁⟩ := h₀.run_matchLadder clientId hfuel rfl (L.stamped o) trades
  refine ⟨b₁, ?_, h₁⟩
  unfold matching start
  rw [matchSide_eq, hstamp]
  apply hrun

theorem rests_iff (h : b.HasLayout L) (o : Order) (clientId : UInt64) (trades : List Trade) :
  b.Rests o clientId trades ↔ L.Rests o clientId
  := by
  obtain ⟨b₁, heq, -⟩ := h.matching_eq o clientId trades
  unfold OrderBook.Rests
  rw [heq]
  rfl

end HasLayout

end OrderBook

end LimitOrderBook
