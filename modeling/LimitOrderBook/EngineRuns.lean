import LimitOrderBook.Reachable

/-!
# Runs of the engine

The calls of the engine, and its state after a sequence of them.  A call of the engine is a
call of at most one book, so the books of the engine run as single books do
(`books_calls`).
-/

namespace LimitOrderBook

/-- A call of a method that changes the engine. -/
inductive EngineCall where
  | nextOrderId
  | process (order : Order) (clientId : UInt64) (trades : List Trade)
  | cancelOrder (symbolId : UInt16) (userId orderId : UInt64)

namespace MultiAssetEngine

/-- The engine after a call. -/
def call (e : MultiAssetEngine) : EngineCall → MultiAssetEngine
  | .nextOrderId => e.nextOrderId.2
  | .process o clientId trades => (e.process o clientId trades).2.1
  | .cancelOrder symbolId u k => (e.cancelOrder symbolId u k).2

/-- The engine after a sequence of calls. -/
def calls (e : MultiAssetEngine) (cs : List EngineCall) : MultiAssetEngine := cs.foldl call e

/-- The call of the book `i` that a call of the engine makes, if it makes one. -/
def bookCall (e : MultiAssetEngine) (i : Fin NUM_SYMBOLS) : EngineCall → Option Call
  | .nextOrderId => none
  | .process o clientId trades =>
      if symIdx o.symbolId = some i then some (.process (e.stampId o).1 clientId trades) else none
  | .cancelOrder symbolId u k =>
      if symIdx symbolId = some i then some (.cancelOrder u k) else none

/-- The calls of the book `i` that a sequence of calls of the engine makes. -/
def bookCalls (e : MultiAssetEngine) (i : Fin NUM_SYMBOLS) : List EngineCall → List Call
  | [] => []
  | c :: cs => (e.bookCall i c).toList ++ (e.call c).bookCalls i cs

theorem calls_concat (e : MultiAssetEngine) (cs : List EngineCall) (c : EngineCall) :
  e.calls (cs ++ [c]) = (e.calls cs).call c
  := by
  rw [calls, List.foldl_append]
  rfl

/-- A book sees the engine's call as one call of its own or none. -/
theorem books_call (e : MultiAssetEngine) (i : Fin NUM_SYMBOLS) (c : EngineCall) :
  (e.call c).books i = (e.books i).calls (e.bookCall i c).toList
  := by
  cases c with
  | nextOrderId => rfl
  | process o clientId trades =>
      rw [call, bookCall]
      cases hsym : symIdx o.symbolId with
      | none =>
          rw [process, hsym, if_neg (Option.some_ne_none i).symm]
          rfl
      | some sym =>
          rw [process_of_sym hsym]
          rcases eq_or_ne sym i with rfl | hne
          · rw [if_pos rfl]
            apply Function.update_self
          · rw [if_neg (fun h => hne (Option.some.inj h))]
            dsimp only [setBook]
            rw [Function.update_of_ne hne.symm, books_stampId]
            rfl
  | cancelOrder symbolId u k =>
      rw [call, bookCall, cancelOrder]
      cases hsym : symIdx symbolId with
      | none =>
          rw [if_neg (Option.some_ne_none i).symm]
          rfl
      | some sym =>
          rcases eq_or_ne sym i with rfl | hne
          · rw [if_pos rfl]
            apply Function.update_self
          · rw [if_neg (fun h => hne (Option.some.inj h))]
            apply Function.update_of_ne hne.symm

/-- A book of the engine runs as a book on its own. -/
theorem books_calls (e : MultiAssetEngine) (i : Fin NUM_SYMBOLS) (cs : List EngineCall) :
  (e.calls cs).books i = (e.books i).calls (e.bookCalls i cs)
  := by
  induction cs generalizing e with
  | nil => rfl
  | cons c cs ih =>
      have hcalls : e.calls (c :: cs) = (e.call c).calls cs := rfl
      rw [hcalls, ih, books_call, bookCalls, OrderBook.calls, OrderBook.calls, OrderBook.calls,
        ← List.foldl_append]

/-- Each book of the new engine is a new book. -/
theorem exists_books_new (i : Fin NUM_SYMBOLS) :
  ∃ symbol, new.books i = OrderBook.new symbol
  := by
  match i with
  | 0 => exact ⟨.btc, rfl⟩
  | 1 => exact ⟨.eth, rfl⟩
  | 2 => exact ⟨.sol, rfl⟩

/-- Every book of a reachable engine has a well-formed layout. -/
theorem exists_layout (cs : List EngineCall) (i : Fin NUM_SYMBOLS) :
  ∃ L, ((new.calls cs).books i).HasLayout L ∧ L.WellFormed
  := by
  obtain ⟨symbol, hsymbol⟩ := exists_books_new i
  rw [books_calls, hsymbol]
  apply OrderBook.exists_layout

end MultiAssetEngine

end LimitOrderBook
