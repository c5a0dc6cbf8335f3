import LimitOrderBook.Types
import LimitOrderBook.Lib.Word
import Mathlib.Data.List.Nodup
import Mathlib.Data.List.Perm.Basic
import Mathlib.Data.List.Infix

/-!
# Clients that quote

The market maker and the benchmark both quote limit orders under consecutive identifiers, and now and
then cancel one of their quotes, which they take out of the list of those that are still active.
Whatever they choose, each cancel names a quote that was sent before and that has not been
cancelled (`Quoter.Consistent`).
-/

namespace LimitOrderBook

section

variable {α : Type}

/-- Take out an element; the last one comes in its place. -/
def swapRemove (xs : List α) (i : Nat) : List α :=
  match xs.getLast? with
  | none => []
  | some last => (xs.set i last).dropLast

/-- The last element goes where the removed one was. -/
theorem swapRemove_concat (xs : List α) (last : α) (i : Nat) :
  swapRemove (xs ++ [last]) i = if i < xs.length then xs.set i last else xs
  := by
  unfold swapRemove
  rw [List.getLast?_append_of_ne_nil _ (List.cons_ne_nil last []), List.getLast?_singleton]
  dsimp only
  split
  · next hlt => rw [List.set_append_left i last hlt, List.dropLast_concat]
  · next hge =>
      rw [List.set_append_right i last (Nat.le_of_not_lt hge)]
      cases hi : i - xs.length with
      | zero => apply List.dropLast_concat
      | succ n => apply List.dropLast_concat

/-- What is left is all but the element, in some sequence. -/
theorem swapRemove_perm {xs : List α} {i : Nat} (h : i < xs.length) :
  (xs[i] :: swapRemove xs i).Perm xs
  := by
  obtain ⟨ys, last, rfl⟩ := List.eq_nil_or_concat xs |>.resolve_left
    (List.ne_nil_of_length_pos (Nat.zero_lt_of_lt h))
  rw [List.concat_eq_append, List.length_append, List.length_singleton] at h
  simp only [List.concat_eq_append, swapRemove_concat]
  split
  · next hlt =>
      rw [List.getElem_append_left hlt]
      have hset := (List.set_perm_cons_eraseIdx hlt last).cons ys[i]
      have hback := (List.getElem_cons_eraseIdx_perm hlt).cons last
      apply (hset.trans (List.Perm.swap last ys[i] _)).trans
      apply hback.trans (List.perm_append_singleton last ys).symm
  · next hge =>
      obtain rfl : i = ys.length := by omega
      rw [List.getElem_concat_length rfl]
      apply (List.perm_append_singleton last ys).symm

end

/-- The state of a client that quotes: the next identifier, and the quotes that are active, each
with its symbol and its user. -/
structure Quoter where
  orderId : UInt64
  activeQuotes : List (UInt64 × Symbol × UInt64)

namespace Quoter

def new : Quoter where
  orderId := 1
  activeQuotes := []

/-- Quote a limit order. -/
def quote (q : Quoter) (userId : UInt64) (symbol : Symbol) (side : Side) (price qty : UInt64) :
    Order × Quoter :=
  (Order.newLimit q.orderId userId symbol side price qty,
    { orderId := q.orderId + 1
      activeQuotes := q.activeQuotes ++ [(q.orderId, symbol, userId)] })

/-- Cancel an active quote. -/
def cancel (q : Quoter) (i : Fin q.activeQuotes.length) : Order × Quoter :=
  let (targetId, symbol, userId) := q.activeQuotes.get i
  (Order.newCancel targetId userId symbol,
    { q with activeQuotes := swapRemove q.activeQuotes i })

/-- Send an order that is no quote. -/
def take (q : Quoter) (order : UInt64 → Order) : Order × Quoter :=
  (order q.orderId, { q with orderId := q.orderId + 1 })

/-- What a client that quotes may send next. -/
inductive Sends (q : Quoter) : Order × Quoter → Prop where
  | quote (userId : UInt64) (symbol : Symbol) (side : Side) (price qty : UInt64) :
      Sends q (q.quote userId symbol side price qty)
  | cancel (i : Fin q.activeQuotes.length) : Sends q (q.cancel i)
  | take {order : UInt64 → Order} (hkind : (order q.orderId).kind ≠ .cancel)
      (hid : (order q.orderId).id = q.orderId) : Sends q (q.take order)

/-- What it may send in all. -/
inductive Run (q : Quoter) : List Order → Quoter → Prop where
  | nil : Run q [] q
  | concat {sent : List Order} {q' : Quoter} {next : Order × Quoter} (h : Run q sent q')
      (hnext : q'.Sends next) : Run q (sent ++ [next.1]) next.2

/-- The identifiers increase, and each cancel names a limit order that was sent before, for the
same user and the same symbol, and that has not been cancelled. -/
structure Consistent (sent : List Order) : Prop where
  increasing : ((sent.filter fun o => o.kind ≠ .cancel).map (·.id)).Pairwise (· < ·)
  once : ((sent.filter fun o => o.kind = .cancel).map (·.id)).Nodup
  quoted : ∀ earlier c, earlier ++ [c] <+: sent → c.kind = .cancel →
    ∃ o ∈ earlier, o.kind = .limit ∧ o.id = c.id ∧ o.symbolId = c.symbolId ∧ o.userId = c.userId

/-- What has been sent accounts for the state: the active quotes have been sent and not been
cancelled. -/
structure Accounts (sent : List Order) (q : Quoter) : Prop where
  consistent : Consistent sent
  id_lt : ∀ o ∈ sent, o.id < q.orderId
  nodup : (q.activeQuotes.map (·.1)).Nodup
  exists_quote : ∀ quote ∈ q.activeQuotes, ∃ o ∈ sent, o.kind = .limit ∧ o.id = quote.1
    ∧ o.symbolId = quote.2.1.code ∧ o.userId = quote.2.2
  id_notMem : ∀ c ∈ sent, c.kind = .cancel → c.id ∉ q.activeQuotes.map (·.1)

theorem lt_succ_orderId {q : Quoter} (hroom : q.orderId.toNat + 1 < 2 ^ 64) :
  q.orderId < q.orderId + 1
  := by
  rw [UInt64.lt_iff_toNat_lt, UInt64.toNat_add_of_lt'] <;> rw [UInt64.toNat_one]
  · exact Nat.lt_succ_self _
  · omega

namespace Consistent

variable {sent : List Order} {o : Order}

/-- An order under an identifier above all others. -/
theorem concat_order (h : Consistent sent) (hkind : o.kind ≠ .cancel)
    (hlt : ∀ o' ∈ sent, o'.id < o.id) :
  Consistent (sent ++ [o])
  := by
  have hone : ([o].filter fun o => o.kind ≠ .cancel) = [o] :=
    List.filter_cons_of_pos (decide_eq_true hkind)
  have hnone : ([o].filter fun o => o.kind = .cancel) = [] :=
    List.filter_cons_of_neg (by simpa using hkind)
  constructor
  · rw [List.filter_append, List.map_append, hone, List.pairwise_append]
    refine ⟨h.increasing, List.pairwise_singleton _ _, ?_⟩
    intro k hk k' hk'
    obtain ⟨o', ho', rfl⟩ := List.mem_map.mp hk
    rw [List.mem_singleton.mp hk']
    apply hlt o' (List.mem_of_mem_filter ho')
  · rw [List.filter_append, hnone, List.append_nil]
    apply h.once
  · intro earlier c hinitial hcancel
    rcases List.prefix_concat_iff.mp hinitial with heq | hinitial
    · obtain ⟨-, hlast⟩ := List.append_inj' heq rfl
      obtain rfl := List.singleton_inj.mp hlast
      exact absurd hcancel hkind
    · apply h.quoted earlier c hinitial hcancel

/-- A cancel of an order that has been sent and has not been cancelled. -/
theorem concat_cancel (h : Consistent sent) (hkind : o.kind = .cancel)
    (hnew : ∀ c ∈ sent, c.kind = .cancel → c.id ≠ o.id)
    (hquoted : ∃ o' ∈ sent, o'.kind = .limit ∧ o'.id = o.id ∧ o'.symbolId = o.symbolId
      ∧ o'.userId = o.userId) :
  Consistent (sent ++ [o])
  := by
  have hnone : ([o].filter fun o => o.kind ≠ .cancel) = [] :=
    List.filter_cons_of_neg (by simpa using hkind)
  have hone : ([o].filter fun o => o.kind = .cancel) = [o] :=
    List.filter_cons_of_pos (decide_eq_true hkind)
  constructor
  · rw [List.filter_append, hnone, List.append_nil]
    apply h.increasing
  · rw [List.filter_append, hone, List.map_append, List.nodup_append]
    refine ⟨h.once, List.nodup_singleton _, ?_⟩
    intro k hk k' hk'
    obtain ⟨c, hc, rfl⟩ := List.mem_map.mp hk
    rw [List.mem_singleton.mp hk']
    apply hnew c (List.mem_of_mem_filter hc)
    simpa using List.of_mem_filter hc
  · intro earlier c hinitial hcancel
    rcases List.prefix_concat_iff.mp hinitial with heq | hinitial
    · obtain ⟨rfl, hlast⟩ := List.append_inj' heq rfl
      obtain rfl := List.singleton_inj.mp hlast
      apply hquoted
    · apply h.quoted earlier c hinitial hcancel

end Consistent

namespace Accounts

variable {sent : List Order} {q : Quoter} {o : Order}

/-- An order under the next identifier, which may be active from then on. -/
theorem concat_order (h : Accounts sent q) (hkind : o.kind ≠ .cancel) (hid : o.id = q.orderId)
    (hroom : q.orderId.toNat + 1 < 2 ^ 64) {quotes : List (UInt64 × Symbol × UInt64)}
    (hquotes : quotes = [] ∨ ∃ symbol userId, quotes = [(q.orderId, symbol, userId)]
      ∧ o.kind = .limit ∧ o.symbolId = symbol.code ∧ o.userId = userId) :
  Accounts (sent ++ [o]) ⟨q.orderId + 1, q.activeQuotes ++ quotes⟩
  := by
  have hlt := lt_succ_orderId hroom
  have hids : ∀ k ∈ q.activeQuotes.map (·.1), k < q.orderId := by
    intro k hk
    obtain ⟨quote, hquote, rfl⟩ := List.mem_map.mp hk
    obtain ⟨o', ho', -, hid', -⟩ := h.exists_quote quote hquote
    rw [← hid']
    apply h.id_lt o' ho'
  have hnext : ∀ k ∈ quotes.map (·.1), k = q.orderId := by
    intro k hk
    rcases hquotes with rfl | ⟨symbol, userId, rfl, -⟩
    · cases hk
    · exact List.mem_singleton.mp hk
  constructor
  · apply h.consistent.concat_order hkind
    rw [hid]
    apply h.id_lt
  · intro o' ho'
    rcases List.mem_append.mp ho' with ho' | ho'
    · exact UInt64.lt_trans (h.id_lt o' ho') hlt
    · rw [List.mem_singleton.mp ho', hid]
      apply hlt
  · rw [List.map_append, List.nodup_append]
    refine ⟨h.nodup, ?_, ?_⟩
    · rcases hquotes with rfl | ⟨symbol, userId, rfl, -⟩
      · exact List.nodup_nil
      · exact List.nodup_singleton _
    · intro k hk k' hk'
      rw [hnext k' hk']
      apply UInt64.ne_of_lt (hids k hk)
  · intro quote hquote
    rcases List.mem_append.mp hquote with hquote | hquote
    · obtain ⟨o', ho', hrest⟩ := h.exists_quote quote hquote
      exact ⟨o', List.mem_append_left _ ho', hrest⟩
    · rcases hquotes with rfl | ⟨symbol, userId, rfl, hlimit, hsymbol, huser⟩
      · cases hquote
      · rw [List.mem_singleton.mp hquote]
        exact ⟨o, List.mem_append_right _ (List.mem_singleton_self o), hlimit, hid, hsymbol, huser⟩
  · intro c hc hcancel hmem
    rcases List.mem_append.mp hc with hc | hc
    · rw [List.map_append] at hmem
      rcases List.mem_append.mp hmem with hmem | hmem
      · exact h.id_notMem c hc hcancel hmem
      · exact UInt64.ne_of_lt (h.id_lt c hc) (hnext _ hmem)
    · rw [List.mem_singleton.mp hc] at hcancel
      exact hkind hcancel

/-- A cancel keeps the quoter's accounts. -/
theorem cancel (h : Accounts sent q) (i : Fin q.activeQuotes.length) :
  Accounts (sent ++ [(q.cancel i).1]) (q.cancel i).2
  := by
  have hperm := swapRemove_perm i.isLt
  have hmem : q.activeQuotes.get i ∈ q.activeQuotes := List.get_mem _ i
  have hids := (hperm.map (·.1)).nodup_iff.mpr h.nodup
  rw [List.map_cons, List.nodup_cons] at hids
  have hsubset : ∀ quote ∈ swapRemove q.activeQuotes i, quote ∈ q.activeQuotes :=
    fun quote hquote => hperm.subset (List.mem_cons_of_mem _ hquote)
  obtain ⟨o, ho, hlimit, hid, hsymbol, huser⟩ := h.exists_quote _ hmem
  constructor
  · apply h.consistent.concat_cancel rfl
    · intro c hc hcancel heq
      exact h.id_notMem c hc hcancel (heq ▸ List.mem_map_of_mem hmem)
    · exact ⟨o, ho, hlimit, hid, hsymbol, huser⟩
  · intro o' ho'
    rcases List.mem_append.mp ho' with ho' | ho'
    · apply h.id_lt o' ho'
    · rw [List.mem_singleton.mp ho']
      change (q.activeQuotes.get i).1 < q.orderId
      rw [← hid]
      apply h.id_lt o ho
  · apply hids.2
  · intro quote hquote
    obtain ⟨o', ho', hrest⟩ := h.exists_quote quote (hsubset quote hquote)
    exact ⟨o', List.mem_append_left _ ho', hrest⟩
  · intro c hc hcancel hmem'
    obtain ⟨quote, hquote, heq⟩ := List.mem_map.mp hmem'
    rcases List.mem_append.mp hc with hc | hc
    · apply h.id_notMem c hc hcancel
      rw [← heq]
      apply List.mem_map_of_mem (hsubset quote hquote)
    · rw [List.mem_singleton.mp hc] at heq
      apply hids.1
      change (q.activeQuotes.get i).1 ∈ _
      change quote.1 = (q.activeQuotes.get i).1 at heq
      rw [← heq]
      apply List.mem_map_of_mem hquote

/-- Whatever the quoter sends keeps its accounts. -/
theorem sends (h : Accounts sent q) {next : Order × Quoter} (hnext : q.Sends next)
    (hroom : q.orderId.toNat + 1 < 2 ^ 64) :
  Accounts (sent ++ [next.1]) next.2 ∧ next.2.orderId.toNat ≤ q.orderId.toNat + 1
  := by
  have hsucc : (q.orderId + 1).toNat ≤ q.orderId.toNat + 1 := by
    rw [UInt64.toNat_add_of_lt'] <;> rw [UInt64.toNat_one]
    omega
  cases hnext with
  | quote userId symbol side price qty =>
      refine ⟨?_, hsucc⟩
      apply h.concat_order OrderType.noConfusion rfl hroom
      exact Or.inr ⟨symbol, userId, rfl, rfl, rfl, rfl⟩
  | cancel i => exact ⟨h.cancel i, Nat.le_succ _⟩
  | take hkind hid =>
      refine ⟨?_, hsucc⟩
      have htaken := h.concat_order hkind hid hroom (Or.inl rfl)
      rw [List.append_nil] at htaken
      apply htaken

end Accounts

/-- All that a client that quotes may send is consistent. -/
theorem Run.consistent {sent : List Order} {q : Quoter} (h : new.Run sent q)
    (hroom : sent.length + 1 < 2 ^ 64) :
  Consistent sent
  := by
  suffices haccounts : Accounts sent q ∧ q.orderId.toNat ≤ sent.length + 1 from haccounts.1.consistent
  induction h with
  | nil =>
      refine ⟨⟨⟨List.Pairwise.nil, List.nodup_nil, ?_⟩, nofun, List.nodup_nil, nofun, nofun⟩,
        Nat.le_refl _⟩
      intro earlier c hinitial
      exact absurd (List.prefix_nil.mp hinitial) (List.concat_ne_nil c earlier)
  | concat h hnext ih =>
      rw [List.length_append, List.length_singleton] at hroom ⊢
      obtain ⟨haccounts, hle⟩ := ih (by omega)
      obtain ⟨hnext, hle'⟩ := haccounts.sends hnext (by omega)
      exact ⟨hnext, by omega⟩

end Quoter

end LimitOrderBook
