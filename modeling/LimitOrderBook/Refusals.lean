import LimitOrderBook.Reachable
import LimitOrderBook.Capacity

/-!
# Orders the engine refuses

An order whose margin is locked is refused if it trades with nothing and there is no room
for it.  The loop then unlocks the margin; the replay of the record it has logged leaves the
margin locked (`not_givesBack`).

`manyBids` fill a book: each is for one unit, at a price of its own, until no level is free.
-/

namespace LimitOrderBook

/-- Whether an order is refused depends neither on its identifier nor on the client. -/
theorem Layout.WellFormed.process_error_congr {L : Layout} (hw : L.WellFormed) {o o' : Order}
    (ho : o' = { o with id := o'.id }) (clientId clientId' : UInt64) (trades trades' : List Trade)
    (e : RejectReason) :
  (L.process o' clientId' trades').1 = .error e ↔ (L.process o clientId trades).1 = .error e
  := by
  have hunmatched : L.Unmatched o' ↔ L.Unmatched o := by
    rw [ho]
    exact ⟨fun h => ⟨h.kind_eq, h.qty_ne, h.refused⟩, fun h => ⟨h.kind_eq, h.qty_ne, h.refused⟩⟩
  have hroom : L.NoRoom o' ↔ L.NoRoom o := by
    rw [ho]
    rfl
  rw [process_eq_error_iff hw, process_eq_error_iff hw, hunmatched, hroom]

namespace Exchange

variable {s : Exchange} {inbound : InboundMessage} {risk : RiskEngine} {reason : RejectReason}

/-- All balances are what they were before a message when it has been handled, in the loop
and in the replay of what the loop has logged. -/
structure GivesBack (s : Exchange) (inbound : InboundMessage) : Prop where
  live : (s.handle inbound).state.risk.accounts = s.risk.accounts
  replayed : (s.replayAll (s.handle inbound).wal).risk.accounts = s.risk.accounts

/-- Only a limit order is refused once its margin is locked. -/
theorem kind_of_processed_error {E : Fin NUM_SYMBOLS → Layout} (h : s.engine.HasLayouts E)
    (hkind : inbound.order.kind ≠ .cancel)
    (hlock : s.risk.lockOrderFunds inbound.order = .ok risk)
    (herror : (s.processed inbound).1 = .error reason) :
  inbound.order.kind = .limit
  := by
  obtain ⟨sym, hsym⟩ := (RiskEngine.locked_of_ok hkind hlock).exists_sym
  obtain ⟨o, e', ho, heq, -⟩ := processed_eq h hkind hsym
  rw [heq] at herror
  obtain ⟨-, hunmatched, -⟩ := (Layout.process_eq_error_iff (h.wellFormed sym) ..).mp herror
  have hlimit := hunmatched.kind_eq
  rw [ho] at hlimit
  apply hlimit

/-- What the loop refuses, the replay of the record refuses. -/
theorem replay_of_processed_error {E : Fin NUM_SYMBOLS → Layout} (h : s.engine.HasLayouts E)
    (hkind : inbound.order.kind ≠ .cancel)
    (hlock : s.risk.lockOrderFunds inbound.order = .ok risk)
    (herror : (s.processed inbound).1 = .error reason) :
  (s.replay (s.assigned inbound)).risk = risk
  := by
  have hassigned := s.assigned_eq inbound
  have hkind' : (s.assigned inbound).kind ≠ .cancel := by
    rw [hassigned]
    apply hkind
  have hdeposit : (s.assigned inbound).kind ≠ .deposit := by
    rw [hassigned]
    change inbound.order.kind ≠ .deposit
    rw [kind_of_processed_error h hkind hlock herror]
    decide
  have hlock' : s.risk.lockOrderFunds (s.assigned inbound) = .ok risk := by
    rw [s.risk.lockOrderFunds_congr hassigned, hlock]
  obtain ⟨sym, hsym⟩ := (RiskEngine.locked_of_ok hkind hlock).exists_sym
  have hsym' : symIdx (s.assigned inbound).symbolId = some sym := by
    rw [hassigned]
    apply hsym
  obtain ⟨o, e₁, ho, heq, -⟩ := processed_eq h hkind hsym
  obtain ⟨e₂, heq', -⟩ := h.process_eq hkind' hsym' 0 []
  rw [heq] at herror
  have ho' : (s.engine.stampId (s.assigned inbound)).1
      = { o with id := (s.engine.stampId (s.assigned inbound)).1.id } := by
    rw [MultiAssetEngine.stampId_fst, hassigned, ho]
  have herror' := ((h.wellFormed sym).process_error_congr ho' _ 0 _ [] _).mpr herror
  rw [replay_of_lock s hdeposit hkind' hlock', heq', herror']

/-- The loop gives back what it has locked exactly if the side is a valid one and the locked
part of the account has had room for it. -/
theorem live_of_processed_error (hkind : inbound.order.kind ≠ .cancel)
    (hlock : s.risk.lockOrderFunds inbound.order = .ok risk)
    (herror : (s.processed inbound).1 = .error reason) {sym : Fin NUM_SYMBOLS} {a : Account}
    (hsym : symIdx inbound.order.symbolId = some sym)
    (haccount : s.risk.accounts inbound.order.userId = some a) :
  (s.handle inbound).state.risk.accounts = s.risk.accounts ↔ a.HasRoom sym inbound.order
  := by
  rcases hprocessed : s.processed inbound with ⟨res, engine, trades⟩
  rw [hprocessed] at herror
  dsimp only at herror
  subst herror
  have hunlock : risk.unlockCancelledOrderMargin (s.assigned inbound) inbound.order.qty
      = risk.unlockCancelledOrderMargin inbound.order inbound.order.qty := by
    rw [s.assigned_eq inbound]
    rfl
  rw [(handle_of_error hkind hlock hprocessed).1, hunlock,
    (RiskEngine.locked_of_ok hkind hlock).unlock_eq_iff hsym haccount]

/-- The replay of the record of an order the engine refuses changes the balances. -/
theorem replayed_ne (h : s.Reachable) (hkind : inbound.order.kind ≠ .cancel)
    (hlock : s.risk.lockOrderFunds inbound.order = .ok risk)
    (herror : (s.processed inbound).1 = .error reason) :
  (s.replayAll (s.handle inbound).wal).risk.accounts ≠ s.risk.accounts
  := by
  obtain ⟨E, hs⟩ := h.exists_sound
  rw [wal_of_lock hkind hlock, replayAll, List.foldl_cons, List.foldl_nil,
    replay_of_processed_error hs.layouts hkind hlock herror]
  apply (RiskEngine.locked_of_ok hkind hlock).accounts_ne

/-- The margin of an order the engine refuses is not given back on both paths: the replay of
the record leaves it locked. -/
theorem not_givesBack (h : s.Reachable) (hkind : inbound.order.kind ≠ .cancel)
    (hlock : s.risk.lockOrderFunds inbound.order = .ok risk)
    (herror : (s.processed inbound).1 = .error reason) :
  ¬ s.GivesBack inbound
  := fun hback => replayed_ne h hkind hlock herror hback.replayed

/-! ### One price too many -/

/-- A client funds an account. -/
def funded : Exchange := Exchange.new.deposit 1 1000000000 0 0

/-- The bid of the client for one unit at the price `n + 1`. -/
def bidMessage (n : Nat) : InboundMessage where
  order := Order.newClientLimit (UInt64.ofNat (n + 1)) 1 .btc .buy (UInt64.ofNat (n + 1)) 1
  clientId := 7

/-- Bids at `n` different prices. -/
def manyBids (n : Nat) : List InboundMessage := (List.range n).map bidMessage

/-- The exchange after `n` of the bids. -/
structure Bidden (n : Nat) (s : Exchange) : Prop where
  layouts : ∃ E, s.engine.HasLayouts E ∧ OrderBook.Bids n (E 0)
  funds : ∃ a, s.risk.accounts 1 = some a
    ∧ 4097 * 4097 ≤ a.usdAvailable.toNat + 4097 * n

theorem bidden_funded :
  Bidden 0 funded where
  layouts := ⟨_, MultiAssetEngine.hasLayouts_new, by
    constructor
    · rfl
    · simp [Layout.new]
    · rfl
    · rw [Nat.add_zero]
      apply List.length_range
    · rw [Nat.add_zero]
      apply List.length_range⟩
  funds := ⟨_, rfl, by decide⟩

theorem toNat_price_bidMessage {n : Nat} (hn : n ≤ MAX_PRICE_LEVELS) :
  (bidMessage n).order.price.toNat = n + 1
  := by
  apply UInt64.toNat_ofNat_of_lt'
  unfold MAX_PRICE_LEVELS at hn
  unfold UInt64.size
  omega

/-- What the bid costs. -/
theorem cost_bidMessage {n : Nat} (hn : n ≤ MAX_PRICE_LEVELS) :
  (bidMessage n).order.price.toNat * (1 : UInt64).toNat < 2 ^ 64
    ∧ ((bidMessage n).order.price * 1).toNat = n + 1
  := by
  have hprice := toNat_price_bidMessage hn
  have hfits : (bidMessage n).order.price.toNat * (1 : UInt64).toNat < 2 ^ 64 := by
    rw [hprice, UInt64.toNat_one]
    unfold MAX_PRICE_LEVELS at hn
    omega
  refine ⟨hfits, ?_⟩
  rw [UInt64.toNat_mul_of_lt hfits, hprice, UInt64.toNat_one, Nat.mul_one]

/-- The next bid is locked. -/
theorem Bidden.lock {n : Nat} (h : Bidden n s) (hn : n ≤ MAX_PRICE_LEVELS) :
  ∃ a, s.risk.accounts 1 = some a
    ∧ 4097 * 4097
      ≤ (a.lockUsd ((bidMessage n).order.price * 1)).usdAvailable.toNat + 4097 * (n + 1)
    ∧ s.risk.lockOrderFunds (bidMessage n).order
      = .ok (s.risk.modifyAccount 1 (·.lockUsd ((bidMessage n).order.price * 1)))
  := by
  obtain ⟨-, a, haccount, hfunds⟩ := h
  obtain ⟨hfits, hcost⟩ := cost_bidMessage hn
  have hprice_ne : (bidMessage n).order.price ≠ 0 := by
    rw [ne_eq, ← UInt64.toNat_inj, toNat_price_bidMessage hn]
    exact Nat.succ_ne_zero n
  have hkind : (bidMessage n).order.kind ≠ .cancel := (by decide : OrderType.limit ≠ .cancel)
  have hqty : (bidMessage n).order.qty ≠ 0 := (by decide : (1 : UInt64) ≠ 0)
  have hsym : symIdx (bidMessage n).order.symbolId = some 0 := rfl
  -- the words of the message stay closed for the arithmetic
  generalize hp : (bidMessage n).order.price * 1 = cost at hcost ⊢
  unfold MAX_PRICE_LEVELS at hn
  have hle : cost ≤ a.usdAvailable := by
    rw [UInt64.le_iff_toNat_le, hcost]
    omega
  refine ⟨a, haccount, ?_, ?_⟩
  · dsimp only [Account.lockUsd]
    rw [UInt64.toNat_sub_of_le _ _ hle]
    omega
  · subst hp
    apply RiskEngine.lockOrderFunds_buy hkind hqty hsym haccount rfl hprice_ne hfits hle

/-- The next bid rests if a level is free, and is refused if none is. -/
theorem Bidden.step {n : Nat} (h : Bidden n s) (hn : n ≤ MAX_PRICE_LEVELS) :
  n < MAX_PRICE_LEVELS ∧ Bidden (n + 1) (s.handle (bidMessage n)).state
    ∨ n = MAX_PRICE_LEVELS ∧ (s.processed (bidMessage n)).1 = .error .engineFull
  := by
  obtain ⟨a, haccount, hfunds, hlock⟩ := h.lock hn
  obtain ⟨⟨E, hE, hbids⟩, -⟩ := h
  have hkind : (bidMessage n).order.kind ≠ .cancel := (by decide : OrderType.limit ≠ .cancel)
  have hsym : symIdx (bidMessage n).order.symbolId = some 0 := rfl
  obtain ⟨o, e', ho, heq, he'⟩ := processed_eq hE hkind hsym
  have hlimit : o.kind = .limit := by
    rw [ho]
    rfl
  have hbuy : o.bookSide = .buy := by
    rw [ho]
    rfl
  have hqty : o.qty ≠ 0 := by
    rw [ho]
    apply (by decide : (1 : UInt64) ≠ 0)
  have hprice : o.price.toNat = n + 1 := by
    rw [← toNat_price_bidMessage hn, ho]
  have hidle := (hbids.unmatched hlimit hbuy hqty).fills_eq_idle (bidMessage n).clientId
  rcases hbids.process (hE.wellFormed 0) hn hlimit hbuy hqty hprice (bidMessage n).clientId [] with
    ⟨hlt, hbids', hres⟩ | ⟨hfull, -, hres⟩
  · have htrades : ((E 0).process o (bidMessage n).clientId []).2.2 = [] := by
      rw [Layout.trades_process, hidle]
      rfl
    have hstp : ((E 0).report o (bidMessage n).clientId).stpTriggered = false := by
      rw [Layout.report, hidle]
      rfl
    rw [hres, htrades] at heq
    have hmarket : (s.assigned (bidMessage n)).kind ≠ .market := by
      rw [s.assigned_eq (bidMessage n)]
      apply (by decide : OrderType.limit ≠ .market)
    have hstate := (handle_of_ok hkind hlock heq).1
    rw [RiskEngine.settleReport_nil _ hmarket, if_neg (by simp [hstp])] at hstate
    rw [hstate]
    refine Or.inl ⟨hlt, ⟨_, he', ?_⟩, _, ?_, hfunds⟩
    · rw [Function.update_self]
      apply hbids'
    · rw [RiskEngine.accounts_modifyAccount_self, haccount]
      rfl
  · rw [heq]
    exact Or.inr ⟨hfull, hres⟩

theorem bidden_manyBids {n : Nat} (hn : n ≤ MAX_PRICE_LEVELS) :
  Bidden n (funded.run (manyBids n)).state
  := by
  induction n with
  | zero => apply bidden_funded
  | succ n ih =>
      have hmany : manyBids (n + 1) = manyBids n ++ [bidMessage n] := by
        simp [manyBids, List.range_succ]
      rw [hmany, (run_concat ..).1]
      rcases (ih (Nat.le_of_succ_le hn)).step (Nat.le_of_succ_le hn) with ⟨-, hbidden⟩ | ⟨hfull, -⟩
      · apply hbidden
      · omega

theorem reachable_manyBids (n : Nat) :
  (funded.run (manyBids n)).state.Reachable
  := (Reachable.new.deposit 1 1000000000 0 0).run (manyBids n)

/-- The bid for which there is no level is refused. -/
theorem refused_bidMessage :
  (∃ risk, (funded.run (manyBids MAX_PRICE_LEVELS)).state.risk.lockOrderFunds
      (bidMessage MAX_PRICE_LEVELS).order = .ok risk)
    ∧ ((funded.run (manyBids MAX_PRICE_LEVELS)).state.processed
      (bidMessage MAX_PRICE_LEVELS)).1 = .error .engineFull
  := by
  have hbidden := bidden_manyBids (Nat.le_refl MAX_PRICE_LEVELS)
  obtain ⟨-, -, -, hlock⟩ := hbidden.lock (Nat.le_refl _)
  rcases hbidden.step (Nat.le_refl _) with ⟨hlt, -⟩ | ⟨-, herror⟩
  · exact absurd hlt (Nat.lt_irrefl _)
  · exact ⟨⟨_, hlock⟩, herror⟩

theorem not_givesBack_bidMessage :
  ¬ (funded.run (manyBids MAX_PRICE_LEVELS)).state.GivesBack (bidMessage MAX_PRICE_LEVELS)
  := by
  obtain ⟨⟨risk, hlock⟩, herror⟩ := refused_bidMessage
  exact not_givesBack (reachable_manyBids _) (by decide : OrderType.limit ≠ .cancel) hlock herror

/-- Not every order that is refused gets its margin back. -/
theorem not_forall_givesBack :
  ¬ ∀ (s : Exchange) (inbound : InboundMessage) (risk : RiskEngine) (reason : RejectReason),
    s.Reachable → inbound.order.kind ≠ .cancel → inbound.order.getSide.isSome →
      s.risk.lockOrderFunds inbound.order = .ok risk →
      (s.processed inbound).1 = .error reason → s.GivesBack inbound
  := by
  intro hall
  obtain ⟨⟨risk, hlock⟩, herror⟩ := refused_bidMessage
  have hkind : (bidMessage MAX_PRICE_LEVELS).order.kind ≠ .cancel :=
    (by decide : OrderType.limit ≠ .cancel)
  have hback := hall _ _ risk _ (reachable_manyBids _) hkind rfl hlock herror
  exact replayed_ne (reachable_manyBids _) hkind hlock herror hback.replayed

end Exchange

end LimitOrderBook
