import LimitOrderBook.Refusals
import LimitOrderBook.Trades

/-!
# Deposits from a client

A client may send a message of the type of a deposit.  The loop takes it for an order: it
locks its margin and has it matched, at any price, and nothing of it comes to rest.  The
replay of the record it has logged credits the account instead.  The two agree exactly if the
account does not cover the message, so that nothing is logged (`sameOnReplay_iff`).
-/

namespace LimitOrderBook

/-- Credit an account. -/
def Account.credit (a : Account) (usd : UInt64) (sym : Fin NUM_SYMBOLS) (q : UInt64) : Account :=
  { a with usdAvailable := a.usdAvailable + usd }.modifyAvailable sym (· + q)

namespace RiskEngine

variable {r r' : RiskEngine} {o : Order} {sym : Fin NUM_SYMBOLS} {a : Account}

theorem accounts_deposit_self {u : UInt64} {symbolId : UInt16} (hsym : symIdx symbolId = some sym)
    (haccount : r.accounts u = some a) (usd qty : UInt64) :
  (r.deposit u usd symbolId qty).accounts u = some (a.credit usd sym qty)
  := by
  rw [deposit, hsym]
  dsimp only
  rw [Function.update_self, haccount]
  rfl

/-- After the lock of an order that trades with nothing, and after its margin is unlocked
again, either the assets the user has available are as before, or the order's quantity is
locked on top of what was. -/
theorem Locked.assets (h : r.Locked o r') (hsym : symIdx o.symbolId = some sym)
    (haccount : r.accounts o.userId = some a) {b : Account}
    (hb : r'.accounts o.userId = some b
      ∨ (r'.unlockCancelledOrderMargin o o.qty).accounts o.userId = some b) :
  b.assetAvailable sym = a.assetAvailable sym ∨ b.assetLocked sym = a.assetLocked sym + o.qty
  := by
  rw [unlockCancelledOrderMargin] at hb
  cases h with
  | @buy _ a' hqty _ haccount' hside =>
      obtain rfl := Option.some.inj (haccount.symm.trans haccount')
      have hgetSide : o.getSide = some .buy := by
        rw [Order.getSide, hside]
        rfl
      rcases hb with hb | hb
      · rw [accounts_modifyAccount_self, haccount] at hb
        obtain rfl := Option.some.inj hb
        apply Or.inl rfl
      · rw [hgetSide, Option.getD_some, unlockOrderFunds_buy _ _ hsym _ hqty,
          accounts_modifyAccount_self, accounts_modifyAccount_self, haccount] at hb
        obtain rfl := Option.some.inj hb
        apply Or.inl rfl
  | @sell sym' a' hqty hsym' haccount' hside =>
      obtain rfl := Option.some.inj (haccount.symm.trans haccount')
      obtain rfl := Option.some.inj (hsym.symm.trans hsym')
      have hlocked : (a.lockAsset sym o.qty).assetLocked sym = a.assetLocked sym + o.qty := by
        simp [Account.lockAsset, Account.modifyLocked, Account.modifyAvailable]
      rcases hb with hb | hb
      · rw [accounts_modifyAccount_self, haccount] at hb
        obtain rfl := Option.some.inj hb
        apply Or.inr hlocked
      · cases hgetSide : o.getSide.getD .buy with
        | buy =>
            rw [hgetSide, unlockOrderFunds_buy _ _ hsym _ hqty, accounts_modifyAccount_self,
              accounts_modifyAccount_self, haccount] at hb
            obtain rfl := Option.some.inj hb
            apply Or.inr hlocked
        | sell =>
            rw [hgetSide, unlockOrderFunds_sell _ _ hsym _ hqty, accounts_modifyAccount_self,
              accounts_modifyAccount_self, haccount] at hb
            obtain rfl := Option.some.inj hb
            apply Or.inl
            simp only [Account.unlockAsset, Account.lockAsset, Account.modifyAvailable,
              Account.modifyLocked, Function.update_self]
            grind

end RiskEngine

namespace Exchange

variable {s : Exchange} {inbound : InboundMessage} {risk : RiskEngine}

/-- The handling of a message and the replay of what it has logged give the same balances and
the same books. -/
structure SameOnReplay (s : Exchange) (inbound : InboundMessage) : Prop where
  accounts : (s.replayAll (s.handle inbound).wal).risk.accounts
    = (s.handle inbound).state.risk.accounts
  books : (s.replayAll (s.handle inbound).wal).engine.books
    = (s.handle inbound).state.engine.books

/-- A deposit of a client is processed, and nothing of it comes to rest. -/
theorem processed_of_deposit {E : Fin NUM_SYMBOLS → Layout} {sym : Fin NUM_SYMBOLS}
    (h : s.engine.HasLayouts E) (hkind : inbound.order.kind = .deposit)
    (hsym : symIdx inbound.order.symbolId = some sym) :
  ∃ o e', o = { inbound.order with id := s.exchangeId inbound }
    ∧ s.processed inbound = (.ok ((E sym).report o inbound.clientId), e',
      ((E sym).fills o inbound.clientId).trades)
    ∧ e'.HasLayouts (Function.update E sym ((E sym).taken o inbound.clientId))
  := by
  have hkind' : inbound.order.kind ≠ .cancel := ne_of_eq_of_ne hkind (by decide)
  obtain ⟨o, e', ho, heq, he'⟩ := processed_eq h hkind' hsym
  have hrests : ¬ (E sym).Rests o inbound.clientId := by
    rintro ⟨-, -, hlimit⟩
    have hdeposit : o.kind = .deposit := by
      rw [ho]
      apply hkind
    rw [hdeposit] at hlimit
    contradiction
  have hprocess : (E sym).process o inbound.clientId []
      = (.ok ((E sym).report o inbound.clientId), (E sym).taken o inbound.clientId,
        ((E sym).fills o inbound.clientId).trades) := by
    apply Layout.process_of_not_rests hrests
  rw [hprocess] at heq he'
  exact ⟨o, e', ho, heq, he'⟩

/-- The replay of what the loop has logged of a deposit that is locked credits the account. -/
theorem replay_of_locked_deposit (hkind : inbound.order.kind = .deposit)
    (hlock : s.risk.lockOrderFunds inbound.order = .ok risk) :
  s.replayAll (s.handle inbound).wal
    = s.deposit inbound.order.userId inbound.order.price inbound.order.symbolId inbound.order.qty
  := by
  have hcancel : inbound.order.kind ≠ .cancel := ne_of_eq_of_ne hkind (by decide)
  have hdeposit : (s.assigned inbound).kind = .deposit := by
    rw [s.assigned_eq inbound]
    apply hkind
  rw [wal_of_lock hcancel hlock, replayAll, List.foldl_cons, List.foldl_nil,
    replay_of_deposit s hdeposit, s.assigned_eq inbound]

/-- If the message trades with nothing, the balances differ. -/
theorem accounts_ne_of_no_trade {report : ExecutionReport} {engine : MultiAssetEngine}
    (hkind : inbound.order.kind = .deposit)
    (hlock : s.risk.lockOrderFunds inbound.order = .ok risk)
    (hprocessed : s.processed inbound = (.ok report, engine, []))
    (hremaining : report.remainingQty = inbound.order.qty) :
  ¬ s.SameOnReplay inbound
  := by
  intro hsame
  have hcancel : inbound.order.kind ≠ .cancel := ne_of_eq_of_ne hkind (by decide)
  have hmarket : (s.assigned inbound).kind ≠ .market := by
    rw [s.assigned_eq inbound]
    change inbound.order.kind ≠ .market
    rw [hkind]
    decide
  have hlocked := RiskEngine.locked_of_ok hcancel hlock
  obtain ⟨sym, hsym⟩ := hlocked.exists_sym
  obtain ⟨a, haccount⟩ := hlocked.exists_account
  have hunlock : risk.unlockCancelledOrderMargin (s.assigned inbound) report.remainingQty
      = risk.unlockCancelledOrderMargin inbound.order inbound.order.qty := by
    rw [hremaining, s.assigned_eq inbound]
    rfl
  have hreplayed : (s.handle inbound).state.risk.accounts inbound.order.userId
      = some (a.credit inbound.order.price sym inbound.order.qty) := by
    rw [← hsame.accounts, replay_of_locked_deposit hkind hlock]
    apply RiskEngine.accounts_deposit_self hsym haccount
  rw [(handle_of_ok hcancel hlock hprocessed).1, RiskEngine.settleReport_nil _ hmarket,
    hunlock] at hreplayed
  have hassets := hlocked.assets hsym haccount
    (b := a.credit inbound.order.price sym inbound.order.qty) (by
      split at hreplayed
      · apply Or.inr hreplayed
      · apply Or.inl hreplayed)
  have hqty := hlocked.qty_ne
  simp only [Account.credit, Account.modifyAvailable, Function.update_self] at hassets
  rcases hassets with hassets | hassets <;> grind

/-- If the message trades, the books differ: the trades have taken their identifiers. -/
theorem books_ne_of_trade {E : Fin NUM_SYMBOLS → Layout} {sym : Fin NUM_SYMBOLS} {o : Order}
    {report : ExecutionReport} {engine : MultiAssetEngine} {trades : List Trade}
    (h : s.engine.HasLayouts E) (hkind : inbound.order.kind = .deposit)
    (hlock : s.risk.lockOrderFunds inbound.order = .ok risk)
    (hprocessed : s.processed inbound = (.ok report, engine, trades))
    (htrades : trades = ((E sym).fills o inbound.clientId).trades) (hne : trades ≠ [])
    (hengine : engine.HasLayouts (Function.update E sym ((E sym).taken o inbound.clientId))) :
  ¬ s.SameOnReplay inbound
  := by
  intro hsame
  have hcancel : inbound.order.kind ≠ .cancel := ne_of_eq_of_ne hkind (by decide)
  have hbooks := congrFun hsame.books sym
  rw [replay_of_locked_deposit hkind hlock, (handle_of_ok hcancel hlock hprocessed).1] at hbooks
  have hcounter := (hengine.hasLayout sym).tradeIdCounter_eq
  rw [Function.update_self] at hcounter
  have hid : (E sym).tradeIdCounter
      = (E sym).tradeIdCounter + UInt64.ofNat trades.length := by
    rw [htrades, ← (h.wellFormed sym).nextId_fills, ← (h.hasLayout sym).tradeIdCounter_eq]
    apply (congrArg OrderBook.tradeIdCounter hbooks).trans hcounter
  have hlen : trades.length ≤ MAX_ARENA_ORDERS := by
    rw [htrades]
    apply (h.hasLayout sym).length_trades_fills (h.wellFormed sym)
  have hpos := List.length_pos_of_ne_nil hne
  have hsum := congrArg UInt64.toNat hid
  have hlt := (E sym).tradeIdCounter.toNat_lt
  unfold MAX_ARENA_ORDERS at hlen
  rw [UInt64.toNat_add, UInt64.toNat_ofNat_of_lt' (by unfold UInt64.size; omega)] at hsum
  omega

/-- A deposit of a client means the same in the loop and on replay exactly if its account does
not cover it. -/
theorem sameOnReplay_iff (h : s.Reachable) (hkind : inbound.order.kind = .deposit) :
  s.SameOnReplay inbound ↔ ¬ s.risk.Covers inbound.order
  := by
  obtain ⟨E, hs⟩ := h.exists_sound
  have hcancel : inbound.order.kind ≠ .cancel := ne_of_eq_of_ne hkind (by decide)
  rw [RiskEngine.covers_iff hcancel]
  constructor
  · rintro hsame ⟨risk, hlock⟩
    obtain ⟨sym, hsym⟩ := (RiskEngine.locked_of_ok hcancel hlock).exists_sym
    obtain ⟨o, e', ho, hprocessed, he'⟩ := processed_of_deposit hs.layouts hkind hsym
    by_cases hnil : ((E sym).fills o inbound.clientId).trades = []
    · have hqty := (hs.layouts.wellFormed sym).tradedQty_fills o inbound.clientId
      rw [hnil, tradedQty_nil, Nat.zero_add, UInt64.toNat_inj] at hqty
      rw [hnil] at hprocessed
      refine accounts_ne_of_no_trade hkind hlock hprocessed ?_ hsame
      rw [Layout.report, hqty, ho]
    · exact books_ne_of_trade hs.layouts hkind hlock hprocessed rfl hnil he' hsame
  · intro hcover
    cases hlock : s.risk.lockOrderFunds inbound.order with
    | ok risk => exact absurd ⟨risk, hlock⟩ hcover
    | error reason =>
        have hhandle := handle_of_reject hcancel hlock
        constructor
        · rw [hhandle]
          rfl
        · rw [hhandle]
          rfl

/-- A deposit of `qty` units, at 100 dollars, from the client that has funded its account. -/
def depositMessage (qty : UInt64) : InboundMessage where
  order := Order.newDeposit 1 100 0 qty
  clientId := 7

/-- Twenty million units at 100 dollars are refused, and on replay the log has nothing of them. -/
theorem sameOnReplay_depositMessage :
  funded.SameOnReplay (depositMessage 20000000)
  := by
  have hrefused : ¬ funded.risk.Covers (depositMessage 20000000).order := by
    rw [RiskEngine.covers_iff (by decide)]
    rintro ⟨risk, hlock⟩
    have hisOk : (funded.risk.lockOrderFunds (depositMessage 20000000).order).isOk = false := by
      decide +kernel
    rw [hlock] at hisOk
    contradiction
  exact (sameOnReplay_iff (Reachable.new.deposit 1 1000000000 0 0) rfl).mpr hrefused

/-- Five units at 100 dollars are locked in the loop, and credited on replay. -/
theorem not_sameOnReplay_depositMessage :
  ¬ funded.SameOnReplay (depositMessage 5)
  := by
  intro hsame
  have hat := congrArg (Option.map Account.usdAvailable) (congrFun hsame.accounts 1)
  have hlive : ((funded.handle (depositMessage 5)).state.risk.accounts 1).map Account.usdAvailable
      = some 999999500 := by decide +kernel
  have hreplayed : ((funded.replayAll (funded.handle (depositMessage 5)).wal).risk.accounts 1).map
      Account.usdAvailable = some 1000000100 := by decide +kernel
  rw [hlive, hreplayed] at hat
  contradiction

end Exchange

end LimitOrderBook
