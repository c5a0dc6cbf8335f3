import LimitOrderBook.Margin
import LimitOrderBook.Priority

/-!
# Reachable states of the exchange

`HasLayouts` is the layout of an engine, one for each book, and `Exchange.Sound` adds what
ties the books to the accounts: an order rests in the book of its symbol, and its user has
an account.  Every state that funding, messages and replays lead to is sound
(`Reachable.exists_sound`).
-/

namespace LimitOrderBook

/-! ### The layout of the engine -/

namespace MultiAssetEngine

structure HasLayouts (e : MultiAssetEngine) (E : Fin NUM_SYMBOLS → Layout) : Prop where
  hasLayout : ∀ i, (e.books i).HasLayout (E i)
  wellFormed : ∀ i, (E i).WellFormed

variable {e : MultiAssetEngine} {E : Fin NUM_SYMBOLS → Layout} {sym : Fin NUM_SYMBOLS}

/-- The new engine has three empty layouts. -/
theorem hasLayouts_new :
  new.HasLayouts fun _ => Layout.new where
  hasLayout
    | 0 => OrderBook.HasLayout.new .btc
    | 1 => OrderBook.HasLayout.new .eth
    | 2 => OrderBook.HasLayout.new .sol
  wellFormed _ := Layout.wellFormed_new

@[simp]
theorem books_stampId (e : MultiAssetEngine) (o : Order) :
  (e.stampId o).2.books = e.books
  := by
  unfold stampId
  split <;> rfl

/-- Stamping an order changes its identifier only. -/
theorem stampId_fst (e : MultiAssetEngine) (o : Order) :
  (e.stampId o).1 = { o with id := (e.stampId o).1.id }
  := by
  unfold stampId
  split <;> rfl

@[simp]
theorem setBook_self (e : MultiAssetEngine) (sym : Fin NUM_SYMBOLS) :
  e.setBook sym (e.books sym) = e
  := by
  unfold setBook
  rw [Function.update_eq_self]

/-- An order for a listed symbol is processed by that symbol's book alone. -/
theorem process_of_sym {o : Order} (hsym : symIdx o.symbolId = some sym) (clientId : UInt64)
    (trades : List Trade) :
  e.process o clientId trades
    = (let res := (e.books sym).process (e.stampId o).1 clientId trades
      (res.1, (e.stampId o).2.setBook sym res.2.1, res.2.2))
  := by
  unfold process
  rw [hsym]
  dsimp only
  rw [books_stampId]

namespace HasLayouts

/-- Putting one laid-out book back leaves the engine laid out. -/
theorem setBook (h : e.HasLayouts E) {b : OrderBook} {L : Layout} (hb : b.HasLayout L)
    (hw : L.WellFormed) :
  (e.setBook sym b).HasLayouts (Function.update E sym L)
  := by
  constructor
  · intro i
    dsimp only [MultiAssetEngine.setBook]
    rcases eq_or_ne i sym with rfl | hi
    · rw [Function.update_self, Function.update_self]
      apply hb
    · rw [Function.update_of_ne hi, Function.update_of_ne hi]
      apply h.hasLayout
  · intro i
    rcases eq_or_ne i sym with rfl | hi
    · rw [Function.update_self]
      apply hw
    · rw [Function.update_of_ne hi]
      apply h.wellFormed

/-- The layouts do not depend on the counter. -/
theorem congr {e' : MultiAssetEngine} (h : e.HasLayouts E) (hbooks : e'.books = e.books) :
  e'.HasLayouts E
  := by
  constructor
  · rw [hbooks]
    apply h.hasLayout
  · apply h.wellFormed

/-- The engine processes an order as that symbol's layout does. -/
theorem process_eq (h : e.HasLayouts E) {o : Order} (hkind : o.kind ≠ .cancel)
    (hsym : symIdx o.symbolId = some sym) (clientId : UInt64) (trades : List Trade) :
  ∃ e', e.process o clientId trades
      = (((E sym).process (e.stampId o).1 clientId trades).1, e',
        ((E sym).process (e.stampId o).1 clientId trades).2.2)
    ∧ e'.HasLayouts
      (Function.update E sym ((E sym).process (e.stampId o).1 clientId trades).2.1)
  := by
  have hkind' : (e.stampId o).1.kind ≠ .cancel := by
    rw [stampId_fst]
    apply hkind
  obtain ⟨b', heq, h'⟩ :=
    (h.hasLayout sym).process_eq (h.wellFormed sym) hkind' clientId trades
  have hw' := (h.wellFormed sym).process (e.stampId o).1 clientId trades
  rw [process_of_sym hsym, heq]
  exact ⟨_, rfl, (h.congr (books_stampId e o)).setBook h' hw'⟩

/-- A cancel fails and changes nothing, or it takes out an order it may take out. -/
theorem cancelOrder_cases (h : e.HasLayouts E) (symbolId : UInt16) (u k : UInt64) :
  (∃ reason, e.cancelOrder symbolId u k = (.error reason, e)
      ∧ ∀ sym entry, symIdx symbolId = some sym → (E sym).findEntry u k = .ok entry →
        entry.userId ≠ u)
    ∨ ∃ (sym : Fin NUM_SYMBOLS) (pl : (E sym).Place) (e' : MultiAssetEngine),
      symIdx symbolId = some sym ∧ (E sym).findEntry u k = .ok pl.order.entry
        ∧ pl.order.order.userId = u
        ∧ e.cancelOrder symbolId u k = (.ok pl.order.order, e')
        ∧ e'.HasLayouts (Function.update E sym ((E sym).remove pl))
        ∧ e'.globalOrderIdCounter = e.globalOrderIdCounter
  := by
  unfold cancelOrder
  cases hsym : symIdx symbolId with
  | none => exact Or.inl ⟨_, rfl, fun _ _ h => nomatch h⟩
  | some sym =>
      dsimp only
      rcases (h.hasLayout sym).cancelOrder_cases (h.wellFormed sym) u k with
        ⟨reason, heq, hfind⟩ | ⟨pl, b', hfind, huser, heq, h'⟩
      · rw [heq]
        dsimp only
        rw [setBook_self]
        refine Or.inl ⟨reason, rfl, ?_⟩
        rintro _ entry heq
        obtain rfl := Option.some.inj heq
        apply hfind entry
      · rw [heq]
        exact Or.inr ⟨sym, pl, _, rfl, hfind, huser, rfl,
          h.setBook h' ((h.wellFormed sym).remove pl), rfl⟩

end HasLayouts

end MultiAssetEngine

/-! ### One round of the loop -/

namespace Exchange

/-- What the engine answers to an order whose margin is locked. -/
def processed (s : Exchange) (inbound : InboundMessage) :
    Except RejectReason ExecutionReport × MultiAssetEngine × List Trade :=
  (assignId s.engine inbound.order).2.process (assignId s.engine inbound.order).1
    inbound.clientId []

/-- The order as it reaches the log and the engine. -/
def assigned (s : Exchange) (inbound : InboundMessage) : Order :=
  (assignId s.engine inbound.order).1

variable {s : Exchange} {inbound : InboundMessage}

/-- The identifier an order goes by in the engine. -/
def exchangeId (s : Exchange) (inbound : InboundMessage) : UInt64 :=
  ((assignId s.engine inbound.order).2.stampId (s.assigned inbound)).1.id

/-- Assigning an identifier changes nothing else of an order. -/
theorem assigned_eq (s : Exchange) (inbound : InboundMessage) :
  s.assigned inbound = { inbound.order with id := (s.assigned inbound).id }
  := by
  unfold assigned assignId
  split <;> rfl

@[simp]
theorem books_assignId (e : MultiAssetEngine) (o : Order) :
  (assignId e o).2.books = e.books
  := by
  unfold assignId
  split <;> rfl

/-- A refused order changes nothing and is answered by one rejection. -/
theorem handle_of_reject (hkind : inbound.order.kind ≠ .cancel) {reason : RejectReason}
    (hlock : s.risk.lockOrderFunds inbound.order = .error reason) :
  s.handle inbound
    = { state := s, wal := [], events := [rejection inbound.clientId inbound.order reason],
        trades := [] }
  := by
  rw [handle, if_neg hkind, handleOrder, hlock]

/-- An accepted order is logged, settled and answered. -/
theorem handle_of_ok (hkind : inbound.order.kind ≠ .cancel) {risk : RiskEngine}
    {report : ExecutionReport} {engine : MultiAssetEngine} {trades : List Trade}
    (hlock : s.risk.lockOrderFunds inbound.order = .ok risk)
    (hprocessed : s.processed inbound = (.ok report, engine, trades)) :
  (s.handle inbound).state
      = ⟨engine, MultiAssetEngine.settleReport risk (s.assigned inbound) report trades⟩
    ∧ (s.handle inbound).wal = [s.assigned inbound] ∧ (s.handle inbound).trades = trades
  := by
  unfold processed at hprocessed
  unfold assigned
  rw [handle, if_neg hkind, handleOrder, hlock]
  dsimp only
  rw [hprocessed]
  exact ⟨rfl, rfl, rfl⟩

/-- An order the engine refuses has its margin given back and is answered by one rejection. -/
theorem handle_of_error (hkind : inbound.order.kind ≠ .cancel) {risk : RiskEngine}
    {reason : RejectReason} {engine : MultiAssetEngine} {trades : List Trade}
    (hlock : s.risk.lockOrderFunds inbound.order = .ok risk)
    (hprocessed : s.processed inbound = (.error reason, engine, trades)) :
  (s.handle inbound).state
      = ⟨engine, risk.unlockCancelledOrderMargin (s.assigned inbound) inbound.order.qty⟩
    ∧ (s.handle inbound).wal = [s.assigned inbound] ∧ (s.handle inbound).trades = trades
  := by
  have hqty : (s.assigned inbound).qty = inbound.order.qty := by
    rw [assigned_eq]
  unfold processed at hprocessed
  unfold assigned at hqty ⊢
  rw [handle, if_neg hkind, handleOrder, hlock]
  dsimp only
  rw [hprocessed]
  dsimp only
  rw [hqty]
  exact ⟨rfl, rfl, rfl⟩

/-- The loop logs an order whose margin is locked, whatever the engine answers. -/
theorem wal_of_lock (hkind : inbound.order.kind ≠ .cancel) {risk : RiskEngine}
    (hlock : s.risk.lockOrderFunds inbound.order = .ok risk) :
  (s.handle inbound).wal = [s.assigned inbound]
  := by
  rcases hprocessed : s.processed inbound with ⟨_ | _, engine, trades⟩
  · apply (handle_of_error hkind hlock hprocessed).2.1
  · apply (handle_of_ok hkind hlock hprocessed).2.1

/-- The live engine stamps the order and processes it as the symbol's layout does. -/
theorem processed_eq {E : Fin NUM_SYMBOLS → Layout} {sym : Fin NUM_SYMBOLS}
    (h : s.engine.HasLayouts E) (hkind : inbound.order.kind ≠ .cancel)
    (hsym : symIdx inbound.order.symbolId = some sym) :
  ∃ o e', o = { inbound.order with id := s.exchangeId inbound }
    ∧ s.processed inbound = (((E sym).process o inbound.clientId []).1, e',
      ((E sym).process o inbound.clientId []).2.2)
    ∧ e'.HasLayouts (Function.update E sym ((E sym).process o inbound.clientId []).2.1)
  := by
  have hassigned := s.assigned_eq inbound
  unfold assigned at hassigned
  have hkind' : (assignId s.engine inbound.order).1.kind ≠ .cancel := by
    rw [hassigned]
    apply hkind
  have hsym' : symIdx (assignId s.engine inbound.order).1.symbolId = some sym := by
    rw [hassigned]
    apply hsym
  have h' := h.congr (books_assignId s.engine inbound.order)
  obtain ⟨e', heq, h''⟩ := h'.process_eq hkind' hsym' inbound.clientId []
  refine ⟨_, e', ?_, heq, h''⟩
  rw [MultiAssetEngine.stampId_fst]
  unfold exchangeId assigned assignId
  split <;> rfl

/-- The engine takes no order without an identifier. -/
theorem exchangeId_ne_zero (s : Exchange) (inbound : InboundMessage) :
  s.exchangeId inbound ≠ 0
  := by
  unfold exchangeId assigned MultiAssetEngine.stampId
  split
  · next hid =>
      unfold assignId at hid ⊢
      split at hid
      · next hin =>
          -- the counter has come round, and the engine stamps the order once more
          have hzero : s.engine.globalOrderIdCounter = 0 := hid
          rw [if_pos hin]
          dsimp only [MultiAssetEngine.nextOrderId]
          rw [hzero]
          decide
      · next hin => exact absurd hid hin
  · next hid => apply hid

/-! ### The replay of one record -/

variable {record : Order}

/-- A logged deposit is replayed as a deposit. -/
theorem replay_of_deposit (s : Exchange) (hkind : record.kind = .deposit) :
  s.replay record = s.deposit record.userId record.price record.symbolId record.qty
  := by
  unfold replay MultiAssetEngine.replayOrder
  rw [if_pos hkind]
  rfl

/-- A logged cancel that finds its order unlocks what was left of it. -/
theorem replay_of_cancel (s : Exchange) (hkind : record.kind = .cancel) {cancelled : Order}
    {engine : MultiAssetEngine}
    (hcancel : s.engine.cancelOrder record.symbolId record.userId record.id
      = (.ok cancelled, engine)) :
  s.replay record = ⟨engine, s.risk.unlockCancelledOrderMargin cancelled cancelled.qty⟩
  := by
  have hsym : symIdx record.symbolId ≠ none := by
    intro hsym
    rw [MultiAssetEngine.cancelOrder, hsym] at hcancel
    cases hcancel
  have hdeposit : record.kind ≠ .deposit := ne_of_eq_of_ne hkind (by decide)
  unfold replay MultiAssetEngine.replayOrder
  rw [if_neg hdeposit, if_neg hsym, if_pos hkind, hcancel]

/-- A logged cancel that finds no order is skipped on replay. -/
theorem replay_of_no_cancel (s : Exchange) (hkind : record.kind = .cancel)
    {reason : RejectReason}
    (hcancel : s.engine.cancelOrder record.symbolId record.userId record.id
      = (.error reason, s.engine)) :
  s.replay record = s
  := by
  have hdeposit : record.kind ≠ .deposit := ne_of_eq_of_ne hkind (by decide)
  unfold replay MultiAssetEngine.replayOrder
  rw [if_neg hdeposit]
  by_cases hsym : symIdx record.symbolId = none
  · rw [if_pos hsym]
  · rw [if_neg hsym, if_pos hkind, hcancel]

/-- A logged order whose margin cannot be locked is skipped on replay. -/
theorem replay_of_reject (s : Exchange) (hdeposit : record.kind ≠ .deposit)
    (hcancel : record.kind ≠ .cancel) {reason : RejectReason}
    (hlock : s.risk.lockOrderFunds record = .error reason) :
  s.replay record = s
  := by
  unfold replay MultiAssetEngine.replayOrder
  rw [if_neg hdeposit]
  by_cases hsym : symIdx record.symbolId = none
  · rw [if_pos hsym]
  · rw [if_neg hsym, if_neg hcancel, hlock]

/-- The replay of an order whose margin is locked: it is settled if the engine takes it, and
its margin stays locked if not. -/
theorem replay_of_lock (s : Exchange) (hdeposit : record.kind ≠ .deposit)
    (hcancel : record.kind ≠ .cancel) {risk : RiskEngine}
    (hlock : s.risk.lockOrderFunds record = .ok risk) :
  s.replay record
    = ⟨(s.engine.process record 0 []).2.1,
      match (s.engine.process record 0 []).1 with
      | .ok report => MultiAssetEngine.settleReport risk record report
          (s.engine.process record 0 []).2.2
      | .error _ => risk⟩
  := by
  obtain ⟨sym, hsym⟩ := (RiskEngine.locked_of_ok hcancel hlock).exists_sym
  unfold replay MultiAssetEngine.replayOrder
  rw [if_neg hdeposit, if_neg (by simp [hsym]), if_neg hcancel, hlock]
  dsimp only
  obtain ⟨_ | _, engine, trades⟩ := s.engine.process record 0 [] <;> rfl

/-! ### Soundness -/

/-- The books have layouts, every order rests in the book of its symbol, and its user has an
account. -/
structure Sound (s : Exchange) (E : Fin NUM_SYMBOLS → Layout) : Prop where
  layouts : s.engine.HasLayouts E
  symbol_eq : ∀ i side, ∀ r ∈ (E i).resting side, symIdx r.order.symbolId = some i
  account : ∀ i side, ∀ r ∈ (E i).resting side, (s.risk.accounts r.order.userId).isSome

/-- The states that funding, messages and replays lead to. -/
inductive Reachable : Exchange → Prop where
  | new : Reachable Exchange.new
  | deposit {s : Exchange} (h : Reachable s) (userId usd : UInt64) (symbolId : UInt16)
      (assetQty : UInt64) : Reachable (s.deposit userId usd symbolId assetQty)
  | handle {s : Exchange} (h : Reachable s) (inbound : InboundMessage) :
      Reachable (s.handle inbound).state
  | replay {s : Exchange} (h : Reachable s) (record : Order) : Reachable (s.replay record)

namespace Sound

variable {E : Fin NUM_SYMBOLS → Layout} {sym : Fin NUM_SYMBOLS}

/-- The accounts may change in any way that keeps them. -/
theorem risk {risk : RiskEngine} (h : s.Sound E)
    (hrisk : ∀ u, (s.risk.accounts u).isSome → (risk.accounts u).isSome) :
  Sound ⟨s.engine, risk⟩ E where
  layouts := h.layouts
  symbol_eq := h.symbol_eq
  account i side r hr := hrisk _ (h.account i side r hr)

/-- One book changes, and what rests there rested before or has the symbol of the book and
a user with an account. -/
theorem update {e' : MultiAssetEngine} {risk : RiskEngine} {L : Layout} (h : s.Sound E)
    (hrisk : ∀ u, (s.risk.accounts u).isSome → (risk.accounts u).isSome)
    (he' : e'.HasLayouts (Function.update E sym L))
    (hL : ∀ side, ∀ r ∈ L.resting side,
      symIdx r.order.symbolId = some sym ∧ (risk.accounts r.order.userId).isSome) :
  Sound ⟨e', risk⟩ (Function.update E sym L)
  := by
  have hall : ∀ i side, ∀ r ∈ (Function.update E sym L i).resting side,
      symIdx r.order.symbolId = some i ∧ (risk.accounts r.order.userId).isSome := by
    intro i side r hr
    rcases eq_or_ne i sym with rfl | hi
    · rw [Function.update_self] at hr
      apply hL side r hr
    · rw [Function.update_of_ne hi] at hr
      exact ⟨h.symbol_eq i side r hr, hrisk _ (h.account i side r hr)⟩
  exact ⟨he', fun i side r hr => (hall i side r hr).1, fun i side r hr => (hall i side r hr).2⟩

/-- Taking an order out of its book keeps the exchange sound. -/
theorem removed {e' : MultiAssetEngine} {risk : RiskEngine} (h : s.Sound E)
    (hrisk : ∀ u, (s.risk.accounts u).isSome → (risk.accounts u).isSome)
    (pl : (E sym).Place) (he' : e'.HasLayouts (Function.update E sym ((E sym).remove pl))) :
  Sound ⟨e', risk⟩ (Function.update E sym ((E sym).remove pl))
  := by
  apply h.update hrisk he'
  intro side r hr
  have hr' := Layout.mem_resting_remove hr
  exact ⟨h.symbol_eq sym side r hr', hrisk _ (h.account sym side r hr')⟩

/-- Processing an accepted order keeps the exchange sound. -/
theorem processed {e' : MultiAssetEngine} {risk : RiskEngine} (h : s.Sound E)
    (hrisk : ∀ u, (s.risk.accounts u).isSome → (risk.accounts u).isSome) {o : Order}
    (hsym : symIdx o.symbolId = some sym) (haccount : (s.risk.accounts o.userId).isSome)
    (clientId : UInt64) (trades : List Trade)
    (he' : e'.HasLayouts (Function.update E sym ((E sym).process o clientId trades).2.1)) :
  Sound ⟨e', risk⟩ (Function.update E sym ((E sym).process o clientId trades).2.1)
  := by
  apply h.update hrisk he'
  intro side r hr
  have hw := h.layouts.wellFormed sym
  rcases ((E sym).process_cases o clientId trades).mem_resting hw hr with
    ⟨r₀, hr₀, rfl | ⟨qty, rfl⟩⟩ | ⟨-, -, heq⟩
  · exact ⟨h.symbol_eq sym side _ hr₀, hrisk _ (h.account sym side _ hr₀)⟩
  · exact ⟨h.symbol_eq sym side r₀ hr₀, hrisk _ (h.account sym side r₀ hr₀)⟩
  · rw [heq, Layout.taker_fills]
    exact ⟨hsym, hrisk _ haccount⟩

/-- A round of the loop keeps an exchange sound. -/
theorem handle (h : s.Sound E) (inbound : InboundMessage) :
  ∃ E', Sound (s.handle inbound).state E'
  := by
  by_cases hkind : inbound.order.kind = .cancel
  · rw [Exchange.handle, if_pos hkind, handleCancel]
    rcases h.layouts.cancelOrder_cases inbound.order.symbolId inbound.order.userId
      inbound.order.id with ⟨reason, heq, -⟩ | ⟨sym, pl, e', -, -, -, heq, he', -⟩
    · rw [heq]
      exact ⟨E, h⟩
    · rw [heq]
      refine ⟨_, h.removed ?_ pl he'⟩
      intro u hu
      rw [RiskEngine.unlockCancelledOrderMargin, RiskEngine.isSome_unlockOrderFunds]
      apply hu
  · cases hlock : s.risk.lockOrderFunds inbound.order with
    | error reason =>
        rw [handle_of_reject hkind hlock]
        exact ⟨E, h⟩
    | ok risk =>
        have hlocked := RiskEngine.locked_of_ok hkind hlock
        obtain ⟨sym, hsym⟩ := hlocked.exists_sym
        obtain ⟨a, haccount⟩ := hlocked.exists_account
        obtain ⟨o, e', ho, heq, he'⟩ := processed_eq h.layouts hkind hsym
        have hsym' : symIdx o.symbolId = some sym := by
          rw [ho]
          apply hsym
        have haccount' : (s.risk.accounts o.userId).isSome := by
          rw [ho, haccount]
          rfl
        cases hres : ((E sym).process o inbound.clientId []).1 with
        | ok report =>
            rw [hres] at heq
            rw [(handle_of_ok hkind hlock heq).1]
            refine ⟨_, h.processed ?_ hsym' haccount' _ _ he'⟩
            intro u hu
            rw [RiskEngine.isSome_settleReport, hlocked.isSome]
            apply hu
        | error reason =>
            rw [hres] at heq
            rw [(handle_of_error hkind hlock heq).1]
            refine ⟨_, h.processed ?_ hsym' haccount' _ _ he'⟩
            intro u hu
            rw [RiskEngine.unlockCancelledOrderMargin, RiskEngine.isSome_unlockOrderFunds,
              hlocked.isSome]
            apply hu

/-- The replay of a record keeps an exchange sound. -/
theorem replay (h : s.Sound E) (record : Order) :
  ∃ E', Sound (s.replay record) E'
  := by
  by_cases hdeposit : record.kind = .deposit
  · rw [replay_of_deposit s hdeposit]
    exact ⟨E, h.risk fun u hu => RiskEngine.isSome_deposit _ _ _ _ _ hu⟩
  by_cases hcancel : record.kind = .cancel
  · rcases h.layouts.cancelOrder_cases record.symbolId record.userId record.id with
      ⟨reason, heq, -⟩ | ⟨sym, pl, e', -, -, -, heq, he', -⟩
    · rw [replay_of_no_cancel s hcancel heq]
      exact ⟨E, h⟩
    · rw [replay_of_cancel s hcancel heq]
      refine ⟨_, h.removed ?_ pl he'⟩
      intro u hu
      rw [RiskEngine.unlockCancelledOrderMargin, RiskEngine.isSome_unlockOrderFunds]
      apply hu
  · cases hlock : s.risk.lockOrderFunds record with
    | error reason =>
        rw [replay_of_reject s hdeposit hcancel hlock]
        exact ⟨E, h⟩
    | ok risk =>
        have hlocked := RiskEngine.locked_of_ok hcancel hlock
        obtain ⟨sym, hsym⟩ := hlocked.exists_sym
        obtain ⟨a, haccount⟩ := hlocked.exists_account
        obtain ⟨e', heq, he'⟩ := h.layouts.process_eq hcancel hsym 0 []
        have hstamp := s.engine.stampId_fst record
        rw [replay_of_lock s hdeposit hcancel hlock, heq]
        refine ⟨_, h.processed ?_ ?_ ?_ _ _ he'⟩
        · intro u hu
          dsimp only
          split
          · rw [RiskEngine.isSome_settleReport, hlocked.isSome]
            apply hu
          · rw [hlocked.isSome]
            apply hu
        · rw [hstamp]
          apply hsym
        · rw [hstamp, haccount]
          rfl

end Sound

/-- A run of one more message. -/
theorem run_concat (s : Exchange) (inbounds : List InboundMessage) (inbound : InboundMessage) :
  (s.run (inbounds ++ [inbound])).state = ((s.run inbounds).state.handle inbound).state
    ∧ (s.run (inbounds ++ [inbound])).wal
      = (s.run inbounds).wal ++ ((s.run inbounds).state.handle inbound).wal
    ∧ (s.run (inbounds ++ [inbound])).trades
      = (s.run inbounds).trades ++ ((s.run inbounds).state.handle inbound).trades
  := by
  induction inbounds generalizing s with
  | nil => simp [run]
  | cons first rest ih =>
      obtain ⟨hstate, hwal, htrades⟩ := ih (s.handle first).state
      simp only [List.cons_append, run, List.append_assoc]
      rw [hstate, hwal, htrades]
      exact ⟨rfl, rfl, rfl⟩

/-- A run goes from reachable state to reachable state. -/
theorem Reachable.run (h : s.Reachable) (inbounds : List InboundMessage) :
  (s.run inbounds).state.Reachable
  := by
  induction inbounds generalizing s with
  | nil => apply h
  | cons first rest ih => apply ih (h.handle first)

/-- Every reachable exchange is sound over some layouts. -/
theorem Reachable.exists_sound (h : s.Reachable) :
  ∃ E, s.Sound E
  := by
  induction h with
  | new =>
      refine ⟨_, MultiAssetEngine.hasLayouts_new, ?_, ?_⟩ <;>
        simp [Layout.resting, Layout.new]
  | deposit _ userId usd symbolId assetQty ih =>
      obtain ⟨E, h⟩ := ih
      exact ⟨E, h.risk fun u hu => RiskEngine.isSome_deposit _ _ _ _ _ hu⟩
  | handle _ inbound ih =>
      obtain ⟨E, h⟩ := ih
      apply h.handle
  | replay _ record ih =>
      obtain ⟨E, h⟩ := ih
      apply h.replay

/-- An exchange that is sound in some layout: one to which nothing has been done but through its
operations, whatever its counter. -/
def Operable (s : Exchange) : Prop := ∃ E, s.Sound E

/-- Every reachable exchange is operable. -/
theorem Reachable.operable (h : s.Reachable) :
  s.Operable
  := h.exists_sound

/-- A run keeps the exchange operable. -/
theorem Operable.run (h : s.Operable) (inbounds : List InboundMessage) :
  (s.run inbounds).state.Operable
  := by
  induction inbounds generalizing s with
  | nil => apply h
  | cons first rest ih =>
      obtain ⟨E, hs⟩ := h
      apply ih (hs.handle first)

/-- A replay keeps the exchange operable. -/
theorem Operable.replayAll (h : s.Operable) (records : List Order) :
  (s.replayAll records).Operable
  := by
  induction records generalizing s with
  | nil => apply h
  | cons record records ih =>
      obtain ⟨E, hs⟩ := h
      apply ih (hs.replay record)

end Exchange

end LimitOrderBook
