import LimitOrderBook.Replay

/-!
# What one round does

`Exchange.Outcome` lists what a round of the loop can do to the books of an engine that has
layouts, with all that it logs, sends out and settles.  Each round is one of these
(`exists_outcome`), so what is said of all runs is proved by cases.
-/

namespace LimitOrderBook

/-- The reject reasons have distinct bytes. -/
theorem RejectReason.toByte_inj {r r' : RejectReason} :
  r.toByte = r'.toByte ↔ r = r'
  := by
  cases r <;> cases r' <;> decide

/-- A cancel that fails has found no order, or an order of another user. -/
theorem OrderBook.reason_of_cancelOrder {b : OrderBook} {u k : UInt64} {reason : RejectReason}
    (h : (b.cancelOrder u k).1 = .error reason) :
  reason = .orderNotFound ∨ reason = .unauthorized
  := by
  unfold OrderBook.cancelOrder at h
  split at h
  · next e hfind =>
      left
      obtain rfl := Except.error.inj h
      unfold OrderBook.findEntry at hfind
      split at hfind
      · cases hfind
      · split at hfind
        · split at hfind
          · cases hfind
          · exact (Except.error.inj hfind).symm
        · exact (Except.error.inj hfind).symm
  · split at h
    · exact Or.inr (Except.error.inj h).symm
    · dsimp only at h
      split at h
      · exact Or.inl (Except.error.inj h).symm
      · cases h

/-- A cancel fails for an unknown id, a foreign order or an unlisted symbol only. -/
theorem MultiAssetEngine.reason_of_cancelOrder {e : MultiAssetEngine} {symbolId : UInt16}
    {u k : UInt64} {reason : RejectReason} (h : (e.cancelOrder symbolId u k).1 = .error reason) :
  reason = .orderNotFound ∨ reason = .unauthorized ∨ reason = .invalidOrder
  := by
  unfold MultiAssetEngine.cancelOrder at h
  split at h
  · exact Or.inr (Or.inr (Except.error.inj h).symm)
  · rcases OrderBook.reason_of_cancelOrder h with hreason | hreason
    · exact Or.inl hreason
    · exact Or.inr (Or.inl hreason)

/-- The margin of an order is refused without a look at the books. -/
theorem RiskEngine.reason_of_lockOrderFunds {r : RiskEngine} {o : Order} {reason : RejectReason}
    (h : r.lockOrderFunds o = .error reason) :
  reason = .invalidOrder ∨ reason = .unauthorized ∨ reason = .insufficientFunds
  := by
  unfold lockOrderFunds at h
  repeat' split at h
  all_goals first
    | exact Or.inl (Except.error.inj h).symm
    | exact Or.inr (Or.inl (Except.error.inj h).symm)
    | exact Or.inr (Or.inr (Except.error.inj h).symm)
    | cases h

/-- One round after another. -/
def Round.andThen (first second : Round) : Round where
  state := second.state
  wal := first.wal ++ second.wal
  events := first.events ++ second.events
  trades := first.trades ++ second.trades

namespace Exchange

variable {s : Exchange} {E : Fin NUM_SYMBOLS → Layout} {inbound : InboundMessage}

/-- The acknowledgement of an order. -/
def acknowledgement (clientId : UInt64) (order : Order) : OutboundEvent :=
  .clientAck clientId
    (ServerMessage.ack order.id order.clientOrderId order.userId order.symbolId.toUInt8)

/-- The answer to a cancel that has taken out an order. -/
def cancellation (inbound : InboundMessage) (cancelled : Order) : OutboundEvent :=
  .clientCancelOk inbound.clientId
    (ServerMessage.cancelOk cancelled.id cancelled.clientOrderId inbound.order.userId
      inbound.order.symbolId.toUInt8 cancelled.qty)

/-- The rejection of what self-trade prevention has cancelled of an order. -/
def prevention (clientId : UInt64) (order : Order) (report : ExecutionReport) :
    List OutboundEvent :=
  if report.stpTriggered ∧ 0 < report.remainingQty then
    [rejection clientId order .selfTradePrevented]
  else
    []

/-- The one report of a prevented self-trade is the rejection of the incoming order. -/
theorem eq_of_mem_prevention {clientId : UInt64} {order : Order} {report : ExecutionReport}
    {event : OutboundEvent} (h : event ∈ prevention clientId order report) :
  event = rejection clientId order .selfTradePrevented ∧ report.stpTriggered = true
    ∧ 0 < report.remainingQty
  := by
  unfold prevention at h
  split at h
  · next hstp => exact ⟨List.mem_singleton.mp h, hstp⟩
  · cases h

theorem exists_of_mem_bboEvents {engine : MultiAssetEngine} {symbolId : UInt16}
    {event : OutboundEvent} (h : event ∈ bboEvents engine symbolId) :
  ∃ msg, event = .bboBroadcast msg
  := by
  unfold bboEvents at h
  split at h
  · cases h
  · exact ⟨_, List.mem_singleton.mp h⟩

/-- The outcomes of a round: a cancel fails, or takes out an order; the margin of an order is
refused; or the engine takes the order, or refuses it. -/
inductive Outcome (s : Exchange) (E : Fin NUM_SYMBOLS → Layout) (inbound : InboundMessage) :
    Round → (Fin NUM_SYMBOLS → Layout) → Prop where
  | notCancelled {reason : RejectReason} (hkind : inbound.order.kind = .cancel)
      (hreason : reason = .orderNotFound ∨ reason = .unauthorized ∨ reason = .invalidOrder) :
      Outcome s E inbound
        { state := s
          wal := []
          events := [rejection inbound.clientId inbound.order reason]
          trades := [] }
        E
  | cancelled {sym : Fin NUM_SYMBOLS} {engine : MultiAssetEngine}
      (hkind : inbound.order.kind = .cancel) (hsym : symIdx inbound.order.symbolId = some sym)
      (pl : (E sym).Place) (huser : pl.order.order.userId = inbound.order.userId)
      (hengine : engine.HasLayouts (Function.update E sym ((E sym).remove pl)))
      (hcounter : engine.globalOrderIdCounter = s.engine.globalOrderIdCounter) :
      Outcome s E inbound
        { state :=
            { engine := engine
              risk := s.risk.unlockCancelledOrderMargin pl.order.order pl.order.order.qty }
          wal := [inbound.order]
          events := [cancellation inbound pl.order.order]
          trades := [] }
        (Function.update E sym ((E sym).remove pl))
  | unfunded {reason : RejectReason} (hkind : inbound.order.kind ≠ .cancel)
      (hlock : s.risk.lockOrderFunds inbound.order = .error reason) :
      Outcome s E inbound
        { state := s
          wal := []
          events := [rejection inbound.clientId inbound.order reason]
          trades := [] }
        E
  | taken {sym : Fin NUM_SYMBOLS} {risk : RiskEngine} {engine : MultiAssetEngine} {o : Order}
      {report : ExecutionReport} (hkind : inbound.order.kind ≠ .cancel)
      (hlock : s.risk.lockOrderFunds inbound.order = .ok risk)
      (hsym : symIdx inbound.order.symbolId = some sym)
      (ho : o = { inbound.order with id := s.exchangeId inbound })
      (hok : ((E sym).process o inbound.clientId []).1 = .ok report)
      (hengine : engine.HasLayouts
        (Function.update E sym ((E sym).process o inbound.clientId []).2.1)) :
      Outcome s E inbound
        { state :=
            { engine := engine
              risk := MultiAssetEngine.settleReport risk (s.assigned inbound) report
                ((E sym).fills o inbound.clientId).trades }
          wal := [s.assigned inbound]
          events := acknowledgement inbound.clientId (s.assigned inbound)
            :: ((E sym).fills o inbound.clientId).trades.map fillEvent
              ++ prevention inbound.clientId (s.assigned inbound) report
              ++ bboEvents engine (s.assigned inbound).symbolId
          trades := ((E sym).fills o inbound.clientId).trades }
        (Function.update E sym ((E sym).process o inbound.clientId []).2.1)
  | refused {sym : Fin NUM_SYMBOLS} {risk : RiskEngine} {engine : MultiAssetEngine} {o : Order}
      {reason : RejectReason} (hkind : inbound.order.kind ≠ .cancel)
      (hlock : s.risk.lockOrderFunds inbound.order = .ok risk)
      (hsym : symIdx inbound.order.symbolId = some sym)
      (ho : o = { inbound.order with id := s.exchangeId inbound })
      (herror : ((E sym).process o inbound.clientId []).1 = .error reason)
      (hengine : engine.HasLayouts
        (Function.update E sym ((E sym).process o inbound.clientId []).2.1)) :
      Outcome s E inbound
        { state :=
            { engine := engine
              risk := risk.unlockCancelledOrderMargin (s.assigned inbound) (s.assigned inbound).qty }
          wal := [s.assigned inbound]
          events := [acknowledgement inbound.clientId (s.assigned inbound),
            rejection inbound.clientId (s.assigned inbound) reason]
          trades := [] }
        (Function.update E sym ((E sym).process o inbound.clientId []).2.1)

/-- The layouts after a round are those of its engine. -/
theorem Outcome.hasLayouts {round : Round} {E' : Fin NUM_SYMBOLS → Layout}
    (h : s.Outcome E inbound round E') (hlayouts : s.engine.HasLayouts E) :
  round.state.engine.HasLayouts E'
  := by
  cases h with
  | notCancelled | unfunded => apply hlayouts
  | cancelled _ _ _ _ hengine => apply hengine
  | taken _ _ _ _ _ hengine => apply hengine
  | refused _ _ _ _ _ hengine => apply hengine

/-- Handling a message is always one of the outcomes. -/
theorem exists_outcome (h : s.engine.HasLayouts E) (inbound : InboundMessage) :
  ∃ E', s.Outcome E inbound (s.handle inbound) E'
  := by
  by_cases hkind : inbound.order.kind = .cancel
  · rw [handle, if_pos hkind, handleCancel]
    rcases h.cancelOrder_cases inbound.order.symbolId inbound.order.userId inbound.order.id with
      ⟨reason, heq, -⟩ | ⟨sym, pl, engine, hsym, -, huser, heq, hengine, hcounter⟩
    · have hreason := MultiAssetEngine.reason_of_cancelOrder (congrArg Prod.fst heq)
      rw [heq]
      exact ⟨E, .notCancelled hkind hreason⟩
    · rw [heq]
      exact ⟨_, .cancelled hkind hsym pl huser hengine hcounter⟩
  · cases hlock : s.risk.lockOrderFunds inbound.order with
    | error reason =>
        rw [handle_of_reject hkind hlock]
        exact ⟨E, .unfunded hkind hlock⟩
    | ok risk =>
        obtain ⟨sym, hsym⟩ := (RiskEngine.locked_of_ok hkind hlock).exists_sym
        obtain ⟨o, engine, ho, heq, hengine⟩ := processed_eq h hkind hsym
        rw [Layout.trades_process, List.nil_append] at heq
        unfold processed at heq
        rw [handle, if_neg hkind, handleOrder, hlock]
        dsimp only
        rw [heq]
        cases hres : ((E sym).process o inbound.clientId []).1 with
        | ok report =>
            exact ⟨_, .taken hkind hlock hsym ho hres hengine⟩
        | error reason =>
            have hnone := Layout.fills_trades_of_error (h.wellFormed sym) hres
            rw [hnone]
            exact ⟨_, .refused hkind hlock hsym ho hres hengine⟩

/-! ### Runs -/

/-- The last message of a run is handled in the state the others left. -/
theorem run_concat_eq (s : Exchange) (inbounds : List InboundMessage) (inbound : InboundMessage) :
  s.run (inbounds ++ [inbound])
    = (s.run inbounds).andThen ((s.run inbounds).state.handle inbound)
  := by
  induction inbounds generalizing s with
  | nil => simp [run, Round.andThen]
  | cons first rest ih => simp [run, ih, Round.andThen]

/-- The rule for runs: what holds at the start and is kept by each outcome of a round holds after
a run. -/
theorem run_outcomes {P : List InboundMessage → Round → (Fin NUM_SYMBOLS → Layout) → Prop}
    (h : s.engine.HasLayouts E) {inbounds : List InboundMessage} (hnil : P [] (s.run []) E)
    (hconcat : ∀ earlier inbound E₁ round E₂, earlier ++ [inbound] <+: inbounds →
      (s.run earlier).state.engine.HasLayouts E₁ → (s.run earlier).state.handle inbound = round →
      (s.run earlier).state.Outcome E₁ inbound round E₂ → P earlier (s.run earlier) E₁ →
      P (earlier ++ [inbound]) ((s.run earlier).andThen round) E₂) :
  ∃ E', (s.run inbounds).state.engine.HasLayouts E' ∧ P inbounds (s.run inbounds) E'
  := by
  induction inbounds using List.reverseRecOn with
  | nil => exact ⟨E, h, hnil⟩
  | append_singleton earlier inbound ih =>
      obtain ⟨E₁, hlayouts, hearlier⟩ := ih fun earlier' inbound' E₁ round E₂ hinitial =>
        hconcat earlier' inbound' E₁ round E₂ (hinitial.trans (List.prefix_append _ _))
      obtain ⟨E₂, houtcome⟩ := exists_outcome hlayouts inbound
      rw [run_concat_eq]
      exact ⟨E₂, houtcome.hasLayouts hlayouts,
        hconcat earlier inbound E₁ _ E₂ List.prefix_rfl hlayouts rfl houtcome hearlier⟩

end Exchange

end LimitOrderBook
