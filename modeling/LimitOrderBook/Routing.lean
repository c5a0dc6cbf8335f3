import LimitOrderBook.Quotes
import LimitOrderBook.Recovery
import LimitOrderBook.Delivery

/-!
# Who is told what

The exchange answers a message to the connection that it came from, and tells of a trade the
connections that the two orders came from, which the book keeps with each order at rest
(`Exchange.due_run`).  So, the quotes apart, what a connection reads is about orders that have been
read from it (`Pipeline.concerns_received`).
-/

namespace LimitOrderBook

/-! ### The tags of the orders at rest -/

namespace Layout

variable {L : Layout} {p : Resting → Prop}

/-- A property that does not depend on the quantity holds of all orders at rest after an order has
been processed, if it held of all before and holds of the order. -/
theorem forall_resting_process (hw : L.WellFormed) {o : Order} {clientId : UInt64}
    (trades : List Trade) (hreduce : ∀ r qty, p r → p (r.reduce qty))
    (h : ∀ r ∈ restingOf L.levels, p r)
    (hnew : ∀ i, p ⟨i, (L.fills o clientId).taker, clientId⟩) :
  ∀ r ∈ restingOf (L.process o clientId trades).2.1.levels, p r
  := by
  have hside : ∀ s, ∀ r ∈ L.resting s, p r := by
    intro s r hr
    obtain ⟨l, hl, hmem⟩ := mem_restingOf.mp hr
    apply h r (mem_restingOf.mpr ⟨l, mem_levels.mpr ⟨s, hl⟩, hmem⟩)
  have hupdate : ∀ (L₁ L₂ : Layout) (s : Side) (ls : List Level),
      L₂.ladder = Function.update L₁.ladder s ls → (∀ s, ∀ r ∈ L₁.resting s, p r) →
      (∀ r ∈ restingOf ls, p r) → ∀ r ∈ restingOf L₂.levels, p r := by
    intro L₁ L₂ s ls hladder hold hls r hr
    have hmem := ((levels_perm_of_update hladder).flatMap_right (·.queue)).mem_iff.mp hr
    rw [List.flatMap_append] at hmem
    rcases List.mem_append.mp hmem with hmem | hmem
    · apply hls r hmem
    · apply hold s.opposite r hmem
  have htaken : ∀ r ∈ restingOf (L.taken o clientId).levels, p r := by
    apply hupdate L _ o.takesFrom (L.fills o clientId).ladder rfl hside
    intro r hr
    have hleft : r ∈ (matchOrders (o.accepts o.takesFrom) clientId (L.stamped o) L.tradeIdCounter
        (L.resting o.takesFrom)).left := by
      rw [hw.fills_eq]
      apply hr
    obtain ⟨r₀, hr₀, rfl | ⟨qty, -, rfl⟩⟩ := mem_left_matchOrders hleft
    · apply hside _ _ hr₀
    · apply hreduce _ _ (hside _ _ hr₀)
  rcases (L.process_cases o clientId trades).put_or hw with
    ⟨hladder, -⟩ | ⟨-, -, i, j, L₁, hw₁, hladder, heq⟩
  · unfold levels
    rw [hladder]
    apply htaken
  · have hold : ∀ s, ∀ r ∈ L₁.resting s, p r := by
      intro s r hr
      unfold resting at hr
      rw [hladder] at hr
      obtain ⟨l, hl, hmem⟩ := mem_restingOf.mp hr
      apply htaken r (mem_restingOf.mpr ⟨l, mem_levels.mpr ⟨s, hl⟩, hmem⟩)
    rw [heq]
    apply hupdate L₁ _ _ _ rfl hold
    intro r hr
    rcases List.mem_cons.mp ((perm_restLadder j (hw₁.sorted _)).mem_iff.mp hr) with rfl | hmem
    · apply hnew
    · apply hold _ r hmem

theorem forall_resting_remove (pl : L.Place) (h : ∀ r ∈ restingOf L.levels, p r) :
  ∀ r ∈ restingOf (L.remove pl).levels, p r
  := by
  intro r hr
  obtain ⟨l, hl, hmem⟩ := mem_restingOf.mp hr
  obtain ⟨s, hl⟩ := mem_levels.mp hl
  obtain ⟨l', hl', hmem'⟩ := mem_restingOf.mp (mem_resting_remove (mem_restingOf.mpr ⟨l, hl, hmem⟩))
  apply h r (mem_restingOf.mpr ⟨l', mem_levels.mpr ⟨s, hl'⟩, hmem'⟩)

end Layout

/-! ### Events -/

/-- A connection has sent the order that a message to it is about. -/
structure InboundMessage.Asks (inbound : InboundMessage) (clientId : UInt64) (msg : ServerMessage) :
    Prop where
  clientId_eq : inbound.clientId = clientId
  userId_eq : inbound.order.userId = msg.userId
  clientOrderId_eq : inbound.order.clientOrderId = msg.extraPrice
  symbolId_eq : inbound.order.symbolId.toUInt8 = msg.symbolId

/-- An event tells no connection but of what it has sent itself.  The connection 0 is that of the
orders that have been replayed, and nobody is at its other end. -/
def OutboundEvent.Due (inbounds : List InboundMessage) : OutboundEvent → Prop
  | clientAck c msg | clientReject c msg => ∃ inbound ∈ inbounds, inbound.Asks c msg
  | clientCancelOk c msg => msg.msgType = ServerMsgType.cancelled.toByte
      ∧ ∃ inbound ∈ inbounds, inbound.order.kind = .cancel ∧ inbound.clientId = c
        ∧ inbound.order.userId = msg.userId ∧ inbound.order.symbolId.toUInt8 = msg.symbolId
  | tradeFill taker maker takerMsg makerMsg => (∃ inbound ∈ inbounds, inbound.Asks taker takerMsg)
      ∧ (maker = 0 ∨ ∃ inbound ∈ inbounds, inbound.Asks maker makerMsg)
  | bboBroadcast msg => msg.msgType = ServerMsgType.bbo.toByte

/-- What is due stays due as more messages arrive. -/
theorem OutboundEvent.Due.mono {ms ms' : List InboundMessage} {event : OutboundEvent}
    (h : event.Due ms) (hms : ms ⊆ ms') :
  event.Due ms'
  := by
  cases event with
  | clientAck | clientReject =>
      obtain ⟨inbound, hmem, hasks⟩ := h
      exact ⟨inbound, hms hmem, hasks⟩
  | clientCancelOk =>
      obtain ⟨htype, inbound, hmem, hcancels⟩ := h
      exact ⟨htype, inbound, hms hmem, hcancels⟩
  | tradeFill =>
      obtain ⟨⟨inbound, hmem, hasks⟩, hmaker⟩ := h
      refine ⟨⟨inbound, hms hmem, hasks⟩, hmaker.imp_right ?_⟩
      rintro ⟨inbound', hmem', hasks'⟩
      exact ⟨inbound', hms hmem', hasks'⟩
  | bboBroadcast => exact h

namespace Exchange

variable {s : Exchange} {E E' : Fin NUM_SYMBOLS → Layout} {inbound : InboundMessage}
  {inbounds : List InboundMessage} {round : Round}

/-- The message that an order at rest came with. -/
structure Placed (sym : Fin NUM_SYMBOLS) (r : Resting) (inbound : InboundMessage) : Prop where
  clientId_eq : inbound.clientId = r.clientId
  userId_eq : inbound.order.userId = r.order.userId
  clientOrderId_eq : inbound.order.clientOrderId = r.order.clientOrderId
  symIdx_eq : symIdx inbound.order.symbolId = some sym

/-- Each order at rest has been replayed, or is kept with the connection that it came from. -/
def Tagged (inbounds : List InboundMessage) (E : Fin NUM_SYMBOLS → Layout) : Prop :=
  ∀ sym, ∀ r ∈ restingOf (E sym).levels, r.clientId = 0 ∨ ∃ inbound ∈ inbounds, Placed sym r inbound

/-- Known owners stay known as more messages arrive. -/
theorem Tagged.mono {ms ms' : List InboundMessage} (h : Tagged ms E) (hms : ms ⊆ ms') :
  Tagged ms' E
  := by
  intro sym r hr
  refine (h sym r hr).imp_right ?_
  rintro ⟨inbound, hmem, hplaced⟩
  exact ⟨inbound, hms hmem, hplaced⟩

/-- An exchange of which all orders have been replayed. -/
theorem tagged_of_untag (hE : s.engine.HasLayouts E) (huntag : s.untag = s) :
  Tagged [] E
  := by
  intro sym r hr
  left
  obtain ⟨l, hl, hmem⟩ := mem_restingOf.mp hr
  rw [← ((hE.hasLayout sym).stored hl).clientId_eq r hmem, ← huntag]
  rfl

/-- One message keeps every resting order owned by a client that sent it. -/
theorem Outcome.tagged (h : s.Outcome E inbound round E') (hE : s.engine.HasLayouts E)
    (htagged : Tagged inbounds E) :
  Tagged (inbounds ++ [inbound]) E'
  := by
  have hold := htagged.mono (List.subset_append_left inbounds [inbound])
  have hprocess : ∀ (sym : Fin NUM_SYMBOLS) (o : Order), symIdx inbound.order.symbolId = some sym →
      o = { inbound.order with id := s.exchangeId inbound } →
      Tagged (inbounds ++ [inbound])
        (Function.update E sym ((E sym).process o inbound.clientId []).2.1) := by
    intro sym o hsym ho sym'
    rcases eq_or_ne sym' sym with rfl | hne
    · rw [Function.update_self]
      apply Layout.forall_resting_process (hE.wellFormed sym') [] (fun r qty hr => ?_) (hold sym')
      · intro i
        right
        refine ⟨inbound, by simp, rfl, ?_, ?_, hsym⟩
        · rw [Layout.userId_taker_fills, ho]
        · rw [Layout.taker_fills, ho]
      · refine hr.imp_right ?_
        rintro ⟨inbound', hmem, hplaced⟩
        exact ⟨inbound', hmem, hplaced.clientId_eq, hplaced.userId_eq, hplaced.clientOrderId_eq,
          hplaced.symIdx_eq⟩
    · rw [Function.update_of_ne hne]
      apply hold sym'
  cases h with
  | notCancelled | unfunded => apply hold
  | @cancelled sym _ _ _ pl =>
      intro sym'
      rcases eq_or_ne sym' sym with rfl | hne
      · rw [Function.update_self]
        apply Layout.forall_resting_remove pl (hold sym')
      · rw [Function.update_of_ne hne]
        apply hold sym'
  | taken _ _ hsym ho => exact hprocess _ _ hsym ho
  | refused _ _ hsym ho => exact hprocess _ _ hsym ho

/-- A byte is enough to tell the listed symbols apart. -/
theorem toUInt8_eq_of_symIdx {a b : UInt16} {sym : Fin NUM_SYMBOLS} (ha : symIdx a = some sym)
    (hb : symIdx b = some sym) :
  a.toUInt8 = b.toUInt8
  := by
  rw [← UInt8.toNat_inj, toUInt8_of_symIdx ha, toUInt8_of_symIdx hb]

/-- What is told of a trade. -/
theorem due_fillEvent (hE : s.engine.HasLayouts E) (htagged : Tagged inbounds E)
    {sym : Fin NUM_SYMBOLS} (hsym : symIdx inbound.order.symbolId = some sym) {o : Order}
    (ho : o = { inbound.order with id := s.exchangeId inbound }) {t : Trade}
    (ht : t ∈ ((E sym).fills o inbound.clientId).trades) :
  (fillEvent t).Due (inbounds ++ [inbound])
  := by
  have hmem := mem_trades_matchOrders (o.accepts o.takesFrom) inbound.clientId ((E sym).stamped o)
    (E sym).tradeIdCounter ((E sym).resting o.takesFrom) (t := t)
  rw [(hE.wellFormed sym).fills_eq] at hmem
  obtain ⟨r, hr, id, qty, taker, htaker, rfl, -⟩ := hmem ht
  have hsame : taker.userId = inbound.order.userId
      ∧ taker.clientOrderId = inbound.order.clientOrderId
      ∧ taker.symbolId = inbound.order.symbolId := by
    rw [htaker, Layout.stamped, ho]
    exact ⟨rfl, rfl, rfl⟩
  constructor
  · exact ⟨inbound, by simp, rfl, hsame.1.symm, hsame.2.1.symm, congrArg _ hsame.2.2.symm⟩
  · obtain ⟨l, hl, hrl⟩ := mem_restingOf.mp hr
    refine (htagged sym r (mem_restingOf.mpr ⟨l, Layout.mem_levels.mpr ⟨_, hl⟩, hrl⟩)).imp_right ?_
    rintro ⟨inbound', hmem', hplaced⟩
    refine ⟨inbound', List.mem_append_left _ hmem', hplaced.clientId_eq, hplaced.userId_eq,
      hplaced.clientOrderId_eq, ?_⟩
    change _ = taker.symbolId.toUInt8
    rw [hsame.2.2]
    apply toUInt8_eq_of_symIdx hplaced.symIdx_eq hsym

/-- A best-price broadcast is due to everybody. -/
theorem due_bboEvents {engine : MultiAssetEngine} {symbolId : UInt16} {event : OutboundEvent}
    (h : event ∈ bboEvents engine symbolId) :
  event.Due inbounds
  := by
  unfold bboEvents at h
  split at h
  · cases h
  · rw [List.mem_singleton.mp h]
    rfl

/-- Each event of a round is due. -/
theorem Outcome.due (h : s.Outcome E inbound round E') (hE : s.engine.HasLayouts E)
    (htagged : Tagged inbounds E) :
  ∀ event ∈ round.events, event.Due (inbounds ++ [inbound])
  := by
  have hassigned := s.assigned_eq inbound
  have hasks : ∀ (id : UInt64) (reason : RejectReason), OutboundEvent.Due (inbounds ++ [inbound])
      (rejection inbound.clientId { inbound.order with id := id } reason) :=
    fun id reason => ⟨inbound, by simp, rfl, rfl, rfl, rfl⟩
  have hack : OutboundEvent.Due (inbounds ++ [inbound])
      (acknowledgement inbound.clientId (s.assigned inbound)) := by
    rw [hassigned]
    exact ⟨inbound, by simp, rfl, rfl, rfl, rfl⟩
  cases h with
  | notCancelled | unfunded =>
      intro event hmem
      rw [List.mem_singleton.mp hmem]
      exact hasks inbound.order.id _
  | cancelled hkind =>
      intro event hmem
      rw [List.mem_singleton.mp hmem]
      exact ⟨rfl, inbound, by simp, hkind, rfl, rfl, rfl⟩
  | taken _ _ hsym ho =>
      intro event hmem
      simp only [List.cons_append, List.mem_cons, List.mem_append] at hmem
      rcases hmem with rfl | ((hmem | hmem) | hmem)
      · apply hack
      · obtain ⟨t, ht, rfl⟩ := List.mem_map.mp hmem
        apply due_fillEvent hE htagged hsym ho ht
      · rw [(eq_of_mem_prevention hmem).1, hassigned]
        apply hasks
      · apply due_bboEvents hmem
  | refused =>
      intro event hmem
      simp only [List.mem_cons, List.not_mem_nil, or_false] at hmem
      rcases hmem with rfl | rfl
      · apply hack
      · rw [hassigned]
        apply hasks

/-- Each event of a run is due. -/
theorem due_run (h : s.Operable) (huntag : s.untag = s) :
  ∀ event ∈ (s.run inbounds).events, event.Due inbounds
  := by
  obtain ⟨E, hsound⟩ := h
  have hE := hsound.layouts
  obtain ⟨E', -, -, hdue⟩ : ∃ E', (s.run inbounds).state.engine.HasLayouts E'
      ∧ Tagged inbounds E' ∧ ∀ event ∈ (s.run inbounds).events, event.Due inbounds := by
    apply run_outcomes (P := fun ms round E' => Tagged ms E' ∧ ∀ event ∈ round.events, event.Due ms)
      hE
    · exact ⟨tagged_of_untag hE huntag, nofun⟩
    · rintro earlier inbound E₁ round E₂ - hE₁ - houtcome ⟨htagged, hdue⟩
      refine ⟨houtcome.tagged hE₁ htagged, fun event hmem => ?_⟩
      rcases List.mem_append.mp hmem with hmem | hmem
      · apply (hdue event hmem).mono (List.subset_append_left _ _)
      · apply houtcome.due hE₁ htagged event hmem
  apply hdue

end Exchange

/-! ### What a connection reads -/

namespace Exchange

theorem untag_prefunded :
  prefunded.untag = prefunded
  := by
  unfold prefunded
  simp only [← deposit_untag, untag_new]

/-- After a restart all orders at rest have been replayed. -/
theorem untag_restart (records : List Order) :
  (restart records).untag = restart records
  := by
  unfold restart
  split
  · apply untag_prefunded
  · rw [setCounter_untag, ← replayAll_untag, untag_prefunded]

/-- The recovered exchange has no connection of an earlier session left. -/
theorem untag_recover (file : List UInt8) :
  (recover file).untag = recover file
  := by
  cases hread : WalReader.readAll file with
  | error reason =>
      unfold recover
      rw [hread]
      apply untag_prefunded
  | ok records => rw [recover_of_readAll hread, untag_restart]

/-- The recovered exchange is operable. -/
theorem operable_recover (file : List UInt8) :
  (recover file).Operable
  := by
  cases hread : WalReader.readAll file with
  | error reason =>
      unfold recover
      rw [hread]
      apply operable_prefunded
  | ok records =>
      rw [recover_of_readAll hread]
      apply operable_restart

end Exchange

/-- A message is a quote, or it is about one of the orders: it names the user and the symbol of
the order, and the identifier that the sender has chosen, if it does not tell of a cancel that has
taken out another order of the user. -/
def ServerMessage.Concerns (orders : List Order) (msg : ServerMessage) : Prop :=
  msg.msgType = ServerMsgType.bbo.toByte
    ∨ ∃ order ∈ orders, order.userId = msg.userId ∧ order.symbolId.toUInt8 = msg.symbolId
      ∧ (order.clientOrderId = msg.extraPrice
        ∨ msg.msgType = ServerMsgType.cancelled.toByte ∧ order.kind = .cancel)

namespace Pipeline

variable {file : List UInt8} {as : List Action} {p : Pipeline} {i : Nat}

theorem clientId_ne_zero (hi : i + 1 < 2 ^ 64) :
  clientId i ≠ 0
  := by
  unfold clientId
  rw [ne_eq, ← UInt64.toNat_inj, UInt64.toNat_ofNat_of_lt' hi]
  exact Nat.succ_ne_zero i

/-- What an event that is due tells a connection. -/
theorem concerns_of_due (hserves : Serves file as p) (haccepted : p.accepted < 2 ^ 64)
    (hi : i < p.accepted) {event : OutboundEvent} (hdue : event.Due (handled file as))
    {msg : ServerMessage} (hmsg : msg ∈ event.messagesTo (clientId i)) :
  msg.Concerns (ingress (consumed file as i))
  := by
  have hasks : (∃ inbound ∈ handled file as, inbound.Asks (clientId i) msg) →
      msg.Concerns (ingress (consumed file as i)) := by
    rintro ⟨inbound, hmem, hasks⟩
    exact Or.inr ⟨inbound.order, hserves.mem_ingress hi hmem hasks.clientId_eq, hasks.userId_eq,
      hasks.symbolId_eq, Or.inl hasks.clientOrderId_eq⟩
  cases event with
  | clientAck c told | clientReject c told =>
      rw [OutboundEvent.messagesTo] at hmsg
      split at hmsg
      · next hc =>
          obtain rfl := List.mem_singleton.mp hmsg
          rw [← hc] at hasks
          apply hasks hdue
      · cases hmsg
  | clientCancelOk c told =>
      rw [OutboundEvent.messagesTo] at hmsg
      split at hmsg
      · next hc =>
          obtain rfl := List.mem_singleton.mp hmsg
          obtain ⟨htype, inbound, hmem, hkind, hclient, huser, hsymbol⟩ := hdue
          exact Or.inr ⟨inbound.order, hserves.mem_ingress hi hmem (hclient.trans hc), huser,
            hsymbol, Or.inr ⟨htype, hkind⟩⟩
      · cases hmsg
  | tradeFill taker maker takerMsg makerMsg =>
      rw [OutboundEvent.messagesTo] at hmsg
      rcases List.mem_append.mp hmsg with hmsg | hmsg
      · split at hmsg
        · next hc =>
            obtain rfl := List.mem_singleton.mp hmsg
            rw [← hc] at hasks
            apply hasks hdue.1
        · cases hmsg
      · split at hmsg
        · next hc =>
            obtain rfl := List.mem_singleton.mp hmsg
            rw [← hc] at hasks
            rcases hdue.2 with hzero | hmaker
            · exact absurd (hc.symm.trans hzero) (clientId_ne_zero (by omega))
            · apply hasks hmaker
        · cases hmsg
  | bboBroadcast told =>
      obtain rfl := List.mem_singleton.mp hmsg
      apply Or.inl hdue

/-- The quotes apart, a connection is told of nothing but the orders that have been read from it,
however all that happens interleaves. -/
theorem concerns_received (h : Runs file as p) (haccepted : p.accepted < 2 ^ 64)
    (hi : i < p.accepted) :
  ∀ msg ∈ received file as i, msg.Concerns (ingress (consumed file as i))
  := by
  intro msg hmem
  obtain ⟨before, after, heq, -⟩ := (delivers h haccepted hi).messages_eq
  have hmem' : msg ∈ messagesTo (clientId i) (dispatched file as) := by
    rw [heq]
    exact List.mem_append_left _ (List.mem_append_right _ hmem)
  obtain ⟨event, hevent, hmsg⟩ := List.mem_flatMap.mp ((messagesTo_events h).subset hmem')
  apply concerns_of_due (serves h haccepted) haccepted hi _ hmsg
  apply Exchange.due_run (Exchange.operable_recover file) (Exchange.untag_recover file) _ hevent

/-- The one message of the sample run is about the client's own order. -/
theorem concerns_received_firstActions :
  (received [] firstActions 0).length = 1
    ∧ ∀ msg ∈ received [] firstActions 0, msg.Concerns (ingress (consumed [] firstActions 0))
  := by
  constructor
  · decide +kernel
  · obtain ⟨p, hrun, haccepted⟩ := exists_runs_firstActions
    apply concerns_received hrun
    · rw [haccepted]
      decide
    · rw [haccepted]
      decide

end Pipeline

end LimitOrderBook
