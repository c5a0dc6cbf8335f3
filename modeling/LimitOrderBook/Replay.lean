import LimitOrderBook.Refusals
import LimitOrderBook.Tags

/-!
# Replaying the log

The loop logs the cancels that succeed and the orders whose margin it has locked, under the
identifiers it has assigned to them, and the replay repeats the rounds of the loop.  It agrees
with the live exchange in all but the routing tags (`replayAll_wal`), if the engine takes every
order and the identifiers do not run out.
-/

namespace LimitOrderBook

/-- The quarantine lets through no deposit, and no order but a cancel with an identifier. -/
structure InboundMessage.Quarantined (inbound : InboundMessage) : Prop where
  not_deposit : inbound.order.kind ≠ .deposit
  id_eq : inbound.order.kind ≠ .cancel → inbound.order.id = 0

namespace Exchange

variable {s : Exchange} {inbound : InboundMessage} {inbounds : List InboundMessage}

/-- The engine takes every order whose margin is locked. -/
def TakesAll (s : Exchange) (inbounds : List InboundMessage) : Prop :=
  ∀ earlier inbound, earlier ++ [inbound] <+: inbounds → inbound.order.kind ≠ .cancel →
    ∀ risk, (s.run earlier).state.risk.lockOrderFunds inbound.order = .ok risk →
      ∃ report, ((s.run earlier).state.processed inbound).1 = .ok report

/-- The counter of identifiers never comes round to zero. -/
def HasIds (s : Exchange) (inbounds : List InboundMessage) : Prop :=
  ∀ earlier, earlier <+: inbounds → (s.run earlier).state.engine.globalOrderIdCounter ≠ 0

/-! ### One order -/

theorem lt_counter {counter : UInt64} (hnext : counter + 1 ≠ 0) :
  counter < counter + 1
  := by
  apply UInt64.lt_add_one
  rintro rfl
  exact hnext rfl

/-- An order whose margin is locked takes one identifier. -/
theorem counter_processed (s : Exchange) {sym : Fin NUM_SYMBOLS}
    (hsym : symIdx inbound.order.symbolId = some sym) (hid : inbound.order.id = 0)
    (hcounter : s.engine.globalOrderIdCounter ≠ 0) :
  (s.processed inbound).2.1.globalOrderIdCounter = s.engine.globalOrderIdCounter + 1
  := by
  have hsym' : symIdx (s.assigned inbound).symbolId = some sym := by
    rw [s.assigned_eq inbound]
    apply hsym
  change ((assignId s.engine inbound.order).2.process (s.assigned inbound) _ _).2.1.globalOrderIdCounter
    = _
  rw [MultiAssetEngine.process_of_sym hsym']
  unfold assigned assignId MultiAssetEngine.stampId MultiAssetEngine.nextOrderId
  rw [if_pos hid]
  dsimp only [MultiAssetEngine.setBook]
  rw [if_neg hcounter]
  apply UInt64.max_eq_self_iff.mpr (UInt64.le_refl _)

/-- The counter after a round. -/
theorem counter_handle_of_lock (hkind : inbound.order.kind ≠ .cancel) (hid : inbound.order.id = 0)
    {risk : RiskEngine} (hlock : s.risk.lockOrderFunds inbound.order = .ok risk)
    (hcounter : s.engine.globalOrderIdCounter ≠ 0) :
  (s.handle inbound).state.engine.globalOrderIdCounter = s.engine.globalOrderIdCounter + 1
  := by
  obtain ⟨sym, hsym⟩ := (RiskEngine.locked_of_ok hkind hlock).exists_sym
  rw [← s.counter_processed hsym hid hcounter]
  rcases hprocessed : s.processed inbound with ⟨_ | _, engine, trades⟩
  · rw [(handle_of_error hkind hlock hprocessed).1]
  · rw [(handle_of_ok hkind hlock hprocessed).1]

/-- The loop has counted the identifier it assigns, and the replay counts it when it stamps
the record. -/
theorem stampId_assigned (s : Exchange) (hid : inbound.order.id = 0)
    (hcounter : s.engine.globalOrderIdCounter ≠ 0)
    (hnext : s.engine.globalOrderIdCounter + 1 ≠ 0) :
  (assignId s.engine inbound.order).2.stampId (s.assigned inbound)
    = s.engine.stampId (s.assigned inbound)
  := by
  have hmax : max s.engine.globalOrderIdCounter (s.engine.globalOrderIdCounter + 1)
      = max (s.engine.globalOrderIdCounter + 1) (s.engine.globalOrderIdCounter + 1) := by
    rw [UInt64.max_eq_self_iff.mpr (UInt64.le_refl _)]
    apply if_pos (UInt64.le_of_lt (lt_counter hnext))
  unfold assigned assignId MultiAssetEngine.stampId MultiAssetEngine.nextOrderId
  rw [if_pos hid]
  dsimp only
  rw [if_neg hcounter, if_neg hcounter, hmax]

/-- The engine of the loop, which has assigned the identifier, and the engine of the replay,
which learns it from the record, process an order alike. -/
theorem processed_eq_process (s : Exchange) {sym : Fin NUM_SYMBOLS}
    (hsym : symIdx inbound.order.symbolId = some sym) (hid : inbound.order.id = 0)
    (hcounter : s.engine.globalOrderIdCounter ≠ 0)
    (hnext : s.engine.globalOrderIdCounter + 1 ≠ 0) :
  s.processed inbound = s.engine.process (s.assigned inbound) inbound.clientId []
  := by
  have hsym' : symIdx (s.assigned inbound).symbolId = some sym := by
    rw [s.assigned_eq inbound]
    apply hsym
  have hstamp := s.stampId_assigned hid hcounter hnext
  change (assignId s.engine inbound.order).2.process (s.assigned inbound) _ _ = _
  rw [MultiAssetEngine.process_of_sym hsym', MultiAssetEngine.process_of_sym hsym', hstamp,
    books_assignId]

/-- The client that an order comes from makes no difference to the engine but for the tags. -/
theorem process_client (e : MultiAssetEngine) (o : Order) (clientId : UInt64) :
  (e.process o 0 []).1 = (e.process o clientId []).1
    ∧ (e.process o 0 []).2.1.untag = (e.process o clientId []).2.1.untag
    ∧ (e.process o 0 []).2.2.map Trade.untag = (e.process o clientId []).2.2.map Trade.untag
  := by
  have h := (e.process_untag o 0 []).symm.trans (e.process_untag o clientId [])
  rw [Prod.mk.injEq, Prod.mk.injEq] at h
  apply h

/-- The replay of the record of an order repeats the round of the loop. -/
theorem replay_assigned (hquarantined : inbound.Quarantined)
    (hkind : inbound.order.kind ≠ .cancel) {risk : RiskEngine}
    (hlock : s.risk.lockOrderFunds inbound.order = .ok risk) {report : ExecutionReport}
    (htaken : (s.processed inbound).1 = .ok report)
    (hcounter : s.engine.globalOrderIdCounter ≠ 0)
    (hnext : s.engine.globalOrderIdCounter + 1 ≠ 0) :
  (s.replay (s.assigned inbound)).untag = (s.handle inbound).state.untag
  := by
  obtain ⟨sym, hsym⟩ := (RiskEngine.locked_of_ok hkind hlock).exists_sym
  have hassigned := s.assigned_eq inbound
  have hdeposit : (s.assigned inbound).kind ≠ .deposit := by
    rw [hassigned]
    apply hquarantined.not_deposit
  have hcancel : (s.assigned inbound).kind ≠ .cancel := by
    rw [hassigned]
    apply hkind
  have hlock' : s.risk.lockOrderFunds (s.assigned inbound) = .ok risk := by
    rw [s.risk.lockOrderFunds_congr hassigned, hlock]
  obtain ⟨hresult, hengine, htrades⟩ :=
    process_client s.engine (s.assigned inbound) inbound.clientId
  rw [← s.processed_eq_process hsym (hquarantined.id_eq hkind) hcounter hnext]
    at hresult hengine htrades
  rw [htaken] at hresult
  rw [replay_of_lock s hdeposit hcancel hlock', hresult]
  rcases hprocessed : s.processed inbound with ⟨result, engine, trades⟩
  rw [hprocessed] at htaken hengine htrades
  dsimp only at htaken hengine htrades
  rw [htaken] at hprocessed
  rw [(handle_of_ok hkind hlock hprocessed).1]
  unfold untag
  dsimp only
  rw [hengine, ← MultiAssetEngine.settleReport_untag, htrades,
    MultiAssetEngine.settleReport_untag]

/-- The rounds of the loop: nothing is logged and nothing happens, a cancel takes an order
out, or the margin of an order is locked. -/
theorem handle_cases (h : s.Operable) (inbound : InboundMessage) :
  ((s.handle inbound).state = s ∧ (s.handle inbound).wal = [])
    ∨ (inbound.order.kind = .cancel ∧ (s.handle inbound).state = s.replay inbound.order
      ∧ (s.handle inbound).state.engine.globalOrderIdCounter = s.engine.globalOrderIdCounter
      ∧ (s.handle inbound).wal = [inbound.order])
    ∨ (inbound.order.kind ≠ .cancel ∧ ∃ risk, s.risk.lockOrderFunds inbound.order = .ok risk)
  := by
  obtain ⟨E, hs⟩ := h
  by_cases hkind : inbound.order.kind = .cancel
  · rw [handle, if_pos hkind, handleCancel]
    rcases hs.layouts.cancelOrder_cases inbound.order.symbolId inbound.order.userId
      inbound.order.id with ⟨reason, heq, -⟩ | ⟨sym, pl, e', -, -, -, heq, -, hcounter⟩
    · rw [heq]
      exact Or.inl ⟨rfl, rfl⟩
    · rw [replay_of_cancel s hkind heq, heq]
      exact Or.inr (Or.inl ⟨hkind, rfl, hcounter, rfl⟩)
  · cases hlock : s.risk.lockOrderFunds inbound.order with
    | error reason =>
        rw [handle_of_reject hkind hlock]
        exact Or.inl ⟨rfl, rfl⟩
    | ok risk => exact Or.inr (Or.inr ⟨hkind, risk, rfl⟩)

/-- The replay of what a round logs repeats the round. -/
theorem replayAll_handle (h : s.Operable) (hquarantined : inbound.Quarantined)
    (htaken : inbound.order.kind ≠ .cancel → ∀ risk,
      s.risk.lockOrderFunds inbound.order = .ok risk →
        ∃ report, (s.processed inbound).1 = .ok report)
    (hcounter : s.engine.globalOrderIdCounter ≠ 0)
    (hnext : (s.handle inbound).state.engine.globalOrderIdCounter ≠ 0) :
  (s.replayAll (s.handle inbound).wal).untag = (s.handle inbound).state.untag
  := by
  rcases handle_cases h inbound with ⟨hstate, hwal⟩ | ⟨-, hstate, -, hwal⟩ | ⟨hkind, risk, hlock⟩
  · rw [hstate, hwal]
    rfl
  · rw [hstate, hwal]
    rfl
  · obtain ⟨report, hok⟩ := htaken hkind risk hlock
    rw [counter_handle_of_lock hkind (hquarantined.id_eq hkind) hlock hcounter] at hnext
    rw [wal_of_lock hkind hlock]
    exact replay_assigned hquarantined hkind hlock hok hcounter hnext

/-- What a round logs under a fresh identifier is below the counter after the round. -/
theorem id_lt_of_mem_wal_handle (h : s.Operable) (hquarantined : inbound.Quarantined)
    (hcounter : s.engine.globalOrderIdCounter ≠ 0)
    (hnext : (s.handle inbound).state.engine.globalOrderIdCounter ≠ 0) :
  s.engine.globalOrderIdCounter ≤ (s.handle inbound).state.engine.globalOrderIdCounter
    ∧ ∀ record ∈ (s.handle inbound).wal, record.kind ≠ .cancel →
      record.id < (s.handle inbound).state.engine.globalOrderIdCounter
  := by
  rcases handle_cases h inbound with
    ⟨hstate, hwal⟩ | ⟨hkind, -, hcancel, hwal⟩ | ⟨hkind, risk, hlock⟩
  · rw [hstate, hwal]
    exact ⟨UInt64.le_refl _, fun _ hmem => nomatch hmem⟩
  · rw [hcancel, hwal]
    refine ⟨UInt64.le_refl _, fun record hmem hrecord => ?_⟩
    rw [List.mem_singleton.mp hmem] at hrecord
    exact absurd hkind hrecord
  · have hid := hquarantined.id_eq hkind
    have hstate := counter_handle_of_lock hkind hid hlock hcounter
    rw [hstate] at hnext
    have hlt := lt_counter hnext
    rw [hstate, wal_of_lock hkind hlock]
    refine ⟨UInt64.le_of_lt hlt, fun record hmem _ => ?_⟩
    rw [List.mem_singleton.mp hmem, assigned, assignId, if_pos hid]
    apply hlt

/-! ### A run -/

theorem TakesAll.of_append {more : List InboundMessage} (h : s.TakesAll (inbounds ++ more)) :
  s.TakesAll inbounds
  := fun earlier inbound hmem => h earlier inbound (hmem.trans (List.prefix_append _ _))

theorem HasIds.of_append {more : List InboundMessage} (h : s.HasIds (inbounds ++ more)) :
  s.HasIds inbounds
  := fun earlier hmem => h earlier (hmem.trans (List.prefix_append _ _))

/-- A message takes at most one identifier. -/
theorem counter_run (h : s.Operable) (hquarantined : ∀ inbound ∈ inbounds, inbound.Quarantined)
    (hcounter : s.engine.globalOrderIdCounter ≠ 0)
    (hroom : s.engine.globalOrderIdCounter.toNat + inbounds.length < 2 ^ 64) :
  (s.run inbounds).state.engine.globalOrderIdCounter ≠ 0
    ∧ (s.run inbounds).state.engine.globalOrderIdCounter.toNat
      ≤ s.engine.globalOrderIdCounter.toNat + inbounds.length
  := by
  induction inbounds using List.reverseRecOn with
  | nil => exact ⟨hcounter, Nat.le_refl _⟩
  | append_singleton earlier inbound ih =>
      rw [List.length_append, List.length_singleton] at hroom ⊢
      obtain ⟨hne, hle⟩ := ih (fun m hm => hquarantined m (List.mem_append_left _ hm)) (by omega)
      rw [(s.run_concat earlier inbound).1]
      rcases handle_cases (h.run earlier) inbound with
        ⟨hstate, -⟩ | ⟨-, -, hstate, -⟩ | ⟨hkind, risk, hlock⟩
      · rw [hstate]
        exact ⟨hne, by omega⟩
      · rw [hstate]
        exact ⟨hne, by omega⟩
      · rw [counter_handle_of_lock hkind ((hquarantined inbound (by simp)).id_eq hkind) hlock hne]
        generalize (s.run earlier).state.engine.globalOrderIdCounter = counter at hle
        have hnext : (counter + 1).toNat = counter.toNat + 1 := by
          rw [UInt64.toNat_add_of_lt'] <;> rw [UInt64.toNat_one]
          omega
        constructor
        · rw [ne_eq, ← UInt64.toNat_inj, hnext]
          exact Nat.succ_ne_zero _
        · omega

/-- A run with an identifier for every message does not run out of identifiers. -/
theorem Operable.hasIds_of_lt (h : s.Operable) (hquarantined : ∀ inbound ∈ inbounds, inbound.Quarantined)
    (hcounter : s.engine.globalOrderIdCounter ≠ 0)
    (hroom : s.engine.globalOrderIdCounter.toNat + inbounds.length < 2 ^ 64) :
  s.HasIds inbounds
  := by
  intro earlier hmem
  have hlength := hmem.length_le
  exact (counter_run h (fun m hm => hquarantined m (hmem.subset hm)) hcounter (by omega)).1

/-- The replay of the log repeats the run. -/
theorem Operable.untag_replayAll_run (h : s.Operable)
    (hquarantined : ∀ inbound ∈ inbounds, inbound.Quarantined) (htakes : s.TakesAll inbounds)
    (hids : s.HasIds inbounds) :
  (s.replayAll (s.run inbounds).wal).untag = (s.run inbounds).state.untag
  := by
  induction inbounds using List.reverseRecOn with
  | nil => rfl
  | append_singleton earlier inbound ih =>
      have hearlier := ih (fun m hm => hquarantined m (List.mem_append_left _ hm))
        htakes.of_append hids.of_append
      obtain ⟨hstate, hwal, -⟩ := s.run_concat earlier inbound
      have hcounter := hids earlier (List.prefix_append _ _)
      have hnext := hids (earlier ++ [inbound]) List.prefix_rfl
      rw [hstate] at hnext
      have hround := replayAll_handle (h.run earlier) (hquarantined inbound (by simp))
        (htakes earlier inbound List.prefix_rfl) hcounter hnext
      rw [hstate, hwal, Exchange.replayAll, List.foldl_append]
      change ((s.replayAll _).replayAll _).untag = _
      rw [← replayAll_untag, hearlier, replayAll_untag, hround]

/-- The identifiers of the orders in the log are below the counter. -/
theorem Operable.id_lt_of_mem_wal (h : s.Operable)
    (hquarantined : ∀ inbound ∈ inbounds, inbound.Quarantined) (hids : s.HasIds inbounds)
    {record : Order} (hmem : record ∈ (s.run inbounds).wal) (hkind : record.kind ≠ .cancel) :
  record.id < (s.run inbounds).state.engine.globalOrderIdCounter
  := by
  induction inbounds using List.reverseRecOn with
  | nil => exact nomatch hmem
  | append_singleton earlier inbound ih =>
      obtain ⟨hstate, hwal, -⟩ := s.run_concat earlier inbound
      have hcounter := hids earlier (List.prefix_append _ _)
      have hnext := hids (earlier ++ [inbound]) List.prefix_rfl
      rw [hstate] at hnext
      obtain ⟨hle, hlt⟩ := id_lt_of_mem_wal_handle (h.run earlier)
        (hquarantined inbound (by simp)) hcounter hnext
      rw [hwal] at hmem
      rw [hstate]
      rcases List.mem_append.mp hmem with hmem | hmem
      · apply UInt64.lt_of_lt_of_le _ hle
        exact ih (fun m hm => hquarantined m (List.mem_append_left _ hm)) hids.of_append hmem
      · exact hlt record hmem hkind

/-- Short of the counter's wrap every order gets an id of its own. -/
theorem hasIds_of_lt (h : s.Reachable) (hquarantined : ∀ inbound ∈ inbounds, inbound.Quarantined)
    (hcounter : s.engine.globalOrderIdCounter ≠ 0)
    (hroom : s.engine.globalOrderIdCounter.toNat + inbounds.length < 2 ^ 64) :
  s.HasIds inbounds
  := h.operable.hasIds_of_lt hquarantined hcounter hroom

/-- Replaying a run's log restores the run's state but for the tags. -/
theorem untag_replayAll_run (h : s.Reachable)
    (hquarantined : ∀ inbound ∈ inbounds, inbound.Quarantined) (htakes : s.TakesAll inbounds)
    (hids : s.HasIds inbounds) :
  (s.replayAll (s.run inbounds).wal).untag = (s.run inbounds).state.untag
  := h.operable.untag_replayAll_run hquarantined htakes hids

/-- A logged order has an id below the counter. -/
theorem id_lt_of_mem_wal (h : s.Reachable)
    (hquarantined : ∀ inbound ∈ inbounds, inbound.Quarantined) (hids : s.HasIds inbounds)
    {record : Order} (hmem : record ∈ (s.run inbounds).wal) (hkind : record.kind ≠ .cancel) :
  record.id < (s.run inbounds).state.engine.globalOrderIdCounter
  := h.operable.id_lt_of_mem_wal hquarantined hids hmem hkind

/-- Replaying the log of a run repeats the run but for the routing tags, of which a recovery
from no tags leaves none; and the identifiers it hands out next are new. -/
theorem replayAll_wal (h : s.Reachable)
    (hquarantined : ∀ inbound ∈ inbounds, inbound.Quarantined) (htakes : s.TakesAll inbounds)
    (hids : s.HasIds inbounds) :
  (s.replayAll (s.run inbounds).wal).untag = (s.run inbounds).state.untag
    ∧ (s.untag = s →
      s.replayAll (s.run inbounds).wal = (s.run inbounds).state.untag)
    ∧ ∀ record ∈ (s.run inbounds).wal, record.kind ≠ .cancel →
      record.id < (s.replayAll (s.run inbounds).wal).engine.globalOrderIdCounter
  := by
  have hrun := untag_replayAll_run h hquarantined htakes hids
  have hcounter : (s.replayAll (s.run inbounds).wal).engine.globalOrderIdCounter
      = (s.run inbounds).state.engine.globalOrderIdCounter :=
    congrArg (·.engine.globalOrderIdCounter) hrun
  refine ⟨hrun, ?_, ?_⟩
  · intro hs
    rw [← hrun, ← replayAll_untag, hs]
  · intro record hmem hkind
    rw [hcounter]
    exact id_lt_of_mem_wal h hquarantined hids hmem hkind

/-! ### Two runs -/

/-- A bid for five units at 100 dollars, by the client whose tag is 7. -/
def taggedBid : InboundMessage where
  order := Order.newClientLimit 9 1 .btc .buy 100 5
  clientId := 7

/-- The cancel of the bid. -/
def taggedCancel : InboundMessage where
  order := Order.newCancel 1 1 .btc
  clientId := 7

/-- The exchange whose counter has reached the largest identifier. -/
def lastId : Exchange :=
  funded.replay (Order.newLimit 0xFFFFFFFFFFFFFFFE 1 .btc .buy 100 5)

theorem quarantined_taggedBid :
  ∀ inbound ∈ [taggedBid, taggedCancel], inbound.Quarantined
  := by
  intro inbound hmem
  rcases List.mem_pair.mp hmem with rfl | rfl
  · exact ⟨by decide, fun _ => rfl⟩
  · exact ⟨by decide, fun h => absurd rfl h⟩

theorem prefix_pair {m₁ m₂ inbound : InboundMessage} {earlier : List InboundMessage}
    (h : earlier ++ [inbound] <+: [m₁, m₂]) :
  (earlier = [] ∧ inbound = m₁) ∨ (earlier = [m₁] ∧ inbound = m₂)
  := by
  rcases earlier with _ | ⟨m, _ | ⟨m', earlier⟩⟩
  · simp_all
  · simp_all
  · simp at h

/-- The tagged bid and its cancel find room. -/
theorem takesAll_taggedBid :
  funded.TakesAll [taggedBid, taggedCancel]
  := by
  rintro earlier inbound hmem hkind risk -
  rcases prefix_pair hmem with ⟨rfl, rfl⟩ | ⟨rfl, rfl⟩
  · refine ⟨⟨0, 5, false⟩, ?_⟩
    decide +kernel
  · exact absurd rfl hkind

theorem hasIds_taggedBid :
  funded.HasIds [taggedBid, taggedCancel]
  := hasIds_of_lt (Reachable.new.deposit 1 1000000000 0 0) quarantined_taggedBid (by decide)
    (by decide)

theorem takesAll_lastId :
  lastId.TakesAll [taggedBid]
  := by
  rintro earlier inbound hmem hkind risk -
  rcases prefix_pair (hmem.trans (List.prefix_append _ [taggedCancel])) with
    ⟨rfl, rfl⟩ | ⟨rfl, rfl⟩
  · refine ⟨⟨0, 5, false⟩, ?_⟩
    decide +kernel
  · exact absurd rfl hkind

theorem untag_funded :
  funded.untag = funded
  := by
  unfold funded
  rw [← deposit_untag, untag_new]

/-- The tagged bid and its cancel are replayed from their log. -/
theorem replayAll_wal_taggedBid :
  funded.replayAll (funded.run [taggedBid, taggedCancel]).wal
    = (funded.run [taggedBid, taggedCancel]).state.untag
  := (replayAll_wal (Reachable.new.deposit 1 1000000000 0 0) quarantined_taggedBid
    takesAll_taggedBid hasIds_taggedBid).2.1 untag_funded

/-- The exchange without the tags of the resting orders. -/
def untagResting (s : Exchange) : Exchange :=
  { s with
    engine :=
      { s.engine with
        books := fun sym =>
          { s.engine.books sym with
            orderArena :=
              { (s.engine.books sym).orderArena with
                nodes := fun i =>
                  let node := (s.engine.books sym).orderArena.nodes i
                  if node.active then node.untag else node } } } }

/-- A slot that is freed keeps its tag, which the replay does not know; and after the largest
identifier the live counter comes round to zero, while the counter of the replay stays. -/
theorem not_replayed_taggedBid :
  (funded.Reachable ∧ (∀ inbound ∈ [taggedBid, taggedCancel], inbound.Quarantined)
      ∧ funded.TakesAll [taggedBid, taggedCancel]
      ∧ (funded.replayAll (funded.run [taggedBid, taggedCancel]).wal).untagResting
        ≠ (funded.run [taggedBid, taggedCancel]).state.untagResting)
    ∧ lastId.Reachable ∧ taggedBid.Quarantined ∧ lastId.TakesAll [taggedBid]
      ∧ (lastId.replayAll (lastId.run [taggedBid]).wal).engine.globalOrderIdCounter
        ≠ (lastId.run [taggedBid]).state.engine.globalOrderIdCounter
  := by
  have hfunded : funded.Reachable := Reachable.new.deposit 1 1000000000 0 0
  refine ⟨⟨hfunded, quarantined_taggedBid, takesAll_taggedBid, fun heq => ?_⟩,
    hfunded.replay _, quarantined_taggedBid _ (by simp), takesAll_lastId, ?_⟩
  · have hat := congrArg (fun s => ((s.engine.books 0).orderArena.nodes 0).clientId) heq
    revert hat
    decide +kernel
  · decide +kernel

end Exchange

end LimitOrderBook
