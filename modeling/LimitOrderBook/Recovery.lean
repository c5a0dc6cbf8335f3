import LimitOrderBook.Durability
import LimitOrderBook.Replay
import LimitOrderBook.Lifecycle

/-!
# Restart after a crash

A pipeline that starts on the file a crash has left has the exchange of the crashed one after a
first part of the messages it had handled, but for the routing tags and the counter of
identifiers, which is not behind (`recover_crashed`).  A restart prints an identifier and so takes
it; the replay on the next restart knows nothing of that, which is why the counters may differ.
-/

namespace LimitOrderBook

/-! ### The counter -/

namespace MultiAssetEngine

/-- The engine with another counter. -/
def setCounter (e : MultiAssetEngine) (counter : UInt64) : MultiAssetEngine :=
  { e with globalOrderIdCounter := counter }

variable (e : MultiAssetEngine) (counter : UInt64)

/-- A cancel does not look at the engine's id counter. -/
theorem cancelOrder_setCounter (symbolId : UInt16) (u k : UInt64) :
  (e.setCounter counter).cancelOrder symbolId u k
    = ((e.cancelOrder symbolId u k).1, (e.cancelOrder symbolId u k).2.setCounter counter)
  := by
  unfold cancelOrder
  cases symIdx symbolId with
  | none => rfl
  | some sym => rfl

/-- A cancel leaves the engine's id counter as it is. -/
theorem counter_cancelOrder (symbolId : UInt16) (u k : UInt64) :
  (e.cancelOrder symbolId u k).2.globalOrderIdCounter = e.globalOrderIdCounter
  := by
  unfold cancelOrder
  cases symIdx symbolId with
  | none => rfl
  | some sym => rfl

/-- An order that has an identifier is processed alike, whatever the counter. -/
theorem process_setCounter {o : Order} (hid : o.id ≠ 0) {sym : Fin NUM_SYMBOLS}
    (hsym : symIdx o.symbolId = some sym) (clientId : UInt64) (trades : List Trade) :
  (e.setCounter counter).process o clientId trades
      = ((e.process o clientId trades).1,
        (e.process o clientId trades).2.1.setCounter (max counter (o.id + 1)),
        (e.process o clientId trades).2.2)
    ∧ (e.process o clientId trades).2.1.globalOrderIdCounter
      = max e.globalOrderIdCounter (o.id + 1)
  := by
  rw [process_of_sym hsym, process_of_sym hsym]
  unfold stampId
  rw [if_neg hid, if_neg hid]
  exact ⟨rfl, rfl⟩

end MultiAssetEngine

/-- A counter is level with another, or one behind. -/
def Behind (c d : UInt64) : Prop := c.toNat ≤ d.toNat ∧ d.toNat ≤ c.toNat + 1

/-- Raising both counters to one bound keeps one behind the other. -/
theorem Behind.max {c d : UInt64} (h : Behind c d) (x : UInt64) :
  Behind (max c x) (max d x)
  := by
  obtain ⟨hle, hsucc⟩ := h
  unfold Behind
  rw [UInt64.toNat_max, UInt64.toNat_max]
  omega

namespace Exchange

variable {s : Exchange} {inbounds : List InboundMessage} {record : Order}

/-- The exchange with another counter. -/
def setCounter (s : Exchange) (counter : UInt64) : Exchange :=
  { s with engine := s.engine.setCounter counter }

/-- A record that names its order: a cancel, or an order under its identifier. -/
def Named (record : Order) : Prop := record.kind ≠ .cancel → record.id ≠ 0

/-- The replay of a record that names its order does not depend on the counter. -/
theorem replay_setCounter (hnamed : Named record) (hdeposit : record.kind ≠ .deposit)
    {counter : UInt64} (h : Behind counter s.engine.globalOrderIdCounter) :
  ∃ counter', (s.setCounter counter).replay record = (s.replay record).setCounter counter'
    ∧ Behind counter' (s.replay record).engine.globalOrderIdCounter
  := by
  by_cases hcancel : record.kind = .cancel
  · have heq := s.engine.cancelOrder_setCounter counter record.symbolId record.userId record.id
    use counter
    unfold replay MultiAssetEngine.replayOrder
    rw [if_neg hdeposit, if_neg hdeposit, if_pos hcancel, if_pos hcancel]
    dsimp only [setCounter]
    rw [heq]
    have hcounter := s.engine.counter_cancelOrder record.symbolId record.userId record.id
    split
    · exact ⟨rfl, h⟩
    · rcases hres : s.engine.cancelOrder record.symbolId record.userId record.id with
        ⟨reason | cancelled, engine⟩ <;>
        · rw [hres] at hcounter
          refine ⟨rfl, ?_⟩
          dsimp only at hcounter ⊢
          rwa [hcounter]
  · cases hlock : s.risk.lockOrderFunds record with
    | error reason =>
        rw [replay_of_reject _ hdeposit hcancel hlock, replay_of_reject (s.setCounter counter)
          hdeposit hcancel hlock]
        exact ⟨counter, rfl, h⟩
    | ok risk =>
        obtain ⟨sym, hsym⟩ := (RiskEngine.locked_of_ok hcancel hlock).exists_sym
        obtain ⟨heq, hcounter⟩ :=
          s.engine.process_setCounter counter (hnamed hcancel) hsym 0 []
        rw [replay_of_lock s hdeposit hcancel hlock,
          replay_of_lock (s.setCounter counter) hdeposit hcancel hlock]
        use max counter (record.id + 1)
        constructor
        · dsimp only [setCounter]
          rw [heq]
        · dsimp only
          rw [hcounter]
          apply h.max

/-- A replay of named orders does the same from any counter that is behind. -/
theorem replayAll_setCounter {records : List Order}
    (h : ∀ record ∈ records, Named record ∧ record.kind ≠ .deposit) {counter : UInt64}
    (hcounter : Behind counter s.engine.globalOrderIdCounter) :
  ∃ counter', (s.setCounter counter).replayAll records
      = (s.replayAll records).setCounter counter'
    ∧ Behind counter' (s.replayAll records).engine.globalOrderIdCounter
  := by
  induction records generalizing s counter with
  | nil => exact ⟨counter, rfl, hcounter⟩
  | cons record records ih =>
      obtain ⟨hnamed, hdeposit⟩ := h record List.mem_cons_self
      obtain ⟨counter₁, heq, hcounter₁⟩ := replay_setCounter hnamed hdeposit hcounter
      have hrest := ih (fun r hr => h r (List.mem_cons_of_mem record hr)) hcounter₁
      rw [← heq] at hrest
      exact hrest

theorem setCounter_untag (s : Exchange) (counter : UInt64) :
  (s.setCounter counter).untag = s.untag.setCounter counter
  := rfl

/-! ### The log of a run -/

/-- A round logs at most one record. -/
theorem length_wal_handle_le (h : s.Operable) (inbound : InboundMessage) :
  (s.handle inbound).wal.length ≤ 1
  := by
  rcases handle_cases h inbound with ⟨-, hwal⟩ | ⟨-, -, -, hwal⟩ | ⟨hkind, risk, hlock⟩
  · rw [hwal]
    exact Nat.zero_le 1
  · rw [hwal]
    exact Nat.le_refl 1
  · rw [wal_of_lock hkind hlock]
    exact Nat.le_refl 1

/-- A first part of the log is the log of a first part of the run, and all of it that of the
run. -/
theorem exists_take_wal (h : s.Operable) (inbounds : List InboundMessage) (n : Nat) :
  ∃ m, (s.run (inbounds.take m)).wal = (s.run inbounds).wal.take n
    ∧ ((s.run inbounds).wal.length ≤ n → inbounds.take m = inbounds)
  := by
  by_cases hall : (s.run inbounds).wal.length ≤ n
  · use inbounds.length
    rw [List.take_length, List.take_of_length_le hall]
    exact ⟨rfl, fun _ => rfl⟩
  suffices hsome : ∃ m, (s.run (inbounds.take m)).wal = (s.run inbounds).wal.take n by
    obtain ⟨m, hm⟩ := hsome
    exact ⟨m, hm, fun hle => absurd hle hall⟩
  clear hall
  induction inbounds using List.reverseRecOn with
  | nil => exact ⟨0, (List.take_nil).symm⟩
  | append_singleton earlier inbound ih =>
      obtain ⟨-, hwal, -⟩ := s.run_concat earlier inbound
      have hone := length_wal_handle_le (h.run earlier) inbound
      rcases Nat.lt_or_ge (s.run earlier).wal.length n with hlt | hge
      · use (earlier ++ [inbound]).length
        rw [List.take_length, List.take_of_length_le]
        rw [hwal, List.length_append]
        omega
      · obtain ⟨m, hm⟩ := ih
        rw [hwal, List.take_append_of_le_length hge, ← hm]
        rcases Nat.lt_or_ge earlier.length m with hm' | hm'
        · use earlier.length
          rw [List.take_append_of_le_length (Nat.le_refl _), List.take_length,
            List.take_of_length_le (Nat.le_of_lt hm')]
        · use m
          rw [List.take_append_of_le_length hm']

/-- What a run logs names its orders, and there are no deposits. -/
theorem named_of_mem_wal (h : s.Operable)
    (hquarantined : ∀ inbound ∈ inbounds, inbound.Quarantined) (hids : s.HasIds inbounds) :
  ∀ record ∈ (s.run inbounds).wal, Named record ∧ record.kind ≠ .deposit
  := by
  induction inbounds using List.reverseRecOn with
  | nil => exact fun _ hmem => nomatch hmem
  | append_singleton earlier inbound ih =>
      obtain ⟨-, hwal, -⟩ := s.run_concat earlier inbound
      have hq := hquarantined inbound (by simp)
      intro record hmem
      rw [hwal] at hmem
      rcases List.mem_append.mp hmem with hmem | hmem
      · apply ih (fun m hm => hquarantined m (List.mem_append_left _ hm)) hids.of_append record hmem
      · rcases handle_cases (h.run earlier) inbound with
          ⟨-, hnil⟩ | ⟨hkind, -, -, hone⟩ | ⟨hkind, risk, hlock⟩
        · rw [hnil] at hmem
          cases hmem
        · rw [hone, List.mem_singleton] at hmem
          rw [hmem]
          exact ⟨fun hne => absurd hkind hne, hq.not_deposit⟩
        · rw [wal_of_lock hkind hlock, List.mem_singleton] at hmem
          have hassigned := (s.run earlier).state.assigned_eq inbound
          rw [hmem]
          constructor
          · intro _
            unfold assigned assignId
            rw [if_pos (hq.id_eq hkind)]
            exact hids earlier (List.prefix_append _ _)
          · rw [hassigned]
            apply hq.not_deposit

/-! ### Restarts -/

/-- The exchange after a restart with the records of a log. -/
def restart (records : List Order) : Exchange :=
  if records = [] then prefunded
  else
    let s := prefunded.replayAll records
    s.setCounter (s.engine.globalOrderIdCounter + 1)

/-- What the reader returns is replayed from the start-up state. -/
theorem recover_of_readAll {file : List UInt8} {rs : List WalRecord}
    (h : WalReader.readAll file = .ok rs) :
  recover file = restart ((rs.map WalRecord.entry).map Prod.fst)
  := by
  unfold recover restart
  rw [h, List.map_map]
  dsimp only
  by_cases hrs : rs = []
  · rw [if_pos hrs, hrs]
    rfl
  · rw [if_neg hrs, if_neg (by simpa using hrs)]
    rfl

/-- The recovered exchange has replayed what all sessions wrote. -/
theorem recover_sessions (ss : List (List (Order × UInt64))) :
  recover (WalWriter.sessions ss) = restart (ss.flatten.map Prod.fst)
  := by
  by_cases hnil : WalWriter.sessions ss = []
  · rw [hnil, Pipeline.flatten_of_sessions_eq_nil hnil]
    rfl
  · have hread : WalReader.readAll (WalWriter.sessions ss) = .ok (numbered 1 ss.flatten) := by
      rw [WalWriter.sessions_eq hnil, readAll_fileHeader_append,
        records_encodeAll intact_of_mem_numbered]
    rw [recover_of_readAll hread, map_entry_numbered]

theorem recover_nil :
  recover [] = prefunded
  := rfl

/-- The deposits that the exchange makes at its start. -/
def testAccounts : List Funding :=
  [⟨1, 10000000000, 0, 1000⟩, ⟨1, 0, 1, 10000⟩, ⟨1, 0, 2, 100000⟩, ⟨2, 10000000000, 0, 1000⟩,
    ⟨2, 0, 1, 10000⟩, ⟨2, 0, 2, 100000⟩]

/-- The start-up state is live. -/
theorem live_prefunded :
  prefunded.Live
  := live_fund testAccounts

theorem operable_prefunded :
  prefunded.Operable
  := live_prefunded.operable

/-- The counter is of no account to what rests and what is owned. -/
theorem Operable.setCounter (h : s.Operable) (counter : UInt64) :
  (s.setCounter counter).Operable
  := by
  obtain ⟨E, hs⟩ := h
  exact ⟨E, hs.layouts.congr rfl, hs.symbol_eq, hs.account⟩

/-- A restarted exchange is operable. -/
theorem operable_restart (records : List Order) :
  (restart records).Operable
  := by
  unfold restart
  split
  · apply operable_prefunded
  · apply Operable.setCounter
    apply operable_prefunded.replayAll

/-- An exchange goes on where another is: with the same books but for the tags, with the same
accounts, and with no identifier that the other has given away. -/
structure Resumes (s live : Exchange) : Prop where
  untag_eq : s.untag = live.untag.setCounter s.engine.globalOrderIdCounter
  counter_le : live.engine.globalOrderIdCounter ≤ s.engine.globalOrderIdCounter

/-- An exchange that resumes one that has given away the identifiers of all orders that rest has
given them away too. -/
theorem Resumes.live {live : Exchange} (h : s.Resumes live) (hoperable : s.Operable)
    (hlive : live.Live) :
  s.Live
  := by
  have hle := UInt64.le_iff_toNat_le.mp h.counter_le
  refine ⟨hoperable, ?_, fun k hk => ?_⟩
  · have hne := hlive.counter_ne
    rw [ne_eq, ← UInt64.toNat_inj, UInt64.toNat_zero] at hne ⊢
    omega
  · have hopen := congrArg (fun s : Exchange => s.engine.openQty k) h.untag_eq
    change s.engine.openQty k = live.engine.openQty k at hopen
    rw [hopen]
    apply hlive.openQty_eq k (UInt64.le_trans h.counter_le hk)

/-- A restart takes an identifier that the replay knows nothing of. -/
theorem exists_setCounter_restart (records : List Order)
    (hcounter : (restart records).engine.globalOrderIdCounter ≠ 0) :
  ∃ counter, prefunded.replayAll records = (restart records).setCounter counter
    ∧ Behind counter (restart records).engine.globalOrderIdCounter
  := by
  unfold restart at hcounter ⊢
  by_cases hnil : records = []
  · rw [if_pos hnil, hnil]
    exact ⟨_, rfl, Nat.le_refl _, Nat.le_succ _⟩
  · rw [if_neg hnil] at hcounter ⊢
    refine ⟨(prefunded.replayAll records).engine.globalOrderIdCounter, rfl, ?_⟩
    have hnext : (prefunded.replayAll records).engine.globalOrderIdCounter + 1 ≠ 0 := hcounter
    have hlt := UInt64.lt_iff_toNat_lt.mp (lt_counter hnext)
    refine ⟨Nat.le_of_lt hlt, ?_⟩
    change ((prefunded.replayAll records).engine.globalOrderIdCounter + 1).toNat ≤ _
    rw [UInt64.toNat_add, UInt64.toNat_one]
    apply Nat.mod_le

/-- A restart with the records of earlier runs and of one more goes on where that run is. -/
theorem restart_append {records : List Order}
    (hquarantined : ∀ inbound ∈ inbounds, inbound.Quarantined)
    (htakes : (restart records).TakesAll inbounds)
    (hcounter : (restart records).engine.globalOrderIdCounter ≠ 0)
    (hroom : (restart records).engine.globalOrderIdCounter.toNat + inbounds.length + 1 < 2 ^ 64) :
  (restart (records ++ ((restart records).run inbounds).wal)).Resumes
    ((restart records).run inbounds).state
  := by
  have hoperable := operable_restart records
  have hids := hoperable.hasIds_of_lt hquarantined hcounter (by omega)
  have hreplay := hoperable.untag_replayAll_run hquarantined htakes hids
  have hnamed := named_of_mem_wal hoperable hquarantined hids
  obtain ⟨-, hle⟩ := counter_run hoperable hquarantined hcounter (by omega)
  generalize hlive : ((restart records).run inbounds).state = live at hreplay hle ⊢
  generalize hnew : ((restart records).run inbounds).wal = new at hreplay hnamed ⊢
  have hlevel : ((restart records).replayAll new).engine.globalOrderIdCounter
      = live.engine.globalOrderIdCounter :=
    congrArg (·.engine.globalOrderIdCounter) hreplay
  obtain ⟨counter, hprefunded, hbehind⟩ := exists_setCounter_restart records hcounter
  obtain ⟨counter', hall, hbehind'⟩ := replayAll_setCounter hnamed hbehind
  rw [hlevel] at hbehind'
  have happend : prefunded.replayAll (records ++ new)
      = ((restart records).replayAll new).setCounter counter' := by
    rw [replayAll, List.foldl_append]
    change (prefunded.replayAll records).replayAll new = _
    rw [hprefunded, hall]
  by_cases hnil : records ++ new = []
  · obtain ⟨rfl, rfl⟩ := List.append_eq_nil_iff.mp hnil
    change (restart []).untag = live.untag at hreplay
    change (restart []).engine.globalOrderIdCounter = live.engine.globalOrderIdCounter at hlevel
    constructor
    · change (restart []).untag = live.untag.setCounter (restart []).engine.globalOrderIdCounter
      rw [hreplay, hlevel]
      rfl
    · exact UInt64.le_of_eq hlevel.symm
  · have hrestart : restart (records ++ new)
        = ((restart records).replayAll new).setCounter (counter' + 1) := by
      rw [restart, if_neg hnil, happend]
      rfl
    rw [hrestart]
    constructor
    · rw [setCounter_untag, hreplay]
      rfl
    · obtain ⟨hle', hsucc⟩ := hbehind'
      change live.engine.globalOrderIdCounter ≤ counter' + 1
      have hsum : (counter' + 1).toNat = counter'.toNat + 1 := by
        rw [UInt64.toNat_add_of_lt'] <;> rw [UInt64.toNat_one]
        omega
      rw [UInt64.le_iff_toNat_le, hsum]
      exact hsucc

/-- A restart with a first part of the log of a run goes on where the run was after a first part
of its messages, and with all of the log after all of them. -/
theorem exists_restart_take {records : List Order}
    (hquarantined : ∀ inbound ∈ inbounds, inbound.Quarantined)
    (htakes : (restart records).TakesAll inbounds)
    (hcounter : (restart records).engine.globalOrderIdCounter ≠ 0)
    (hroom : (restart records).engine.globalOrderIdCounter.toNat + inbounds.length + 1 < 2 ^ 64)
    (n : Nat) :
  ∃ m, ((restart records).run (inbounds.take m)).wal = ((restart records).run inbounds).wal.take n
    ∧ (((restart records).run inbounds).wal.length ≤ n → inbounds.take m = inbounds)
    ∧ (restart (records ++ ((restart records).run inbounds).wal.take n)).Resumes
      ((restart records).run (inbounds.take m)).state
    ∧ ((restart records).Live →
      (restart (records ++ ((restart records).run inbounds).wal.take n)).Live)
  := by
  obtain ⟨m, hm, hall⟩ := exists_take_wal (operable_restart records) inbounds n
  have hlen : (inbounds.take m).length ≤ inbounds.length := by
    rw [List.length_take]
    apply Nat.min_le_right
  have htaken : ∀ inbound ∈ inbounds.take m, inbound.Quarantined :=
    fun inbound hmem => hquarantined inbound (List.mem_of_mem_take hmem)
  have hresumes : (restart (records ++ ((restart records).run inbounds).wal.take n)).Resumes
      ((restart records).run (inbounds.take m)).state := by
    rw [← hm]
    apply restart_append htaken
    · rw [← List.take_append_drop m inbounds] at htakes
      apply htakes.of_append
    · apply hcounter
    · omega
  refine ⟨m, hm, hall, hresumes, fun hlive => ?_⟩
  apply hresumes.live (operable_restart _) (hlive.run htaken (by omega))

end Exchange

namespace Pipeline

variable {as : List Pipeline.Action} {p : Pipeline}

/-- What the loop has handled has passed the quarantine of the gateway. -/
theorem id_of_mem_handled {file : List UInt8} (h : Runs file as p) (haccepted : p.accepted < 2 ^ 64)
    {inbound : InboundMessage} (hmem : inbound ∈ handled file as)
    (hkind : inbound.order.kind ≠ .cancel) :
  inbound.order.id = 0
  := by
  obtain ⟨i, -, horder⟩ := (serves h haccepted).exists_mem_ingress hmem
  obtain ⟨o, hadmitted⟩ := admitted_of_mem_ingress horder
  apply hadmitted.id_eq hkind

/-- A pipeline that starts on the file that a crash has left goes on where the crashed one was
after a first part of the messages it had handled.  The log of that part lacks at most a thousand
of the records that had been logged, and nothing is lost if the loop and the logger were at
rest.  If no identifier of a resting order could be given away again before, none can now. -/
theorem recover_crashed {ss : List (List (Order × UInt64))}
    (h : Runs (WalWriter.sessions ss) as p) (haccepted : p.accepted < 2 ^ 64)
    (hdeposits : ∀ inbound ∈ handled (WalWriter.sessions ss) as, inbound.order.kind ≠ .deposit)
    (htakes : (Exchange.recover (WalWriter.sessions ss)).TakesAll
      (handled (WalWriter.sessions ss) as))
    (hcounter : (Exchange.recover (WalWriter.sessions ss)).engine.globalOrderIdCounter ≠ 0)
    (hroom : (Exchange.recover (WalWriter.sessions ss)).engine.globalOrderIdCounter.toNat
      + (handled (WalWriter.sessions ss) as).length + 1 < 2 ^ 64)
    (k : Nat) :
  ∃ m live,
    live = (Exchange.recover (WalWriter.sessions ss)).run
        ((handled (WalWriter.sessions ss) as).take m)
      ∧ (Exchange.recover (p.crashed k)).Resumes live.state
      ∧ (logged (WalWriter.sessions ss) as).length ≤ live.wal.length + 1000
      ∧ (p.sends = [] → p.walRx.items = [] → p.logger.unchecked = false →
        live.state = p.exchange)
      ∧ ((Exchange.recover (WalWriter.sessions ss)).Live → (Exchange.recover (p.crashed k)).Live)
  := by
  have hloops := loops h
  obtain ⟨n, hread, hlength, hidle⟩ := exists_readAll_crashed h k
  have hquarantined : ∀ inbound ∈ handled (WalWriter.sessions ss) as, inbound.Quarantined :=
    fun inbound hmem => ⟨hdeposits inbound hmem, id_of_mem_handled h haccepted hmem⟩
  have hprefix : (logged (WalWriter.sessions ss) as).map Prod.fst
      <+: ((Exchange.recover (WalWriter.sessions ss)).run
        (handled (WalWriter.sessions ss) as)).wal := by
    rw [← hloops.wal_eq, List.map_append, List.map_append, List.append_assoc]
    apply List.prefix_append
  have hall : p.sends = [] → p.walRx.items = [] →
      ((Exchange.recover (WalWriter.sessions ss)).run (handled (WalWriter.sessions ss) as)).wal
        = (logged (WalWriter.sessions ss) as).map Prod.fst := by
    intro hsends hwalRx
    rw [← hloops.wal_eq, hsends, hwalRx]
    simp [Sending.records]
  have hexchange := hloops.exchange_eq
  generalize handled (WalWriter.sessions ss) as = inbounds at *
  generalize logged (WalWriter.sessions ss) as = records at *
  rw [Exchange.recover_sessions ss] at *
  obtain ⟨m, hm, hmall, hresumes, hlive⟩ := Exchange.exists_restart_take hquarantined htakes
    hcounter hroom (min n records.length)
  have htake : (records.take n).map Prod.fst
      = ((Exchange.restart (ss.flatten.map Prod.fst)).run inbounds).wal.take
        (min n records.length) := by
    rw [List.map_take, List.prefix_iff_eq_take.mp hprefix, List.take_take, List.length_map]
  rw [Exchange.recover_of_readAll hread, map_entry_numbered, List.map_append, htake]
  refine ⟨m, _, rfl, hresumes, ?_, ?_, hlive⟩
  · have hle := hprefix.length_le
    rw [List.length_map] at hle
    rw [hm, List.length_take]
    omega
  · intro hsends hwalRx hchecked
    have hwal := hall hsends hwalRx
    have hrecords := congrArg List.length (hidle hchecked hwalRx)
    rw [List.length_take] at hrecords
    rw [hmall _, hexchange]
    rw [hwal, List.length_map]
    omega

/-- The sample run handles its one order. -/
theorem handled_firstActions :
  handled [] firstActions = [⟨{ firstOrder with id := 0 }, 1⟩]
  := by
  have hfields : (handled [] firstActions).map (fun inbound => (inbound.order, inbound.clientId))
      = [({ firstOrder with id := 0 }, 1)] := by
    decide +kernel
  obtain ⟨inbound, hone, heq⟩ := List.map_eq_singleton_iff.mp hfields
  obtain ⟨horder, hclient⟩ := Prod.mk.inj heq
  rw [hone, ← horder, ← hclient]

/-- The sample order finds room. -/
theorem takesAll_firstActions :
  (Exchange.recover []).TakesAll (handled [] firstActions)
  := by
  rintro earlier inbound hinitial hkind risk -
  rw [handled_firstActions] at hinitial
  have hlength := hinitial.length_le
  obtain rfl : earlier = [] := by
    apply List.eq_nil_of_length_eq_zero
    rw [List.length_append, List.length_singleton, List.length_singleton] at hlength
    omega
  obtain rfl := List.mem_singleton.mp (hinitial.subset List.mem_cons_self)
  refine ⟨⟨0, 1, false⟩, ?_⟩
  decide +kernel

/-- In the sample run a crash loses the unwritten tail only. -/
theorem recover_crashed_firstActions :
  ∃ p, Runs [] firstActions p ∧ ∀ k, ∃ m live,
    live = (Exchange.recover []).run ((handled [] firstActions).take m)
      ∧ (Exchange.recover (p.crashed k)).Resumes live.state
      ∧ (logged [] firstActions).length ≤ live.wal.length + 1000
      ∧ (p.sends = [] → p.walRx.items = [] → p.logger.unchecked = false → live.state = p.exchange)
      ∧ (Exchange.recover (p.crashed k)).Live
  := by
  obtain ⟨p, hrun, haccepted⟩ := exists_runs_firstActions
  have hsessions : Runs (WalWriter.sessions []) firstActions p := hrun
  have hcrashed := recover_crashed hsessions (by rw [haccepted]; decide) ?_
    takesAll_firstActions ?_ ?_
  · refine ⟨p, hrun, fun k => ?_⟩
    obtain ⟨m, live, heq, hresumes, hlength, hidle, hlive⟩ := hcrashed k
    exact ⟨m, live, heq, hresumes, hlength, hidle, hlive Exchange.live_prefunded⟩
  · change ∀ inbound ∈ handled [] firstActions, _
    rw [handled_firstActions]
    intro inbound hmem
    obtain rfl := List.mem_singleton.mp hmem
    decide
  · decide +kernel
  · change (Exchange.recover []).engine.globalOrderIdCounter.toNat
      + (handled [] firstActions).length + 1 < 2 ^ 64
    rw [handled_firstActions]
    decide +kernel

end Pipeline

end LimitOrderBook
