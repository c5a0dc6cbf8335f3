import LimitOrderBook.PipelineSteps
import LimitOrderBook.Rounds

/-!
# The pipeline refines the loop

However the tasks interleave, the pipeline does what the loop does on its own on the messages in
the sequence in which it has taken them (`serves`): it is in the same state, it logs and sends
what the loop logs and sends, and what it takes from a client is what the reader makes of the
bytes of that client, in their sequence and nothing else.
-/

namespace LimitOrderBook

namespace Pipeline

variable {file : List UInt8} {as : List Pipeline.Action} {p p' : Pipeline} {a : Pipeline.Action}
  {i : Nat}

/-! ### What is observed -/

/-- The bytes that arrive at a connection. -/
def arrivals (i : Nat) (_ : Pipeline) : Action → List UInt8
  | .client j action => if j = i then Connection.arrivals action else []
  | _ => []

/-- The bytes its reader takes. -/
def readings (i : Nat) (p : Pipeline) : Action → List UInt8
  | .client j action => if j = i then (p.connections i).readings action else []
  | _ => []

/-- The message the loop takes. -/
def handlings (p : Pipeline) : Action → List InboundMessage
  | .handle _ => p.orderRx.items.take 1
  | _ => []

/-- The record the logger takes. -/
def loggings (p : Pipeline) : Action → List (Order × UInt64)
  | .log => p.walRx.items.take 1
  | _ => []

/-- The event the dispatcher takes up. -/
def dispatchings (p : Pipeline) : Action → List OutboundEvent
  | .dispatch _ => p.outboundRx.items.take 1
  | _ => []

/-- The message that is put into the queue of a connection. -/
def receipts (i : Nat) (p : Pipeline) : Action → List ServerMessage
  | .deliver =>
      match p.deliveries with
      | [] => []
      | (clientId, msg) :: _ =>
          if p.clientSenders.lookup clientId = some i ∧ ((p.connections i).trySend msg).isSome then
            [msg]
          else []
  | _ => []

/-- The bytes that have arrived at a connection in a run on a file. -/
def arrived (file : List UInt8) (as : List Action) (i : Nat) : List UInt8 :=
  Machine.trace step (arrivals i) (start file) as

/-- The bytes of a connection that have been read. -/
def consumed (file : List UInt8) (as : List Action) (i : Nat) : List UInt8 :=
  Machine.trace step (readings i) (start file) as

/-- The messages the loop has handled. -/
def handled (file : List UInt8) (as : List Action) : List InboundMessage :=
  Machine.trace step handlings (start file) as

/-- The records that have been logged. -/
def logged (file : List UInt8) (as : List Action) : List (Order × UInt64) :=
  Machine.trace step loggings (start file) as

/-- The events that have been taken up. -/
def dispatched (file : List UInt8) (as : List Action) : List OutboundEvent :=
  Machine.trace step dispatchings (start file) as

/-- The messages that have been put into the queue of a connection. -/
def received (file : List UInt8) (as : List Action) (i : Nat) : List ServerMessage :=
  Machine.trace step (receipts i) (start file) as

/-- A run from the start. -/
def Runs (file : List UInt8) (as : List Action) (p : Pipeline) : Prop :=
  Machine.run step (start file) as = some p

theorem handled_concat (h : Runs file as p) (hstep : p.Step a p') :
  handled file (as ++ [a]) = handled file as ++ handlings p a
  := Machine.trace_concat h hstep.step_eq

theorem logged_concat (h : Runs file as p) (hstep : p.Step a p') :
  logged file (as ++ [a]) = logged file as ++ loggings p a
  := Machine.trace_concat h hstep.step_eq

theorem dispatched_concat (h : Runs file as p) (hstep : p.Step a p') :
  dispatched file (as ++ [a]) = dispatched file as ++ dispatchings p a
  := Machine.trace_concat h hstep.step_eq

/-- The induction over the runs from the start. -/
theorem runs_induction {P : List Action → Pipeline → Prop} (hstart : P [] (start file))
    (hconcat : ∀ as a p p', Runs file as p → p.Step a p' → P as p → P (as ++ [a]) p')
    (h : Runs file as p) :
  P as p
  := Machine.run_induction hstart
    (fun as a p p' hrun hstep => hconcat as a p p' hrun (Step.of_step hstep)) h

/-! ### The loop -/

@[simp]
theorem records_ofRound (now : UInt64) (round : Round) :
  (Sending.records (Sending.ofRound now round)).map Prod.fst = round.wal
  := by
  unfold Sending.records Sending.ofRound
  rw [List.filterMap_append, List.filterMap_map, List.filterMap_map]
  simp [Function.comp_def]

@[simp]
theorem events_ofRound (now : UInt64) (round : Round) :
  Sending.events (Sending.ofRound now round) = round.events
  := by
  unfold Sending.events Sending.ofRound
  rw [List.filterMap_append, List.filterMap_map, List.filterMap_map]
  simp

/-- What the loop of the pipeline has done is what the loop does on the messages handled. -/
structure Loops (file : List UInt8) (as : List Action) (p : Pipeline) : Prop where
  exchange_eq : p.exchange = ((Exchange.recover file).run (handled file as)).state
  wal_eq : (logged file as ++ p.walRx.items ++ Sending.records p.sends).map Prod.fst
    = ((Exchange.recover file).run (handled file as)).wal
  events_eq : dispatched file as ++ p.outboundRx.items ++ Sending.events p.sends
    = ((Exchange.recover file).run (handled file as)).events

/-- An action of another task than the loop: what has been logged and dispatched, waits, and is
still to be sent is the same as before. -/
theorem Loops.keep (h : Loops file as p) (hrun : Runs file as p) (hstep : p.Step a p')
    (hhandlings : handlings p a = []) (hexchange : p'.exchange = p.exchange)
    (hwal : loggings p a ++ p'.walRx.items ++ Sending.records p'.sends
      = p.walRx.items ++ Sending.records p.sends)
    (hevents : dispatchings p a ++ p'.outboundRx.items ++ Sending.events p'.sends
      = p.outboundRx.items ++ Sending.events p.sends) :
  Loops file (as ++ [a]) p'
  := by
  have hhandled := handled_concat hrun hstep
  rw [hhandlings, List.append_nil] at hhandled
  simp only [List.append_assoc] at hwal hevents
  constructor
  · rw [hhandled, hexchange, h.exchange_eq]
  · rw [hhandled, ← h.wal_eq, logged_concat hrun hstep]
    simp only [List.append_assoc, hwal]
  · rw [hhandled, ← h.events_eq, dispatched_concat hrun hstep]
    simp only [List.append_assoc, hevents]

/-- The loop handles a message. -/
theorem Loops.handle (h : Loops file as p) (hrun : Runs file as p) {now : UInt64}
    {inbound : InboundMessage} {orderRx : Channel InboundMessage 100000} (hsends : p.sends = [])
    (hrecv : p.orderRx.recv = some (inbound, orderRx)) :
  Loops file (as ++ [.handle now])
    { p with
      orderRx := orderRx, exchange := (p.exchange.handle inbound).state,
      sends := Sending.ofRound now (p.exchange.handle inbound) }
  := by
  have hstep : p.Step (.handle now) _ := Step.handle hsends hrecv
  obtain ⟨hexchange, hwal, hevents⟩ := h
  have hhandled : handled file (as ++ [.handle now]) = handled file as ++ [inbound] := by
    rw [handled_concat hrun hstep, handlings, Channel.recv_eq_some_iff.mp hrecv]
    rfl
  have hlogged : logged file (as ++ [.handle now]) = logged file as :=
    (logged_concat hrun hstep).trans (List.append_nil _)
  have hdispatched : dispatched file (as ++ [.handle now]) = dispatched file as :=
    (dispatched_concat hrun hstep).trans (List.append_nil _)
  have hround := (Exchange.recover file).run_concat_eq (handled file as) inbound
  rw [← hexchange] at hround
  rw [hsends, Sending.records, List.filterMap_nil, List.append_nil] at hwal
  rw [hsends, Sending.events, List.filterMap_nil, List.append_nil] at hevents
  constructor
  · rw [hhandled, hround]
    rfl
  · rw [hhandled, hround, hlogged, List.map_append, records_ofRound, hwal]
    rfl
  · rw [hhandled, hround, hdispatched, events_ofRound, hevents]
    rfl

/-- Every step keeps the loops' accounts. -/
theorem Loops.step (h : Loops file as p) (hrun : Runs file as p) (hstep : p.Step a p') :
  Loops file (as ++ [a]) p'
  := by
  cases id hstep with
  | accept | client | announce | submit | farewell | check | connection | deliverNone | deliverSent
  | deliverEvict => apply h.keep hrun hstep <;> rfl
  | handle hsends hrecv => apply h.handle hrun hsends hrecv
  | sendRecord hsends hsend =>
      refine h.keep hrun hstep rfl rfl ?_ ?_
      · rw [(Channel.send_eq_some_iff.mp hsend).2, hsends]
        simp [Sending.records, loggings]
      · rw [hsends]
        rfl
  | sendEvent hsends hsend =>
      refine h.keep hrun hstep rfl rfl ?_ ?_
      · rw [hsends]
        rfl
      · rw [(Channel.send_eq_some_iff.mp hsend).2, hsends]
        simp [Sending.events, dispatchings]
  | log hchecked hrecv =>
      refine h.keep hrun hstep rfl rfl ?_ rfl
      rw [loggings, Channel.recv_eq_some_iff.mp hrecv]
      rfl
  | dispatch hdeliveries hclients hrecv =>
      refine h.keep hrun hstep rfl rfl rfl ?_
      rw [dispatchings, Channel.recv_eq_some_iff.mp hrecv]
      rfl

/-- In every run the loops account for what they have taken up. -/
theorem loops (h : Runs file as p) :
  Loops file as p
  := by
  apply runs_induction (P := Loops file) _ _ h
  · exact ⟨rfl, rfl, rfl⟩
  · intro as a p p' hrun hstep hloops
    apply hloops.step hrun hstep

/-! ### The connections -/

/-- An idle connection takes no step. -/
theorem not_step_idle {action : Connection.Action} {c : Connection} :
  ¬ Connection.idle.step action = some c
  := by
  intro h
  cases Connection.step_eq_some_iff.mp h with
  | arrive hopen => cases hopen
  | hangUp hopen => cases hopen
  | read hphase => cases hphase
  | leave hphase => cases hphase
  | take hreceiving => cases hreceiving
  | write hreceiving => cases hreceiving
  | fail hreceiving => cases hreceiving
  | abort hreceiving => cases hreceiving

/-- Only an accept changes the number of connections. -/
theorem accepted_eq (hstep : p.Step a p') (ha : a ≠ .accept) :
  p'.accepted = p.accepted
  := by
  cases hstep with
  | accept => exact absurd rfl ha
  | _ => rfl

theorem accepted_le (hstep : p.Step a p') :
  p.accepted ≤ p'.accepted
  := by
  cases hstep with
  | accept => exact Nat.le_succ _
  | _ => exact Nat.le_refl _

/-- A connection that has not been accepted is idle. -/
theorem connections_of_le (h : Runs file as p) :
  ∀ i, p.accepted ≤ i → p.connections i = Connection.idle
  := by
  apply runs_induction (P := fun _ p => ∀ i, p.accepted ≤ i → p.connections i = Connection.idle)
    (fun _ _ => rfl) _ h
  clear h
  intro as a p p' hrun hstep ih i hi
  have hne {j : Nat} (hj : p.connections j ≠ Connection.idle) (hi : p.accepted ≤ i) : i ≠ j := by
    rintro rfl
    exact hj (ih i hi)
  cases hstep with
  | accept =>
      dsimp only at hi ⊢
      rw [connections_setConnection_of_ne p (by omega)]
      apply ih i (by omega)
  | @client j action c hclient =>
      rw [connections_setConnection_of_ne p]
      · apply ih i hi
      · apply hne _ hi
        intro hidle
        rw [hidle] at hclient
        exact not_step_idle hclient
  | announce hphase | submit hphase | farewell hphase =>
      dsimp only
      rw [connections_setConnection_of_ne p]
      · apply ih i hi
      · apply hne _ hi
        intro hidle
        rw [hidle] at hphase
        cases hphase
  | @deliverSent _ _ _ j c _ _ hsend =>
      dsimp only
      rw [connections_setConnection_of_ne p]
      · apply ih i hi
      · apply hne _ hi
        intro hidle
        rw [hidle] at hsend
        cases hsend
  | _ => apply ih i hi

/-- What an action of the pipeline is to one connection. -/
inductive Local (p : Pipeline) (i : Nat) (p' : Pipeline) : Action → Prop where
  | accept (hi : i = p.accepted) (hnew : p'.connections i = Connection.new) :
      Local p i p' .accept
  | client {action : Connection.Action}
      (hclient : (p.connections i).Step action (p'.connections i)) :
      Local p i p' (.client i action)
  | announce (hphase : (p.connections i).phase = .opening)
      (hreading : p'.connections i = { p.connections i with phase := .reading }) :
      Local p i p' (.announce i)
  | submit {order : Order} (hphase : (p.connections i).phase = .submitting order)
      (hreading : p'.connections i = { p.connections i with phase := .reading }) :
      Local p i p' (.submit i)
  | farewell (hphase : (p.connections i).phase = .closing)
      (hclosed : p'.connections i = { p.connections i with phase := .closed }) :
      Local p i p' (.farewell i)
  | deliver {clientId : UInt64} {msg : ServerMessage}
      {deliveries : List (UInt64 × ServerMessage)}
      (hdeliveries : p.deliveries = (clientId, msg) :: deliveries)
      (hlookup : p.clientSenders.lookup clientId = some i)
      (hsend : (p.connections i).trySend msg = some (p'.connections i)) :
      Local p i p' .deliver
  | other {a : Action} (hsame : p'.connections i = p.connections i)
      (harrivals : arrivals i p a = []) (hreadings : readings i p a = [])
      (hreceipts : receipts i p a = []) (hsubmit : a ≠ .submit i)
      (haccept : a = .accept → i ≠ p.accepted) :
      Local p i p' a

/-- A message that cannot be put into the queue of a connection is not received there. -/
theorem receipts_deliver_eq_nil {clientId : UInt64} {msg : ServerMessage}
    {deliveries : List (UInt64 × ServerMessage)}
    (hdeliveries : p.deliveries = (clientId, msg) :: deliveries)
    (hno : p.clientSenders.lookup clientId = some i → (p.connections i).trySend msg = none) :
  receipts i p .deliver = []
  := by
  rw [receipts, hdeliveries]
  apply if_neg
  rintro ⟨hlookup, hsome⟩
  rw [hno hlookup] at hsome
  contradiction

/-- Every step leaves each connection alone or is a step of it. -/
theorem Step.local (hstep : p.Step a p') (i : Nat) :
  Local p i p' a
  := by
  cases hstep with
  | accept =>
      rcases eq_or_ne i p.accepted with rfl | hi
      · exact Local.accept rfl (connections_setConnection_self p _ _)
      · exact Local.other (connections_setConnection_of_ne p hi _) rfl rfl rfl nofun fun _ => hi
  | @client j action c hclient =>
      rcases eq_or_ne i j with rfl | hi
      · apply Local.client
        rw [connections_setConnection_self]
        apply Connection.step_eq_some_iff.mp hclient
      · exact Local.other (connections_setConnection_of_ne p hi _) (if_neg hi.symm)
          (if_neg hi.symm) rfl nofun nofun
  | @announce j connRx hphase hsend =>
      rcases eq_or_ne i j with rfl | hi
      · exact Local.announce hphase (connections_setConnection_self p _ _)
      · exact Local.other (connections_setConnection_of_ne p hi _) rfl rfl rfl nofun nofun
  | @submit j order orderRx hphase hsend =>
      rcases eq_or_ne i j with rfl | hi
      · exact Local.submit hphase (connections_setConnection_self p _ _)
      · refine Local.other (connections_setConnection_of_ne p hi _) rfl rfl rfl ?_ nofun
        rintro ⟨⟩
        exact hi rfl
  | @farewell j connRx hphase hsend =>
      rcases eq_or_ne i j with rfl | hi
      · exact Local.farewell hphase (connections_setConnection_self p _ _)
      · exact Local.other (connections_setConnection_of_ne p hi _) rfl rfl rfl nofun nofun
  | @deliverSent clientId msg deliveries j c hdeliveries hlookup hsend =>
      rcases eq_or_ne i j with rfl | hi
      · refine Local.deliver hdeliveries hlookup ?_
        rw [hsend]
        exact congrArg some (connections_setConnection_self p _ _).symm
      · refine Local.other (connections_setConnection_of_ne p hi _) rfl rfl ?_ nofun nofun
        apply receipts_deliver_eq_nil hdeliveries
        intro heq
        rw [hlookup] at heq
        exact absurd (Option.some.inj heq).symm hi
  | deliverNone hdeliveries hlookup =>
      refine Local.other rfl rfl rfl ?_ nofun nofun
      apply receipts_deliver_eq_nil hdeliveries
      intro heq
      rw [hlookup] at heq
      contradiction
  | deliverEvict hdeliveries hlookup hsend =>
      refine Local.other rfl rfl rfl ?_ nofun nofun
      apply receipts_deliver_eq_nil hdeliveries
      intro heq
      rw [hlookup] at heq
      rw [← Option.some.inj heq, hsend]
  | _ => exact Local.other rfl rfl rfl rfl nofun nofun

theorem consumed_concat (h : Runs file as p) (hstep : p.Step a p') (i : Nat) :
  consumed file (as ++ [a]) i = consumed file as i ++ readings i p a
  := Machine.trace_concat h hstep.step_eq

/-- What has arrived at a connection has been read or waits to be read. -/
theorem arrived_eq (h : Runs file as p) (i : Nat) :
  arrived file as i = consumed file as i ++ (p.connections i).input
  := by
  apply Machine.trace_queue (fun p : Pipeline => (p.connections i).input) _ h
  intro as p a p' hrun hstep
  cases (Step.of_step hstep).local i with
  | accept hi hnew =>
      rw [connections_of_le hrun i (Nat.le_of_eq hi.symm), hnew]
      rfl
  | client hclient =>
      rw [arrivals, readings, if_pos rfl, if_pos rfl]
      apply Connection.input_step hclient
  | announce hphase hsame | submit hphase hsame | farewell hphase hsame =>
      rw [hsame]
      apply List.append_nil
  | deliver hdeliveries hlookup hsend =>
      obtain ⟨-, queue, -, hsame⟩ := Connection.trySend_eq_some_iff.mp hsend
      rw [hsame]
      apply List.append_nil
  | other hsame harrivals hreadings =>
      rw [hsame, harrivals, hreadings]
      apply List.append_nil

/-- Nothing arrives at a connection before it is accepted. -/
theorem consumed_of_le (h : Runs file as p) :
  ∀ i, p.accepted ≤ i → consumed file as i = []
  := by
  apply runs_induction (P := fun as p => ∀ i, p.accepted ≤ i → consumed file as i = [])
    (fun _ _ => rfl) _ h
  clear h
  intro as a p p' hrun hstep ih i hi
  have hle := Nat.le_trans (accepted_le hstep) hi
  have hidle := connections_of_le hrun i hle
  rw [consumed_concat hrun hstep, ih i hle, List.nil_append]
  cases hstep.local i with
  | client hclient =>
      rw [hidle] at hclient
      exact absurd (Connection.step_eq_some_iff.mpr hclient) not_step_idle
  | other hsame harrivals hreadings => apply hreadings
  | _ => rfl

/-! ### The orders of a client -/

/-- The order a connection submits. -/
def submissions (p : Pipeline) : Action → List InboundMessage
  | .submit i =>
      (p.connections i).pending.map fun order => { order := order, clientId := clientId i }
  | _ => []

/-- The messages that have been submitted. -/
def submitted (file : List UInt8) (as : List Action) : List InboundMessage :=
  Machine.trace step submissions (start file) as

theorem submitted_concat (h : Runs file as p) (hstep : p.Step a p') :
  submitted file (as ++ [a]) = submitted file as ++ submissions p a
  := Machine.trace_concat h hstep.step_eq

/-- What has been submitted has been handled or waits to be handled. -/
theorem submitted_eq (h : Runs file as p) :
  submitted file as = handled file as ++ p.orderRx.items
  := by
  apply Machine.trace_queue (fun p : Pipeline => p.orderRx.items) _ h
  intro as p a p' _ hstep
  cases Step.of_step hstep with
  | submit hphase hsend =>
      rw [submissions, Connection.pending, hphase]
      exact (Channel.send_eq_some_iff.mp hsend).2.symm
  | handle hsends hrecv =>
      rw [handlings, Channel.recv_eq_some_iff.mp hrecv]
      apply List.append_nil
  | _ => apply List.append_nil

/-- The orders among the messages that come from a client. -/
def ordersOf (i : Nat) (inbounds : List InboundMessage) : List Order :=
  (inbounds.filter fun inbound => inbound.clientId = clientId i).map fun inbound => inbound.order

@[simp]
theorem ordersOf_append (i : Nat) (ms ms' : List InboundMessage) :
  ordersOf i (ms ++ ms') = ordersOf i ms ++ ordersOf i ms'
  := by
  unfold ordersOf
  rw [List.filter_append, List.map_append]

/-- Connections have client ids of their own, short of the wrap. -/
theorem clientId_inj {j : Nat} (hi : i + 1 < 2 ^ 64) (hj : j + 1 < 2 ^ 64) :
  clientId i = clientId j ↔ i = j
  := by
  unfold clientId
  rw [← UInt64.toNat_inj, UInt64.toNat_ofNat_of_lt' hi, UInt64.toNat_ofNat_of_lt' hj]
  exact Nat.succ_inj

/-- The connections that submit have been accepted. -/
theorem lt_accepted_of_phase (h : Runs file as p) (hphase : (p.connections i).phase ≠ .closed) :
  i < p.accepted
  := by
  by_contra hle
  rw [connections_of_le h i (Nat.not_lt.mp hle)] at hphase
  exact hphase rfl

/-- Every message comes from a connection that has been accepted. -/
theorem exists_of_mem_submitted (h : Runs file as p) :
  ∀ inbound ∈ submitted file as, ∃ i < p.accepted, inbound.clientId = clientId i
  := by
  apply runs_induction (P := fun as p => ∀ inbound ∈ submitted file as, ∃ i < p.accepted,
    inbound.clientId = clientId i) (fun _ hmem => nomatch hmem) _ h
  clear h
  intro as a p p' hrun hstep ih inbound hmem
  have hle := accepted_le hstep
  rw [submitted_concat hrun hstep] at hmem
  rcases List.mem_append.mp hmem with hmem | hmem
  · obtain ⟨i, hi, heq⟩ := ih inbound hmem
    exact ⟨i, by omega, heq⟩
  · cases hstep with
    | @submit i order orderRx hphase hsend =>
        rw [submissions, Connection.pending, hphase, List.map_singleton, List.mem_singleton] at hmem
        have hi : i < p.accepted := by
          apply lt_accepted_of_phase hrun
          rw [hphase]
          exact Phase.noConfusion
        exact ⟨i, hi, by rw [hmem]⟩
    | _ => cases hmem

/-- No order of a connection has been submitted before it is accepted. -/
theorem ordersOf_submitted_accepted (h : Runs file as p) (haccepted : p.accepted + 1 < 2 ^ 64) :
  ordersOf p.accepted (submitted file as) = []
  := by
  unfold ordersOf
  rw [List.map_eq_nil_iff, List.filter_eq_nil_iff]
  intro inbound hmem
  obtain ⟨j, hj, heq⟩ := exists_of_mem_submitted h inbound hmem
  rw [heq, decide_eq_true_eq, clientId_inj (by omega) haccepted]
  exact Nat.ne_of_lt hj

/-- The orders that a step submits for another connection. -/
theorem ordersOf_submissions_of_ne (hrun : Runs file as p) (hstep : p.Step a p')
    (haccepted : p.accepted < 2 ^ 64) (hi : i < p.accepted) (hsubmit : a ≠ .submit i) :
  ordersOf i (submissions p a) = []
  := by
  cases hstep with
  | @submit j order orderRx hphase hsend =>
      have hj : j < p.accepted := by
        apply lt_accepted_of_phase hrun
        rw [hphase]
        exact Phase.noConfusion
      have hne : clientId j ≠ clientId i := by
        rw [ne_eq, clientId_inj (by omega) (by omega)]
        rintro rfl
        exact hsubmit rfl
      rw [submissions, Connection.pending, hphase, List.map_singleton, ordersOf,
        List.filter_cons_of_neg (by simpa using hne), List.filter_nil, List.map_nil]
  | _ => rfl

/-- What a step does to what a connection has read and submitted. -/
theorem reads_step (hrun : Runs file as p) (hstep : p.Step a p') (haccepted : p.accepted < 2 ^ 64)
    (hi : i < p.accepted)
    (h : Connection.Reads (consumed file as i) (ordersOf i (submitted file as)) (p.connections i)) :
  Connection.Reads (consumed file (as ++ [a]) i) (ordersOf i (submitted file (as ++ [a])))
    (p'.connections i)
  := by
  -- an action that submits nothing for the connection
  have hsilent (hsubmit : a ≠ .submit i)
      (hreads : Connection.Reads (consumed file as i ++ readings i p a)
        (ordersOf i (submitted file as)) (p'.connections i)) :
      Connection.Reads (consumed file (as ++ [a]) i) (ordersOf i (submitted file (as ++ [a])))
        (p'.connections i) := by
    rw [consumed_concat hrun hstep, submitted_concat hrun hstep, ordersOf_append,
      ordersOf_submissions_of_ne hrun hstep haccepted hi hsubmit, List.append_nil]
    apply hreads
  cases id (hstep.local i) with
  | accept hi' => exact absurd hi' (Nat.ne_of_lt hi)
  | client hclient =>
      apply hsilent Action.noConfusion
      rw [readings, if_pos rfl]
      apply h.step hclient
  | announce hphase hreading =>
      apply hsilent Action.noConfusion
      change Connection.Reads (_ ++ []) _ _
      rw [List.append_nil, hreading]
      apply h.announce hphase
  | @submit order hphase hreading =>
      have horder : ordersOf i (submissions p (.submit i)) = [order] := by
        rw [submissions, Connection.pending, hphase, List.map_singleton, ordersOf,
          List.filter_cons_of_pos (by simp), List.filter_nil, List.map_singleton]
      rw [consumed_concat hrun hstep, submitted_concat hrun hstep, ordersOf_append, horder,
        hreading]
      change Connection.Reads (_ ++ []) _ _
      rw [List.append_nil]
      apply h.submit hphase
  | farewell hphase hclosed =>
      apply hsilent Action.noConfusion
      change Connection.Reads (_ ++ []) _ _
      rw [List.append_nil, hclosed]
      apply h.farewell hphase
  | deliver hdeliveries hlookup hsend =>
      obtain ⟨-, queue, -, hsame⟩ := Connection.trySend_eq_some_iff.mp hsend
      apply hsilent Action.noConfusion
      change Connection.Reads (_ ++ []) _ _
      rw [List.append_nil, hsame]
      apply h.congr <;> rfl
  | other hsame harrivals hreadings hreceipts hsubmit =>
      apply hsilent hsubmit
      rw [hreadings, List.append_nil, hsame]
      apply h

/-- What a connection has submitted is what its reader makes of the bytes it has read. -/
theorem reads (h : Runs file as p) (haccepted : p.accepted < 2 ^ 64) :
  ∀ i < p.accepted, Connection.Reads (consumed file as i) (ordersOf i (submitted file as))
    (p.connections i)
  := by
  revert haccepted
  apply runs_induction (P := fun as p => p.accepted < 2 ^ 64 → ∀ i < p.accepted,
    Connection.Reads (consumed file as i) (ordersOf i (submitted file as)) (p.connections i)) _ _ h
  · intro _ i hi
    exact absurd hi (Nat.not_lt_zero i)
  clear h
  intro as a p p' hrun hstep ih haccepted i hi
  have hle := accepted_le hstep
  by_cases hi' : i < p.accepted
  · apply reads_step hrun hstep (by omega) hi' (ih (by omega) i hi')
  -- the connection has just been accepted
  have ha : a = .accept := by
    by_contra ha
    rw [accepted_eq hstep ha] at hi
    exact hi' hi
  subst ha
  cases id hstep
  obtain rfl : i = p.accepted := Nat.le_antisymm (Nat.le_of_lt_succ hi) (Nat.not_lt.mp hi')
  rw [consumed_concat hrun hstep, submitted_concat hrun hstep]
  change Connection.Reads (_ ++ []) (ordersOf _ (_ ++ []))
    ((p.setConnection p.accepted Connection.new).connections p.accepted)
  rw [List.append_nil, List.append_nil, consumed_of_le hrun _ (Nat.le_refl _),
    ordersOf_submitted_accepted hrun haccepted, connections_setConnection_self]
  apply Connection.Reads.new

/-! ### What the pipeline does -/

/-- The pipeline does what the loop does on the messages it has handled.  They are an
interleaving of the streams of the clients: those of a client are, with what is on its way to
the loop, what the reader makes of the bytes it has read, and there are no others. -/
structure Serves (file : List UInt8) (as : List Action) (p : Pipeline) : Prop where
  loops : Loops file as p
  arrived_eq : ∀ i, arrived file as i = consumed file as i ++ (p.connections i).input
  orders_eq : ∀ i < p.accepted,
    ordersOf i (handled file as) ++ ordersOf i p.orderRx.items ++ (p.connections i).pending
      = ingress (consumed file as i)
  exists_of_mem : ∀ inbound ∈ handled file as ++ p.orderRx.items,
    ∃ i < p.accepted, inbound.clientId = clientId i

/-- However the tasks interleave, the pipeline refines the loop. -/
theorem serves (h : Runs file as p) (haccepted : p.accepted < 2 ^ 64) :
  Serves file as p
  := by
  have hsubmitted := submitted_eq h
  constructor
  · apply Pipeline.loops h
  · apply Pipeline.arrived_eq h
  · intro i hi
    have hreads := (reads h haccepted i hi).forwarded_eq
    rwa [hsubmitted, ordersOf_append] at hreads
  · rw [← hsubmitted]
    apply exists_of_mem_submitted h

/-- What has been handled of a client was forwarded by its reader. -/
theorem Serves.mem_ingress (h : Serves file as p) {i : Nat} (hi : i < p.accepted)
    {inbound : InboundMessage} (hmem : inbound ∈ handled file as)
    (hclient : inbound.clientId = clientId i) :
  inbound.order ∈ ingress (consumed file as i)
  := by
  rw [← h.orders_eq i hi]
  apply List.mem_append_left
  apply List.mem_append_left
  apply List.mem_map_of_mem
  apply List.mem_filter.mpr ⟨hmem, decide_eq_true hclient⟩

/-- What is handled came in framed on some accepted connection. -/
theorem Serves.exists_mem_ingress (h : Serves file as p) {inbound : InboundMessage}
    (hmem : inbound ∈ handled file as) :
  ∃ i < p.accepted, inbound.order ∈ ingress (consumed file as i)
  := by
  obtain ⟨i, hi, hclient⟩ := h.exists_of_mem inbound (List.mem_append_left _ hmem)
  exact ⟨i, hi, h.mem_ingress hi hmem hclient⟩

/-- An order of a client. -/
def firstOrder : Order := Order.newLimit 1 1 .btc .buy 6499999 1

/-- A client connects and sends an order; the loop handles it, it is logged, and it is
acknowledged to the client. -/
def firstActions : List Action :=
  [.accept, .announce 0, .connection, .client 0 (.arrive (Order.layout.encode firstOrder)),
    .client 0 .read, .submit 0, .handle 0, .send, .send, .send, .log, .check, .dispatch [1],
    .deliver, .client 0 .take, .client 0 (.write 64)]

/-- The sample run is a run, with one connection accepted. -/
theorem exists_runs_firstActions :
  ∃ p, Runs [] firstActions p ∧ p.accepted = 1
  := by
  have haccepted : (Machine.run step (start []) firstActions).map (·.accepted) = some 1 := by
    decide +kernel
  apply Option.map_eq_some_iff.mp haccepted

end Pipeline

end LimitOrderBook
