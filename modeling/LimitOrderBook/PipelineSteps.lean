import LimitOrderBook.Pipeline

/-!
# The steps of the pipeline

`Pipeline.Step` says of each action when it can be taken and what it does, and
`Pipeline.step_eq_some_iff` that these are the steps of the pipeline.  All that is said of runs
is derived from it by cases.
-/

namespace LimitOrderBook

namespace Pipeline

variable {p p' : Pipeline} {a : Action}

@[simp]
theorem connections_setConnection_self (p : Pipeline) (i : Nat) (c : Connection) :
  (p.setConnection i c).connections i = c
  := by
  apply Function.update_self

theorem connections_setConnection_of_ne (p : Pipeline) {i j : Nat} (h : j ≠ i) (c : Connection) :
  (p.setConnection i c).connections j = p.connections j
  := by
  apply Function.update_of_ne h

/-- The steps of the pipeline. -/
inductive Step (p : Pipeline) : Action → Pipeline → Prop where
  | accept :
      Step p .accept
        { p.setConnection p.accepted Connection.new with accepted := p.accepted + 1 }
  | client {i : Nat} {action : Connection.Action} {c : Connection}
      (hstep : (p.connections i).step action = some c) :
      Step p (.client i action) (p.setConnection i c)
  | announce {i : Nat} {connRx : Channel ConnectionEvent 1024}
      (hphase : (p.connections i).phase = .opening)
      (hsend : p.connRx.send (.connected (clientId i) i) = some connRx) :
      Step p (.announce i)
        { p.setConnection i { p.connections i with phase := .reading } with connRx := connRx }
  | submit {i : Nat} {order : Order} {orderRx : Channel InboundMessage 100000}
      (hphase : (p.connections i).phase = .submitting order)
      (hsend : p.orderRx.send { order := order, clientId := clientId i } = some orderRx) :
      Step p (.submit i)
        { p.setConnection i { p.connections i with phase := .reading } with orderRx := orderRx }
  | farewell {i : Nat} {connRx : Channel ConnectionEvent 1024}
      (hphase : (p.connections i).phase = .closing)
      (hsend : p.connRx.send (.disconnected (clientId i)) = some connRx) :
      Step p (.farewell i)
        { p.setConnection i { p.connections i with phase := .closed } with connRx := connRx }
  | handle {now : UInt64} {inbound : InboundMessage} {orderRx : Channel InboundMessage 100000}
      (hsends : p.sends = []) (hrecv : p.orderRx.recv = some (inbound, orderRx)) :
      Step p (.handle now)
        { p with
          orderRx := orderRx, exchange := (p.exchange.handle inbound).state,
          sends := Sending.ofRound now (p.exchange.handle inbound) }
  | sendRecord {order : Order} {timestampNs : UInt64} {sends : List Sending}
      {walRx : Channel (Order × UInt64) 100000}
      (hsends : p.sends = .record order timestampNs :: sends)
      (hsend : p.walRx.send (order, timestampNs) = some walRx) :
      Step p .send { p with walRx := walRx, sends := sends }
  | sendEvent {event : OutboundEvent} {sends : List Sending}
      {outboundRx : Channel OutboundEvent 100000} (hsends : p.sends = .event event :: sends)
      (hsend : p.outboundRx.send event = some outboundRx) :
      Step p .send { p with outboundRx := outboundRx, sends := sends }
  | log {order : Order} {timestampNs : UInt64} {walRx : Channel (Order × UInt64) 100000}
      (hchecked : p.logger.unchecked = false)
      (hrecv : p.walRx.recv = some ((order, timestampNs), walRx)) :
      Step p .log { p with walRx := walRx, logger := p.logger.log order timestampNs }
  | check (hunchecked : p.logger.unchecked = true) :
      Step p .check { p with logger := p.logger.check p.walRx.items.isEmpty }
  | connection {event : ConnectionEvent} {connRx : Channel ConnectionEvent 1024}
      (hdeliveries : p.deliveries = []) (hrecv : p.connRx.recv = some (event, connRx)) :
      Step p .connection
        { p with connRx := connRx, clientSenders := register p.clientSenders event }
  | dispatch {clients : List UInt64} {event : OutboundEvent}
      {outboundRx : Channel OutboundEvent 100000} (hdeliveries : p.deliveries = [])
      (hclients : clients.Perm p.clientSenders.keys)
      (hrecv : p.outboundRx.recv = some (event, outboundRx)) :
      Step p (.dispatch clients)
        { p with outboundRx := outboundRx, deliveries := event.deliveries clients }
  | deliverNone {clientId : UInt64} {msg : ServerMessage}
      {deliveries : List (UInt64 × ServerMessage)}
      (hdeliveries : p.deliveries = (clientId, msg) :: deliveries)
      (hlookup : p.clientSenders.lookup clientId = none) :
      Step p .deliver { p with deliveries := deliveries }
  | deliverSent {clientId : UInt64} {msg : ServerMessage}
      {deliveries : List (UInt64 × ServerMessage)} {i : Nat} {c : Connection}
      (hdeliveries : p.deliveries = (clientId, msg) :: deliveries)
      (hlookup : p.clientSenders.lookup clientId = some i)
      (hsend : (p.connections i).trySend msg = some c) :
      Step p .deliver { p.setConnection i c with deliveries := deliveries }
  | deliverEvict {clientId : UInt64} {msg : ServerMessage}
      {deliveries : List (UInt64 × ServerMessage)} {i : Nat}
      (hdeliveries : p.deliveries = (clientId, msg) :: deliveries)
      (hlookup : p.clientSenders.lookup clientId = some i)
      (hsend : (p.connections i).trySend msg = none) :
      Step p .deliver
        { p with clientSenders := p.clientSenders.erase clientId, deliveries := deliveries }

/-- The loop sends what is next to be sent. -/
theorem Step.of_send (h : p.step .send = some p') :
  p.Step .send p'
  := by
  unfold step at h
  dsimp only at h
  split at h
  · cases h
  · next order timestampNs sends hsends =>
      obtain ⟨walRx, hsend, rfl⟩ := Option.map_eq_some_iff.mp h
      apply Step.sendRecord hsends hsend
  · next event sends hsends =>
      obtain ⟨outboundRx, hsend, rfl⟩ := Option.map_eq_some_iff.mp h
      apply Step.sendEvent hsends hsend

/-- The dispatcher hands out what is next to be handed out. -/
theorem Step.of_deliver (h : p.step .deliver = some p') :
  p.Step .deliver p'
  := by
  unfold step at h
  dsimp only at h
  split at h
  · cases h
  · next clientId msg deliveries hdeliveries =>
      obtain rfl := Option.some.inj h
      unfold deliver
      split
      · next hlookup => apply Step.deliverNone hdeliveries hlookup
      · next i hlookup =>
          split
          · next c hsend => apply Step.deliverSent hdeliveries hlookup hsend
          · next hsend => apply Step.deliverEvict hdeliveries hlookup hsend

/-- Every step of the pipeline is one of the cases. -/
theorem Step.of_step (h : p.step a = some p') :
  p.Step a p'
  := by
  cases a with
  | accept =>
      obtain rfl := Option.some.inj h
      apply Step.accept
  | client i action =>
      obtain ⟨c, hstep, rfl⟩ := Option.map_eq_some_iff.mp h
      apply Step.client hstep
  | announce i =>
      obtain ⟨hphase, h⟩ := Option.ite_none_right_eq_some.mp h
      obtain ⟨connRx, hsend, rfl⟩ := Option.map_eq_some_iff.mp h
      apply Step.announce hphase hsend
  | submit i =>
      unfold step at h
      dsimp only at h
      split at h
      · next order hphase =>
          obtain ⟨orderRx, hsend, rfl⟩ := Option.map_eq_some_iff.mp h
          apply Step.submit hphase hsend
      · cases h
  | farewell i =>
      obtain ⟨hphase, h⟩ := Option.ite_none_right_eq_some.mp h
      obtain ⟨connRx, hsend, rfl⟩ := Option.map_eq_some_iff.mp h
      apply Step.farewell hphase hsend
  | handle now =>
      obtain ⟨hsends, h⟩ := Option.ite_none_right_eq_some.mp h
      obtain ⟨⟨inbound, orderRx⟩, hrecv, rfl⟩ := Option.map_eq_some_iff.mp h
      apply Step.handle hsends hrecv
  | send => apply Step.of_send h
  | log =>
      obtain ⟨hchecked, h⟩ := Option.ite_none_left_eq_some.mp h
      obtain ⟨⟨⟨order, timestampNs⟩, walRx⟩, hrecv, rfl⟩ := Option.map_eq_some_iff.mp h
      apply Step.log (Bool.eq_false_iff.mpr hchecked) hrecv
  | check =>
      obtain ⟨hunchecked, h⟩ := Option.ite_none_right_eq_some.mp h
      obtain rfl := Option.some.inj h
      apply Step.check hunchecked
  | connection =>
      obtain ⟨hdeliveries, h⟩ := Option.ite_none_right_eq_some.mp h
      obtain ⟨⟨event, connRx⟩, hrecv, rfl⟩ := Option.map_eq_some_iff.mp h
      apply Step.connection hdeliveries hrecv
  | dispatch clients =>
      obtain ⟨⟨hdeliveries, hclients⟩, h⟩ := Option.ite_none_right_eq_some.mp h
      obtain ⟨⟨event, outboundRx⟩, hrecv, rfl⟩ := Option.map_eq_some_iff.mp h
      apply Step.dispatch hdeliveries hclients hrecv
  | deliver => apply Step.of_deliver h

/-- Each case is a step of the pipeline. -/
theorem Step.step_eq (h : p.Step a p') :
  p.step a = some p'
  := by
  cases h with
  | accept => rfl
  | client hstep => rw [step, hstep, Option.map_some]
  | announce hphase hsend => rw [step, if_pos hphase, hsend, Option.map_some]
  | submit hphase hsend => simp only [step, hphase, hsend, Option.map_some]
  | farewell hphase hsend => rw [step, if_pos hphase, hsend, Option.map_some]
  | handle hsends hrecv => rw [step, if_pos hsends, hrecv, Option.map_some]
  | sendRecord hsends hsend => simp only [step, hsends, hsend, Option.map_some]
  | sendEvent hsends hsend => simp only [step, hsends, hsend, Option.map_some]
  | log hchecked hrecv =>
      rw [step, if_neg (Bool.eq_false_iff.mp hchecked), hrecv, Option.map_some]
  | check hunchecked => rw [step, if_pos hunchecked]
  | connection hdeliveries hrecv => rw [step, if_pos hdeliveries, hrecv, Option.map_some]
  | dispatch hdeliveries hclients hrecv =>
      rw [step, if_pos ⟨hdeliveries, hclients⟩, hrecv, Option.map_some]
  | deliverNone hdeliveries hlookup => simp only [step, deliver, hdeliveries, hlookup]
  | deliverSent hdeliveries hlookup hsend =>
      simp only [step, deliver, hdeliveries, hlookup, hsend]
  | deliverEvict hdeliveries hlookup hsend =>
      simp only [step, deliver, hdeliveries, hlookup, hsend]

/-- What each action does. -/
theorem step_eq_some_iff :
  p.step a = some p' ↔ p.Step a p'
  := ⟨Step.of_step, Step.step_eq⟩

end Pipeline

end LimitOrderBook
