import LimitOrderBook.PipelineRuns

/-!
# Delivery

A client is sent a contiguous block of the messages that are meant for it: none before the
dispatcher knows of it, then each, in sequence and once, until the dispatcher has forgotten it
(`delivers`).  Nothing that happens to the other clients makes a difference.
-/

namespace LimitOrderBook

namespace Pipeline

variable {file : List UInt8} {as : List Pipeline.Action} {p p' : Pipeline} {a : Pipeline.Action}
  {i : Nat}

theorem received_concat (h : Runs file as p) (hstep : p.Step a p') (i : Nat) :
  received file (as ++ [a]) i = received file as i ++ receipts i p a
  := Machine.trace_concat h hstep.step_eq

/-! ### The queues -/

/-- Nothing is received before a connection is accepted. -/
theorem received_of_le (h : Runs file as p) :
  ∀ i, p.accepted ≤ i → received file as i = []
  := by
  apply runs_induction (P := fun as p => ∀ i, p.accepted ≤ i → received file as i = [])
    (fun _ _ => rfl) _ h
  clear h
  intro as a p p' hrun hstep ih i hi
  have hle := Nat.le_trans (accepted_le hstep) hi
  have hidle := connections_of_le hrun i hle
  rw [received_concat hrun hstep, ih i hle, List.nil_append]
  cases hstep.local i with
  | deliver hdeliveries hlookup hsend =>
      rw [hidle] at hsend
      cases hsend
  | other hsame harrivals hreadings hreceipts => apply hreceipts
  | _ => rfl

/-- The writer of a connection writes what has been received. -/
theorem writes (h : Runs file as p) (i : Nat) :
  Connection.Writes (received file as i) (p.connections i)
  := by
  apply runs_induction
    (P := fun as p => Connection.Writes (received file as i) (p.connections i))
    Connection.Writes.idle _ h
  clear h
  intro as a p p' hrun hstep ih
  have hreceived := received_concat hrun hstep i
  cases hstep.local i with
  | accept hi hnew =>
      change received file _ _ = received file as i ++ [] at hreceived
      rw [hreceived, List.append_nil, received_of_le hrun i (Nat.le_of_eq hi.symm), hnew]
      apply Connection.Writes.new
  | client hclient =>
      change received file _ _ = received file as i ++ [] at hreceived
      rw [hreceived, List.append_nil]
      apply ih.step hclient
  | announce hphase hsame | submit hphase hsame | farewell hphase hsame =>
      change received file _ _ = received file as i ++ [] at hreceived
      rw [hreceived, List.append_nil, hsame]
      apply ih.congr <;> rfl
  | deliver hdeliveries hlookup hsend =>
      rw [receipts, hdeliveries] at hreceived
      dsimp only at hreceived
      rw [hsend, if_pos ⟨hlookup, rfl⟩] at hreceived
      rw [hreceived]
      apply ih.trySend hsend
  | other hsame harrivals hreadings hreceipts =>
      rw [hreceived, hreceipts, List.append_nil, hsame]
      apply ih

/-! ### The senders -/

/-- Whom the dispatcher knows, and whom it is about to know: every sender feeds the queue of the
connection whose identifier it goes by. -/
structure Routed (p : Pipeline) : Prop where
  of_lookup : ∀ c i, p.clientSenders.lookup c = some i → c = clientId i ∧ i < p.accepted
  of_mem : ∀ c i, ConnectionEvent.connected c i ∈ p.connRx.items →
    c = clientId i ∧ i < p.accepted

/-- An action that neither registers nor announces. -/
theorem Routed.frame (h : p.Routed) (hstep : p.Step a p')
    (hsenders : ∀ c i, p'.clientSenders.lookup c = some i → p.clientSenders.lookup c = some i)
    (hconnRx : ∀ c i, ConnectionEvent.connected c i ∈ p'.connRx.items →
      ConnectionEvent.connected c i ∈ p.connRx.items) :
  p'.Routed
  := by
  have hle := accepted_le hstep
  constructor
  · intro c i hlookup
    obtain ⟨hc, hi⟩ := h.of_lookup c i (hsenders c i hlookup)
    exact ⟨hc, by omega⟩
  · intro c i hmem
    obtain ⟨hc, hi⟩ := h.of_mem c i (hconnRx c i hmem)
    exact ⟨hc, by omega⟩

theorem lookup_erase_eq_some {clientSenders : AList fun _ : UInt64 => Nat} {c c' : UInt64}
    (h : (clientSenders.erase c').lookup c = some i) :
  c ≠ c' ∧ clientSenders.lookup c = some i
  := by
  rcases eq_or_ne c c' with rfl | hne
  · rw [AList.lookup_erase] at h
    cases h
  · rw [AList.lookup_erase_ne hne] at h
    exact ⟨hne, h⟩

/-- A connection that has been accepted announces itself. -/
theorem Routed.announce (h : p.Routed) (hi : i < p.accepted) {c : Connection}
    {connRx : Channel ConnectionEvent 1024}
    (hsend : p.connRx.send (.connected (clientId i) i) = some connRx) :
  Routed { p.setConnection i c with connRx := connRx }
  := by
  obtain ⟨-, hitems⟩ := Channel.send_eq_some_iff.mp hsend
  refine ⟨h.of_lookup, ?_⟩
  intro c' j hmem
  dsimp only at hmem
  rw [hitems] at hmem
  rcases List.mem_append.mp hmem with hmem | hmem
  · apply h.of_mem c' j hmem
  · cases List.mem_singleton.mp hmem
    exact ⟨rfl, hi⟩

/-- The dispatcher takes in that a client has come or gone. -/
theorem Routed.connection (h : p.Routed) {event : ConnectionEvent}
    {connRx : Channel ConnectionEvent 1024} (hrecv : p.connRx.recv = some (event, connRx)) :
  Routed { p with connRx := connRx, clientSenders := register p.clientSenders event }
  := by
  have hitems := Channel.recv_eq_some_iff.mp hrecv
  constructor
  · intro c j hlookup
    cases event with
    | connected c' i =>
        dsimp only [register] at hlookup
        rcases eq_or_ne c c' with rfl | hne
        · rw [AList.lookup_insert] at hlookup
          obtain rfl := Option.some.inj hlookup
          apply h.of_mem c i
          rw [hitems]
          apply List.mem_cons_self
        · rw [AList.lookup_insert_ne hne] at hlookup
          apply h.of_lookup c j hlookup
    | disconnected c' => apply h.of_lookup c j (lookup_erase_eq_some hlookup).2
  · intro c j hmem
    apply h.of_mem c j
    rw [hitems]
    apply List.mem_cons_of_mem _ hmem

theorem routed (h : Runs file as p) :
  p.Routed
  := by
  apply runs_induction (P := fun _ p => p.Routed) ⟨nofun, nofun⟩ _ h
  clear h
  intro as a p p' hrun hstep ih
  cases id hstep with
  | @announce i connRx hphase hsend =>
      have hi : i < p.accepted := by
        apply lt_accepted_of_phase hrun
        rw [hphase]
        exact Phase.noConfusion
      apply ih.announce hi hsend
  | farewell hphase hsend =>
      obtain ⟨-, hitems⟩ := Channel.send_eq_some_iff.mp hsend
      apply ih.frame hstep (fun _ _ hlookup => hlookup)
      intro c j hmem
      dsimp only at hmem
      rw [hitems] at hmem
      rcases List.mem_append.mp hmem with hmem | hmem
      · apply hmem
      · cases List.mem_singleton.mp hmem
  | connection hdeliveries hrecv => apply ih.connection hrecv
  | deliverEvict hdeliveries hlookup hsend =>
      apply ih.frame hstep
      · intro c j hlookup
        exact (lookup_erase_eq_some hlookup).2
      · exact fun _ _ hmem => hmem
  | _ => exact ih.frame hstep (fun _ _ hlookup => hlookup) (fun _ _ hmem => hmem)

/-! ### One client -/

/-- The announcements of a connection that the dispatcher has still to take in. -/
def announcements (p : Pipeline) (i : Nat) : Nat :=
  (if (p.connections i).phase = .opening then 1 else 0)
    + p.connRx.items.count (.connected (clientId i) i)

/-- The messages that the dispatcher is about to deliver to a client. -/
def due (p : Pipeline) (i : Nat) : List ServerMessage :=
  p.deliveries.filterMap fun d => if d.1 = clientId i then some d.2 else none

/-- A client is waiting to be known, or it is known and has received all that has been meant for
it since, or it has been forgotten. -/
inductive Status (file : List UInt8) (as : List Action) (p : Pipeline) (i : Nat) : Prop where
  | waiting (hannounced : p.announcements i = 1)
      (hlookup : p.clientSenders.lookup (clientId i) = none)
      (hreceived : received file as i = []) :
      Status file as p i
  | known (hannounced : p.announcements i = 0)
      (hlookup : p.clientSenders.lookup (clientId i) = some i) (before : List ServerMessage)
      (hmessages : messagesTo (clientId i) (dispatched file as)
        = before ++ received file as i ++ p.due i) :
      Status file as p i
  | gone (hannounced : p.announcements i = 0)
      (hlookup : p.clientSenders.lookup (clientId i) = none) (before after : List ServerMessage)
      (hmessages : messagesTo (clientId i) (dispatched file as)
        = before ++ received file as i ++ after) :
      Status file as p i

/-- An action by which the client is told nothing and the dispatcher learns nothing of it. -/
theorem Status.frame (h : Status file as p i) (hrun : Runs file as p) (hstep : p.Step a p')
    (hannounced : p'.announcements i = p.announcements i)
    (hlookup : p'.clientSenders.lookup (clientId i) = p.clientSenders.lookup (clientId i))
    (hreceipts : receipts i p a = []) (hdispatchings : dispatchings p a = [])
    (hdue : p'.due i = p.due i) :
  Status file (as ++ [a]) p' i
  := by
  have hreceived := received_concat hrun hstep i
  have hdispatched := dispatched_concat hrun hstep
  rw [hreceipts, List.append_nil] at hreceived
  rw [hdispatchings, List.append_nil] at hdispatched
  cases h with
  | waiting hone hnone hnil =>
      apply Status.waiting
      · rw [hannounced, hone]
      · rw [hlookup, hnone]
      · rw [hreceived, hnil]
  | known hzero hsome before hmessages =>
      apply Status.known _ _ before
      · rw [hdispatched, hreceived, hdue, hmessages]
      · rw [hannounced, hzero]
      · rw [hlookup, hsome]
  | gone hzero hnone before after hmessages =>
      apply Status.gone _ _ before after
      · rw [hdispatched, hreceived, hmessages]
      · rw [hannounced, hzero]
      · rw [hlookup, hnone]

theorem announcements_of_phase {c : Connection} {j : Nat}
    (hphase : j = i → (c.phase = .opening ↔ (p.connections j).phase = .opening)) :
  (p.setConnection j c).announcements i = p.announcements i
  := by
  unfold announcements
  rcases eq_or_ne i j with rfl | hi
  · rw [connections_setConnection_self]
    simp only [hphase rfl]
    rfl
  · rw [connections_setConnection_of_ne p hi]
    rfl

/-- An announcement is on its way until the dispatcher takes it in. -/
theorem announcements_step (hstep : p.Step a p') (hi : i < p.accepted) (ha : a ≠ .connection) :
  p'.announcements i = p.announcements i
  := by
  cases hstep with
  | accept =>
      apply announcements_of_phase
      rintro rfl
      omega
  | client hclient =>
      apply announcements_of_phase
      intro _
      apply Connection.phase_step (Connection.step_eq_some_iff.mp hclient)
  | @announce j connRx hphase hsend =>
      obtain ⟨-, hitems⟩ := Channel.send_eq_some_iff.mp hsend
      unfold announcements
      dsimp only
      rw [hitems, List.count_append, List.count_singleton]
      rcases eq_or_ne i j with rfl | hne
      · rw [connections_setConnection_self, hphase]
        simp only [beq_self_eq_true, if_true, reduceCtorEq, if_false]
        omega
      · rw [connections_setConnection_of_ne p hne]
        simp [hne.symm]
  | submit hphase hsend =>
      apply announcements_of_phase
      intro _
      rw [hphase]
      exact iff_of_false Phase.noConfusion Phase.noConfusion
  | @farewell j connRx hphase hsend =>
      obtain ⟨-, hitems⟩ := Channel.send_eq_some_iff.mp hsend
      have hsame : (p.setConnection j { p.connections j with phase := .closed }).announcements i
          = p.announcements i := by
        apply announcements_of_phase
        intro _
        rw [hphase]
        exact iff_of_false Phase.noConfusion Phase.noConfusion
      rw [← hsame]
      unfold announcements
      dsimp only [setConnection]
      rw [hitems, List.count_append, List.count_singleton]
      rfl
  | connection => exact absurd rfl ha
  | deliverSent hdeliveries hlookup hsend =>
      obtain ⟨-, queue, -, rfl⟩ := Connection.trySend_eq_some_iff.mp hsend
      apply announcements_of_phase
      intro _
      exact Iff.rfl
  | _ => rfl

/-- To a client that is known, all messages of an event that are meant for it are delivered. -/
theorem filterMap_deliveries {clients : List UInt64} (hnodup : clients.Nodup) {c : UInt64}
    (hmem : c ∈ clients) (event : OutboundEvent) :
  (event.deliveries clients).filterMap (fun d => if d.1 = c then some d.2 else none)
    = event.messagesTo c
  := by
  cases event with
  | clientAck c' msg | clientReject c' msg | clientCancelOk c' msg =>
      unfold OutboundEvent.deliveries OutboundEvent.messagesTo
      by_cases hc : c' = c
      · simp [hc]
      · simp [hc]
  | tradeFill taker maker takerMsg makerMsg =>
      unfold OutboundEvent.deliveries OutboundEvent.messagesTo
      by_cases ht : taker = c <;> by_cases hm : maker = c <;> simp [ht, hm]
  | bboBroadcast msg =>
      unfold OutboundEvent.deliveries OutboundEvent.messagesTo
      have hreplicate : (clients.map fun c' => (c', msg)).filterMap
          (fun d => if d.1 = c then some d.2 else none) = List.replicate (clients.count c) msg := by
        clear hmem hnodup
        induction clients with
        | nil => rfl
        | cons c' clients ih =>
            rw [List.map_cons, List.filterMap_cons, ih, List.count_cons]
            by_cases hc : c' = c
            · simp [hc, List.replicate_succ]
            · simp [hc]
      rw [hreplicate, List.count_eq_one_of_mem hnodup hmem]
      rfl

theorem due_cons {d : UInt64 × ServerMessage} {deliveries : List (UInt64 × ServerMessage)}
    (hdeliveries : p.deliveries = d :: deliveries) (hp' : p'.deliveries = deliveries) :
  p.due i = (if d.1 = clientId i then [d.2] else []) ++ p'.due i
  := by
  unfold due
  rw [hdeliveries, hp', List.filterMap_cons]
  by_cases hd : d.1 = clientId i
  · simp [hd]
  · simp [hd]

/-- The dispatcher learns of the client. -/
theorem Status.connected (h : Status file as p i) (hrun : Runs file as p)
    (hstep : p.Step .connection p') (hannounced : p.announcements i = p'.announcements i + 1)
    (hlookup : p'.clientSenders.lookup (clientId i) = some i)
    (hdeliveries' : p'.deliveries = []) :
  Status file (as ++ [.connection]) p' i
  := by
  have hreceived := received_concat hrun hstep i
  have hdispatched := dispatched_concat hrun hstep
  change received file _ _ = received file as i ++ [] at hreceived
  change dispatched file _ = dispatched file as ++ [] at hdispatched
  have hdue : p'.due i = [] := by
    unfold due
    rw [hdeliveries', List.filterMap_nil]
  cases h with
  | waiting hone hnone hnil =>
      apply Status.known _ hlookup (messagesTo (clientId i) (dispatched file as))
      · rw [hdispatched, hreceived, hnil, hdue]
        simp only [List.append_nil]
      · omega
  | known hzero => omega
  | gone hzero => omega

/-- The dispatcher forgets the client, before the messages that are left. -/
theorem Status.forgotten (h : Status file as p i) (hrun : Runs file as p) (hstep : p.Step a p')
    (hannounced : p'.announcements i = p.announcements i)
    (hlookup : p'.clientSenders.lookup (clientId i) = none)
    (hreceipts : receipts i p a = []) (hdispatchings : dispatchings p a = []) :
  Status file (as ++ [a]) p' i
  := by
  have hreceived := received_concat hrun hstep i
  have hdispatched := dispatched_concat hrun hstep
  rw [hreceipts, List.append_nil] at hreceived
  rw [hdispatchings, List.append_nil] at hdispatched
  cases h with
  | waiting hone hnone hnil =>
      apply Status.waiting _ hlookup
      · rw [hreceived, hnil]
      · rw [hannounced, hone]
  | known hzero hsome before hmessages =>
      apply Status.gone _ hlookup before (p.due i)
      · rw [hdispatched, hreceived, hmessages]
      · rw [hannounced, hzero]
  | gone hzero hnone before after hmessages =>
      apply Status.gone _ hlookup before after
      · rw [hdispatched, hreceived, hmessages]
      · rw [hannounced, hzero]

/-- The dispatcher takes up an event. -/
theorem Status.dispatch (h : Status file as p i) (hrun : Runs file as p) {clients : List UInt64}
    {event : OutboundEvent} {outboundRx : Channel OutboundEvent 100000}
    (hstep : p.Step (.dispatch clients) p') (hdeliveries : p.deliveries = [])
    (hclients : clients.Perm p.clientSenders.keys)
    (hrecv : p.outboundRx.recv = some (event, outboundRx))
    (hannounced : p'.announcements i = p.announcements i)
    (hlookup : p'.clientSenders.lookup (clientId i) = p.clientSenders.lookup (clientId i))
    (hdeliveries' : p'.deliveries = event.deliveries clients) :
  Status file (as ++ [.dispatch clients]) p' i
  := by
  have hreceived := received_concat hrun hstep i
  have hdispatched := dispatched_concat hrun hstep
  rw [dispatchings, Channel.recv_eq_some_iff.mp hrecv] at hdispatched
  change received file _ _ = received file as i ++ [] at hreceived
  change dispatched file _ = dispatched file as ++ [event] at hdispatched
  rw [List.append_nil] at hreceived
  have hmessagesTo : messagesTo (clientId i) (dispatched file (as ++ [.dispatch clients]))
      = messagesTo (clientId i) (dispatched file as) ++ event.messagesTo (clientId i) := by
    rw [hdispatched, messagesTo_append]
    congr 1
    apply List.append_nil
  have hdue : p.due i = [] := by
    unfold due
    rw [hdeliveries, List.filterMap_nil]
  cases h with
  | waiting hone hnone hnil =>
      apply Status.waiting
      · rw [hannounced, hone]
      · rw [hlookup, hnone]
      · rw [hreceived, hnil]
  | known hzero hsome before hmessages =>
      have hmem : clientId i ∈ clients := by
        rw [hclients.mem_iff, ← AList.mem_keys, ← AList.lookup_isSome, hsome]
        rfl
      have hnodup : clients.Nodup := hclients.nodup_iff.mpr p.clientSenders.keys_nodup
      apply Status.known _ _ before
      · rw [hmessagesTo, hmessages, hreceived, hdue, List.append_nil, due, hdeliveries',
          filterMap_deliveries hnodup hmem]
      · rw [hannounced, hzero]
      · rw [hlookup, hsome]
  | gone hzero hnone before after hmessages =>
      apply Status.gone _ _ before (after ++ event.messagesTo (clientId i))
      · rw [hmessagesTo, hmessages, hreceived, List.append_assoc]
      · rw [hannounced, hzero]
      · rw [hlookup, hnone]

theorem clientId_ne {j : Nat} (haccepted : p.accepted < 2 ^ 64) (hi : i < p.accepted)
    (hj : j < p.accepted) (h : i ≠ j) :
  clientId i ≠ clientId j
  := by
  rw [ne_eq, clientId_inj (by omega) (by omega)]
  apply h

/-- The dispatcher takes in the news of a connection. -/
theorem Status.connection (h : Status file as p i) (hrun : Runs file as p)
    (haccepted : p.accepted < 2 ^ 64) (hi : i < p.accepted) {event : ConnectionEvent}
    {connRx : Channel ConnectionEvent 1024} (hstep : p.Step .connection p')
    (hdeliveries : p.deliveries = []) (hrecv : p.connRx.recv = some (event, connRx))
    (hp' : p' = { p with connRx := connRx, clientSenders := register p.clientSenders event }) :
  Status file (as ++ [.connection]) p' i
  := by
  have hitems := Channel.recv_eq_some_iff.mp hrecv
  have hdeliveries' : p'.deliveries = p.deliveries := by rw [hp']
  have hannounced : p.announcements i = p'.announcements i
      + if event = .connected (clientId i) i then 1 else 0 := by
    unfold announcements
    rw [hp', hitems, List.count_cons]
    simp only [beq_iff_eq]
    omega
  have hdue : p'.due i = p.due i := by
    unfold due
    rw [hdeliveries']
  cases event with
  | connected c s =>
      have hmem : ConnectionEvent.connected c s ∈ p.connRx.items := by
        rw [hitems]
        apply List.mem_cons_self
      obtain ⟨rfl, hs⟩ := (routed hrun).of_mem c s hmem
      rcases eq_or_ne i s with rfl | hne
      · rw [if_pos rfl] at hannounced
        apply h.connected hrun hstep hannounced
        · rw [hp']
          apply AList.lookup_insert
        · rw [hdeliveries', hdeliveries]
      · have hc := clientId_ne haccepted hi hs hne
        rw [if_neg (by simp [hc.symm])] at hannounced
        apply h.frame hrun hstep hannounced.symm _ rfl rfl hdue
        rw [hp']
        apply AList.lookup_insert_ne hc
  | disconnected c =>
      rw [if_neg ConnectionEvent.noConfusion] at hannounced
      rcases eq_or_ne (clientId i) c with rfl | hc
      · apply h.forgotten hrun hstep hannounced.symm _ rfl rfl
        rw [hp']
        apply AList.lookup_erase
      · apply h.frame hrun hstep hannounced.symm _ rfl rfl hdue
        rw [hp']
        apply AList.lookup_erase_ne hc

/-- The dispatcher puts a message into the queue of a client. -/
theorem Status.deliver (h : Status file as p i) (hrun : Runs file as p)
    (hstep : p.Step .deliver p') {msg : ServerMessage}
    {deliveries : List (UInt64 × ServerMessage)}
    (hdeliveries : p.deliveries = (clientId i, msg) :: deliveries)
    (hlookup : p.clientSenders.lookup (clientId i) = some i)
    (hsend : ((p.connections i).trySend msg).isSome)
    (hannounced : p'.announcements i = p.announcements i)
    (hlookup' : p'.clientSenders.lookup (clientId i) = p.clientSenders.lookup (clientId i))
    (hdeliveries' : p'.deliveries = deliveries) :
  Status file (as ++ [.deliver]) p' i
  := by
  have hreceived := received_concat hrun hstep i
  have hdispatched := dispatched_concat hrun hstep
  rw [receipts, hdeliveries] at hreceived
  dsimp only at hreceived
  rw [if_pos ⟨hlookup, hsend⟩] at hreceived
  change dispatched file _ = dispatched file as ++ [] at hdispatched
  rw [List.append_nil] at hdispatched
  have hdue := due_cons (i := i) hdeliveries hdeliveries'
  rw [if_pos rfl] at hdue
  cases h with
  | waiting hone hnone =>
      rw [hnone] at hlookup
      cases hlookup
  | known hzero hsome before hmessages =>
      apply Status.known _ _ before
      · rw [hdispatched, hmessages, hreceived, hdue]
        simp only [List.append_assoc]
      · rw [hannounced, hzero]
      · rw [hlookup', hsome]
  | gone hzero hnone =>
      rw [hnone] at hlookup
      cases hlookup

/-- A delivery to another client. -/
theorem due_of_ne {c : UInt64} {msg : ServerMessage} {deliveries : List (UInt64 × ServerMessage)}
    (hdeliveries : p.deliveries = (c, msg) :: deliveries) (hp' : p'.deliveries = deliveries)
    (hc : c ≠ clientId i) :
  p'.due i = p.due i
  := by
  rw [due_cons hdeliveries hp', if_neg hc, List.nil_append]

/-- Nothing is received by a client from a delivery to another. -/
theorem receipts_of_ne {c : UInt64} {msg : ServerMessage}
    {deliveries : List (UInt64 × ServerMessage)}
    (hdeliveries : p.deliveries = (c, msg) :: deliveries)
    (hlookup : p.clientSenders.lookup c ≠ some i ∨ (p.connections i).trySend msg = none) :
  receipts i p .deliver = []
  := by
  rw [receipts, hdeliveries]
  dsimp only
  rw [if_neg]
  rintro ⟨hsome, hsend⟩
  rcases hlookup with hne | hnone
  · exact hne hsome
  · rw [hnone] at hsend
    cases hsend

theorem Status.step (h : Status file as p i) (hrun : Runs file as p)
    (haccepted : p.accepted < 2 ^ 64) (hi : i < p.accepted) (hstep : p.Step a p') :
  Status file (as ++ [a]) p' i
  := by
  have hannounced := announcements_step (i := i) hstep hi
  have hrouted := routed hrun
  cases id hstep with
  | connection hdeliveries hrecv =>
      apply h.connection hrun haccepted hi hstep hdeliveries hrecv rfl
  | dispatch hdeliveries hclients hrecv =>
      apply h.dispatch hrun hstep hdeliveries hclients hrecv (hannounced nofun) <;> rfl
  | @deliverNone c msg deliveries hdeliveries hlookup =>
      have hreceipts := receipts_of_ne (i := i) hdeliveries (Or.inl (by rw [hlookup]; nofun))
      rcases eq_or_ne c (clientId i) with rfl | hc
      · apply h.forgotten hrun hstep (hannounced nofun) hlookup hreceipts rfl
      · apply h.frame hrun hstep (hannounced nofun) rfl hreceipts rfl
        apply due_of_ne hdeliveries rfl hc
  | @deliverSent c msg deliveries j c' hdeliveries hlookup hsend =>
      obtain ⟨rfl, hj⟩ := hrouted.of_lookup c j hlookup
      rcases eq_or_ne i j with rfl | hne
      · apply h.deliver hrun hstep hdeliveries hlookup _ (hannounced nofun) rfl rfl
        rw [hsend]
        rfl
      · have hreceipts := receipts_of_ne (i := i) hdeliveries
          (Or.inl (by rw [hlookup]; simpa using hne.symm))
        apply h.frame hrun hstep (hannounced nofun) rfl hreceipts rfl
        apply due_of_ne hdeliveries rfl (clientId_ne haccepted hi hj hne).symm
  | @deliverEvict c msg deliveries j hdeliveries hlookup hsend =>
      obtain ⟨rfl, hj⟩ := hrouted.of_lookup c j hlookup
      rcases eq_or_ne i j with rfl | hne
      · have hreceipts := receipts_of_ne (i := i) hdeliveries (Or.inr hsend)
        apply h.forgotten hrun hstep (hannounced nofun) _ hreceipts rfl
        apply AList.lookup_erase
      · have hreceipts := receipts_of_ne (i := i) hdeliveries
          (Or.inl (by rw [hlookup]; simpa using hne.symm))
        have hc := clientId_ne haccepted hi hj hne
        apply h.frame hrun hstep (hannounced nofun) _ hreceipts rfl
        · apply due_of_ne hdeliveries rfl hc.symm
        · apply AList.lookup_erase_ne hc
  | _ => exact h.frame hrun hstep (hannounced nofun) rfl rfl rfl rfl

/-- A connection that has just been accepted is waiting to be known. -/
theorem Status.accept (hrun : Runs file as p) (haccepted : p.accepted + 1 < 2 ^ 64)
    (hstep : p.Step .accept p') :
  Status file (as ++ [.accept]) p' p.accepted
  := by
  have hreceived := received_concat hrun hstep p.accepted
  have hrouted := routed hrun
  cases hstep
  apply Status.waiting
  · have hcount : p.connRx.items.count (.connected (clientId p.accepted) p.accepted) = 0 := by
      rw [List.count_eq_zero]
      intro hmem
      exact Nat.lt_irrefl _ (hrouted.of_mem _ _ hmem).2
    unfold announcements
    dsimp only
    rw [connections_setConnection_self]
    change 1 + p.connRx.items.count (.connected (clientId p.accepted) p.accepted) = 1
    rw [hcount]
  · change p.clientSenders.lookup (clientId p.accepted) = none
    rw [Option.eq_none_iff_forall_ne_some]
    intro j hlookup
    obtain ⟨heq, hj⟩ := hrouted.of_lookup _ _ hlookup
    rw [clientId_inj haccepted (by omega)] at heq
    omega
  · rw [hreceived, received_of_le hrun _ (Nat.le_refl _)]
    rfl

theorem status (h : Runs file as p) (haccepted : p.accepted < 2 ^ 64) :
  ∀ i < p.accepted, Status file as p i
  := by
  revert haccepted
  apply runs_induction
    (P := fun as p => p.accepted < 2 ^ 64 → ∀ i < p.accepted, Status file as p i) _ _ h
  · intro _ i hi
    exact absurd hi (Nat.not_lt_zero i)
  clear h
  intro as a p p' hrun hstep ih haccepted i hi
  have hle := accepted_le hstep
  rcases Nat.lt_or_ge i p.accepted with hi' | hi'
  · apply (ih (by omega) i hi').step hrun (by omega) hi' hstep
  · have ha : a = .accept := by
      by_contra ha
      rw [accepted_eq hstep ha] at hi
      omega
    subst ha
    have hsucc : p'.accepted = p.accepted + 1 := by
      cases hstep
      rfl
    obtain rfl : i = p.accepted := by omega
    apply Status.accept hrun (by omega) hstep

/-! ### What a client is sent -/

/-- What a client has received is a block of the messages meant for it, without a gap and each
once, and nothing is missing after it while the dispatcher knows the client; and what has been
written to its socket is the first part of what it has received, to the last byte if its writer
has nothing left to do. -/
structure Delivers (file : List UInt8) (as : List Action) (p : Pipeline) (i : Nat) : Prop where
  messages_eq : ∃ before after, messagesTo (clientId i) (dispatched file as)
      = before ++ received file as i ++ after
    ∧ (clientId i ∈ p.clientSenders → after = p.due i)
  output_prefix : (p.connections i).output
    <+: ServerMessage.layout.encodeAll (received file as i)
  output_eq : (p.connections i).receiving = true →
    (p.connections i).output ++ (p.connections i).outgoing
        ++ ServerMessage.layout.encodeAll (p.connections i).queue.items
      = ServerMessage.layout.encodeAll (received file as i)

theorem delivers (h : Runs file as p) (haccepted : p.accepted < 2 ^ 64) (hi : i < p.accepted) :
  Delivers file as p i
  := by
  have hwrites := writes h i
  refine ⟨?_, hwrites.output_prefix, hwrites.of_receiving⟩
  cases status h haccepted i hi with
  | waiting hone hnone hnil =>
      use messagesTo (clientId i) (dispatched file as), []
      rw [hnil, List.append_nil, List.append_nil]
      refine ⟨rfl, fun hmem => ?_⟩
      rw [← AList.lookup_isSome, hnone] at hmem
      cases hmem
  | known hzero hsome before hmessages => exact ⟨before, _, hmessages, fun _ => rfl⟩
  | gone hzero hnone before after hmessages =>
      refine ⟨before, after, hmessages, fun hmem => ?_⟩
      rw [← AList.lookup_isSome, hnone] at hmem
      cases hmem

/-- From the bytes of the clients to the bytes they are sent: the pipeline refines the loop on an
interleaving of their orders, and delivers to each client what the loop sends to it. -/
theorem end_to_end (h : Runs file as p) (haccepted : p.accepted < 2 ^ 64) :
  Serves file as p ∧ ∀ i < p.accepted, Delivers file as p i
  := ⟨serves h haccepted, fun _ hi => delivers h haccepted hi⟩

theorem end_to_end_firstActions :
  ∃ p, Runs [] firstActions p
    ∧ Serves [] firstActions p ∧ ∀ i < p.accepted, Delivers [] firstActions p i
  := by
  obtain ⟨p, hrun, haccepted⟩ := exists_runs_firstActions
  exact ⟨p, hrun, end_to_end hrun (by rw [haccepted]; decide)⟩

/-- What the loop sends to a client. -/
theorem messagesTo_events (h : Runs file as p) :
  messagesTo (clientId i) (dispatched file as)
    <+: messagesTo (clientId i) ((Exchange.recover file).run (handled file as)).events
  := by
  rw [← (loops h).events_eq, List.append_assoc, messagesTo_append]
  apply List.prefix_append

theorem magic_of_mem_received (h : Runs file as p) (haccepted : p.accepted < 2 ^ 64)
    (hi : i < p.accepted) :
  ∀ msg ∈ received file as i, msg.magic = ORDER_MAGIC
  := by
  intro msg hmem
  obtain ⟨before, after, heq, -⟩ := (delivers h haccepted hi).messages_eq
  have hmem' : msg ∈ messagesTo (clientId i) (dispatched file as) := by
    rw [heq]
    exact List.mem_append_left _ (List.mem_append_right _ hmem)
  obtain ⟨event, hevent, hmsg⟩ := List.mem_flatMap.mp ((messagesTo_events h).subset hmem')
  apply Exchange.framed_run _ _ event hevent _ msg hmsg

/-- What a client counts of the bytes it has been sent, however they come in, is the numbers of
a block of the messages that the loop on its own sends to it. -/
theorem listen_output (h : Runs file as p) (haccepted : p.accepted < 2 ^ 64)
    (hi : i < p.accepted) (k : Nat) :
  ∃ before counted after,
    messagesTo (clientId i) ((Exchange.recover file).run (handled file as)).events
        = before ++ counted ++ after
      ∧ counted.length = min k (p.connections i).output.length / 64
      ∧ listen ((p.connections i).output.take k) = Tally.of counted
  := by
  have hdelivers := delivers h haccepted hi
  obtain ⟨before, after, heq, -⟩ := hdelivers.messages_eq
  obtain ⟨rest, hrest⟩ := messagesTo_events (i := i) h
  have hlength := hdelivers.output_prefix.length_le
  rw [Codec.length_encodeAll, ServerMessage.layout_size] at hlength
  use before, (received file as i).take (min k (p.connections i).output.length / 64),
    (received file as i).drop (min k (p.connections i).output.length / 64) ++ after ++ rest
  refine ⟨?_, ?_, ?_⟩
  · rw [← hrest, heq]
    simp only [List.append_assoc]
    rw [← List.append_assoc (List.take _ _), List.take_append_drop]
  · rw [List.length_take]
    omega
  · rw [← listen_take_encodeAll (magic_of_mem_received h haccepted hi), ← List.take_take]
    congr 2
    apply List.prefix_iff_eq_take.mp hdelivers.output_prefix

theorem listen_output_firstActions :
  ∃ p, Runs [] firstActions p ∧ ∀ k, ∃ before counted after,
    messagesTo (clientId 0) ((Exchange.recover []).run (handled [] firstActions)).events
        = before ++ counted ++ after
      ∧ counted.length = min k (p.connections 0).output.length / 64
      ∧ listen ((p.connections 0).output.take k) = Tally.of counted
  := by
  obtain ⟨p, hrun, haccepted⟩ := exists_runs_firstActions
  exact ⟨p, hrun, listen_output hrun (by rw [haccepted]; decide) (by rw [haccepted]; decide)⟩

end Pipeline

end LimitOrderBook
