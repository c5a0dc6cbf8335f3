import LimitOrderBook.Framing
import LimitOrderBook.Lib.Channel
import LimitOrderBook.Lib.Machine

/-!
# One connection

Two tasks serve a connection: a reader, which goes through the phases of `Phase`, and a writer,
which takes messages from a bounded queue and writes them to the socket.  `Connection.step` is
what happens between them and the client.  What they exchange with the rest of the pipeline is
in `Pipeline`.

Bytes arrive when they can be read: what a reset takes away has not arrived.  A writer whose
queue has lost its last sender is not told apart from one that waits.
-/

namespace LimitOrderBook

/-- Where the reader of a connection is. -/
inductive Phase where
  | opening
  | reading
  | submitting (order : Order)
  | closing
  | closed
  deriving DecidableEq, Repr

/-- The tasks of a connection, the bytes that wait to be read, the queue of messages, and the
bytes the writer has still to write and has written. -/
structure Connection where
  input : List UInt8
  hungUp : Bool
  phase : Phase
  queue : Channel ServerMessage 8192
  receiving : Bool
  outgoing : List UInt8
  output : List UInt8

namespace Connection

/-- A connection that has been accepted. -/
def new : Connection where
  input := []
  hungUp := false
  phase := .opening
  queue := Channel.empty
  receiving := true
  outgoing := []
  output := []

/-- A connection that has not been accepted yet. -/
def idle : Connection :=
  { new with hungUp := true, phase := .closed, receiving := false }

/-- What can happen to a connection: bytes arrive, the client hangs up, the reader reads an order
or finds the end, and the writer takes a message, writes some bytes of it, fails to, or is
aborted. -/
inductive Action where
  | arrive (bytes : List UInt8)
  | hangUp
  | read
  | leave
  | take
  | write (n : Nat)
  | fail
  | abort
  deriving DecidableEq, Repr

/-- The reader after an order: it has one to submit, or the connection ends. -/
def afterRead (order : Order) : Phase :=
  match quarantine order with
  | none => .closing
  | some order => .submitting order

/-- The writer ends, and its queue with it. -/
def dropWriter (c : Connection) : Connection :=
  { c with receiving := false, queue := Channel.empty, outgoing := [] }

def step (c : Connection) : Action → Option Connection
  | .arrive bytes => if c.hungUp then none else some { c with input := c.input ++ bytes }
  | .hangUp => if c.hungUp then none else some { c with hungUp := true }
  | .read =>
      if c.phase = .reading ∧ Order.layout.size ≤ c.input.length then
        some
          { c with
            input := c.input.drop Order.layout.size
            phase := afterRead (Order.layout.decode (c.input.take Order.layout.size)) }
      else none
  | .leave =>
      if c.phase = .reading ∧ c.hungUp ∧ c.input.length < Order.layout.size then
        some { c with phase := .closing }
      else none
  | .take =>
      if c.receiving ∧ c.outgoing = [] then
        c.queue.recv.map fun (msg, queue) =>
          { c with queue := queue, outgoing := ServerMessage.layout.encode msg }
      else none
  | .write n =>
      if c.receiving ∧ 0 < n ∧ n ≤ c.outgoing.length then
        some { c with outgoing := c.outgoing.drop n, output := c.output ++ c.outgoing.take n }
      else none
  | .fail => if c.receiving ∧ c.outgoing ≠ [] then some c.dropWriter else none
  | .abort =>
      if c.receiving ∧ (c.phase = .closing ∨ c.phase = .closed) then some c.dropWriter else none

/-- Put a message into the queue without waiting. -/
def trySend (c : Connection) (msg : ServerMessage) : Option Connection :=
  if c.receiving then (c.queue.send msg).map fun queue => { c with queue := queue } else none

/-- The tasks' own actions: the others are the client's. -/
def Action.Internal : Action → Prop
  | .arrive _ | .hangUp => False
  | _ => True

/-! ### The steps -/

variable {c c' : Connection} {a : Action}

/-- The steps of a connection. -/
inductive Step (c : Connection) : Action → Connection → Prop where
  | arrive {bytes : List UInt8} (hopen : c.hungUp = false) :
      Step c (.arrive bytes) { c with input := c.input ++ bytes }
  | hangUp (hopen : c.hungUp = false) : Step c .hangUp { c with hungUp := true }
  | read (hphase : c.phase = .reading) (hlen : 48 ≤ c.input.length) :
      Step c .read
        { c with
          input := c.input.drop 48
          phase := afterRead (Order.layout.decode (c.input.take 48)) }
  | leave (hphase : c.phase = .reading) (hend : c.hungUp = true) (hlen : c.input.length < 48) :
      Step c .leave { c with phase := .closing }
  | take {msg : ServerMessage} {queue : Channel ServerMessage 8192}
      (hreceiving : c.receiving = true) (hout : c.outgoing = [])
      (hrecv : c.queue.recv = some (msg, queue)) :
      Step c .take { c with queue := queue, outgoing := ServerMessage.layout.encode msg }
  | write {n : Nat} (hreceiving : c.receiving = true) (hpos : 0 < n)
      (hlen : n ≤ c.outgoing.length) :
      Step c (.write n)
        { c with outgoing := c.outgoing.drop n, output := c.output ++ c.outgoing.take n }
  | fail (hreceiving : c.receiving = true) (hout : c.outgoing ≠ []) : Step c .fail c.dropWriter
  | abort (hreceiving : c.receiving = true) (hphase : c.phase = .closing ∨ c.phase = .closed) :
      Step c .abort c.dropWriter

/-- What each action does. -/
theorem step_eq_some_iff :
  c.step a = some c' ↔ c.Step a c'
  := by
  constructor
  · intro h
    cases a with
    | arrive bytes =>
        obtain ⟨hopen, h⟩ := Option.ite_none_left_eq_some.mp h
        obtain rfl := Option.some.inj h
        apply Step.arrive (Bool.eq_false_iff.mpr hopen)
    | hangUp =>
        obtain ⟨hopen, h⟩ := Option.ite_none_left_eq_some.mp h
        obtain rfl := Option.some.inj h
        apply Step.hangUp (Bool.eq_false_iff.mpr hopen)
    | read =>
        obtain ⟨⟨hphase, hlen⟩, h⟩ := Option.ite_none_right_eq_some.mp h
        obtain rfl := Option.some.inj h
        apply Step.read hphase hlen
    | leave =>
        obtain ⟨⟨hphase, hend, hlen⟩, h⟩ := Option.ite_none_right_eq_some.mp h
        obtain rfl := Option.some.inj h
        apply Step.leave hphase hend hlen
    | take =>
        obtain ⟨⟨hreceiving, hout⟩, h⟩ := Option.ite_none_right_eq_some.mp h
        obtain ⟨⟨msg, queue⟩, hrecv, rfl⟩ := Option.map_eq_some_iff.mp h
        apply Step.take hreceiving hout hrecv
    | write n =>
        obtain ⟨⟨hreceiving, hpos, hlen⟩, h⟩ := Option.ite_none_right_eq_some.mp h
        obtain rfl := Option.some.inj h
        apply Step.write hreceiving hpos hlen
    | fail =>
        obtain ⟨⟨hreceiving, hout⟩, h⟩ := Option.ite_none_right_eq_some.mp h
        obtain rfl := Option.some.inj h
        apply Step.fail hreceiving hout
    | abort =>
        obtain ⟨⟨hreceiving, hphase⟩, h⟩ := Option.ite_none_right_eq_some.mp h
        obtain rfl := Option.some.inj h
        apply Step.abort hreceiving hphase
  · intro h
    cases h with
    | arrive hopen => rw [step, if_neg (Bool.eq_false_iff.mp hopen)]
    | hangUp hopen => rw [step, if_neg (Bool.eq_false_iff.mp hopen)]
    | read hphase hlen =>
        rw [step, Order.layout_size, if_pos ⟨hphase, hlen⟩]
    | leave hphase hend hlen => rw [step, Order.layout_size, if_pos ⟨hphase, hend, hlen⟩]
    | take hreceiving hout hrecv =>
        rw [step, if_pos ⟨hreceiving, hout⟩, hrecv, Option.map_some]
    | write hreceiving hpos hlen => rw [step, if_pos ⟨hreceiving, hpos, hlen⟩]
    | fail hreceiving hout => rw [step, if_pos ⟨hreceiving, hout⟩]
    | abort hreceiving hphase => rw [step, if_pos ⟨hreceiving, hphase⟩]

/-- A message is put into the queue of a connection if the writer still takes and there is room. -/
theorem trySend_eq_some_iff {msg : ServerMessage} :
  c.trySend msg = some c'
    ↔ c.receiving = true ∧ ∃ queue, c.queue.send msg = some queue ∧ c' = { c with queue := queue }
  := by
  unfold trySend
  rw [Option.ite_none_right_eq_some, Option.map_eq_some_iff]
  simp only [eq_comm]

/-- Only the announcement ends the opening. -/
theorem phase_step (h : c.Step a c') :
  c'.phase = .opening ↔ c.phase = .opening
  := by
  cases h with
  | read hphase =>
      rw [hphase]
      dsimp only
      unfold afterRead
      split <;> exact iff_of_false Phase.noConfusion Phase.noConfusion
  | leave hphase =>
      rw [hphase]
      exact iff_of_false Phase.noConfusion Phase.noConfusion
  | _ => exact Iff.rfl

/-! ### The reader -/

/-- The bytes that arrive. -/
def arrivals : Action → List UInt8
  | .arrive bytes => bytes
  | _ => []

/-- The bytes the reader takes. -/
def readings (c : Connection) : Action → List UInt8
  | .read => c.input.take 48
  | _ => []

/-- The order that waits to be submitted. -/
def pending (c : Connection) : List Order :=
  match c.phase with
  | .submitting order => [order]
  | _ => []

/-- What has arrived is what has been read and what waits to be read. -/
theorem input_step (h : c.Step a c') :
  c.input ++ arrivals a = c.readings a ++ c'.input
  := by
  cases h with
  | arrive => rfl
  | read => exact (List.append_nil _).trans (List.take_append_drop 48 c.input).symm
  | hangUp | leave | take | write | fail | abort => exact List.append_nil _

/-- What has been forwarded is what the loop of the reader makes of the bytes it has read.  Once
the reader has ended, it has either met a wrong magic or read all that can arrive. -/
structure Reads (consumed : List UInt8) (forwarded : List Order) (c : Connection) : Prop where
  forwarded_eq : forwarded ++ c.pending = ingress consumed
  of_live : c.phase ≠ .closing → c.phase ≠ .closed →
    ∃ orders, consumed = Order.layout.encodeAll orders
      ∧ ∀ order ∈ orders, order.magic = ORDER_MAGIC
  of_ended : c.phase = .closing ∨ c.phase = .closed →
    (∀ rest, ingress (consumed ++ rest) = ingress consumed)
      ∨ (c.hungUp = true ∧ ingress (consumed ++ c.input) = ingress consumed)

namespace Reads

variable {consumed : List UInt8} {forwarded : List Order}

theorem idle :
  Reads [] [] idle where
  forwarded_eq := rfl
  of_live _ h := absurd rfl h
  of_ended _ := Or.inr ⟨rfl, rfl⟩

theorem new :
  Reads [] [] new where
  forwarded_eq := rfl
  of_live _ _ := ⟨[], rfl, fun _ h => nomatch h⟩
  of_ended h := by
    rcases h with h | h <;> cases h

/-- What a writer does not change is not read. -/
theorem congr (h : Reads consumed forwarded c) (hphase : c'.phase = c.phase)
    (hinput : c'.input = c.input) (hhungUp : c'.hungUp = c.hungUp) :
  Reads consumed forwarded c'
  := by
  have hpending : c'.pending = c.pending := by
    unfold pending
    rw [hphase]
  constructor
  · rw [hpending, h.forwarded_eq]
  · rw [hphase]
    apply h.of_live
  · rw [hphase, hinput, hhungUp]
    apply h.of_ended

/-- The reader takes a message. -/
theorem read (h : Reads consumed forwarded c) (hphase : c.phase = .reading)
    (hlen : 48 ≤ c.input.length) :
  Reads (consumed ++ c.input.take 48) forwarded
    { c with
      input := c.input.drop 48, phase := afterRead (Order.layout.decode (c.input.take 48)) }
  := by
  obtain ⟨orders, rfl, hmagic⟩ :=
    h.of_live (by rw [hphase]; decide) (by rw [hphase]; decide)
  have hforwarded : forwarded = orders.filterMap quarantine := by
    have heq := h.forwarded_eq
    have hnil : c.pending = [] := by rw [pending, hphase]
    rw [hnil, List.append_nil, ingress_encodeAll hmagic] at heq
    apply heq
  obtain ⟨order, horder⟩ : ∃ order, Order.layout.encode order = c.input.take 48 := by
    refine ⟨_, Order.layout.encode_decode _ ?_⟩
    rw [List.length_take, Order.layout_size]
    omega
  rw [← horder, Order.layout.decode_encode, afterRead]
  cases hquarantine : quarantine order with
  | none =>
      have hbad := quarantine_eq_none_iff.mp hquarantine
      have hstops (rest : List UInt8) :
          ingress (Order.layout.encodeAll orders ++ (Order.layout.encode order ++ rest))
            = orders.filterMap quarantine := by
        rw [ingress_append_of_framed hmagic, ingress_of_not_framed hbad, List.append_nil]
      have hstop := hstops []
      rw [List.append_nil] at hstop
      constructor
      · rw [hstop, hforwarded]
        exact List.append_nil _
      · intro hclosing
        exact absurd rfl hclosing
      · intro _
        left
        intro rest
        rw [List.append_assoc, hstops, hstop]
  | some order' =>
      have hadmitted := admitted_of_quarantine hquarantine
      have hgood : order.magic = ORDER_MAGIC :=
        hadmitted.sameButIds.magic_eq.symm.trans hadmitted.magic_eq
      have hall : ∀ o ∈ orders ++ [order], o.magic = ORDER_MAGIC :=
        List.forall_mem_append.mpr ⟨hmagic, List.forall_mem_singleton.mpr hgood⟩
      have hencode : Order.layout.encodeAll orders ++ Order.layout.encode order
          = Order.layout.encodeAll (orders ++ [order]) := by
        rw [Codec.encodeAll_append, Codec.encodeAll_cons, Codec.encodeAll_nil, List.append_nil]
      constructor
      · rw [hencode, ingress_encodeAll hall, List.filterMap_append, hforwarded,
          List.filterMap_cons_some hquarantine]
        rfl
      · intro _ _
        exact ⟨orders ++ [order], hencode, hall⟩
      · intro hended
        rcases hended with hended | hended <;> cases hended

/-- The reader ends with the stream. -/
theorem leave (h : Reads consumed forwarded c) (hphase : c.phase = .reading)
    (hend : c.hungUp = true) (hlen : c.input.length < 48) :
  Reads consumed forwarded { c with phase := .closing }
  := by
  obtain ⟨orders, rfl, hmagic⟩ :=
    h.of_live (by rw [hphase]; decide) (by rw [hphase]; decide)
  have heq := h.forwarded_eq
  have hnil : c.pending = [] := by rw [pending, hphase]
  rw [hnil] at heq
  constructor
  · exact heq
  · intro hclosing
    exact absurd rfl hclosing
  · intro _
    right
    refine ⟨hend, ?_⟩
    rw [ingress_append_of_framed hmagic, ingress_of_lt hlen,
      ← List.append_nil (Order.layout.encodeAll orders), ingress_append_of_framed hmagic,
      ingress_of_lt (by decide)]

/-- The run invariant of the reader. -/
theorem step (h : Reads consumed forwarded c) (hstep : c.Step a c') :
  Reads (consumed ++ c.readings a) forwarded c'
  := by
  cases hstep with
  | arrive hopen =>
      change Reads (consumed ++ []) forwarded _
      rw [List.append_nil]
      constructor
      · apply h.forwarded_eq
      · apply h.of_live
      · intro hended
        rcases h.of_ended hended with hrest | ⟨hhungUp, -⟩
        · exact Or.inl hrest
        · rw [hhungUp] at hopen
          cases hopen
  | hangUp hopen =>
      change Reads (consumed ++ []) forwarded _
      rw [List.append_nil]
      constructor
      · apply h.forwarded_eq
      · apply h.of_live
      · intro hended
        rcases h.of_ended hended with hrest | ⟨hhungUp, -⟩
        · exact Or.inl hrest
        · rw [hhungUp] at hopen
          cases hopen
  | read hphase hlen => apply h.read hphase hlen
  | leave hphase hend hlen =>
      change Reads (consumed ++ []) forwarded _
      rw [List.append_nil]
      apply h.leave hphase hend hlen
  | take | write | fail | abort =>
      change Reads (consumed ++ []) forwarded _
      rw [List.append_nil]
      apply h.congr <;> rfl

/-- A connection announces itself before it reads. -/
theorem announce (h : Reads consumed forwarded c) (hphase : c.phase = .opening) :
  Reads consumed forwarded { c with phase := .reading }
  := by
  have hlive := h.of_live (by rw [hphase]; decide) (by rw [hphase]; decide)
  have heq := h.forwarded_eq
  have hnil : c.pending = [] := by rw [pending, hphase]
  rw [hnil] at heq
  constructor
  · exact heq
  · intro _ _
    exact hlive
  · intro hended
    rcases hended with hended | hended <;> cases hended

/-- An order is forwarded. -/
theorem submit (h : Reads consumed forwarded c) {order : Order}
    (hphase : c.phase = .submitting order) :
  Reads consumed (forwarded ++ [order]) { c with phase := .reading }
  := by
  have hlive := h.of_live (by rw [hphase]; simp) (by rw [hphase]; simp)
  have heq := h.forwarded_eq
  have hpending : c.pending = [order] := by rw [pending, hphase]
  rw [hpending] at heq
  constructor
  · exact (List.append_nil _).trans heq
  · intro _ _
    exact hlive
  · intro hended
    rcases hended with hended | hended <;> cases hended

/-- The reader says farewell. -/
theorem farewell (h : Reads consumed forwarded c) (hphase : c.phase = .closing) :
  Reads consumed forwarded { c with phase := .closed }
  := by
  have hended := h.of_ended (Or.inl hphase)
  have heq := h.forwarded_eq
  have hnil : c.pending = [] := by rw [pending, hphase]
  rw [hnil] at heq
  constructor
  · exact heq
  · intro _ hclosed
    exact absurd rfl hclosed
  · intro _
    exact hended

end Reads

/-! ### The writer -/

/-- What is written, what is being written and what waits is what has been received; a writer
that has ended has written the first part of it. -/
structure Writes (received : List ServerMessage) (c : Connection) : Prop where
  output_prefix : c.output <+: ServerMessage.layout.encodeAll received
  of_receiving : c.receiving = true →
    c.output ++ c.outgoing ++ ServerMessage.layout.encodeAll c.queue.items
      = ServerMessage.layout.encodeAll received

namespace Writes

variable {received : List ServerMessage}

theorem idle :
  Writes [] idle where
  output_prefix := List.prefix_rfl
  of_receiving _ := rfl

theorem new :
  Writes [] new where
  output_prefix := List.prefix_rfl
  of_receiving _ := rfl

/-- The writer's part of a connection is all that counts. -/
theorem congr (h : Writes received c) (houtput : c'.output = c.output)
    (houtgoing : c'.outgoing = c.outgoing) (hqueue : c'.queue = c.queue)
    (hreceiving : c'.receiving = c.receiving) :
  Writes received c'
  := by
  constructor
  · rw [houtput]
    apply h.output_prefix
  · rw [houtput, houtgoing, hqueue, hreceiving]
    apply h.of_receiving

/-- A writer that has ended writes no more. -/
theorem dropWriter (h : Writes received c) :
  Writes received c.dropWriter where
  output_prefix := h.output_prefix
  of_receiving hreceiving := nomatch hreceiving

/-- The run invariant of the writer. -/
theorem step (h : Writes received c) (hstep : c.Step a c') :
  Writes received c'
  := by
  cases hstep with
  | arrive | hangUp | read | leave => apply h.congr <;> rfl
  | take hreceiving hout hrecv =>
      have hall := h.of_receiving hreceiving
      rw [hout, Channel.recv_eq_some_iff.mp hrecv, List.append_nil, Codec.encodeAll_cons,
        ← List.append_assoc] at hall
      exact ⟨h.output_prefix, fun _ => hall⟩
  | @write n hreceiving hpos hlen =>
      have hall := h.of_receiving hreceiving
      have hsplit : c.output ++ c.outgoing.take n ++ c.outgoing.drop n = c.output ++ c.outgoing := by
        rw [List.append_assoc, List.take_append_drop]
      rw [← hsplit] at hall
      refine ⟨?_, fun _ => hall⟩
      use c.outgoing.drop n ++ ServerMessage.layout.encodeAll c.queue.items
      rw [← hall]
      simp only [List.append_assoc]
  | fail => apply h.dropWriter
  | abort => apply h.dropWriter

/-- A message put into the queue has been received. -/
theorem trySend (h : Writes received c) {msg : ServerMessage} (hsend : c.trySend msg = some c') :
  Writes (received ++ [msg]) c'
  := by
  obtain ⟨hreceiving, queue, hqueue, rfl⟩ := trySend_eq_some_iff.mp hsend
  obtain ⟨-, hitems⟩ := Channel.send_eq_some_iff.mp hqueue
  constructor
  · rw [Codec.encodeAll_append]
    exact h.output_prefix.trans (List.prefix_append _ _)
  · intro _
    dsimp only
    rw [hitems, Codec.encodeAll_append, ← List.append_assoc, h.of_receiving hreceiving,
      Codec.encodeAll_append]

end Writes

end Connection

end LimitOrderBook
