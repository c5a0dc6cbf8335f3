import LimitOrderBook.Exchange
import LimitOrderBook.Wal
import Mathlib.Data.List.TakeWhile

/-!
# The two streams of a connection

A client sends orders of 48 bytes, and is sent messages of 64 bytes.  `ingress` is what the
reader loop of the gateway makes of the bytes that arrive, and `listen` what the loop of a client
makes of the messages.  Neither depends on how the bytes are cut into pieces on the way:
an order or a message that is complete is taken in, and the rest is left.
-/

namespace LimitOrderBook

open Codec

/-! ### The reader of the gateway -/

/-- The reader loop forwards an order that passes the quarantine, and ends at one that does
not. -/
def receive (forwarded : List Order) (order : Order) : Option (List Order) :=
  (quarantine order).map fun order => forwarded ++ [order]

/-- The orders forwarded from the bytes of a connection. -/
def ingress (bytes : List UInt8) : List Order := Order.layout.scan receive [] bytes

/-- The quarantine stops exactly the orders with a wrong magic number. -/
theorem quarantine_eq_none_iff {order : Order} :
  quarantine order = none ↔ order.magic ≠ ORDER_MAGIC
  := by
  unfold quarantine
  split
  · next h => exact iff_of_true rfl h
  · next h =>
      split
      · simp only [reduceCtorEq, h]
      · simp only [reduceCtorEq, h]

/-- What the quarantine leaves as it is: all fields but the two identifiers. -/
structure Order.SameButIds (o o' : Order) : Prop where
  price_eq : o'.price = o.price
  qty_eq : o'.qty = o.qty
  userId_eq : o'.userId = o.userId
  side_eq : o'.side = o.side
  orderType_eq : o'.orderType = o.orderType
  symbolId_eq : o'.symbolId = o.symbolId
  magic_eq : o'.magic = o.magic

/-- What the quarantine lets through. -/
structure Order.Admitted (o o' : Order) : Prop where
  sameButIds : o.SameButIds o'
  magic_eq : o'.magic = ORDER_MAGIC
  of_cancel : o'.kind = .cancel → o' = o
  id_eq : o'.kind ≠ .cancel → o'.id = 0
  clientOrderId_eq : o'.kind ≠ .cancel →
    o'.clientOrderId = if o.clientOrderId = 0 then o.id else o.clientOrderId

theorem admitted_of_quarantine {o o' : Order} (h : quarantine o = some o') :
  o.Admitted o'
  := by
  unfold quarantine at h
  split at h
  · cases h
  · next hmagic =>
      split at h
      · next hkind =>
          obtain rfl := Option.some.inj h
          exact ⟨⟨rfl, rfl, rfl, rfl, rfl, rfl, rfl⟩, not_not.mp hmagic,
            fun hcancel => absurd hcancel hkind, fun _ => rfl, fun _ => rfl⟩
      · next hkind =>
          obtain rfl := Option.some.inj h
          exact ⟨⟨rfl, rfl, rfl, rfl, rfl, rfl, rfl⟩, not_not.mp hmagic, fun _ => rfl,
            fun hother => absurd (not_not.mp hkind) hother,
            fun hother => absurd (not_not.mp hkind) hother⟩

/-- The orders before the first with a wrong magic. -/
def framed (orders : List Order) : List Order :=
  orders.takeWhile fun order => order.magic = ORDER_MAGIC

/-- The reading loop appends the admitted ones among the framed orders. -/
theorem fold_receive (forwarded orders : List Order) :
  While.fold receive forwarded orders = forwarded ++ (framed orders).filterMap quarantine
  := by
  induction orders generalizing forwarded with
  | nil => rw [framed, List.takeWhile_nil, List.filterMap_nil, List.append_nil, While.fold]
  | cons order orders ih =>
      unfold framed at ih ⊢
      by_cases hmagic : order.magic = ORDER_MAGIC
      · obtain ⟨order', hsome⟩ : ∃ order', quarantine order = some order' := by
          rw [← Option.ne_none_iff_exists', ne_eq, quarantine_eq_none_iff, not_not]
          apply hmagic
        have hreceive : receive forwarded order = some (forwarded ++ [order']) := by
          rw [receive, hsome, Option.map_some]
        rw [While.fold_cons_of_some hreceive, ih, List.takeWhile_cons_of_pos (by simpa using hmagic),
          List.filterMap_cons_some hsome, List.append_assoc, List.singleton_append]
      · have hnone := quarantine_eq_none_iff.mpr hmagic
        have hreceive : receive forwarded order = none := by
          rw [receive, hnone, Option.map_none]
        rw [While.fold_cons_of_none hreceive, List.takeWhile_cons_of_neg (by simpa using hmagic),
          List.filterMap_nil, List.append_nil]

/-- What is forwarded from a stream, whatever is incomplete after its orders. -/
theorem ingress_encodeAll_append (orders : List Order) {tail : List UInt8}
    (h : tail.length < 48) :
  ingress (Order.layout.encodeAll orders ++ tail) = (framed orders).filterMap quarantine
  := by
  rw [ingress, Order.layout.scan_encodeAll_append (by decide) [] orders h, fold_receive,
    List.nil_append]

/-- Orders with the right magic number in front are all framed. -/
theorem framed_append_of_forall {os : List Order} (h : ∀ order ∈ os, order.magic = ORDER_MAGIC)
    (os' : List Order) :
  framed (os ++ os') = os ++ framed os'
  := List.takeWhile_append_of_pos (by simpa using h)

/-- Orders with the magic are forwarded, and the rest as if it came first. -/
theorem ingress_append_of_framed {os : List Order} (h : ∀ order ∈ os, order.magic = ORDER_MAGIC)
    (rest : List UInt8) :
  ingress (Order.layout.encodeAll os ++ rest) = os.filterMap quarantine ++ ingress rest
  := by
  obtain ⟨os', tail, rfl, htail⟩ := Order.layout.exists_encodeAll_append (by decide) rest
  rw [← List.append_assoc, ← encodeAll_append, ingress_encodeAll_append _ htail,
    ingress_encodeAll_append _ htail, framed_append_of_forall h, List.filterMap_append]

/-- Nothing is forwarded from an order on that has a wrong magic. -/
theorem ingress_of_not_framed {order : Order} (h : order.magic ≠ ORDER_MAGIC)
    (rest : List UInt8) :
  ingress (Order.layout.encode order ++ rest) = []
  := by
  obtain ⟨os', tail, rfl, htail⟩ := Order.layout.exists_encodeAll_append (by decide) rest
  rw [← List.append_assoc, ← encodeAll_cons, ingress_encodeAll_append _ htail, framed,
    List.takeWhile_cons_of_neg (by simpa using h), List.filterMap_nil]

theorem ingress_of_lt {bytes : List UInt8} (h : bytes.length < 48) :
  ingress bytes = []
  := Order.layout.scan_of_lt h []

/-- Of orders with the magic all are forwarded. -/
theorem ingress_encodeAll {os : List Order} (h : ∀ order ∈ os, order.magic = ORDER_MAGIC) :
  ingress (Order.layout.encodeAll os) = os.filterMap quarantine
  := by
  rw [← List.append_nil (Order.layout.encodeAll os), ingress_append_of_framed h,
    ingress_of_lt (by decide), List.append_nil]

/-- What is forwarded has passed the quarantine. -/
theorem admitted_of_mem_ingress {bytes : List UInt8} {order : Order} (h : order ∈ ingress bytes) :
  ∃ o : Order, o.Admitted order
  := by
  obtain ⟨os, tail, rfl, htail⟩ := Order.layout.exists_encodeAll_append (by decide) bytes
  rw [ingress_encodeAll_append _ htail] at h
  obtain ⟨o, -, hsome⟩ := List.mem_filterMap.mp h
  exact ⟨o, admitted_of_quarantine hsome⟩

/-- Cut at any byte, a stream of orders is forwarded up to the first order that is not complete
or has a wrong magic, each with nothing changed but the identifiers. -/
theorem ingress_take_encodeAll (orders : List Order) (k : Nat) :
  List.Forall₂ Order.Admitted (framed (orders.take (k / 48)))
    (ingress ((Order.layout.encodeAll orders).take k))
  := by
  rw [ingress, Order.layout.scan_take_encodeAll (by decide), fold_receive, List.nil_append,
    Order.layout_size]
  have hmagic : ∀ order ∈ framed (orders.take (k / 48)), order.magic = ORDER_MAGIC := by
    intro order hmem
    simpa using List.mem_takeWhile_imp hmem
  generalize framed (orders.take (k / 48)) = os at hmagic
  induction os with
  | nil => exact List.Forall₂.nil
  | cons order os ih =>
      cases hsome : quarantine order with
      | none => exact absurd (hmagic order List.mem_cons_self) (quarantine_eq_none_iff.mp hsome)
      | some order' =>
          rw [List.filterMap_cons_some hsome]
          apply List.Forall₂.cons (admitted_of_quarantine hsome)
          apply ih
          intro o ho
          apply hmagic o (List.mem_cons_of_mem order ho)

/-! ### The messages -/

/-- The fields of a message in the sequence in which they are laid out. -/
def ServerMessage.fields : (UInt8 × UInt8 × UInt8 × UInt8 × UInt16 × UInt8 × UInt8 × UInt64
    × UInt64 × UInt64 × UInt64 × UInt64 × UInt64 × UInt64) ≃ ServerMessage where
  toFun := fun (msgType, symbolId, rejectCode, isMaker, magic, padding₀, padding₁, orderId, userId,
      matchId, price, qty, extraPrice, extraQty) =>
    { msgType, symbolId, rejectCode, isMaker, magic, padding := (padding₀, padding₁), orderId,
      userId, matchId, price, qty, extraPrice, extraQty }
  invFun m :=
    (m.msgType, m.symbolId, m.rejectCode, m.isMaker, m.magic, m.padding.1, m.padding.2, m.orderId,
      m.userId, m.matchId, m.price, m.qty, m.extraPrice, m.extraQty)
  left_inv _ := rfl
  right_inv _ := rfl

def ServerMessage.layout : Codec ServerMessage :=
  (u8.pair <| u8.pair <| u8.pair <| u8.pair <| u16.pair <| u8.pair <| u8.pair <| u64.pair <|
    u64.pair <| u64.pair <| u64.pair <| u64.pair <| u64.pair u64).map ServerMessage.fields

@[simp]
theorem ServerMessage.layout_size :
  ServerMessage.layout.size = 64
  := rfl

/-- The messages of an event that are meant for a client. -/
def OutboundEvent.messagesTo (clientId : UInt64) : OutboundEvent → List ServerMessage
  | clientAck c msg | clientReject c msg | clientCancelOk c msg => if c = clientId then [msg] else []
  | tradeFill taker maker takerMsg makerMsg =>
      (if taker = clientId then [takerMsg] else []) ++ (if maker = clientId then [makerMsg] else [])
  | bboBroadcast msg => [msg]

/-- The messages of a sequence of events that are meant for a client. -/
def messagesTo (clientId : UInt64) (events : List OutboundEvent) : List ServerMessage :=
  events.flatMap (OutboundEvent.messagesTo clientId)

@[simp]
theorem messagesTo_nil (clientId : UInt64) :
  messagesTo clientId [] = []
  := rfl

@[simp]
theorem messagesTo_append (clientId : UInt64) (es es' : List OutboundEvent) :
  messagesTo clientId (es ++ es') = messagesTo clientId es ++ messagesTo clientId es'
  := List.flatMap_append

/-- The messages of the event carry the magic. -/
def OutboundEvent.Framed (event : OutboundEvent) : Prop :=
  ∀ clientId, ∀ msg ∈ event.messagesTo clientId, msg.magic = ORDER_MAGIC

namespace Exchange

/-- A rejection goes out under the magic number of the format. -/
theorem framed_rejection (clientId : UInt64) (order : Order) (reason : RejectReason) :
  (rejection clientId order reason).Framed
  := by
  intro c msg hmem
  rw [rejection, OutboundEvent.messagesTo] at hmem
  split at hmem
  · rw [List.mem_singleton.mp hmem]
    rfl
  · cases hmem

/-- A fill report goes out under the magic number of the format. -/
theorem framed_fillEvent (trade : Trade) :
  (fillEvent trade).Framed
  := by
  intro c msg hmem
  rw [fillEvent, OutboundEvent.messagesTo] at hmem
  rcases List.mem_append.mp hmem with hmem | hmem
  · split at hmem
    · rw [List.mem_singleton.mp hmem]
      rfl
    · cases hmem
  · split at hmem
    · rw [List.mem_singleton.mp hmem]
      rfl
    · cases hmem

/-- A best-price broadcast goes out under the magic number of the format. -/
theorem framed_bboEvents (engine : MultiAssetEngine) (symbolId : UInt16) :
  ∀ event ∈ bboEvents engine symbolId, event.Framed
  := by
  intro event hmem c msg hmsg
  unfold bboEvents at hmem
  split at hmem
  · cases hmem
  · rw [List.mem_singleton.mp hmem, OutboundEvent.messagesTo, List.mem_singleton] at hmsg
    rw [hmsg]
    rfl

/-- Whatever one inbound message sends out is framed. -/
theorem framed_handle (s : Exchange) (inbound : InboundMessage) :
  ∀ event ∈ (s.handle inbound).events, event.Framed
  := by
  have hanswer (c : UInt64) (msg : ServerMessage) (hmagic : msg.magic = ORDER_MAGIC) :
      (OutboundEvent.clientAck c msg).Framed ∧ (OutboundEvent.clientCancelOk c msg).Framed := by
    constructor <;>
      · intro c' msg' hmem
        rw [OutboundEvent.messagesTo] at hmem
        split at hmem
        · rwa [List.mem_singleton.mp hmem]
        · cases hmem
  intro event hmem
  unfold handle at hmem
  split at hmem
  · unfold handleCancel at hmem
    dsimp only at hmem
    split at hmem
    · rw [List.mem_singleton.mp hmem]
      apply (hanswer _ _ rfl).2
    · rw [List.mem_singleton.mp hmem]
      apply framed_rejection
  · unfold handleOrder at hmem
    split at hmem
    · rw [List.mem_singleton.mp hmem]
      apply framed_rejection
    · dsimp only at hmem
      split at hmem
      · simp only [List.cons_append, List.mem_cons, List.mem_append, List.mem_map] at hmem
        rcases hmem with rfl | (⟨trade, -, rfl⟩ | hstp) | hbbo
        · apply (hanswer _ _ rfl).1
        · apply framed_fillEvent
        · split at hstp
          · rw [List.mem_singleton.mp hstp]
            apply framed_rejection
          · cases hstp
        · apply framed_bboEvents _ _ event hbbo
      · rcases List.mem_pair.mp hmem with rfl | rfl
        · apply (hanswer _ _ rfl).1
        · apply framed_rejection

/-- Whatever a run of the exchange sends out is framed. -/
theorem framed_run (s : Exchange) (inbounds : List InboundMessage) :
  ∀ event ∈ (s.run inbounds).events, event.Framed
  := by
  induction inbounds generalizing s with
  | nil =>
      intro event hmem
      cases hmem
  | cons inbound inbounds ih =>
      intro event hmem
      rw [run] at hmem
      rcases List.mem_append.mp hmem with hmem | hmem
      · apply s.framed_handle inbound event hmem
      · apply ih _ event hmem

end Exchange

/-! ### The listener of a client -/

/-- What a client has counted. -/
structure Tally where
  fills : UInt64
  acks : UInt64
  cancels : UInt64
  rejects : UInt64
  deriving DecidableEq, Repr

namespace Tally

def zero : Tally where
  fills := 0
  acks := 0
  cancels := 0
  rejects := 0

/-- The listener counts a message by its type, and ends at one with a wrong magic. -/
def record (tally : Tally) (msg : ServerMessage) : Option Tally :=
  if msg.magic ≠ ORDER_MAGIC then none
  else if msg.msgType = ServerMsgType.accepted.toByte then
    some { tally with acks := tally.acks + 1 }
  else if msg.msgType = ServerMsgType.filled.toByte then
    some { tally with fills := tally.fills + 1 }
  else if msg.msgType = ServerMsgType.cancelled.toByte then
    some { tally with cancels := tally.cancels + 1 }
  else if msg.msgType = ServerMsgType.rejected.toByte then
    some { tally with rejects := tally.rejects + 1 }
  else some tally

end Tally

/-- What a client counts of the bytes it is sent. -/
def listen (bytes : List UInt8) : Tally := ServerMessage.layout.scan Tally.record Tally.zero bytes

/-- The number of messages of a type. -/
def countType (msgType : ServerMsgType) (msgs : List ServerMessage) : Nat :=
  msgs.countP fun msg => msg.msgType = msgType.toByte

/-- The numbers of messages of each type. -/
def Tally.of (msgs : List ServerMessage) : Tally where
  fills := UInt64.ofNat (countType .filled msgs)
  acks := UInt64.ofNat (countType .accepted msgs)
  cancels := UInt64.ofNat (countType .cancelled msgs)
  rejects := UInt64.ofNat (countType .rejected msgs)

/-- The message types have distinct bytes. -/
theorem ServerMsgType.toByte_inj {t t' : ServerMsgType} :
  t.toByte = t'.toByte ↔ t = t'
  := by
  cases t <;> cases t' <;> decide

theorem ofNat_countType_concat (msgType : ServerMsgType) (msgs : List ServerMessage)
    (msg : ServerMessage) :
  UInt64.ofNat (countType msgType (msgs ++ [msg]))
    = UInt64.ofNat (countType msgType msgs)
      + if msg.msgType = msgType.toByte then 1 else 0
  := by
  rw [countType, List.countP_append, List.countP_singleton, UInt64.ofNat_add, ← countType]
  congr 1
  by_cases h : msg.msgType = msgType.toByte
  · rw [if_pos h, if_pos (by simpa using h)]
    rfl
  · rw [if_neg h, if_neg (by simpa using h)]
    rfl

/-- One more message is counted by its type. -/
theorem Tally.record_of (msgs : List ServerMessage) {msg : ServerMessage}
    (h : msg.magic = ORDER_MAGIC) :
  (Tally.of msgs).record msg = some (Tally.of (msgs ++ [msg]))
  := by
  have hcount := fun t => ofNat_countType_concat t msgs msg
  unfold Tally.record Tally.of
  rw [if_neg (not_not.mpr h)]
  dsimp only
  simp only [hcount]
  by_cases haccepted : msg.msgType = ServerMsgType.accepted.toByte
  · simp [haccepted, ServerMsgType.toByte_inj]
  by_cases hfilled : msg.msgType = ServerMsgType.filled.toByte
  · simp [hfilled, ServerMsgType.toByte_inj]
  by_cases hcancelled : msg.msgType = ServerMsgType.cancelled.toByte
  · simp [hcancelled, ServerMsgType.toByte_inj]
  by_cases hrejected : msg.msgType = ServerMsgType.rejected.toByte
  · simp [hrejected, ServerMsgType.toByte_inj]
  simp [haccepted, hfilled, hcancelled, hrejected]

/-- The listener's tally counts the messages of each type. -/
theorem Tally.fold_record (counted msgs : List ServerMessage)
    (h : ∀ msg ∈ msgs, msg.magic = ORDER_MAGIC) :
  While.fold Tally.record (Tally.of counted) msgs = Tally.of (counted ++ msgs)
  := by
  induction msgs generalizing counted with
  | nil => rw [List.append_nil, While.fold]
  | cons msg msgs ih =>
      rw [While.fold_cons_of_some (Tally.record_of counted (h msg List.mem_cons_self)), ih,
        List.append_assoc, List.singleton_append]
      intro m hm
      apply h m (List.mem_cons_of_mem msg hm)

/-- Cut at any byte, a stream of framed messages is counted up to the last that is complete. -/
theorem listen_take_encodeAll {msgs : List ServerMessage}
    (h : ∀ msg ∈ msgs, msg.magic = ORDER_MAGIC) (k : Nat) :
  listen ((ServerMessage.layout.encodeAll msgs).take k) = Tally.of (msgs.take (k / 64))
  := by
  rw [listen, ServerMessage.layout.scan_take_encodeAll (by decide), ServerMessage.layout_size]
  apply Tally.fold_record []
  intro msg hmem
  apply h msg (List.mem_of_mem_take hmem)

end LimitOrderBook
