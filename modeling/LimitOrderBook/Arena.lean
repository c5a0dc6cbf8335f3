import LimitOrderBook.Types
import LimitOrderBook.Lib.Word
import Mathlib.Logic.Function.Basic

/-!
# The order arena and the price level arena

Orders and price levels live in two vectors of fixed length and refer to one another by
index.  A vector is modelled by the function from indices to nodes, together with its
length; an assignment to a field of a node is `Function.update`.  Indices and counts are
natural numbers, prices, quantities and identifiers are 64-bit words, on which addition
and subtraction wrap as in the release build.
-/

namespace LimitOrderBook

/-- The index that refers to nothing, `u32::MAX`. -/
def NULL_IDX : Nat := 0xFFFFFFFF

def MAX_ARENA_ORDERS : Nat := 131072

def MAX_PRICE_LEVELS : Nat := 4096

/-- A slot of the order arena. -/
structure OrderNode where
  order : Order
  prev : Nat
  next : Nat
  clientId : UInt64
  active : Bool
  deriving DecidableEq, Repr

def OrderNode.default : OrderNode where
  order := Order.default
  prev := NULL_IDX
  next := NULL_IDX
  clientId := 0
  active := false

/-- The order arena: its slots, the head of the list of free slots, which is linked
through `next`, and the number of slots handed out. -/
structure OrderArena where
  nodes : Nat → OrderNode
  freeHead : Nat
  activeCount : Nat
  capacity : Nat

namespace OrderArena

def new (capacity : Nat) : OrderArena where
  nodes i :=
    { OrderNode.default with next := if i + 1 < capacity then i + 1 else NULL_IDX }
  freeHead := 0
  activeCount := 0
  capacity := capacity

/-- The assignment of `f (nodes[idx])` to `nodes[idx]`. -/
def modify (a : OrderArena) (idx : Nat) (f : OrderNode → OrderNode) : OrderArena :=
  { a with nodes := Function.update a.nodes idx (f (a.nodes idx)) }

def allocate (a : OrderArena) (order : Order) (clientId : UInt64) :
    Except RejectReason (Nat × OrderArena) :=
  if a.freeHead = NULL_IDX then
    .error .engineFull
  else
    let idx := a.freeHead
    .ok (idx,
      { a with
        freeHead := (a.nodes idx).next
        nodes := Function.update a.nodes idx
          { order := order, prev := NULL_IDX, next := NULL_IDX, clientId := clientId,
            active := true }
        activeCount := a.activeCount + 1 })

def deallocate (a : OrderArena) (idx : Nat) : OrderArena :=
  if idx = NULL_IDX ∨ a.capacity ≤ idx then
    a
  else
    { a.modify idx fun n => { n with active := false, next := a.freeHead, prev := NULL_IDX } with
      freeHead := idx
      activeCount := a.activeCount - 1 }

end OrderArena

/-- A slot of the price level arena: a price, the queue of the orders resting at it, and
the links to the next better and the next worse price. -/
structure PriceLevelNode where
  price : UInt64
  headOrder : Nat
  tailOrder : Nat
  prevLevel : Nat
  nextLevel : Nat
  totalQty : UInt64
  orderCount : Nat
  nextFree : Nat
  active : Bool
  deriving DecidableEq, Repr

def PriceLevelNode.default : PriceLevelNode where
  price := 0
  headOrder := NULL_IDX
  tailOrder := NULL_IDX
  prevLevel := NULL_IDX
  nextLevel := NULL_IDX
  totalQty := 0
  orderCount := 0
  nextFree := NULL_IDX
  active := false

/-- The price level arena: its slots, their number, and the head of the list of free
slots, which is linked through `nextFree`. -/
structure PriceLevelArena where
  nodes : Nat → PriceLevelNode
  len : Nat
  freeHead : Nat

namespace PriceLevelArena

def new (capacity : Nat) : PriceLevelArena where
  nodes i :=
    { PriceLevelNode.default with nextFree := if i + 1 < capacity then i + 1 else NULL_IDX }
  len := capacity
  freeHead := 0

/-- The assignment of `f (nodes[idx])` to `nodes[idx]`. -/
def modify (a : PriceLevelArena) (idx : Nat) (f : PriceLevelNode → PriceLevelNode) :
    PriceLevelArena :=
  { a with nodes := Function.update a.nodes idx (f (a.nodes idx)) }

def allocate (a : PriceLevelArena) (price : UInt64) :
    Except RejectReason (Nat × PriceLevelArena) :=
  if a.freeHead = NULL_IDX then
    .error .engineFull
  else
    let idx := a.freeHead
    .ok (idx,
      { a with
        freeHead := (a.nodes idx).nextFree
        nodes := Function.update a.nodes idx
          { PriceLevelNode.default with price := price, active := true } })

def deallocate (a : PriceLevelArena) (idx : Nat) : PriceLevelArena :=
  if idx = NULL_IDX ∨ a.len ≤ idx then
    a
  else
    { a.modify idx fun n =>
        { n with
          active := false, headOrder := NULL_IDX, tailOrder := NULL_IDX,
          prevLevel := NULL_IDX, nextLevel := NULL_IDX, totalQty := 0, orderCount := 0,
          nextFree := a.freeHead } with
      freeHead := idx }

end PriceLevelArena

/-! ### The queue of a price level -/

namespace PriceLevelNode

def isEmpty (level : PriceLevelNode) : Bool := level.headOrder == NULL_IDX

/-- Append the order in slot `nodeIdx` to the queue. -/
def pushOrder (level : PriceLevelNode) (nodeIdx : Nat) (arena : OrderArena) :
    PriceLevelNode × OrderArena :=
  let arena₁ := arena.modify nodeIdx fun n => { n with prev := level.tailOrder, next := NULL_IDX }
  let (level₁, arena₂) :=
    if level.tailOrder ≠ NULL_IDX then
      (level, arena₁.modify level.tailOrder fun n => { n with next := nodeIdx })
    else
      ({ level with headOrder := nodeIdx }, arena₁)
  ({ level₁ with
      tailOrder := nodeIdx
      totalQty := level₁.totalQty + (arena₂.nodes nodeIdx).order.qty
      orderCount := level₁.orderCount + 1 },
    arena₂)

/-- Remove the order at the head of the queue. -/
def popOrder (level : PriceLevelNode) (arena : OrderArena) :
    Option Nat × PriceLevelNode × OrderArena :=
  if level.headOrder = NULL_IDX then
    (none, level, arena)
  else
    let headIdx := level.headOrder
    let nextIdx := (arena.nodes headIdx).next
    let level₁ := { level with headOrder := nextIdx }
    let (level₂, arena₁) :=
      if nextIdx ≠ NULL_IDX then
        (level₁, arena.modify nextIdx fun n => { n with prev := NULL_IDX })
      else
        ({ level₁ with tailOrder := NULL_IDX }, arena)
    (some headIdx,
      { level₂ with
        totalQty := level₂.totalQty.saturatingSub (arena₁.nodes headIdx).order.qty
        orderCount := level₂.orderCount - 1 },
      arena₁)

/-- Remove the order in slot `nodeIdx` from wherever it stands in the queue. -/
def unlinkOrder (level : PriceLevelNode) (nodeIdx : Nat) (arena : OrderArena) :
    PriceLevelNode × OrderArena :=
  let prev := (arena.nodes nodeIdx).prev
  let next := (arena.nodes nodeIdx).next
  let (level₁, arena₁) :=
    if prev ≠ NULL_IDX then
      (level, arena.modify prev fun n => { n with next := next })
    else
      ({ level with headOrder := next }, arena)
  let (level₂, arena₂) :=
    if next ≠ NULL_IDX then
      (level₁, arena₁.modify next fun n => { n with prev := prev })
    else
      ({ level₁ with tailOrder := prev }, arena₁)
  ({ level₂ with
      totalQty := level₂.totalQty.saturatingSub (arena₂.nodes nodeIdx).order.qty
      orderCount := level₂.orderCount - 1 },
    arena₂)

end PriceLevelNode

end LimitOrderBook
