import LimitOrderBook.Types
import LimitOrderBook.Arena
import LimitOrderBook.Lib.OpenAddressing
import Mathlib.Data.Nat.Bitwise

/-!
# The three index tables

`FastOrderIndex` finds a resting order by its exchange identifier, `FastPriceIndex` a
price level by its price, `FastClientIndex` an exchange identifier by the user and the
client identifier.  The three have the same code over different entries: each is the
open-addressing table of `OpenAddressing` at its own capacity, key and hash.
-/

namespace LimitOrderBook

open OpenAddressing

def FAST_MAP_CAPACITY : Nat := 262144

def FAST_MAP_MASK : Nat := FAST_MAP_CAPACITY - 1

def FAST_PRICE_CAPACITY : Nat := 8192

def FAST_PRICE_MASK : Nat := FAST_PRICE_CAPACITY - 1

def FAST_CLIENT_CAPACITY : Nat := 262144

def FAST_CLIENT_MASK : Nat := FAST_CLIENT_CAPACITY - 1

/-- The mixing of a word by which the tables hash. -/
def mix (x : UInt64) : UInt64 :=
  let x := x * 0x9E3779B97F4A7C15
  let x := x ^^^ (x >>> 30)
  let x := x * 0xBF58476D1CE4E5B9
  x ^^^ (x >>> 27)

/-! ### Exchange identifier to resting order -/

structure FastIndexEntry where
  orderId : UInt64
  clientOrderId : UInt64
  userId : UInt64
  price : UInt64
  nodeIdx : Nat
  side : UInt8
  occupied : Bool
  deriving DecidableEq, Repr

def FastIndexEntry.default : FastIndexEntry where
  orderId := 0
  clientOrderId := 0
  userId := 0
  price := 0
  nodeIdx := NULL_IDX
  side := 0
  occupied := false

def FastOrderIndex.scheme : Scheme UInt64 FastIndexEntry where
  capacity := FAST_MAP_CAPACITY
  mask := FAST_MAP_MASK
  limit := FAST_MAP_CAPACITY * 8 / 10
  hash orderId := (mix orderId).toNat &&& FAST_MAP_MASK
  key e := e.orderId
  occupied e := e.occupied
  vacant := FastIndexEntry.default
  and_mask i := Nat.and_two_pow_sub_one_eq_mod i 18
  hash_lt _ := Nat.and_lt_two_pow (n := 18) _ (by decide)
  occupied_vacant := rfl
  limit_lt := by decide

abbrev FastOrderIndex := Table FastOrderIndex.scheme

namespace FastOrderIndex

def insert (t : FastOrderIndex) (orderId clientOrderId userId price : UInt64) (nodeIdx : Nat)
    (side : UInt8) : Except RejectReason FastOrderIndex :=
  match Table.insert t
    { orderId := orderId, clientOrderId := clientOrderId, userId := userId, price := price,
      nodeIdx := nodeIdx, side := side, occupied := true } with
  | none => .error .engineFull
  | some t' => .ok t'

def lookup (t : FastOrderIndex) (orderId : UInt64) : Option FastIndexEntry :=
  Table.lookup t orderId

def remove (t : FastOrderIndex) (orderId : UInt64) : Option FastIndexEntry × FastOrderIndex :=
  Table.remove t orderId

/-- An insertion into a table with room succeeds, and changes the answer for its key only. -/
theorem insert_spec {t : FastOrderIndex} (h : t.Valid) (hcount : t.count < scheme.limit)
    (orderId clientOrderId userId price : UInt64) (nodeIdx : Nat) (side : UInt8) :
  ∃ t', t.insert orderId clientOrderId userId price nodeIdx side = .ok t' ∧ t'.Valid
    ∧ ∀ k, t'.lookup k = if k = orderId then some ⟨orderId, clientOrderId, userId, price, nodeIdx,
        side, true⟩ else t.lookup k
  := by
  unfold FastOrderIndex.insert
  cases hins : Table.insert t ⟨orderId, clientOrderId, userId, price, nodeIdx, side, true⟩ with
  | none =>
      have hfull := Table.insert_eq_none_iff.mp hins
      omega
  | some t' => exact ⟨t', rfl, (h.insert rfl hins).1, h.lookup_insert rfl hins⟩

/-- A removal forgets its key and no other. -/
theorem remove_spec {t : FastOrderIndex} (h : t.Valid) (orderId : UInt64) :
  (t.remove orderId).2.Valid
    ∧ ∀ k, (t.remove orderId).2.lookup k = if k = orderId then none else t.lookup k
  := ⟨(h.remove orderId).1, h.lookup_remove orderId⟩

end FastOrderIndex

/-! ### Price to price level -/

structure PriceIndexEntry where
  price : UInt64
  levelIdx : Nat
  occupied : Bool
  deriving DecidableEq, Repr

def PriceIndexEntry.default : PriceIndexEntry where
  price := 0
  levelIdx := NULL_IDX
  occupied := false

def FastPriceIndex.scheme : Scheme UInt64 PriceIndexEntry where
  capacity := FAST_PRICE_CAPACITY
  mask := FAST_PRICE_MASK
  limit := FAST_PRICE_CAPACITY * 8 / 10
  hash price := (mix price).toNat &&& FAST_PRICE_MASK
  key e := e.price
  occupied e := e.occupied
  vacant := PriceIndexEntry.default
  and_mask i := Nat.and_two_pow_sub_one_eq_mod i 13
  hash_lt _ := Nat.and_lt_two_pow (n := 13) _ (by decide)
  occupied_vacant := rfl
  limit_lt := by decide

abbrev FastPriceIndex := Table FastPriceIndex.scheme

namespace FastPriceIndex

def insert (t : FastPriceIndex) (price : UInt64) (levelIdx : Nat) :
    Except RejectReason FastPriceIndex :=
  match Table.insert t { price := price, levelIdx := levelIdx, occupied := true } with
  | none => .error .engineFull
  | some t' => .ok t'

def lookup (t : FastPriceIndex) (price : UInt64) : Option Nat :=
  (Table.lookup t price).map (·.levelIdx)

def remove (t : FastPriceIndex) (price : UInt64) : Option Nat × FastPriceIndex :=
  let (e, t') := Table.remove t price
  (e.map (·.levelIdx), t')

/-- An insertion into a table with room succeeds, and changes the answer for its price only. -/
theorem insert_spec {t : FastPriceIndex} (h : t.Valid) (hcount : t.count < scheme.limit)
    (price : UInt64) (levelIdx : Nat) :
  ∃ t', t.insert price levelIdx = .ok t' ∧ t'.Valid
    ∧ ∀ p, t'.lookup p = if p = price then some levelIdx else t.lookup p
  := by
  unfold FastPriceIndex.insert
  cases hins : Table.insert t ⟨price, levelIdx, true⟩ with
  | none =>
      have hfull := Table.insert_eq_none_iff.mp hins
      omega
  | some t' =>
      refine ⟨t', rfl, (h.insert rfl hins).1, ?_⟩
      intro p
      have hlookup : Table.lookup t' p
          = if p = price then some ⟨price, levelIdx, true⟩ else Table.lookup t p :=
        h.lookup_insert rfl hins p
      rw [FastPriceIndex.lookup, hlookup, FastPriceIndex.lookup]
      split <;> rfl

/-- A removal forgets its price and no other. -/
theorem remove_spec {t : FastPriceIndex} (h : t.Valid) (price : UInt64) :
  (t.remove price).2.Valid
    ∧ ∀ p, (t.remove price).2.lookup p = if p = price then none else t.lookup p
  := by
  refine ⟨(h.remove price).1, ?_⟩
  intro p
  rw [FastPriceIndex.lookup, FastPriceIndex.remove, h.lookup_remove, FastPriceIndex.lookup]
  split <;> rfl

/-- A table that answers for some prices only has no more entries than these. -/
theorem count_le_length {t : FastPriceIndex} (h : t.Valid) {prices : List UInt64}
    (hmem : ∀ p i, t.lookup p = some i → p ∈ prices) :
  t.count ≤ prices.length
  := by
  apply h.count_le_length
  intro p e he
  apply hmem p e.levelIdx
  rw [FastPriceIndex.lookup, he]
  rfl

end FastPriceIndex

/-! ### User and client identifier to exchange identifier -/

structure ClientIndexEntry where
  userId : UInt64
  clientOrderId : UInt64
  exchangeOrderId : UInt64
  occupied : Bool
  deriving DecidableEq, Repr

def ClientIndexEntry.default : ClientIndexEntry where
  userId := 0
  clientOrderId := 0
  exchangeOrderId := 0
  occupied := false

def FastClientIndex.scheme : Scheme (UInt64 × UInt64) ClientIndexEntry where
  capacity := FAST_CLIENT_CAPACITY
  mask := FAST_CLIENT_MASK
  limit := FAST_CLIENT_CAPACITY * 8 / 10
  hash k := (mix (k.1 ^^^ ((k.2 <<< 32) ||| (k.2 >>> 32)))).toNat &&& FAST_CLIENT_MASK
  key e := (e.userId, e.clientOrderId)
  occupied e := e.occupied
  vacant := ClientIndexEntry.default
  and_mask i := Nat.and_two_pow_sub_one_eq_mod i 18
  hash_lt _ := Nat.and_lt_two_pow (n := 18) _ (by decide)
  occupied_vacant := rfl
  limit_lt := by decide

abbrev FastClientIndex := Table FastClientIndex.scheme

namespace FastClientIndex

def insert (t : FastClientIndex) (userId clientOrderId exchangeOrderId : UInt64) :
    Except RejectReason FastClientIndex :=
  match Table.insert t
    { userId := userId, clientOrderId := clientOrderId, exchangeOrderId := exchangeOrderId,
      occupied := true } with
  | none => .error .engineFull
  | some t' => .ok t'

def lookup (t : FastClientIndex) (userId clientOrderId : UInt64) : Option UInt64 :=
  (Table.lookup t (userId, clientOrderId)).map (·.exchangeOrderId)

def remove (t : FastClientIndex) (userId clientOrderId : UInt64) :
    Option UInt64 × FastClientIndex :=
  let (e, t') := Table.remove t (userId, clientOrderId)
  (e.map (·.exchangeOrderId), t')

/-- An insertion into a table with room succeeds, and changes the answer for its key only. -/
theorem insert_spec {t : FastClientIndex} (h : t.Valid) (hcount : t.count < scheme.limit)
    (userId clientOrderId exchangeOrderId : UInt64) :
  ∃ t', t.insert userId clientOrderId exchangeOrderId = .ok t' ∧ t'.Valid
    ∧ ∀ u c, t'.lookup u c
      = if (u, c) = (userId, clientOrderId) then some exchangeOrderId else t.lookup u c
  := by
  unfold FastClientIndex.insert
  cases hins : Table.insert t ⟨userId, clientOrderId, exchangeOrderId, true⟩ with
  | none =>
      have hfull := Table.insert_eq_none_iff.mp hins
      omega
  | some t' =>
      refine ⟨t', rfl, (h.insert rfl hins).1, ?_⟩
      intro u c
      have hlookup : Table.lookup t' (u, c)
          = if (u, c) = (userId, clientOrderId) then
              some ⟨userId, clientOrderId, exchangeOrderId, true⟩
            else Table.lookup t (u, c) :=
        h.lookup_insert rfl hins (u, c)
      rw [FastClientIndex.lookup, hlookup, FastClientIndex.lookup]
      split <;> rfl

/-- A removal forgets its key and no other. -/
theorem remove_spec {t : FastClientIndex} (h : t.Valid) (userId clientOrderId : UInt64) :
  (t.remove userId clientOrderId).2.Valid
    ∧ ∀ u c, (t.remove userId clientOrderId).2.lookup u c
      = if (u, c) = (userId, clientOrderId) then none else t.lookup u c
  := by
  refine ⟨(h.remove (userId, clientOrderId)).1, ?_⟩
  intro u c
  rw [FastClientIndex.lookup, FastClientIndex.remove, h.lookup_remove, FastClientIndex.lookup]
  split <;> rfl

/-- A table that answers for some keys only has no more entries than these. -/
theorem count_le_length {t : FastClientIndex} (h : t.Valid) {keys : List (UInt64 × UInt64)}
    (hmem : ∀ u c k, t.lookup u c = some k → (u, c) ∈ keys) :
  t.count ≤ keys.length
  := by
  apply h.count_le_length
  intro k e he
  apply hmem k.1 k.2 e.exchangeOrderId
  rw [FastClientIndex.lookup, he]
  rfl

end FastClientIndex

end LimitOrderBook
