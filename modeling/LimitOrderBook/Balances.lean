import LimitOrderBook.Margin
import LimitOrderBook.Lib.Ledger

/-!
# Balances

An account holds a balance of four coins: dollars, and the asset of each symbol.  All that the
loop does to the accounts once the margin of an order is locked is to release locked coins and
to credit available ones: `RiskEngine.Releases` says by how much, and composes.
-/

namespace LimitOrderBook

/-- What is held in an account. -/
inductive Coin where
  | usd
  | asset (sym : Fin NUM_SYMBOLS)
  deriving DecidableEq

/-- What is locked for the orders of a side of a book. -/
def Side.coin : Side → Fin NUM_SYMBOLS → Coin
  | .buy, _ => .usd
  | .sell, sym => .asset sym

namespace Account

def available (a : Account) : Coin → UInt64
  | .usd => a.usdAvailable
  | .asset sym => a.assetAvailable sym

def locked (a : Account) : Coin → UInt64
  | .usd => a.usdLocked
  | .asset sym => a.assetLocked sym

variable (a : Account) (sym : Fin NUM_SYMBOLS) (x : UInt64) (c : Coin)

/-- Changing what is available of an asset changes it for that coin only. -/
@[simp]
theorem available_modifyAvailable (f : UInt64 → UInt64) :
  (a.modifyAvailable sym f).available c
    = if c = .asset sym then f (a.available c) else a.available c
  := by
  cases c with
  | usd => rfl
  | asset s =>
      rcases eq_or_ne s sym with rfl | hs
      · simp [available, modifyAvailable]
      · simp [available, modifyAvailable, hs]

@[simp]
theorem available_modifyLocked (f : UInt64 → UInt64) :
  (a.modifyLocked sym f).available c = a.available c
  := by
  cases c <;> rfl

@[simp]
theorem locked_modifyAvailable (f : UInt64 → UInt64) :
  (a.modifyAvailable sym f).locked c = a.locked c
  := by
  cases c <;> rfl

/-- Changing what is locked of an asset changes it for that coin only. -/
@[simp]
theorem locked_modifyLocked (f : UInt64 → UInt64) :
  (a.modifyLocked sym f).locked c = if c = .asset sym then f (a.locked c) else a.locked c
  := by
  cases c with
  | usd => rfl
  | asset s =>
      rcases eq_or_ne s sym with rfl | hs
      · simp [locked, modifyLocked]
      · simp [locked, modifyLocked, hs]

/-- Unlocking dollars makes them available. -/
theorem available_unlockUsd :
  (a.unlockUsd x).available c = a.available c + if c = .usd then x else 0
  := by
  cases c <;> simp [available, unlockUsd]

/-- Unlocking dollars takes them from the locked ones, down to zero. -/
theorem locked_unlockUsd :
  (a.unlockUsd x).locked c = (a.locked c).saturatingSub (if c = .usd then x else 0)
  := by
  cases c <;> simp [locked, unlockUsd]

/-- Unlocking an asset makes it available. -/
theorem available_unlockAsset :
  (a.unlockAsset sym x).available c = a.available c + if c = .asset sym then x else 0
  := by
  rw [unlockAsset, available_modifyAvailable, available_modifyLocked]
  split <;> simp

/-- Unlocking an asset takes it from what is locked of it, down to zero. -/
theorem locked_unlockAsset :
  (a.unlockAsset sym x).locked c = (a.locked c).saturatingSub (if c = .asset sym then x else 0)
  := by
  rw [unlockAsset, locked_modifyAvailable, locked_modifyLocked]
  split <;> simp

/-- Locking dollars takes them from the available ones. -/
theorem available_lockUsd :
  (a.lockUsd x).available c = a.available c - if c = .usd then x else 0
  := by
  cases c <;> simp [available, lockUsd]

theorem locked_lockUsd :
  (a.lockUsd x).locked c = a.locked c + if c = .usd then x else 0
  := by
  cases c <;> simp [locked, lockUsd]

/-- Locking an asset takes it from what is available of it. -/
theorem available_lockAsset :
  (a.lockAsset sym x).available c = a.available c - if c = .asset sym then x else 0
  := by
  rw [lockAsset, available_modifyLocked, available_modifyAvailable]
  split <;> simp

theorem locked_lockAsset :
  (a.lockAsset sym x).locked c = a.locked c + if c = .asset sym then x else 0
  := by
  rw [lockAsset, locked_modifyLocked, locked_modifyAvailable]
  split <;> simp

/-- Pay `cost` from `lockedUsd` that were locked, and take `qty` units. -/
def buy (lockedUsd cost qty : UInt64) : Account :=
  { a with
    usdLocked := a.usdLocked.saturatingSub lockedUsd
    usdAvailable := a.usdAvailable + lockedUsd.saturatingSub cost }.modifyAvailable sym (· + qty)

/-- Give `qty` units that were locked, and take `cost`. -/
def sell (cost qty : UInt64) : Account :=
  { a.modifyLocked sym (·.saturatingSub qty) with usdAvailable := a.usdAvailable + cost }

/-- A buyer gets the asset, and back what was locked beyond the cost. -/
theorem available_buy (lockedUsd cost qty : UInt64) :
  (a.buy sym lockedUsd cost qty).available c
    = a.available c + match c with
      | .usd => lockedUsd.saturatingSub cost
      | .asset s => if s = sym then qty else 0
  := by
  rw [buy, available_modifyAvailable]
  cases c with
  | usd => rfl
  | asset s =>
      simp only [Coin.asset.injEq]
      split <;> simp [available]

/-- A buyer gives up what was locked for the trade. -/
theorem locked_buy (lockedUsd cost qty : UInt64) :
  (a.buy sym lockedUsd cost qty).locked c
    = (a.locked c).saturatingSub (match c with
      | .usd => lockedUsd
      | .asset _ => 0)
  := by
  cases c <;> simp [locked, buy, modifyAvailable]

/-- A seller gets the cost. -/
theorem available_sell (cost qty : UInt64) :
  (a.sell sym cost qty).available c
    = a.available c + match c with
      | .usd => cost
      | .asset _ => 0
  := by
  cases c <;> simp [available, sell, modifyLocked]

/-- A seller gives up the quantity that was locked. -/
theorem locked_sell (cost qty : UInt64) :
  (a.sell sym cost qty).locked c
    = (a.locked c).saturatingSub (match c with
      | .usd => 0
      | .asset s => if s = sym then qty else 0)
  := by
  have hlocked : (a.sell sym cost qty).locked c
      = (a.modifyLocked sym (·.saturatingSub qty)).locked c := by
    cases c <;> rfl
  rw [hlocked, locked_modifyLocked]
  cases c with
  | usd => simp
  | asset s =>
      simp only [Coin.asset.injEq]
      split <;> simp

end Account

namespace RiskEngine

/-- The available balance of a user, who may have no account. -/
def available (r : RiskEngine) (u : UInt64) (c : Coin) : UInt64 :=
  ((r.accounts u).map (·.available c)).getD 0

/-- The locked balance of a user, who may have no account. -/
def locked (r : RiskEngine) (u : UInt64) (c : Coin) : UInt64 :=
  ((r.accounts u).map (·.locked c)).getD 0

/-- Every account is credited what `gain` says and has released what `released` says, as far
as it was locked. -/
structure Releases (r r' : RiskEngine) (gain released : UInt64 → Coin → Nat) : Prop where
  isSome_eq : ∀ u, (r'.accounts u).isSome = (r.accounts u).isSome
  available_eq : ∀ u c, (r.accounts u).isSome →
    r'.available u c = r.available u c + UInt64.ofNat (gain u c)
  toNat_locked : ∀ u c, (r.accounts u).isSome →
    (r'.locked u c).toNat = (r.locked u c).toNat - released u c

namespace Releases

variable {r r' r'' : RiskEngine} {gain released gain' released' : UInt64 → Coin → Nat}

/-- Releasing nothing changes nothing. -/
theorem refl (r : RiskEngine) :
  r.Releases r 0 0 where
  isSome_eq _ := rfl
  available_eq u c _ := by simp
  toNat_locked _ _ _ := rfl

/-- What two steps release and credit adds up. -/
theorem trans (h : r.Releases r' gain released) (h' : r'.Releases r'' gain' released') :
  r.Releases r'' (gain + gain') (released + released') where
  isSome_eq u := (h'.isSome_eq u).trans (h.isSome_eq u)
  available_eq u c hu := by
    rw [h'.available_eq u c ((h.isSome_eq u).trans hu), h.available_eq u c hu, Pi.add_apply,
      Pi.add_apply, UInt64.ofNat_add, UInt64.add_assoc]
  toNat_locked u c hu := by
    rw [h'.toNat_locked u c ((h.isSome_eq u).trans hu), h.toNat_locked u c hu, Pi.add_apply,
      Pi.add_apply, Nat.sub_sub]

theorem congr (h : r.Releases r' gain released) (hgain : gain = gain')
    (hreleased : released = released') :
  r.Releases r' gain' released'
  := hgain ▸ hreleased ▸ h

/-- One account is changed. -/
theorem modifyAccount (r : RiskEngine) (v : UInt64) (f : Account → Account)
    {gain released : Coin → UInt64}
    (hgain : ∀ a c, (f a).available c = a.available c + gain c)
    (hreleased : ∀ a c, (f a).locked c = (a.locked c).saturatingSub (released c)) :
  r.Releases (r.modifyAccount v f) (fun u c => if u = v then (gain c).toNat else 0)
    fun u c => if u = v then (released c).toNat else 0
  := by
  constructor
  · intro u
    apply isSome_modifyAccount
  · intro u c hu
    unfold available
    rcases eq_or_ne u v with rfl | hne
    · obtain ⟨a, ha⟩ := Option.isSome_iff_exists.mp hu
      rw [accounts_modifyAccount_self, ha]
      simp [hgain]
    · rw [accounts_modifyAccount_of_ne _ _ hne]
      simp [hne]
  · intro u c hu
    unfold locked
    rcases eq_or_ne u v with rfl | hne
    · obtain ⟨a, ha⟩ := Option.isSome_iff_exists.mp hu
      rw [accounts_modifyAccount_self, ha]
      simp [hreleased]
    · rw [accounts_modifyAccount_of_ne _ _ hne]
      simp [hne]

/-- One coin of one account is unlocked. -/
theorem modifyAccount_coin (r : RiskEngine) (v : UInt64) (f : Account → Account) (c₀ : Coin)
    (x : UInt64) (hgain : ∀ a c, (f a).available c = a.available c + if c = c₀ then x else 0)
    (hreleased : ∀ a c, (f a).locked c = (a.locked c).saturatingSub (if c = c₀ then x else 0)) :
  r.Releases (r.modifyAccount v f) (fun u c => if u = v ∧ c = c₀ then x.toNat else 0)
    fun u c => if u = v ∧ c = c₀ then x.toNat else 0
  := by
  have hite : (fun u c => if u = v then (if c = c₀ then x else 0).toNat else 0)
      = fun u c => if u = v ∧ c = c₀ then x.toNat else 0 := by
    funext u c
    rw [ite_and, apply_ite UInt64.toNat, UInt64.toNat_zero]
  exact (modifyAccount r v f hgain hreleased).congr hite hite

end Releases

end RiskEngine

/-! ### The margin of an order -/

namespace Order

/-- What is locked for a unit of an order. -/
def rate (o : Order) : Nat :=
  match o.bookSide with
  | .buy => o.price.toNat
  | .sell => 1

/-- What is locked for an order that has `qty` units left. -/
def margin (o : Order) (qty : Nat) (u : UInt64) (c : Coin) : Nat :=
  if u = o.userId ∧ (symIdx o.symbolId).map o.bookSide.coin = some c then o.rate * qty else 0

@[simp]
theorem margin_zero (o : Order) :
  o.margin 0 = 0
  := by
  funext u c
  simp [margin]

/-- The margin of a quantity in two parts is the margin of the parts. -/
theorem margin_add (o : Order) (q q' : Nat) (u : UInt64) (c : Coin) :
  o.margin (q + q') u c = o.margin q u c + o.margin q' u c
  := by
  unfold margin
  split
  · apply Nat.mul_add
  · rfl

/-- The side byte of an order with a valid side is that of the side it rests on. -/
theorem side_eq_iff {o : Order} (h : o.getSide = some o.bookSide) (s : Side) :
  o.side = s.toByte ↔ o.bookSide = s
  := by
  rw [side_of_getSide h]
  cases o.bookSide <;> cases s <;> decide

end Order

namespace RiskEngine

variable {r r' : RiskEngine} {o : Order} {sym : Fin NUM_SYMBOLS}

/-- Unlocking the margin of what is left of an order. -/
theorem releases_unlock (r : RiskEngine) (hside : o.getSide = some o.bookSide)
    (hsym : symIdx o.symbolId = some sym) {qty : UInt64} (hfits : o.rate * qty.toNat < 2 ^ 64) :
  r.Releases (r.unlockCancelledOrderMargin o qty) (o.margin qty.toNat) (o.margin qty.toNat)
  := by
  unfold unlockCancelledOrderMargin
  rw [hside, Option.getD_some]
  rcases eq_or_ne qty 0 with rfl | hqty
  · have hunlock : r.unlockOrderFunds o.userId o.symbolId o.bookSide o.price 0 = r :=
      if_pos rfl
    rw [hunlock]
    apply (Releases.refl r).congr <;> exact o.margin_zero.symm
  cases hbook : o.bookSide with
  | buy =>
      have hrate : o.rate = o.price.toNat := by
        rw [Order.rate, hbook]
      rw [hrate] at hfits
      have hmargin : o.margin qty.toNat
          = fun u c => if u = o.userId ∧ c = .usd then (o.price.saturatingMul qty).toNat else 0 := by
        funext u c
        rw [Order.margin, hsym, hbook, hrate, UInt64.toNat_saturatingMul_of_lt hfits]
        simp [Side.coin, eq_comm]
      rw [unlockOrderFunds_buy _ _ hsym _ hqty, hmargin]
      apply Releases.modifyAccount_coin
      · exact fun a c => a.available_unlockUsd _ c
      · exact fun a c => a.locked_unlockUsd _ c
  | sell =>
      have hrate : o.rate = 1 := by
        rw [Order.rate, hbook]
      have hmargin : o.margin qty.toNat
          = fun u c => if u = o.userId ∧ c = .asset sym then qty.toNat else 0 := by
        funext u c
        rw [Order.margin, hsym, hbook, hrate, Nat.one_mul]
        simp [Side.coin, eq_comm]
      rw [unlockOrderFunds_sell _ _ hsym _ hqty, hmargin]
      apply Releases.modifyAccount_coin
      · exact fun a c => a.available_unlockAsset sym _ c
      · exact fun a c => a.locked_unlockAsset sym _ c

/-- A lock takes the margin of an order from what is available. -/
structure Locks (r r' : RiskEngine) (margin : UInt64 → Coin → Nat) : Prop where
  isSome_eq : ∀ u, (r'.accounts u).isSome = (r.accounts u).isSome
  le_available : ∀ u c, margin u c ≤ (r.available u c).toNat
  available_eq : ∀ u c, r'.available u c = r.available u c - UInt64.ofNat (margin u c)
  locked_eq : ∀ u c, r'.locked u c = r.locked u c + UInt64.ofNat (margin u c)

namespace Locks

variable {r₁ : RiskEngine} {margin gain released : UInt64 → Coin → Nat} {u : UInt64} {c : Coin}

/-- A lock takes the margin from what is available. -/
theorem toNat_available (h : r.Locks r' margin) (u : UInt64) (c : Coin) :
  (r'.available u c).toNat = (r.available u c).toNat - margin u c
  := by
  have hle := h.le_available u c
  have hlt := (r.available u c).toNat_lt
  have hmargin : (UInt64.ofNat (margin u c)).toNat = margin u c := by
    rw [UInt64.toNat_ofNat']
    omega
  rw [h.available_eq, UInt64.toNat_sub_of_le _ _ (by rwa [UInt64.le_iff_toNat_le, hmargin]), hmargin]

/-- A lock adds the margin to what is locked, as long as the sum has room. -/
theorem toNat_locked (h : r.Locks r' margin)
    (hroom : (r.locked u c).toNat + margin u c < 2 ^ 64) :
  (r'.locked u c).toNat = (r.locked u c).toNat + margin u c
  := by
  rw [h.locked_eq, UInt64.toNat_add, UInt64.toNat_ofNat']
  omega

/-- A lock that carries leaves less locked than there was. -/
theorem toNat_locked_lt (h : r.Locks r' margin)
    (hcarry : 2 ^ 64 ≤ (r.locked u c).toNat + margin u c) :
  (r'.locked u c).toNat < (r.locked u c).toNat
  := by
  have hle := h.le_available u c
  have hlt := (r.available u c).toNat_lt
  have hlt' := (r.locked u c).toNat_lt
  rw [h.locked_eq, UInt64.toNat_add, UInt64.toNat_ofNat']
  omega

/-- What is available after a lock and a release, modulo the words. -/
theorem available_modEq (hlock : r.Locks r₁ margin) (hrelease : r₁.Releases r' gain released)
    (haccount : (r.accounts u).isSome) (c : Coin) :
  (r'.available u c).toNat + margin u c ≡ (r.available u c).toNat + gain u c [MOD 2 ^ 64]
  := by
  have hle := hlock.le_available u c
  rw [hrelease.available_eq u c ((hlock.isSome_eq u).trans haccount), UInt64.toNat_add,
    UInt64.toNat_ofNat', hlock.toNat_available]
  unfold Nat.ModEq
  omega

end Locks

/-- One coin of one account is locked. -/
theorem Locks.modifyAccount_coin {v : UInt64} {a : Account} (ha : r.accounts v = some a)
    (f : Account → Account) (c₀ : Coin) {x : UInt64} (hx : x ≤ a.available c₀)
    (havailable : ∀ c, (f a).available c = a.available c - if c = c₀ then x else 0)
    (hlocked : ∀ c, (f a).locked c = a.locked c + if c = c₀ then x else 0) :
  r.Locks (r.modifyAccount v f) fun u c => if u = v ∧ c = c₀ then x.toNat else 0
  := by
  have hself : ∀ c, r.available v c = a.available c ∧ r.locked v c = a.locked c := by
    intro c
    unfold available locked
    rw [ha]
    exact ⟨rfl, rfl⟩
  constructor
  · intro u
    apply isSome_modifyAccount
  · intro u c
    split
    · next heq =>
        obtain ⟨rfl, rfl⟩ := heq
        rw [(hself c).1]
        apply UInt64.le_iff_toNat_le.mp hx
    · apply Nat.zero_le
  · intro u c
    rcases eq_or_ne u v with rfl | hne
    · rw [(hself c).1, available, accounts_modifyAccount_self, ha]
      simp [havailable, apply_ite UInt64.ofNat]
    · rw [available, available, accounts_modifyAccount_of_ne _ _ hne]
      simp [hne]
  · intro u c
    rcases eq_or_ne u v with rfl | hne
    · rw [(hself c).2, locked, accounts_modifyAccount_self, ha]
      simp [hlocked, apply_ite UInt64.ofNat]
    · rw [locked, locked, accounts_modifyAccount_of_ne _ _ hne]
      simp [hne]

/-- An order that is locked has its margin locked. -/
theorem Locked.locks (h : r.Locked o r') (hside : o.getSide = some o.bookSide) :
  r.Locks r' (o.margin o.qty.toNat)
  := by
  cases h with
  | @buy sym a _ hsym haccount hbuy _ hfits hfunds =>
      have hbook := (Order.side_eq_iff hside .buy).mp hbuy
      have hmargin : o.margin o.qty.toNat
          = fun u c => if u = o.userId ∧ c = .usd then (o.price * o.qty).toNat else 0 := by
        funext u c
        rw [Order.margin, hsym, hbook, Order.rate, hbook, UInt64.toNat_mul_of_lt hfits]
        simp [Side.coin, eq_comm]
      rw [hmargin]
      exact Locks.modifyAccount_coin haccount _ _ hfunds (fun c => a.available_lockUsd _ c)
        fun c => a.locked_lockUsd _ c
  | @sell sym a _ hsym haccount hbuy hfunds =>
      have hbook : o.bookSide = .sell := by
        have hne : o.bookSide ≠ .buy := fun heq => hbuy ((Order.side_eq_iff hside .buy).mpr heq)
        cases heq : o.bookSide with
        | buy => exact absurd heq hne
        | sell => rfl
      have hmargin : o.margin o.qty.toNat
          = fun u c => if u = o.userId ∧ c = .asset sym then o.qty.toNat else 0 := by
        funext u c
        rw [Order.margin, hsym, hbook, Order.rate, hbook]
        simp [Side.coin, eq_comm]
      rw [hmargin]
      exact Locks.modifyAccount_coin haccount _ _ hfunds (fun c => a.available_lockAsset sym _ c)
        fun c => a.locked_lockAsset sym _ c

end RiskEngine

/-! ### Trades -/

namespace Trade

/-- What a trade moves: dollars from the buyer to the seller, and assets the other way. -/
def transfers (t : Trade) : List (Ledger.Transfer UInt64 Coin) :=
  ⟨t.buyerId, t.sellerId, .usd, t.price.toNat * t.qty.toNat⟩
    :: (symIdx t.symbolId).toList.map fun sym =>
      ⟨t.sellerId, t.buyerId, .asset sym, t.qty.toNat⟩

/-- The price at which the dollars of the buyer were locked, where `price` is that of the
taker. -/
def lockedPrice (t : Trade) (price : UInt64) : UInt64 :=
  if t.buyerId = t.makerUserId then t.price else price

/-- What was locked for the part of the two orders that is traded. -/
def released (t : Trade) (price : UInt64) (u : UInt64) : Coin → Nat
  | .usd => if u = t.buyerId then (t.lockedPrice price).toNat * t.qty.toNat else 0
  | .asset sym => if u = t.sellerId ∧ symIdx t.symbolId = some sym then t.qty.toNat else 0

/-- What a trade makes available: what was locked and is not paid, and what is received. -/
def gain (t : Trade) (price : UInt64) (u : UInt64) (c : Coin) : Nat :=
  t.released price u c - Ledger.paid t.transfers u c + Ledger.received t.transfers u c

/-- A trade has a symbol, and its amounts are words. -/
structure Fits (t : Trade) (price : UInt64) : Prop where
  symbol : ∃ sym, symIdx t.symbolId = some sym
  locked_lt : (t.lockedPrice price).toNat * t.qty.toNat < 2 ^ 64
  cost_lt : t.price.toNat * t.qty.toNat < 2 ^ 64

/-- A trade takes its cost from the buyer. -/
@[simp]
theorem paid_usd (t : Trade) (u : UInt64) :
  Ledger.paid t.transfers u .usd
    = if u = t.buyerId then t.price.toNat * t.qty.toNat else 0
  := by
  unfold transfers
  cases symIdx t.symbolId <;> simp [eq_comm]

/-- A trade takes its quantity from the seller. -/
@[simp]
theorem paid_asset (t : Trade) (u : UInt64) (sym : Fin NUM_SYMBOLS) :
  Ledger.paid t.transfers u (.asset sym)
    = if u = t.sellerId ∧ symIdx t.symbolId = some sym then t.qty.toNat else 0
  := by
  unfold transfers
  cases symIdx t.symbolId <;> simp [eq_comm]

/-- A trade gives its cost to the seller. -/
@[simp]
theorem received_usd (t : Trade) (u : UInt64) :
  Ledger.received t.transfers u .usd
    = if u = t.sellerId then t.price.toNat * t.qty.toNat else 0
  := by
  unfold transfers
  cases symIdx t.symbolId <;> simp [eq_comm]

/-- A trade gives its quantity to the buyer. -/
@[simp]
theorem received_asset (t : Trade) (u : UInt64) (sym : Fin NUM_SYMBOLS) :
  Ledger.received t.transfers u (.asset sym)
    = if u = t.buyerId ∧ symIdx t.symbolId = some sym then t.qty.toNat else 0
  := by
  unfold transfers
  cases symIdx t.symbolId <;> simp [eq_comm]

end Trade

/-- What was locked for the traded parts of the orders. -/
def releases (ts : List Trade) (price : UInt64) : UInt64 → Coin → Nat :=
  (ts.map fun t => t.released price).sum

/-- What trades make available. -/
def gains (ts : List Trade) (price : UInt64) : UInt64 → Coin → Nat :=
  (ts.map fun t => t.gain price).sum

/-- What trades move. -/
def transfers (ts : List Trade) : List (Ledger.Transfer UInt64 Coin) := ts.flatMap Trade.transfers

/-- Trades one after the other make their transfers one after the other. -/
theorem transfers_append (ts ts' : List Trade) :
  transfers (ts ++ ts') = transfers ts ++ transfers ts'
  := List.flatMap_append

/-- One of several trades releases no more than all of them. -/
theorem released_le_releases {t : Trade} {ts : List Trade} (ht : t ∈ ts) (price u : UInt64)
    (c : Coin) :
  t.released price u c ≤ releases ts price u c
  := by
  induction ts with
  | nil => contradiction
  | cons t' ts ih =>
      have hreleases : releases (t' :: ts) price u c
          = t'.released price u c + releases ts price u c := rfl
      rw [hreleases]
      rcases List.mem_cons.mp ht with rfl | ht
      · apply Nat.le_add_right
      · have hrec := ih ht
        omega

/-- What a trade makes available and what is paid is what was locked and what is received. -/
theorem Trade.gain_add_paid {t : Trade} {price : UInt64}
    (hprice : t.price ≤ t.lockedPrice price) (u : UInt64) (c : Coin) :
  t.gain price u c + Ledger.paid t.transfers u c
    = t.released price u c + Ledger.received t.transfers u c
  := by
  have hle : Ledger.paid t.transfers u c ≤ t.released price u c := by
    cases c with
    | usd =>
        rw [paid_usd, released]
        split
        · exact Nat.mul_le_mul_right _ (UInt64.le_iff_toNat_le.mp hprice)
        · apply Nat.le_refl
    | asset sym =>
        rw [paid_asset, released]
  unfold gain
  omega

/-- What trades credit and pay is what they release and receive. -/
theorem gains_add_paid {ts : List Trade} {price : UInt64}
    (hprice : ∀ t ∈ ts, t.price ≤ t.lockedPrice price) (u : UInt64) (c : Coin) :
  gains ts price u c + Ledger.paid (transfers ts) u c
    = releases ts price u c + Ledger.received (transfers ts) u c
  := by
  induction ts with
  | nil => rfl
  | cons t ts ih =>
      have hhead := Trade.gain_add_paid (hprice t List.mem_cons_self) u c
      have htail := ih fun t' ht' => hprice t' (List.mem_cons_of_mem _ ht')
      have hgains : gains (t :: ts) price u c = t.gain price u c + gains ts price u c := rfl
      have hreleases : releases (t :: ts) price u c
          = t.released price u c + releases ts price u c := rfl
      have htransfers : transfers (t :: ts) = t.transfers ++ transfers ts := rfl
      rw [hgains, hreleases, htransfers, Ledger.paid_append, Ledger.received_append]
      omega

namespace RiskEngine

/-- The settlement of a trade is that of its buyer and then that of its seller. -/
theorem settleTrade_eq (r : RiskEngine) {t : Trade} {sym : Fin NUM_SYMBOLS}
    (hsym : symIdx t.symbolId = some sym) (price : UInt64) :
  r.settleTrade t price
    = (r.modifyAccount t.buyerId (·.buy sym ((t.lockedPrice price).saturatingMul t.qty)
        (t.price.saturatingMul t.qty) t.qty)).modifyAccount t.sellerId
        (·.sell sym (t.price.saturatingMul t.qty) t.qty)
  := by
  unfold settleTrade
  rw [hsym]
  dsimp only
  congr 2
  funext a
  have hrefund := UInt64.add_saturatingSub_of_lt a.usdAvailable
    ((t.lockedPrice price).saturatingMul t.qty) (t.price.saturatingMul t.qty)
  unfold Account.buy
  rw [← hrefund]
  unfold Trade.lockedPrice
  split <;> split <;> rfl

/-- Settling a trade releases what was locked for it. -/
theorem releases_settleTrade (r : RiskEngine) {t : Trade} {sym : Fin NUM_SYMBOLS}
    (hsym : symIdx t.symbolId = some sym) {price : UInt64}
    (hlocked : (t.lockedPrice price).toNat * t.qty.toNat < 2 ^ 64)
    (hcost : t.price.toNat * t.qty.toNat < 2 ^ 64) :
  r.Releases (r.settleTrade t price) (t.gain price) (t.released price)
  := by
  have hbuyer := Releases.modifyAccount r t.buyerId
    (·.buy sym ((t.lockedPrice price).saturatingMul t.qty) (t.price.saturatingMul t.qty) t.qty)
    (fun a c => a.available_buy sym c _ _ _) (fun a c => a.locked_buy sym c _ _ _)
  rw [r.settleTrade_eq hsym]
  apply (hbuyer.trans (Releases.modifyAccount _ t.sellerId _
    (fun a c => a.available_sell sym c _ _) fun a c => a.locked_sell sym c _ _)).congr
  · funext u c
    cases c with
    | usd =>
        simp only [Pi.add_apply, Trade.gain, Trade.released, Trade.paid_usd, Trade.received_usd,
          UInt64.toNat_saturatingSub, UInt64.toNat_saturatingMul_of_lt hlocked,
          UInt64.toNat_saturatingMul_of_lt hcost]
        split <;> simp
    | asset s =>
        simp only [Pi.add_apply, Trade.gain, Trade.released, Trade.paid_asset,
          Trade.received_asset, hsym, Option.some.injEq, eq_comm (a := s), Nat.sub_self, Nat.zero_add]
        simp [ite_and, apply_ite UInt64.toNat]
  · funext u c
    cases c with
    | usd =>
        simp only [Pi.add_apply, Trade.released, UInt64.toNat_saturatingMul_of_lt hlocked]
        simp
    | asset s =>
        simp only [Pi.add_apply, Trade.released, hsym, Option.some.injEq, eq_comm (a := s)]
        simp [ite_and, apply_ite UInt64.toNat]

/-- Settling the trades of an order releases what was locked for them. -/
theorem releases_settleTrades (r : RiskEngine) {ts : List Trade} {price : UInt64}
    (hts : ∀ t ∈ ts, t.Fits price) :
  r.Releases (r.settleTrades ts price).1 (gains ts price) (releases ts price)
  := by
  rw [settleTrades_eq]
  dsimp only
  induction ts generalizing r with
  | nil => apply Releases.refl
  | cons t ts ih =>
      obtain ⟨⟨sym, hsym⟩, hlocked, hcost⟩ := hts t List.mem_cons_self
      have hhead := r.releases_settleTrade hsym hlocked hcost
      exact hhead.trans (ih _ fun t' ht' => hts t' (List.mem_cons_of_mem _ ht'))

end RiskEngine

/-! ### Keeping the books -/

/-- All funds of the users come from what they had at the start and from what was moved. -/
structure RiskEngine.Keeps (r : RiskEngine) (us : Finset UInt64) (start : UInt64 → Coin → Nat)
    (moved : List (Ledger.Transfer UInt64 Coin)) : Prop where
  account_iff : ∀ u, (r.accounts u).isSome ↔ u ∈ us
  among : Ledger.Among moved us
  sum_lt : ∀ c, ∑ u ∈ us, start u c < 2 ^ 64
  balance : ∀ u ∈ us, ∀ c,
    (r.available u c).toNat + (r.locked u c).toNat + Ledger.paid moved u c
      = start u c + Ledger.received moved u c

namespace RiskEngine.Keeps

variable {r r' : RiskEngine} {us : Finset UInt64} {start : UInt64 → Coin → Nat}
  {moved : List (Ledger.Transfer UInt64 Coin)}

/-- The funds of a user are a word. -/
theorem funds_lt (h : r.Keeps us start moved) {u : UInt64} (hu : u ∈ us) (c : Coin) :
  (r.available u c).toNat + (r.locked u c).toNat < 2 ^ 64
  := lt_of_le_of_lt (Ledger.balance_le h.among (fun v hv => h.balance v hv c) hu) (h.sum_lt c)

/-- Locking keeps the funds. -/
theorem lock (h : r.Keeps us start moved) {margin : UInt64 → Coin → Nat}
    (hlock : r.Locks r' margin) :
  r'.Keeps us start moved
    ∧ ∀ u ∈ us, ∀ c, (r'.locked u c).toNat = (r.locked u c).toNat + margin u c
  := by
  have hlocked : ∀ u ∈ us, ∀ c, (r'.locked u c).toNat = (r.locked u c).toNat + margin u c := by
    intro u hu c
    have hle := hlock.le_available u c
    have hlt := h.funds_lt hu c
    apply hlock.toNat_locked
    omega
  refine ⟨⟨fun u => ?_, h.among, h.sum_lt, fun u hu c => ?_⟩, hlocked⟩
  · rw [hlock.isSome_eq]
    apply h.account_iff
  · have hle := hlock.le_available u c
    rw [hlocked u hu c, hlock.toNat_available, ← h.balance u hu c]
    omega

/-- Releasing what was locked keeps the funds, but for what is moved. -/
theorem release (h : r.Keeps us start moved) {gain released : UInt64 → Coin → Nat}
    (hrelease : r.Releases r' gain released) {moved' : List (Ledger.Transfer UInt64 Coin)}
    (hamong : Ledger.Among moved' us)
    (hgain : ∀ u c, gain u c + Ledger.paid moved' u c
      = released u c + Ledger.received moved' u c)
    (hle : ∀ u ∈ us, ∀ c, released u c ≤ (r.locked u c).toNat) :
  r'.Keeps us start (moved ++ moved')
    ∧ ∀ u ∈ us, ∀ c, (r'.locked u c).toNat + released u c = (r.locked u c).toNat
  := by
  have hamong' := Ledger.among_append.mpr ⟨h.among, hamong⟩
  have hbalance : ∀ u ∈ us, ∀ c,
      (r.available u c).toNat + gain u c + ((r.locked u c).toNat - released u c)
          + Ledger.paid (moved ++ moved') u c
        = start u c + Ledger.received (moved ++ moved') u c := by
    intro u hu c
    have hbefore := h.balance u hu c
    have hgain' := hgain u c
    have hle' := hle u hu c
    rw [Ledger.paid_append, Ledger.received_append]
    omega
  refine ⟨⟨fun u => ?_, hamong', h.sum_lt, fun u hu c => ?_⟩, fun u hu c => ?_⟩
  · rw [hrelease.isSome_eq]
    apply h.account_iff
  · have hlt := lt_of_le_of_lt (Ledger.balance_le hamong' (fun v hv => hbalance v hv c) hu)
      (h.sum_lt c)
    have hsome := (h.account_iff u).mpr hu
    rw [← hbalance u hu c, hrelease.toNat_locked u c hsome, hrelease.available_eq u c hsome,
      UInt64.toNat_add, UInt64.toNat_ofNat']
    omega
  · rw [hrelease.toNat_locked u c ((h.account_iff u).mpr hu)]
    have hle' := hle u hu c
    omega

end RiskEngine.Keeps

end LimitOrderBook
