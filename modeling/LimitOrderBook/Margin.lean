import LimitOrderBook.Exchange

/-!
# What the margin operations do

Every operation on the accounts changes the account of one user, or of the two parties of a
trade, by one of the moves below.  `RiskEngine.Locked` lists the outcomes of a lock that
succeeds.
-/

namespace LimitOrderBook

/-! ### Moves -/

namespace Account

/-- Lock dollars. -/
def lockUsd (a : Account) (x : UInt64) : Account :=
  { a with usdAvailable := a.usdAvailable - x, usdLocked := a.usdLocked + x }

/-- Unlock dollars. -/
def unlockUsd (a : Account) (x : UInt64) : Account :=
  { a with usdLocked := a.usdLocked.saturatingSub x, usdAvailable := a.usdAvailable + x }

/-- Lock assets. -/
def lockAsset (a : Account) (sym : Fin NUM_SYMBOLS) (q : UInt64) : Account :=
  (a.modifyAvailable sym (· - q)).modifyLocked sym (· + q)

/-- Unlock assets. -/
def unlockAsset (a : Account) (sym : Fin NUM_SYMBOLS) (q : UInt64) : Account :=
  (a.modifyLocked sym (·.saturatingSub q)).modifyAvailable sym (· + q)

/-- Locking dollars leaves another account. -/
theorem lockUsd_ne (a : Account) {x : UInt64} (hx : x ≠ 0) :
  a.lockUsd x ≠ a
  := by
  intro heq
  have husd : a.usdAvailable - x = a.usdAvailable := congrArg usdAvailable heq
  apply hx
  grind

/-- Locking an asset leaves another account. -/
theorem lockAsset_ne (a : Account) (sym : Fin NUM_SYMBOLS) {q : UInt64} (hq : q ≠ 0) :
  a.lockAsset sym q ≠ a
  := by
  intro heq
  have hasset := congrArg (·.assetAvailable sym) heq
  simp only [lockAsset, modifyAvailable, modifyLocked, Function.update_self] at hasset
  apply hq
  grind

/-- Unlocking undoes locking as long as the locked dollars do not overflow. -/
theorem unlockUsd_lockUsd (a : Account) (x : UInt64) :
  (a.lockUsd x).unlockUsd x = a ↔ a.usdLocked.toNat + x.toNat < 2 ^ 64
  := by
  have havailable : a.usdAvailable - x + x = a.usdAvailable := by grind
  rw [← UInt64.add_saturatingSub_eq_iff]
  constructor
  · intro heq
    apply congrArg usdLocked heq
  · intro heq
    unfold unlockUsd lockUsd
    rw [heq, havailable]

/-- Unlocking undoes locking as long as the locked assets do not overflow. -/
theorem unlockAsset_lockAsset (a : Account) (sym : Fin NUM_SYMBOLS) (q : UInt64) :
  (a.lockAsset sym q).unlockAsset sym q = a
    ↔ (a.assetLocked sym).toNat + q.toNat < 2 ^ 64
  := by
  have havailable : a.assetAvailable sym - q + q = a.assetAvailable sym := by grind
  rw [← UInt64.add_saturatingSub_eq_iff]
  constructor
  · intro heq
    have hat := congrArg (·.assetLocked sym) heq
    simpa [lockAsset, unlockAsset, modifyAvailable, modifyLocked] using hat
  · intro heq
    simp [lockAsset, unlockAsset, modifyAvailable, modifyLocked, heq, havailable]

/-- The side of an order is a valid one, and the locked part of the account has room for the
margin of the order. -/
def HasRoom (a : Account) (sym : Fin NUM_SYMBOLS) (o : Order) : Prop :=
  o.getSide = some .buy ∧ a.usdLocked.toNat + o.price.toNat * o.qty.toNat < 2 ^ 64
    ∨ o.getSide = some .sell ∧ (a.assetLocked sym).toNat + o.qty.toNat < 2 ^ 64

end Account

namespace RiskEngine

variable {r r' : RiskEngine} {o : Order}

/-- Modifying an account is an update of the table of accounts. -/
theorem accounts_modifyAccount (r : RiskEngine) (u : UInt64) (f : Account → Account) :
  (r.modifyAccount u f).accounts = Function.update r.accounts u ((r.accounts u).map f)
  := by
  unfold modifyAccount
  cases h : r.accounts u with
  | none =>
      have hself := Function.update_eq_self u r.accounts
      rw [h] at hself
      rw [Option.map_none, hself]
  | some a => rfl

@[simp]
theorem accounts_modifyAccount_self (r : RiskEngine) (u : UInt64) (f : Account → Account) :
  (r.modifyAccount u f).accounts u = (r.accounts u).map f
  := by
  rw [accounts_modifyAccount, Function.update_self]

/-- Modifying an account leaves the others alone. -/
theorem accounts_modifyAccount_of_ne (r : RiskEngine) {u v : UInt64} (f : Account → Account)
    (h : v ≠ u) :
  (r.modifyAccount u f).accounts v = r.accounts v
  := by
  rw [accounts_modifyAccount, Function.update_of_ne h]

/-- The outcomes of a lock that succeeds. -/
inductive Locked (r : RiskEngine) (o : Order) : RiskEngine → Prop where
  | buy {sym : Fin NUM_SYMBOLS} {a : Account} (hqty : o.qty ≠ 0)
      (hsym : symIdx o.symbolId = some sym) (haccount : r.accounts o.userId = some a)
      (hside : o.side = Side.buy.toByte) (hprice : o.price ≠ 0)
      (hfits : o.price.toNat * o.qty.toNat < 2 ^ 64)
      (hfunds : o.price * o.qty ≤ a.usdAvailable) :
      Locked r o (r.modifyAccount o.userId (·.lockUsd (o.price * o.qty)))
  | sell {sym : Fin NUM_SYMBOLS} {a : Account} (hqty : o.qty ≠ 0)
      (hsym : symIdx o.symbolId = some sym) (haccount : r.accounts o.userId = some a)
      (hside : o.side ≠ Side.buy.toByte) (hfunds : o.qty ≤ a.assetAvailable sym) :
      Locked r o (r.modifyAccount o.userId (·.lockAsset sym o.qty))

/-- An order whose lock succeeds is locked. -/
theorem locked_of_ok (hkind : o.kind ≠ .cancel) (h : r.lockOrderFunds o = .ok r') :
  r.Locked o r'
  := by
  unfold lockOrderFunds at h
  rw [if_neg hkind] at h
  split at h
  · contradiction
  next hqty =>
  split at h
  · contradiction
  next sym hsym =>
  split at h
  · contradiction
  next a haccount =>
  split at h
  · next hside =>
      split at h
      · contradiction
      next hprice =>
      split at h
      · contradiction
      next requiredUsd hmul =>
      obtain ⟨hfits, rfl⟩ := UInt64.checkedMul_eq_some_iff.mp hmul
      split at h
      · contradiction
      next hfunds =>
      obtain rfl := Except.ok.inj h
      exact .buy hqty hsym haccount hside hprice hfits (UInt64.not_lt.mp hfunds)
  · next hside =>
      split at h
      · contradiction
      next hfunds =>
      obtain rfl := Except.ok.inj h
      exact .sell hqty hsym haccount hside (UInt64.not_lt.mp hfunds)

namespace Locked

/-- An order of no quantity is never locked. -/
theorem qty_ne (h : r.Locked o r') :
  o.qty ≠ 0
  := by
  cases h with
  | buy hqty => apply hqty
  | sell hqty => apply hqty

/-- An order is locked for a symbol that there is. -/
theorem exists_sym (h : r.Locked o r') :
  ∃ sym, symIdx o.symbolId = some sym
  := by
  cases h with
  | buy _ hsym => exact ⟨_, hsym⟩
  | sell _ hsym => exact ⟨_, hsym⟩

/-- An order is locked on an account that there is. -/
theorem exists_account (h : r.Locked o r') :
  ∃ a, r.accounts o.userId = some a
  := by
  cases h with
  | buy _ _ haccount => exact ⟨_, haccount⟩
  | sell _ _ haccount => exact ⟨_, haccount⟩

/-- A lock that succeeds changes the account. -/
theorem accounts_ne (h : r.Locked o r') :
  r'.accounts ≠ r.accounts
  := by
  intro heq
  have hat := congrFun heq o.userId
  cases h with
  | buy hqty _ haccount _ hprice hfits =>
      rw [accounts_modifyAccount_self, haccount] at hat
      apply Account.lockUsd_ne _ _ (Option.some.inj hat)
      rw [ne_eq, ← UInt64.toNat_inj, UInt64.toNat_mul_of_lt hfits, UInt64.toNat_zero,
        Nat.mul_eq_zero, ← UInt64.toNat_zero, UInt64.toNat_inj, UInt64.toNat_inj]
      exact fun hzero => hzero.elim hprice hqty
  | sell hqty _ haccount =>
      rw [accounts_modifyAccount_self, haccount] at hat
      apply Account.lockAsset_ne _ _ hqty (Option.some.inj hat)

end Locked

/-- A lock does not look at the identifier. -/
theorem lockOrderFunds_congr (r : RiskEngine) {o o' : Order} (ho : o' = { o with id := o'.id }) :
  r.lockOrderFunds o' = r.lockOrderFunds o
  := by
  rw [ho]
  rfl

/-- A buy that the user can pay for is locked. -/
theorem lockOrderFunds_buy {sym : Fin NUM_SYMBOLS} {a : Account} (hkind : o.kind ≠ .cancel)
    (hqty : o.qty ≠ 0) (hsym : symIdx o.symbolId = some sym)
    (haccount : r.accounts o.userId = some a) (hside : o.side = Side.buy.toByte)
    (hprice : o.price ≠ 0) (hfits : o.price.toNat * o.qty.toNat < 2 ^ 64)
    (hfunds : o.price * o.qty ≤ a.usdAvailable) :
  r.lockOrderFunds o = .ok (r.modifyAccount o.userId (·.lockUsd (o.price * o.qty)))
  := by
  have hmul : o.price.checkedMul o.qty = some (o.price * o.qty) :=
    UInt64.checkedMul_eq_some_iff.mpr ⟨hfits, rfl⟩
  unfold lockOrderFunds
  rw [if_neg hkind, if_neg hqty, hsym, haccount]
  dsimp only
  rw [if_pos hside, if_neg hprice, hmul]
  dsimp only
  rw [if_neg (UInt64.not_lt.mpr hfunds)]
  rfl

/-- A sell of assets the user has is locked. -/
theorem lockOrderFunds_sell {sym : Fin NUM_SYMBOLS} {a : Account} (hkind : o.kind ≠ .cancel)
    (hqty : o.qty ≠ 0) (hsym : symIdx o.symbolId = some sym)
    (haccount : r.accounts o.userId = some a) (hside : o.side ≠ Side.buy.toByte)
    (hfunds : o.qty ≤ a.assetAvailable sym) :
  r.lockOrderFunds o = .ok (r.modifyAccount o.userId (·.lockAsset sym o.qty))
  := by
  unfold lockOrderFunds
  rw [if_neg hkind, if_neg hqty, hsym, haccount]
  dsimp only
  rw [if_neg hside, if_neg (UInt64.not_lt.mpr hfunds)]
  rfl

/-- The account of the user of an order has what the order needs: dollars for a buy, assets
for everything else. -/
def Covers (r : RiskEngine) (o : Order) : Prop :=
  o.qty ≠ 0 ∧ ∃ sym a, symIdx o.symbolId = some sym ∧ r.accounts o.userId = some a
    ∧ if o.side = Side.buy.toByte then
        o.price ≠ 0 ∧ o.price.toNat * o.qty.toNat ≤ a.usdAvailable.toNat
      else
        o.qty ≤ a.assetAvailable sym

/-- An order is locked exactly if the account covers it. -/
theorem covers_iff (hkind : o.kind ≠ .cancel) :
  r.Covers o ↔ ∃ r', r.lockOrderFunds o = .ok r'
  := by
  constructor
  · rintro ⟨hqty, sym, a, hsym, haccount, hfunds⟩
    split at hfunds
    · next hside =>
        obtain ⟨hprice, hle⟩ := hfunds
        have hfits := lt_of_le_of_lt hle a.usdAvailable.toNat_lt
        rw [← UInt64.toNat_mul_of_lt hfits, ← UInt64.le_iff_toNat_le] at hle
        exact ⟨_, lockOrderFunds_buy hkind hqty hsym haccount hside hprice hfits hle⟩
    · next hside => exact ⟨_, lockOrderFunds_sell hkind hqty hsym haccount hside hfunds⟩
  · rintro ⟨r', hlock⟩
    cases locked_of_ok hkind hlock with
    | @buy sym a hqty hsym haccount hside hprice hfits hfunds =>
        refine ⟨hqty, sym, a, hsym, haccount, ?_⟩
        rw [if_pos hside, ← UInt64.toNat_mul_of_lt hfits, ← UInt64.le_iff_toNat_le]
        exact ⟨hprice, hfunds⟩
    | @sell sym a hqty hsym haccount hside hfunds =>
        refine ⟨hqty, sym, a, hsym, haccount, ?_⟩
        rw [if_neg hside]
        apply hfunds

/-! ### Unlocking what was locked -/

/-- Unlocking the margin of a buyer unlocks dollars. -/
theorem unlockOrderFunds_buy (r : RiskEngine) (u : UInt64) {symbolId : UInt16}
    {sym : Fin NUM_SYMBOLS} (hsym : symIdx symbolId = some sym) (price : UInt64) {qty : UInt64}
    (hqty : qty ≠ 0) :
  r.unlockOrderFunds u symbolId .buy price qty
    = r.modifyAccount u (·.unlockUsd (price.saturatingMul qty))
  := by
  rw [unlockOrderFunds, if_neg hqty, hsym]
  rfl

/-- Unlocking the margin of a seller unlocks the asset. -/
theorem unlockOrderFunds_sell (r : RiskEngine) (u : UInt64) {symbolId : UInt16}
    {sym : Fin NUM_SYMBOLS} (hsym : symIdx symbolId = some sym) (price : UInt64) {qty : UInt64}
    (hqty : qty ≠ 0) :
  r.unlockOrderFunds u symbolId .sell price qty = r.modifyAccount u (·.unlockAsset sym qty)
  := by
  rw [unlockOrderFunds, if_neg hqty, hsym]
  rfl

/-- Unlocking a margin leaves the other accounts alone. -/
theorem accounts_unlockOrderFunds_of_ne (r : RiskEngine) {u v : UInt64} (hv : v ≠ u)
    (symbolId : UInt16) (side : Side) (price qty : UInt64) :
  (r.unlockOrderFunds u symbolId side price qty).accounts v = r.accounts v
  := by
  unfold unlockOrderFunds
  split
  · rfl
  split
  · rfl
  · apply accounts_modifyAccount_of_ne _ _ hv

/-- Locking an order leaves the other accounts alone. -/
theorem Locked.accounts_of_ne (h : r.Locked o r') {v : UInt64} (hv : v ≠ o.userId) :
  r'.accounts v = r.accounts v
  := by
  cases h <;> apply accounts_modifyAccount_of_ne _ _ hv

/-- Unlocking the margin of an order undoes locking it exactly if its side is a valid one and
the locked part of the account has had room for it. -/
theorem Locked.unlock_self_iff (h : r.Locked o r') {sym : Fin NUM_SYMBOLS} {a : Account}
    (hsym : symIdx o.symbolId = some sym) (haccount : r.accounts o.userId = some a) :
  (r'.unlockCancelledOrderMargin o o.qty).accounts o.userId = r.accounts o.userId
    ↔ a.HasRoom sym o
  := by
  rw [unlockCancelledOrderMargin, haccount, Account.HasRoom]
  cases h with
  | buy hqty _ haccount' hside _ hfits =>
      obtain rfl := Option.some.inj (haccount.symm.trans haccount')
      have hgetSide : o.getSide = some .buy := by
        rw [Order.getSide, hside]
        rfl
      have hlocked : o.price.saturatingMul o.qty = o.price * o.qty := by
        rw [← UInt64.toNat_inj, UInt64.toNat_saturatingMul_of_lt hfits,
          UInt64.toNat_mul_of_lt hfits]
      rw [hgetSide, Option.getD_some, unlockOrderFunds_buy _ _ hsym _ hqty, hlocked,
        accounts_modifyAccount_self, accounts_modifyAccount_self, haccount, Option.map_some,
        Option.map_some, Option.some.injEq, Account.unlockUsd_lockUsd, UInt64.toNat_mul_of_lt hfits]
      simp
  | sell hqty hsym' haccount' hside =>
      obtain rfl := Option.some.inj (haccount.symm.trans haccount')
      obtain rfl := Option.some.inj (hsym.symm.trans hsym')
      have hgetSide : o.getSide ≠ some .buy := by
        rw [Order.getSide, Side.tryFrom, if_neg (show o.side ≠ 0 from hside)]
        split <;> decide
      cases hsell : o.getSide with
      | none =>
          -- a byte that encodes no side is locked as a sell and unlocked as a buy
          rw [Option.getD_none, unlockOrderFunds_buy _ _ hsym _ hqty, accounts_modifyAccount_self,
            accounts_modifyAccount_self, haccount, Option.map_some, Option.map_some,
            Option.some.injEq]
          constructor
          · intro heq
            have hasset := congrArg (·.assetAvailable sym) heq
            simp only [Account.unlockUsd, Account.lockAsset, Account.modifyAvailable,
              Account.modifyLocked, Function.update_self] at hasset
            exact absurd (by grind) hqty
          · simp
      | some side =>
          have hside' : side = .sell := by
            cases side with
            | buy => exact absurd hsell hgetSide
            | sell => rfl
          subst hside'
          rw [Option.getD_some, unlockOrderFunds_sell _ _ hsym _ hqty, accounts_modifyAccount_self,
            accounts_modifyAccount_self, haccount, Option.map_some, Option.map_some,
            Option.some.injEq, Account.unlockAsset_lockAsset]
          simp

/-- Nobody else's account is concerned. -/
theorem Locked.unlock_eq_iff (h : r.Locked o r') {sym : Fin NUM_SYMBOLS} {a : Account}
    (hsym : symIdx o.symbolId = some sym) (haccount : r.accounts o.userId = some a) :
  (r'.unlockCancelledOrderMargin o o.qty).accounts = r.accounts ↔ a.HasRoom sym o
  := by
  rw [← h.unlock_self_iff hsym haccount]
  constructor
  · intro heq
    rw [heq]
  · intro heq
    funext v
    rcases eq_or_ne v o.userId with rfl | hv
    · apply heq
    · rw [unlockCancelledOrderMargin, accounts_unlockOrderFunds_of_ne _ hv, h.accounts_of_ne hv]

/-- The loop over the trades of an order does three things at once. -/
theorem settleTrades_eq (r : RiskEngine) (trades : List Trade) (price : UInt64) :
  r.settleTrades trades price
    = (trades.foldl (fun r trade => r.settleTrade trade price) r,
      trades.foldl (fun n trade => n + trade.qty) 0,
      trades.foldl (fun n trade => n + trade.price.saturatingMul trade.qty) 0)
  := by
  unfold settleTrades
  induction trades using List.reverseRecOn with
  | nil => rfl
  | append_singleton trades trade ih =>
      rw [List.foldl_append, ih, List.foldl_append, List.foldl_append, List.foldl_append]
      rfl

/-- An order that trades with nothing, and is no market order, is at most unlocked. -/
theorem settleReport_nil (r : RiskEngine) (hkind : o.kind ≠ .market) (report : ExecutionReport) :
  MultiAssetEngine.settleReport r o report []
    = if report.stpTriggered ∧ 0 < report.remainingQty then
        r.unlockCancelledOrderMargin o report.remainingQty
      else
        r
  := by
  simp [MultiAssetEngine.settleReport, settleTrades, hkind]

/-! ### The users that have an account -/

/-- Modifying an account opens and closes none. -/
@[simp]
theorem isSome_modifyAccount (r : RiskEngine) (u v : UInt64) (f : Account → Account) :
  ((r.modifyAccount u f).accounts v).isSome = (r.accounts v).isSome
  := by
  rcases eq_or_ne v u with rfl | h
  · rw [accounts_modifyAccount_self, Option.isSome_map]
  · rw [accounts_modifyAccount_of_ne _ _ h]

/-- Locking an order opens and closes no account. -/
theorem Locked.isSome (h : r.Locked o r') (v : UInt64) :
  (r'.accounts v).isSome = (r.accounts v).isSome
  := by
  cases h <;> apply isSome_modifyAccount

@[simp]
theorem isSome_unlockOrderFunds (r : RiskEngine) (u : UInt64) (symbolId : UInt16) (side : Side)
    (price qty v : UInt64) :
  ((r.unlockOrderFunds u symbolId side price qty).accounts v).isSome = (r.accounts v).isSome
  := by
  unfold unlockOrderFunds
  split
  · rfl
  split
  · rfl
  · apply isSome_modifyAccount

@[simp]
theorem isSome_refundMarketOrderRemainder (r : RiskEngine) (u : UInt64) (symbolId : UInt16)
    (side : Side) (price qty executed cost v : UInt64) :
  ((r.refundMarketOrderRemainder u symbolId side price qty executed cost).accounts v).isSome
    = (r.accounts v).isSome
  := by
  unfold refundMarketOrderRemainder
  split
  · rfl
  · apply isSome_modifyAccount

@[simp]
theorem isSome_settleTrade (r : RiskEngine) (trade : Trade) (price v : UInt64) :
  ((r.settleTrade trade price).accounts v).isSome = (r.accounts v).isSome
  := by
  unfold settleTrade
  dsimp only
  split
  · rfl
  · rw [isSome_modifyAccount, isSome_modifyAccount]

/-- Settling trades opens and closes no account. -/
theorem isSome_settleTrades (r : RiskEngine) (trades : List Trade) (price v : UInt64) :
  ((r.settleTrades trades price).1.accounts v).isSome = (r.accounts v).isSome
  := by
  rw [settleTrades_eq]
  dsimp only
  induction trades generalizing r with
  | nil => rfl
  | cons trade trades ih => rw [List.foldl_cons, ih, isSome_settleTrade]

/-- Settling a report opens and closes no account. -/
@[simp]
theorem isSome_settleReport (r : RiskEngine) (order : Order) (report : ExecutionReport)
    (trades : List Trade) (v : UInt64) :
  ((MultiAssetEngine.settleReport r order report trades).accounts v).isSome
    = (r.accounts v).isSome
  := by
  have hunlock : ∀ r' : RiskEngine,
      ((if report.stpTriggered ∧ 0 < report.remainingQty then
          r'.unlockCancelledOrderMargin order report.remainingQty
        else r').accounts v).isSome = (r'.accounts v).isSome := by
    intro r'
    split
    · apply isSome_unlockOrderFunds
    · rfl
  unfold MultiAssetEngine.settleReport
  dsimp only
  split
  · rw [isSome_refundMarketOrderRemainder, hunlock, isSome_settleTrades]
  · rw [hunlock, isSome_settleTrades]

/-- A deposit closes no account. -/
theorem isSome_deposit (r : RiskEngine) (u usd : UInt64) (symbolId : UInt16) (assetQty : UInt64)
    {v : UInt64} (h : (r.accounts v).isSome) :
  ((r.deposit u usd symbolId assetQty).accounts v).isSome
  := by
  unfold deposit
  split
  · apply h
  · dsimp only
    rcases eq_or_ne v u with rfl | hne
    · rw [Function.update_self]
      rfl
    · rw [Function.update_of_ne hne]
      apply h

end RiskEngine

end LimitOrderBook
