import LimitOrderBook.Solvency
import LimitOrderBook.Reading

/-!
# The margin ledger

An exchange is funded by deposits and runs on orders and cancels.  Every account then has
locked what its resting orders come to, and holds what was deposited, less what its trades
have cost and plus what they have brought (`margin_run`).
-/

namespace LimitOrderBook

/-! ### Funding -/

/-- A deposit. -/
structure Funding where
  userId : UInt64
  usd : UInt64
  symbolId : UInt16
  assetQty : UInt64

namespace Funding

/-- What a deposit credits.  Without a symbol it credits nothing. -/
def amount (f : Funding) (c : Coin) : UInt64 :=
  match symIdx f.symbolId, c with
  | none, _ => 0
  | some _, .usd => f.usd
  | some sym, .asset s => if s = sym then f.assetQty else 0

end Funding

/-- What a user has deposited. -/
def deposited (fs : List Funding) (u : UInt64) (c : Coin) : Nat :=
  (fs.map fun f => if f.userId = u then (f.amount c).toNat else 0).sum

/-- What all users have deposited. -/
def totalDeposited (fs : List Funding) (c : Coin) : Nat :=
  (fs.map fun f => (f.amount c).toNat).sum

/-- The users who have an account. -/
def depositors (fs : List Funding) : Finset UInt64 :=
  ((fs.filter fun f => (symIdx f.symbolId).isSome).map (·.userId)).toFinset

theorem mem_depositors_concat (fs : List Funding) (f : Funding) (u : UInt64) :
  u ∈ depositors (fs ++ [f])
    ↔ u ∈ depositors fs ∨ f.userId = u ∧ (symIdx f.symbolId).isSome
  := by
  unfold depositors
  rw [List.filter_append, List.map_append, List.toFinset_append, Finset.mem_union]
  by_cases hsym : (symIdx f.symbolId).isSome
  · simp [hsym, eq_comm (a := u)]
  · simp [hsym]

/-- What some users have deposited is at most what all have. -/
theorem sum_deposited_le (fs : List Funding) (us : Finset UInt64) (c : Coin) :
  ∑ u ∈ us, deposited fs u c ≤ totalDeposited fs c
  := by
  induction fs with
  | nil => simp [deposited, totalDeposited]
  | cons f fs ih =>
      have hdeposited : ∀ u, deposited (f :: fs) u c
          = (if f.userId = u then (f.amount c).toNat else 0) + deposited fs u c := by
        intro u
        simp [deposited]
      have htotal : totalDeposited (f :: fs) c = (f.amount c).toNat + totalDeposited fs c := by
        simp [totalDeposited]
      rw [Finset.sum_congr rfl fun u _ => hdeposited u, Finset.sum_add_distrib, Finset.sum_ite_eq,
        htotal]
      split <;> omega

namespace Exchange

/-- The exchange with no orders, funded by deposits. -/
def fund (fs : List Funding) : Exchange :=
  fs.foldl (fun s f => s.deposit f.userId f.usd f.symbolId f.assetQty) new

/-- A later deposit of the start-up goes on top of the earlier ones. -/
theorem fund_concat (fs : List Funding) (f : Funding) :
  fund (fs ++ [f]) = (fund fs).deposit f.userId f.usd f.symbolId f.assetQty
  := by
  unfold fund
  rw [List.foldl_append]
  rfl

/-- A user without an account has the balances of a new one. -/
theorem balances_eq_getD (r : RiskEngine) (u : UInt64) (c : Coin) :
  r.available u c = ((r.accounts u).getD (Account.new u 0)).available c
    ∧ r.locked u c = ((r.accounts u).getD (Account.new u 0)).locked c
  := by
  unfold RiskEngine.available RiskEngine.locked
  cases r.accounts u with
  | none => cases c <;> exact ⟨rfl, rfl⟩
  | some a => exact ⟨rfl, rfl⟩

/-- What a deposit does to the balances. -/
theorem balances_deposit (r : RiskEngine) (f : Funding) (u : UInt64) (c : Coin) :
  (r.deposit f.userId f.usd f.symbolId f.assetQty).available u c
      = r.available u c + (if f.userId = u then f.amount c else 0)
    ∧ (r.deposit f.userId f.usd f.symbolId f.assetQty).locked u c = r.locked u c
    ∧ (((r.deposit f.userId f.usd f.symbolId f.assetQty).accounts u).isSome
      ↔ (r.accounts u).isSome ∨ f.userId = u ∧ (symIdx f.symbolId).isSome)
  := by
  obtain ⟨havailable, hlocked⟩ := balances_eq_getD r u c
  unfold RiskEngine.deposit Funding.amount
  cases hsym : symIdx f.symbolId with
  | none => simp
  | some sym =>
      dsimp only
      rcases eq_or_ne f.userId u with rfl | hne
      · rw [havailable, hlocked, if_pos rfl]
        generalize (r.accounts f.userId).getD (Account.new f.userId 0) = a
        simp only [RiskEngine.available, RiskEngine.locked, Function.update_self, Option.map_some,
          Option.getD_some, Account.available_modifyAvailable, Account.locked_modifyAvailable]
        refine ⟨?_, ?_, by simp⟩
        · cases c with
          | usd => rfl
          | asset s =>
              simp only [Coin.asset.injEq]
              split <;> simp [Account.available]
        · cases c <;> rfl
      · unfold RiskEngine.available RiskEngine.locked
        simp [hne, Function.update_of_ne hne.symm]

/-- What the accounts of a funded exchange hold. -/
theorem balances_fund {fs : List Funding} (hfunds : ∀ c, totalDeposited fs c < 2 ^ 64)
    (u : UInt64) (c : Coin) :
  ((fund fs).risk.available u c).toNat = deposited fs u c
    ∧ (fund fs).risk.locked u c = 0
    ∧ (((fund fs).risk.accounts u).isSome ↔ u ∈ depositors fs)
    ∧ (fund fs).engine = MultiAssetEngine.new
  := by
  induction fs using List.reverseRecOn with
  | nil => exact ⟨rfl, rfl, by simp [fund, new, RiskEngine.new, depositors], rfl⟩
  | append_singleton fs f ih =>
      have htotal : ∀ c, totalDeposited (fs ++ [f]) c
          = totalDeposited fs c + (f.amount c).toNat := by
        intro c
        simp [totalDeposited]
      obtain ⟨havailable, hlocked, haccount, hengine⟩ := ih fun c => by
        have hlt := hfunds c
        rw [htotal] at hlt
        omega
      obtain ⟨havailable', hlocked', haccount'⟩ := balances_deposit (fund fs).risk f u c
      have hle : deposited (fs ++ [f]) u c ≤ totalDeposited (fs ++ [f]) c := by
        have hsum := sum_deposited_le (fs ++ [f]) {u} c
        rwa [Finset.sum_singleton] at hsum
      have hlt := hfunds c
      have hdeposited : deposited (fs ++ [f]) u c
          = deposited fs u c + if f.userId = u then (f.amount c).toNat else 0 := by
        simp [deposited]
      rw [fund_concat]
      refine ⟨?_, ?_, ?_, hengine⟩
      · change ((RiskEngine.deposit _ _ _ _ _).available u c).toNat = _
        rw [havailable', UInt64.toNat_add, havailable, apply_ite UInt64.toNat, UInt64.toNat_zero,
          ← hdeposited]
        apply Nat.mod_eq_of_lt
        omega
      · change (RiskEngine.deposit _ _ _ _ _).locked u c = 0
        rw [hlocked', hlocked]
      · change ((RiskEngine.deposit _ _ _ _ _).accounts u).isSome ↔ _
        rw [haccount', haccount, mem_depositors_concat]

/-- Deposits alone leave every account solvent and nothing traded. -/
theorem solvent_fund {fs : List Funding} (hfunds : ∀ c, totalDeposited fs c < 2 ^ 64) :
  (fund fs).Solvent (fun _ => Layout.new) (depositors fs) (deposited fs) []
  := by
  have hreserved : ∀ u c, reserved (fun _ => Layout.new) u c = 0 := by
    intro u c
    apply Finset.sum_eq_zero
    intro sym _
    apply Layout.reserved_eq_zero
    simp [Layout.resting, Layout.new]
  have hengine := (balances_fund hfunds 0 .usd).2.2.2
  refine ⟨⟨?_, ?_, ?_⟩, ?_, ⟨?_, Ledger.among_nil _, ?_, ?_⟩, ?_⟩
  · rw [hengine]
    apply MultiAssetEngine.hasLayouts_new
  · simp [Layout.resting, Layout.new]
  · simp [Layout.resting, Layout.new]
  · simp [Layout.resting, Layout.new]
  · exact fun u => (balances_fund hfunds u .usd).2.2.1
  · exact fun c => lt_of_le_of_lt (sum_deposited_le fs _ c) (hfunds c)
  · intro u _ c
    obtain ⟨havailable, hlocked, -⟩ := balances_fund hfunds u c
    rw [havailable, hlocked]
    rfl
  · intro u _ c
    rw [(balances_fund hfunds u c).2.1, hreserved]
    rfl

end Exchange

/-! ### What is locked -/

/-- What the resting orders of a user come to: the cost of its bids, or the quantity of its
asks in a book. -/
def MultiAssetEngine.reserved (e : MultiAssetEngine) (u : UInt64) : Coin → Nat
  | .usd =>
      ∑ sym, (((e.books sym).restingOrders .buy).map fun o =>
        if o.userId = u then o.price.toNat * o.qty.toNat else 0).sum
  | .asset sym =>
      (((e.books sym).restingOrders .sell).map fun o =>
        if o.userId = u then o.qty.toNat else 0).sum

/-- The margin a user's resting orders hold, read off the book. -/
theorem OrderBook.HasLayout.resting_held {b : OrderBook} {L : Layout} (h : b.HasLayout L)
    (s : Side) (u : UInt64) :
  (MakerRate.held s u).resting (L.resting s)
    = ((b.restingOrders s).map fun o =>
      if o.userId = u then
        match s with
        | .buy => o.price.toNat * o.qty.toNat
        | .sell => o.qty.toNat
      else
        0).sum
  := by
  rw [h.restingOrders_eq, List.map_map]
  unfold MakerRate.resting
  congr 1
  apply List.map_congr_left
  intro r _
  rw [Function.comp_apply, MakerRate.held]
  dsimp only
  split
  · cases s with
    | buy => rfl
    | sell => apply Nat.one_mul
  · apply Nat.zero_mul

/-- The margin the books hold for a user, read off the layouts. -/
theorem MultiAssetEngine.HasLayouts.reserved_eq {e : MultiAssetEngine}
    {E : Fin NUM_SYMBOLS → Layout} (h : e.HasLayouts E) (u : UInt64) (c : Coin) :
  e.reserved u c = Exchange.reserved E u c
  := by
  unfold Exchange.reserved Layout.reserved Layout.reservedOn
  cases c with
  | usd =>
      apply Finset.sum_congr rfl
      intro sym _
      rw [(h.hasLayout sym).resting_held, (h.hasLayout sym).resting_held]
      simp [Side.coin]
  | asset s =>
      have hsell := (h.hasLayout s).resting_held .sell u
      simp only [Side.coin, reduceCtorEq, if_false, Nat.zero_add, Coin.asset.injEq,
        Finset.sum_ite_eq, Finset.mem_univ, if_true]
      rw [hsell]
      rfl

namespace Exchange

/-- After any run of a funded exchange, every account has locked what its resting orders come
to, and holds what it has deposited and what its trades have moved. -/
theorem margin_run {fs : List Funding} (hfunds : ∀ c, totalDeposited fs c < 2 ^ 64)
    {inbounds : List InboundMessage} (hmargined : ∀ inbound ∈ inbounds, inbound.Margined)
    {u : UInt64} {a : Account}
    (ha : ((fund fs).run inbounds).state.risk.accounts u = some a) (c : Coin) :
  (a.locked c).toNat = ((fund fs).run inbounds).state.engine.reserved u c
    ∧ (a.available c).toNat + (a.locked c).toNat
        + Ledger.paid (transfers ((fund fs).run inbounds).trades) u c
      = deposited fs u c + Ledger.received (transfers ((fund fs).run inbounds).trades) u c
  := by
  obtain ⟨E, h⟩ := (solvent_fund hfunds).run hmargined
  rw [List.nil_append] at h
  have hu := (h.keeps.account_iff u).mp (by rw [ha]; rfl)
  have hlocked : ((fund fs).run inbounds).state.risk.locked u c = a.locked c := by
    rw [RiskEngine.locked, ha]
    rfl
  have havailable : ((fund fs).run inbounds).state.risk.available u c = a.available c := by
    rw [RiskEngine.available, ha]
    rfl
  rw [← hlocked, ← havailable]
  constructor
  · rw [h.sound.layouts.reserved_eq, h.locked_eq u hu c]
  · apply h.keeps.balance u hu c

/-- A buyer and a seller fund their accounts. -/
def twoTraders : List Funding := [⟨1, 1000000, 0, 0⟩, ⟨2, 0, 0, 10⟩]

/-- The two traders' deposits fit in a machine word. -/
theorem totalDeposited_twoTraders_lt (c : Coin) :
  totalDeposited twoTraders c < 2 ^ 64
  := by
  cases c with
  | usd => decide
  | asset sym =>
      revert sym
      decide

/-- The seller asks for 90 and the buyer takes a part of it.  A market order of the seller then
finds no bid, and the seller cancels the ask. -/
def tradingDay : List InboundMessage :=
  [⟨Order.newClientLimit 1 2 .btc .sell 90 5, 8⟩, ⟨Order.newClientLimit 1 1 .btc .buy 100 3, 7⟩,
    ⟨Order.newMarket 0 2 .btc .sell 2 0, 8⟩, ⟨Order.newCancel 1 2 .btc, 8⟩]

/-- Over the sample day user 1's dollars are accounted for to the cent. -/
theorem margin_run_tradingDay :
  ∃ a, ((fund twoTraders).run tradingDay).state.risk.accounts 1 = some a
    ∧ (a.locked .usd).toNat
      = ((fund twoTraders).run tradingDay).state.engine.reserved 1 .usd
    ∧ (a.available .usd).toNat + (a.locked .usd).toNat
        + Ledger.paid (transfers ((fund twoTraders).run tradingDay).trades) 1 .usd
      = deposited twoTraders 1 .usd
        + Ledger.received (transfers ((fund twoTraders).run tradingDay).trades) 1 .usd
  := by
  have hmargined : ∀ inbound ∈ tradingDay, inbound.Margined := by
    simp only [tradingDay, List.forall_mem_cons, InboundMessage.Margined]
    decide
  have hsome : (((fund twoTraders).run tradingDay).state.risk.accounts 1).isSome := by
    decide +kernel
  obtain ⟨a, ha⟩ := Option.isSome_iff_exists.mp hsome
  exact ⟨a, ha, margin_run totalDeposited_twoTraders_lt hmargined ha .usd⟩

end Exchange

end LimitOrderBook
