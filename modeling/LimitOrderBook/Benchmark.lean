import LimitOrderBook.Quoting
import LimitOrderBook.Balances
import LimitOrderBook.Exchange

/-!
# The benchmark

The benchmark draws a stream of orders from a generator of its own, and runs them through the
engine and the accounts without the gateway, the log and the clients.  Its stream cancels only
quotes that it has sent and not cancelled (`consistent_generateOrderStream`), and its loop, which
unlocks before it settles, does to the books and the accounts what the replay of the stream from a
log does (`exchange_execute`).
-/

namespace LimitOrderBook

/-! ### The generator of random numbers -/

/-- A generator of random numbers. -/
structure FastRng where
  state : UInt64

namespace FastRng

def new (seed : UInt64) : FastRng where
  state := if seed = 0 then 0xdeadbeefcafebabe else seed

/-- The three steps of the generator. -/
def shuffle (x : UInt64) : UInt64 :=
  let x := x ^^^ x <<< 13
  let x := x ^^^ x >>> 7
  x ^^^ x <<< 17

/-- The next number. -/
def nextU64 (g : FastRng) : UInt64 × FastRng :=
  let x := shuffle g.state
  (x, { state := x })

/-- A number below a bound. -/
def genRange (g : FastRng) (n : Nat) (h : 0 < n) : Fin n × FastRng :=
  let (x, g) := g.nextU64
  (⟨x.toNat % n, Nat.mod_lt _ h⟩, g)

def genRangeU64 (g : FastRng) (first last : UInt64) : UInt64 × FastRng :=
  let (x, g) := g.nextU64
  (first + x % (last - first), g)

def genBool (g : FastRng) : Bool × FastRng :=
  let (x, g) := g.nextU64
  (x &&& 1 == 1, g)

end FastRng

/-! ### The stream of orders -/

namespace Benchmark

/-- The symbols. -/
def symbols : Fin 3 → Symbol
  | 0 => .btc
  | 1 => .eth
  | 2 => .sol

/-- The base prices of the symbols. -/
def basePrices : Fin 3 → UInt64
  | 0 => 6500000
  | 1 => 350000
  | 2 => 15000

/-- The next order: a quote of user 1 or 2, a cancel of an active quote, an order of user 3 that
crosses the spread, or an order of user 1 that may meet its own. -/
def nextOrder (g : FastRng) (q : Quoter) : FastRng × Order × Quoter :=
  let (symIdx, g) := g.genRange 3 (by decide)
  let symbol := symbols symIdx
  let basePrice := basePrices symIdx
  let (action, g) := g.genRange 100 (by decide)
  if action < 60 then
    let (one, g) := g.genBool
    let userId := if one then 1 else 2
    let (buys, g) := g.genBool
    let side := if buys then Side.buy else Side.sell
    let (spreadOffset, g) := g.genRangeU64 5 100
    let price :=
      if side = .buy then basePrice.saturatingSub spreadOffset
      else basePrice.saturatingAdd spreadOffset
    let (qty, g) := g.genRangeU64 1 10
    (g, q.quote userId symbol side price qty)
  else if h : action < 80 ∧ 0 < q.activeQuotes.length then
    let (idx, g) := g.genRange q.activeQuotes.length h.2
    (g, q.cancel idx)
  else if action < 95 then
    let (buys, g) := g.genBool
    let side := if buys then Side.buy else Side.sell
    let (qty, g) := g.genRangeU64 1 5
    let price := if side = .buy then basePrice + 200 else basePrice.saturatingSub 200
    (g, q.take fun orderId => Order.newLimit orderId 3 symbol side price qty)
  else
    (g, q.take fun orderId => Order.newLimit orderId 1 symbol .buy (basePrice + 50) 2)

/-- The orders that are generated from a state. -/
def generate : Nat → FastRng → Quoter → List Order
  | 0, _, _ => []
  | count + 1, g, q =>
      let (g, order, q) := nextOrder g q
      order :: generate count g q

def generateOrderStream (count : Nat) : List Order := generate count (FastRng.new 42) Quoter.new

/-- The benchmark's generator sends what a quoter may send. -/
theorem sends_nextOrder (g : FastRng) (q : Quoter) :
  q.Sends (nextOrder g q).2
  := by
  unfold nextOrder
  dsimp only
  split
  · apply Quoter.Sends.quote
  split
  · apply Quoter.Sends.cancel
  split
  · dsimp only
    apply Quoter.Sends.take OrderType.noConfusion
    rfl
  · dsimp only
    apply Quoter.Sends.take OrderType.noConfusion
    rfl

/-- The stream has limit orders and cancels. -/
theorem kind_nextOrder (g : FastRng) (q : Quoter) :
  (nextOrder g q).2.1.kind = .limit ∨ (nextOrder g q).2.1.kind = .cancel
  := by
  unfold nextOrder
  dsimp only
  split
  · exact Or.inl rfl
  split
  · exact Or.inr rfl
  split
  · exact Or.inl rfl
  · exact Or.inl rfl

/-- The generator yields as many orders as it is asked for. -/
theorem length_generate (count : Nat) (g : FastRng) (q : Quoter) :
  (generate count g q).length = count
  := by
  induction count generalizing g q with
  | zero => rfl
  | succ count ih => rw [generate, List.length_cons, ih]

/-- The generated stream is a run of a quoter. -/
theorem run_generate {q₀ : Quoter} {sent : List Order} (count : Nat) (g : FastRng) (q : Quoter)
    (h : q₀.Run sent q) :
  ∃ q', q₀.Run (sent ++ generate count g q) q'
  := by
  induction count generalizing sent g q with
  | zero =>
      rw [generate, List.append_nil]
      exact ⟨q, h⟩
  | succ count ih =>
      obtain ⟨q', hrun⟩ := ih (nextOrder g q).1 (nextOrder g q).2.2 (h.concat (sends_nextOrder g q))
      rw [List.append_assoc] at hrun
      exact ⟨q', hrun⟩

/-- The generator yields limit orders and cancels only. -/
theorem kind_of_mem_generate {count : Nat} {g : FastRng} {q : Quoter} {o : Order}
    (h : o ∈ generate count g q) :
  o.kind = .limit ∨ o.kind = .cancel
  := by
  induction count generalizing g q with
  | zero => cases h
  | succ count ih =>
      rcases List.mem_cons.mp h with rfl | h
      · apply kind_nextOrder
      · apply ih h

/-- Each cancel of the stream names a quote that comes before it and that has not been
cancelled. -/
theorem consistent_generateOrderStream {count : Nat} (h : count + 1 < 2 ^ 64) :
  Quoter.Consistent (generateOrderStream count)
  := by
  obtain ⟨q, hrun⟩ := run_generate count (FastRng.new 42) Quoter.new Quoter.Run.nil
  apply hrun.consistent
  change (generate _ _ _).length + 1 < 2 ^ 64
  rw [length_generate]
  apply h

theorem consistent_generateOrderStream_million :
  Quoter.Consistent (generateOrderStream 1000000)
  := consistent_generateOrderStream (by decide)

end Benchmark

/-! ### Accounts -/

namespace Account

/-- Two accounts of one user with equal balances in every coin are equal. -/
theorem ext_coins {a b : Account} (huser : a.userId = b.userId)
    (havailable : ∀ c, a.available c = b.available c) (hlocked : ∀ c, a.locked c = b.locked c) :
  a = b
  := by
  obtain ⟨userId, usdAvailable, usdLocked, assetAvailable, assetLocked⟩ := a
  obtain rfl : userId = b.userId := huser
  obtain rfl : usdAvailable = b.usdAvailable := havailable .usd
  obtain rfl : usdLocked = b.usdLocked := hlocked .usd
  obtain rfl : assetAvailable = b.assetAvailable := funext fun sym => havailable (.asset sym)
  obtain rfl : assetLocked = b.assetLocked := funext fun sym => hlocked (.asset sym)
  rfl

/-- A change of accounts that only adds to what is available and takes off what is locked. -/
structure Shifts (f : Account → Account) (gain released : Coin → UInt64) : Prop where
  userId : ∀ a, (f a).userId = a.userId
  available : ∀ a c, (f a).available c = a.available c + gain c
  locked : ∀ a c, (f a).locked c = (a.locked c).saturatingSub (released c)

/-- Two shifts of an account commute. -/
theorem Shifts.comm {f g : Account → Account} {gain released gain' released' : Coin → UInt64}
    (hf : Shifts f gain released) (hg : Shifts g gain' released') (a : Account) :
  f (g a) = g (f a)
  := by
  apply ext_coins
  · rw [hf.userId, hg.userId, hg.userId, hf.userId]
  · intro c
    rw [hf.available, hg.available, hg.available, hf.available, UInt64.add_assoc,
      UInt64.add_comm (gain' c), UInt64.add_assoc]
  · intro c
    rw [hf.locked, hg.locked, hg.locked, hf.locked, ← UInt64.toNat_inj]
    simp only [UInt64.toNat_saturatingSub]
    omega

variable (sym : Fin NUM_SYMBOLS) (x cost qty : UInt64)

theorem shifts_unlockUsd :
  Shifts (·.unlockUsd x) (fun c => if c = .usd then x else 0) fun c => if c = .usd then x else 0
  where
  userId _ := rfl
  available a c := a.available_unlockUsd x c
  locked a c := a.locked_unlockUsd x c

theorem shifts_unlockAsset :
  Shifts (·.unlockAsset sym x) (fun c => if c = .asset sym then x else 0)
    fun c => if c = .asset sym then x else 0
  where
  userId _ := rfl
  available a c := a.available_unlockAsset sym x c
  locked a c := a.locked_unlockAsset sym x c

/-- A buyer's settlement shifts an account. -/
theorem shifts_buy :
  ∃ gain released, Shifts (·.buy sym x cost qty) gain released
  := ⟨_, _, fun _ => rfl, fun a c => a.available_buy sym c x cost qty,
    fun a c => a.locked_buy sym c x cost qty⟩

/-- A seller's settlement shifts an account. -/
theorem shifts_sell :
  ∃ gain released, Shifts (·.sell sym cost qty) gain released
  := ⟨_, _, fun _ => rfl, fun a c => a.available_sell sym c cost qty,
    fun a c => a.locked_sell sym c cost qty⟩

end Account

namespace RiskEngine

variable (r : RiskEngine)

theorem ext_accounts {r r' : RiskEngine} (h : r.accounts = r'.accounts) :
  r = r'
  := congrArg RiskEngine.mk h

/-- Changes of two users, and changes that commute, may come in either sequence. -/
theorem modifyAccount_comm {u v : UInt64} {f g : Account → Account}
    (hcomm : ∀ a, f (g a) = g (f a)) :
  (r.modifyAccount u f).modifyAccount v g = (r.modifyAccount v g).modifyAccount u f
  := by
  apply ext_accounts
  simp only [accounts_modifyAccount]
  rcases eq_or_ne u v with rfl | hne
  · rw [Function.update_self, Function.update_self, Function.update_idem, Function.update_idem]
    congr 1
    cases r.accounts u with
    | none => rfl
    | some a => exact congrArg some (hcomm a).symm
  · rw [Function.update_of_ne hne, Function.update_of_ne hne.symm, Function.update_comm hne]

/-- To unlock margin changes nothing, or shifts an account. -/
theorem unlockOrderFunds_shifts (userId : UInt64) (symbolId : UInt16) (side : Side)
    (price qty : UInt64) :
  (∀ r : RiskEngine, r.unlockOrderFunds userId symbolId side price qty = r)
    ∨ ∃ f gain released, Account.Shifts f gain released
      ∧ ∀ r : RiskEngine, r.unlockOrderFunds userId symbolId side price qty
        = r.modifyAccount userId f
  := by
  by_cases hqty : qty = 0
  · exact Or.inl fun r => if_pos hqty
  cases hsym : symIdx symbolId with
  | none => exact Or.inl fun r => by rw [unlockOrderFunds, if_neg hqty, hsym]
  | some sym =>
      right
      cases side with
      | buy => exact ⟨_, _, _, Account.shifts_unlockUsd _,
          fun r => unlockOrderFunds_buy r userId hsym price hqty⟩
      | sell => exact ⟨_, _, _, Account.shifts_unlockAsset sym _,
          fun r => unlockOrderFunds_sell r userId hsym price hqty⟩

/-- What is unlocked may be unlocked before a trade is settled. -/
theorem settleTrade_unlockOrderFunds (userId : UInt64) (symbolId : UInt16) (side : Side)
    (price qty : UInt64) (t : Trade) (limit : UInt64) :
  (r.unlockOrderFunds userId symbolId side price qty).settleTrade t limit
    = (r.settleTrade t limit).unlockOrderFunds userId symbolId side price qty
  := by
  rcases unlockOrderFunds_shifts userId symbolId side price qty with
    hunlock | ⟨f, gain, released, hf, hunlock⟩
  · rw [hunlock, hunlock]
  cases hsym : symIdx t.symbolId with
  | none => rw [settleTrade, settleTrade, hsym]
  | some sym =>
      obtain ⟨gainBuy, releasedBuy, hbuy⟩ := Account.shifts_buy sym
        ((t.lockedPrice limit).saturatingMul t.qty) (t.price.saturatingMul t.qty) t.qty
      obtain ⟨gainSell, releasedSell, hsell⟩ := Account.shifts_sell sym
        (t.price.saturatingMul t.qty) t.qty
      rw [hunlock, hunlock, settleTrade_eq _ hsym, settleTrade_eq _ hsym,
        modifyAccount_comm _ (hf.comm hbuy), modifyAccount_comm _ (hf.comm hsell)]

/-- Giving back an order's margin commutes with settling any trades. -/
theorem foldl_settleTrade_unlock (userId : UInt64) (symbolId : UInt16) (side : Side)
    (price qty : UInt64) (ts : List Trade) (limit : UInt64) :
  ts.foldl (fun r t => r.settleTrade t limit) (r.unlockOrderFunds userId symbolId side price qty)
    = (ts.foldl (fun r t => r.settleTrade t limit) r).unlockOrderFunds userId symbolId side price
      qty
  := by
  induction ts generalizing r with
  | nil => rfl
  | cons t ts ih => rw [List.foldl_cons, List.foldl_cons, settleTrade_unlockOrderFunds, ih]

end RiskEngine

/-! ### The loop -/

/-- The engine and the accounts of the benchmark, with what it counts. -/
structure Benchmark where
  exchange : Exchange
  limitOrders : UInt64
  cancels : UInt64
  totalTrades : UInt64
  stpCount : UInt64

namespace Benchmark

/-- Run an order. -/
def execute (b : Benchmark) (order : Order) : Benchmark :=
  if order.kind = .cancel then
    match b.exchange.engine.cancelOrder order.symbolId order.userId order.id with
    | (.ok cancelled, engine) =>
        { b with
          exchange :=
            { engine := engine
              risk := b.exchange.risk.unlockCancelledOrderMargin cancelled cancelled.qty }
          cancels := b.cancels + 1 }
    | (.error _, engine) => { b with exchange := { b.exchange with engine := engine } }
  else
    match b.exchange.risk.lockOrderFunds order with
    | .error _ => b
    | .ok risk =>
        match b.exchange.engine.process order 0 [] with
        | (.ok report, engine, trades) =>
            let risk :=
              if report.stpTriggered ∧ 0 < report.remainingQty then
                risk.unlockCancelledOrderMargin order report.remainingQty
              else
                risk
            { exchange :=
                { engine := engine
                  risk := trades.foldl (fun risk trade => risk.settleTrade trade order.price) risk }
              limitOrders := b.limitOrders + 1
              cancels := b.cancels
              totalTrades := b.totalTrades + UInt64.ofNat trades.length
              stpCount := if report.stpTriggered then b.stpCount + 1 else b.stpCount }
        | (.error _, engine, _) => { b with exchange := { engine := engine, risk := risk } }

/-- Ten users are given dollars and assets. -/
def prefund (risk : RiskEngine) : RiskEngine :=
  (List.range' 1 10).foldl
    (fun risk uid =>
      let uid := UInt64.ofNat uid
      let risk := risk.deposit uid 100000000000 Symbol.btc.code 1000000
      let risk := risk.deposit uid 0 Symbol.eth.code 1000000
      risk.deposit uid 0 Symbol.sol.code 10000000)
    risk

/-- The start of the benchmark. -/
def start : Benchmark where
  exchange :=
    { engine := MultiAssetEngine.new
      risk := prefund RiskEngine.new }
  limitOrders := 0
  cancels := 0
  totalTrades := 0
  stpCount := 0

/-- Run the orders of a stream. -/
def run (b : Benchmark) (orders : List Order) : Benchmark := orders.foldl execute b

/-- What follows a processed order, with the margin unlocked first. -/
theorem settleReport_eq (risk : RiskEngine) {order : Order} (hmarket : order.kind ≠ .market)
    (report : ExecutionReport) (trades : List Trade) :
  MultiAssetEngine.settleReport risk order report trades
    = trades.foldl (fun risk trade => risk.settleTrade trade order.price)
      (if report.stpTriggered ∧ 0 < report.remainingQty then
        risk.unlockCancelledOrderMargin order report.remainingQty
      else
        risk)
  := by
  unfold MultiAssetEngine.settleReport
  dsimp only
  rw [if_neg fun h => hmarket h.1, RiskEngine.settleTrades_eq]
  split
  · unfold RiskEngine.unlockCancelledOrderMargin
    rw [RiskEngine.foldl_settleTrade_unlock]
  · rfl

/-- An order is run as the record of it is replayed. -/
theorem exchange_execute (b : Benchmark) {order : Order} (hmarket : order.kind ≠ .market)
    (hdeposit : order.kind ≠ .deposit) :
  (b.execute order).exchange = b.exchange.replay order
  := by
  unfold execute Exchange.replay MultiAssetEngine.replayOrder
  rw [if_neg hdeposit]
  by_cases hcancel : order.kind = .cancel
  · rw [if_pos hcancel, if_pos hcancel]
    by_cases hsym : symIdx order.symbolId = none
    · rw [if_pos hsym, MultiAssetEngine.cancelOrder, hsym]
    · rw [if_neg hsym]
      rcases b.exchange.engine.cancelOrder order.symbolId order.userId order.id with
        ⟨reason | cancelled, engine⟩
      · rfl
      · rfl
  · rw [if_neg hcancel, if_neg hcancel]
    cases hlock : b.exchange.risk.lockOrderFunds order with
    | error reason =>
        by_cases hsym : symIdx order.symbolId = none
        · rw [if_pos hsym]
        · rw [if_neg hsym]
    | ok risk =>
        obtain ⟨sym, hsym⟩ := (RiskEngine.locked_of_ok hcancel hlock).exists_sym
        rw [if_neg (by rw [hsym]; exact Option.some_ne_none sym)]
        rcases b.exchange.engine.process order 0 [] with ⟨reason | report, engine, trades⟩
        · rfl
        · dsimp only
          rw [settleReport_eq _ hmarket]

/-- The benchmark does to the books and the accounts what the replay of its orders does. -/
theorem exchange_run (b : Benchmark) {orders : List Order}
    (hkinds : ∀ order ∈ orders, order.kind = .limit ∨ order.kind = .cancel) :
  (b.run orders).exchange = b.exchange.replayAll orders
  := by
  induction orders generalizing b with
  | nil => rfl
  | cons order orders ih =>
      have hkind := hkinds order List.mem_cons_self
      have hmarket : order.kind ≠ .market := by
        rcases hkind with h | h <;> rw [h] <;> exact OrderType.noConfusion
      have hdeposit : order.kind ≠ .deposit := by
        rcases hkind with h | h <;> rw [h] <;> exact OrderType.noConfusion
      have hrest := ih (b.execute order) fun order' hmem =>
        hkinds order' (List.mem_cons_of_mem order hmem)
      rw [exchange_execute b hmarket hdeposit] at hrest
      apply hrest

theorem exchange_run_million :
  (start.run (generateOrderStream 1000000)).exchange
    = start.exchange.replayAll (generateOrderStream 1000000)
  := exchange_run start fun _ hmem => kind_of_mem_generate hmem

end Benchmark

end LimitOrderBook
