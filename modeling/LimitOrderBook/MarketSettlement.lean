import LimitOrderBook.MarginLedger

/-!
# The settlement of market orders

The budget of a market order that buys is given back twice over: `settleTrade` returns what a
trade was cheaper than the cap, and `refundMarketOrderRemainder` returns all of the budget that
was not spent, the same savings included.  The order is settled exactly only if it trades at
its cap throughout, or if it meets an order of its own user, which is unlocked and not
refunded (`settlesTaker_iff`).
-/

namespace LimitOrderBook

/-! ### The asks a taker meets -/

namespace Order

/-- A taker that buys meets an order of its own user: what rests before it does not fill the
taker, and it is within the cap. -/
def MeetsOwn (o : Order) (asks : List Order) : Prop :=
  ∃ earlier own later, asks = earlier ++ own :: later ∧ own.userId = o.userId
    ∧ own.price ≤ o.price ∧ (earlier.map fun ask => ask.qty.toNat).sum < o.qty.toNat

variable {o : Order} {ask : Order} {asks : List Order}

theorem not_meetsOwn_of_filled (hqty : o.qty = 0) :
  ¬ o.MeetsOwn asks
  := by
  rintro ⟨_, _, _, _, _, _, hlt⟩
  rw [hqty] at hlt
  exact Nat.not_lt_zero _ hlt

theorem not_meetsOwn_of_lt (h : ∀ ask ∈ asks, o.price < ask.price) :
  ¬ o.MeetsOwn asks
  := by
  rintro ⟨earlier, own, later, rfl, _, hle, _⟩
  have hlt := h own (List.mem_append_right _ List.mem_cons_self)
  exact absurd hlt (UInt64.not_lt.mpr hle)

/-- The first order is the one that is met, or it is filled before. -/
theorem meetsOwn_cons :
  o.MeetsOwn (ask :: asks)
    ↔ (ask.userId = o.userId ∧ ask.price ≤ o.price ∧ 0 < o.qty)
      ∨ (o.reduce (min o.qty ask.qty)).MeetsOwn asks
  := by
  have hleft := UInt64.toNat_sub_min o.qty ask.qty
  constructor
  · rintro ⟨_ | ⟨first, earlier⟩, own, later, heq, huser, hprice, hlt⟩
    · obtain ⟨rfl, rfl⟩ := List.cons.inj heq
      exact Or.inl ⟨huser, hprice, UInt64.pos_iff_toNat_pos.mpr hlt⟩
    · obtain ⟨rfl, rfl⟩ := List.cons.inj heq
      refine Or.inr ⟨earlier, own, later, rfl, huser, hprice, ?_⟩
      rw [List.map_cons, List.sum_cons] at hlt
      simp only [reduce]
      omega
  · rintro (⟨huser, hprice, hqty⟩ | ⟨earlier, own, later, rfl, huser, hprice, hlt⟩)
    · exact ⟨[], ask, asks, rfl, huser, hprice, UInt64.pos_iff_toNat_pos.mp hqty⟩
    · refine ⟨ask :: earlier, own, later, rfl, huser, hprice, ?_⟩
      rw [List.map_cons, List.sum_cons]
      simp only [reduce] at hlt
      omega

end Order

section

variable {accepts : UInt64 → Bool} {taker : Order} (haccepts : ∀ p, accepts p ↔ p ≤ taker.price)
  (takerClientId nextId : UInt64) {rs : List Resting}
  (hsorted : rs.Pairwise fun r r' => r.order.price ≤ r'.order.price)

include haccepts hsorted

/-- Self-trade prevention stops a taker that meets an order of its own user, and no other. -/
theorem stp_matchOrders_iff :
  (matchOrders accepts takerClientId taker nextId rs).stp = true
    ↔ taker.MeetsOwn (rs.map (·.order))
  := by
  induction rs generalizing taker nextId with
  | nil => simp [matchOrders, Order.MeetsOwn]
  | cons r rs ih =>
      obtain ⟨hhead, htail⟩ := List.pairwise_cons.mp hsorted
      rw [matchOrders, List.map_cons]
      split
      · next hstop =>
          rcases hstop with hqty | hprice
          · simpa using Order.not_meetsOwn_of_filled hqty
          · rw [← Bool.not_eq_true, haccepts, UInt64.not_le] at hprice
            have hnone : ¬ taker.MeetsOwn (r.order :: rs.map (·.order)) := by
              apply Order.not_meetsOwn_of_lt
              intro ask hask
              rcases List.mem_cons.mp hask with rfl | hask
              · apply hprice
              · obtain ⟨r', hr', rfl⟩ := List.mem_map.mp hask
                exact UInt64.lt_of_lt_of_le hprice (hhead r' hr')
            simpa using hnone
      next hgo =>
      rw [not_or, Bool.not_eq_false, haccepts] at hgo
      split
      · next huser =>
          have hown : taker.MeetsOwn (r.order :: rs.map (·.order)) :=
            Order.meetsOwn_cons.mpr (Or.inl ⟨huser, hgo.2, UInt64.ne_zero_iff_pos.mp hgo.1⟩)
          simpa using hown
      next huser =>
      have hleft : (taker.MeetsOwn (r.order :: rs.map (·.order)))
          ↔ (taker.reduce (min taker.qty r.order.qty)).MeetsOwn (rs.map (·.order)) := by
        rw [Order.meetsOwn_cons]
        exact or_iff_right fun h => huser h.1
      rw [hleft]
      dsimp only
      split
      · exact @ih (taker.reduce (min taker.qty r.order.qty)) haccepts (nextId + 1) htail
      · next hpart =>
          -- the order is not filled, so the taker is
          have hfilled : (taker.reduce (min taker.qty r.order.qty)).qty = 0 := by
            have htaker := UInt64.toNat_sub_min taker.qty r.order.qty
            have hmaker := UInt64.toNat_sub_min' taker.qty r.order.qty
            rw [← UInt64.toNat_inj] at hpart ⊢
            rw [Order.reduce, htaker]
            simp only [UInt64.toNat_zero] at *
            omega
          simpa using Order.not_meetsOwn_of_filled hfilled

omit hsorted in
/-- A taker that meets a cheaper order first pays less than its cap for all it takes. -/
theorem tradedCost_matchOrders_lt {r : Resting} (hqty : 0 < taker.qty) (hmaker : 0 < r.order.qty)
    (hlt : r.order.price < taker.price)
    (hstp : (matchOrders accepts takerClientId taker nextId (r :: rs)).stp = false) :
  tradedCost (matchOrders accepts takerClientId taker nextId (r :: rs)).trades
    < taker.price.toNat
      * tradedQty (matchOrders accepts takerClientId taker nextId (r :: rs)).trades
  := by
  have hgo : ¬ (taker.qty = 0 ∨ accepts r.order.price = false) := by
    rw [not_or, Bool.not_eq_false, haccepts]
    exact ⟨UInt64.ne_zero_iff_pos.mpr hqty, UInt64.le_of_lt hlt⟩
  rw [matchOrders, if_neg hgo] at hstp ⊢
  have huser : r.order.userId ≠ taker.userId := by
    intro huser
    rw [if_pos huser] at hstp
    contradiction
  rw [if_neg huser]
  have hmin := UInt64.toNat_min taker.qty r.order.qty
  rw [UInt64.pos_iff_toNat_pos] at hqty hmaker
  have hcheaper : r.order.price.toNat * (min taker.qty r.order.qty).toNat
      < taker.price.toNat * (min taker.qty r.order.qty).toNat :=
    Nat.mul_lt_mul_of_pos_right (UInt64.lt_iff_toNat_lt.mp hlt) (by omega)
  dsimp only
  split
  · have hrest : tradedCost (matchOrders accepts takerClientId
          (taker.reduce (min taker.qty r.order.qty)) (nextId + 1) rs).trades
        ≤ taker.price.toNat * tradedQty (matchOrders accepts takerClientId
          (taker.reduce (min taker.qty r.order.qty)) (nextId + 1) rs).trades := by
      apply tradedCost_le
      intro t ht
      obtain ⟨r', -, id, qty, taker', -, rfl, -, hr'⟩ := mem_trades_matchOrders _ _ _ _ _ ht
      exact (haccepts _).mp hr'
    rw [tradedCost_cons, tradedQty_cons, Nat.mul_add]
    dsimp only [OrderBook.tradeOf]
    omega
  · rw [tradedCost_cons, tradedQty_cons, Nat.mul_add]
    dsimp only [OrderBook.tradeOf]
    simp only [tradedCost_nil, tradedQty_nil]
    omega

/-- A taker that meets no order of its own user pays its cap if and only if no order is
cheaper. -/
theorem tradedCost_matchOrders_iff (hqty : 0 < taker.qty) (hpos : ∀ r ∈ rs, 0 < r.order.qty)
    (hstp : (matchOrders accepts takerClientId taker nextId rs).stp = false) :
  tradedCost (matchOrders accepts takerClientId taker nextId rs).trades
      = taker.price.toNat * tradedQty (matchOrders accepts takerClientId taker nextId rs).trades
    ↔ ∀ r ∈ rs, taker.price ≤ r.order.price
  := by
  constructor
  · intro heq
    cases rs with
    | nil => simp
    | cons r rs =>
        have hfirst : taker.price ≤ r.order.price := by
          by_contra hlt
          have hcost := tradedCost_matchOrders_lt haccepts _ _ hqty (hpos r List.mem_cons_self)
            (UInt64.not_le.mp hlt) hstp
          omega
        intro r' hr'
        rcases List.mem_cons.mp hr' with rfl | hr'
        · apply hfirst
        · exact UInt64.le_trans hfirst ((List.pairwise_cons.mp hsorted).1 r' hr')
  · intro hrs
    apply tradedCost_eq
    intro t ht
    obtain ⟨r, hr, id, qty, taker', -, rfl, -, hprice⟩ := mem_trades_matchOrders _ _ _ _ _ ht
    exact UInt64.le_antisymm ((haccepts _).mp hprice) (hrs r hr)

end

/-! ### What a taker pays -/

/-- The asks rest in the order of their prices. -/
theorem Layout.WellFormed.pairwise_asks {L : Layout} (hw : L.WellFormed) :
  (L.resting .sell).Pairwise fun r r' => r.order.price ≤ r'.order.price
  := by
  apply List.pairwise_flatMap.mpr
  constructor
  · intro l hl
    apply List.pairwise_of_forall_mem_list
    intro r hr r' hr'
    rw [hw.price_eq .sell l hl r hr, hw.price_eq .sell l hl r' hr']
    apply UInt64.le_refl
  · apply (hw.sorted .sell).imp_of_mem
    intro l l' hl hl' hbefore r hr r' hr'
    rw [hw.price_eq .sell l hl r hr, hw.price_eq .sell l' hl' r' hr']
    exact UInt64.le_of_lt (of_decide_eq_true hbefore)

/-- A market order with a cap accepts the prices up to it. -/
theorem Order.accepts_sell_iff {o : Order} (hkind : o.kind = .market) (hprice : o.price ≠ 0)
    (p : UInt64) :
  o.accepts .sell p ↔ p ≤ o.price
  := by
  have hpos := UInt64.ne_zero_iff_pos.mp hprice
  rw [← UInt64.not_lt]
  simp [accepts, hkind, hpos, Side.before]

namespace Layout

variable {L : Layout} {o : Order}

/-- A market order that buys pays its cap or meets an order of its own user, if and only if it
meets one or no ask is cheaper. -/
theorem paysCap_iff (hw : L.WellFormed) (hkind : o.kind = .market) (hbuy : o.bookSide = .buy)
    (hprice : o.price ≠ 0) (hqty : o.qty ≠ 0) (clientId : UInt64) :
  o.PaysCap (L.fills o clientId).trades (L.fills o clientId).stp
    ↔ (∀ r ∈ L.resting .sell, o.price ≤ r.order.price)
      ∨ o.MeetsOwn ((L.resting .sell).map (·.order))
  := by
  have hfrom : o.takesFrom = .sell := by
    rw [Order.takesFrom, hbuy]
    rfl
  have hrate : o.rate = o.price.toNat := by
    rw [Order.rate, hbuy]
  have haccepts := Order.accepts_sell_iff hkind hprice
  have hmeets : (L.stamped o).MeetsOwn ((L.resting .sell).map (·.order))
      ↔ o.MeetsOwn ((L.resting .sell).map (·.order)) := Iff.rfl
  have hstp := @stp_matchOrders_iff (o.accepts .sell) (L.stamped o) haccepts clientId
    L.tradeIdCounter _ hw.pairwise_asks
  have hcost := @tradedCost_matchOrders_iff (o.accepts .sell) (L.stamped o) haccepts clientId
    L.tradeIdCounter _ hw.pairwise_asks (UInt64.ne_zero_iff_pos.mp hqty) fun r hr => by
      obtain ⟨l, hl, hr⟩ := mem_restingOf.mp hr
      exact hw.qty_pos .sell l hl r hr
  have hfills := hw.fills_eq o clientId
  rw [hfrom] at hfills
  rw [hfills] at hstp hcost
  dsimp only at hstp hcost
  rw [hmeets] at hstp
  unfold Order.PaysCap
  rw [hrate]
  cases hcase : (L.fills o clientId).stp with
  | true =>
      rw [hcase] at hstp
      simp [hstp.mp rfl]
  | false =>
      rw [hcase] at hstp
      have hmeets' : ¬ o.MeetsOwn ((L.resting .sell).map (·.order)) := fun h => by
        have habsurd := hstp.mpr h
        contradiction
      rw [or_iff_left hmeets']
      exact ⟨fun h => (hcost hcase).mp (h hkind hbuy rfl), fun h _ _ _ => (hcost hcase).mpr h⟩

/-- What the taker itself has locked for its trades. -/
theorem releases_taker (hw : L.WellFormed) (hside : o.getSide = some o.bookSide)
    {sym : Fin NUM_SYMBOLS} (hsym : symIdx o.symbolId = some sym) (clientId : UInt64) (c : Coin) :
  releases (L.process o clientId []).2.2 o.price o.userId c
    = o.margin (tradedQty (L.process o clientId []).2.2) o.userId c
  := by
  have hmakers : (MakerRate.held o.takesFrom o.userId).traded (L.fills o clientId).trades = 0 := by
    apply List.sum_eq_zero
    intro n hn
    obtain ⟨t, ht, rfl⟩ := List.mem_map.mp hn
    obtain ⟨r, -, hbetween, -⟩ := between_of_mem_fills hw hside clientId ht
    have hother : (MakerRate.held o.takesFrom o.userId).trade t = 0 := by
      apply if_neg
      rw [hbetween.maker_eq]
      exact hbetween.user_ne
    rw [hother, Nat.zero_mul]
  rw [trades_process, List.nil_append, releases_fills hw hside hsym, hmakers, ite_self,
    Nat.zero_add]

/-- A market order is given back what it has not traded. -/
theorem tradedQty_add_returned (hw : L.WellFormed) (hkind : o.kind = .market) (clientId : UInt64) :
  tradedQty (L.process o clientId []).2.2 + o.returned (L.process o clientId []).1 = o.qty.toNat
  := by
  have hqty := hw.tradedQty_fills o clientId
  have hrests : ¬ L.Rests o clientId := by
    intro h
    have hlimit := h.2.2
    rw [hkind] at hlimit
    contradiction
  rw [trades_process, List.nil_append]
  cases hres : (L.process o clientId []).1 with
  | ok report =>
      obtain rfl := Layout.report_of_process_ok hres
      rw [returned_of_not_rests (Or.inr hkind) hrests, hqty]
  | error e =>
      rw [Layout.fills_trades_of_error hw hres]
      apply Nat.zero_add

end Layout

/-! ### The settlement -/

/-- All that an account holds of a coin. -/
def RiskEngine.funds (r : RiskEngine) (u : UInt64) (c : Coin) : Nat :=
  (r.available u c).toNat + (r.locked u c).toNat

/-- The trades of a user are settled: it has locked what it had locked, what is available has
changed by what it has paid and received, and all users together have the dollars they had.
Amounts are compared modulo `n`, and as they are if `n` is zero. -/
structure RiskEngine.Settles (r r' : RiskEngine) (us : Finset UInt64) (u : UInt64)
    (ts : List Trade) (n : Nat) : Prop where
  locked_eq : ∀ c, r'.locked u c = r.locked u c
  available : ∀ c, (r'.available u c).toNat + Ledger.paid (transfers ts) u c
    ≡ (r.available u c).toNat + Ledger.received (transfers ts) u c [MOD n]
  funds : ∑ v ∈ us, r'.funds v .usd ≡ ∑ v ∈ us, r.funds v .usd [MOD n]

namespace RiskEngine.Settles

variable {r r' : RiskEngine} {us : Finset UInt64} {u : UInt64} {ts : List Trade} {n : Nat}

/-- What is equal is equal modulo any number. -/
theorem of_zero (h : r.Settles r' us u ts 0) :
  r.Settles r' us u ts n
  := by
  refine ⟨h.locked_eq, fun c => ?_, ?_⟩
  · rw [Nat.modEq_zero_iff.mp (h.available c)]
  · rw [Nat.modEq_zero_iff.mp h.funds]

/-- The funds of all users follow the trades. -/
theorem of_balance (hu : u ∈ us) (hamong : Ledger.Among (transfers ts) us)
    (hlocked : ∀ c, r'.locked u c = r.locked u c)
    (hbalance : ∀ v ∈ us, ∀ c, r'.funds v c + Ledger.paid (transfers ts) v c
      ≡ r.funds v c + Ledger.received (transfers ts) v c [MOD n]) :
  r.Settles r' us u ts n
  := by
  refine ⟨hlocked, fun c => ?_, ?_⟩
  · have h := hbalance u hu c
    unfold RiskEngine.funds at h
    rw [hlocked, Nat.add_right_comm, Nat.add_right_comm _ (r.locked u c).toNat] at h
    apply Nat.ModEq.add_right_cancel' _ h
  · exact Ledger.sum_balance_modEq hamong fun v hv => hbalance v hv .usd

end RiskEngine.Settles

/-- Releasing what was locked moves funds as words. -/
theorem RiskEngine.Locks.funds_modEq {r r₁ r' : RiskEngine}
    {margin gain released : UInt64 → Coin → Nat} {u : UInt64} {c : Coin} {paid received : Nat}
    (hlock : r.Locks r₁ margin) (hrelease : r₁.Releases r' gain released)
    (haccount : (r.accounts u).isSome)
    (hlocked : (r'.locked u c).toNat + released u c = (r.locked u c).toNat + margin u c)
    (hgain : gain u c + paid = released u c + received) :
  r'.funds u c + paid ≡ r.funds u c + received [MOD 2 ^ 64]
  := by
  have havailable := hlock.available_modEq hrelease haccount c
  unfold RiskEngine.funds
  unfold Nat.ModEq at *
  omega

namespace Exchange.Covered

variable {s : Exchange} {E : Fin NUM_SYMBOLS → Layout} {us : Finset UInt64}
  (h : s.Covered E us) {o : Order} {sym : Fin NUM_SYMBOLS} {risk : RiskEngine}
  (hkind : o.kind = .market) (hside : o.getSide = some o.bookSide)
  (hsym : symIdx o.symbolId = some sym) (hlock : s.risk.lockOrderFunds o = .ok risk)
  (clientId : UInt64)

include h hkind hside hsym hlock

omit hside hsym in
theorem user_mem_of_lock :
  o.userId ∈ us
  := by
  obtain ⟨a, haccount⟩ :=
    (RiskEngine.locked_of_ok (Order.ne_cancel (Or.inr hkind)) hlock).exists_account
  apply (h.account_iff _).mp
  rw [haccount]
  rfl

/-- A market order that pays its cap releases its margin and what the makers have locked. -/
theorem locked_settled
    (hcap : o.PaysCap ((E sym).fills o clientId).trades ((E sym).fills o clientId).stp)
    (hroom : ∀ c, (s.risk.locked o.userId c).toNat + o.margin o.qty.toNat o.userId c < 2 ^ 64)
    {u : UInt64} (hu : u ∈ us) (c : Coin) :
  ((risk.settled o ((E sym).process o clientId []).1
        ((E sym).process o clientId []).2.2).locked u c).toNat
      + (releases ((E sym).process o clientId []).2.2 o.price
        + o.margin (o.returned ((E sym).process o clientId []).1)) u c
    = (s.risk.locked u c).toNat + o.margin o.qty.toNat u c
  := by
  have hlocks := (RiskEngine.locked_of_ok (Order.ne_cancel (Or.inr hkind)) hlock).locks hside
  have hrelease := h.releases_settled (Or.inr hkind) hside hsym hlock clientId
  rw [Layout.refunded_process (h.sound.layouts.wellFormed sym) hsym hcap] at hrelease
  have hreserved := h.reserved_settled (Or.inr hkind) hside hsym clientId u c
  have hroom' : (s.risk.locked u c).toNat + o.margin o.qty.toNat u c < 2 ^ 64 := by
    rcases eq_or_ne u o.userId with rfl | hne
    · apply hroom
    · have hnone : o.margin o.qty.toNat u c = 0 := if_neg fun h => hne h.1
      rw [hnone]
      apply UInt64.toNat_lt
  have hsome := (hlocks.isSome_eq u).trans ((h.account_iff u).mpr hu)
  rw [hrelease.toNat_locked u c hsome, hlocks.toNat_locked hroom']
  rw [← h.locked_eq u hu c] at hreserved
  omega

omit hlock risk in
theorem releases_taker (c : Coin) :
  (releases ((E sym).process o clientId []).2.2 o.price
      + o.margin (o.returned ((E sym).process o clientId []).1)) o.userId c
    = o.margin o.qty.toNat o.userId c
  := by
  have hw := h.sound.layouts.wellFormed sym
  rw [Pi.add_apply, Pi.add_apply, Layout.releases_taker hw hside hsym, ← Order.margin_add,
    Layout.tradedQty_add_returned hw hkind]

/-- A market order that pays its cap is settled. -/
theorem settles
    (hcap : o.PaysCap ((E sym).fills o clientId).trades ((E sym).fills o clientId).stp)
    (hroom : ∀ c, (s.risk.locked o.userId c).toNat + o.margin o.qty.toNat o.userId c < 2 ^ 64) :
  s.risk.Settles
      (risk.settled o ((E sym).process o clientId []).1 ((E sym).process o clientId []).2.2)
      us o.userId ((E sym).process o clientId []).2.2 (2 ^ 64)
    ∧ ((∀ c, ∑ u ∈ us, s.risk.funds u c < 2 ^ 64) →
      s.risk.Settles
        (risk.settled o ((E sym).process o clientId []).1 ((E sym).process o clientId []).2.2)
        us o.userId ((E sym).process o clientId []).2.2 0)
  := by
  have huser := h.user_mem_of_lock hkind hlock
  have hlocks := (RiskEngine.locked_of_ok (Order.ne_cancel (Or.inr hkind)) hlock).locks hside
  have hlocked := fun u hu c => h.locked_settled hkind hside hsym hlock clientId hcap hroom
    (u := u) hu c
  have hrelease := h.releases_settled (Or.inr hkind) hside hsym hlock clientId
  rw [Layout.refunded_process (h.sound.layouts.wellFormed sym) hsym hcap] at hrelease
  have hgain := h.gain_add_paid (Or.inr hkind) hside hsym hlock clientId
    (o.margin (o.returned ((E sym).process o clientId []).1))
  have hamong : Ledger.Among (transfers ((E sym).process o clientId []).2.2) us :=
    h.among_settled (Or.inr hkind) hside hlock clientId
  have htaker := h.releases_taker hkind hside hsym clientId
  have hlocked' : ∀ c, (risk.settled o ((E sym).process o clientId []).1
      ((E sym).process o clientId []).2.2).locked o.userId c = s.risk.locked o.userId c := by
    intro c
    have hown := hlocked o.userId huser c
    rw [htaker] at hown
    exact UInt64.toNat_inj.mp (Nat.add_right_cancel hown)
  constructor
  · apply RiskEngine.Settles.of_balance huser hamong hlocked'
    intro u hu c
    exact hlocks.funds_modEq hrelease ((h.account_iff u).mpr hu) (hlocked u hu c) (hgain u c)
  · intro hfunds
    apply RiskEngine.Settles.of_balance huser hamong hlocked'
    have hkeeps : s.risk.Keeps us s.risk.funds [] :=
      ⟨h.account_iff, Ledger.among_nil us, hfunds, fun _ _ _ => rfl⟩
    obtain ⟨hkeeps', hrisk⟩ := hkeeps.lock hlocks
    obtain ⟨hkeeps'', -⟩ := hkeeps'.release hrelease hamong hgain fun u hu c => by
      rw [hrisk u hu c, ← hlocked u hu c]
      apply Nat.le_add_left
    intro u hu c
    exact Nat.modEq_zero_iff.mpr (hkeeps''.balance u hu c)

omit hsym in
/-- A settled order has had room for its margin. -/
theorem room_of_settles {n : Nat}
    (hsettles : s.risk.Settles
      (risk.settled o ((E sym).process o clientId []).1 ((E sym).process o clientId []).2.2)
      us o.userId ((E sym).process o clientId []).2.2 n) (hsym : symIdx o.symbolId = some sym)
    (c : Coin) :
  (s.risk.locked o.userId c).toNat + o.margin o.qty.toNat o.userId c < 2 ^ 64
  := by
  have huser := h.user_mem_of_lock hkind hlock
  have hlocks := (RiskEngine.locked_of_ok (Order.ne_cancel (Or.inr hkind)) hlock).locks hside
  have hrelease := h.releases_settled (Or.inr hkind) hside hsym hlock clientId
  have hsome := (hlocks.isSome_eq o.userId).trans ((h.account_iff _).mpr huser)
  have hlocked := hrelease.toNat_locked o.userId c hsome
  rw [hsettles.locked_eq] at hlocked
  by_contra hcarry
  have hlt := hlocks.toNat_locked_lt (not_lt.mp hcarry)
  omega

/-- A market order that buys, and is not stopped, is settled only if it pays its cap. -/
theorem paysCap_of_settles
    (hsettles : s.risk.Settles
      (risk.settled o ((E sym).process o clientId []).1 ((E sym).process o clientId []).2.2)
      us o.userId ((E sym).process o clientId []).2.2 (2 ^ 64)) :
  o.PaysCap ((E sym).fills o clientId).trades ((E sym).fills o clientId).stp
  := by
  intro _ hbuy hstp
  have hw := h.sound.layouts.wellFormed sym
  have huser := h.user_mem_of_lock hkind hlock
  have hlocked := RiskEngine.locked_of_ok (Order.ne_cancel (Or.inr hkind)) hlock
  have hrate := hlocked.rate_lt hside
  have hprice : ∀ t ∈ ((E sym).fills o clientId).trades, t.price ≤ o.price :=
    h.price_le (Or.inr hkind) hside hlock clientId hbuy
  have hrelease := h.releases_settled (Or.inr hkind) hside hsym hlock clientId
  have hgain := h.gain_add_paid (Or.inr hkind) hside hsym hlock clientId
    (o.refunded ((E sym).process o clientId []).2.2 ((E sym).process o clientId []).1) o.userId .usd
  have havailable := (hlocked.locks hside).available_modEq hrelease
    ((h.account_iff _).mpr huser) .usd
  have hsettled := hsettles.available .usd
  have hqty := hw.tradedQty_fills o clientId
  have hcost := tradedCost_le hprice
  have hpaid : o.rate = o.price.toNat := by
    rw [Order.rate, hbuy]
  have hmul : o.rate * tradedQty ((E sym).fills o clientId).trades ≤ o.rate * o.qty.toNat :=
    Nat.mul_le_mul_left _ (by omega)
  rw [← hpaid] at hcost
  have hmargin : ∀ qty, o.margin qty o.userId .usd = o.rate * qty := by
    intro qty
    rw [Order.margin, hsym, hbuy]
    exact if_pos ⟨rfl, rfl⟩
  -- what the trades were cheaper than the cap is given back a second time
  have hrefunded : o.refunded ((E sym).process o clientId []).2.2
      ((E sym).process o clientId []).1 o.userId .usd
      = o.rate * o.qty.toNat - tradedCost ((E sym).fills o clientId).trades := by
    rw [(E sym).trades_process o clientId [], List.nil_append]
    cases hres : ((E sym).process o clientId []).1 with
    | ok report =>
        obtain rfl := Layout.report_of_process_ok hres
        rw [Order.refunded_of_buy hkind hbuy hstp]
        exact if_pos ⟨rfl, rfl⟩
    | error e =>
        rw [Layout.fills_trades_of_error hw hres, tradedCost_nil, Nat.sub_zero]
        apply hmargin
  have htraded : tradedQty ((E sym).process o clientId []).2.2
      = tradedQty ((E sym).fills o clientId).trades := by
    rw [(E sym).trades_process o clientId [], List.nil_append]
  simp only [Pi.add_apply, hrefunded, Layout.releases_taker hw hside hsym, hmargin, htraded]
    at hgain havailable
  unfold Nat.ModEq at hsettled havailable
  omega

end Exchange.Covered

namespace Exchange

/-- There is room for the margin of a market order beside what is locked; and if the order
buys, then no ask is cheaper than its cap, or it meets an ask of its own user. -/
structure SettledOnce (s : Exchange) (inbound : InboundMessage) : Prop where
  room : ∀ sym a, symIdx inbound.order.symbolId = some sym →
    s.risk.accounts inbound.order.userId = some a → a.HasRoom sym inbound.order
  once : inbound.order.bookSide = .buy → ∀ b, s.engine.getBook inbound.order.symbolId = some b →
    (∀ ask ∈ b.restingOrders .sell, inbound.order.price ≤ ask.price)
      ∨ inbound.order.MeetsOwn (b.restingOrders .sell)

variable {s : Exchange} {inbound : InboundMessage}

/-- There is room for the margin of an order. -/
theorem hasRoom_iff {o : Order} {sym : Fin NUM_SYMBOLS} {a : Account}
    (hside : o.getSide = some o.bookSide) (hsym : symIdx o.symbolId = some sym)
    (ha : s.risk.accounts o.userId = some a) :
  a.HasRoom sym o
    ↔ ∀ c, (s.risk.locked o.userId c).toNat + o.margin o.qty.toNat o.userId c < 2 ^ 64
  := by
  have hlocked : ∀ c, s.risk.locked o.userId c = a.locked c := by
    intro c
    rw [RiskEngine.locked, ha]
    rfl
  have hother : ∀ c, c ≠ o.bookSide.coin sym →
      (a.locked c).toNat + o.margin o.qty.toNat o.userId c < 2 ^ 64 := by
    intro c hc
    have hnone : o.margin o.qty.toNat o.userId c = 0 := by
      apply if_neg
      rw [hsym]
      exact fun h => hc (Option.some.inj h.2).symm
    rw [hnone]
    apply UInt64.toNat_lt
  have hmargin : o.margin o.qty.toNat o.userId (o.bookSide.coin sym) = o.rate * o.qty.toNat := by
    rw [Order.margin, hsym]
    exact if_pos ⟨rfl, rfl⟩
  have hcoin : (∀ c, (s.risk.locked o.userId c).toNat + o.margin o.qty.toNat o.userId c < 2 ^ 64)
      ↔ (a.locked (o.bookSide.coin sym)).toNat + o.rate * o.qty.toNat < 2 ^ 64 := by
    simp only [hlocked]
    constructor
    · intro h
      have hroom := h (o.bookSide.coin sym)
      rwa [hmargin] at hroom
    · intro h c
      by_cases hc : c = o.bookSide.coin sym
      · rw [hc, hmargin]
        apply h
      · apply hother c hc
  rw [hcoin, Account.HasRoom, hside, Order.rate]
  cases o.bookSide with
  | buy => simp [Side.coin, Account.locked]
  | sell => simp [Side.coin, Account.locked]

theorem settledOnce_iff {sym : Fin NUM_SYMBOLS} {a : Account}
    (hsym : symIdx inbound.order.symbolId = some sym)
    (ha : s.risk.accounts inbound.order.userId = some a) :
  s.SettledOnce inbound
    ↔ a.HasRoom sym inbound.order
      ∧ (inbound.order.bookSide = .buy →
        (∀ ask ∈ (s.engine.books sym).restingOrders .sell, inbound.order.price ≤ ask.price)
          ∨ inbound.order.MeetsOwn ((s.engine.books sym).restingOrders .sell))
  := by
  have hgetBook : s.engine.getBook inbound.order.symbolId = some (s.engine.books sym) := by
    rw [MultiAssetEngine.getBook, hsym]
    rfl
  constructor
  · exact fun h => ⟨h.room sym a hsym ha, fun hbuy => h.once hbuy _ hgetBook⟩
  · rintro ⟨hroom, honce⟩
    constructor
    · intro sym' a' hsym' ha'
      obtain rfl := Option.some.inj (hsym.symm.trans hsym')
      obtain rfl := Option.some.inj (ha.symm.trans ha')
      apply hroom
    · intro hbuy b hb
      obtain rfl := Option.some.inj (hgetBook.symm.trans hb)
      apply honce hbuy

/-- An order that sells has no budget to be given back. -/
theorem paysCap_iff_restingOrders {b : OrderBook} {L : Layout} (h : b.HasLayout L)
    (hw : L.WellFormed) {o : Order} (hkind : o.kind = .market)
    (hprice : o.bookSide = .buy → o.price ≠ 0) (hqty : o.qty ≠ 0) (clientId : UInt64) :
  o.PaysCap (L.fills o clientId).trades (L.fills o clientId).stp
    ↔ (o.bookSide = .buy → (∀ ask ∈ b.restingOrders .sell, o.price ≤ ask.price)
      ∨ o.MeetsOwn (b.restingOrders .sell))
  := by
  rw [h.restingOrders_eq]
  by_cases hbuy : o.bookSide = .buy
  · rw [Layout.paysCap_iff hw hkind hbuy (hprice hbuy) hqty, List.forall_mem_map]
    exact ⟨fun h _ => h, fun h => h hbuy⟩
  · exact ⟨fun _ h => absurd h hbuy, fun _ _ h => absurd h hbuy⟩

/-- A market order whose margin is locked is settled exactly if there is room for its margin
and its budget is given back once; with fewer funds than a word holds, in numbers as well as
in words. -/
theorem settles_iff (h : s.Reachable) {us : Finset UInt64}
    (hus : ∀ u, (s.risk.accounts u).isSome ↔ u ∈ us)
    (hcovered : ∀ u a, s.risk.accounts u = some a →
      ∀ c, (a.locked c).toNat = s.engine.reserved u c)
    (hkind : inbound.order.kind = .market) (hside : inbound.order.getSide.isSome)
    {risk : RiskEngine} (hlock : s.risk.lockOrderFunds inbound.order = .ok risk) :
  (s.risk.Settles (s.handle inbound).state.risk us inbound.order.userId (s.handle inbound).trades
        (2 ^ 64)
      ↔ s.SettledOnce inbound)
    ∧ ((∀ c, ∑ u ∈ us, s.risk.funds u c < 2 ^ 64) →
      (s.risk.Settles (s.handle inbound).state.risk us inbound.order.userId
          (s.handle inbound).trades 0
        ↔ s.SettledOnce inbound))
  := by
  have hcancel : inbound.order.kind ≠ .cancel := Order.ne_cancel (Or.inr hkind)
  obtain ⟨E, hsound⟩ := h.exists_sound
  have hE : s.Covered E us := by
    refine ⟨hsound, hus, fun u hu c => ?_⟩
    obtain ⟨a, ha⟩ := Option.isSome_iff_exists.mp ((hus u).mpr hu)
    rw [RiskEngine.locked, ha, ← hsound.layouts.reserved_eq]
    apply hcovered u a ha
  have hlocked := RiskEngine.locked_of_ok hcancel hlock
  obtain ⟨sym, hsym⟩ := hlocked.exists_sym
  obtain ⟨a, ha⟩ := hlocked.exists_account
  obtain ⟨o, e', ho, heq, -⟩ := processed_eq hsound.layouts hcancel hsym
  have ho' : o = { inbound.order with id := o.id } := by
    rw [ho]
  obtain ⟨hstate, htrades⟩ := handle_of_lock hcancel hlock ho' heq
  rw [← s.risk.lockOrderFunds_congr ho'] at hlock
  have hgetSide : inbound.order.getSide = some inbound.order.bookSide :=
    Order.getSide_eq_bookSide hside
  -- the order under its identifier is like the order of the message
  have huser : o.userId = inbound.order.userId := by
    rw [ho]
  have hkindo : o.kind = .market := by
    rw [ho]
    apply hkind
  have hsideo : o.getSide = some o.bookSide := by
    rw [ho]
    apply hgetSide
  have hsymo : symIdx o.symbolId = some sym := by
    rw [ho]
    apply hsym
  have honce : s.SettledOnce inbound
      ↔ (∀ c, (s.risk.locked o.userId c).toNat + o.margin o.qty.toNat o.userId c < 2 ^ 64)
        ∧ o.PaysCap ((E sym).fills o inbound.clientId).trades
          ((E sym).fills o inbound.clientId).stp := by
    have hprice : o.bookSide = .buy → o.price ≠ 0 := by
      rw [ho]
      exact hlocked.price_ne hgetSide
    have hqty : o.qty ≠ 0 := by
      rw [ho]
      exact hlocked.qty_ne
    rw [settledOnce_iff hsym ha, hasRoom_iff hgetSide hsym ha,
      paysCap_iff_restingOrders (hsound.layouts.hasLayout sym) (hsound.layouts.wellFormed sym)
        hkindo hprice hqty, ho]
    rfl
  rw [hstate, htrades, honce, ← huser]
  have hback := fun hcap hroom => hE.settles hkindo hsideo hsymo hlock inbound.clientId hcap hroom
  have hforth := fun hsettles =>
    And.intro (fun c => hE.room_of_settles hkindo hsideo hlock inbound.clientId hsettles hsymo c)
      (hE.paysCap_of_settles hkindo hsideo hsymo hlock inbound.clientId hsettles)
  refine ⟨⟨hforth, fun h => (hback h.2 h.1).1⟩, fun hfunds =>
    ⟨fun h => hforth h.of_zero, fun h => (hback h.2 h.1).2 hfunds⟩⟩

/-- In a solvent exchange every account has locked what its resting orders come to. -/
theorem Solvent.locked_eq_reserved {E : Fin NUM_SYMBOLS → Layout} {us : Finset UInt64}
    {start : UInt64 → Coin → Nat} {trades : List Trade} (h : s.Solvent E us start trades)
    {u : UInt64} {a : Account} (ha : s.risk.accounts u = some a) (c : Coin) :
  (a.locked c).toNat = s.engine.reserved u c
  := by
  have hu := (h.keeps.account_iff u).mp (by rw [ha]; rfl)
  rw [h.sound.layouts.reserved_eq, ← h.locked_eq u hu c, RiskEngine.locked, ha]
  rfl

theorem reachable_fund (fs : List Funding) :
  (fund fs).Reachable
  := by
  induction fs using List.reverseRecOn with
  | nil => exact Reachable.new
  | append_singleton fs f ih =>
      rw [fund_concat]
      apply ih.deposit

/-- The seller asks for 90. -/
def restingAsk : Exchange :=
  ((fund twoTraders).run [⟨Order.newClientLimit 1 2 .btc .sell 90 5, 8⟩]).state

theorem solvent_restingAsk :
  ∃ E trades, restingAsk.Solvent E (depositors twoTraders) (deposited twoTraders) trades
  := by
  have hmargined : ∀ inbound ∈ [⟨Order.newClientLimit 1 2 .btc .sell 90 5, 8⟩],
      InboundMessage.Margined inbound := by
    simp only [List.forall_mem_cons, InboundMessage.Margined]
    decide
  obtain ⟨E, h⟩ := (solvent_fund totalDeposited_twoTraders_lt).run hmargined
  exact ⟨E, _, h⟩

/-- A market order of the buyer for three units, at most at `price`. -/
def cappedBid (price : UInt64) : InboundMessage := ⟨Order.newMarket 0 1 .btc .buy 3 price, 7⟩

theorem exists_lock_cappedBid {price : UInt64}
    (h : (restingAsk.risk.lockOrderFunds (cappedBid price).order).isOk = true) :
  ∃ risk, restingAsk.risk.lockOrderFunds (cappedBid price).order = .ok risk
  := by
  cases hlock : restingAsk.risk.lockOrderFunds (cappedBid price).order with
  | error reason =>
      rw [hlock] at h
      contradiction
  | ok risk => exact ⟨risk, rfl⟩

/-- At the price of the ask, the order is settled. -/
theorem settles_cappedBid :
  restingAsk.risk.Settles (restingAsk.handle (cappedBid 90)).state.risk (depositors twoTraders) 1
    (restingAsk.handle (cappedBid 90)).trades (2 ^ 64)
  := by
  obtain ⟨E, trades, h⟩ := solvent_restingAsk
  obtain ⟨risk, hlock⟩ := @exists_lock_cappedBid 90 (by decide +kernel)
  apply (settles_iff ((reachable_fund twoTraders).run _) h.keeps.account_iff
    (fun u a ha c => h.locked_eq_reserved ha c) rfl rfl hlock).1.mpr
  constructor
  · intro sym a hsym ha
    apply (hasRoom_iff rfl hsym ha).mpr
    intro c
    cases c with
    | usd => decide +kernel
    | asset s =>
        revert s
        decide +kernel
  · intro _ b hb
    obtain rfl := Option.some.inj hb
    exact Or.inl (by decide +kernel)

/-- At a higher cap the saving is given back twice. -/
theorem not_settles_cappedBid :
  ¬ ∀ {s : Exchange}, s.Reachable → ∀ {us : Finset UInt64},
    (∀ u, (s.risk.accounts u).isSome ↔ u ∈ us)
    → (∀ u a, s.risk.accounts u = some a → ∀ c, (a.locked c).toNat = s.engine.reserved u c)
    → ∀ {inbound : InboundMessage}, inbound.order.kind = .market → inbound.order.getSide.isSome
    → ∀ {risk : RiskEngine}, s.risk.lockOrderFunds inbound.order = .ok risk
    → s.risk.Settles (s.handle inbound).state.risk us inbound.order.userId
        (s.handle inbound).trades (2 ^ 64)
  := by
  intro hall
  obtain ⟨E, trades, h⟩ := solvent_restingAsk
  obtain ⟨risk, hlock⟩ := @exists_lock_cappedBid 100 (by decide +kernel)
  have hsettles := hall ((reachable_fund twoTraders).run _) h.keeps.account_iff
    (fun u a ha c => h.locked_eq_reserved ha c) rfl rfl hlock
  have havailable := hsettles.available .usd
  revert havailable
  decide +kernel

end Exchange

end LimitOrderBook
