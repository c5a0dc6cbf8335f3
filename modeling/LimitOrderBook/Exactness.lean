import LimitOrderBook.Matching

/-!
# The order indices are exact

The order index of a book knows each resting order under its identifier and nothing else, as
long as no two orders go by one identifier.  A book stamps an order that comes without one;
its stamps are new until its counter has run through all 64-bit words.
-/

namespace LimitOrderBook

/-! ### Keys -/

section

variable {α κ ν : Type} {f : α → κ} {g : α → ν} {es es' gone : List α} {ix ix' : κ → Option ν}

/-- An index answers `g e` under the key `f e` of each element of a list, and the keys are
distinct. -/
structure Keyed (f : α → κ) (g : α → ν) (es : List α) (ix : κ → Option ν) : Prop where
  nodup : (es.map f).Nodup
  eq_some : ∀ e ∈ es, ix (f e) = some (g e)

/-- Elements leave the list, and their keys the index. -/
theorem Keyed.erase (h : Keyed f g es ix) (hperm : es.Perm (gone ++ es'))
    (hix : ∀ e ∈ es', f e ∉ gone.map f → ix' (f e) = ix (f e)) :
  Keyed f g es' ix'
  := by
  have hnodup := (hperm.map f).nodup_iff.mp h.nodup
  rw [List.map_append] at hnodup
  obtain ⟨-, hnodup', hdisj⟩ := List.nodup_append.mp hnodup
  refine ⟨hnodup', ?_⟩
  intro e he
  rw [hix e he (fun hgone => hdisj _ hgone _ (List.mem_map_of_mem he) rfl)]
  apply h.eq_some e (hperm.mem_iff.mpr (List.mem_append_right _ he))

/-- An element joins the list under a new key. -/
theorem Keyed.insert {e : α} (h : Keyed f g es ix) (hperm : es'.Perm (e :: es))
    (hnew : f e ∉ es.map f) (hself : ix' (f e) = some (g e)) (hix : ∀ k, k ≠ f e → ix' k = ix k) :
  Keyed f g es' ix'
  := by
  constructor
  · apply (hperm.map f).nodup_iff.mpr
    rw [List.map_cons, List.nodup_cons]
    exact ⟨hnew, h.nodup⟩
  · intro e' he'
    rcases List.mem_cons.mp (hperm.mem_iff.mp he') with rfl | he'
    · apply hself
    · rw [hix, h.eq_some e' he']
      intro heq
      apply hnew
      rw [← heq]
      apply List.mem_map_of_mem he'

end

/-! ### The entries of a layout -/

namespace Layout

/-- Two layouts have the same orders at rest and in their indices. -/
structure SameOrders (L L' : Layout) : Prop where
  ladder : L.ladder = L'.ladder
  orderIndex : L.orderIndex = L'.orderIndex
  clientIndex : L.clientIndex = L'.clientIndex

/-- Layouts of the same orders have the same entries. -/
theorem SameOrders.entries {L L' : Layout} (h : L.SameOrders L') :
  L.entries = L'.entries
  := by
  unfold Layout.entries levels
  rw [h.ladder]

/-- An order that is processed comes to rest when it has been matched, or it leaves the orders as
they are then. -/
theorem Processed.taken_or_put {L L' : Layout} {o : Order} {clientId : UInt64}
    {res : Except RejectReason ExecutionReport} (h : L.Processed o clientId res L') :
  ¬ (L.Rests o clientId ∧ res.isOk = true) ∧ L'.SameOrders (L.taken o clientId)
    ∨ (L.Rests o clientId ∧ res.isOk = true)
      ∧ ∃ (i j : Nat) (L₁ : Layout), L₁.SameOrders (L.taken o clientId)
        ∧ L' = L₁.put ⟨i, (L.fills o clientId).taker, clientId⟩ j
  := by
  cases h with
  | done h => exact Or.inl ⟨fun hrests => h hrests.1, rfl, rfl, rfl⟩
  | full => exact Or.inl ⟨fun hrests => Bool.false_ne_true hrests.2, rfl, rfl, rfl⟩
  | joined h =>
      refine Or.inr ⟨⟨h, rfl⟩, _, _, _, ?_, rfl⟩
      exact ⟨rfl, rfl, rfl⟩
  | lost => exact Or.inl ⟨fun hrests => Bool.false_ne_true hrests.2, rfl, rfl, rfl⟩
  | opened h =>
      refine Or.inr ⟨⟨h, rfl⟩, _, _, _, ?_, rfl⟩
      exact ⟨rfl, rfl, rfl⟩

/-- The entries on the two sides of a layout of which one ladder has changed. -/
theorem entries_perm_of_update {L L' : Layout} {s : Side} {ls : List Level}
    (h : L'.ladder = Function.update L.ladder s ls) :
  L'.entries.Perm ((restingOf ls).map Resting.entry
    ++ (L.resting s.opposite).map Resting.entry)
  := by
  have hperm := ((levels_perm_of_update h).flatMap_right (·.queue)).map Resting.entry
  rw [List.flatMap_append, List.map_append] at hperm
  apply hperm

/-- The entries are those of the one side and those of the other. -/
theorem entries_perm (L : Layout) (s : Side) :
  L.entries.Perm ((L.resting s).map Resting.entry ++ (L.resting s.opposite).map Resting.entry)
  := L.entries_perm_of_update (Function.update_eq_self s L.ladder).symm

namespace WellFormed

variable {L : Layout} {r : Resting}

/-- What a taker does to a ladder, it does to the orders of the ladder in turn. -/
theorem fills_eq (hw : L.WellFormed) (o : Order) (clientId : UInt64) :
  matchOrders (o.accepts o.takesFrom) clientId (L.stamped o) L.tradeIdCounter
      (L.resting o.takesFrom)
    = ⟨(L.fills o clientId).taker, restingOf (L.fills o clientId).ladder,
        (L.fills o clientId).filled, (L.fills o clientId).trades, (L.fills o clientId).nextId,
        (L.fills o clientId).stp⟩
  := matchLadder_matchOrders _ _ _ _ (hw.levels_wf o.takesFrom)

/-- Matching loses the entries of the filled orders alone. -/
theorem entries_taken (hw : L.WellFormed) (o : Order) (clientId : UInt64) :
  L.entries.Perm
    ((L.fills o clientId).filled.map Resting.entry ++ (L.taken o clientId).entries)
  := by
  have hmatch := entries_matchOrders (o.accepts o.takesFrom) clientId (L.stamped o)
    L.tradeIdCounter (L.resting o.takesFrom)
  rw [hw.fills_eq] at hmatch
  have hL' : (L.taken o clientId).ladder
      = Function.update L.ladder o.takesFrom (L.fills o clientId).ladder := rfl
  have hafter := entries_perm_of_update hL'
  apply (L.entries_perm o.takesFrom).trans
  rw [hmatch, List.append_assoc]
  apply List.Perm.append_left _ hafter.symm

/-- Filing an order adds its entry alone. -/
theorem entries_put (hw : L.WellFormed) (r : Resting) (j : Nat) :
  (L.put r j).entries.Perm (r.entry :: L.entries)
  := by
  have hL' : (L.put r j).ladder = Function.update L.ladder r.order.bookSide
      (restLadder r.order.bookSide r j (L.ladder r.order.bookSide)) := rfl
  have hput := (perm_restLadder (r := r) j (hw.sorted r.order.bookSide)).map Resting.entry
  apply (entries_perm_of_update hL').trans
  apply (hput.append_right _).trans
  rw [List.map_cons, List.cons_append]
  apply (L.entries_perm r.order.bookSide).symm.cons

/-- Removing an order loses its entry alone. -/
theorem entries_remove (pl : L.Place) :
  L.entries.Perm (pl.order.entry :: (L.remove pl).entries)
  := by
  have hL' : (L.remove pl).ladder
      = Function.update L.ladder pl.side (pl.above ++ pl.remains ++ pl.below) := rfl
  have hremove := (perm_remove pl).map Resting.entry
  apply (L.entries_perm pl.side).trans
  apply (hremove.append_right _).trans
  rw [List.map_cons, List.cons_append]
  apply (entries_perm_of_update hL').symm.cons

end WellFormed

/-! ### The two order indices -/

/-- An order index, as what it makes of the entries of the orders at rest. -/
structure Indexing (κ ν : Type) where
  key : FastIndexEntry → κ
  value : FastIndexEntry → ν
  index : Layout → κ → Option ν
  index_congr : ∀ {L L' : Layout}, L'.SameOrders L → index L' = index L
  index_taken : ∀ (L : Layout) (o : Order) (clientId : UInt64) (k : κ),
    k ∉ ((L.fills o clientId).filled.map Resting.entry).map key →
      index (L.taken o clientId) k = index L k
  index_put_self : ∀ (L : Layout) (r : Resting) (j : Nat),
    index (L.put r j) (key r.entry) = some (value r.entry)
  index_put_of_ne : ∀ (L : Layout) (r : Resting) (j : Nat) (k : κ), k ≠ key r.entry →
    index (L.put r j) k = index L k
  index_remove : ∀ (L : Layout) (pl : L.Place) (k : κ), k ≠ key pl.order.entry →
    index (L.remove pl) k = index L k

/-- The index knows the orders at rest under the keys of `K`, and no two have one of them. -/
def Indexing.KnowsIn {κ ν : Type} (I : Indexing κ ν) (K : κ → Bool) (L : Layout) : Prop :=
  Keyed I.key I.value (L.entries.filter fun e => K (I.key e)) (I.index L)

/-- The index knows each order at rest, and no two have one key. -/
def Indexing.Knows {κ ν : Type} (I : Indexing κ ν) (L : Layout) : Prop :=
  Keyed I.key I.value L.entries (I.index L)

namespace Indexing

variable {κ ν : Type} {I : Indexing κ ν} {K : κ → Bool} {L L' : Layout}

/-- Knowing every key is knowing the layout. -/
theorem knowsIn_true :
  I.KnowsIn (fun _ => true) L ↔ I.Knows L
  := by
  rw [KnowsIn, Knows, List.filter_true]

namespace KnowsIn

/-- The empty layout has nothing to know. -/
theorem new :
  I.KnowsIn K Layout.new
  := ⟨List.nodup_nil, fun _ he => nomatch he⟩

theorem congr (h : I.KnowsIn K L) (hsame : L'.SameOrders L) :
  I.KnowsIn K L'
  := by
  unfold KnowsIn
  rw [hsame.entries, I.index_congr hsame]
  apply h

/-- The orders under keys of `K` that leave the book. -/
theorem erase (h : I.KnowsIn K L) {gone : List FastIndexEntry}
    (hperm : L.entries.Perm (gone ++ L'.entries))
    (hix : ∀ k, k ∉ gone.map I.key → I.index L' k = I.index L k) :
  I.KnowsIn K L'
  := by
  have hperm' := hperm.filter fun e => K (I.key e)
  rw [List.filter_append] at hperm'
  apply Keyed.erase h hperm'
  intro e he hgone
  apply hix
  intro hmem
  obtain ⟨e', he', heq⟩ := List.mem_map.mp hmem
  apply hgone
  rw [← heq]
  apply List.mem_map_of_mem
  rw [List.mem_filter, heq]
  exact ⟨he', (List.mem_filter.mp he).2⟩

/-- Matching keeps what is known. -/
theorem taken (h : I.KnowsIn K L) (hw : L.WellFormed) (o : Order) (clientId : UInt64) :
  I.KnowsIn K (L.taken o clientId)
  := by
  apply h.erase (hw.entries_taken o clientId)
  apply I.index_taken

/-- Removing an order keeps what is known. -/
theorem remove (h : I.KnowsIn K L) (pl : L.Place) :
  I.KnowsIn K (L.remove pl)
  := by
  have hperm : L.entries.Perm ([pl.order.entry] ++ (L.remove pl).entries) :=
    WellFormed.entries_remove pl
  apply h.erase hperm
  intro k hk
  rw [List.map_singleton, List.mem_singleton] at hk
  apply I.index_remove L pl k hk

/-- Filing an order under a fresh key keeps what is known. -/
theorem put (h : I.KnowsIn K L) (hw : L.WellFormed) {r : Resting}
    (hnew : K (I.key r.entry) = true → ∀ e ∈ L.entries, I.key e ≠ I.key r.entry) (j : Nat) :
  I.KnowsIn K (L.put r j)
  := by
  have hperm := (hw.entries_put r j).filter fun e => K (I.key e)
  by_cases hK : K (I.key r.entry) = true
  · rw [List.filter_cons, if_pos hK] at hperm
    apply Keyed.insert h hperm
    · intro hmem
      obtain ⟨e, he, heq⟩ := List.mem_map.mp hmem
      apply hnew hK e (List.mem_of_mem_filter he) heq
    · apply I.index_put_self
    · apply I.index_put_of_ne
  · rw [List.filter_cons, if_neg hK] at hperm
    have hperm' : (L.entries.filter fun e => K (I.key e)).Perm
        ([] ++ (L.put r j).entries.filter fun e => K (I.key e)) := hperm.symm
    apply Keyed.erase h hperm'
    intro e he _
    apply I.index_put_of_ne
    intro heq
    apply hK
    rw [← heq]
    exact (List.mem_filter.mp he).2

/-- Processing an order keeps an index that knows the orders at rest under the keys of `K`, if
the order does not come to rest under one of them that is in use. -/
theorem processed {o : Order} {clientId : UInt64} {res : Except RejectReason ExecutionReport}
    (h : I.KnowsIn K L) (hw : L.WellFormed) (hprocessed : L.Processed o clientId res L')
    (hnew : L.Rests o clientId ∧ res.isOk = true → ∀ i,
      K (I.key (Resting.entry ⟨i, (L.fills o clientId).taker, clientId⟩)) = true →
      ∀ e ∈ (L.taken o clientId).entries,
        I.key e ≠ I.key (Resting.entry ⟨i, (L.fills o clientId).taker, clientId⟩)) :
  I.KnowsIn K L'
  := by
  rcases hprocessed.taken_or_put with ⟨-, hsame⟩ | ⟨hrests, i, j, L₁, hsame, rfl⟩
  · apply (h.taken hw o clientId).congr hsame
  · have h₁ := (h.taken hw o clientId).congr hsame
    have hw₁ := (hw.taken o clientId).congr hsame.ladder hsame.orderIndex hsame.clientIndex
    apply h₁.put hw₁
    intro hK e he
    rw [hsame.entries] at he
    apply hnew hrests i hK e he

end KnowsIn

end Indexing

/-- The index of exchange identifiers. -/
def byOrderId : Indexing UInt64 FastIndexEntry where
  key := FastIndexEntry.orderId
  value e := e
  index := Layout.orderIndex
  index_congr h := h.orderIndex
  index_taken L o clientId k hk := by
    rw [List.map_map] at hk
    apply if_neg hk
  index_put_self _ _ _ := if_pos rfl
  index_put_of_ne _ _ _ _ hk := if_neg hk
  index_remove _ _ _ hk := if_neg hk

/-- The index of client identifiers. -/
def byClientKey : Indexing (UInt64 × UInt64) UInt64 where
  key e := (e.userId, e.clientOrderId)
  value := FastIndexEntry.orderId
  index L k := L.clientIndex k.1 k.2
  index_congr h := by rw [h.clientIndex]
  index_taken L o clientId k hk := by
    rw [List.map_map] at hk
    apply if_neg hk
  index_put_self _ _ _ := if_pos rfl
  index_put_of_ne _ _ _ _ hk := if_neg hk
  index_remove _ _ _ hk := if_neg hk

/-- What is left of an order that has been matched keeps its identifiers. -/
theorem entry_taker (L : Layout) (o : Order) (clientId : UInt64) (i : Nat) :
  Resting.entry ⟨i, (L.fills o clientId).taker, clientId⟩
    = ⟨L.stamp o, o.clientOrderId, o.userId, o.price, i, o.side, true⟩
  := by
  unfold Resting.entry
  rw [taker_fills]

end Layout

/-! ### The identifiers of a run -/

namespace OrderBook

/-- The identifier the order of a call goes by, unless the call is a cancel. -/
def usedId (b : OrderBook) : Call → Option UInt64
  | .process o _ _ => if o.kind = .cancel then none else some (b.stampId o).1.id
  | .cancelOrder _ _ => none

/-- The identifiers the orders of a sequence of calls go by. -/
def usedIds (b : OrderBook) : List Call → List UInt64
  | [] => []
  | c :: cs => (b.usedId c).toList ++ (b.call c).usedIds cs

theorem usedIds_concat (b : OrderBook) (cs : List Call) (c : Call) :
  b.usedIds (cs ++ [c]) = b.usedIds cs ++ ((b.calls cs).usedId c).toList
  := by
  induction cs generalizing b with
  | nil =>
      simp only [List.nil_append, usedIds, List.append_nil]
      rfl
  | cons c' cs ih =>
      rw [List.cons_append, usedIds, usedIds, ih, List.append_assoc]
      rfl

/-- An order that is processed uses the id it is stamped with. -/
theorem usedId_process (b : OrderBook) {o : Order} (hkind : o.kind ≠ .cancel) (clientId : UInt64)
    (trades : List Trade) :
  b.usedId (.process o clientId trades) = some (b.stampId o).1.id
  := if_neg hkind

/-- A cancel uses no id. -/
theorem usedId_of_cancels (b : OrderBook) {c : Call} (h : c.Cancels) :
  b.usedId c = none
  := by
  cases c with
  | process o clientId trades => exact if_pos h
  | cancelOrder => rfl

/-- The order of a call comes without an identifier or with one that is not in use. -/
def arrivesFresh (used : List UInt64) : Call → Bool
  | .process o _ _ => o.kind == .cancel || o.id == 0 || !used.contains o.id
  | .cancelOrder _ _ => true

/-- Every order of the calls comes without an identifier or with one that no order before it
went by; `used` are the ones before the calls. -/
def arriveFresh (b : OrderBook) (used : List UInt64) : List Call → Bool
  | [] => true
  | c :: cs =>
      arrivesFresh used c && (b.call c).arriveFresh (used ++ (b.usedId c).toList) cs

namespace HasLayout

variable {b : OrderBook} {L : Layout}

/-- The book stamps the id that its layout stamps. -/
theorem stampId_id (h : b.HasLayout L) (o : Order) :
  (b.stampId o).1.id = L.stamp o
  := by
  rw [(h.stampId_eq o).1, L.stampId_eq]
  rfl

end HasLayout

end OrderBook

/-- The counter of a layout is past the identifiers that were used, after a step too, unless
the order of the step has the last identifier there is. -/
theorem Layout.lt_nextOrderId {L : Layout} {o : Order} (hstamp : L.stamp o ≠ 0xFFFFFFFFFFFFFFFF)
    {k : UInt64} (hk : k < L.orderIdCounter ∨ k = L.stamp o) :
  k < L.nextOrderId o
  := by
  unfold stamp at hstamp hk
  unfold nextOrderId
  have hsucc : ∀ i : UInt64, i ≠ 0xFFFFFFFFFFFFFFFF → i < i + 1 := by
    intro i hi
    have hlt := i.toNat_lt
    rw [ne_eq, ← UInt64.toNat_inj] at hi
    simp only [UInt64.lt_iff_toNat_lt, UInt64.toNat_add, UInt64.reduceToNat] at hi ⊢
    omega
  split at hstamp
  · next hid =>
      rw [if_pos hid] at hk ⊢
      rcases hk with hk | rfl
      · exact UInt64.lt_trans hk (hsucc _ hstamp)
      · apply hsucc _ hstamp
  · next hid =>
      rw [if_neg hid] at hk ⊢
      have hmax : ∀ x y : UInt64, x ≤ max x y ∧ y ≤ max x y := by
        intro x y
        have heq : max x y = if x ≤ y then y else x := rfl
        rw [heq]
        split
        · next hle => exact ⟨hle, UInt64.le_refl _⟩
        · next hle => exact ⟨UInt64.le_refl _, UInt64.le_of_lt (UInt64.not_le.mp hle)⟩
      rcases hk with hk | rfl
      · exact UInt64.lt_of_lt_of_le hk (hmax _ _).1
      · exact UInt64.lt_of_lt_of_le (hsucc _ hstamp) (hmax _ _).2

/-- An order that arrives fresh goes by an identifier that is not in use. -/
theorem Layout.stamp_notMem {L : Layout} {o : Order} (hkind : o.kind ≠ .cancel)
    {used : List UInt64} (hlt : ∀ k ∈ used, k < L.orderIdCounter) {clientId : UInt64}
    {trades : List Trade} (hfresh : OrderBook.arrivesFresh used (.process o clientId trades)) :
  L.stamp o ∉ used
  := by
  intro hmem
  simp only [OrderBook.arrivesFresh, Bool.or_eq_true, beq_iff_eq, hkind, false_or,
    Bool.not_eq_true', List.contains_eq_mem, decide_eq_false_iff_not] at hfresh
  unfold stamp at hmem
  split at hmem
  · exact absurd (hlt _ hmem) (UInt64.lt_irrefl _)
  · next hid => exact hfresh.resolve_left hid hmem

/-- Processing an order moves the id counter past a fresh id. -/
theorem Layout.orderIdCounter_processed {L L' : Layout} {o : Order} {clientId : UInt64}
    {res : Except RejectReason ExecutionReport} (h : L.Processed o clientId res L') :
  L'.orderIdCounter = L.nextOrderId o
  := by
  cases h <;> rfl

namespace OrderBook

/-- Orders that arrive fresh go by distinct identifiers, until one goes by the last there
is. -/
theorem HasLayout.nodup_usedIds {b : OrderBook} {L : Layout} (h : b.HasLayout L)
    (hw : L.WellFormed) {used : List UInt64} (hused : used.Nodup)
    (hlt : ∀ k ∈ used, k < L.orderIdCounter) {cs : List Call} (hfresh : b.arriveFresh used cs)
    (hlast : 0xFFFFFFFFFFFFFFFF ∉ b.usedIds cs) :
  (used ++ b.usedIds cs).Nodup
  := by
  induction cs generalizing b L used with
  | nil =>
      rw [usedIds, List.append_nil]
      apply hused
  | cons c cs ih =>
      rw [arriveFresh, Bool.and_eq_true] at hfresh
      obtain ⟨hc, hfresh⟩ := hfresh
      rw [usedIds, List.mem_append, not_or] at hlast
      rw [usedIds, ← List.append_assoc]
      obtain ⟨L', h', hs⟩ := h.call hw c
      have hw' := hs.wellFormed hw
      have hcancels : c.Cancels → L'.orderIdCounter = L.orderIdCounter →
          (used ++ (b.usedId c).toList ++ (b.call c).usedIds cs).Nodup := by
        intro hcancel hcounter
        rw [b.usedId_of_cancels hcancel, Option.toList_none, List.append_nil] at hfresh ⊢
        apply ih h' hw' hused _ hfresh hlast.2
        rw [hcounter]
        apply hlt
      cases hs with
      | noCancel hcancel => exact hcancels hcancel rfl
      | cancel hcancel pl => exact hcancels hcancel rfl
      | @process o clientId trades hkind =>
          have hid := h.stampId_id o
          rw [usedId_process b hkind, hid, Option.toList_some] at hlast hfresh ⊢
          have hstamp : L.stamp o ≠ 0xFFFFFFFFFFFFFFFF := by
            intro heq
            apply hlast.1
            rw [heq]
            exact List.mem_singleton_self _
          have hcounter := Layout.orderIdCounter_processed (L.process_cases o clientId trades)
          have hnew := Layout.stamp_notMem hkind hlt hc
          apply ih h' hw' _ _ hfresh hlast.2
          · rw [List.nodup_append]
            refine ⟨hused, List.nodup_singleton _, ?_⟩
            rintro k hk _ hk' rfl
            rw [List.mem_singleton.mp hk'] at hk
            exact hnew hk
          · intro k hk
            rw [hcounter]
            apply Layout.lt_nextOrderId hstamp
            rcases List.mem_append.mp hk with hk | hk
            · exact Or.inl (hlt k hk)
            · exact Or.inr (List.mem_singleton.mp hk)

/-- Orders that arrive fresh go by distinct identifiers, until one goes by the last there
is. -/
theorem nodup_usedIds (symbol : Symbol) {cs : List Call}
    (hfresh : (OrderBook.new symbol).arriveFresh [] cs)
    (hlast : 0xFFFFFFFFFFFFFFFF ∉ (OrderBook.new symbol).usedIds cs) :
  ((OrderBook.new symbol).usedIds cs).Nodup
  := (HasLayout.new symbol).nodup_usedIds Layout.wellFormed_new List.nodup_nil
    (fun _ hk => nomatch hk) hfresh hlast

/-- The identifiers in use, and what the order index knows of them. -/
structure Identified (used : List UInt64) (L : Layout) : Prop where
  knows : Layout.byOrderId.Knows L
  used : ∀ e ∈ L.entries, e.orderId ∈ used

theorem Identified.new :
  Identified [] Layout.new
  := ⟨Layout.Indexing.knowsIn_true.mp .new, fun _ he => nomatch he⟩

/-- A step whose order goes by a new identifier keeps the order index exact. -/
theorem Identified.step {b : OrderBook} {L L' : Layout} {used : List UInt64} {c : Call}
    (hid : Identified used L) (h : b.HasLayout L) (hw : L.WellFormed)
    (hnew : (used ++ (b.usedId c).toList).Nodup) (hs : L.Step c L') :
  Identified (used ++ (b.usedId c).toList) L'
  := by
  obtain ⟨hknows, hmem⟩ := hid
  rw [← Layout.Indexing.knowsIn_true] at hknows
  cases hs with
  | @process o clientId trades hkind =>
      have hprocessed := L.process_cases o clientId trades
      rw [usedId_process _ hkind, h.stampId_id, Option.toList_some] at hnew ⊢
      obtain ⟨-, -, hnew⟩ := List.nodup_append.mp hnew
      have htaken : ∀ e ∈ (L.taken o clientId).entries, e ∈ L.entries := fun e he =>
        (hw.entries_taken o clientId).mem_iff.mpr (List.mem_append_right _ he)
      refine ⟨Layout.Indexing.knowsIn_true.mp (hknows.processed hw hprocessed ?_), ?_⟩
      · intro _ i _ e he
        rw [Layout.entry_taker]
        exact hnew _ (hmem e (htaken e he)) _ (List.mem_singleton_self _)
      · intro e he
        rcases hprocessed.taken_or_put with ⟨-, hsame⟩ | ⟨-, i, j, L₁, hsame, heq⟩
        · rw [hsame.entries] at he
          apply List.mem_append_left _ (hmem e (htaken e he))
        · rw [heq] at he
          have hw₁ := (hw.taken o clientId).congr hsame.ladder hsame.orderIndex
            hsame.clientIndex
          rcases List.mem_cons.mp ((hw₁.entries_put _ j).mem_iff.mp he) with rfl | he
          · rw [Layout.entry_taker]
            apply List.mem_append_right _ (List.mem_singleton_self _)
          · rw [hsame.entries] at he
            apply List.mem_append_left _ (hmem e (htaken e he))
  | noCancel =>
      exact ⟨Layout.Indexing.knowsIn_true.mp hknows,
        fun e he => List.mem_append_left _ (hmem e he)⟩
  | cancel _ pl =>
      refine ⟨Layout.Indexing.knowsIn_true.mp (hknows.remove pl),
        fun e he => List.mem_append_left _ (hmem e ?_)⟩
      apply (Layout.WellFormed.entries_remove pl).mem_iff.mpr (List.mem_cons_of_mem _ he)

/-- Distinct ids were distinct before the last call. -/
theorem nodup_of_usedIds_concat {b : OrderBook} {cs : List Call} {c : Call}
    (h : (b.usedIds (cs ++ [c])).Nodup) :
  (b.usedIds cs).Nodup
  := by
  rw [usedIds_concat] at h
  apply (List.nodup_append.mp h).1

/-- The run rule for orders under distinct identifiers. -/
theorem identified_calls (symbol : Symbol) (cs : List Call)
    (hids : ((OrderBook.new symbol).usedIds cs).Nodup) :
  ∃ L, ((OrderBook.new symbol).calls cs).HasLayout L ∧ L.WellFormed
    ∧ Identified ((OrderBook.new symbol).usedIds cs) L
  := by
  obtain ⟨L, h, hw, hP⟩ := calls_induction symbol
    (P := fun cs L => ((OrderBook.new symbol).usedIds cs).Nodup
      → Identified ((OrderBook.new symbol).usedIds cs) L)
    (fun _ => .new)
    (by
      intro cs c L L' h hw hP _ _ hs hids
      have hid := hP (nodup_of_usedIds_concat hids)
      rw [usedIds_concat] at hids ⊢
      apply hid.step h hw hids hs)
    cs
  exact ⟨L, h, hw, hP hids⟩

/-! ### Exact indices -/

/-- The order index knows the resting orders and no others, an entry of the client index
leads to a resting order of that user and client identifier, and no entry a cancel finds is
stale. -/
structure IndexExact (b : OrderBook) : Prop where
  indexed : ∀ k ∈ b.orderSlots,
    let o := (b.orderArena.nodes k).order
    b.orderIndex.lookup o.id = some ⟨o.id, o.clientOrderId, o.userId, o.price, k, o.side, true⟩
  resting : ∀ id entry, b.orderIndex.lookup id = some entry →
    entry.nodeIdx ∈ b.orderSlots ∧ (b.orderArena.nodes entry.nodeIdx).order.id = id
  client : ∀ u c id, b.clientOrderIndex.lookup u c = some id →
    ∃ k ∈ b.orderSlots,
      let o := (b.orderArena.nodes k).order
      o.id = id ∧ o.userId = u ∧ o.clientOrderId = c
  not_stale : ∀ u k entry, b.findEntry u k = .ok entry →
    (b.orderArena.nodes entry.nodeIdx).active = true
      ∧ (b.orderArena.nodes entry.nodeIdx).order.id = entry.orderId

namespace HasLayout

variable {b : OrderBook} {L : Layout}

/-- An order slot of the book is the slot of a resting order. -/
theorem exists_resting (h : b.HasLayout L) {k : Nat} (hk : k ∈ b.orderSlots) :
  ∃ r ∈ restingOf L.levels, r.slot = k ∧ (b.orderArena.nodes k).order = r.order
  := by
  rw [h.orderSlots_eq] at hk
  obtain ⟨r, hr, rfl⟩ := List.mem_map.mp hk
  obtain ⟨l, hl, hrl⟩ := mem_restingOf.mp hr
  exact ⟨r, hr, rfl, (h.stored hl).order_eq r hrl⟩

/-- The entry of a resting order leads to the order. -/
theorem of_mem_entries (h : b.HasLayout L) {e : FastIndexEntry} (he : e ∈ L.entries) :
  e.nodeIdx ∈ b.orderSlots ∧ (b.orderArena.nodes e.nodeIdx).active = true
    ∧ e = Resting.entry ⟨e.nodeIdx, (b.orderArena.nodes e.nodeIdx).order, 0⟩
  := by
  obtain ⟨r, hr, rfl⟩ := List.mem_map.mp he
  obtain ⟨l, hl, hrl⟩ := mem_restingOf.mp hr
  have horder := (h.stored hl).order_eq r hrl
  refine ⟨?_, h.storage.orders.pool.used_active _ (h.storage.slot_mem_used hl hrl), ?_⟩
  · rw [h.orderSlots_eq]
    apply List.mem_map_of_mem hr
  · dsimp only [Resting.entry]
    rw [horder]

/-- A layout whose ids are known has an exact index. -/
theorem indexExact (h : b.HasLayout L) (hw : L.WellFormed) (hknows : Layout.byOrderId.Knows L) :
  b.IndexExact
  := by
  constructor
  · intro k hk
    obtain ⟨r, hr, rfl, horder⟩ := h.exists_resting hk
    rw [horder]
    dsimp only
    rw [h.orderIndex_eq]
    apply hknows.eq_some r.entry (List.mem_map_of_mem hr)
  · intro id entry hlookup
    rw [h.orderIndex_eq] at hlookup
    obtain ⟨he, rfl⟩ := hw.orderIndex_sound id entry hlookup
    obtain ⟨hslot, -, heq⟩ := h.of_mem_entries he
    exact ⟨hslot, (congrArg FastIndexEntry.orderId heq).symm⟩
  · intro u c id hlookup
    rw [h.clientIndex_eq] at hlookup
    obtain ⟨e, he, rfl, rfl, rfl⟩ := hw.clientIndex_sound u c id hlookup
    obtain ⟨hslot, -, heq⟩ := h.of_mem_entries he
    exact ⟨e.nodeIdx, hslot, (congrArg FastIndexEntry.orderId heq).symm,
      (congrArg FastIndexEntry.userId heq).symm,
      (congrArg FastIndexEntry.clientOrderId heq).symm⟩
  · intro u k entry hfind
    rw [h.findEntry_eq] at hfind
    obtain ⟨he, -⟩ := hw.findEntry_sound hfind
    obtain ⟨-, hactive, heq⟩ := h.of_mem_entries he
    exact ⟨hactive, (congrArg FastIndexEntry.orderId heq).symm⟩

end HasLayout

/-- The indices of a book whose orders went by distinct identifiers are exact. -/
theorem indexExact_calls (symbol : Symbol) (cs : List Call)
    (hids : ((OrderBook.new symbol).usedIds cs).Nodup) :
  ((OrderBook.new symbol).calls cs).IndexExact
  := by
  obtain ⟨L, h, hw, hid⟩ := identified_calls symbol cs hids
  apply h.indexExact hw hid.knows

/-- Two live orders of one user under one client identifier, the second of which is
cancelled. -/
def reusedClientId : List Call :=
  [.process (Order.newClientLimit 7 1 .btc .buy 100 5) 0 [],
    .process (Order.newClientLimit 7 1 .btc .buy 101 5) 0 [],
    .cancelOrder 1 7]

/-- The index stays exact though a client id is used again. -/
theorem indexExact_reusedClientId :
  ((OrderBook.new .btc).calls reusedClientId).IndexExact
  := indexExact_calls .btc reusedClientId (by decide +kernel)

/-- Three orders of which the last comes without an identifier and is stamped that of the
first: the second has moved the counter there. -/
def lastIds : List Call :=
  [.process (Order.newLimit 0xFFFFFFFFFFFFFFFF 1 .btc .buy 100 5) 0 [],
    .process (Order.newLimit 0xFFFFFFFFFFFFFFFE 1 .btc .buy 101 5) 0 [],
    .process (Order.newLimit 0 1 .btc .buy 102 5) 0 []]

/-- Orders that arrive fresh leave an index that is not exact, once the counter has come
round. -/
theorem not_indexExact_lastIds :
  (OrderBook.new .btc).arriveFresh [] lastIds = true
    ∧ ¬ ((OrderBook.new .btc).calls lastIds).IndexExact
  := by
  refine ⟨by decide +kernel, fun h => ?_⟩
  have hslot : 0 ∈ ((OrderBook.new .btc).calls lastIds).orderSlots := by decide +kernel
  have hlookup : (((OrderBook.new .btc).calls lastIds).orderIndex.lookup
      (((OrderBook.new .btc).calls lastIds).orderArena.nodes 0).order.id).map (·.nodeIdx)
      = some 2 := by decide +kernel
  rw [h.indexed 0 hslot] at hlookup
  exact absurd (Option.some.inj hlookup) (by decide)

end OrderBook

end LimitOrderBook
