import LimitOrderBook.Execution

/-!
# Who takes an order out of a book

A cancel that succeeds takes one order of the requesting user out of the book and moves no
other; one that fails leaves the book as it is.  So an order leaves the book in two ways only:
takers fill it, or its user cancels it (`OrderBook.leaves_or_stays`).
-/

namespace LimitOrderBook

/-- The order in slot `i` is out of the book, and the others are as they were. -/
structure OrderBook.Without (b b' : OrderBook) (s : Side) (i : Nat) : Prop where
  slots_eq : ∃ earlier later, b.restingSlots s = earlier ++ i :: later
    ∧ b'.restingSlots s = earlier ++ later
  opposite_eq : b'.restingSlots s.opposite = b.restingSlots s.opposite
  order_eq : ∀ s, ∀ k ∈ b'.restingSlots s,
    (b'.orderArena.nodes k).order = (b.orderArena.nodes k).order

/-! ### Places -/

namespace Layout

variable {L : Layout}

/-- The orders of a side, around the one at a place. -/
theorem Place.resting_eq (pl : L.Place) :
  L.resting pl.side
    = restingOf pl.above ++ pl.front ++ pl.order :: (pl.back ++ restingOf pl.below)
  := by
  rw [resting, pl.ladder_eq, restingOf_append, restingOf_cons, pl.queue_eq]
  simp only [List.append_assoc, List.cons_append]

/-- Removing an order leaves its side's others in sequence. -/
theorem resting_remove (pl : L.Place) :
  (L.remove pl).resting pl.side
    = restingOf pl.above ++ pl.front ++ (pl.back ++ restingOf pl.below)
  := by
  have hremains : restingOf pl.remains = pl.front ++ pl.back := by
    unfold Place.remains
    split
    · next hnil => rw [hnil, restingOf_nil]
    · simp
  unfold resting remove
  dsimp only
  rw [Function.update_self, restingOf_append, restingOf_append, hremains]
  simp only [List.append_assoc]

/-- Removing an order leaves the other side as it is. -/
theorem resting_remove_of_ne (pl : L.Place) {s : Side} (hs : s ≠ pl.side) :
  (L.remove pl).resting s = L.resting s
  := by
  unfold resting remove
  dsimp only
  rw [Function.update_of_ne hs]

end Layout

/-! ### One call -/

namespace OrderBook

namespace HasLayout

variable {b b' : OrderBook} {L L' : Layout} {s : Side}

/-- The book without an order, read off its layout. -/
theorem without (h : b.HasLayout L) {pl : L.Place} (h' : b'.HasLayout (L.remove pl)) :
  b.Without b' pl.side pl.order.slot where
  slots_eq := by
    refine ⟨(restingOf pl.above ++ pl.front).map (·.slot),
      (pl.back ++ restingOf pl.below).map (·.slot), ?_, ?_⟩
    · rw [h.restingSlots_eq, pl.resting_eq, List.map_append, List.map_cons]
    · rw [h'.restingSlots_eq, Layout.resting_remove, List.map_append]
  opposite_eq := by
    rw [h.restingSlots_eq, h'.restingSlots_eq,
      Layout.resting_remove_of_ne pl (Side.opposite_ne pl.side)]
  order_eq s k hk := by
    rw [h'.restingSlots_eq] at hk
    obtain ⟨r, hr, rfl⟩ := List.mem_map.mp hk
    rw [(h'.node_eq hr).1, (h.node_eq (Layout.mem_resting_remove hr)).1]

/-- A cancel fails and leaves the book as it is, or it takes an order of the requesting user
out. -/
theorem cancelOrder_without (h : b.HasLayout L) (hw : L.WellFormed) (u k : UInt64) :
  (∃ e, b.cancelOrder u k = (.error e, b))
    ∨ ∃ s i, (b.cancelOrder u k).1 = .ok (b.orderArena.nodes i).order
      ∧ (b.orderArena.nodes i).order.userId = u ∧ b.Without (b.cancelOrder u k).2 s i
  := by
  rcases h.cancelOrder_cases hw u k with ⟨e, heq, -⟩ | ⟨pl, b', -, huser, heq, h'⟩
  · exact Or.inl ⟨e, heq⟩
  · have horder := (h.node_eq pl.mem_resting).1
    rw [heq]
    refine Or.inr ⟨pl.side, pl.order.slot, ?_, ?_, h.without h'⟩
    · rw [horder]
    · rw [horder]
      apply huser

end HasLayout

/-! ### How an order leaves -/

/-- The user in whose name a call cancels, and the identifier it cancels, if it does. -/
def cancelRequest : Call → Option (UInt64 × UInt64)
  | .process o _ _ =>
      if o.kind = .cancel then
        some (o.userId, if o.id ≠ 0 then o.id else o.clientOrderId)
      else
        none
  | .cancelOrder u k => some (u, k)

/-- The order in slot `i` leaves the book in a call: the trades of a taker fill it, or the call
cancels it in the name of its user. -/
inductive Leaves (b : OrderBook) (s : Side) (i : Nat) : Call → Prop where
  | filled (o : Order) (clientId : UInt64) (trades made : List Trade) (makers : List Nat)
      (hmade : (b.process o clientId trades).2.2 = trades ++ made)
      (hmakers : List.Forall₂ (fun k (t : Trade) => k ∈ b.restingSlots s
        ∧ t.With (b.orderArena.nodes k).order (b.orderArena.nodes k).clientId) makers made)
      (hqty : tradedAt makers made i = (b.orderArena.nodes i).order.qty.toNat) :
      Leaves b s i (.process o clientId trades)
  | cancelled (c : Call) (k : UInt64)
      (hrequest : cancelRequest c = some ((b.orderArena.nodes i).order.userId, k))
      (hok : (b.cancelOrder (b.orderArena.nodes i).order.userId k).1
        = .ok (b.orderArena.nodes i).order) :
      Leaves b s i c

/-- The order in slot `i` rests there still, at most with less quantity. -/
structure Stays (b b' : OrderBook) (s : Side) (i : Nat) : Prop where
  mem : i ∈ b'.restingSlots s
  order_eq : (b'.orderArena.nodes i).order
    = { (b.orderArena.nodes i).order with qty := (b'.orderArena.nodes i).order.qty }
  qty_le : (b'.orderArena.nodes i).order.qty ≤ (b.orderArena.nodes i).order.qty

variable {b b' b'' : OrderBook} {s : Side} {i : Nat}

theorem Stays.refl (h : i ∈ b.restingSlots s) :
  b.Stays b s i
  := ⟨h, rfl, UInt64.le_refl _⟩

theorem Stays.trans (h : b.Stays b' s i) (h' : b'.Stays b'' s i) :
  b.Stays b'' s i where
  mem := h'.mem
  order_eq := by
    rw [h'.order_eq, h.order_eq]
  qty_le := UInt64.le_trans h'.qty_le h.qty_le

/-- An order that is kept as it is stays. -/
theorem Keeps.stays (h : b.Keeps b' s i) :
  b.Stays b' s i where
  mem := h.mem
  order_eq := by
    rw [h.order_eq]
  qty_le := by
    rw [h.order_eq]
    apply UInt64.le_refl

/-- An order that trades less than all of its quantity stays. -/
theorem Reduces.stays {traded : Nat} (h : b.Reduces b' s i traded)
    (hne : traded ≠ (b.orderArena.nodes i).order.qty.toNat) :
  b.Stays b' s i
  := by
  have hmem := h.mem_iff.mpr hne
  obtain ⟨qty, horder, hqty⟩ := h.order_eq hmem
  refine ⟨hmem, ?_, ?_⟩
  · rw [horder]
  · rw [horder, UInt64.le_iff_toNat_le]
    dsimp only
    omega

/-- Every other order stays when one is taken out. -/
theorem Without.stays {s' : Side} {j : Nat} (h : b.Without b' s' j) (hi : i ∈ b.restingSlots s)
    (hne : i ≠ j) :
  b.Stays b' s i
  := by
  obtain ⟨earlier, later, hslots, hslots'⟩ := h.slots_eq
  have hmem : i ∈ b'.restingSlots s := by
    by_cases hs : s = s'
    · subst hs
      rw [hslots, List.mem_append, List.mem_cons] at hi
      rw [hslots', List.mem_append]
      rcases hi with hi | rfl | hi
      · exact Or.inl hi
      · contradiction
      · exact Or.inr hi
    · obtain rfl := Side.eq_opposite_of_ne hs
      rw [h.opposite_eq]
      apply hi
  have hkeeps : b.Keeps b' s i := ⟨hmem, h.order_eq s i hmem⟩
  apply hkeeps.stays

/-- The calls that ask for a cancel are cancels. -/
theorem call_of_cancelRequest (b : OrderBook) {c : Call} {u k : UInt64}
    (h : cancelRequest c = some (u, k)) :
  b.call c = (b.cancelOrder u k).2
  := by
  cases c with
  | cancelOrder u' k' =>
      obtain ⟨rfl, rfl⟩ := Prod.mk.inj (Option.some.inj h)
      rfl
  | process o clientId trades =>
      rw [cancelRequest] at h
      split at h
      · next hkind =>
          obtain ⟨rfl, rfl⟩ := Prod.mk.inj (Option.some.inj h)
          rw [call, b.process_of_cancel hkind]
      · cases h

/-- In one call an order stays or leaves. -/
theorem HasLayout.stays_or_leaves {t : Timed} {L : Layout} (h : t.book.HasLayout L)
    (hw : L.WellFormed) (ht : L.Timely t.clock t.restedAt) (hi : i ∈ t.book.restingSlots s)
    (c : Call) :
  t.book.Stays (t.book.call c) s i ∨ t.book.Leaves s i c
  := by
  cases hrequest : cancelRequest c with
  | some request =>
      obtain ⟨u, k⟩ := request
      rw [call_of_cancelRequest t.book hrequest]
      rcases h.cancelOrder_without hw u k with ⟨e, heq⟩ | ⟨s', j, hok, huser, hwithout⟩
      · rw [heq]
        exact Or.inl (.refl hi)
      · by_cases hij : i = j
        · subst hij
          rw [← huser] at hrequest hok
          exact Or.inr (.cancelled c k hrequest hok)
        · exact Or.inl (hwithout.stays hi hij)
  | none =>
      cases c with
      | cancelOrder u k => cases hrequest
      | process o clientId trades =>
          have hkind : o.kind ≠ .cancel := fun hkind => by
            simp [cancelRequest, hkind] at hrequest
          obtain ⟨b', heq, h'⟩ := h.process_eq hw hkind clientId trades
          have hbook : t.book.call (.process o clientId trades) = b' := congrArg (·.2.1) heq
          by_cases hs : s = o.bookSide
          · subst hs
            rw [h.restingSlots_eq] at hi
            obtain ⟨r, hr, rfl⟩ := List.mem_map.mp hi
            rw [hbook]
            apply Or.inl (h.keeps h' hr _).stays
            apply (L.process_cases o clientId trades).mem_bookSide hw hr
          · obtain rfl : s = o.takesFrom := Side.eq_opposite_of_ne hs
            obtain ⟨makers, rest, htraded⟩ := h.tradedInOrder_call hw ht hkind clientId trades
            have hreduces := htraded.reduces (fun k hk => h.qty_pos hw hk) hi
            by_cases hqty : tradedAt makers (L.fills o clientId).trades i
                = (t.book.orderArena.nodes i).order.qty.toNat
            · apply Or.inr
              apply Leaves.filled o clientId trades (L.fills o clientId).trades makers _ _ hqty
              · rw [heq, L.trades_process]
              · apply (List.forall₂_and_left _ _).mpr ⟨fun k hk => ?_, htraded.makers_eq⟩
                rw [htraded.segment]
                apply List.mem_append_left _ hk
            · apply Or.inl (hreduces.stays hqty)

/-! ### Runs -/

/-- In a run an order stays, or it stays until a call in which it leaves. -/
theorem stays_or_leaves_calls (symbol : Symbol) (cs : List Call)
    (hi : i ∈ ((OrderBook.new symbol).calls cs).restingSlots s) (cs' : List Call) :
  ((OrderBook.new symbol).calls cs).Stays ((OrderBook.new symbol).calls (cs ++ cs')) s i
    ∨ ∃ before c after, cs' = before ++ c :: after
      ∧ ((OrderBook.new symbol).calls cs).Stays ((OrderBook.new symbol).calls (cs ++ before)) s i
      ∧ ((OrderBook.new symbol).calls (cs ++ before)).Leaves s i c
  := by
  induction cs' using List.reverseRecOn with
  | nil =>
      rw [List.append_nil]
      exact Or.inl (.refl hi)
  | append_singleton cs' c ih =>
      rcases ih with hstays | ⟨before, c', after, rfl, hstays, hleaves⟩
      · obtain ⟨L, h, hw, ht⟩ := Timed.exists_timely symbol (cs ++ cs')
        have hbook := Timed.book_calls (Timed.new symbol) (cs ++ cs')
        have hnew : (Timed.new symbol).book = OrderBook.new symbol := rfl
        rw [hnew] at hbook
        have hi' := hstays.mem
        rw [← hbook] at h hi'
        have hstep := h.stays_or_leaves hw ht hi' c
        rw [hbook] at hstep
        rcases hstep with hstep | hleaves
        · rw [← List.append_assoc, calls_concat]
          exact Or.inl (hstays.trans hstep)
        · exact Or.inr ⟨cs', c, [], rfl, hstays, hleaves⟩
      · exact Or.inr ⟨before, c', after ++ [c], by simp, hstays, hleaves⟩

/-- A cancel that succeeds takes out one order, of the requesting user, and one that fails
changes nothing; so in a run an order stays until takers have filled it or its user has
cancelled it. -/
theorem leaves_or_stays (symbol : Symbol) (cs : List Call) :
  let b := (OrderBook.new symbol).calls cs
  (∀ u k o, (b.cancelOrder u k).1 = .ok o →
      ∃ s i, o = (b.orderArena.nodes i).order ∧ o.userId = u
        ∧ b.Without (b.cancelOrder u k).2 s i)
    ∧ (∀ u k e, (b.cancelOrder u k).1 = .error e → (b.cancelOrder u k).2 = b)
    ∧ ∀ s, ∀ i ∈ b.restingSlots s, ∀ cs',
      b.Stays (b.calls cs') s i
        ∨ ∃ before c after, cs' = before ++ c :: after ∧ b.Stays (b.calls before) s i
          ∧ (b.calls before).Leaves s i c
  := by
  obtain ⟨L, h, hw⟩ := exists_layout symbol cs
  refine ⟨?_, ?_, ?_⟩
  · intro u k o hok
    rcases h.cancelOrder_without hw u k with ⟨e, heq⟩ | ⟨s, i, hok', huser, hwithout⟩
    · rw [heq] at hok
      cases hok
    · rw [hok'] at hok
      obtain rfl := Except.ok.inj hok
      exact ⟨s, i, rfl, huser, hwithout⟩
  · intro u k e herror
    rcases h.cancelOrder_without hw u k with ⟨e', heq⟩ | ⟨s, i, hok, -⟩
    · rw [heq]
    · rw [hok] at herror
      cases herror
  · intro s i hi cs'
    have hrun := stays_or_leaves_calls symbol cs hi cs'
    simp only [calls_append] at hrun
    apply hrun

end OrderBook

end LimitOrderBook
