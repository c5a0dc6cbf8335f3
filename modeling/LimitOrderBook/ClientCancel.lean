import LimitOrderBook.Exactness
import LimitOrderBook.EngineRuns

/-!
# Cancelling by client identifier

Exchange identifiers and client identifiers share one argument of `cancelOrder`, which tries
it as an exchange identifier first, and the client index keeps one order for each user and
client identifier.  A cancel by client identifier takes out the order it names exactly if no
other order rests under the same number as its exchange identifier, and the client identifier
has not been reused among live orders since it was last free (`cancelsNamed_iff`).
-/

namespace LimitOrderBook

namespace OrderBook

variable {b : OrderBook} {u c : UInt64} {L L' : Layout}

/-! ### What a client identifier has been used for -/

/-- No order of user `u` rests under the client identifier `c`. -/
def Free (b : OrderBook) (u c : UInt64) : Prop :=
  ∀ k ∈ b.orderSlots, ¬ ((b.orderArena.nodes k).order.userId = u
    ∧ (b.orderArena.nodes k).order.clientOrderId = c)

instance : Decidable (b.Free u c) := inferInstanceAs (Decidable (∀ k ∈ b.orderSlots, _))

/-- The order of a call comes to rest under the client identifier `c` of user `u` while another
order rests under it. -/
def Reuses (b : OrderBook) (u c : UInt64) : Call → Prop
  | .process o clientId trades => o.kind ≠ .cancel ∧ o.userId = u ∧ o.clientOrderId = c
      ∧ b.Rests o clientId trades ∧ (b.process o clientId trades).1.isOk = true ∧ ¬ b.Free u c
  | .cancelOrder _ _ => False

/-- No order of the calls reuses the client identifier. -/
def NeverReuses (b : OrderBook) (u c : UInt64) : List Call → Prop
  | [] => True
  | call :: cs => ¬ b.Reuses u c call ∧ (b.call call).NeverReuses u c cs

instance (call : Call) : Decidable (b.Reuses u c call) :=
  match call with
  | .process _ _ _ => inferInstanceAs (Decidable (_ ∧ _))
  | .cancelOrder _ _ => inferInstanceAs (Decidable False)

instance decidableNeverReuses (b : OrderBook) (u c : UInt64) :
    ∀ cs : List Call, Decidable (b.NeverReuses u c cs)
  | [] => inferInstanceAs (Decidable True)
  | call :: cs =>
      have := (b.call call).decidableNeverReuses u c cs
      inferInstanceAs (Decidable (_ ∧ _))

/-- The client identifier has not been reused since it was last free. -/
def Settled (b : OrderBook) (u c : UInt64) (cs : List Call) : Prop :=
  ∃ cs₁ cs₂, cs = cs₁ ++ cs₂ ∧ (b.calls cs₁).Free u c ∧ (b.calls cs₁).NeverReuses u c cs₂

theorem neverReuses_concat {cs : List Call} {call : Call} :
  b.NeverReuses u c (cs ++ [call]) ↔ b.NeverReuses u c cs ∧ ¬ (b.calls cs).Reuses u c call
  := by
  induction cs generalizing b with
  | nil => exact ⟨fun h => ⟨trivial, h.1⟩, fun h => ⟨h.2, trivial⟩⟩
  | cons call' cs ih =>
      rw [List.cons_append, NeverReuses, NeverReuses, ih, and_assoc]
      rfl

theorem settled_of_free {cs : List Call} (h : (b.calls cs).Free u c) :
  b.Settled u c cs
  := ⟨cs, [], (List.append_nil cs).symm, h, trivial⟩

theorem settled_concat {cs : List Call} {call : Call} :
  b.Settled u c (cs ++ [call]) ↔ (b.calls (cs ++ [call])).Free u c
    ∨ b.Settled u c cs ∧ ¬ (b.calls cs).Reuses u c call
  := by
  constructor
  · rintro ⟨cs₁, cs₂, heq, hfree, hreuse⟩
    rcases List.eq_nil_or_concat cs₂ with rfl | ⟨cs₂', call', rfl⟩
    · rw [List.append_nil] at heq
      rw [heq]
      exact Or.inl hfree
    · rw [List.concat_eq_append, ← List.append_assoc] at heq
      obtain ⟨rfl, rfl⟩ := List.append_singleton_inj.mp heq
      rw [List.concat_eq_append, neverReuses_concat, ← calls_append] at hreuse
      exact Or.inr ⟨⟨cs₁, cs₂', rfl, hfree, hreuse.1⟩, hreuse.2⟩
  · rintro (hfree | ⟨⟨cs₁, cs₂, rfl, hfree, hreuse⟩, hcall⟩)
    · exact settled_of_free hfree
    · refine ⟨cs₁, cs₂ ++ [call], List.append_assoc .., hfree, ?_⟩
      rw [neverReuses_concat, ← calls_append]
      exact ⟨hreuse, hcall⟩

/-! ### The client index at one key -/

/-- The client index knows the order of user `u` at rest under the client identifier `c`, and
there is at most one. -/
def KnowsClient (u c : UInt64) (L : Layout) : Prop :=
  Layout.byClientKey.KnowsIn (fun key => key == (u, c)) L

/-- The client index has lost the client identifier, or is about to: the end of any of two
orders takes it from the other. -/
def LosesClient (u c : UInt64) (L : Layout) : Prop :=
  L.clientIndex u c = none ∨ 2 ≤ L.entries.countP fun e => Layout.byClientKey.key e == (u, c)

theorem HasLayout.free_iff (h : b.HasLayout L) :
  b.Free u c ↔ ∀ e ∈ L.entries, Layout.byClientKey.key e ≠ (u, c)
  := by
  constructor
  · intro hfree e he hkey
    obtain ⟨hslot, -, hentry⟩ := h.of_mem_entries he
    apply hfree e.nodeIdx hslot
    rw [hentry] at hkey
    exact Prod.mk.inj hkey
  · intro hfree k hk hkey
    obtain ⟨r, hr, rfl, horder⟩ := h.exists_resting hk
    rw [horder] at hkey
    exact hfree r.entry (List.mem_map_of_mem hr) (Prod.ext hkey.1 hkey.2)

theorem KnowsClient.of_free (hfree : ∀ e ∈ L.entries, Layout.byClientKey.key e ≠ (u, c)) :
  KnowsClient u c L
  := by
  have hnil : (L.entries.filter fun e => Layout.byClientKey.key e == (u, c)) = [] := by
    apply List.filter_eq_nil_iff.mpr
    intro e he
    rw [beq_iff_eq]
    apply hfree e he
  unfold KnowsClient Layout.Indexing.KnowsIn
  rw [hnil]
  exact ⟨List.nodup_nil, fun _ he => nomatch he⟩

/-- A step that does not reuse the client identifier keeps the client index exact there. -/
theorem KnowsClient.step {call : Call} (hknows : KnowsClient u c L)
    (h : b.HasLayout L) (hw : L.WellFormed) (hc : ¬ b.Reuses u c call) (hs : L.Step call L') :
  KnowsClient u c L'
  := by
  cases hs with
  | @process o clientId trades hkind =>
      obtain ⟨b', heq, -⟩ := h.process_eq hw hkind clientId trades
      apply Layout.Indexing.KnowsIn.processed hknows hw (L.process_cases o clientId trades)
      rintro ⟨hrests, hok⟩ i hkey e he heq'
      rw [heq'.symm, beq_iff_eq] at hkey
      have he' := (hw.entries_taken o clientId).mem_iff.mpr (List.mem_append_right _ he)
      rw [Layout.entry_taker] at heq'
      rw [heq'] at hkey
      obtain ⟨huser, hclient⟩ := Prod.mk.inj hkey
      apply hc
      refine ⟨hkind, huser, hclient, (h.rests_iff o clientId trades).mpr hrests, ?_, ?_⟩
      · rw [heq]
        apply hok
      · intro hfree
        apply h.free_iff.mp hfree e he'
        rw [heq', hkey]
  | noCancel => apply hknows
  | cancel _ pl => exact Layout.Indexing.KnowsIn.remove hknows pl

namespace LosesClient

/-- Orders leave the book. -/
theorem erase (hlost : LosesClient u c L) {gone : List FastIndexEntry}
    (hperm : L.entries.Perm (gone ++ L'.entries))
    (hnone : (u, c) ∈ gone.map Layout.byClientKey.key → L'.clientIndex u c = none)
    (hkeep : (u, c) ∉ gone.map Layout.byClientKey.key → L'.clientIndex u c = L.clientIndex u c) :
  LosesClient u c L'
  := by
  by_cases hmem : (u, c) ∈ gone.map Layout.byClientKey.key
  · exact Or.inl (hnone hmem)
  rcases hlost with hlost | hlost
  · exact Or.inl ((hkeep hmem).trans hlost)
  · have hgone : (gone.countP fun e => Layout.byClientKey.key e == (u, c)) = 0 := by
      apply List.countP_eq_zero.mpr
      intro e he hkey
      apply hmem
      rw [← beq_iff_eq.mp hkey]
      apply List.mem_map_of_mem he
    rw [hperm.countP_eq, List.countP_append, hgone, Nat.zero_add] at hlost
    exact Or.inr hlost

theorem taken (hlost : LosesClient u c L) (hw : L.WellFormed) (o : Order) (clientId : UInt64) :
  LosesClient u c (L.taken o clientId)
  := by
  apply hlost.erase (hw.entries_taken o clientId)
  · intro hmem
    rw [List.map_map] at hmem
    apply if_pos hmem
  · apply Layout.byClientKey.index_taken L o clientId (u, c)

theorem remove (hlost : LosesClient u c L) (pl : L.Place) :
  LosesClient u c (L.remove pl)
  := by
  have hperm : L.entries.Perm ([pl.order.entry] ++ (L.remove pl).entries) :=
    Layout.WellFormed.entries_remove pl
  apply hlost.erase hperm
  · intro hmem
    exact if_pos (List.mem_singleton.mp hmem)
  · intro hmem
    exact if_neg (fun heq => hmem (List.mem_singleton.mpr heq))

theorem congr (hlost : LosesClient u c L) (hsame : L'.SameOrders L) :
  LosesClient u c L'
  := by
  unfold LosesClient
  rw [hsame.entries, hsame.clientIndex]
  apply hlost

/-- An order comes to rest under another key. -/
theorem put_of_ne (hlost : LosesClient u c L) (hw : L.WellFormed) {r : Resting} (j : Nat)
    (hr : Layout.byClientKey.key r.entry ≠ (u, c)) :
  LosesClient u c (L.put r j)
  := by
  rcases hlost with hlost | hlost
  · left
    have hindex := Layout.byClientKey.index_put_of_ne L r j (u, c) (Ne.symm hr)
    exact hindex.trans hlost
  · right
    rw [(hw.entries_put r j).countP_eq, List.countP_cons]
    omega

/-- An order comes to rest under the key of another. -/
theorem put_self (hw : L.WellFormed) {r : Resting} (j : Nat)
    (hr : Layout.byClientKey.key r.entry = (u, c))
    (hlive : ∃ e ∈ L.entries, Layout.byClientKey.key e = (u, c)) :
  LosesClient u c (L.put r j)
  := by
  obtain ⟨e, he, hkey⟩ := hlive
  have hpos : 0 < L.entries.countP fun e => Layout.byClientKey.key e == (u, c) :=
    List.countP_pos_iff.mpr ⟨e, he, beq_iff_eq.mpr hkey⟩
  right
  rw [(hw.entries_put r j).countP_eq, List.countP_cons, if_pos (beq_iff_eq.mpr hr)]
  omega

end LosesClient

/-- A taker fills no order of its own user. -/
theorem userId_ne_of_mem_filled (hw : L.WellFormed) {o : Order} {clientId : UInt64} {r : Resting}
    (hr : r ∈ (L.fills o clientId).filled) :
  r.order.userId ≠ o.userId
  := by
  have hfilled : ∀ (taker : Order) (nextId : UInt64) (rs : List Resting),
      r ∈ (matchOrders (o.accepts o.takesFrom) clientId taker nextId rs).filled →
      r.order.userId ≠ taker.userId := by
    intro taker nextId rs
    induction rs generalizing taker nextId with
    | nil => exact fun hmem => nomatch hmem
    | cons r' rs ih =>
        intro hmem
        rw [matchOrders] at hmem
        split at hmem
        · contradiction
        split at hmem
        · contradiction
        next huser =>
        dsimp only at hmem
        split at hmem
        · rcases List.mem_cons.mp hmem with rfl | hmem
          · exact huser
          · apply ih _ _ hmem
        · contradiction
  apply hfilled (L.stamped o) L.tradeIdCounter (L.resting o.takesFrom)
  rw [hw.fills_eq]
  apply hr

/-- An order rests under the key of another: a step in which its taker came to rest has not
filled the other. -/
theorem exists_taken (hw : L.WellFormed) {o : Order} (huser : o.userId = u) (clientId : UInt64)
    (hlive : ∃ e ∈ L.entries, Layout.byClientKey.key e = (u, c)) :
  ∃ e ∈ (L.taken o clientId).entries, Layout.byClientKey.key e = (u, c)
  := by
  obtain ⟨e, he, hkey⟩ := hlive
  refine ⟨e, ?_, hkey⟩
  rcases List.mem_append.mp ((hw.entries_taken o clientId).mem_iff.mp he) with hfilled | htaken
  · obtain ⟨r, hr, rfl⟩ := List.mem_map.mp hfilled
    apply absurd _ (userId_ne_of_mem_filled hw hr)
    exact (Prod.mk.inj hkey).1.trans huser.symm
  · apply htaken

/-- A client identifier that is in use is lost when it is reused, and once lost it stays so. -/
theorem LosesClient.step {call : Call} (h : b.HasLayout L) (hw : L.WellFormed)
    (hlive : ¬ b.Free u c) (hlost : ¬ b.Reuses u c call → LosesClient u c L)
    (hs : L.Step call L') :
  LosesClient u c L'
  := by
  cases hs with
  | @process o clientId trades hkind =>
      obtain ⟨b', heq, -⟩ := h.process_eq hw hkind clientId trades
      have hok : (b.process o clientId trades).1 = (L.process o clientId trades).1 := by rw [heq]
      rcases (L.process_cases o clientId trades).taken_or_put with
        ⟨hno, hsame⟩ | ⟨hrests, i, j, L₁, hsame, hput⟩
      · apply LosesClient.congr _ hsame
        apply (hlost _).taken hw
        rintro ⟨-, -, -, hrests, hisOk, -⟩
        rw [hok] at hisOk
        exact hno ⟨(h.rests_iff o clientId trades).mp hrests, hisOk⟩
      · have hw₁ := (hw.taken o clientId).congr hsame.ladder hsame.orderIndex hsame.clientIndex
        rw [hput]
        by_cases hkey : Layout.byClientKey.key
            (Resting.entry ⟨i, (L.fills o clientId).taker, clientId⟩) = (u, c)
        · apply LosesClient.put_self hw₁ j hkey
          rw [hsame.entries]
          rw [Layout.entry_taker] at hkey
          apply exists_taken hw (Prod.mk.inj hkey).1
          by_contra hnone
          exact hlive (h.free_iff.mpr fun e he heq => hnone ⟨e, he, heq⟩)
        · apply LosesClient.put_of_ne _ hw₁ j hkey
          apply LosesClient.congr _ hsame
          apply (hlost _).taken hw
          rintro ⟨-, huser, hclient, -⟩
          apply hkey
          rw [Layout.entry_taker]
          exact Prod.ext huser hclient
  | noCancel hcancels =>
      apply hlost
      cases call with
      | process o clientId trades => exact fun hreuses => hreuses.1 hcancels
      | cancelOrder => exact fun hreuses => hreuses
  | cancel hcancels pl =>
      apply LosesClient.remove
      apply hlost
      cases call with
      | process o clientId trades => exact fun hreuses => hreuses.1 hcancels
      | cancelOrder => exact fun hreuses => hreuses

/-- The run rule for orders under distinct identifiers: the client index knows a client
identifier exactly if it has not been reused since it was last free. -/
theorem knows_calls (symbol : Symbol) (u c : UInt64) (cs : List Call)
    (hids : ((OrderBook.new symbol).usedIds cs).Nodup) :
  ∃ L, ((OrderBook.new symbol).calls cs).HasLayout L ∧ L.WellFormed
    ∧ Layout.byOrderId.Knows L
    ∧ ((OrderBook.new symbol).Settled u c cs → KnowsClient u c L)
    ∧ (¬ (OrderBook.new symbol).Settled u c cs → LosesClient u c L)
  := by
  obtain ⟨L, h, hw, hP⟩ := calls_induction symbol
    (P := fun cs L => ((OrderBook.new symbol).usedIds cs).Nodup
      → Identified ((OrderBook.new symbol).usedIds cs) L
        ∧ ((OrderBook.new symbol).Settled u c cs → KnowsClient u c L)
        ∧ (¬ (OrderBook.new symbol).Settled u c cs → LosesClient u c L))
    (fun _ => ⟨.new, fun _ => Layout.Indexing.KnowsIn.new, fun _ => Or.inl rfl⟩)
    (by
      intro cs call L L' h hw hP h' _ hs hids
      obtain ⟨hid, hknows, hlost⟩ := hP (nodup_of_usedIds_concat hids)
      rw [usedIds_concat] at hids ⊢
      refine ⟨hid.step h hw hids hs, ?_, ?_⟩ <;> rw [settled_concat]
      · rintro (hfree | ⟨hsettled, hcall⟩)
        · apply KnowsClient.of_free (h'.free_iff.mp hfree)
        · apply (hknows hsettled).step h hw hcall hs
      · intro hnot
        have hlive : ¬ ((OrderBook.new symbol).calls cs).Free u c := by
          intro hfree
          apply hnot
          right
          refine ⟨settled_of_free hfree, ?_⟩
          cases call with
          | process o clientId trades => exact fun hreuses => hreuses.2.2.2.2.2 hfree
          | cancelOrder => exact fun hreuses => hreuses
        apply LosesClient.step h hw hlive _ hs
        intro hcall
        apply hlost
        intro hsettled
        exact hnot (Or.inr ⟨hsettled, hcall⟩))
    cs
  obtain ⟨hid, hclient⟩ := hP hids
  exact ⟨L, h, hw, hid.knows, hclient⟩

/-- The order in slot `k` is the one order of user `u` at rest under the client identifier
`c`. -/
def Names (b : OrderBook) (u c : UInt64) (k : Nat) : Prop :=
  k ∈ b.orderSlots ∧ ∀ k' ∈ b.orderSlots,
    ((b.orderArena.nodes k').order.userId = u ∧ (b.orderArena.nodes k').order.clientOrderId = c)
      ↔ k' = k

instance (b : OrderBook) (u c : UInt64) (k : Nat) : Decidable (b.Names u c k) :=
  inferInstanceAs (Decidable (_ ∧ _))

/-- The cancel of `c` by user `u` answers the order in slot `k` and takes it, and it alone,
out of the book. -/
def CancelsSlot (b : OrderBook) (u c : UInt64) (k : Nat) : Prop :=
  ∃ b', b.cancelOrder u c = (.ok (b.orderArena.nodes k).order, b')
    ∧ b'.orderSlots.Perm (b.orderSlots.erase k)

namespace HasLayout

variable {L : Layout} {k : Nat}

theorem map_nodeIdx_entries (h : b.HasLayout L) :
  L.entries.map FastIndexEntry.nodeIdx = b.orderSlots
  := by
  rw [h.orderSlots_eq, Layout.entries, List.map_map]
  rfl

/-- The entry of the order in a slot. -/
theorem mem_entries (h : b.HasLayout L) (hk : k ∈ b.orderSlots) :
  Resting.entry ⟨k, (b.orderArena.nodes k).order, 0⟩ ∈ L.entries
  := by
  rw [← h.map_nodeIdx_entries] at hk
  obtain ⟨e, he, rfl⟩ := List.mem_map.mp hk
  obtain ⟨-, -, heq⟩ := h.of_mem_entries he
  rw [← heq]
  apply he

/-- A cancel that finds the order in slot `k` of the requesting user takes it out. -/
theorem cancelsSlot_of_findEntry (h : b.HasLayout L) (hw : L.WellFormed)
    (hfind : L.findEntry u c = .ok (Resting.entry ⟨k, (b.orderArena.nodes k).order, 0⟩))
    (huser : (b.orderArena.nodes k).order.userId = u) :
  b.CancelsSlot u c k
  := by
  rcases h.cancelOrder_cases hw u c with ⟨reason, -, hno⟩ | ⟨pl, b', hfind', -, heq, h'⟩
  · exact absurd huser (hno _ hfind)
  · have hentry := Except.ok.inj (hfind'.symm.trans hfind)
    have hslot : pl.order.slot = k := congrArg FastIndexEntry.nodeIdx hentry
    have hmem : pl.level ∈ L.levels := by
      apply Layout.mem_levels.mpr
      use pl.side
      rw [pl.ladder_eq]
      simp
    have horder := (h.stored hmem).order_eq pl.order (by rw [pl.queue_eq]; simp)
    rw [hslot] at horder
    refine ⟨b', by rw [heq, horder], ?_⟩
    have hperm := (Layout.WellFormed.entries_remove pl).map FastIndexEntry.nodeIdx
    rw [h.map_nodeIdx_entries, List.map_cons, h'.map_nodeIdx_entries] at hperm
    have herase := hperm.erase k
    rw [show pl.order.entry.nodeIdx = k from hslot, List.erase_cons_head] at herase
    apply herase.symm

/-- The order index leads to the order in a slot. -/
theorem orderIndex_of_knows (h : b.HasLayout L) (horders : Layout.byOrderId.Knows L)
    (hk : k ∈ b.orderSlots) :
  L.orderIndex (b.orderArena.nodes k).order.id
    = some (Resting.entry ⟨k, (b.orderArena.nodes k).order, 0⟩)
  := horders.eq_some _ (h.mem_entries hk)

/-- A cancel by client identifier that takes out the order it names has found no other order
under the same number as its exchange identifier. -/
theorem eq_of_cancelsSlot (h : b.HasLayout L) (hw : L.WellFormed)
    (horders : Layout.byOrderId.Knows L) (hk : k ∈ b.orderSlots) (hcancels : b.CancelsSlot u c k)
    {k' : Nat} (hk' : k' ∈ b.orderSlots) (hid : (b.orderArena.nodes k').order.id = c) :
  k' = k
  := by
  obtain ⟨b', heq, -⟩ := hcancels
  have hfind : L.findEntry u c = .ok (Resting.entry ⟨k', (b.orderArena.nodes k').order, 0⟩) := by
    rw [Layout.findEntry, ← hid, h.orderIndex_of_knows horders hk']
  rcases h.cancelOrder_cases hw u c with ⟨reason, herr, -⟩ | ⟨pl, b₁, hfind', -, hok, -⟩
  · rw [herr] at heq
    cases heq
  · have hentry := Except.ok.inj (hfind'.symm.trans hfind)
    have horder : pl.order.order = (b.orderArena.nodes k).order :=
      Except.ok.inj (Prod.mk.inj (hok.symm.trans heq)).1
    have hids : (b.orderArena.nodes k').order.id = (b.orderArena.nodes k).order.id := by
      rw [← horder]
      exact (congrArg FastIndexEntry.orderId hentry).symm
    have hsame := (h.orderIndex_of_knows horders hk').symm.trans
      ((congrArg L.orderIndex hids).trans (h.orderIndex_of_knows horders hk))
    exact congrArg FastIndexEntry.nodeIdx (Option.some.inj hsame)

/-- A client index that knows the client identifier leads to the order of the name. -/
theorem clientIndex_of_knows (h : b.HasLayout L) (hclients : KnowsClient u c L)
    (hnames : b.Names u c k) :
  L.clientIndex u c = some (b.orderArena.nodes k).order.id
  := by
  obtain ⟨hk, honly⟩ := hnames
  have hkey : Layout.byClientKey.key (Resting.entry ⟨k, (b.orderArena.nodes k).order, 0⟩)
      = (u, c) := by
    obtain ⟨huser, hclient⟩ := (honly k hk).mpr rfl
    exact Prod.ext huser hclient
  have heq := hclients.eq_some _ (List.mem_filter.mpr ⟨h.mem_entries hk, beq_iff_eq.mpr hkey⟩)
  rw [hkey] at heq
  apply heq

/-- A client identifier of one order that has been lost is not in the client index. -/
theorem clientIndex_of_loses (h : b.HasLayout L) (horders : Layout.byOrderId.Knows L)
    (hlost : LosesClient u c L) (hnames : b.Names u c k) :
  L.clientIndex u c = none
  := by
  apply hlost.resolve_right
  rw [Nat.not_le, List.countP_eq_length_filter]
  have hnodup := List.Nodup.of_map _ horders.nodup
  have hsub : (L.entries.filter fun e => Layout.byClientKey.key e == (u, c))
      ⊆ [Resting.entry ⟨k, (b.orderArena.nodes k).order, 0⟩] := by
    intro e he
    obtain ⟨he, hkey⟩ := List.mem_filter.mp he
    obtain ⟨hslot, -, hentry⟩ := h.of_mem_entries he
    have hkey' := Prod.mk.inj (beq_iff_eq.mp hkey)
    rw [hentry] at hkey'
    have hslot' : e.nodeIdx = k := (hnames.2 _ hslot).mp hkey'
    rw [hslot'] at hentry
    exact List.mem_singleton.mpr hentry
  have hle := (List.subperm_of_subset (hnodup.filter _) hsub).length_le
  rw [List.length_singleton] at hle
  omega

/-- A cancel by client identifier takes out the order it names, exactly if no other order
rests under the same number as its exchange identifier, and the client index still knows the
client identifier or that number is the order's own. -/
theorem cancelsSlot_iff (h : b.HasLayout L) (hw : L.WellFormed)
    (horders : Layout.byOrderId.Knows L) {settled : Prop} (hclients : settled → KnowsClient u c L)
    (hlost : ¬ settled → LosesClient u c L) (hnames : b.Names u c k) :
  b.CancelsSlot u c k
    ↔ (∀ k' ∈ b.orderSlots, (b.orderArena.nodes k').order.id = c → k' = k)
      ∧ (settled ∨ (b.orderArena.nodes k).order.id = c)
  := by
  have hk := hnames.1
  obtain ⟨huser, -⟩ := (hnames.2 k hk).mpr rfl
  constructor
  · intro hcancels
    refine ⟨fun k' hk' => h.eq_of_cancelsSlot hw horders hk hcancels hk', ?_⟩
    by_contra hnot
    obtain ⟨hsettled, hid⟩ := not_or.mp hnot
    -- neither index knows `c`, so the cancel finds nothing
    have hnone : L.orderIndex c = none := by
      rw [Option.eq_none_iff_forall_ne_some]
      intro e he
      obtain ⟨hmem, heid⟩ := hw.orderIndex_sound c e he
      obtain ⟨hslot, -, hentry⟩ := h.of_mem_entries hmem
      have hslotid : (b.orderArena.nodes e.nodeIdx).order.id = c :=
        (congrArg FastIndexEntry.orderId hentry).symm.trans heid
      rw [h.eq_of_cancelsSlot hw horders hk hcancels hslot hslotid] at hslotid
      exact hid hslotid
    have hfind : L.findEntry u c = .error .orderNotFound := by
      rw [Layout.findEntry, hnone, h.clientIndex_of_loses horders (hlost hsettled) hnames]
    obtain ⟨b', heq, -⟩ := hcancels
    rcases h.cancelOrder_cases hw u c with ⟨reason, herr, -⟩ | ⟨pl, b₁, hfind', -⟩
    · rw [herr] at heq
      cases heq
    · rw [hfind] at hfind'
      cases hfind'
  · rintro ⟨hother, hfound⟩
    apply h.cancelsSlot_of_findEntry hw _ huser
    unfold Layout.findEntry
    cases hlookup : L.orderIndex c with
    | some e =>
        obtain ⟨he, heid⟩ := hw.orderIndex_sound c e hlookup
        obtain ⟨hslot, -, hentry⟩ := h.of_mem_entries he
        have hke : e.nodeIdx = k := by
          apply hother _ hslot
          rw [← heid]
          exact (congrArg FastIndexEntry.orderId hentry).symm
        rw [hke] at hentry
        exact congrArg Except.ok hentry
    | none =>
        have hid : (b.orderArena.nodes k).order.id ≠ c := by
          intro hid
          have hown := h.orderIndex_of_knows horders hk
          rw [hid, hlookup] at hown
          contradiction
        have hindex := h.clientIndex_of_knows (hclients (hfound.resolve_right hid)) hnames
        dsimp only
        rw [hindex]
        dsimp only
        rw [h.orderIndex_of_knows horders hk]

end HasLayout

end OrderBook

/-! ### Runs of the engine -/

/-- A submission as the gateway delivers it: its exchange identifier is left to the engine. -/
def EngineCall.Delivered : EngineCall → Prop
  | .process o _ _ => o.id = 0 ∧ o.kind ≠ .cancel
  | _ => True

instance (c : EngineCall) : Decidable c.Delivered :=
  match c with
  | .nextOrderId => inferInstanceAs (Decidable True)
  | .process _ _ _ => inferInstanceAs (Decidable (_ ∧ _))
  | .cancelOrder _ _ _ => inferInstanceAs (Decidable True)

namespace MultiAssetEngine

theorem stampId_of_zero (e : MultiAssetEngine) {o : Order} (hid : o.id = 0) :
  e.stampId o = ({ o with id := e.globalOrderIdCounter },
    { e with globalOrderIdCounter := e.globalOrderIdCounter + 1 })
  := if_pos hid

/-- The counter of the engine after a call. -/
theorem globalOrderIdCounter_call (e : MultiAssetEngine) {c : EngineCall} (hc : c.Delivered) :
  (e.call c).globalOrderIdCounter = e.globalOrderIdCounter
    ∨ (e.call c).globalOrderIdCounter = e.globalOrderIdCounter + 1
  := by
  cases c with
  | nextOrderId => exact Or.inr rfl
  | process o clientId trades =>
      rw [call]
      cases hsym : symIdx o.symbolId with
      | none =>
          rw [process, hsym]
          exact Or.inl rfl
      | some sym =>
          rw [process_of_sym hsym, e.stampId_of_zero hc.1]
          exact Or.inr rfl
  | cancelOrder symbolId u k =>
      rw [call, cancelOrder]
      cases symIdx symbolId <;> exact Or.inl rfl

/-- The order of a submission goes by the counter of the engine. -/
theorem usedId_bookCall (e : MultiAssetEngine) {c : EngineCall} (hc : c.Delivered)
    (hcounter : e.globalOrderIdCounter ≠ 0) {i : Fin NUM_SYMBOLS} (b : OrderBook) {c' : Call}
    (hc' : e.bookCall i c = some c') :
  b.usedId c' = none ∨ b.usedId c' = some e.globalOrderIdCounter
      ∧ (e.call c).globalOrderIdCounter = e.globalOrderIdCounter + 1
  := by
  cases c with
  | nextOrderId => cases hc'
  | process o clientId trades =>
      rw [bookCall] at hc'
      split at hc'
      · next hsym =>
          obtain rfl := Option.some.inj hc'
          have hkind : (e.stampId o).1.kind ≠ .cancel := by
            rw [stampId_fst]
            apply hc.2
          right
          rw [OrderBook.usedId_process b hkind, call, process_of_sym hsym, e.stampId_of_zero hc.1,
            OrderBook.stampId, if_neg hcounter]
          exact ⟨rfl, rfl⟩
      · cases hc'
  | cancelOrder symbolId u k =>
      rw [bookCall] at hc'
      split at hc'
      · obtain rfl := Option.some.inj hc'
        exact Or.inl rfl
      · cases hc'

/-- The orders of one book go by distinct identifiers, until the counter runs out. -/
theorem nodup_usedIds_bookCalls (e : MultiAssetEngine) {cs : List EngineCall}
    (hcs : ∀ c ∈ cs, c.Delivered) (hcounter : e.globalOrderIdCounter ≠ 0)
    (hlen : e.globalOrderIdCounter.toNat + cs.length < 2 ^ 64) (i : Fin NUM_SYMBOLS)
    (b : OrderBook) :
  (b.usedIds (e.bookCalls i cs)).Nodup
    ∧ ∀ k ∈ b.usedIds (e.bookCalls i cs), e.globalOrderIdCounter ≤ k
  := by
  induction cs generalizing e b with
  | nil => exact ⟨List.nodup_nil, fun _ hk => nomatch hk⟩
  | cons c cs ih =>
      rw [List.length_cons] at hlen
      have hc := hcs c List.mem_cons_self
      have hone : (e.globalOrderIdCounter + 1).toNat = e.globalOrderIdCounter.toNat + 1 := by
        rw [UInt64.toNat_add_of_lt'] <;> rw [UInt64.toNat_one]
        omega
      have hle : e.globalOrderIdCounter.toNat ≤ (e.call c).globalOrderIdCounter.toNat
          ∧ (e.call c).globalOrderIdCounter.toNat ≤ e.globalOrderIdCounter.toNat + 1 := by
        rcases e.globalOrderIdCounter_call hc with heq | heq <;> rw [heq]
        · omega
        · omega
      have hpos := UInt64.pos_iff_toNat_pos.mp (UInt64.ne_zero_iff_pos.mp hcounter)
      have hrest := fun b' => ih (e.call c) (fun c' hc' => hcs c' (List.mem_cons_of_mem c hc'))
        (UInt64.ne_zero_iff_pos.mpr (UInt64.pos_iff_toNat_pos.mpr (by omega))) (by omega) b'
      have hmono : ∀ k, (e.call c).globalOrderIdCounter ≤ k → e.globalOrderIdCounter ≤ k := by
        intro k hk
        rw [UInt64.le_iff_toNat_le] at hk ⊢
        omega
      rw [bookCalls]
      cases hcall : e.bookCall i c with
      | none =>
          obtain ⟨hnodup, hge⟩ := hrest b
          exact ⟨hnodup, fun k hk => hmono k (hge k hk)⟩
      | some c' =>
          obtain ⟨hnodup, hge⟩ := hrest (b.call c')
          rw [Option.toList_some, List.singleton_append, OrderBook.usedIds]
          rcases e.usedId_bookCall hc hcounter b hcall with hnone | ⟨hsome, hcounter'⟩
          · rw [hnone]
            exact ⟨hnodup, fun k hk => hmono k (hge k hk)⟩
          · rw [hsome, Option.toList_some, List.singleton_append, List.nodup_cons]
            refine ⟨⟨?_, hnodup⟩, ?_⟩
            · intro hmem
              have hge' := hge _ hmem
              rw [hcounter', UInt64.le_iff_toNat_le] at hge'
              omega
            · intro k hk
              rcases List.mem_cons.mp hk with rfl | hk
              · exact UInt64.le_refl _
              · exact hmono k (hge k hk)

/-- The cancel of `c` by user `u` in the book `i`, of symbol `symbolId`, answers the order in
slot `k` and takes it, and it alone, out of the book. -/
def CancelsSlot (e : MultiAssetEngine) (symbolId : UInt16) (i : Fin NUM_SYMBOLS) (u c : UInt64)
    (k : Nat) : Prop :=
  ∃ e', e.cancelOrder symbolId u c = (.ok ((e.books i).orderArena.nodes k).order, e')
    ∧ (e'.books i).orderSlots.Perm ((e.books i).orderSlots.erase k)

theorem cancelsSlot_iff_book (e : MultiAssetEngine) {symbolId : UInt16} {i : Fin NUM_SYMBOLS}
    (hsym : symIdx symbolId = some i) (u c : UInt64) (k : Nat) :
  e.CancelsSlot symbolId i u c k ↔ (e.books i).CancelsSlot u c k
  := by
  have hcancel : e.cancelOrder symbolId u c
      = (((e.books i).cancelOrder u c).1, e.setBook i ((e.books i).cancelOrder u c).2) := by
    rw [cancelOrder, hsym]
  have hbook : ∀ b, (e.setBook i b).books i = b := fun b => Function.update_self ..
  unfold CancelsSlot OrderBook.CancelsSlot
  rw [hcancel]
  constructor
  · rintro ⟨e', heq, hperm⟩
    obtain ⟨hanswer, rfl⟩ := Prod.mk.inj heq
    rw [hbook] at hperm
    exact ⟨_, Prod.ext hanswer rfl, hperm⟩
  · rintro ⟨b', heq, hperm⟩
    rw [heq]
    refine ⟨_, rfl, ?_⟩
    rw [hbook]
    apply hperm

/-- A cancel by client identifier takes out the order it names, after any run, exactly if no
other order rests under the same number as its exchange identifier, and the client identifier
has not been reused since it was last free or that number is the order's own. -/
theorem cancelsNamed_iff (cs : List EngineCall) (hcs : ∀ c ∈ cs, c.Delivered)
    (hlen : cs.length < 2 ^ 64 - 1) {symbolId : UInt16} {i : Fin NUM_SYMBOLS}
    (hsym : symIdx symbolId = some i) {u c : UInt64} {k : Nat}
    (hnames : ((new.calls cs).books i).Names u c k) :
  (new.calls cs).CancelsSlot symbolId i u c k
    ↔ (∀ k' ∈ ((new.calls cs).books i).orderSlots,
        (((new.calls cs).books i).orderArena.nodes k').order.id = c → k' = k)
      ∧ ((new.books i).Settled u c (new.bookCalls i cs)
        ∨ (((new.calls cs).books i).orderArena.nodes k).order.id = c)
  := by
  obtain ⟨symbol, hsymbol⟩ := exists_books_new i
  have hone : new.globalOrderIdCounter.toNat = 1 := rfl
  obtain ⟨hids, -⟩ := nodup_usedIds_bookCalls new hcs (by decide) (by omega) i
    (OrderBook.new symbol)
  obtain ⟨L, h, hw, horders, hclients, hlost⟩ := OrderBook.knows_calls symbol u c _ hids
  rw [← hsymbol] at h hclients hlost
  rw [← books_calls] at h
  rw [cancelsSlot_iff_book _ hsym]
  apply h.cancelsSlot_iff hw horders hclients hlost hnames

/-- Two users each submit an order. -/
def twoSubmissions (c : UInt64) : List EngineCall :=
  [.process (Order.newClientLimit c 1 .btc .buy 100 5) 0 [],
    .process (Order.newClientLimit 9 2 .btc .buy 101 5) 0 []]

/-- The client identifier is no exchange identifier: the cancel takes out the order. -/
theorem cancelsNamed_twoSubmissions :
  (new.calls (twoSubmissions 7)).CancelsSlot 0 0 1 7 0
  := by
  apply (cancelsNamed_iff (twoSubmissions 7) (by decide +kernel) (by decide) rfl
    (by decide +kernel)).mpr
  refine ⟨by decide +kernel, Or.inl ⟨[], new.bookCalls 0 (twoSubmissions 7), rfl, ?_, ?_⟩⟩
  · decide +kernel
  · decide +kernel

/-- The client identifier is the exchange identifier of the other order: the cancel fails. -/
theorem not_cancelsNamed_twoSubmissions :
  (∀ c ∈ twoSubmissions 2, c.Delivered) ∧ ((new.calls (twoSubmissions 2)).books 0).Names 1 2 0
    ∧ ¬ (new.calls (twoSubmissions 2)).CancelsSlot 0 0 1 2 0
  := by
  refine ⟨by decide +kernel, by decide +kernel, ?_⟩
  rintro ⟨b', heq, -⟩
  have hanswer : ((new.calls (twoSubmissions 2)).cancelOrder 0 1 2).1
      = .error .unauthorized := by decide +kernel
  rw [heq] at hanswer
  cases hanswer

/-- The first of two live orders under one client identifier is not found once the second has
been cancelled. -/
example : (((OrderBook.new .btc).calls OrderBook.reusedClientId).cancelOrder 1 7).1
    = .error .orderNotFound := by decide +kernel

end MultiAssetEngine

end LimitOrderBook
