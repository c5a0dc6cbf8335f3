import LimitOrderBook.Index

/-!
# Runs of the index tables

`IndexMethods` is the interface the three tables share, over the open-addressing table that
each of them is.  After any sequence of calls a table is a finite map, the one that
`latest` reads off the calls.
-/

namespace LimitOrderBook

open OpenAddressing

/-- The methods of an index over tables of the scheme `S`: `α` are the arguments of `insert`,
`ν` are the answers of `lookup`. -/
structure IndexMethods {κ σ : Type} [DecidableEq κ] (S : Scheme κ σ) (α ν : Type) where
  insert : Table S → α → Except RejectReason (Table S)
  lookup : Table S → κ → Option ν
  remove : Table S → κ → Option ν × Table S
  entry : α → σ
  answer : σ → ν
  occupied_entry : ∀ a, S.occupied (entry a) = true
  insert_eq : ∀ t a, insert t a = (t.insert (entry a)).elim (.error .engineFull) .ok
  lookup_eq : ∀ t k, lookup t k = (t.lookup k).map answer
  remove_eq : ∀ t k, remove t k = ((t.remove k).1.map answer, (t.remove k).2)

/-- A call of a method of an index. -/
inductive IndexCall (κ α : Type) where
  | insert (a : α)
  | lookup (k : κ)
  | remove (k : κ)

namespace IndexMethods

variable {κ σ : Type} [DecidableEq κ] {S : Scheme κ σ} {α ν : Type}

/-- The key an entry is inserted under. -/
def key (M : IndexMethods S α ν) (a : α) : κ := S.key (M.entry a)

/-- The table after a call.  An insertion that fails leaves the table as it was. -/
def call (M : IndexMethods S α ν) (t : Table S) : IndexCall κ α → Table S
  | .insert a =>
      match M.insert t a with
      | .ok t' => t'
      | .error _ => t
  | .lookup _ => t
  | .remove k => (M.remove t k).2

/-- The table after a sequence of calls on a new one.  The head of the list is the last
call. -/
def calls (M : IndexMethods S α ν) : List (IndexCall κ α) → Table S
  | [] => Table.new
  | c :: cs => M.call (M.calls cs) c

/-- What the last successful insertion under `k` has inserted, if no removal of `k` comes
after it. -/
def latest (M : IndexMethods S α ν) (k : κ) : List (IndexCall κ α) → Option ν
  | [] => none
  | .insert a :: cs =>
      if M.key a = k ∧ (M.insert (M.calls cs) a).isOk then
        some (M.answer (M.entry a))
      else
        M.latest k cs
  | .lookup _ :: cs => M.latest k cs
  | .remove k' :: cs => if k' = k then none else M.latest k cs

/-- A table is a finite map after a sequence of calls. -/
structure IsFiniteMap (M : IndexMethods S α ν) (cs : List (IndexCall κ α)) : Prop where
  lookup_eq : ∀ k, M.lookup (M.calls cs) k = M.latest k cs
  remove_fst : ∀ k, (M.remove (M.calls cs) k).1 = M.latest k cs
  lookup_remove : ∀ k k', k' ≠ k →
    M.lookup (M.remove (M.calls cs) k).2 k' = M.lookup (M.calls cs) k'
  insert_cases : ∀ a, M.insert (M.calls cs) a = .error .engineFull
    ∨ ∃ t, M.insert (M.calls cs) a = .ok t
  insert_fails_iff : ∀ a, M.insert (M.calls cs) a = .error .engineFull
    ↔ S.capacity * 8 / 10 ≤ (M.calls cs).count
  unchanged : ∀ a, M.insert (M.calls cs) a = .error .engineFull →
    M.calls (.insert a :: cs) = M.calls cs
  count_eq : (M.calls cs).count = {k | M.lookup (M.calls cs) k ≠ none}.ncard
  unique : ∀ i < S.capacity, ∀ j < S.capacity, S.occupied ((M.calls cs).entries i) →
    S.occupied ((M.calls cs).entries j) →
    S.key ((M.calls cs).entries i) = S.key ((M.calls cs).entries j) → i = j
  loops_end : (M.calls cs).LoopsEnd

variable (M : IndexMethods S α ν)

/-- A table stays valid in any sequence of calls. -/
theorem valid_calls (cs : List (IndexCall κ α)) :
  (M.calls cs).Valid
  := by
  induction cs with
  | nil => apply Table.valid_new
  | cons c cs ih =>
      rw [calls]
      cases c with
      | insert a =>
          rw [call, M.insert_eq]
          cases hins : (M.calls cs).insert (M.entry a) with
          | none => apply ih
          | some t' => exact (ih.insert (M.occupied_entry a) hins).1
      | lookup k => apply ih
      | remove k =>
          rw [call, M.remove_eq]
          exact (ih.remove k).1

/-- A table answers what was last inserted under a key and not removed since. -/
theorem lookup_calls (k : κ) (cs : List (IndexCall κ α)) :
  M.lookup (M.calls cs) k = M.latest k cs
  := by
  induction cs with
  | nil =>
      rw [M.lookup_eq, calls, Table.lookup_new]
      rfl
  | cons c cs ih =>
      have hv := M.valid_calls cs
      rw [M.lookup_eq] at ih ⊢
      rw [calls]
      cases c with
      | insert a =>
          rw [latest, key]
          cases hins : (M.calls cs).insert (M.entry a) with
          | none =>
              have hres : M.insert (M.calls cs) a = .error .engineFull := by
                rw [M.insert_eq, hins]
                rfl
              rw [call, hres, if_neg (fun h => Bool.false_ne_true h.2)]
              apply ih
          | some t' =>
              have hres : M.insert (M.calls cs) a = .ok t' := by
                rw [M.insert_eq, hins]
                rfl
              rw [call, hres]
              dsimp only
              rw [hv.lookup_insert (M.occupied_entry a) hins]
              by_cases hk : k = S.key (M.entry a)
              · rw [if_pos hk, if_pos ⟨hk.symm, rfl⟩]
                rfl
              · rw [if_neg hk, if_neg (fun h => hk h.1.symm)]
                apply ih
      | lookup k' => apply ih
      | remove k' =>
          rw [latest, call, M.remove_eq]
          dsimp only
          rw [hv.lookup_remove]
          by_cases hk : k = k'
          · rw [if_pos hk, if_pos hk.symm]
            rfl
          · rw [if_neg hk, if_neg (fun h => hk h.symm)]
            apply ih

/-- A table is a finite map, over any sequence of calls. -/
theorem isFiniteMap (hlimit : S.limit = S.capacity * 8 / 10) (cs : List (IndexCall κ α)) :
  M.IsFiniteMap cs
  := by
  have hv := M.valid_calls cs
  have hfails : ∀ a, M.insert (M.calls cs) a = .error .engineFull
      ↔ (M.calls cs).insert (M.entry a) = none := by
    intro a
    rw [M.insert_eq]
    cases (M.calls cs).insert (M.entry a) <;> simp
  constructor
  · intro k
    apply M.lookup_calls
  · intro k
    rw [← M.lookup_calls, M.lookup_eq, M.remove_eq, Table.remove_fst]
  · intro k k' hne
    rw [M.lookup_eq, M.lookup_eq, M.remove_eq, hv.lookup_remove, if_neg hne]
  · intro a
    rw [M.insert_eq]
    cases (M.calls cs).insert (M.entry a) with
    | none => exact Or.inl rfl
    | some t => exact Or.inr ⟨t, rfl⟩
  · intro a
    rw [hfails, Table.insert_eq_none_iff, hlimit]
  · intro a ha
    rw [calls, call, ha]
  · rw [hv.count_eq_ncard]
    simp only [M.lookup_eq, ne_eq, Option.map_eq_none_iff]
  · apply hv.unique
  · apply hv.loopsEnd

end IndexMethods

/-! ### The three tables -/

/-- The methods of `FastOrderIndex`. -/
def FastOrderIndex.methods :
    IndexMethods FastOrderIndex.scheme
      (UInt64 × UInt64 × UInt64 × UInt64 × Nat × UInt8) FastIndexEntry where
  insert t := fun (orderId, clientOrderId, userId, price, nodeIdx, side) =>
    FastOrderIndex.insert t orderId clientOrderId userId price nodeIdx side
  lookup t orderId := FastOrderIndex.lookup t orderId
  remove t orderId := FastOrderIndex.remove t orderId
  entry := fun (orderId, clientOrderId, userId, price, nodeIdx, side) =>
    ⟨orderId, clientOrderId, userId, price, nodeIdx, side, true⟩
  answer e := e
  occupied_entry _ := rfl
  insert_eq t a := by
    obtain ⟨orderId, clientOrderId, userId, price, nodeIdx, side⟩ := a
    dsimp only
    unfold FastOrderIndex.insert
    generalize Table.insert t _ = res
    cases res <;> rfl
  lookup_eq t k := Option.map_id'.symm
  remove_eq t k := by
    rw [Option.map_id']
    rfl

/-- The methods of `FastPriceIndex`. -/
def FastPriceIndex.methods : IndexMethods FastPriceIndex.scheme (UInt64 × Nat) Nat where
  insert t := fun (price, levelIdx) => FastPriceIndex.insert t price levelIdx
  lookup t price := FastPriceIndex.lookup t price
  remove t price := FastPriceIndex.remove t price
  entry := fun (price, levelIdx) => ⟨price, levelIdx, true⟩
  answer e := e.levelIdx
  occupied_entry _ := rfl
  insert_eq t a := by
    obtain ⟨price, levelIdx⟩ := a
    dsimp only
    unfold FastPriceIndex.insert
    generalize Table.insert t _ = res
    cases res <;> rfl
  lookup_eq _ _ := rfl
  remove_eq _ _ := rfl

/-- The methods of `FastClientIndex`; its keys are pairs of a user and a client identifier. -/
def FastClientIndex.methods :
    IndexMethods FastClientIndex.scheme (UInt64 × UInt64 × UInt64) UInt64 where
  insert t := fun (userId, clientOrderId, exchangeOrderId) =>
    FastClientIndex.insert t userId clientOrderId exchangeOrderId
  lookup t := fun (userId, clientOrderId) => FastClientIndex.lookup t userId clientOrderId
  remove t := fun (userId, clientOrderId) => FastClientIndex.remove t userId clientOrderId
  entry := fun (userId, clientOrderId, exchangeOrderId) =>
    ⟨userId, clientOrderId, exchangeOrderId, true⟩
  answer e := e.exchangeOrderId
  occupied_entry _ := rfl
  insert_eq t a := by
    obtain ⟨userId, clientOrderId, exchangeOrderId⟩ := a
    dsimp only
    unfold FastClientIndex.insert
    generalize Table.insert t _ = res
    cases res <;> rfl
  lookup_eq _ _ := rfl
  remove_eq _ _ := rfl

/-- Each of the three tables is a finite map after every sequence of calls. -/
theorem indices_are_finite_maps :
  (∀ cs, FastOrderIndex.methods.IsFiniteMap cs)
    ∧ (∀ cs, FastPriceIndex.methods.IsFiniteMap cs)
    ∧ ∀ cs, FastClientIndex.methods.IsFiniteMap cs
  := by
  refine ⟨?_, ?_, ?_⟩
  · apply IndexMethods.isFiniteMap _ rfl
  · apply IndexMethods.isFiniteMap _ rfl
  · apply IndexMethods.isFiniteMap _ rfl

end LimitOrderBook
