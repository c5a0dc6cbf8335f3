import Mathlib.Algebra.BigOperators.Group.Finset.Piecewise
import Mathlib.Algebra.Order.BigOperators.Group.Finset
import Mathlib.Algebra.BigOperators.Group.List.Basic
import Mathlib.Algebra.BigOperators.ModEq

/-!
# Ledgers of transfers

A transfer moves an amount of a coin from a payer to a payee.  All that is paid is received,
so balances that follow a list of transfers sum to what there was at the start.
-/

namespace Ledger

structure Transfer (U C : Type*) where
  payer : U
  payee : U
  coin : C
  amount : Nat

variable {U C : Type*}

/-- All parties of the transfers are among the users. -/
def Among (ts : List (Transfer U C)) (us : Finset U) : Prop :=
  ∀ t ∈ ts, t.payer ∈ us ∧ t.payee ∈ us

theorem among_nil (us : Finset U) :
  Among ([] : List (Transfer U C)) us
  := List.forall_mem_nil _

theorem among_append {ts ts' : List (Transfer U C)} {us : Finset U} :
  Among (ts ++ ts') us ↔ Among ts us ∧ Among ts' us
  := List.forall_mem_append

variable [DecidableEq U] [DecidableEq C]

/-- What a user has paid of a coin. -/
def paid (ts : List (Transfer U C)) (u : U) (c : C) : Nat :=
  (ts.map fun t => if t.payer = u ∧ t.coin = c then t.amount else 0).sum

/-- What a user has received of a coin. -/
def received (ts : List (Transfer U C)) (u : U) (c : C) : Nat :=
  (ts.map fun t => if t.payee = u ∧ t.coin = c then t.amount else 0).sum

section

variable (u : U) (c : C)

@[simp]
theorem paid_nil :
  paid ([] : List (Transfer U C)) u c = 0
  := rfl

@[simp]
theorem received_nil :
  received ([] : List (Transfer U C)) u c = 0
  := rfl

@[simp]
theorem paid_cons (t : Transfer U C) (ts : List (Transfer U C)) :
  paid (t :: ts) u c = (if t.payer = u ∧ t.coin = c then t.amount else 0) + paid ts u c
  := List.sum_cons

@[simp]
theorem received_cons (t : Transfer U C) (ts : List (Transfer U C)) :
  received (t :: ts) u c
    = (if t.payee = u ∧ t.coin = c then t.amount else 0) + received ts u c
  := List.sum_cons

@[simp]
theorem paid_append (ts ts' : List (Transfer U C)) :
  paid (ts ++ ts') u c = paid ts u c + paid ts' u c
  := by
  simp [paid]

@[simp]
theorem received_append (ts ts' : List (Transfer U C)) :
  received (ts ++ ts') u c = received ts u c + received ts' u c
  := by
  simp [received]

end

/-- All that is paid is received. -/
theorem sum_paid {ts : List (Transfer U C)} {us : Finset U} (h : Among ts us) (c : C) :
  ∑ u ∈ us, paid ts u c = ∑ u ∈ us, received ts u c
  := by
  induction ts with
  | nil => rfl
  | cons t ts ih =>
      obtain ⟨hpayer, hpayee⟩ := h t List.mem_cons_self
      simp only [paid_cons, received_cons, Finset.sum_add_distrib]
      rw [ih fun t' ht' => h t' (List.mem_cons_of_mem _ ht')]
      congr 1
      by_cases hcoin : t.coin = c
      · simp [hcoin, hpayer, hpayee]
      · simp [hcoin]

/-- Balances that follow the transfers, modulo a number, sum to what there was at the start. -/
theorem sum_balance_modEq {ts : List (Transfer U C)} {us : Finset U} (h : Among ts us) {c : C}
    {n : Nat} {start balance : U → Nat}
    (hbalance : ∀ u ∈ us, balance u + paid ts u c ≡ start u + received ts u c [MOD n]) :
  ∑ u ∈ us, balance u ≡ ∑ u ∈ us, start u [MOD n]
  := by
  have hsum := Nat.ModEq.sum hbalance
  rw [Finset.sum_add_distrib, Finset.sum_add_distrib, sum_paid h] at hsum
  apply Nat.ModEq.add_right_cancel' _ hsum

/-- Balances that follow the transfers sum to what there was at the start. -/
theorem sum_balance {ts : List (Transfer U C)} {us : Finset U} (h : Among ts us) {c : C}
    {start balance : U → Nat}
    (hbalance : ∀ u ∈ us, balance u + paid ts u c = start u + received ts u c) :
  ∑ u ∈ us, balance u = ∑ u ∈ us, start u
  := by
  have hmod := sum_balance_modEq (n := 0) h fun u hu => Nat.modEq_zero_iff.mpr (hbalance u hu)
  apply Nat.modEq_zero_iff.mp hmod

/-- No balance exceeds what there was at the start. -/
theorem balance_le {ts : List (Transfer U C)} {us : Finset U} (h : Among ts us) {c : C}
    {start balance : U → Nat}
    (hbalance : ∀ u ∈ us, balance u + paid ts u c = start u + received ts u c) {u : U}
    (hu : u ∈ us) :
  balance u ≤ ∑ u ∈ us, start u
  := by
  rw [← sum_balance h hbalance]
  exact Finset.single_le_sum (fun v _ => Nat.zero_le (balance v)) hu

end Ledger
