import LimitOrderBook.Lib.While
import Mathlib.Logic.Function.Basic
import Mathlib.Data.Finset.Card
import Mathlib.Data.Finset.Range
import Mathlib.Data.Finset.Filter
import Mathlib.Data.Set.Card

/-!
# Open addressing with backward-shift deletion

A table of `capacity` slots holds at most one entry in each.  An entry is looked for from
the slot its key hashes to, one slot after the other around the table, up to the first
vacant slot.  Deletion leaves no tombstone: the entries behind the deleted one are
shifted back, each to the hole in front of it if its own search runs across that hole.

`Table.Valid` is the invariant of a table: the search for every entry runs across no
vacant slot, and no key is held twice.  Under it `Table.lookup` is a finite map, which
`Table.insert` and `Table.remove` change at one key.
-/

namespace OpenAddressing

/-- How a table lays out entries of type `σ` under keys of type `κ`.  No entry is inserted
once `limit` slots are occupied. -/
structure Scheme (κ σ : Type) where
  capacity : Nat
  mask : Nat
  limit : Nat
  hash : κ → Nat
  key : σ → κ
  occupied : σ → Bool
  vacant : σ
  and_mask : ∀ i, i &&& mask = i % capacity
  hash_lt : ∀ k, hash k < capacity
  occupied_vacant : occupied vacant = false
  limit_lt : limit < capacity

namespace Scheme

variable {κ σ : Type} (S : Scheme κ σ)

/-- The slot after `i`, around the table. -/
def succ (i : Nat) : Nat := (i + 1) &&& S.mask

/-- The slot an entry's search starts from. -/
def home (e : σ) : Nat := S.hash (S.key e)

theorem home_lt (e : σ) :
  S.home e < S.capacity
  := S.hash_lt _

theorem succ_cases {i : Nat} (hi : i < S.capacity) :
  (i + 1 = S.capacity ∧ S.succ i = 0) ∨ (i + 1 < S.capacity ∧ S.succ i = i + 1)
  := by
  rw [succ, S.and_mask]
  rcases Nat.lt_or_ge (i + 1) S.capacity with h | h
  · right
    exact ⟨h, Nat.mod_eq_of_lt h⟩
  · left
    have hi' : i + 1 = S.capacity := by omega
    exact ⟨hi', by rw [hi', Nat.mod_self]⟩

theorem succ_lt {i : Nat} (hi : i < S.capacity) :
  S.succ i < S.capacity
  := by
  have h := S.succ_cases hi
  omega

/-- How many slots a search walks from `i` to `v`. -/
def gap (i v : Nat) : Nat := if i ≤ v then v - i else v + S.capacity - i

/-- A step towards a slot makes the gap to it smaller. -/
theorem gap_succ_lt {i v : Nat} (hi : i < S.capacity) (hv : v < S.capacity) (h : i ≠ v) :
  S.gap (S.succ i) v < S.gap i v
  := by
  have hs := S.succ_cases hi
  unfold gap
  split <;> split <;> omega

theorem gap_lt {i v : Nat} (hi : i < S.capacity) (hv : v < S.capacity) :
  S.gap i v < S.capacity
  := by
  unfold gap
  split <;> omega

end Scheme

/-- The slot `x` lies on the way around the table from `a`, included, to `b`, excluded. -/
def Arc (a b x : Nat) : Prop := (a ≤ x ∧ x < b) ∨ (b < a ∧ (a ≤ x ∨ x < b))

/-- A table: its slots and the number of occupied ones. -/
structure Table {κ σ : Type} (S : Scheme κ σ) where
  entries : Nat → σ
  count : Nat

namespace Table

section

variable {κ σ : Type} {S : Scheme κ σ}

def new : Table S where
  entries _ := S.vacant
  count := 0

/-- A backward shift in progress: `curr` is the hole, `next` the slot looked at. -/
structure Shift (σ : Type) where
  entries : Nat → σ
  curr : Nat
  next : Nat

/-- The test whether the entry in slot `next`, whose search starts from `ideal`, may move
to the hole `curr`. -/
def canShift (curr next ideal : Nat) : Bool :=
  if curr < next then ideal ≤ curr || next < ideal else ideal ≤ curr && next < ideal

/-- One round of the backward shift. -/
def shiftStep (S : Scheme κ σ) (s : Shift σ) : Option (Shift σ) :=
  if S.occupied (s.entries s.next) then
    if canShift s.curr s.next (S.home (s.entries s.next)) then
      some
        { entries := Function.update s.entries s.curr (s.entries s.next)
          curr := s.next
          next := S.succ s.next }
    else
      some { s with next := S.succ s.next }
  else
    none

/-- The slots after the entry in slot `i` is deleted. -/
def shiftBack (t : Table S) (i : Nat) : Nat → σ :=
  let s := While.run (shiftStep S) S.capacity
    { entries := t.entries, curr := i, next := S.succ i }
  Function.update s.entries s.curr S.vacant

/-! ### The invariant -/

/-- The occupied slots. -/
def occupiedSlots (S : Scheme κ σ) (entries : Nat → σ) : Finset Nat :=
  (Finset.range S.capacity).filter fun i => S.occupied (entries i) = true

@[simp]
theorem mem_occupiedSlots {entries : Nat → σ} {i : Nat} :
  i ∈ occupiedSlots S entries ↔ i < S.capacity ∧ S.occupied (entries i) = true
  := by
  simp [occupiedSlots]

theorem occupiedSlots_update {entries : Nat → σ} {i : Nat} {e : σ} (hi : i < S.capacity)
    (he : S.occupied e) :
  occupiedSlots S (Function.update entries i e) = insert i (occupiedSlots S entries)
  := by
  ext x
  rcases eq_or_ne x i with rfl | hne
  · simp [he, hi]
  · simp [hne]

theorem occupiedSlots_vacate {entries : Nat → σ} {i : Nat} :
  occupiedSlots S (Function.update entries i S.vacant) = (occupiedSlots S entries).erase i
  := by
  ext x
  rcases eq_or_ne x i with rfl | hne
  · simp [S.occupied_vacant]
  · simp [hne]

/-- The invariant of a table: the search for each entry crosses occupied slots only, no two
slots hold the same key, and the count is the number of occupied slots. -/
structure Valid (t : Table S) : Prop where
  path : ∀ i < S.capacity, S.occupied (t.entries i) → ∀ x < S.capacity,
    Arc (S.home (t.entries i)) i x → S.occupied (t.entries x)
  unique : ∀ i < S.capacity, ∀ j < S.capacity, S.occupied (t.entries i) →
    S.occupied (t.entries j) → S.key (t.entries i) = S.key (t.entries j) → i = j
  count_eq : t.count = (occupiedSlots S t.entries).card
  count_le : t.count ≤ S.limit

/-- The entry `e` is in the table. -/
def Holds (t : Table S) (e : σ) : Prop :=
  ∃ i < S.capacity, S.occupied (t.entries i) ∧ t.entries i = e

/-- The new table is valid. -/
theorem valid_new :
  (new : Table S).Valid where
  path i _ h := by simp [new, S.occupied_vacant] at h
  unique i _ j _ h := by simp [new, S.occupied_vacant] at h
  count_eq := by
    symm
    simp [new, occupiedSlots, S.occupied_vacant]
  count_le := Nat.zero_le _

theorem not_holds_new (e : σ) :
  ¬ (new : Table S).Holds e
  := by
  rintro ⟨i, -, h, -⟩
  simp [new, S.occupied_vacant] at h

/-- A valid table has a vacant slot. -/
theorem Valid.exists_vacant {t : Table S} (h : t.Valid) :
  ∃ v < S.capacity, S.occupied (t.entries v) = false
  := by
  by_contra hv
  push Not at hv
  have hall : occupiedSlots S t.entries = Finset.range S.capacity := by
    apply Finset.filter_true_of_mem
    intro i hi
    simpa using hv i (Finset.mem_range.mp hi)
  have hcount := h.count_eq
  rw [hall, Finset.card_range] at hcount
  have hle := h.count_le
  have hlt := S.limit_lt
  omega

/-! ### Backward shift -/

/-- The invariant of the backward shift out of the table `t`, whose entry in slot `i` is
deleted.  The hole still shows the entry moved out of it, so that the same slots are
occupied as in `t`; `ahead` says that no search for an entry between the hole and the slot
looked at crosses the hole. -/
structure Shifting (t : Table S) (i : Nat) (s : Shift σ) : Prop where
  curr_lt : s.curr < S.capacity
  next_lt : s.next < S.capacity
  curr_ne_next : s.curr ≠ s.next
  same : ∀ x < S.capacity, S.occupied (s.entries x) = S.occupied (t.entries x)
  full : ∀ x < S.capacity, Arc s.curr s.next x → S.occupied (s.entries x)
  ahead : ∀ x < S.capacity, Arc s.curr s.next x → x ≠ s.curr →
    ¬ Arc (S.home (s.entries x)) x s.curr
  path : ∀ j < S.capacity, j ≠ s.curr → S.occupied (s.entries j) → ∀ x < S.capacity,
    Arc (S.home (s.entries j)) j x → S.occupied (s.entries x)
  unique : ∀ j < S.capacity, ∀ l < S.capacity, j ≠ s.curr → l ≠ s.curr →
    S.occupied (s.entries j) → S.occupied (s.entries l) →
    S.key (s.entries j) = S.key (s.entries l) → j = l
  content : ∀ e, (∃ j < S.capacity, j ≠ s.curr ∧ S.occupied (s.entries j) ∧ s.entries j = e)
    ↔ t.Holds e ∧ S.key e ≠ S.key (t.entries i)

/-- The shift begins with the deleted slot as the hole. -/
theorem Valid.shifting_start {t : Table S} (h : t.Valid) {i : Nat} (hi : i < S.capacity)
    (hocc : S.occupied (t.entries i)) :
  t.Shifting i { entries := t.entries, curr := i, next := S.succ i }
  := by
  obtain ⟨v, hv, hvacant⟩ := h.exists_vacant
  have hs := S.succ_cases hi
  have hvi : v ≠ i := by
    rintro rfl
    simp [hvacant] at hocc
  refine
    { curr_lt := hi, next_lt := S.succ_lt hi, curr_ne_next := ?_, same := fun _ _ => rfl,
      full := ?_, ahead := ?_, path := fun j hj _ hoccj => h.path j hj hoccj,
      unique := fun j hj l hl _ _ => h.unique j hj l hl, content := ?_ }
  · dsimp only
    omega
  · intro x hx harc
    have hxi : x = i := by
      unfold Arc at harc
      dsimp only at harc
      omega
    rwa [hxi]
  · intro x hx harc hne
    unfold Arc at harc
    dsimp only at harc hne
    omega
  · intro e
    constructor
    · rintro ⟨j, hj, hne, hoccj, rfl⟩
      refine ⟨⟨j, hj, hoccj, rfl⟩, ?_⟩
      intro hkey
      exact hne (h.unique j hj i hi hoccj hocc hkey)
    · rintro ⟨⟨j, hj, hoccj, rfl⟩, hkey⟩
      use j, hj
      refine ⟨?_, hoccj, rfl⟩
      rintro rfl
      exact hkey rfl

/-- The test decides whether the search for the entry in slot `next` crosses the hole. -/
theorem canShift_iff {curr next ideal : Nat} :
  canShift curr next ideal = true ↔ Arc ideal next curr
  := by
  unfold canShift Arc
  split
  · simp only [Bool.or_eq_true, decide_eq_true_eq]
    omega
  · simp only [Bool.and_eq_true, decide_eq_true_eq]
    omega

/-- The hole never catches up with the slot looked at: a vacant slot lies ahead. -/
theorem Shifting.curr_ne_succ {t : Table S} {i : Nat} {s : Shift σ} (hs : t.Shifting i s)
    {v : Nat} (hv : v < S.capacity) (hvacant : S.occupied (t.entries v) = false)
    (hocc : S.occupied (s.entries s.next)) :
  s.curr ≠ S.succ s.next
  := by
  intro heq
  have hnext := S.succ_cases hs.next_lt
  have hcurr := hs.curr_lt
  have hne := hs.curr_ne_next
  have hsv := hs.same v hv
  have hvn : v ≠ s.next := by
    rintro rfl
    rw [hsv, hvacant] at hocc
    contradiction
  have harc : Arc s.curr s.next v := by
    unfold Arc
    omega
  have hfull := hs.full v hv harc
  rw [hsv, hvacant] at hfull
  contradiction

/-- The slots that are occupied stay so when an entry moves to the hole. -/
theorem Shifting.occupied_update {t : Table S} {i : Nat} {s : Shift σ} (hs : t.Shifting i s)
    (hocc : S.occupied (s.entries s.next)) {x : Nat} (hx : x < S.capacity) :
  S.occupied (Function.update s.entries s.curr (s.entries s.next) x) = S.occupied (s.entries x)
  := by
  have hnext := hs.next_lt
  have hcurr := hs.curr_lt
  have hne := hs.curr_ne_next
  rcases eq_or_ne x s.curr with rfl | hxc
  · have harc : Arc s.curr s.next s.curr := by
      unfold Arc
      omega
    rw [Function.update_self, hocc, hs.full _ hx harc]
  · rw [Function.update_of_ne hxc]

theorem Shifting.unique_update {t : Table S} {i : Nat} {s : Shift σ} (hs : t.Shifting i s)
    (hocc : S.occupied (s.entries s.next)) {j l : Nat} (hj : j < S.capacity)
    (hl : l < S.capacity) (hnej : j ≠ s.next) (hnel : l ≠ s.next)
    (hoccj : S.occupied (s.entries j)) (hoccl : S.occupied (s.entries l))
    (hkey : S.key (Function.update s.entries s.curr (s.entries s.next) j)
      = S.key (Function.update s.entries s.curr (s.entries s.next) l)) :
  j = l
  := by
  have hcn := hs.curr_ne_next
  rcases eq_or_ne j s.curr with rfl | hjc <;> rcases eq_or_ne l s.curr with hlc | hlc
  · exact hlc.symm
  · rw [Function.update_self, Function.update_of_ne hlc] at hkey
    exact absurd (hs.unique _ hs.next_lt l hl hcn.symm hlc hocc hoccl hkey).symm hnel
  · subst hlc
    rw [Function.update_self, Function.update_of_ne hjc] at hkey
    exact absurd (hs.unique j hj _ hs.next_lt hjc hcn.symm hoccj hocc hkey) hnej
  · rw [Function.update_of_ne hjc, Function.update_of_ne hlc] at hkey
    apply hs.unique j hj l hl hjc hlc hoccj hoccl hkey

/-- The entries are the same, when the entry in `next` has moved to the hole. -/
theorem Shifting.content_update {t : Table S} {i : Nat} {s : Shift σ} (hs : t.Shifting i s)
    (hocc : S.occupied (s.entries s.next)) (e : σ) :
  (∃ j < S.capacity, j ≠ s.next ∧ S.occupied (s.entries j)
      ∧ Function.update s.entries s.curr (s.entries s.next) j = e)
    ↔ ∃ j < S.capacity, j ≠ s.curr ∧ S.occupied (s.entries j) ∧ s.entries j = e
  := by
  have hcn := hs.curr_ne_next
  constructor
  · rintro ⟨j, hj, -, hoccj, rfl⟩
    rcases eq_or_ne j s.curr with rfl | hjc
    · use s.next, hs.next_lt, hcn.symm, hocc
      rw [Function.update_self]
    · use j, hj, hjc, hoccj
      rw [Function.update_of_ne hjc]
  · rintro ⟨j, hj, hne, hoccj, rfl⟩
    rcases eq_or_ne j s.next with rfl | hjn
    · have harc : Arc s.curr s.next s.curr := by
        have hnext := hs.next_lt
        unfold Arc
        omega
      use s.curr, hs.curr_lt, hcn, hs.full _ hs.curr_lt harc
      rw [Function.update_self]
    · use j, hj, hjn, hoccj
      rw [Function.update_of_ne hne]

/-- The entry in `next` moves to the hole, and leaves a hole behind. -/
theorem Shifting.move {t : Table S} {i : Nat} {s : Shift σ} (hs : t.Shifting i s)
    (hocc : S.occupied (s.entries s.next))
    (hcross : Arc (S.home (s.entries s.next)) s.next s.curr) :
  t.Shifting i
    { entries := Function.update s.entries s.curr (s.entries s.next)
      curr := s.next
      next := S.succ s.next }
  := by
  have hsucc := S.succ_cases hs.next_lt
  have hnlt := hs.next_lt
  have hclt := hs.curr_lt
  have hcn := hs.curr_ne_next
  constructor
  · apply hnlt
  · apply S.succ_lt hnlt
  · dsimp only
    omega
  · intro x hx
    rw [hs.occupied_update hocc hx, hs.same x hx]
  · intro x hx harc
    have hxn : x = s.next := by
      unfold Arc at harc
      dsimp only at harc
      omega
    rw [hs.occupied_update hocc hx, hxn, hocc]
  · intro x hx harc hne
    unfold Arc at harc
    dsimp only at harc hne
    omega
  · intro j hj hne hoccj x hx harc
    rw [hs.occupied_update hocc hj] at hoccj
    rw [hs.occupied_update hocc hx]
    dsimp only at harc
    rcases eq_or_ne j s.curr with rfl | hjc
    · rw [Function.update_self] at harc
      apply hs.path s.next hnlt hcn.symm hocc x hx
      have hhome := S.home_lt (s.entries s.next)
      unfold Arc at harc hcross ⊢
      omega
    · rw [Function.update_of_ne hjc] at harc
      apply hs.path j hj hjc hoccj x hx harc
  · intro j hj l hl hnej hnel hoccj hoccl hkey
    rw [hs.occupied_update hocc hj] at hoccj
    rw [hs.occupied_update hocc hl] at hoccl
    apply hs.unique_update hocc hj hl hnej hnel hoccj hoccl hkey
  · intro e
    rw [← hs.content e, ← hs.content_update hocc e]
    apply exists_congr
    intro j
    apply and_congr_right
    intro hj
    rw [hs.occupied_update hocc hj]

/-- The entry in `next` stays, as the search for it does not cross the hole. -/
theorem Shifting.skip {t : Table S} (h : t.Valid) {i : Nat} {s : Shift σ} (hs : t.Shifting i s)
    (hocc : S.occupied (s.entries s.next))
    (hcross : ¬ Arc (S.home (s.entries s.next)) s.next s.curr) :
  t.Shifting i { s with next := S.succ s.next }
  := by
  obtain ⟨v, hv, hvacant⟩ := h.exists_vacant
  have hsucc := S.succ_cases hs.next_lt
  have hclt := hs.curr_lt
  have hcn := hs.curr_ne_next
  -- the slots between the hole and the next slot are those before, and `next`
  have harc_succ : ∀ x < S.capacity, Arc s.curr (S.succ s.next) x →
      Arc s.curr s.next x ∨ x = s.next := by
    intro x hx harc
    unfold Arc at harc ⊢
    omega
  refine
    { curr_lt := hclt, next_lt := S.succ_lt hs.next_lt,
      curr_ne_next := hs.curr_ne_succ hv hvacant hocc, same := hs.same,
      full := ?_, ahead := ?_, path := hs.path, unique := hs.unique,
      content := hs.content }
  · intro x hx harc
    rcases harc_succ x hx harc with harc | rfl
    · apply hs.full x hx harc
    · apply hocc
  · intro x hx harc hne
    rcases harc_succ x hx harc with harc | rfl
    · apply hs.ahead x hx harc hne
    · apply hcross

/-- A step of the shift keeps its invariant. -/
theorem Shifting.step {t : Table S} (h : t.Valid) {i : Nat} {s s' : Shift σ}
    (hs : t.Shifting i s) (hstep : shiftStep S s = some s') :
  t.Shifting i s'
  := by
  unfold shiftStep at hstep
  split at hstep
  · next hocc =>
    split at hstep
    · next hcan =>
      obtain rfl := Option.some.inj hstep
      apply hs.move hocc (canShift_iff.mp hcan)
    · next hcan =>
      obtain rfl := Option.some.inj hstep
      apply hs.skip h hocc
      rw [← canShift_iff]
      exact hcan
  · contradiction

/-- When the slot looked at is vacant, no search crosses the hole any more. -/
theorem Shifting.not_crossed {t : Table S} {i : Nat} {s : Shift σ} (hs : t.Shifting i s)
    (hend : shiftStep S s = none) {j : Nat} (hj : j < S.capacity) (hne : j ≠ s.curr)
    (hocc : S.occupied (s.entries j)) :
  ¬ Arc (S.home (s.entries j)) j s.curr
  := by
  intro hcross
  have hnext : S.occupied (s.entries s.next) = false := by
    unfold shiftStep at hend
    split at hend
    · split at hend <;> contradiction
    · next h => simpa using h
  have hjn : j ≠ s.next := by
    rintro rfl
    simp [hnext] at hocc
  rcases Classical.em (Arc s.curr s.next j) with harc | harc
  · exact hs.ahead j hj harc hne hcross
  · -- the search runs on from the hole across the vacant slot
    have hbehind : Arc (S.home (s.entries j)) j s.next := by
      have hhome := S.home_lt (s.entries j)
      have hnlt := hs.next_lt
      have hclt := hs.curr_lt
      have hcn := hs.curr_ne_next
      unfold Arc at hcross harc ⊢
      omega
    have hoccn := hs.path j hj hne hocc _ hs.next_lt hbehind
    simp [hnext] at hoccn

/-- The shift ends within `capacity` rounds, under its invariant. -/
theorem Valid.shifting_run {t : Table S} (h : t.Valid) {i : Nat} (hi : i < S.capacity)
    (hocc : S.occupied (t.entries i)) :
  let s := While.run (shiftStep S) S.capacity
    { entries := t.entries, curr := i, next := S.succ i }
  t.Shifting i s ∧ shiftStep S s = none
  := by
  obtain ⟨v, hv, hvacant⟩ := h.exists_vacant
  apply While.run_spec (t.Shifting i) (fun s => S.gap s.next v)
  · intro s s' hs hstep
    refine ⟨hs.step h hstep, ?_⟩
    have hoccn : S.occupied (s.entries s.next) = true := by
      by_contra hn
      simp [shiftStep, hn] at hstep
    have hnext : s'.next = S.succ s.next := by
      unfold shiftStep at hstep
      rw [if_pos hoccn] at hstep
      split at hstep <;> obtain rfl := Option.some.inj hstep <;> rfl
    rw [hnext]
    apply S.gap_succ_lt hs.next_lt hv
    intro heq
    rw [heq, hs.same v hv, hvacant] at hoccn
    contradiction
  · apply h.shifting_start hi hocc
  · exact (S.gap_lt (S.succ_lt hi) hv).le

/-- The shift moves entries into slots that were occupied. -/
theorem Shifting.occupiedSlots_eq {t : Table S} {i : Nat} {s : Shift σ} (hs : t.Shifting i s) :
  occupiedSlots S s.entries = occupiedSlots S t.entries
  := by
  ext x
  simp only [mem_occupiedSlots]
  apply and_congr_right
  intro hx
  rw [hs.same x hx]

/-- The slot that is to be vacated is occupied. -/
theorem Shifting.occupied_curr {t : Table S} {i : Nat} {s : Shift σ} (hs : t.Shifting i s) :
  S.occupied (t.entries s.curr)
  := by
  rw [← hs.same _ hs.curr_lt]
  apply hs.full _ hs.curr_lt
  have hcn := hs.curr_ne_next
  unfold Arc
  omega

/-- The slots after the entry in slot `i` of a valid table is deleted. -/
theorem Valid.shiftBack {t : Table S} (h : t.Valid) {i : Nat} (hi : i < S.capacity)
    (hocc : S.occupied (t.entries i)) :
  Valid { entries := t.shiftBack i, count := t.count - 1 : Table S }
    ∧ ∀ e, Holds { entries := t.shiftBack i, count := t.count - 1 : Table S } e
      ↔ t.Holds e ∧ S.key e ≠ S.key (t.entries i)
  := by
  obtain ⟨hs, hend⟩ := h.shifting_run hi hocc
  unfold Table.shiftBack
  dsimp only
  generalize While.run (shiftStep S) S.capacity
    { entries := t.entries, curr := i, next := S.succ i } = s at hs hend
  have hne_of_occ : ∀ j, S.occupied (Function.update s.entries s.curr S.vacant j) →
      j ≠ s.curr := by
    rintro j hj rfl
    simp [S.occupied_vacant] at hj
  refine ⟨⟨?_, ?_, ?_, ?_⟩, ?_⟩
  · intro j hj hoccj x hx harc
    have hne := hne_of_occ j hoccj
    dsimp only at hoccj harc ⊢
    rw [Function.update_of_ne hne] at hoccj harc
    have hxc : x ≠ s.curr := by
      rintro rfl
      exact hs.not_crossed hend hj hne hoccj harc
    rw [Function.update_of_ne hxc]
    apply hs.path j hj hne hoccj x hx harc
  · intro j hj l hl hoccj hoccl hkey
    have hnej := hne_of_occ j hoccj
    have hnel := hne_of_occ l hoccl
    dsimp only at hoccj hoccl hkey
    rw [Function.update_of_ne hnej] at hoccj hkey
    rw [Function.update_of_ne hnel] at hoccl hkey
    apply hs.unique j hj l hl hnej hnel hoccj hoccl hkey
  · rw [occupiedSlots_vacate, hs.occupiedSlots_eq, Finset.card_erase_of_mem
      (mem_occupiedSlots.mpr ⟨hs.curr_lt, hs.occupied_curr⟩), ← h.count_eq]
  · have hle := h.count_le
    dsimp only
    omega
  · intro e
    rw [← hs.content e]
    constructor
    · rintro ⟨j, hj, hoccj, rfl⟩
      have hne := hne_of_occ j hoccj
      dsimp only at hoccj ⊢
      rw [Function.update_of_ne hne] at hoccj ⊢
      exact ⟨j, hj, hne, hoccj, rfl⟩
    · rintro ⟨j, hj, hne, hoccj, rfl⟩
      use j, hj
      dsimp only
      rw [Function.update_of_ne hne]
      exact ⟨hoccj, rfl⟩

end

variable {κ σ : Type} [DecidableEq κ] {S : Scheme κ σ}

/-- One round of the search for `k`: it ends at a vacant slot or at an entry of key `k`. -/
def probeStep (t : Table S) (k : κ) (i : Nat) : Option Nat :=
  if S.occupied (t.entries i) = false ∨ S.key (t.entries i) = k then none else some (S.succ i)

/-- The slot at which the search for `k` ends. -/
def probe (t : Table S) (k : κ) : Nat := While.run (t.probeStep k) S.capacity (S.hash k)

/-- Put the entry `e` under its key, or answer `none` when the table is full. -/
def insert (t : Table S) (e : σ) : Option (Table S) :=
  if S.limit ≤ t.count then
    none
  else
    let i := t.probe (S.key e)
    some
      { entries := Function.update t.entries i e
        count := if S.occupied (t.entries i) then t.count else t.count + 1 }

def lookup (t : Table S) (k : κ) : Option σ :=
  let e := t.entries (t.probe k)
  if S.occupied e ∧ S.key e = k then some e else none

/-- Delete the entry of key `k` and answer it. -/
def remove (t : Table S) (k : κ) : Option σ × Table S :=
  let i := t.probe k
  if S.occupied (t.entries i) ∧ S.key (t.entries i) = k then
    (some (t.entries i), { entries := t.shiftBack i, count := t.count - 1 })
  else
    (none, t)

/-! ### Searching -/

/-- Where a search ends: at a vacant slot or at the key, after occupied slots of other
keys. -/
structure Found (t : Table S) (k : κ) (i : Nat) : Prop where
  lt : i < S.capacity
  stop : S.occupied (t.entries i) = false ∨ S.key (t.entries i) = k
  before : ∀ x < S.capacity, Arc (S.hash k) i x →
    S.occupied (t.entries x) ∧ S.key (t.entries x) ≠ k

/-- The search ends within `capacity` rounds, and where it should. -/
theorem Valid.found_probe {t : Table S} (h : t.Valid) (k : κ) :
  t.Found k (t.probe k)
  := by
  obtain ⟨v, hv, hvacant⟩ := h.exists_vacant
  have hk := S.hash_lt k
  have hrun := @While.run_spec _ (t.probeStep k)
    (fun i => i < S.capacity ∧ ∀ x < S.capacity, Arc (S.hash k) i x →
      S.occupied (t.entries x) ∧ S.key (t.entries x) ≠ k)
    (fun i => S.gap i v)
    (by
      rintro i i' ⟨hi, hbefore⟩ hstep
      unfold probeStep at hstep
      split at hstep
      · contradiction
      · next hgo =>
          obtain rfl := Option.some.inj hstep
          push Not at hgo
          obtain ⟨hocc, hkey⟩ := hgo
          have hs := S.succ_cases hi
          refine ⟨⟨S.succ_lt hi, ?_⟩, ?_⟩
          · intro x hx harc
            rcases eq_or_ne x i with rfl | hne
            · exact ⟨by simpa using hocc, hkey⟩
            · apply hbefore x hx
              unfold Arc at harc ⊢
              omega
          · apply S.gap_succ_lt hi hv
            rintro rfl
            simp [hvacant] at hocc)
    S.capacity (S.hash k)
    (by
      refine ⟨hk, ?_⟩
      intro x _ harc
      unfold Arc at harc
      omega)
    (S.gap_lt hk hv).le
  obtain ⟨⟨hlt, hbefore⟩, hend⟩ := hrun
  refine ⟨hlt, ?_, hbefore⟩
  unfold probeStep at hend
  split at hend
  · next hstop => apply hstop
  · contradiction

/-- The search for the key of an entry ends at that entry. -/
theorem Valid.probe_eq {t : Table S} (h : t.Valid) {i : Nat} (hi : i < S.capacity)
    (hocc : S.occupied (t.entries i)) :
  t.probe (S.key (t.entries i)) = i
  := by
  have hf := h.found_probe (S.key (t.entries i))
  by_contra hne
  have hlt := hf.lt
  have hhome : S.hash (S.key (t.entries i)) < S.capacity := S.hash_lt _
  have harc : Arc (S.hash (S.key (t.entries i))) (t.probe (S.key (t.entries i))) i
      ∨ Arc (S.hash (S.key (t.entries i))) i (t.probe (S.key (t.entries i))) := by
    unfold Arc
    omega
  rcases harc with harc | harc
  · exact (hf.before i hi harc).2 rfl
  · have hoccp := h.path i hi hocc _ hlt harc
    rcases hf.stop with hstop | hstop
    · simp [hstop] at hoccp
    · exact hne (h.unique _ hlt i hi hoccp hocc hstop)

/-- A lookup answers the entry of its key, and nothing else. -/
theorem Valid.lookup_eq_some_iff {t : Table S} (h : t.Valid) {k : κ} {e : σ} :
  t.lookup k = some e ↔ t.Holds e ∧ S.key e = k
  := by
  simp only [lookup]
  constructor
  · intro hlookup
    split at hlookup
    · next hfound =>
        obtain rfl := Option.some.inj hlookup
        exact ⟨⟨t.probe k, (h.found_probe k).lt, hfound.1, rfl⟩, hfound.2⟩
    · contradiction
  · rintro ⟨⟨i, hi, hocc, rfl⟩, rfl⟩
    rw [h.probe_eq hi hocc, if_pos ⟨hocc, rfl⟩]

theorem lookup_new (k : κ) :
  (new : Table S).lookup k = none
  := by
  apply Option.eq_none_iff_forall_ne_some.mpr
  intro e he
  exact not_holds_new e (valid_new.lookup_eq_some_iff.mp he).1

/-- The search ends of itself, not for lack of rounds. -/
theorem Valid.probe_ends {t : Table S} (h : t.Valid) (k : κ) :
  t.probeStep k (t.probe k) = none
  := by
  unfold probeStep
  rw [if_pos (h.found_probe k).stop]

/-- The loops of the methods of a table end of themselves. -/
structure LoopsEnd (t : Table S) : Prop where
  probe : ∀ k, t.probeStep k (t.probe k) = none
  shift : ∀ i < S.capacity, S.occupied (t.entries i) →
    shiftStep S (While.run (shiftStep S) S.capacity
      { entries := t.entries, curr := i, next := S.succ i }) = none

/-- Every loop over a valid table comes to an end. -/
theorem Valid.loopsEnd {t : Table S} (h : t.Valid) :
  t.LoopsEnd where
  probe := h.probe_ends
  shift _ hi hocc := (h.shifting_run hi hocc).2

/-- The count is the number of keys. -/
theorem Valid.count_eq_ncard {t : Table S} (h : t.Valid) :
  t.count = {k | t.lookup k ≠ none}.ncard
  := by
  have hkeys : {k | t.lookup k ≠ none}
      = (fun i => S.key (t.entries i)) '' (occupiedSlots S t.entries : Set Nat) := by
    ext k
    rw [Set.mem_ofPred_eq, Option.ne_none_iff_exists']
    constructor
    · rintro ⟨e, he⟩
      obtain ⟨⟨i, hi, hocc, rfl⟩, rfl⟩ := h.lookup_eq_some_iff.mp he
      exact ⟨i, mem_occupiedSlots.mpr ⟨hi, hocc⟩, rfl⟩
    · rintro ⟨i, hi, rfl⟩
      obtain ⟨hi, hocc⟩ := mem_occupiedSlots.mp hi
      exact ⟨_, h.lookup_eq_some_iff.mpr ⟨⟨i, hi, hocc, rfl⟩, rfl⟩⟩
  rw [h.count_eq, hkeys, Set.InjOn.ncard_image, Set.ncard_coe_finset]
  intro i hi j hj hkey
  obtain ⟨hi, hocc⟩ := mem_occupiedSlots.mp hi
  obtain ⟨hj, hocc'⟩ := mem_occupiedSlots.mp hj
  apply h.unique i hi j hj hocc hocc' hkey

/-- If all keys of a table are in a list, the table counts no more entries than the list
has elements. -/
theorem Valid.count_le_length {t : Table S} (h : t.Valid) {L : List κ}
    (hL : ∀ k e, t.lookup k = some e → k ∈ L) :
  t.count ≤ L.length
  := by
  classical
  rw [h.count_eq]
  calc (occupiedSlots S t.entries).card
      ≤ L.toFinset.card := by
        apply Finset.card_le_card_of_injOn (fun i => S.key (t.entries i))
        · intro i hi
          obtain ⟨hi, hocc⟩ := mem_occupiedSlots.mp hi
          apply List.mem_toFinset.mpr
          apply hL _ (t.entries i)
          apply h.lookup_eq_some_iff.mpr ⟨⟨i, hi, hocc, rfl⟩, rfl⟩
        · intro i hi j hj hkey
          obtain ⟨hi, hocc⟩ := mem_occupiedSlots.mp hi
          obtain ⟨hj, hocc'⟩ := mem_occupiedSlots.mp hj
          apply h.unique i hi j hj hocc hocc' hkey
    _ ≤ L.length := List.toFinset_card_le L

/-! ### Insertion -/

/-- An insertion fails exactly at the limit. -/
theorem insert_eq_none_iff {t : Table S} {e : σ} :
  t.insert e = none ↔ S.limit ≤ t.count
  := by
  simp [insert]

/-- The slot at which the search has ended is the only one that may hold the key. -/
theorem Valid.key_ne_of_ne_probe {t : Table S} (h : t.Valid) {k : κ} {i : Nat}
    (hi : i < S.capacity) (hne : i ≠ t.probe k) (hocc : S.occupied (t.entries i)) :
  S.key (t.entries i) ≠ k
  := by
  rintro rfl
  exact hne (h.probe_eq hi hocc).symm

theorem Valid.unique_update {t : Table S} (h : t.Valid) {e : σ} {i j : Nat}
    (hi : i < S.capacity) (hj : j < S.capacity)
    (hocc : S.occupied (Function.update t.entries (t.probe (S.key e)) e i))
    (hocc' : S.occupied (Function.update t.entries (t.probe (S.key e)) e j))
    (hkey : S.key (Function.update t.entries (t.probe (S.key e)) e i)
      = S.key (Function.update t.entries (t.probe (S.key e)) e j)) :
  i = j
  := by
  rcases eq_or_ne i (t.probe (S.key e)) with hip | hip <;>
    rcases eq_or_ne j (t.probe (S.key e)) with hjp | hjp
  · exact hip.trans hjp.symm
  · rw [Function.update_of_ne hjp] at hocc' hkey
    rw [hip, Function.update_self] at hkey
    exact absurd hkey.symm (h.key_ne_of_ne_probe hj hjp hocc')
  · rw [Function.update_of_ne hip] at hocc hkey
    rw [hjp, Function.update_self] at hkey
    exact absurd hkey (h.key_ne_of_ne_probe hi hip hocc)
  · rw [Function.update_of_ne hip] at hocc hkey
    rw [Function.update_of_ne hjp] at hocc' hkey
    apply h.unique i hi j hj hocc hocc' hkey

/-- What a table holds after an entry is written. -/
theorem Valid.holds_update {t : Table S} (h : t.Valid) {e : σ} (he : S.occupied e) (e' : σ) :
  (∃ i < S.capacity, S.occupied (Function.update t.entries (t.probe (S.key e)) e i)
      ∧ Function.update t.entries (t.probe (S.key e)) e i = e')
    ↔ e' = e ∨ (t.Holds e' ∧ S.key e' ≠ S.key e)
  := by
  have hf := h.found_probe (S.key e)
  constructor
  · rintro ⟨i, hi, hocc, rfl⟩
    rcases eq_or_ne i (t.probe (S.key e)) with hip | hip
    · left
      rw [hip, Function.update_self]
    · right
      rw [Function.update_of_ne hip] at hocc ⊢
      exact ⟨⟨i, hi, hocc, rfl⟩, h.key_ne_of_ne_probe hi hip hocc⟩
  · rintro (rfl | ⟨⟨i, hi, hocc, rfl⟩, hkey⟩)
    · use t.probe (S.key e'), hf.lt
      rw [Function.update_self]
      exact ⟨he, rfl⟩
    · have hip : i ≠ t.probe (S.key e) := by
        rintro rfl
        rcases hf.stop with hstop | hstop
        · simp [hstop] at hocc
        · exact hkey hstop
      use i, hi
      rw [Function.update_of_ne hip]
      exact ⟨hocc, rfl⟩

/-- Insertion into a valid table that is not full. -/
theorem Valid.insert {t : Table S} (h : t.Valid) {e : σ} (he : S.occupied e)
    {t' : Table S} (hins : t.insert e = some t') :
  t'.Valid ∧ ∀ e', t'.Holds e' ↔ e' = e ∨ (t.Holds e' ∧ S.key e' ≠ S.key e)
  := by
  unfold Table.insert at hins
  split at hins
  · contradiction
  next hlimit =>
  obtain rfl := Option.some.inj hins
  have hf := h.found_probe (S.key e)
  have hentries : ∀ x, S.occupied (t.entries x) →
      S.occupied (Function.update t.entries (t.probe (S.key e)) e x) := by
    intro x hx
    rw [Function.update_apply]
    split
    · exact he
    · exact hx
  refine ⟨⟨?_, ?_, ?_, ?_⟩, h.holds_update he⟩
  · intro i hi hocc x hx harc
    apply hentries
    rcases eq_or_ne i (t.probe (S.key e)) with rfl | hne
    · simp only [Function.update_self] at harc
      apply (hf.before x hx harc).1
    · simp only [Function.update_of_ne hne] at hocc harc
      apply h.path i hi hocc x hx harc
  · intro i hi j hj hocc hocc' hkey
    apply h.unique_update hi hj hocc hocc' hkey
  · simp only [occupiedSlots_update hf.lt he, h.count_eq]
    split
    · next hocc =>
        rw [Finset.insert_eq_of_mem]
        simp [hf.lt, hocc]
    · next hocc =>
        rw [Finset.card_insert_of_notMem]
        simp [hocc]
  · have hle := h.count_le
    dsimp only
    split <;> omega

/-- What an insertion changes for lookups. -/
theorem Valid.lookup_insert {t : Table S} (h : t.Valid) {e : σ} (he : S.occupied e)
    {t' : Table S} (hins : t.insert e = some t') (k : κ) :
  t'.lookup k = if k = S.key e then some e else t.lookup k
  := by
  obtain ⟨h', hholds⟩ := h.insert he hins
  apply Option.ext
  intro x
  rw [h'.lookup_eq_some_iff, hholds]
  split
  · next hk =>
      subst hk
      constructor
      · rintro ⟨rfl | ⟨-, hne⟩, hkey⟩
        · rfl
        · exact absurd hkey hne
      · rintro ⟨⟩
        exact ⟨.inl rfl, rfl⟩
  · next hk =>
      rw [h.lookup_eq_some_iff]
      constructor
      · rintro ⟨rfl | ⟨hx, -⟩, hkey⟩
        · exact absurd hkey.symm hk
        · exact ⟨hx, hkey⟩
      · rintro ⟨hx, rfl⟩
        exact ⟨.inr ⟨hx, hk⟩, rfl⟩

/-! ### Deletion -/

theorem remove_fst (t : Table S) (k : κ) :
  (t.remove k).1 = t.lookup k
  := by
  unfold remove lookup
  dsimp only
  split <;> rfl

/-- A deletion takes the entry of its key, and no other. -/
theorem Valid.remove {t : Table S} (h : t.Valid) (k : κ) :
  (t.remove k).2.Valid ∧ ∀ e, (t.remove k).2.Holds e ↔ t.Holds e ∧ S.key e ≠ k
  := by
  have hf := h.found_probe k
  unfold Table.remove
  dsimp only
  split
  · next hfound =>
      have hshift := h.shiftBack hf.lt hfound.1
      rw [hfound.2] at hshift
      apply hshift
  · next hfound =>
      use h
      intro e
      constructor
      · intro he
        use he
        rintro rfl
        obtain ⟨i, hi, hocc, rfl⟩ := he
        rw [h.probe_eq hi hocc] at hfound
        exact hfound ⟨hocc, rfl⟩
      · rintro ⟨he, -⟩
        apply he

/-- What a deletion changes for lookups. -/
theorem Valid.lookup_remove {t : Table S} (h : t.Valid) (k k' : κ) :
  (t.remove k).2.lookup k' = if k' = k then none else t.lookup k'
  := by
  obtain ⟨h', hholds⟩ := h.remove k
  apply Option.ext
  intro x
  rw [h'.lookup_eq_some_iff, hholds]
  split
  · next hk =>
      subst hk
      simp
  · next hk =>
      rw [h.lookup_eq_some_iff]
      constructor
      · rintro ⟨⟨hx, -⟩, hkey⟩
        exact ⟨hx, hkey⟩
      · rintro ⟨hx, rfl⟩
        exact ⟨⟨hx, hk⟩, rfl⟩

end Table

end OpenAddressing
