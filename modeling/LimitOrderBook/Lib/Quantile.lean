import Mathlib.Algebra.Order.Ring.Nat
import Mathlib.Data.List.Sort

/-!
# Order statistics from counts

Elements are counted by their key.  The first key with which the counts reach a rank
(`scan`) is the key of the element of that rank, if keys grow with the elements
(`scan_countP`).
-/

namespace Quantile

variable {α β : Type}

/-- The first key with which the counts, from some count on, reach a rank. -/
def scan (count : β → Nat) (t : Nat) : Nat → List β → Option β
  | _, [] => none
  | acc, b :: bs => if t ≤ acc + count b then some b else scan count t (acc + count b) bs

/-! ### The scan -/

theorem scan_cons_of_le {count : β → Nat} {t acc : Nat} {b : β} {bs : List β}
    (h : t ≤ acc + count b) :
  scan count t acc (b :: bs) = some b
  := if_pos h

theorem scan_cons_of_lt {count : β → Nat} {t acc : Nat} {b : β} {bs : List β}
    (h : acc + count b < t) :
  scan count t acc (b :: bs) = scan count t (acc + count b) bs
  := if_neg (Nat.not_le.mpr h)

/-- The scan passes the keys with which the rank is not reached, and stops at the next. -/
theorem scan_append_cons {count : β → Nat} {t : Nat} {b : β} {after : List β} :
  ∀ {before : List β} {acc : Nat},
    acc + (before.map count).sum < t → t ≤ acc + (before.map count).sum + count b →
    scan count t acc (before ++ b :: after) = some b
  | [], acc, _, hreach => by
      rw [List.nil_append]
      apply scan_cons_of_le
      simpa using hreach
  | c :: before, acc, hpass, hreach => by
      rw [List.map_cons, List.sum_cons] at hpass hreach
      rw [List.cons_append, scan_cons_of_lt (by omega)]
      apply scan_append_cons <;> omega

/-! ### Counting by keys -/

/-- The elements of some keys are counted key by key. -/
theorem sum_map_countP [DecidableEq β] (f : α → β) (xs : List α) {bs : List β} (h : bs.Nodup) :
  (bs.map (fun b => xs.countP (f · = b))).sum = xs.countP (f · ∈ bs)
  := by
  induction bs with
  | nil => simp
  | cons b bs ih =>
      obtain ⟨hb, hbs⟩ := List.nodup_cons.mp h
      rw [List.map_cons, List.sum_cons, ih hbs]
      clear ih h
      induction xs with
      | nil => rfl
      | cons x xs ihx =>
          have hdisjoint : f x = b → f x ∉ bs := fun hx => hx ▸ hb
          simp only [List.countP_cons, List.mem_cons, decide_eq_true_eq] at ihx ⊢
          split <;> split <;> simp_all <;> omega

/-! ### Ranks -/

section Rank

variable [LinearOrder β] {f : α → β} {ys : List α} {i : Nat}

/-- Fewer elements than its rank have a smaller key than an element. -/
theorem countP_lt_le (h : ys.Pairwise (f · ≤ f ·)) (hi : i < ys.length) :
  ys.countP (f · < f ys[i]) ≤ i
  := by
  have hafter : (ys.drop i).countP (f · < f ys[i]) = 0 := by
    rw [List.countP_eq_zero]
    intro y hy
    rw [List.drop_eq_getElem_cons hi] at hy
    rcases List.mem_cons.mp hy with rfl | hy
    · simp
    · have hle := h.sublist (List.drop_sublist i ys)
      rw [List.drop_eq_getElem_cons hi] at hle
      simpa using List.rel_of_pairwise_cons hle hy
  have hbefore := @List.countP_le_length _ (f · < f ys[i]) (ys.take i)
  have hsplit := @List.countP_append _ (f · < f ys[i]) (ys.take i) (ys.drop i)
  rw [List.take_append_drop, hafter] at hsplit
  rw [List.length_take] at hbefore
  omega

/-- As many elements as its rank have at most the key of an element. -/
theorem lt_countP_le (h : ys.Pairwise (f · ≤ f ·)) (hi : i < ys.length) :
  i < ys.countP (f · ≤ f ys[i])
  := by
  have hbefore : (ys.take (i + 1)).countP (f · ≤ f ys[i]) = (ys.take (i + 1)).length := by
    rw [List.countP_eq_length]
    intro y hy
    rw [← List.take_append_getElem hi] at hy
    rcases List.mem_append.mp hy with hy | hy
    · have hle := h.sublist (List.take_sublist (i + 1) ys)
      rw [← List.take_append_getElem hi] at hle
      simpa using (List.pairwise_append.mp hle).2.2 y hy _ (List.mem_singleton.mpr rfl)
    · simp [List.mem_singleton.mp hy]
  have hsplit := @List.countP_append _ (f · ≤ f ys[i]) (ys.take (i + 1)) (ys.drop (i + 1))
  rw [List.take_append_drop, hbefore, List.length_take] at hsplit
  omega

/-- The scan of the keys finds the key of the element of a rank. -/
theorem scan_countP {bs : List β} (hbs : bs.Pairwise (· < ·)) (hys : ys.Pairwise (f · ≤ f ·))
    (hi : i < ys.length) (hmem : ∀ y ∈ ys, f y ∈ bs) :
  scan (fun b => ys.countP (f · = b)) (i + 1) 0 bs = some (f ys[i])
  := by
  obtain ⟨before, after, hsplit⟩ := List.append_of_mem (hmem _ (List.getElem_mem hi))
  rw [hsplit] at hbs hmem ⊢
  obtain ⟨hbefore, hafter, hcross⟩ := List.pairwise_append.mp hbs
  have hnodup : before.Nodup := hbefore.imp ne_of_lt
  have hkeys : ∀ y ∈ ys, (f y ∈ before ↔ f y < f ys[i]) := by
    intro y hy
    constructor
    · intro hmem
      apply hcross _ hmem _ List.mem_cons_self
    · intro hlt
      rcases List.mem_append.mp (hmem y hy) with hmem | hmem
      · apply hmem
      · exfalso
        rcases List.mem_cons.mp hmem with heq | hmem
        · apply ne_of_lt hlt heq
        · apply lt_asymm hlt (List.rel_of_pairwise_cons hafter hmem)
  have hlow : (before.map (fun b => ys.countP (f · = b))).sum = ys.countP (f · < f ys[i]) := by
    rw [sum_map_countP f ys hnodup]
    apply List.countP_congr
    simpa using hkeys
  have hhigh : ys.countP (f · = f ys[i]) + (before.map (fun b => ys.countP (f · = b))).sum
      = ys.countP (f · ≤ f ys[i]) := by
    have hall : (f ys[i] :: before).Nodup := by
      apply List.nodup_cons.mpr ⟨_, hnodup⟩
      intro hmem
      apply lt_irrefl _ (hcross _ hmem _ List.mem_cons_self)
    have hsum := sum_map_countP f ys hall
    rw [List.map_cons, List.sum_cons] at hsum
    rw [hsum]
    apply List.countP_congr
    intro y hy
    simp [hkeys y hy, le_iff_eq_or_lt]
  apply scan_append_cons
  · rw [hlow]
    have hle := countP_lt_le hys hi
    omega
  · have hlt := lt_countP_le hys hi
    omega

end Rank

end Quantile
