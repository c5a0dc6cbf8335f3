import Mathlib.Algebra.Order.Ring.Nat
import Mathlib.Algebra.Order.Group.Abs
import Mathlib.Data.Nat.Log
import Mathlib.Tactic.Linarith

/-!
# Log-linear buckets

The numbers below `2 ^ m` have a bucket each, and every octave above them is divided into
`2 ^ m` buckets of one width.  A number is off the middle of its bucket by at most its
`2 ^ (m + 1)`-th part.
-/

namespace LogLinear

/-- The bucket of a number. -/
def bucket (m x : Nat) : Nat :=
  if x < 2 ^ m then x else (x.log2 - m) * 2 ^ m + x / 2 ^ (x.log2 - m)

/-- The middle of a bucket. -/
def mid (m b : Nat) : Nat :=
  if b < 2 ^ m then
    b
  else
    (2 ^ m + b % 2 ^ m) * 2 ^ (b / 2 ^ m - 1) + 2 ^ (b / 2 ^ m - 1) / 2

variable {m x y b b' : Nat}

/-! ### The bucket of a number -/

/-- Below `2 ^ m` each value has a bucket of its own. -/
theorem bucket_of_lt (h : x < 2 ^ m) :
  bucket m x = x
  := if_pos h

/-- From `2 ^ m` on the bucket is made of the exponent and the leading bits. -/
theorem bucket_of_le (h : 2 ^ m ≤ x) :
  bucket m x = (x.log2 - m) * 2 ^ m + x / 2 ^ (x.log2 - m)
  := if_neg (Nat.not_lt.mpr h)

/-- The octave of a number, and the number in the widths of its buckets. -/
theorem octave (h : 2 ^ m ≤ x) :
  m ≤ x.log2 ∧ 2 ^ m ≤ x / 2 ^ (x.log2 - m) ∧ x / 2 ^ (x.log2 - m) < 2 ^ (m + 1)
  := by
  have hpos : 0 < 2 ^ m := Nat.two_pow_pos m
  have hne : x ≠ 0 := by omega
  have hm : m ≤ x.log2 := (Nat.le_log2 hne).mpr h
  refine ⟨hm, ?_, ?_⟩
  · rw [Nat.le_div_iff_mul_le (Nat.two_pow_pos _), ← Nat.pow_add, Nat.add_sub_cancel' hm]
    apply Nat.log2_self_le hne
  · rw [Nat.div_lt_iff_lt_mul (Nat.two_pow_pos _), ← Nat.pow_add]
    have hexp : m + 1 + (x.log2 - m) = x.log2 + 1 := by omega
    rw [hexp]
    apply Nat.lt_log2_self

theorem le_bucket (h : 2 ^ m ≤ x) :
  (x.log2 - m + 1) * 2 ^ m ≤ bucket m x
  := by
  obtain ⟨-, hlow, -⟩ := octave h
  rw [bucket_of_le h, Nat.add_one_mul]
  omega

theorem bucket_lt (h : 2 ^ m ≤ x) :
  bucket m x < (x.log2 - m + 2) * 2 ^ m
  := by
  obtain ⟨-, -, hhigh⟩ := octave h
  rw [Nat.pow_succ] at hhigh
  rw [bucket_of_le h, Nat.add_mul]
  omega

/-- A larger value is in no earlier bucket. -/
theorem bucket_mono (h : x ≤ y) :
  bucket m x ≤ bucket m y
  := by
  rcases Nat.lt_or_ge x (2 ^ m) with hx | hx
  · rcases Nat.lt_or_ge y (2 ^ m) with hy | hy
    · rw [bucket_of_lt hx, bucket_of_lt hy]
      apply h
    · have hle := le_bucket hy
      rw [Nat.add_one_mul] at hle
      rw [bucket_of_lt hx]
      omega
  · have hy : 2 ^ m ≤ y := Nat.le_trans hx h
    have hne : x ≠ 0 := Nat.ne_of_gt (Nat.lt_of_lt_of_le (Nat.two_pow_pos m) hx)
    have hlog : x.log2 ≤ y.log2 := (Nat.le_log2 (by omega)).mpr
      (Nat.le_trans (Nat.log2_self_le hne) h)
    rcases Nat.lt_or_ge x.log2 y.log2 with hlt | hge
    · -- the octave of `y` is above that of `x`
      obtain ⟨hm, -⟩ := octave hx
      apply Nat.le_of_lt (Nat.lt_of_lt_of_le (bucket_lt hx) (Nat.le_trans _ (le_bucket hy)))
      apply Nat.mul_le_mul_right
      omega
    · have heq : x.log2 = y.log2 := Nat.le_antisymm hlog hge
      rw [bucket_of_le hx, bucket_of_le hy, heq]
      exact Nat.add_le_add_left (Nat.div_le_div_right h) _

/-! ### The middle of a bucket -/

/-- Below `2 ^ m` a bucket stands for its one value. -/
theorem mid_of_lt (h : b < 2 ^ m) :
  mid m b = b
  := if_pos h

theorem mid_of_le (h : 2 ^ m ≤ b) :
  mid m b = (2 ^ m + b % 2 ^ m) * 2 ^ (b / 2 ^ m - 1) + 2 ^ (b / 2 ^ m - 1) / 2
  := if_neg (Nat.not_lt.mpr h)

/-- The middle of a bucket is in the octave of the bucket. -/
theorem le_mid (h : 2 ^ m ≤ b) :
  2 ^ m * 2 ^ (b / 2 ^ m - 1) ≤ mid m b
  := by
  rw [mid_of_le h, Nat.add_mul, Nat.add_assoc]
  apply Nat.le_add_right

theorem mid_lt (h : 2 ^ m ≤ b) :
  mid m b < 2 ^ m * 2 ^ (b / 2 ^ m)
  := by
  have hquot : 1 ≤ b / 2 ^ m := (Nat.le_div_iff_mul_le (Nat.two_pow_pos m)).mpr (by omega)
  have hmod : b % 2 ^ m + 1 ≤ 2 ^ m := Nat.mod_lt _ (Nat.two_pow_pos m)
  have hstep : 0 < 2 ^ (b / 2 ^ m - 1) := Nat.two_pow_pos _
  have hsub := Nat.mul_le_mul_right (2 ^ (b / 2 ^ m - 1)) hmod
  have hdouble : 2 ^ (b / 2 ^ m) = 2 ^ (b / 2 ^ m - 1) * 2 := by
    rw [← Nat.pow_succ, Nat.succ_eq_add_one, Nat.sub_add_cancel hquot]
  have hhalf := Nat.div_lt_self hstep (show 1 < 2 by decide)
  rw [Nat.add_mul, Nat.one_mul] at hsub
  rw [mid_of_le h, Nat.add_mul, hdouble, ← Nat.mul_assoc, Nat.mul_two]
  linarith only [hsub, hhalf]

/-- A later bucket stands for no smaller value. -/
theorem mid_mono (h : b ≤ b') :
  mid m b ≤ mid m b'
  := by
  rcases Nat.lt_or_ge b (2 ^ m) with hb | hb
  · rcases Nat.lt_or_ge b' (2 ^ m) with hb' | hb'
    · rw [mid_of_lt hb, mid_of_lt hb']
      apply h
    · have hle := le_mid hb'
      have hscale := Nat.le_mul_of_pos_right (2 ^ m) (Nat.two_pow_pos (b' / 2 ^ m - 1))
      rw [mid_of_lt hb]
      omega
  · have hb' : 2 ^ m ≤ b' := Nat.le_trans hb h
    have hquot : b / 2 ^ m ≤ b' / 2 ^ m := Nat.div_le_div_right h
    rcases Nat.lt_or_ge (b / 2 ^ m) (b' / 2 ^ m) with hlt | hge
    · apply Nat.le_of_lt (Nat.lt_of_lt_of_le (mid_lt hb) (Nat.le_trans _ (le_mid hb')))
      apply Nat.mul_le_mul_left
      apply Nat.pow_le_pow_right (by decide)
      omega
    · have heq : b / 2 ^ m = b' / 2 ^ m := Nat.le_antisymm hquot hge
      have hmod : b % 2 ^ m ≤ b' % 2 ^ m := by
        have hb₁ := Nat.div_add_mod b (2 ^ m)
        have hb₂ := Nat.div_add_mod b' (2 ^ m)
        rw [← heq] at hb₂
        omega
      rw [mid_of_le hb, mid_of_le hb', heq]
      exact Nat.add_le_add_right (Nat.mul_le_mul_right _ (Nat.add_le_add_left hmod _)) _

/-! ### The error -/

/-- A bucket's value keeps the leading bits of the values in it. -/
theorem mid_bucket_of_le (h : 2 ^ m ≤ x) :
  mid m (bucket m x)
    = x / 2 ^ (x.log2 - m) * 2 ^ (x.log2 - m) + 2 ^ (x.log2 - m) / 2
  := by
  obtain ⟨-, hlow, hhigh⟩ := octave h
  have hle : 2 ^ m ≤ bucket m x := by
    have hoctave := le_bucket h
    rw [Nat.add_one_mul] at hoctave
    omega
  rw [Nat.pow_succ] at hhigh
  obtain ⟨q, hq⟩ := Nat.exists_eq_add_of_le hlow
  have hbucket : bucket m x = 2 ^ m * (x.log2 - m + 1) + q := by
    rw [bucket_of_le h, hq, Nat.mul_add, Nat.mul_one, Nat.mul_comm]
    omega
  have hqlt : q < 2 ^ m := by omega
  have hdiv : bucket m x / 2 ^ m = x.log2 - m + 1 := by
    rw [hbucket, Nat.mul_add_div (Nat.two_pow_pos m), Nat.div_eq_of_lt hqlt, Nat.add_zero]
  have hmod : bucket m x % 2 ^ m = q := by
    rw [hbucket, Nat.mul_add_mod_self_left, Nat.mod_eq_of_lt hqlt]
  rw [mid_of_le hle, hdiv, hmod, Nat.add_sub_cancel, hq]

/-- A number below the width is off the middle by at most half the width. -/
theorem abs_half_sub_le {r e : Nat} (h : r < 2 ^ e) :
  2 * |((2 ^ e / 2 : Nat) : Int) - r| ≤ (2 ^ e : Nat)
  := by
  cases e with
  | zero =>
      have hr : r = 0 := by omega
      rw [hr]
      decide
  | succ e =>
      rw [Nat.pow_succ] at h ⊢
      rw [Nat.mul_div_cancel _ (by decide)]
      have hoff : |((2 ^ e : Nat) : Int) - r| ≤ (2 ^ e : Nat) := abs_le.mpr ⟨by omega, by omega⟩
      omega

/-- A number is off the middle of its bucket by a fixed part of it at most. -/
theorem mid_bucket_sub_le (m x : Nat) :
  2 ^ (m + 1) * |(mid m (bucket m x) : Int) - x| ≤ x
  := by
  rcases Nat.lt_or_ge x (2 ^ m) with hx | hx
  · rw [bucket_of_lt hx, mid_of_lt hx]
    simp
  · obtain ⟨hm, -⟩ := octave hx
    have hne : x ≠ 0 := Nat.ne_of_gt (Nat.lt_of_lt_of_le (Nat.two_pow_pos m) hx)
    have hself := Nat.log2_self_le hne
    have hscale : 2 ^ m * 2 ^ (x.log2 - m) ≤ x := by
      rw [← Nat.pow_add, Nat.add_sub_cancel' hm]
      apply hself
    have hoff := abs_half_sub_le (Nat.mod_lt x (Nat.two_pow_pos (x.log2 - m)))
    have hdiv := Nat.div_add_mod' x (2 ^ (x.log2 - m))
    have hsub : ((mid m (bucket m x) : Nat) : Int) - x
        = (2 ^ (x.log2 - m) / 2 : Nat) - (x % 2 ^ (x.log2 - m) : Nat) := by
      rw [mid_bucket_of_le hx]
      omega
    rw [hsub]
    calc (2 : Int) ^ (m + 1) * |((2 ^ (x.log2 - m) / 2 : Nat) : Int) - (x % 2 ^ (x.log2 - m) : Nat)|
        = 2 ^ m * (2 * |((2 ^ (x.log2 - m) / 2 : Nat) : Int) - (x % 2 ^ (x.log2 - m) : Nat)|) := by
          rw [pow_succ, mul_assoc]
      _ ≤ 2 ^ m * ((2 ^ (x.log2 - m) : Nat) : Int) := by
          apply Int.mul_le_mul_of_nonneg_left hoff
          positivity
      _ ≤ x := by
          exact_mod_cast hscale

end LogLinear
