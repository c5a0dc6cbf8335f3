import LimitOrderBook.Metrics
import Mathlib.Algebra.Order.BigOperators.Group.List
import Mathlib.Data.List.Pairwise
import Mathlib.Data.List.Sort

/-!
# The accuracy of the percentiles

As long as no bucket is full, the buckets count the values recorded, and the scan of a
percentile finds the bucket of the value of its rank.  The middle of that bucket is off the
value by a thirty-second of it at most.
-/

namespace LimitOrderBook
namespace LatencyHistogram

/-- The bucket that counts a value, as an index of the buckets. -/
def bucketOf (nanos : UInt64) : Fin 544 := ⟨valueToBucket nanos, valueToBucket_lt nanos⟩

/-- The number of values in a bucket. -/
def counted (xs : List UInt64) (b : Fin 544) : Nat := xs.countP (bucketOf · = b)

theorem counted_cons (x : UInt64) (xs : List UInt64) (b : Fin 544) :
  counted (x :: xs) b = counted xs b + if bucketOf x = b then 1 else 0
  := by
  rw [counted, List.countP_cons, counted]
  simp

/-- The bucket counters stop at their largest value. -/
theorem toNat_saturatingSucc (n : UInt32) :
  (saturatingSucc n).toNat = min (n.toNat + 1) (2 ^ 32 - 1)
  := by
  have hlt := n.toNat_lt
  unfold saturatingSucc
  split
  · next h =>
      rw [h]
      decide
  · next h =>
      have hne : n.toNat ≠ 2 ^ 32 - 1 := fun heq => h (UInt32.toNat_inj.mp heq)
      rw [UInt32.toNat_add, UInt32.toNat_one]
      omega

/-! ### What is counted -/

/-- Recording a value counts it in its own bucket. -/
theorem buckets_record (self : LatencyHistogram) (x : UInt64) (b : Fin 544) :
  (self.record x).buckets.get b
    = if bucketOf x = b then saturatingSucc (self.buckets.get b) else self.buckets.get b
  := by
  have hset : (self.record x).buckets.get b
      = (self.buckets.set (bucketOf x).val (saturatingSucc (self.buckets.get (bucketOf x)))
          (bucketOf x).isLt)[b.val] := rfl
  rw [hset, Vector.getElem_set]
  split
  · next h =>
      have heq : bucketOf x = b := Fin.ext h
      rw [if_pos heq, heq]
  · next h =>
      rw [if_neg (fun heq => h (congrArg Fin.val heq))]
      rfl

/-- A bucket counts the values recorded in it, up to the largest word. -/
theorem buckets_foldl (xs : List UInt64) (b : Fin 544) :
  ∀ self : LatencyHistogram, ((xs.foldl record self).buckets.get b).toNat
    = min ((self.buckets.get b).toNat + counted xs b) (2 ^ 32 - 1)
  := by
  induction xs with
  | nil =>
      intro self
      have hlt := (self.buckets.get b).toNat_lt
      have hnone : counted [] b = 0 := rfl
      rw [List.foldl_nil, hnone]
      omega
  | cons x xs ih =>
      intro self
      rw [List.foldl_cons, ih, buckets_record, counted_cons]
      split
      · rw [toNat_saturatingSucc]
        omega
      · rw [Nat.add_zero]

/-- The total counts every recorded value. -/
theorem count_foldl (xs : List UInt64) :
  ∀ self : LatencyHistogram, (xs.foldl record self).count = self.count + UInt64.ofNat xs.length
  := by
  induction xs with
  | nil =>
      intro self
      exact (UInt64.add_zero _).symm
  | cons x xs ih =>
      intro self
      rw [List.foldl_cons, ih, List.length_cons, Nat.add_comm, UInt64.ofNat_add, ← UInt64.add_assoc]
      rfl

section Recorded

variable {xs : List UInt64} (hroom : ∀ b, counted xs b < 2 ^ 32)

include hroom

/-- With fewer than 2^32 values recorded no bucket counter has stopped. -/
theorem toNat_buckets_recorded (b : Fin 544) :
  ((recorded xs).buckets.get b).toNat = counted xs b
  := by
  have hzero : (new.buckets.get b).toNat = 0 := by
    have hget : new.buckets.get b = (Vector.replicate 544 (0 : UInt32))[b.val] := rfl
    rw [hget, Vector.getElem_replicate, UInt32.toNat_zero]
  have hlt := hroom b
  rw [recorded, buckets_foldl, hzero]
  omega

/-- The bucket counters sum up without wrapping. -/
theorem sum_counted_lt :
  ((List.finRange 544).map (counted xs)).sum < 2 ^ 64
  := by
  have hle : ∀ n ∈ (List.finRange 544).map (counted xs), n ≤ 2 ^ 32 := by
    intro n hn
    obtain ⟨b, -, rfl⟩ := List.mem_map.mp hn
    apply Nat.le_of_lt (hroom b)
  have hsum := List.sum_le_card_nsmul _ _ hle
  rw [List.length_map, List.length_finRange, Nat.nsmul_eq_mul] at hsum
  omega

theorem length_lt :
  xs.length < 2 ^ 64
  := by
  have hsum := Quantile.sum_map_countP bucketOf xs (List.nodup_finRange 544)
  have hall : xs.countP (bucketOf · ∈ List.finRange 544) = xs.length := by
    rw [List.countP_eq_length]
    intro x _
    simp
  rw [← hall, ← hsum]
  apply sum_counted_lt hroom

theorem toNat_count_recorded :
  (recorded xs).count.toNat = xs.length
  := by
  have hlt := length_lt hroom
  rw [recorded, count_foldl, UInt64.toNat_add, UInt64.toNat_ofNat']
  change (0 + _) % _ = _
  omega

/-! ### The scan -/

/-- The scan of the buckets is the one of the counts. -/
theorem scanBuckets_eq (t : UInt64) :
  ∀ {bs : List (Fin 544)} {acc : UInt64},
    acc.toNat + (bs.map (counted xs)).sum < 2 ^ 64 →
    (recorded xs).scanBuckets t acc bs
      = (Quantile.scan (counted xs) t.toNat acc.toNat bs).map
          (fun b => bucketToValue b.val)
  | [], _, _ => rfl
  | b :: bs, acc, hsum => by
      rw [List.map_cons, List.sum_cons] at hsum
      have hadd : (acc + ((recorded xs).buckets.get b).toUInt64).toNat
          = acc.toNat + counted xs b := by
        rw [UInt64.toNat_add, UInt32.toNat_toUInt64, toNat_buckets_recorded hroom]
        omega
      unfold scanBuckets
      simp only [ge_iff_le, UInt64.le_iff_toNat_le, hadd]
      split
      · next hle => rw [Quantile.scan_cons_of_le hle, Option.map_some]
      · next hnot =>
          rw [Quantile.scan_cons_of_lt (Nat.not_le.mp hnot), scanBuckets_eq t (by omega), hadd]

end Recorded

/-! ### The accuracy -/

/-- The smaller values are in the lower buckets. -/
theorem bucketOf_mono {x y : UInt64} (h : x ≤ y) :
  bucketOf x ≤ bucketOf y
  := by
  have hmono := @LogLinear.bucket_mono 4 _ _ (UInt64.le_iff_toNat_le.mp h)
  apply Fin.mk_le_mk.mpr
  rw [valueToBucket_eq, valueToBucket_eq]
  omega

/-- A later bucket has no smaller value. -/
theorem bucketToValue_mono {b b' : Fin 544} (h : b ≤ b') :
  bucketToValue b.val ≤ bucketToValue b'.val
  := by
  rw [UInt64.le_iff_toNat_le, toNat_bucketToValue b.isLt, toNat_bucketToValue b'.isLt]
  apply LogLinear.mid_mono h

/-- The value of a bucket is close to the values in it. -/
theorem bucketToValue_close {x : UInt64} (h : x.toNat < 2 ^ 37) :
  32 * |((bucketToValue (bucketOf x).val).toNat : Int) - x.toNat| ≤ x.toNat
  := by
  rw [toNat_bucketToValue (bucketOf x).isLt]
  have hbucket : (bucketOf x).val = LogLinear.bucket 4 x.toNat := valueToBucket_of_lt h
  rw [hbucket]
  exact_mod_cast LogLinear.mid_bucket_sub_le 4 x.toNat

/-- The values in increasing order. -/
def ranked (xs : List UInt64) : List UInt64 := xs.insertionSort (· ≤ ·)

theorem pairwise_ranked (xs : List UInt64) :
  (ranked xs).Pairwise (· ≤ ·)
  := List.pairwise_insertionSort (· ≤ ·) xs

theorem length_ranked (xs : List UInt64) :
  (ranked xs).length = xs.length
  := List.length_insertionSort (· ≤ ·) xs

/-- The scan finds the bucket of the value of the rank. -/
theorem scanBuckets_recorded {xs : List UInt64} (hroom : ∀ b, counted xs b < 2 ^ 32)
    {t : UInt64} {i : Nat} (ht : t.toNat = i + 1) (hi : i < (ranked xs).length) :
  (recorded xs).scanBuckets t 0 (List.finRange 544)
    = some (bucketToValue (bucketOf (ranked xs)[i]).val)
  := by
  have hcounted : counted xs = fun b => (ranked xs).countP (bucketOf · = b) := by
    funext b
    exact ((List.perm_insertionSort _ xs).countP_eq _).symm
  have hkeys : (ranked xs).Pairwise (bucketOf · ≤ bucketOf ·) :=
    (pairwise_ranked xs).imp bucketOf_mono
  rw [scanBuckets_eq hroom t (by simpa using sum_counted_lt hroom), ht, hcounted]
  rw [UInt64.toNat_zero, Quantile.scan_countP (List.pairwise_lt_finRange 544) hkeys hi
    (fun y _ => List.mem_finRange _)]
  rfl

/-- The percentile is the value at which the scan of the buckets stops. -/
theorem percentile_of_scanBuckets {self : LatencyHistogram} {t v : UInt64} (h : self.count ≠ 0)
    (hscan : self.scanBuckets t 0 (List.finRange 544) = some v) :
  self.percentile t = v
  := by
  rw [percentile, if_neg h, hscan]

/-- The rank of a target, among the values recorded. -/
theorem rank_of_le_count {xs : List UInt64} (hroom : ∀ b, counted xs b < 2 ^ 32) {t : UInt64}
    (hpos : 1 ≤ t) (hle : t ≤ (recorded xs).count) :
  (recorded xs).count ≠ 0 ∧ t.toNat = t.toNat - 1 + 1 ∧ t.toNat - 1 < (ranked xs).length
  := by
  have hpos' : 1 ≤ t.toNat := UInt64.le_iff_toNat_le.mp hpos
  have hle' : t.toNat ≤ xs.length := by
    rw [← toNat_count_recorded hroom]
    apply UInt64.le_iff_toNat_le.mp hle
  refine ⟨?_, by omega, by rw [length_ranked]; omega⟩
  intro hzero
  have hlength := toNat_count_recorded hroom
  rw [hzero, UInt64.toNat_zero] at hlength
  omega

/-- For every rank the scan of the buckets stops, at a value that is off the recorded value of
that rank by a thirty-second of it at most, and higher ranks have no smaller values. -/
theorem percentile_accurate {xs : List UInt64} (hvalues : ∀ x ∈ xs, x.toNat < 2 ^ 37)
    (hroom : ∀ b, counted xs b < 2 ^ 32) :
  (∀ t, 1 ≤ t → t ≤ (recorded xs).count →
    ∃ x v, (ranked xs)[t.toNat - 1]? = some x
      ∧ (recorded xs).scanBuckets t 0 (List.finRange 544) = some v
      ∧ (recorded xs).percentile t = v
      ∧ 32 * |(v.toNat : Int) - x.toNat| ≤ x.toNat)
  ∧ (∀ t t', 1 ≤ t → t ≤ t' → t' ≤ (recorded xs).count →
      (recorded xs).percentile t ≤ (recorded xs).percentile t')
  := by
  constructor
  · intro t hpos hle
    obtain ⟨hcount, ht, hi⟩ := rank_of_le_count hroom hpos hle
    have hscan := scanBuckets_recorded hroom ht hi
    refine ⟨_, _, List.getElem?_eq_getElem hi, hscan, percentile_of_scanBuckets hcount hscan, ?_⟩
    apply bucketToValue_close
    apply hvalues
    exact (List.perm_insertionSort _ xs).subset (List.getElem_mem hi)
  · intro t t' hpos hlt hle
    obtain ⟨hcount, ht', hi'⟩ := rank_of_le_count hroom (UInt64.le_trans hpos hlt) hle
    obtain ⟨-, ht, hi⟩ := rank_of_le_count hroom hpos (UInt64.le_trans hlt hle)
    rw [percentile_of_scanBuckets hcount (scanBuckets_recorded hroom ht hi),
      percentile_of_scanBuckets hcount (scanBuckets_recorded hroom ht' hi')]
    apply bucketToValue_mono
    apply bucketOf_mono
    have hrank := UInt64.le_iff_toNat_le.mp hlt
    have hle : (⟨_, hi⟩ : Fin (ranked xs).length) ≤ ⟨_, hi'⟩ := by
      apply Fin.mk_le_mk.mpr
      omega
    apply (pairwise_ranked xs).rel_get_of_le hle

/-- Three latencies, of 1000, 2000 and 3000 nanoseconds. -/
theorem percentile_accurate_three :
  let xs : List UInt64 := [3000, 1000, 2000]
  (∀ t, 1 ≤ t → t ≤ 3 →
    ∃ x v, (ranked xs)[t.toNat - 1]? = some x
      ∧ (recorded xs).scanBuckets t 0 (List.finRange 544) = some v
      ∧ (recorded xs).percentile t = v
      ∧ 32 * |(v.toNat : Int) - x.toNat| ≤ x.toNat)
  ∧ (∀ t t', 1 ≤ t → t ≤ t' → t' ≤ 3 →
      (recorded xs).percentile t ≤ (recorded xs).percentile t')
  := by
  have hvalues : ∀ x ∈ ([3000, 1000, 2000] : List UInt64), x.toNat < 2 ^ 37 := by
    simp
  have hroom : ∀ b, counted [3000, 1000, 2000] b < 2 ^ 32 := by
    intro b
    exact Nat.lt_of_le_of_lt List.countP_le_length (by decide)
  exact percentile_accurate hvalues hroom

end LatencyHistogram
end LimitOrderBook
