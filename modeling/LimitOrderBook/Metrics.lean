import LimitOrderBook.Lib.LogLinear
import LimitOrderBook.Lib.Quantile
import LimitOrderBook.Lib.Word
import Mathlib.Data.List.FinRange

/-!
# The latency histogram

Latencies are counted in 544 buckets: one for each value below 16, and 16 for each octave
above.  A percentile is the middle of the first bucket with which the counts reach it.
-/

namespace LimitOrderBook

/-- A histogram of latencies, in nanoseconds. -/
structure LatencyHistogram where
  buckets : Vector UInt32 544
  count : UInt64
  minNs : UInt64
  maxNs : UInt64
  sumNs : BitVec 128
deriving DecidableEq

/-- The zero bits above the highest one of a number. -/
def leadingZeros (n : UInt64) : Nat := n.toBitVec.clz.toNat

/-- One more, unless that does not fit. -/
def saturatingSucc (n : UInt32) : UInt32 := if n = 0xFFFFFFFF then n else n + 1

namespace LatencyHistogram

def new : LatencyHistogram where
  buckets := Vector.replicate 544 0
  count := 0
  minNs := 0xFFFFFFFFFFFFFFFF
  maxNs := 0
  sumNs := 0

/-- The bucket that counts a value. -/
def valueToBucket (nanos : UInt64) : Nat :=
  if nanos < 16 then
    nanos.toNat
  else
    let leading := leadingZeros nanos
    let k := 63 - leading
    if k < 4 then
      nanos.toNat
    else
      let subBucket := ((nanos >>> UInt64.ofNat (k - 4)) &&& 0x0F).toNat
      let octave := k - 4
      let idx := 16 + octave * 16 + subBucket
      min idx 543

/-- The value that stands for a bucket. -/
def bucketToValue (bucket : Nat) : UInt64 :=
  if bucket < 16 then
    UInt64.ofNat bucket
  else
    let octave := (bucket - 16) / 16
    let subBucket := (bucket - 16) % 16
    let k := octave + 4
    let base : UInt64 := 1 <<< UInt64.ofNat k
    let step : UInt64 := 1 <<< UInt64.ofNat (k - 4)
    base + UInt64.ofNat subBucket * step + step / 2

/-- The highest one bit of a number is at its logarithm. -/
theorem sub_leadingZeros {n : UInt64} (h : n ≠ 0) :
  63 - leadingZeros n = n.toNat.log2
  := by
  have hne : n.toBitVec ≠ 0#64 := fun hz => h (UInt64.toBitVec_inj.mp hz)
  have hzero : n.toNat ≠ 0 := fun hz => h (UInt64.toNat_inj.mp hz)
  have hclz : n.toBitVec.clz.toNat < 64 := BitVec.clz_lt_iff_ne_zero.mpr hne
  have hlow := BitVec.two_pow_sub_clz_le_toNat_of_ne_zero (by decide) hne
  have hhigh := @BitVec.toNat_lt_two_pow_sub_clz _ n.toBitVec
  symm
  rw [Nat.log2_eq_iff hzero]
  constructor
  · apply hlow
  · have hexp : 63 - leadingZeros n + 1 = 64 - n.toBitVec.clz.toNat := by
      unfold leadingZeros
      omega
    rw [hexp]
    apply hhigh

/-! ### The buckets are log-linear -/

/-- The bucket of a value is that of the logarithmic scale, up to the last. -/
theorem valueToBucket_eq (n : UInt64) :
  valueToBucket n = min (LogLinear.bucket 4 n.toNat) 543
  := by
  unfold valueToBucket
  split
  · next h =>
      have hlt : n.toNat < 2 ^ 4 := UInt64.lt_iff_toNat_lt.mp h
      rw [LogLinear.bucket_of_lt hlt]
      omega
  · next h =>
      have hle : 2 ^ 4 ≤ n.toNat := UInt64.le_iff_toNat_le.mp (UInt64.not_lt.mp h)
      have hne : n ≠ 0 := by
        intro hz
        rw [hz] at hle
        contradiction
      have hlog : n.toNat.log2 < 64 :=
        (Nat.log2_lt (Nat.ne_of_gt (Nat.lt_of_lt_of_le (by decide) hle))).mpr n.toNat_lt
      obtain ⟨hfour, hlow, hhigh⟩ := LogLinear.octave hle
      simp only [sub_leadingZeros hne]
      have hsub : ((n >>> UInt64.ofNat (n.toNat.log2 - 4)) &&& 0x0F).toNat
          = n.toNat / 2 ^ (n.toNat.log2 - 4) % 16 := by
        rw [UInt64.toNat_and, UInt64.toNat_shiftRight_ofNat _ (by omega)]
        apply Nat.and_two_pow_sub_one_eq_mod _ 4
      rw [if_neg (by omega), hsub, LogLinear.bucket_of_le hle]
      omega

theorem valueToBucket_lt (n : UInt64) :
  valueToBucket n < 544
  := by
  rw [valueToBucket_eq]
  omega

/-- The last bucket takes no value below 2^37 that is not its own. -/
theorem valueToBucket_of_lt {n : UInt64} (h : n.toNat < 2 ^ 37) :
  valueToBucket n = LogLinear.bucket 4 n.toNat
  := by
  have hmono : LogLinear.bucket 4 n.toNat ≤ LogLinear.bucket 4 (2 ^ 37 - 1) :=
    LogLinear.bucket_mono (by omega)
  have hlast : LogLinear.bucket 4 (2 ^ 37 - 1) = 543 := by decide +kernel
  rw [valueToBucket_eq]
  omega

/-- A bucket's value is the middle of it on the scale. -/
theorem toNat_bucketToValue {b : Nat} (h : b < 544) :
  (bucketToValue b).toNat = LogLinear.mid 4 b
  := by
  unfold bucketToValue
  split
  · next hb =>
      rw [LogLinear.mid_of_lt hb, UInt64.toNat_ofNat']
      omega
  · next hb =>
      have hle : 2 ^ 4 ≤ b := by omega
      have hquot : (b - 16) / 16 = b / 16 - 1 := by omega
      have hmod : (b - 16) % 16 = b % 16 := by omega
      have hpow : 2 ^ (b / 16 - 1) ≤ 2 ^ 32 := Nat.pow_le_pow_right (by decide) (by omega)
      have hfour : 2 ^ (b / 16 - 1 + 4) = 2 ^ (b / 16 - 1) * 16 := Nat.pow_add _ _ _
      have hsub : b % 16 * 2 ^ (b / 16 - 1) ≤ 15 * 2 ^ (b / 16 - 1) :=
        Nat.mul_le_mul_right _ (by omega)
      have hbase : ((1 : UInt64) <<< UInt64.ofNat (b / 16 - 1 + 4)).toNat
          = 16 * 2 ^ (b / 16 - 1) := by
        rw [UInt64.toNat_one_shiftLeft (by omega), hfour, Nat.mul_comm]
      have hstep : ((1 : UInt64) <<< UInt64.ofNat (b / 16 - 1)).toNat = 2 ^ (b / 16 - 1) :=
        UInt64.toNat_one_shiftLeft (by omega)
      have hplace : (UInt64.ofNat (b % 16)).toNat = b % 16 := by
        rw [UInt64.toNat_ofNat']
        omega
      have htwo : (2 : UInt64).toNat = 2 := rfl
      have hmid : LogLinear.mid 4 b
          = (16 + b % 16) * 2 ^ (b / 16 - 1) + 2 ^ (b / 16 - 1) / 2 := LogLinear.mid_of_le hle
      simp only [hquot, hmod, Nat.add_sub_cancel]
      rw [hmid, UInt64.toNat_add, UInt64.toNat_add, UInt64.toNat_mul,
        UInt64.toNat_div, hbase, hstep, hplace, htwo, Nat.add_mul]
      omega

/-! ### Recording and reading -/

/-- The histogram after one more value. -/
def record (self : LatencyHistogram) (nanos : UInt64) : LatencyHistogram where
  count := self.count + 1
  sumNs := self.sumNs + nanos.toBitVec.setWidth 128
  minNs := if nanos < self.minNs then nanos else self.minNs
  maxNs := if nanos > self.maxNs then nanos else self.maxNs
  buckets :=
    let bucket := valueToBucket nanos
    self.buckets.set bucket (saturatingSucc (self.buckets.get ⟨bucket, valueToBucket_lt nanos⟩))
      (valueToBucket_lt nanos)

/-- The value of the first bucket with which the counts reach a target. -/
def scanBuckets (self : LatencyHistogram) (target : UInt64) :
    UInt64 → List (Fin 544) → Option UInt64
  | _, [] => none
  | accumulated, bucket :: buckets =>
      let accumulated := accumulated + (self.buckets.get bucket).toUInt64
      if accumulated ≥ target then
        some (bucketToValue bucket)
      else
        scanBuckets self target accumulated buckets

/-- The percentile, by the rank that it targets. -/
def percentile (self : LatencyHistogram) (target : UInt64) : UInt64 :=
  if self.count = 0 then
    0
  else
    match self.scanBuckets target 0 (List.finRange 544) with
    | some value => value
    | none => self.maxNs

/-- The histogram of some values, recorded one after the other. -/
def recorded (values : List UInt64) : LatencyHistogram := values.foldl record new

end LatencyHistogram

end LimitOrderBook
