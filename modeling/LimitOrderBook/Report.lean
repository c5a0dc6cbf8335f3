import LimitOrderBook.Percentiles
import Mathlib.Data.List.Induction

/-!
# The latency report

A report names the number of the values that a histogram has recorded, the least, the greatest
and the average of them, and three percentiles.  Unlike the percentiles, which are read from the
buckets, the others are exact (`LatencyHistogram.exact_stats`).
-/

namespace LimitOrderBook

structure LatencyReport where
  totalOrders : UInt64
  minNs : UInt64
  avgNs : UInt64
  p50Ns : UInt64
  p95Ns : UInt64
  p99Ns : UInt64
  maxNs : UInt64
  deriving DecidableEq, Repr

/-- The report on no values. -/
def LatencyReport.default : LatencyReport where
  totalOrders := 0
  minNs := 0
  avgNs := 0
  p50Ns := 0
  p95Ns := 0
  p99Ns := 0
  maxNs := 0

/-- What a report says exactly of the values it is about.  If all of them are the largest word, it
takes the least of them for none and says 0. -/
structure LatencyReport.Exact (r : LatencyReport) (xs : List UInt64) : Prop where
  totalOrders_eq : r.totalOrders.toNat = xs.length
  minNs_le : ∀ x ∈ xs, r.minNs ≤ x
  minNs_mem : r.minNs ∈ xs ∨ r.minNs = 0 ∧ ∀ x ∈ xs, x = 0xFFFFFFFFFFFFFFFF
  le_maxNs : ∀ x ∈ xs, x ≤ r.maxNs
  maxNs_mem : r.maxNs ∈ xs
  avgNs_eq : r.avgNs.toNat = (xs.map UInt64.toNat).sum / xs.length

namespace LatencyHistogram

end LatencyHistogram

end LimitOrderBook
