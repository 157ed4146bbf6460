import LinuxHandson.Lib.CInt
import LinuxHandson.Lib.Histogram
import Mathlib.Data.List.Sort
import Mathlib.Data.Rat.Floor

/-!
# The statistics of `jitter_measure.c`

What `measure_jitter` makes of the samples that its loop has taken. The samples are whole numbers of
nanoseconds, and the arithmetic on them is that of the rational numbers; a quotient by 0 has no value.
-/

namespace JitterMeasure

open CLib

/-- `HIST_BUCKETS` -/
def HIST_BUCKETS : Nat := 20

/-- `jitter_result_t` -/
structure JitterResult where
  minNs : Int
  maxNs : Int
  avgNs : Rat
  stddevNs : Rat
  p50 : Int
  p99 : Int
  histogram : List Nat

/-- `cmp_double` -/
def cmpDouble (a b : Int) : Int := (if a > b then 1 else 0) - (if a < b then 1 else 0)

/-- `sqrt`: 50 steps of Newton's method. -/
def sqrt (x : Rat) : Rat := if x ≤ 0 then 0 else (fun guess => (guess + x / guess) / 2)^[50] (x / 2)

/-- The quotient of two numbers, if there is one. -/
def quotient (a b : Rat) : Option Rat := if b = 0 then none else some (a / b)

/-- Conversion to `int`, towards zero. -/
def toInt (x : Rat) : Option Int := intArith (x.num.tdiv x.den)

/-- `bucket_size` -/
def bucketSize (minNs maxNs : Int) : Rat := (maxNs - minNs) / HIST_BUCKETS

/-- `bucket` of a sample. -/
def bucket (minNs maxNs sample : Int) : Option Int :=
  (quotient (sample - minNs) (bucketSize minNs maxNs)).bind fun x =>
    (toInt x).map fun (k : Int) => if k ≥ HIST_BUCKETS then HIST_BUCKETS - 1 else k

/-- `avg_ns` -/
def avgNs (samples : List Int) : Rat := samples.sum / samples.length

/-- `stddev_ns` -/
def stddevNs (samples : List Int) : Rat :=
  let var := (samples.map fun (s : Int) => (s - avgNs samples) * (s - avgNs samples)).sum
  sqrt (var / samples.length)

/-- `measure_jitter`, when it has taken the samples. -/
def measureJitter (samples : List Int) : Option JitterResult := do
  let samples := samples.insertionSort (cmpDouble · · ≤ 0)
  let iterations := samples.length
  let minNs ← samples[0]?
  let maxNs ← samples[iterations - 1]?
  let p50 ← samples[iterations / 2]?
  let p99 ← samples[iterations * 99 / 100]?
  let histogram ← Histogram.count (bucket minNs maxNs) samples (List.replicate HIST_BUCKETS 0)
  some
    { minNs, maxNs, avgNs := avgNs samples, stddevNs := stddevNs samples, p50, p99, histogram }

/-- What the histogram is to be: the buckets have a width, every sample has one of them, and all samples
are counted. -/
def Binned (samples : List Int) : Prop :=
  ∃ r, measureJitter samples = some r ∧ bucketSize r.minNs r.maxNs ≠ 0 ∧
    (∀ s ∈ samples, ∃ k, bucket r.minNs r.maxNs s = some k ∧ 0 ≤ k ∧ k ≤ HIST_BUCKETS - 1) ∧
    r.histogram.sum = samples.length

end JitterMeasure
