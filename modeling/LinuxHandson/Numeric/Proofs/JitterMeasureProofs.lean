import LinuxHandson.Numeric.JitterMeasure

/-!
# Proofs: the histogram of the samples

The width of a bucket is the range of the samples divided by the number of buckets, so that no sample is
more than that number of widths above the least one. If all samples are the same there is no width.
-/

namespace JitterMeasure

open CLib

/-! ## The sorted samples -/

theorem cmpDouble_nonpos {a b : Int} : cmpDouble a b ≤ 0 ↔ a ≤ b := by
  rw [cmpDouble]
  split <;> split <;> omega

instance : Std.Total fun a b : Int => cmpDouble a b ≤ 0 where
  total := fun a b => by
    rw [cmpDouble_nonpos, cmpDouble_nonpos]
    exact Int.le_total a b

instance : IsTrans Int fun a b => cmpDouble a b ≤ 0 where
  trans := fun a b c hab hbc => by
    rw [cmpDouble_nonpos] at hab hbc ⊢
    exact hab.trans hbc

/-- `lo` and `hi` are the least and the greatest sample. -/
structure Extremes (samples : List Int) (lo hi : Int) : Prop where
  lo_mem : lo ∈ samples
  hi_mem : hi ∈ samples
  lo_le : ∀ s ∈ samples, lo ≤ s
  le_hi : ∀ s ∈ samples, s ≤ hi

variable {samples : List Int} {lo hi s : Int}

/-- A sorted array has them at its ends. -/
theorem extremes_of_pairwise (h : samples.Pairwise fun a b => cmpDouble a b ≤ 0)
    (hlo : samples[0]? = some lo) (hhi : samples[samples.length - 1]? = some hi) :
    Extremes samples lo hi := by
  rw [List.pairwise_iff_getElem] at h
  obtain ⟨hpos, rfl⟩ := List.getElem?_eq_some_iff.mp hlo
  obtain ⟨hlast, rfl⟩ := List.getElem?_eq_some_iff.mp hhi
  refine ⟨List.getElem_mem _, List.getElem_mem _, fun s hs => ?_, fun s hs => ?_⟩
  · obtain ⟨k, hk, rfl⟩ := List.getElem_of_mem hs
    rcases Nat.eq_zero_or_pos k with rfl | hk0
    · exact Int.le_refl _
    · exact cmpDouble_nonpos.mp (h 0 k hpos hk hk0)
  · obtain ⟨k, hk, rfl⟩ := List.getElem_of_mem hs
    rcases Nat.lt_or_ge k (samples.length - 1) with hlt | hge
    · exact cmpDouble_nonpos.mp (h k _ hk hlast hlt)
    · obtain rfl : k = samples.length - 1 := by omega
      exact Int.le_refl _

theorem Extremes.of_perm {l : List Int} (h : Extremes l lo hi) (hp : l.Perm samples) :
    Extremes samples lo hi where
  lo_mem := hp.mem_iff.mp h.lo_mem
  hi_mem := hp.mem_iff.mp h.hi_mem
  lo_le := fun s hs => h.lo_le s (hp.mem_iff.mpr hs)
  le_hi := fun s hs => h.le_hi s (hp.mem_iff.mpr hs)

/-- What `measure_jitter` has when it counts the samples, and what it makes of the counts. -/
structure Counting (samples : List Int) (lo hi : Int) (sorted : List Int)
    (result : List Nat → JitterResult) : Prop where
  extremes : Extremes samples lo hi
  perm : sorted.Perm samples
  run : measureJitter samples =
    (Histogram.count (bucket lo hi) sorted (List.replicate HIST_BUCKETS 0)).map result
  minNs : ∀ counts, (result counts).minNs = lo
  maxNs : ∀ counts, (result counts).maxNs = hi
  histogram : ∀ counts, (result counts).histogram = counts

theorem exists_counting (h : samples ≠ []) :
    ∃ lo hi sorted result, Counting samples lo hi sorted result := by
  have hperm := List.perm_insertionSort (cmpDouble · · ≤ 0) samples
  have hsorted := List.pairwise_insertionSort (cmpDouble · · ≤ 0) samples
  have hpos := List.length_pos_iff.mpr h
  rw [← hperm.length_eq] at hpos
  obtain ⟨sorted, hs⟩ : ∃ sorted, samples.insertionSort (cmpDouble · · ≤ 0) = sorted := ⟨_, rfl⟩
  rw [hs] at hperm hsorted hpos
  have hat : ∀ k < sorted.length, ∃ s, sorted[k]? = some s := fun k hk =>
    ⟨_, List.getElem?_eq_getElem hk⟩
  obtain ⟨lo, hlo⟩ := hat 0 hpos
  obtain ⟨hi, hhi⟩ := hat (sorted.length - 1) (by omega)
  obtain ⟨p50, hp50⟩ := hat (sorted.length / 2) (by omega)
  obtain ⟨p99, hp99⟩ := hat (sorted.length * 99 / 100) (by omega)
  refine ⟨lo, hi, sorted, fun counts => ⟨lo, hi, avgNs sorted, stddevNs sorted, p50, p99, counts⟩,
    (extremes_of_pairwise hsorted hlo hhi).of_perm hperm, hperm, ?_, fun _ => rfl, fun _ => rfl,
    fun _ => rfl⟩
  simp only [measureJitter, hs, hlo, hhi, hp50, hp99]
  exact Option.map_eq_bind.symm

/-! ## The bucket of a sample -/

/-- A number from 0 to 20 is converted to the greatest whole number below it. -/
theorem toInt_eq {x : Rat} (h0 : 0 ≤ x) (h : x ≤ HIST_BUCKETS) :
    ∃ k : Nat, toInt x = some (k : Int) ∧ k ≤ HIST_BUCKETS := by
  have hfloor : x.num.tdiv x.den = ⌊x⌋ := by
    rw [Rat.floor_def', Int.tdiv_eq_ediv_of_nonneg (Rat.num_nonneg.mpr h0)]
  have hnonneg : 0 ≤ ⌊x⌋ := Int.floor_nonneg.mpr h0
  have hle : ⌊x⌋ ≤ HIST_BUCKETS := by
    exact_mod_cast (Int.floor_le x).trans h
  obtain ⟨k, hk⟩ := Int.eq_ofNat_of_zero_le hnonneg
  have hk20 : k ≤ 20 := by
    rw [hk] at hle
    exact Int.ofNat_le.mp hle
  exact ⟨k, by rw [toInt, hfloor, hk]; exact intArith_natCast (by omega), hk20⟩

theorem bucketSize_ne_zero (h : lo < hi) : bucketSize lo hi ≠ 0 := by
  have hrange : (0 : Rat) < hi - lo := sub_pos.mpr (Int.cast_lt.mpr h)
  exact (div_pos hrange (by decide)).ne'

/-- Between two different extremes every sample has a bucket. -/
theorem bucket_placed (h : lo < hi) (hlo : lo ≤ s) (hhi : s ≤ hi) :
    Histogram.Placed (bucket lo hi) HIST_BUCKETS s := by
  have hlo' : (lo : Rat) ≤ s := Int.cast_le.mpr hlo
  have hhi' : (s : Rat) ≤ hi := Int.cast_le.mpr hhi
  obtain ⟨k, hk, hle⟩ := toInt_eq (Histogram.slot_nonneg hlo' hhi')
    (Histogram.slot_le (n := HIST_BUCKETS) (Int.cast_lt.mpr h) hhi')
  rw [Histogram.Placed, bucket, quotient, if_neg (bucketSize_ne_zero h), Option.bind_some, bucketSize, hk,
    Option.map_some]
  rcases Nat.lt_or_ge k HIST_BUCKETS with hlt | hge
  · exact ⟨k, by rw [if_neg (by omega)], hlt⟩
  · exact ⟨HIST_BUCKETS - 1, by rw [if_pos (by omega)]; rfl, by decide⟩

theorem bucketSize_self : bucketSize lo lo = 0 := by
  rw [bucketSize, sub_self, zero_div]

/-! ## The histogram -/

theorem Extremes.ne_iff (h : Extremes samples lo hi) :
    lo ≠ hi ↔ ∃ s ∈ samples, ∃ t ∈ samples, s ≠ t := by
  refine ⟨fun hne => ⟨lo, h.lo_mem, hi, h.hi_mem, hne⟩, fun ⟨s, hs, t, ht, hst⟩ heq => hst ?_⟩
  have := h.lo_le s hs
  have := h.le_hi s hs
  have := h.lo_le t ht
  have := h.le_hi t ht
  omega

variable {sorted : List Int} {result : List Nat → JitterResult}

/-- The samples fill the buckets if they are not all the same. -/
theorem Counting.binned (h : Counting samples lo hi sorted result) (hlt : lo < hi) : Binned samples := by
  have hplaced : ∀ s ∈ samples, Histogram.Placed (bucket lo hi) HIST_BUCKETS s := fun s hs =>
    bucket_placed hlt (h.extremes.lo_le s hs) (h.extremes.le_hi s hs)
  have hsorted : ∀ s ∈ sorted, Histogram.Placed (bucket lo hi) HIST_BUCKETS s := fun s hs =>
    hplaced s (h.perm.mem_iff.mp hs)
  rw [← List.length_replicate (a := 0) (n := HIST_BUCKETS)] at hsorted
  obtain ⟨counts, hc, -, hsum⟩ := Histogram.exists_count hsorted
  have hrun := h.run
  rw [hc, Option.map_some] at hrun
  refine ⟨_, hrun, ?_, fun s hs => ?_, ?_⟩
  · rw [h.minNs, h.maxNs]
    exact bucketSize_ne_zero hlt
  · obtain ⟨k, hk, hk20⟩ := hplaced s hs
    refine ⟨k, by rw [h.minNs, h.maxNs, hk], Int.natCast_nonneg k, ?_⟩
    omega
  · rw [h.histogram, hsum, h.perm.length_eq]
    exact Nat.zero_add _

theorem Counting.not_binned (h : Counting samples lo lo sorted result) : ¬ Binned samples := by
  rintro ⟨r, hr, hwidth, _⟩
  obtain ⟨counts, -, rfl⟩ := Option.map_eq_some_iff.mp (h.run.symm.trans hr)
  rw [h.minNs, h.maxNs] at hwidth
  exact hwidth bucketSize_self

/-- `measure_jitter` makes a histogram of all samples exactly if two of them are different. -/
theorem jitter_histogram_iff (samples : List Int) :
    Binned samples ↔ ∃ s ∈ samples, ∃ t ∈ samples, s ≠ t := by
  by_cases h : samples = []
  · subst h
    refine iff_of_false (fun ⟨r, hr, _⟩ => ?_) fun ⟨s, hs, _⟩ => List.not_mem_nil hs
    cases hr
  obtain ⟨lo, hi, sorted, result, hc⟩ := exists_counting h
  rw [← hc.extremes.ne_iff]
  refine ⟨fun hb heq => ?_, fun hne => ?_⟩
  · subst heq
    exact hc.not_binned hb
  · have hle := hc.extremes.lo_le hi hc.extremes.hi_mem
    exact hc.binned (by omega)

/-- If all rounds take the same time the divisor is 0. -/
theorem jitter_all_equal : List.replicate 10000 (25 : Int) ≠ [] ∧ ¬ Binned (List.replicate 10000 25) := by
  have hne : List.replicate 10000 (25 : Int) ≠ [] := List.ne_nil_of_length_pos (by
    rw [List.length_replicate]
    decide)
  obtain ⟨lo, hi, sorted, result, hc⟩ := exists_counting hne
  obtain rfl := List.eq_of_mem_replicate hc.extremes.lo_mem
  obtain rfl := List.eq_of_mem_replicate hc.extremes.hi_mem
  exact ⟨hne, hc.not_binned⟩

end JitterMeasure
