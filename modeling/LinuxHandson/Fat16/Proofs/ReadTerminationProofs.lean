import LinuxHandson.Fat16.Chain
import LinuxHandson.Fat16.Proofs.PreviewProofs
import LinuxHandson.Lib.SafeLoop

/-!
# Whether a read terminates

A round of the loop that reads gets no further if its cluster lies past the end of the image, and the
next cluster is whatever the FAT says. So `fusefat_read` reads for ever exactly if the chain comes to a
cycle of such clusters.
-/

namespace Fat16

open CLib Relation

variable {img : Image} {v : Volume} {size : Nat}

/-! ## The loops as functions of the image -/

theorem fatNextCluster_run_eq (img : Image) (v : Volume) (c : UInt16) (s : Stdio) :
    ∃ s', (fatNextCluster v c).run (stdio img) s = some (nextCluster img v c, s') := by
  unfold fatNextCluster nextCluster
  rw [Prog.run_bind_of_eq (run_fseek img _ _), Prog.run_bind_of_eq (run_fread img _ 2 1),
    Nat.mul_one]
  split
  · exact ⟨_, rfl⟩
  · exact ⟨_, rfl⟩

theorem skipClusters_run (img : Image) (v : Volume) (n : Nat) :
    ∀ (c : UInt16) (s : Stdio), ∃ s', (skipClusters v n c).run (stdio img) s =
      some (skipTo img v n c, s') := by
  induction n with
  | zero =>
    intro c s
    exact ⟨s, rfl⟩
  | succ n ih =>
    intro c s
    rw [skipClusters, skipTo]
    by_cases hc : c < 0xFFF8
    · obtain ⟨s₁, hnext⟩ := fatNextCluster_run_eq img v c s
      rw [if_pos hc, if_pos hc, Prog.run_bind_of_eq hnext]
      exact ih _ s₁
    · rw [if_neg hc, if_neg hc]
      exact ⟨s, rfl⟩

/-- The loop that reads, with as many rounds as `fuel` says. -/
theorem readChain_run (img : Image) (v : Volume) (size fuel : Nat) :
    ∀ (t : ReadState) (s : Stdio), ∃ s',
      (readChain v size fuel t.cluster t.intraOffset t.buf).run (stdio img) s =
        match rounds (readRound img v size) fuel t with
        | .done buf => some (buf, s')
        | _ => none := by
  induction fuel with
  | zero =>
    intro t s
    exact ⟨s, rfl⟩
  | succ fuel ih =>
    intro t s
    rw [rounds, readRound]
    by_cases hguard : t.buf.length < size ∧ DataCluster t.cluster
    · rw [if_pos hguard, readChain, if_pos (show _ ∧ _ ≥ _ ∧ _ < _ from hguard)]
      simp only [if_gt_eq_min]
      rw [Prog.run_bind_of_eq (run_fseek img s _), Prog.run_bind_of_eq (run_fread img _ 1 _)]
      obtain ⟨s₁, hnext⟩ := fatNextCluster_run_eq img v t.cluster _
      rw [Prog.run_bind_of_eq hnext, Nat.one_mul]
      exact ih ⟨nextCluster img v t.cluster, 0, _⟩ s₁
    · rw [if_neg hguard, readChain, if_neg (show ¬ (_ ∧ _ ≥ _ ∧ _ < _) from hguard)]
      exact ⟨s, rfl⟩

/-- What `fusefat_read` does once it is known that the entry is a file and the offset lies in it. -/
theorem readEntry_run (img : Image) {e : DirEntry} {offset : Int} (hdir : ¬ e.isDirectory)
    (hoff : ¬ offset ≥ e.fileSize.toNat) (hv : v.clusterSize ≠ 0) (size : Nat) (s : Stdio) :
    ∃ s₁, ∀ fuel, (readEntry v fuel e size offset).run (stdio img) s =
      ((readChain v (readSize e size offset) fuel
        (skipTo img v (sizeT (offset.tdiv v.clusterSize.toNat)) e.firstCluster)
        (sizeT (offset.tmod v.clusterSize.toNat)) []).run (stdio img) s₁).map
          fun x => ((cInt x.1.length, x.1), x.2) := by
  obtain ⟨s₁, hskip⟩ := skipClusters_run img v
    (sizeT (offset.tdiv v.clusterSize.toNat)) e.firstCluster s
  refine ⟨s₁, fun fuel => ?_⟩
  rw [readEntry, if_neg hdir, if_neg hoff, if_neg hv]
  simp only
  rw [Prog.run_bind_of_eq hskip, Prog.run_bind, ← readSize]
  cases Prog.run _ _ s₁ with
  | none => rfl
  | some x => rfl

theorem readRound_safe (t : ReadState) : Safe (readRound img v size) t := by
  refine safe_of_invariant (fun _ => True) ?_ (fun _ _ _ _ => trivial) trivial
  intro t _ ht
  unfold readRound at ht
  split at ht
  · cases ht
  · cases ht

/-- A read returns in some number of rounds exactly if its second loop does not go on for ever. -/
theorem readChain_isSome_iff (t : ReadState) (s : Stdio) :
    (∃ fuel, ((readChain v size fuel t.cluster t.intraOffset t.buf).run (stdio img) s).isSome) ↔
      ¬ Forever (readRound img v size) t := by
  constructor
  · rintro ⟨fuel, h⟩ hforever
    obtain ⟨s', hrun⟩ := readChain_run img v size fuel t s
    obtain ⟨t', ht'⟩ := hforever fuel
    rw [hrun, ht'] at h
    cases h
  · intro h
    obtain ⟨buf, fuel, hn⟩ := (readRound_safe t).exists_ends h
    obtain ⟨s', hrun⟩ := readChain_run img v size fuel t s
    refine ⟨fuel, ?_⟩
    rw [hrun, hn]
    rfl

/-! ## Rounds -/

theorem readRound_again (img : Image) (v : Volume) {t : ReadState} (hlen : t.buf.length < size)
    (hc : DataCluster t.cluster) :
    ∃ b : List UInt8,
      readRound img v size t = .again ⟨nextCluster img v t.cluster, 0, t.buf ++ b⟩ ∧
      b.length = min (inImage img v t.cluster t.intraOffset) (size - t.buf.length) := by
  refine ⟨_, if_pos ⟨hlen, hc⟩, ?_⟩
  rw [Image.length_read, inImage]
  omega

/-- What a round that goes on says about its state and the next one. -/
theorem readRound_cases {t t' : ReadState} (h : readRound img v size t = .again t') :
    t.buf.length < size ∧ DataCluster t.cluster ∧ t'.cluster = nextCluster img v t.cluster ∧
      t'.intraOffset = 0 ∧ t'.buf.length = t.buf.length +
        min (inImage img v t.cluster t.intraOffset) (size - t.buf.length) := by
  by_cases hguard : t.buf.length < size ∧ DataCluster t.cluster
  · obtain ⟨b, hb, hlen⟩ := readRound_again img v hguard.1 hguard.2
    rw [hb] at h
    obtain rfl := Round.again.inj h
    refine ⟨hguard.1, hguard.2, rfl, rfl, ?_⟩
    rw [List.length_append, hlen]
  · rw [readRound, if_neg hguard] at h
    cases h

/-- The image has bytes of every cluster that starts before its end. -/
theorem inImage_zero (c : UInt16) :
    inImage img v c 0 = min v.clusterSize.toNat (img.size - (clusterToOffset v c).toNat) := by
  have hcoff : uint32 ((clusterToOffset v c).toNat + (0 : Nat)) = (clusterToOffset v c).toNat := by
    rw [Int.natCast_zero, Int.add_zero]
    exact uint32_natCast (UInt32.toNat_lt _)
  have hto : sizeT (v.clusterSize.toNat - (0 : Nat)) = v.clusterSize.toNat := by
    rw [Int.natCast_zero, Int.sub_zero]
    exact sizeT_natCast (Nat.lt_trans (UInt32.toNat_lt _) (by decide))
  rw [inImage, hcoff, hto]

theorem toNat_clusterSize_pos (hv : v.clusterSize ≠ 0) : 0 < v.clusterSize.toNat := by
  rw [Nat.pos_iff_ne_zero]
  exact fun h => hv (UInt32.toNat_inj.mp h)

theorem finite_uint16 : (Set.univ : Set UInt16).Finite := by
  have : Finite UInt16 := Finite.of_injective UInt16.toFin fun _ _ h => UInt16.toFin_inj.mp h
  exact Set.finite_univ

/-! ## Reads that go on for ever -/

/-- A cycle of clusters past the end of the image gives no byte. -/
theorem forever_of_pastEnd {t : ReadState} (hc : TransGen (PastEnd img v) t.cluster t.cluster)
    (hintra : t.intraOffset = 0) (hlen : t.buf.length < size) :
    Forever (readRound img v size) t := by
  have hstep : ∀ c c' t, PastEnd img v c c' →
      (t.cluster = c ∧ t.intraOffset = 0 ∧ t.buf.length < size) →
      ∃ t', readRound img v size t = .again t' ∧
        t'.cluster = c' ∧ t'.intraOffset = 0 ∧ t'.buf.length < size := by
    rintro c c' t ⟨hdata, hend, hnext⟩ ⟨rfl, hzero, hshort⟩
    obtain ⟨b, hround, hb⟩ := readRound_again img v hshort hdata
    rw [hzero, inImage_zero] at hb
    refine ⟨_, hround, hnext, rfl, ?_⟩
    rw [List.length_append, hb]
    omega
  exact forever_of_cycle hstep hc ⟨rfl, hintra, hlen⟩

/-- A chain that starves a read keeps its loop going. -/
theorem Starves.forever {n intra : Nat} {c : UInt16} (h : Starves img v n intra c) :
    ∀ buf : List UInt8, n = size - buf.length → Forever (readRound img v size) ⟨c, intra, buf⟩ := by
  induction h with
  | cycle hsize hc =>
    intro buf hn
    exact forever_of_pastEnd hc rfl (show buf.length < size by omega)
  | @next n intra c hc hsize hrest ih =>
    intro buf hn
    have hlen : buf.length < size := by omega
    obtain ⟨b, hround, hb⟩ : ∃ b : List UInt8,
        readRound img v size ⟨c, intra, buf⟩ = .again ⟨nextCluster img v c, 0, buf ++ b⟩ ∧
        b.length = min (inImage img v c intra) (size - buf.length) := readRound_again img v hlen hc
    rw [← hn, Nat.min_eq_left (Nat.le_of_lt hsize)] at hb
    have hstep : rounds (readRound img v size) 1 ⟨c, intra, buf⟩ =
        .again ⟨nextCluster img v c, 0, buf ++ b⟩ := by
      rw [rounds_again hround]
      rfl
    refine Forever.of_rounds (ih (buf ++ b) ?_) hstep
    rw [List.length_append, hb, hn, Nat.sub_sub]

/-- A loop that goes on for ever is at last in a cycle of clusters past the end of the image. -/
theorem exists_pastEnd_cycle (hv : v.clusterSize ≠ 0) {f : Nat → ReadState}
    (hf : ∀ n, readRound img v size (f n) = .again (f (n + 1))) :
    ∃ n, (f n).intraOffset = 0 ∧ TransGen (PastEnd img v) (f n).cluster (f n).cluster := by
  have hmono : ∀ n, (f n).buf.length ≤ (f (n + 1)).buf.length := by
    intro n
    obtain ⟨-, -, -, -, hlen⟩ := readRound_cases (hf n)
    omega
  have hbound : ∀ n, (f n).buf.length ≤ size := by
    intro n
    exact Nat.le_of_lt (readRound_cases (hf n)).1
  obtain ⟨N, hN⟩ := exists_stable hmono hbound
  have hzero : ∀ n, N + 1 ≤ n → (f n).intraOffset = 0 := by
    intro n hn
    obtain ⟨m, rfl⟩ := Nat.exists_eq_succ_of_ne_zero (show n ≠ 0 by omega)
    exact (readRound_cases (hf m)).2.2.2.1
  have hpast : ∀ n, N + 1 ≤ n → PastEnd img v (f n).cluster (f (n + 1)).cluster := by
    intro n hn
    obtain ⟨hshort, hdata, hnext, -, hlen⟩ := readRound_cases (hf n)
    refine ⟨hdata, ?_, hnext.symm⟩
    have hpos := toNat_clusterSize_pos hv
    have hsame := (hN (n + 1) (by omega)).trans (hN n (by omega)).symm
    rw [hzero n hn, inImage_zero] at hlen
    omega
  obtain ⟨n, hn, hcycle⟩ := exists_cycle finite_uint16 (fun n _ => Set.mem_univ (f n).cluster) hpast
  exact ⟨n, hzero n hn, hcycle⟩

/-- The states before one from which the read starves. -/
theorem starves_of_trajectory {f : Nat → ReadState}
    (hf : ∀ n, readRound img v size (f n) = .again (f (n + 1))) (n : Nat) :
    Starves img v (size - (f n).buf.length) (f n).intraOffset (f n).cluster →
      Starves img v (size - (f 0).buf.length) (f 0).intraOffset (f 0).cluster := by
  induction n with
  | zero => exact id
  | succ n ih =>
    intro h
    refine ih ?_
    obtain ⟨hshort, hdata, hnext, hzero, hlen⟩ := readRound_cases (hf n)
    have hshort' := (readRound_cases (hf (n + 1))).1
    rw [hnext, hzero] at h
    refine .next hdata (by omega) ?_
    rw [show size - (f n).buf.length - inImage img v (f n).cluster (f n).intraOffset =
      size - (f (n + 1)).buf.length by omega]
    exact h

/-- The loop that reads goes on for ever exactly if its chain starves it. -/
theorem forever_iff_starves (hv : v.clusterSize ≠ 0) (intra : Nat) (c : UInt16) :
    Forever (readRound img v size) ⟨c, intra, []⟩ ↔ Starves img v size intra c := by
  constructor
  · intro h
    obtain ⟨f, h0, -, hf⟩ := h.trajectory
    obtain ⟨n, hzero, hcycle⟩ := exists_pastEnd_cycle hv hf
    have hshort := (readRound_cases (hf n)).1
    have hstart : Starves img v (size - (f n).buf.length) (f n).intraOffset (f n).cluster := by
      rw [hzero]
      exact .cycle (by omega) hcycle
    have hs := starves_of_trajectory hf n hstart
    rw [h0] at hs
    exact hs
  · intro h
    exact h.forever [] rfl

/-- A read of a file inside it. -/
theorem readTerminates_file {e : DirEntry} {offset : Int} (hv : v.clusterSize ≠ 0)
    (hdir : ¬ e.isDirectory) (hoff : ¬ offset ≥ e.fileSize.toNat) (size : Nat) :
    ReadTerminates img v e size offset ↔ ¬ ReadStarves img v e size offset := by
  rw [ReadStarves, ← forever_iff_starves hv]
  constructor
  · intro h
    obtain ⟨s₁, hrun⟩ := readEntry_run img hdir hoff hv size ⟨0, rootPath⟩
    obtain ⟨fuel, hfuel⟩ := h ⟨0, rootPath⟩
    rw [hrun, Option.isSome_map] at hfuel
    exact (readChain_isSome_iff ⟨_, _, []⟩ s₁).mp ⟨fuel, hfuel⟩
  · intro h s
    obtain ⟨s₁, hrun⟩ := readEntry_run img hdir hoff hv size s
    obtain ⟨fuel, hfuel⟩ := (readChain_isSome_iff ⟨_, _, []⟩ s₁).mpr h
    refine ⟨fuel, ?_⟩
    rw [hrun, Option.isSome_map]
    exact hfuel

/-- For every image with clusters of some size, every entry, size and offset: both loops of
`fusefat_read` terminate exactly if the read does not come to a cycle of clusters past the end of the
image. -/
theorem readTerminates_iff (hv : v.clusterSize ≠ 0) (e : DirEntry) (size : Nat) (offset : Int) :
    ReadTerminates img v e size offset ↔
      e.isDirectory ∨ e.fileSize.toNat ≤ offset ∨ ¬ ReadStarves img v e size offset := by
  by_cases hdir : e.isDirectory
  · refine iff_of_true (fun s => ⟨0, ?_⟩) (.inl hdir)
    rw [readEntry, if_pos hdir]
    rfl
  · by_cases hoff : offset ≥ e.fileSize.toNat
    · refine iff_of_true (fun s => ⟨0, ?_⟩) (.inr (.inl hoff))
      rw [readEntry, if_neg hdir, if_pos hoff]
      rfl
    · rw [readTerminates_file hv hdir hoff, or_iff_right hdir, or_iff_right hoff]

/-- The file `F` of `twoClusters`. -/
theorem readTerminates_iff_twoClusters :
    ReadTerminates twoClusters twoClustersVolume (entryAt twoClusters 9248) 5 0 ↔
      (entryAt twoClusters 9248).isDirectory ∨ (entryAt twoClusters 9248).fileSize.toNat ≤ (0 : Int) ∨
        ¬ ReadStarves twoClusters twoClustersVolume (entryAt twoClusters 9248) 5 0 :=
  readTerminates_iff (by decide) _ 5 0

/-- No read starves on an image that has the start of every cluster. -/
theorem not_starves (himg : ∀ c, DataCluster c → (clusterToOffset v c).toNat < img.size)
    {n intra : Nat} {c : UInt16} : ¬ Starves img v n intra c := by
  intro h
  induction h with
  | cycle hsize hc =>
    obtain ⟨c', ⟨hdata, hend, -⟩, -⟩ := TransGen.head'_iff.mp hc
    exact absurd (himg _ hdata) (Nat.not_lt.mpr hend)
  | next hc hsize hrest ih => exact ih

/-! ## A truncated image -/

/-- A volume like `twoClusters`, cut off where its third cluster starts. The FAT entry of cluster 4, the
first one of the file `F`, is 4. -/
def truncatedLoop : Image := Image.sparse 10752 [
  (11, [0, 2, 1, 1, 0, 1, 16, 0, 0x7B, 0x10, 0xF8, 17, 0]),
  (512, [0xF8, 0xFF, 0xFF, 0xFF, 3, 0, 0xFF, 0xFF, 4, 0]),
  (9216, slotBytes [0x44] attrDirectory 2 0 ++ slotBytes [0x46] 0 4 5)]

/-- The driver mounts the image and finds the file, whose size is 5. The first read of it never
returns. -/
theorem truncated_read_hangs :
    layout (bpbOf truncatedLoop) = some twoClustersVolume ∧
      ((findEntry twoClustersVolume 1 ⟨[slash, 0x46], by decide⟩).run (stdio truncatedLoop)
        ⟨0, rootPath⟩).map Prod.fst = some (.ok (entryAt truncatedLoop 9248)) ∧
      ¬ ReadTerminates truncatedLoop twoClustersVolume (entryAt truncatedLoop 9248) 5 0 := by
  refine ⟨by decide +kernel, by decide +kernel, ?_⟩
  intro h
  have hcycle : PastEnd truncatedLoop twoClustersVolume 4 4 := by
    unfold PastEnd
    decide +kernel
  have hstarves : ReadStarves truncatedLoop twoClustersVolume (entryAt truncatedLoop 9248) 5 0 := by
    have hfirst : skipTo truncatedLoop twoClustersVolume (sizeT (Int.tdiv 0 512))
        (entryAt truncatedLoop 9248).firstCluster = 4 := by decide +kernel
    have hsize : readSize (entryAt truncatedLoop 9248) 5 0 = 5 := by decide +kernel
    unfold ReadStarves
    rw [hsize]
    change Starves _ _ 5 0 (skipTo _ _ (sizeT (Int.tdiv 0 512)) _)
    rw [hfirst]
    exact .cycle (by decide) (.single hcycle)
  exact (readTerminates_file (by decide) (by decide +kernel) (by decide +kernel) 5).mp h hstarves

end Fat16
