import LinuxHandson.Fat16.FileData
import LinuxHandson.Fat16.Proofs.LayoutProofs
import LinuxHandson.Fat16.Proofs.ReadTerminationProofs

/-!
# What a read returns

On a mountable image the loops of `fusefat_read` follow the chain that the FAT gives: the first one
passes over whole clusters, the second one copies from the middle of a cluster to its end and then
cluster by cluster. Together they copy a range of the chain's bytes.
-/

namespace Fat16

open CLib

variable {img : Image} {v : Volume} {c : UInt16} {cs : List UInt16}

/-! ## Addresses -/

theorem Mountable.clusterSize_eq (h : Mountable img v) :
    v.clusterSize.toNat = (bpbOf img).clusterBytes :=
  (layout_sums h.mounts.2 h.sums).2.2.2

theorem Mountable.clusterBytes_pos (h : Mountable img v) : 0 < (bpbOf img).clusterBytes := by
  refine Nat.mul_pos (Nat.pos_of_ne_zero ?_) (Nat.pos_of_ne_zero ?_)
  · exact fun hz => h.cluster (UInt8.toNat_inj.mp hz)
  · exact fun hz => h.sector (UInt16.toNat_inj.mp hz)

/-- The driver seeks to the start of a cluster that lies in the image. -/
theorem Mountable.clusterToOffset_eq (h : Mountable img v) (hc : 2 ≤ c)
    (hdata : Holds img ((bpbOf img).clusterOffset c + (bpbOf img).clusterBytes)) :
    (clusterToOffset v c).toNat = (bpbOf img).clusterOffset c := by
  obtain ⟨-, -, hstart, hsize⟩ := layout_sums h.mounts.2 h.sums
  have hpos := h.clusterBytes_pos
  have hlt : (bpbOf img).clusterOffset c < 2 ^ 32 := Nat.lt_of_lt_of_le (by omega) hdata.2
  exact clusterToOffset_toNat hstart hsize (UInt16.le_iff_toNat_le.mp hc) hlt

/-- The driver reads the FAT entry of a cluster whose entry lies in the image. -/
theorem Mountable.nextCluster_eq (h : Mountable img v)
    (hentry : Holds img ((bpbOf img).entryOffset c + 2)) : nextCluster img v c = link img c := by
  obtain ⟨hfat, -⟩ := layout_sums h.mounts.2 h.sums
  have hoff : (v.fatStart + c.toUInt32 * 2).toNat = (bpbOf img).entryOffset c := by
    have hmul : (c.toUInt32 * 2).toNat = 2 * c.toNat := by
      have := c.toNat_lt
      rw [UInt32.toNat_mul, UInt16.toNat_toUInt32]
      show c.toNat * 2 % 2 ^ 32 = _
      omega
    have hle := hentry.2
    unfold Bpb.entryOffset at *
    rw [UInt32.toNat_add, hmul, hfat, Nat.mod_eq_of_lt (by omega)]
  have hread : img.read ((bpbOf img).entryOffset c) 2 =
      img.slice ((bpbOf img).entryOffset c) 2 := img.read_of_le hentry.1
  rw [nextCluster, hoff, hread, Image.length_slice, if_neg (Nat.lt_irrefl 2)]
  rfl

/-! ## The bytes of a chain -/

theorem length_clusterData (img : Image) (c : UInt16) :
    (clusterData img c).length = (bpbOf img).clusterBytes := img.length_slice _ _

theorem length_chainData (img : Image) (cs : List UInt16) :
    (chainData img cs).length = cs.length * (bpbOf img).clusterBytes := by
  induction cs with
  | nil => simp [chainData]
  | cons c cs ih =>
    rw [chainData, List.flatMap_cons, List.length_append, length_clusterData, ← chainData, ih,
      List.length_cons, Nat.succ_mul, Nat.add_comm]

theorem drop_chainData (img : Image) (k : Nat) :
    ∀ cs : List UInt16, (chainData img cs).drop (k * (bpbOf img).clusterBytes) =
      chainData img (cs.drop k) := by
  induction k with
  | zero =>
    intro cs
    rw [Nat.zero_mul, List.drop_zero, List.drop_zero]
  | succ k ih =>
    intro cs
    cases cs with
    | nil => simp [chainData]
    | cons c cs =>
      rw [Nat.succ_mul, Nat.add_comm, ← List.drop_drop, List.drop_succ_cons, ← ih]
      congr 1
      rw [chainData, List.flatMap_cons, List.drop_left' (length_clusterData img c), chainData]

/-! ## The loops -/

/-- The first loop passes over the first `k` clusters of the chain. -/
theorem skipTo_chain (h : Mountable img v) (k : Nat) :
    ∀ {c : UInt16} {cs : List UInt16}, ChainFrom img c cs → k ≤ cs.length →
      ChainFrom img (skipTo img v k c) (cs.drop k) := by
  induction k with
  | zero =>
    intro c cs hchain _
    exact hchain
  | succ k ih =>
    intro c cs hchain hk
    cases hchain with
    | done hend => cases hk
    | cluster hc hdata hentry hrest =>
      have hlt : c < 0xFFF8 := UInt16.lt_of_le_of_lt hc.2 (by decide)
      rw [skipTo, if_pos hlt, h.nextCluster_eq hentry, List.drop_succ_cons]
      exact ih hrest (Nat.le_of_succ_le_succ hk)

/-- One round copies what is asked for from the rest of the cluster. -/
theorem readRound_cluster (h : Mountable img v) (hc : 2 ≤ c ∧ c ≤ 0xFFEF)
    (hdata : Holds img ((bpbOf img).clusterOffset c + (bpbOf img).clusterBytes))
    (hentry : Holds img ((bpbOf img).entryOffset c + 2)) {size intra : Nat} {buf : List UInt8}
    (hlen : buf.length < size) (hintra : intra < (bpbOf img).clusterBytes) :
    readRound img v size ⟨c, intra, buf⟩ = .again ⟨link img c, 0,
      buf ++ ((clusterData img c).drop intra).take (size - buf.length)⟩ := by
  have hguard : buf.length < size ∧ DataCluster c :=
    ⟨hlen, hc.1, UInt16.lt_of_le_of_lt hc.2 (by decide)⟩
  have hbytes := clusterBytes_lt (bpbOf img)
  obtain ⟨hin, h32⟩ := hdata
  have hcoff : uint32 ((clusterToOffset v c).toNat + intra) = (bpbOf img).clusterOffset c + intra := by
    rw [h.clusterToOffset_eq hc.1 ⟨hin, h32⟩, ← Int.natCast_add]
    exact uint32_natCast (by omega)
  have hto : sizeT (v.clusterSize.toNat - intra) = (bpbOf img).clusterBytes - intra := by
    rw [h.clusterSize_eq, ← Int.natCast_sub (by omega)]
    exact sizeT_natCast (by omega)
  have hrest : ((clusterData img c).drop intra).length = (bpbOf img).clusterBytes - intra := by
    rw [List.length_drop, length_clusterData]
  have hread : img.read ((bpbOf img).clusterOffset c + intra)
      (min ((bpbOf img).clusterBytes - intra) (size - buf.length)) =
      ((clusterData img c).drop intra).take (size - buf.length) := by
    rw [img.read_of_le (by omega), ← img.take_drop_slice (n := (bpbOf img).clusterBytes) (by omega),
      ← clusterData, List.take_eq_take_min (i := size - buf.length), hrest, Nat.min_comm]
  rw [readRound, if_pos hguard]
  simp only
  rw [hcoff, hto, hread, h.nextCluster_eq hentry]

/-- The second loop copies what is asked for from the rest of the chain. -/
theorem rounds_chain (h : Mountable img v) {size : Nat} (hchain : ChainFrom img c cs) :
    ∀ {intra : Nat} {buf : List UInt8}, buf.length ≤ size → intra < (bpbOf img).clusterBytes →
      size - buf.length + intra ≤ (chainData img cs).length →
      rounds (readRound img v size) (cs.length + 1) ⟨c, intra, buf⟩ =
        .done (buf ++ ((chainData img cs).drop intra).take (size - buf.length)) := by
  induction hchain with
  | @done c hend =>
    intro intra buf hle _ henough
    have hfull : ¬ (buf.length < size ∧ DataCluster c) := by
      rintro ⟨hlt, -⟩
      simp only [chainData, List.flatMap_nil, List.length_nil] at henough
      omega
    rw [chainData, List.flatMap_nil, List.drop_nil, List.take_nil, List.append_nil, rounds, readRound,
      if_neg hfull]
  | @cluster c cs hc hdata hentry hrest ih =>
    intro intra buf hle hintra henough
    by_cases hlen : buf.length < size
    · have hround := readRound_cluster h hc hdata hentry hlen hintra
      generalize hX : ((clusterData img c).drop intra).take (size - buf.length) = X at hround
      have hXlen : X.length = min (size - buf.length) ((bpbOf img).clusterBytes - intra) := by
        rw [← hX, List.length_take, List.length_drop, length_clusterData]
      have hdrop : (chainData img (c :: cs)).drop intra =
          (clusterData img c).drop intra ++ chainData img cs := by
        rw [chainData, List.flatMap_cons, ← chainData]
        exact List.drop_append_of_le_length (by rw [length_clusterData]; omega)
      rw [length_chainData, List.length_cons, Nat.succ_mul, ← length_chainData] at henough
      have hend := @ih 0 (buf ++ X) (by rw [List.length_append]; omega) h.clusterBytes_pos
        (by rw [List.length_append]; omega)
      rw [rounds_again hround, List.length_cons, hend, hdrop, List.take_append, hX, List.length_drop,
        length_clusterData, List.drop_zero, List.append_assoc, List.length_append]
      congr 4
      omega
    · have hnone : size - buf.length = 0 := by omega
      have hfull : ¬ (buf.length < size ∧ DataCluster c) := fun hg => hlen hg.1
      rw [hnone, List.take_zero, List.append_nil, rounds, readRound, if_neg hfull]

/-! ## A whole read -/

/-- The size of a read in a file: as much as is asked for and as the file has. -/
theorem readSize_eq {e : DirEntry} {size offset : Nat} (hoff : offset < e.fileSize.toNat)
    (hsum : offset + size < 2 ^ 64) :
    readSize e size offset = min size (e.fileSize.toNat - offset) := by
  have hfile := e.fileSize.toNat_lt
  have hadd : sizeT ((offset : Int) + size) = offset + size := by
    rw [← Int.natCast_add]
    exact sizeT_natCast hsum
  have hsub : sizeT ((e.fileSize.toNat : Int) - offset) = e.fileSize.toNat - offset := by
    rw [← Int.natCast_sub (by omega)]
    exact sizeT_natCast (by omega)
  rw [readSize, hadd, hsub]
  split
  · omega
  · omega

theorem Mountable.clusterSize_ne_zero (h : Mountable img v) : v.clusterSize ≠ 0 := by
  intro hz
  have hsize := h.clusterSize_eq
  rw [hz] at hsize
  exact absurd h.clusterBytes_pos (by rw [← hsize]; decide)

/-- The division of the offset: whole clusters to skip, and the bytes to pass over in the next one. -/
theorem Mountable.offset_parts (h : Mountable img v) {offset : Nat} (hoff : offset < 2 ^ 64) :
    sizeT ((offset : Int).tdiv v.clusterSize.toNat) = offset / (bpbOf img).clusterBytes ∧
      sizeT ((offset : Int).tmod v.clusterSize.toNat) = offset % (bpbOf img).clusterBytes := by
  have hdiv := Nat.div_le_self offset (bpbOf img).clusterBytes
  have hmod := Nat.mod_le offset (bpbOf img).clusterBytes
  rw [h.clusterSize_eq, ← Int.ofNat_tdiv, ← Int.ofNat_tmod]
  exact ⟨sizeT_natCast (by omega), sizeT_natCast (by omega)⟩

/-- What the two loops copy: `m` bytes of the chain from `offset` on. -/
theorem loops_chain (h : Mountable img v) (hchain : ChainFrom img c cs) {offset m : Nat}
    (hlt : offset / (bpbOf img).clusterBytes ≤ cs.length)
    (henough : offset + m ≤ cs.length * (bpbOf img).clusterBytes) {fuel : Nat}
    (hfuel : cs.length < fuel) :
    rounds (readRound img v m) fuel
        ⟨skipTo img v (offset / (bpbOf img).clusterBytes) c, offset % (bpbOf img).clusterBytes, []⟩ =
      .done (((chainData img cs).drop offset).take m) := by
  have hparts := Nat.div_add_mod' offset (bpbOf img).clusterBytes
  have hskip := skipTo_chain h _ hchain hlt
  generalize hk : offset / (bpbOf img).clusterBytes = k at hlt hparts hskip ⊢
  have hrest : (chainData img (cs.drop k)).length =
      cs.length * (bpbOf img).clusterBytes - k * (bpbOf img).clusterBytes := by
    rw [length_chainData, List.length_drop, Nat.sub_mul]
  have hrounds := @rounds_chain img v _ _ h m hskip (offset % (bpbOf img).clusterBytes) []
    (Nat.zero_le m) (Nat.mod_lt _ h.clusterBytes_pos)
    (by rw [hrest, List.length_nil]; omega)
  rw [List.nil_append, List.length_nil, Nat.sub_zero, ← drop_chainData, List.drop_drop, hparts]
    at hrounds
  exact rounds_done_of_le hrounds (by rw [List.length_drop]; omega)

theorem readEntry_content (h : Mountable img v) {e : DirEntry} (hfile : ¬ e.isDirectory)
    (hchain : 0 < e.fileSize.toNat → ChainFrom img e.firstCluster cs)
    (hlen : e.fileSize.toNat ≤ cs.length * (bpbOf img).clusterBytes) {size offset : Nat}
    (hsum : offset + size < 2 ^ 64) {fuel : Nat} (hfuel : cs.length < fuel) (s : Stdio) :
    ∃ s', (readEntry v fuel e size offset).run (stdio img) s =
      some ((cInt (min size (e.fileSize.toNat - offset) : Nat),
        ((chainData img cs).drop offset).take (min size (e.fileSize.toNat - offset))), s') := by
  by_cases hoff : offset < e.fileSize.toNat
  · obtain ⟨hskip, hintra⟩ := h.offset_parts (show offset < 2 ^ 64 by omega)
    have hlt : offset / (bpbOf img).clusterBytes ≤ cs.length := by
      rw [Nat.mul_comm] at hlen
      exact Nat.le_of_lt (Nat.div_lt_of_lt_mul (Nat.lt_of_lt_of_le hoff hlen))
    have henough : offset + min size (e.fileSize.toNat - offset) ≤
        cs.length * (bpbOf img).clusterBytes := by omega
    have hrounds := loops_chain h (hchain (Nat.zero_lt_of_lt hoff)) hlt henough hfuel
    have hin : ¬ (offset : Int) ≥ e.fileSize.toNat := by omega
    obtain ⟨s₁, hrun⟩ := readEntry_run img hfile hin h.clusterSize_ne_zero size s
    obtain ⟨s₂, hread⟩ := readChain_run img v (readSize e size offset) fuel
      ⟨skipTo img v (offset / (bpbOf img).clusterBytes) e.firstCluster,
        offset % (bpbOf img).clusterBytes, []⟩ s₁
    refine ⟨s₂, ?_⟩
    rw [readSize_eq hoff hsum, hrounds] at hread
    simp only at hread
    rw [hrun, hskip, hintra, readSize_eq hoff hsum, hread, Option.map_some]
    have hcopied : (((chainData img cs).drop offset).take
        (min size (e.fileSize.toNat - offset))).length = min size (e.fileSize.toNat - offset) := by
      rw [List.length_take, List.length_drop, length_chainData]
      omega
    rw [hcopied]
  · have hnone : e.fileSize.toNat - offset = 0 := by omega
    refine ⟨s, ?_⟩
    rw [readEntry, if_neg hfile, if_pos (by omega), hnone, Nat.min_zero, List.take_zero]
    rfl

/-- On every mountable image, for every regular file that `find_entry` finds and whose chain, of enough
clusters for its size, lies in the image within 32 bits: for every offset and size whose sum `size_t`
holds, `fusefat_read` fills the buffer with that range of the chain's bytes, up to the end of the file,
and returns its length as an `int`. -/
theorem fusefatRead_content (h : Mountable img v) {path : CStr} {e : DirEntry} {fuel : Nat}
    {s s₁ : Stdio} (hfound : (findEntry v fuel path).run (stdio img) s = some (.ok e, s₁))
    (hfile : ¬ e.isDirectory) (hchain : 0 < e.fileSize.toNat → ChainFrom img e.firstCluster cs)
    (hlen : e.fileSize.toNat ≤ cs.length * (bpbOf img).clusterBytes) {size offset : Nat}
    (hsum : offset + size < 2 ^ 64) (hfuel : cs.length < fuel) :
    ∃ s', (fusefatRead v fuel path size offset).run (stdio img) s =
      some ((cInt (min size (e.fileSize.toNat - offset) : Nat),
        ((chainData img cs).drop offset).take (min size (e.fileSize.toNat - offset))), s') := by
  rw [fusefatRead_eq, Prog.run_bind_of_eq hfound]
  exact readEntry_content h hfile hchain hlen hsum hfuel s₁

/-! ## The file `F` -/

/-- The path `/F`. -/
def pathF : CStr := ⟨[slash, 0x46], by decide⟩

/-- The driver mounts the image and finds the regular file `F`, whose chain has enough clusters. -/
def FileF (fuel : Nat) (img : Image) (v : Volume) (e : DirEntry) (cs : List UInt16) : Prop :=
  Mountable img v ∧
    ((findEntry v fuel pathF).run (stdio img) ⟨0, rootPath⟩).map Prod.fst = some (.ok e) ∧
    ¬ e.isDirectory ∧ ChainFrom img e.firstCluster cs ∧
    e.fileSize.toNat ≤ cs.length * (bpbOf img).clusterBytes

instance (fuel : Nat) (img : Image) (v : Volume) (e : DirEntry) (cs : List UInt16) :
    Decidable (FileF fuel img v e cs) := inferInstanceAs (Decidable (_ ∧ _ ∧ _ ∧ _ ∧ _))

/-- The read at offset 1 of `2 ^ 64 - 1` bytes goes on past the end of the file. -/
theorem fileF_twoClusters :
    FileF 2 twoClusters twoClustersVolume (entryAt twoClusters 9248) [4] ∧
      (entryAt twoClusters 9248).fileSize = 5 ∧
      ((fusefatRead twoClustersVolume 2 pathF (2 ^ 64 - 1) 1).run (stdio twoClusters)
        ⟨0, rootPath⟩).map (fun x => x.1.1) = some 511 := by
  decide +kernel

/-- The slot of a file `F`. -/
def slotF (cluster size : Nat) : List UInt8 :=
  0x46 :: List.replicate 10 space ++ List.replicate 15 0 ++ leBytes 2 cluster ++ leBytes 4 size

/-- A volume like `twoClusters`. The file `F` of 1200 bytes is in the clusters 4, 6 and 5, in this
order. -/
def scatteredFile : Image := Image.sparse (4219 * 512) [
  (11, [0, 2, 1, 1, 0, 1, 16, 0, 0x7B, 0x10, 0xF8, 17, 0]),
  (520, [6, 0, 0xFF, 0xFF, 5, 0]),
  (9216, slotF 4 1200),
  (11262, [0x61, 0x62]),
  (11264, [0x65]),
  (11776, [0x63]),
  (12287, [0x64])]

theorem fileF_scattered :
    FileF 4 scatteredFile twoClustersVolume (entryAt scatteredFile 9216) [4, 6, 5] ∧
      (entryAt scatteredFile 9216).fileSize = 1200 := by
  decide +kernel

/-- A read of 600 bytes at offset 510: the last two bytes of the first cluster, the whole second, and
the start of the third. -/
theorem fusefatRead_content_F :
    let data := ((chainData scatteredFile [4, 6, 5]).drop 510).take 600
    (∃ s', (fusefatRead twoClustersVolume 4 pathF 600 510).run (stdio scatteredFile) ⟨0, rootPath⟩ =
        some ((600, data), s')) ∧
      data.length = 600 ∧ data.take 3 = [0x61, 0x62, 0x63] ∧ (data.drop 513).take 2 = [0x64, 0x65] := by
  intro data
  obtain ⟨⟨hm, hfound, hfile, hchain, hlen⟩, hsize⟩ := fileF_scattered
  obtain ⟨⟨-, s₁⟩, hfound, rfl⟩ := Option.map_eq_some_iff.mp hfound
  have hread := fusefatRead_content hm hfound hfile (fun _ => hchain) hlen
    (by decide : 510 + 600 < 2 ^ 64) (by decide)
  have hmin : min 600 ((1200 : UInt32).toNat - 510) = 600 := by decide
  have hret : cInt ((600 : Nat) : Int) = 600 := by decide
  rw [hsize, hmin, hret] at hread
  exact ⟨hread, by decide +kernel⟩

/-! ## Limits of the arithmetic -/

/-- A volume of 512-KiB clusters. The file `F` of one byte is in cluster 8194, which starts 4 GiB after
cluster 2. -/
def farFile : Image := Image.sparse (40960 + 2 ^ 32 + 2 ^ 19) [
  (11, [0, 0x10, 0x80, 1, 0, 1, 0x80, 0, 0, 0, 0xF8, 8, 0]),
  (4096 + 2 * 8194, [0xFF, 0xFF]),
  (36864, slotF 8194 1),
  (40960, [0x41]),
  (40960 + 2 ^ 32, [0x42])]

/-- The layout of `farFile`. -/
def farFileVolume : Volume := ⟨4096, 36864, 40960, 0x80000, 128⟩

/-- The first byte of a file of one cluster. -/
theorem take_one_chainData (img : Image) (c : UInt16) (h : 0 < (bpbOf img).clusterBytes) :
    (chainData img [c]).take 1 = [img.byte ((bpbOf img).clusterOffset c)] := by
  have hone := @Image.take_drop_slice img ((bpbOf img).clusterOffset c)
    (bpbOf img).clusterBytes 0 1 (by omega)
  rw [List.drop_zero, Nat.add_zero] at hone
  rw [chainData, List.flatMap_singleton, clusterData, hone]
  rfl

/-- The driver reads the byte at the start of cluster 2. -/
theorem farFile_read :
    (Mountable farFile farFileVolume ∧ (entryAt farFile 36864).firstCluster = 8194 ∧
      (entryAt farFile 36864).fileSize = 1 ∧ link farFile 8194 = 0xFFFF ∧
      (bpbOf farFile).clusterOffset 8194 + (bpbOf farFile).clusterBytes ≤ farFile.size) ∧
    (chainData farFile [8194]).take 1 = [0x42] ∧
    ((fusefatRead farFileVolume 2 pathF 1 0).run (stdio farFile) ⟨0, rootPath⟩).map Prod.fst =
      some (1, [0x41]) := by
  rw [take_one_chainData farFile 8194 (by decide +kernel)]
  decide +kernel

/-- A volume of clusters of 255 sectors of 65535 bytes. The file `F` has `2 ^ 31` bytes in 129 clusters
that follow one another. -/
def longFile : Image where
  size := 2228190 + 129 * 16711425
  byte i :=
    -- the entries of clusters 2 to 129
    if 65535 + 4 ≤ i ∧ i < 65535 + 260 then
      if i % 2 = 1 then UInt8.ofNat ((i - (65535 + 4)) / 2 + 3) else 0
    else
      (Image.sparse 0 [
        (11, [0xFF, 0xFF, 255, 1, 0, 1, 0xFF, 0xFF, 0, 0, 0xF8, 1, 0]),
        (65535 + 260, [0xFF, 0xFF]),
        (131070, slotF 2 (2 ^ 31))]).byte i

/-- The layout of `longFile`. -/
def longFileVolume : Volume := ⟨65535, 131070, 2228190, 16711425, 65535⟩

/-- The clusters of `F`. -/
def longChain : List UInt16 := (List.range 129).map fun i => UInt16.ofNat (i + 2)

theorem fileF_longFile :
    FileF 130 longFile longFileVolume (entryAt longFile 131070) longChain ∧
      (entryAt longFile 131070).fileSize.toNat = 2 ^ 31 := by
  decide +kernel

/-- The length of the whole file is no `int`. -/
theorem longFile_read :
    ((fusefatRead longFileVolume 130 pathF (2 ^ 31) 0).run (stdio longFile) ⟨0, rootPath⟩).map
      (fun x => x.1.1) = some (-2 ^ 31) := by
  obtain ⟨⟨hm, hfound, hfile, hchain, hlen⟩, hsize⟩ := fileF_longFile
  obtain ⟨⟨-, s₁⟩, hfound, rfl⟩ := Option.map_eq_some_iff.mp hfound
  have hfuel : longChain.length < 130 := by
    rw [longChain, List.length_map, List.length_range]
    decide
  have hlong : min (2 ^ 31) ((entryAt longFile 131070).fileSize.toNat - 0) = 2 ^ 31 := by
    rw [hsize]
    rfl
  obtain ⟨s', hread⟩ := @readEntry_content longFile longFileVolume longChain hm _ hfile
    (fun _ => hchain) hlen (2 ^ 31) 0 (by decide) 130 hfuel s₁
  rw [hlong, Int.ofNat_zero] at hread
  rw [fusefatRead_eq, Prog.run_bind_of_eq hfound]
  simp only
  rw [hread, Option.map_some]
  rfl

/-- Where the numbers of the driver are too small. An offset and a size that wrap around to 0 do not pass
the end of the file of 5 bytes: the read goes on to the end of the cluster. The address of a cluster at
4 GiB wraps around to the one of cluster 2. And a length from `2 ^ 31` on is negative as an `int`. -/
theorem fusefatRead_limits :
    (FileF 2 twoClusters twoClustersVolume (entryAt twoClusters 9248) [4] ∧
      (entryAt twoClusters 9248).fileSize = 5 ∧
      ((fusefatRead twoClustersVolume 2 pathF (2 ^ 64 - 1) 1).run (stdio twoClusters)
        ⟨0, rootPath⟩).map (fun x => x.1.1) = some 511) ∧
    ((Mountable farFile farFileVolume ∧ (entryAt farFile 36864).firstCluster = 8194 ∧
        (entryAt farFile 36864).fileSize = 1 ∧ link farFile 8194 = 0xFFFF ∧
        (bpbOf farFile).clusterOffset 8194 + (bpbOf farFile).clusterBytes ≤ farFile.size) ∧
      (chainData farFile [8194]).take 1 = [0x42] ∧
      ((fusefatRead farFileVolume 2 pathF 1 0).run (stdio farFile) ⟨0, rootPath⟩).map Prod.fst =
        some (1, [0x41])) ∧
    ((FileF 130 longFile longFileVolume (entryAt longFile 131070) longChain ∧
        (entryAt longFile 131070).fileSize.toNat = 2 ^ 31) ∧
      ((fusefatRead longFileVolume 130 pathF (2 ^ 31) 0).run (stdio longFile) ⟨0, rootPath⟩).map
        (fun x => x.1.1) = some (-2 ^ 31)) :=
  ⟨fileF_twoClusters, farFile_read, fileF_longFile, longFile_read⟩

end Fat16
