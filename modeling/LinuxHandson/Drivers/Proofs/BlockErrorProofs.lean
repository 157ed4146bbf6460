import LinuxHandson.Drivers.Proofs.BlockDemoProofs

/-!
# The end of a request

A request whose segments all lie within the store is ended once. One that leaves it is ended by the
loop and again by the block layer, and the segments before the one that left it have been stored.
-/

namespace BlockDemo

open CLib

variable {sector : Nat} {b buf : List UInt8} {bdev : BlkdemoDev} {rq : Request}

/-! ## One segment -/

/-- The check of a segment is made on wrapping numbers, and passes for every segment in range. -/
theorem segment_passes {off len : Nat} (h : off + len ≤ nsectors * sectorSize) :
    ¬ nsectors * sectorSize < sizeT ((off : Int) + len) := by
  have htotal : nsectors * sectorSize = 4194304 := rfl
  rw [← Int.natCast_add, sizeT_natCast (by omega)]
  omega

theorem forEachSegment_cons (dir : Dir) (bufs : List (List UInt8)) (hb : b.length = nsectors * sectorSize)
    (h : sizeT (sector * sectorSize : Nat) + buf.length ≤ nsectors * sectorSize) :
    ∃ b' buf', b'.length = nsectors * sectorSize ∧ forEachSegment dir sector (some b) (buf :: bufs) =
      (forEachSegment dir (sizeT (sector + buf.length / sectorSize : Nat)) (some b') bufs).map
        fun p => (p.1, p.2.1, buf' :: p.2.2) := by
  have hpass := segment_passes h
  rw [← hb] at h
  cases dir with
  | write =>
    rw [forEachSegment, if_neg hpass, memcpyTo_ok h]
    exact ⟨_, _, (length_splice h).trans hb, rfl⟩
  | read =>
    rw [forEachSegment, if_neg hpass, memcpyFrom_ok h]
    exact ⟨_, _, hb, rfl⟩

/-- At a segment that leaves the store the loop ends with an error, or copies beyond the store. -/
theorem forEachSegment_cons_outside (dir : Dir) (bufs : List (List UInt8))
    (hb : b.length = nsectors * sectorSize)
    (h : ¬ sizeT (sector * sectorSize : Nat) + buf.length ≤ nsectors * sectorSize) :
    forEachSegment dir sector (some b) (buf :: bufs) = some (.ioerr, some b, buf :: bufs) ∨
      forEachSegment dir sector (some b) (buf :: bufs) = none := by
  unfold forEachSegment
  split
  · exact Or.inl rfl
  · right
    cases dir with
    | write =>
      have hout : memcpyTo (some b) (sizeT (sector * sectorSize : Nat)) buf = none := by
        rw [memcpyTo, if_neg (by omega)]
      rw [hout, Option.bind_none]
    | read =>
      have hout : memcpyFrom (some b) (sizeT (sector * sectorSize : Nat)) buf.length = none := by
        rw [memcpyFrom, if_neg (by omega)]
      rw [hout, Option.bind_none]

/-! ## The loop -/

theorem forEachSegment_inRange (dir : Dir) (bufs : List (List UInt8)) :
    ∀ {sector : Nat} {b : List UInt8}, b.length = nsectors * sectorSize → InRange sector bufs →
      ∃ b' bufs', b'.length = nsectors * sectorSize ∧
        forEachSegment dir sector (some b) bufs = some (.ok, some b', bufs') := by
  induction bufs with
  | nil =>
    intro sector b hb _
    exact ⟨b, [], hb, rfl⟩
  | cons buf bufs ih =>
    intro sector b hb h
    obtain ⟨b1, buf1, hb1, hstep⟩ := forEachSegment_cons dir bufs hb h.1
    obtain ⟨b2, bufs2, hb2, hrest⟩ := ih hb1 h.2
    refine ⟨b2, buf1 :: bufs2, hb2, ?_⟩
    rw [hstep, hrest, Option.map_some]

theorem forEachSegment_outside (dir : Dir) (bufs : List (List UInt8)) :
    ∀ {sector : Nat} {b : List UInt8}, b.length = nsectors * sectorSize → ¬ InRange sector bufs →
      (∃ b' bufs', b'.length = nsectors * sectorSize ∧
        forEachSegment dir sector (some b) bufs = some (.ioerr, some b', bufs')) ∨
      forEachSegment dir sector (some b) bufs = none := by
  induction bufs with
  | nil =>
    intro sector b _ h
    exact absurd trivial h
  | cons buf bufs ih =>
    intro sector b hb h
    by_cases hin : sizeT (sector * sectorSize : Nat) + buf.length ≤ nsectors * sectorSize
    · obtain ⟨b1, buf1, hb1, hstep⟩ := forEachSegment_cons dir bufs hb hin
      rw [hstep]
      rcases ih hb1 (fun hrest => h ⟨hin, hrest⟩) with ⟨b2, bufs2, hb2, hrest⟩ | hrest
      · rw [hrest, Option.map_some]
        exact Or.inl ⟨b2, buf1 :: bufs2, hb2, rfl⟩
      · rw [hrest, Option.map_none]
        exact Or.inr rfl
    · rcases forEachSegment_cons_outside dir bufs hb hin with herr | hnone
      · exact Or.inl ⟨b, buf :: bufs, hb, herr⟩
      · exact Or.inr hnone

/-! ## One request -/

/-- The store has all its bytes. -/
def Sized (bdev : BlkdemoDev) : Prop :=
  ∃ b, bdev.data = some b ∧ b.length = nsectors * sectorSize

theorem Sized.inRange (h : Sized bdev) (hr : InRange rq.pos rq.bufs) :
    ∃ bufs bdev', blkdemoQueueRq bdev rq = some (⟨.ok, [.ok], bufs⟩, bdev') ∧ Sized bdev' := by
  obtain ⟨b, hdata, hb⟩ := h
  obtain ⟨b', bufs', hb', hloop⟩ := forEachSegment_inRange rq.dir rq.bufs hb hr
  refine ⟨bufs', ⟨some b'⟩, ?_, b', rfl, hb'⟩
  rw [blkdemoQueueRq, hdata, hloop, Option.map_some]

theorem Sized.outside (h : Sized bdev) (hr : ¬ InRange rq.pos rq.bufs) :
    (∃ bufs bdev', blkdemoQueueRq bdev rq = some (⟨.ioerr, [.ioerr], bufs⟩, bdev') ∧ Sized bdev') ∨
      blkdemoQueueRq bdev rq = none := by
  obtain ⟨b, hdata, hb⟩ := h
  rw [blkdemoQueueRq, hdata]
  rcases forEachSegment_outside rq.dir rq.bufs hb hr with ⟨b', bufs', hb', hloop⟩ | hloop
  · left
    refine ⟨bufs', ⟨some b'⟩, ?_, b', rfl, hb'⟩
    rw [hloop, Option.map_some]
  · right
    rw [hloop, Option.map_none]

theorem Sized.step {bdev' : BlkdemoDev} {r : Reply} (h : Sized bdev)
    (hs : blkdemoQueueRq bdev rq = some (r, bdev')) : Sized bdev' := by
  by_cases hr : InRange rq.pos rq.bufs
  · obtain ⟨_, _, hs', h'⟩ := h.inRange hr
    rw [hs] at hs'
    cases hs'
    exact h'
  · rcases h.outside hr with ⟨_, _, hs', h'⟩ | hnone
    · rw [hs] at hs'
      cases hs'
      exact h'
    · rw [hs] at hnone
      cases hnone

theorem Sized.endsOnce_iff (h : Sized bdev) : EndsOnce bdev rq ↔ InRange rq.pos rq.bufs := by
  constructor
  · rintro ⟨r, bdev', status, hs, hends, -⟩
    by_contra hr
    rcases h.outside hr with ⟨_, _, hs', -⟩ | hnone
    · rw [hs] at hs'
      cases hs'
      -- ended by the loop, and by the block layer for the status returned
      cases hends
    · rw [hs] at hnone
      cases hnone
  · intro hr
    obtain ⟨bufs, bdev', hs, -⟩ := h.inRange hr
    exact ⟨_, bdev', .ok, hs, rfl, fun hne => absurd rfl hne⟩

theorem inRange_of_whole (bufs : List (List UInt8)) :
    ∀ {sector : Nat}, Whole bufs →
      sector * sectorSize + (bufs.map List.length).sum ≤ nsectors * sectorSize →
        InRange sector bufs := by
  induction bufs with
  | nil => exact fun _ _ => trivial
  | cons buf bufs ih =>
    intro sector hw hle
    rw [List.map_cons, List.sum_cons] at hle
    obtain ⟨hoff, -, hnext, hle'⟩ := round_range (hw buf List.mem_cons_self) hle
    refine ⟨by rw [hoff]; omega, ?_⟩
    rw [hnext]
    exact ih (fun x hx => hw x (List.mem_cons_of_mem _ hx)) hle'

/-- The requests of whole sectors within the device are in range. -/
theorem Request.Valid.inRange (h : rq.Valid) : InRange rq.pos rq.bufs := by
  obtain ⟨hw, -, hle⟩ := h.range
  exact inRange_of_whole rq.bufs hw hle

/-- The device in any state that requests can bring it to. -/
def Serving (bdev : BlkdemoDev) : Prop :=
  ∃ h bdev₀, blkdemoInit h = some bdev₀ ∧ Machine.Reach blkdemoQueueRq (fun _ _ => True) bdev₀ bdev

theorem Serving.whole (h : Serving bdev) : Sized bdev := by
  obtain ⟨heap, bdev₀, hinit, hreach⟩ := h
  refine hreach.invariant ?_ fun _ _ _ _ hw _ hs => hw.step hs
  have hst := blkdemoInit_stores hinit
  refine ⟨_, hst.data, ?_⟩
  rw [length_blockBytes hst.sector, Nat.mul_comm]

/-- A request is ended exactly once, and leaves the store as it was if it fails, if and only if all its
segments lie within the store. -/
theorem blkdemo_endsOnce_iff (h : Serving bdev) (rq : Request) :
    EndsOnce bdev rq ↔ InRange rq.pos rq.bufs :=
  h.whole.endsOnce_iff

/-- The device just loaded. -/
def freshDev : BlkdemoDev := ⟨some (List.replicate (nsectors * sectorSize) 0)⟩

theorem freshDev_serving : Serving freshDev :=
  ⟨freshHeap, freshDev, blkdemoInit_ok rfl, .init⟩

/-- A read of the last sector is ended once. -/
theorem blkdemo_endsOnce_last :
    EndsOnce freshDev ⟨.read, 8191, [List.replicate sectorSize 0]⟩ := by
  refine (blkdemo_endsOnce_iff freshDev_serving _).mpr ⟨?_, trivial⟩
  rw [List.length_replicate]
  decide

/-- A write of two sectors from the last one on. -/
def pastEnd : Request := ⟨.write, 8191, [List.replicate sectorSize 1, List.replicate sectorSize 1]⟩

/-- It is ended twice, and its first sector is written. -/
theorem pastEnd_ended_twice : ¬ EndsOnce freshDev pastEnd ∧
    ∃ r b, blkdemoQueueRq freshDev pastEnd = some (r, ⟨some b⟩) ∧ endings r = [.ioerr, .ioerr] ∧
      b[8191 * sectorSize]? = some 1 ∧
      (List.replicate (nsectors * sectorSize) (0 : UInt8))[8191 * sectorSize]? = some 0 := by
  have hlast : (List.replicate (nsectors * sectorSize) (0 : UInt8)).length = nsectors * sectorSize :=
    List.length_replicate
  have hone : (List.replicate sectorSize (1 : UInt8)).length = sectorSize := List.length_replicate
  have hfit : 8191 * sectorSize + (List.replicate sectorSize (1 : UInt8)).length ≤
      (List.replicate (nsectors * sectorSize) (0 : UInt8)).length := by
    rw [hlast, hone]
    decide
  have hloop : forEachSegment .write 8191 freshDev.data pastEnd.bufs = some (.ioerr,
      some (splice (List.replicate (nsectors * sectorSize) 0) (8191 * sectorSize)
        (List.replicate sectorSize 1)), pastEnd.bufs) := by
    have hoff : sizeT (8191 * sectorSize : Nat) = 8191 * sectorSize := by decide
    have hpass : ¬ nsectors * sectorSize < sizeT ((8191 * sectorSize : Nat) + sectorSize) := by decide
    have hnext : sizeT (8191 + sectorSize / sectorSize : Nat) = nsectors := by decide
    have hstop : nsectors * sectorSize <
        sizeT (sizeT (nsectors * sectorSize : Nat) + sectorSize) := by decide
    rw [freshDev, pastEnd, forEachSegment, hone, hoff, if_neg hpass, memcpyTo_ok hfit, hnext,
      Option.bind_some, forEachSegment, hone, if_pos hstop]
    rfl
  have hstep : blkdemoQueueRq freshDev pastEnd = some (⟨.ioerr, [.ioerr], pastEnd.bufs⟩,
      ⟨some (splice (List.replicate (nsectors * sectorSize) 0) (8191 * sectorSize)
        (List.replicate sectorSize 1))⟩) := by
    rw [blkdemoQueueRq]
    show Option.map _ (forEachSegment .write 8191 freshDev.data pastEnd.bufs) = _
    rw [hloop, Option.map_some]
  refine ⟨?_, _, _, hstep, rfl, ?_, ?_⟩
  · rintro ⟨r, bdev', status, hs, hends, -⟩
    rw [hstep] at hs
    cases hs
    cases hends
  · rw [getElem?_splice hfit, hone, if_pos ⟨Nat.le_refl _, by decide⟩, Nat.sub_self,
      List.getElem?_replicate]
    rfl
  · rw [List.getElem?_replicate, if_pos (by decide)]

end BlockDemo
