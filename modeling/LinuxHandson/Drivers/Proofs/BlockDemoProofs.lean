import LinuxHandson.Drivers.BlockDemo

/-!
# The block device is an array of sectors

A request is one copy, however it is cut into segments: the loop stores the bytes of all segments from
the first sector on, or fills them from there. So the device behaves as the reference array.
-/

namespace BlockDemo

open CLib

/-! ## The loop over the segments -/

/-- Segments of whole sectors. -/
def Whole (bufs : List (List UInt8)) : Prop := ∀ buf ∈ bufs, sectorSize ∣ buf.length

theorem cursor_next (sector : Nat) {len : Nat} (h : sectorSize ∣ len) :
    (sector + len / sectorSize) * sectorSize = sector * sectorSize + len := by
  rw [Nat.add_mul, Nat.div_mul_cancel h]

theorem round_range {sector len rest : Nat} (hdvd : sectorSize ∣ len)
    (h : sector * sectorSize + (len + rest) ≤ nsectors * sectorSize) :
    sizeT (sector * sectorSize : Nat) = sector * sectorSize ∧
      ¬ nsectors * sectorSize < sizeT (sizeT (sector * sectorSize : Nat) + len) ∧
      sizeT (sector + len / sectorSize : Nat) = sector + len / sectorSize ∧
      (sector + len / sectorSize) * sectorSize + rest ≤ nsectors * sectorSize := by
  have hnext := cursor_next sector hdvd
  have hsector : sector + len / sectorSize ≤ (sector + len / sectorSize) * sectorSize :=
    Nat.le_mul_of_pos_right _ (by decide)
  have htotal : nsectors * sectorSize = 4194304 := rfl
  have hoff : sizeT (sector * sectorSize : Nat) = sector * sectorSize := sizeT_natCast (by omega)
  refine ⟨hoff, ?_, sizeT_natCast (by omega), by omega⟩
  rw [hoff, show ((sector * sectorSize : Nat) : Int) + len = (sector * sectorSize + len : Nat) from rfl,
    sizeT_natCast (by omega)]
  omega

theorem forEachSegment_write (bufs : List (List UInt8)) :
    ∀ {sector : Nat} {b : List UInt8}, b.length = nsectors * sectorSize → Whole bufs →
      sector * sectorSize + (bufs.map List.length).sum ≤ nsectors * sectorSize →
        forEachSegment .write sector (some b) bufs =
          some (.ok, some (splice b (sector * sectorSize) bufs.flatten), bufs) := by
  induction bufs with
  | nil =>
    intro sector b _ _ _
    rw [forEachSegment, List.flatten_nil, splice_nil]
  | cons buf bufs ih =>
    intro sector b hb hw hle
    have hdvd := hw buf List.mem_cons_self
    have hrest : Whole bufs := fun x hx => hw x (List.mem_cons_of_mem _ hx)
    rw [List.map_cons, List.sum_cons] at hle
    obtain ⟨hoff, hin, hnext, hle'⟩ := round_range hdvd hle
    have hfit : sector * sectorSize + buf.length ≤ b.length := by
      rw [hb]
      omega
    have hlen : (splice b (sector * sectorSize) buf).length = nsectors * sectorSize := by
      rw [length_splice hfit, hb]
    rw [forEachSegment, if_neg hin, hoff, hnext, memcpyTo_ok hfit]
    simp only [Option.bind_some]
    rw [ih hlen hrest hle', cursor_next _ hdvd, splice_splice hfit, List.flatten_cons]
    rfl

theorem forEachSegment_read (bufs : List (List UInt8)) {b : List UInt8}
    (hb : b.length = nsectors * sectorSize) :
    ∀ {sector : Nat}, Whole bufs →
      sector * sectorSize + (bufs.map List.length).sum ≤ nsectors * sectorSize →
        forEachSegment .read sector (some b) bufs =
          some (.ok, some b,
            (bufs.map List.length).splitLengths (b.drop (sector * sectorSize))) := by
  induction bufs with
  | nil =>
    intro sector _ _
    rfl
  | cons buf bufs ih =>
    intro sector hw hle
    have hdvd := hw buf List.mem_cons_self
    have hrest : Whole bufs := fun x hx => hw x (List.mem_cons_of_mem _ hx)
    rw [List.map_cons, List.sum_cons] at hle
    obtain ⟨hoff, hin, hnext, hle'⟩ := round_range hdvd hle
    have hfit : sector * sectorSize + buf.length ≤ b.length := by
      rw [hb]
      omega
    rw [forEachSegment, if_neg hin, hoff, hnext, memcpyFrom_ok hfit]
    simp only [Option.bind_some]
    rw [ih hrest hle', cursor_next _ hdvd, List.map_cons, List.splitLengths_cons, List.drop_drop]
    rfl

/-! ## One request -/

/-- The store holds the sectors of an array. -/
structure Stores (bdev : BlkdemoDev) (t : Sectors) : Prop where
  data : bdev.data = some (blockBytes t nsectors)
  sector : ∀ i, i < nsectors → (t i).length = sectorSize

theorem sectorSize_pos : 0 < sectorSize := by decide

theorem Whole.dvd_sum {bufs : List (List UInt8)} (h : Whole bufs) :
    sectorSize ∣ (bufs.map List.length).sum := by
  induction bufs with
  | nil => exact Nat.dvd_zero _
  | cons buf bufs ih =>
    rw [List.map_cons, List.sum_cons]
    exact Nat.dvd_add (h buf List.mem_cons_self) (ih fun x hx => h x (List.mem_cons_of_mem _ hx))

/-- The bytes that a valid request covers. -/
theorem Request.Valid.range {rq : Request} (h : rq.Valid) :
    Whole rq.bufs ∧ rq.size = sectorSize * (rq.size / sectorSize) ∧
      rq.pos * sectorSize + rq.size ≤ nsectors * sectorSize := by
  have hw : Whole rq.bufs := fun buf hbuf => (h.2 buf hbuf).2
  have hsize : rq.size = sectorSize * (rq.size / sectorSize) :=
    (Nat.mul_div_cancel' hw.dvd_sum).symm
  refine ⟨hw, hsize, ?_⟩
  have hle := Nat.mul_le_mul_right sectorSize h.1
  rw [Nat.add_mul, Nat.mul_comm (rq.size / sectorSize), ← hsize] at hle
  exact hle

theorem Stores.read {bdev : BlkdemoDev} {t : Sectors} {rq : Request} (hs : Stores bdev t)
    (hv : rq.Valid) (hd : rq.dir = .read) :
    blkdemoQueueRq bdev rq = some ((refStep t rq).1, bdev) ∧ (refStep t rq).2 = t := by
  obtain ⟨hw, hsize, hle⟩ := hv.range
  have hlen : (blockBytes t nsectors).length = nsectors * sectorSize := by
    rw [length_blockBytes hs.sector, Nat.mul_comm]
  have hbytes : (rq.bufs.map List.length).splitLengths
      ((blockBytes t nsectors).drop (rq.pos * sectorSize)) =
      (rq.bufs.map List.length).splitLengths
        (blockBytes (fun i => t (rq.pos + i)) (rq.size / sectorSize)) := by
    rw [← take_drop_blockBytes hs.sector hv.1, ← hsize, Nat.mul_comm sectorSize]
    exact (splitLengths_take _ _).symm
  rw [blkdemoQueueRq, hd, hs.data, forEachSegment_read rq.bufs hlen hw hle, hbytes]
  simp only [refStep, hd, Option.map_some, ← hs.data, and_true]

theorem Stores.write {bdev : BlkdemoDev} {t : Sectors} {rq : Request} (hs : Stores bdev t)
    (hv : rq.Valid) (hd : rq.dir = .write) :
    ∃ bdev', blkdemoQueueRq bdev rq = some ((refStep t rq).1, bdev') ∧
      Stores bdev' (refStep t rq).2 := by
  obtain ⟨hw, hsize, hle⟩ := hv.range
  have hlen : (blockBytes t nsectors).length = nsectors * sectorSize := by
    rw [length_blockBytes hs.sector, Nat.mul_comm]
  have hflat : rq.bufs.flatten.length = sectorSize * (rq.size / sectorSize) := by
    rw [List.length_flatten, ← hsize]
    rfl
  have hstep : blkdemoQueueRq bdev rq = some (⟨.ok, [.ok], rq.bufs⟩,
      ⟨some (splice (blockBytes t nsectors) (rq.pos * sectorSize) rq.bufs.flatten)⟩) := by
    rw [blkdemoQueueRq, hd, hs.data, forEachSegment_write rq.bufs hlen hw hle]
    rfl
  simp only [refStep, hd]
  refine ⟨_, hstep, ?_, ?_⟩
  · rw [Nat.mul_comm rq.pos, splice_blockBytes sectorSize_pos hs.sector hflat hv.1]
  · exact fun i hi => length_storeBlocks sectorSize_pos hs.sector hflat hi

theorem Stores.step {bdev : BlkdemoDev} {t : Sectors} {rq : Request} (hs : Stores bdev t)
    (hv : rq.Valid) :
    ∃ bdev', blkdemoQueueRq bdev rq = some ((refStep t rq).1, bdev') ∧
      Stores bdev' (refStep t rq).2 := by
  cases hd : rq.dir with
  | read =>
    obtain ⟨hstep, href⟩ := hs.read hv hd
    exact ⟨bdev, hstep, href.symm ▸ hs⟩
  | write => exact hs.write hv hd

/-! ## Runs -/

theorem zero_stores : Stores ⟨some (List.replicate (nsectors * sectorSize) 0)⟩ .zero := by
  have hsector : ∀ i, i < nsectors → (Sectors.zero i).length = sectorSize := fun _ _ =>
    List.length_replicate
  refine ⟨?_, hsector⟩
  have hzero : blockBytes Sectors.zero nsectors = List.replicate (nsectors * sectorSize) 0 := by
    rw [List.eq_replicate_iff]
    refine ⟨?_, ?_⟩
    · rw [length_blockBytes hsector, Nat.mul_comm]
    · intro b hb
      obtain ⟨i, -, hi⟩ := List.mem_flatMap.mp hb
      exact (List.mem_replicate.mp hi).2
  rw [hzero]

theorem blkdemoInit_ok {h : Heap} (hok : h.ok = true) :
    blkdemoInit h = some ⟨some (List.replicate (nsectors * sectorSize) 0)⟩ := by
  obtain ⟨b, hb, hlen, -⟩ := realloc_ok hok none (n := nsectors * sectorSize) (by decide)
  have hset := @memset_ok b 0 (nsectors * sectorSize) 0 (by rw [hlen, Nat.zero_add])
  have hall : splice b 0 (List.replicate (nsectors * sectorSize) 0) =
      List.replicate (nsectors * sectorSize) 0 := by
    rw [splice, List.take_zero, List.nil_append, Nat.zero_add, List.length_replicate, ← hlen,
      List.drop_length, List.append_nil]
  rw [show ((0 : Nat) : Int) = 0 from rfl, hall] at hset
  rw [blkdemoInit, hb]
  simp only [hset, Option.map_some]

theorem blkdemoInit_stores {h : Heap} {bdev : BlkdemoDev} (hi : blkdemoInit h = some bdev) :
    Stores bdev .zero := by
  cases hok : h.ok with
  | false =>
    rw [blkdemoInit, realloc, hok] at hi
    cases hi
  | true =>
    rw [blkdemoInit_ok hok] at hi
    obtain rfl := Option.some.inj hi
    exact zero_stores

/-- From the initialised store on, every run of requests that lie within the device, cut into segments
of whole sectors in any way, gives the replies of the array of sectors: reads fill their segments with
what was last written, writes change the sectors that they cover only, and every request is completed
once, with success. -/
theorem blkdemo_refines {h : Heap} {bdev : BlkdemoDev} (hi : blkdemoInit h = some bdev)
    (rqs : List Request) (hv : ∀ rq ∈ rqs, rq.Valid) :
    ∃ bdev', Machine.exec blkdemoQueueRq bdev rqs =
        some ((Machine.specRun refStep Sectors.zero rqs).1, bdev') ∧
      Stores bdev' (Machine.specRun refStep Sectors.zero rqs).2 := by
  refine Machine.Legal.sim ?_ rqs bdev Sectors.zero
    (blkdemoInit_stores hi) (Machine.legal_of_forall rqs hv bdev)
  intro bdev t rq hs hrq
  exact hs.step hrq

/-- Two sectors are written in one segment and then read in two. -/
def twoSectors : List Request :=
  [⟨.write, 3, [List.replicate (sectorSize * 2) 1]⟩,
    ⟨.read, 4, [List.replicate sectorSize 0, List.replicate sectorSize 0]⟩]

/-- An allocator that finds memory. -/
def freshHeap : Heap := ⟨true, fun _ => 0xFF⟩

theorem blkdemo_refines_twoSectors :
    ∃ bdev bdev', blkdemoInit freshHeap = some bdev ∧
      Machine.exec blkdemoQueueRq bdev twoSectors =
        some ((Machine.specRun refStep Sectors.zero twoSectors).1, bdev') ∧
      (Machine.specRun refStep Sectors.zero twoSectors).1.map (fun r => (r.ret, r.completed)) =
        [(.ok, [.ok]), (.ok, [.ok])] := by
  have hi := blkdemoInit_ok (show freshHeap.ok = true from rfl)
  have hvalid : ∀ rq ∈ twoSectors, rq.Valid := by
    intro rq hrq
    simp only [twoSectors, List.mem_cons, List.not_mem_nil, or_false] at hrq
    rcases hrq with rfl | rfl
    · have hlen : (List.replicate (sectorSize * 2) (1 : UInt8)).length = 1024 := List.length_replicate
      simp only [Request.Valid, Request.size, List.map_cons, List.map_nil, List.sum_cons, List.sum_nil,
        List.forall_mem_singleton, hlen]
      decide
    · have hlen : (List.replicate sectorSize (0 : UInt8)).length = 512 := List.length_replicate
      simp only [Request.Valid, Request.size, List.map_cons, List.map_nil, List.sum_cons, List.sum_nil,
        List.forall_mem_cons, hlen]
      decide
  obtain ⟨bdev', hexec, -⟩ := blkdemo_refines hi twoSectors hvalid
  exact ⟨_, bdev', hi, hexec, rfl⟩

end BlockDemo
