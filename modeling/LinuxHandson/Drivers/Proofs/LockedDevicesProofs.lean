import LinuxHandson.Drivers.LockedDevices
import LinuxHandson.Drivers.Proofs.MessageDevicesProofs

/-!
# Message devices behind a mutex are atomic

Run alone, the section under the mutex does what `read` and `write` do, so that calls that run at the
same time answer as if each took effect at one moment.
-/

namespace MessageBuffer

open CLib

variable {m : Msg} {size : Nat}

/-! ## Reads -/

/-- `copy_to_user`, from the bytes that it has copied on. -/
theorem ends_copyOut {n off room : Nat} {r : FileReply × Msg} (hbuf : off + n ≤ m.buf.length)
    (hend : n ≤ room → Ends underLock (.readEnd n off ((m.buf.drop off).take n), m) r)
    (hfault : room < n → Ends underLock (.fail off ((m.buf.drop off).take room), m) r) (k : Nat) :
    ∀ j, j + k = min n room →
      Ends underLock (.copyOut n off room ((m.buf.drop off).take j), m) r := by
  have hnonneg : ¬ ((n : Int) < 0 ∨ (off : Int) < 0) := by omega
  induction k with
  | zero =>
    intro j hj
    have hlen : ((m.buf.drop off).take j).length = j := by
      rw [List.length_take, List.length_drop]
      omega
    by_cases hroom : n ≤ room
    · obtain rfl : j = n := by omega
      refine .again ?_ (hend hroom)
      rw [underLock, copyOut, if_neg hnonneg, hlen, if_pos (Int.le_refl _)]
    · obtain rfl : j = room := by omega
      refine .again ?_ (hfault (by omega))
      rw [underLock, copyOut, if_neg hnonneg, hlen, if_neg (by omega), if_pos (Nat.le_refl _)]
  | succ k ih =>
    intro j hj
    have hlen : ((m.buf.drop off).take j).length = j := by
      rw [List.length_take, List.length_drop]
      omega
    have hlt : j < (m.buf.drop off).length := by
      rw [List.length_drop]
      omega
    have hbyte : m.buf[off + j]? = some (m.buf.drop off)[j] := by
      rw [← List.getElem?_drop, List.getElem?_eq_getElem hlt]
    refine .again ?_ (ih (j + 1) (by omega))
    rw [underLock, copyOut, if_neg hnonneg, hlen, if_neg (by omega), if_neg (by omega),
      Int.toNat_natCast, hbyte, List.take_add_one, List.getElem?_eq_getElem hlt]
    rfl

theorem read_ends (h : Inv size m) (hsize : size ≤ maxCount) {count off : Nat} (room : Nat)
    (hc : count ≤ maxCount) :
    Ends underLock (.readTest count off room, m) (pieceReply m.bytes count off room, m) := by
  have hmax : maxCount = 0x7FFFF000 := rfl
  have hnonneg := h.nonneg
  have hlt := h.lt
  have hbuf := h.length
  have hbytes := h.length_bytes
  by_cases hoff : m.len ≤ off
  · refine .done ?_
    rw [underLock, if_pos hoff, pieceReply_end (by omega)]
  · have hn : min (cInt count) (cInt (m.len - off)) = (min count (m.len.toNat - off) : Nat) := by
      rw [cInt_maxCount hc, cInt_of_lt (by omega) (by omega)]
      omega
    have hin : off + min count (m.len.toNat - off) ≤ m.buf.length := by
      clear hmax hn hsize hc
      omega
    have htake : ∀ j, j ≤ min count (m.len.toNat - off) →
        (m.buf.drop off).take j = (m.bytes.drop off).take j := by
      intro j hj
      rw [Msg.bytes, List.drop_take, List.take_take, Nat.min_eq_left (by omega)]
    have htest : underLock (.readTest count off room, m) = .again (.readLen count off room, m) := by
      rw [underLock, if_neg hoff]
    refine .again htest (.again rfl ?_)
    rw [hn]
    refine ends_copyOut hin ?_ ?_ _ 0 (Nat.zero_add _)
    · intro hroom
      refine .done ?_
      rw [underLock, pieceReply, if_neg (by omega), hbytes, if_pos hroom, htake _ (Nat.le_refl _)]
      rfl
    · intro hroom
      refine .done ?_
      rw [underLock, pieceReply, if_neg (by omega), hbytes, if_neg (by omega), List.take_take,
        Nat.min_eq_left (by omega), htake _ (by omega)]

/-! ## Writes -/

/-- One more byte behind those that were copied. -/
theorem set_splice_append {b f : List UInt8} {v : UInt8} (h : f.length < b.length) :
    (splice b 0 f).set f.length v = splice b 0 (f ++ [v]) := by
  rw [set_splice h, splice, List.take_zero, List.nil_append, Nat.zero_add, List.length_append,
    List.length_singleton, List.append_assoc, List.singleton_append]

/-- The zeros behind what could be read. -/
theorem ends_pad {n : Nat} {off : Int} {r : FileReply × Msg} {f : List UInt8}
    (hbuf : n ≤ m.buf.length) (k : Nat) :
    ∀ j, f.length + j + k = n →
      Ends underLock (.fail off [], { m with buf := splice m.buf 0 (f ++ List.replicate (j + k) 0) }) r →
      Ends underLock (.pad n off (f.length + j),
        { m with buf := splice m.buf 0 (f ++ List.replicate j 0) }) r := by
  induction k with
  | zero =>
    intro j hj hend
    refine .again ?_ hend
    rw [underLock, if_pos (by omega), Nat.add_zero]
  | succ k ih =>
    intro j hj hend
    have hlen : (f ++ List.replicate j (0 : UInt8)).length = f.length + j := by
      rw [List.length_append, List.length_replicate]
    have hin : f.length + j < (splice m.buf 0 (f ++ List.replicate j 0)).length := by
      rw [length_splice (by omega)]
      omega
    refine .again ?_ (ih (j + 1) (by omega) (by rwa [Nat.add_assoc, Nat.add_comm 1 k]))
    rw [underLock, if_neg (by omega)]
    simp only [if_pos hin]
    rw [← hlen, set_splice_append (by omega), List.append_assoc, ← List.replicate_succ', hlen,
      Nat.add_assoc]

/-- `copy_from_user`, from the byte that it has come to on. -/
theorem ends_copyIn {n : Nat} {src : UserSrc} {off : Int} {r : FileReply × Msg}
    (hbuf : n ≤ m.buf.length)
    (hend : n ≤ src.bytes.length →
      Ends underLock (.writeLen n off, { m with buf := splice m.buf 0 (src.bytes.take n) }) r)
    (hfault : src.bytes.length < n →
      Ends underLock (.fail off [], { m with buf := splice m.buf 0 (src.fetched n) }) r) (k : Nat) :
    ∀ j, j + k = min n src.bytes.length →
      Ends underLock (.copyIn n src off j, { m with buf := splice m.buf 0 (src.bytes.take j) }) r := by
  have hnonneg : ¬ ((n : Int) < 0) := by omega
  induction k with
  | zero =>
    intro j hj
    by_cases hle : n ≤ src.bytes.length
    · obtain rfl : j = n := by omega
      refine .again ?_ (hend hle)
      rw [underLock, copyIn, if_neg hnonneg, if_pos (Int.le_refl _)]
    · obtain rfl : j = src.bytes.length := by omega
      have hnone : src.bytes[src.bytes.length]? = none := List.getElem?_eq_none (Nat.le_refl _)
      have hfail := hfault (by omega)
      rw [UserSrc.fetched, if_neg (by omega)] at hfail
      rw [List.take_length]
      cases hpad : src.padded with
      | false =>
        rw [hpad, if_neg Bool.false_ne_true, List.append_nil] at hfail
        refine .again ?_ hfail
        rw [underLock, copyIn, if_neg hnonneg, if_neg (by omega)]
        simp only [hnone, hpad, Bool.false_eq_true, if_false]
      | true =>
        rw [hpad, if_pos rfl] at hfail
        have hzeros := @ends_pad m n off r src.bytes hbuf (n - src.bytes.length) 0 (by omega)
          (by rwa [Nat.zero_add])
        rw [List.replicate_zero, List.append_nil, Nat.add_zero] at hzeros
        refine .again ?_ hzeros
        rw [underLock, copyIn, if_neg hnonneg, if_neg (by omega)]
        simp only [hnone, hpad, if_true]
  | succ k ih =>
    intro j hj
    have hlt : j < src.bytes.length := by omega
    have hlen : (src.bytes.take j).length = j := by
      rw [List.length_take]
      omega
    have hin : j < (splice m.buf 0 (src.bytes.take j)).length := by
      rw [length_splice (by omega)]
      omega
    have hset : (splice m.buf 0 (src.bytes.take j)).set j src.bytes[j] =
        splice m.buf 0 (src.bytes.take (j + 1)) := by
      have := set_splice_append (b := m.buf) (f := src.bytes.take j) (v := src.bytes[j]) (by omega)
      rwa [hlen, List.take_append_getElem] at this
    refine .again ?_ (ih (j + 1) (by omega))
    rw [underLock, copyIn, if_neg hnonneg, if_neg (by omega)]
    simp only [List.getElem?_eq_getElem hlt, if_pos hin]
    rw [hset]

/-- A write under the mutex does what `write` does. -/
theorem write_ends (h : Inv size m) (src : UserSrc) (off : Int) {n : Nat} (hlt : n < size) :
    Ends underLock (.copyIn n src off 0, m)
      (if n ≤ src.bytes.length then
        (⟨n, [], off⟩, ⟨(splice m.buf 0 (src.bytes.take n)).set n 0, n⟩)
      else (⟨-EFAULT, [], off⟩, { m with buf := splice m.buf 0 (src.fetched n) })) := by
  have hbuf := h.length
  have hstart : splice m.buf 0 (src.bytes.take 0) = m.buf := by rw [List.take_zero, splice_nil]
  have hcopy := @ends_copyIn m n src off
    (if n ≤ src.bytes.length then
      (⟨n, [], off⟩, ⟨(splice m.buf 0 (src.bytes.take n)).set n 0, n⟩)
    else (⟨-EFAULT, [], off⟩, { m with buf := splice m.buf 0 (src.fetched n) })) (by omega) ?_ ?_
    _ 0 (Nat.zero_add _)
  · rwa [hstart] at hcopy
  · intro hle
    have hin : 0 ≤ (n : Int) ∧ (n : Int) < (splice m.buf 0 (src.bytes.take n)).length := by
      rw [length_splice (by rw [List.length_take]; omega)]
      omega
    refine .again rfl (.done ?_)
    rw [underLock, if_pos hle]
    simp only [if_pos hin, Int.toNat_natCast]
  · intro hfault
    refine .done ?_
    rw [underLock, if_neg (by omega)]

/-! ## Calls -/

/-- The section under the mutex does what one call of `step` does. -/
theorem lockedCode_implements (hpos : 0 < size) (hsize : size ≤ maxCount) :
    (lockedCode size).Implements (step size) (Inv size) Call.Valid := by
  intro m c h hc
  obtain ⟨r, m', hstep, hinv⟩ := step_ok h hsize hc
  refine ⟨r, m', hstep, ?_, hinv⟩
  cases c with
  | read count off room =>
    obtain ⟨k, rfl⟩ := Int.eq_ofNat_of_zero_le hc.2
    rw [step, read_serves h hsize count k room hc.1, Option.map_some] at hstep
    cases hstep
    exact read_ends h hsize room hc.1
  | write src count off =>
    have hn := @writeLen_eq size count hc.1 hpos hsize
    rw [step, write_eq h src off hn (by omega)] at hstep
    have hends := write_ends h src off (n := min count (size - 1)) (by omega)
    have henter : (lockedCode size).enter (.write src count off) =
        .copyIn (min count (size - 1) : Nat) src off 0 := by
      rw [← hn]
      rfl
    rw [henter]
    split at hstep
    · next hle =>
      cases hstep
      rwa [if_pos hle] at hends
    · next hle =>
      cases hstep
      rwa [if_neg hle] at hends

end MessageBuffer

namespace LockedDevice

open CLib MessageBuffer

variable {ι : Type} [DecidableEq ι]

theorem bufSize_pos (d : LockedDevice) : 0 < d.bufSize := by cases d <;> decide

theorem bufSize_le (d : LockedDevice) : d.bufSize ≤ maxCount := by cases d <;> decide

theorem inv_empty (d : LockedDevice) : Inv d.bufSize (.empty d.bufSize) :=
  ⟨List.length_replicate, Int.le_refl 0, Int.ofNat_lt.mpr d.bufSize_pos⟩

/-- For any threads that call the device at the same time, and any schedule of the copies byte by
byte: what the callers see is what they can see when every call is one step of the device, and while a
call has not returned some thread can go on. -/
theorem calls_atomic (d : LockedDevice) (es : List (LockedObject.Event ι Call))
    (hvalid : ∀ e ∈ es, e.Meets Call.Valid)
    {outs : List (Option (LockedObject.Action ι Call FileReply))}
    {S : LockedObject.State ι Msg Call FileReply Place}
    (hrun : Machine.exec d.step d.start es = some (outs, S)) :
    (∃ es' outs' A, Machine.exec (LockedObject.Atomic.step (MessageBuffer.step d.bufSize))
        (.start (.empty d.bufSize)) es' = some (outs', A) ∧
        LockedObject.history outs' = LockedObject.history outs) ∧
      ∀ i, S.thread i ≠ .idle → ∃ j, (d.step S (.go j)).isSome := by
  have himp := lockedCode_implements d.bufSize_pos d.bufSize_le
  obtain ⟨es', outs', A, -, hexec, hhist, hsim⟩ :=
    LockedObject.Sim.exec himp es (LockedObject.sim_start d.inv_empty) hvalid hrun
  exact ⟨⟨es', outs', A, hexec, hhist⟩, fun i hi => hsim.alive hi⟩

/-- One thread writes `"AB"`. Another calls `read` when one letter has been copied, waits, and takes the
mutex before the write has returned. -/
def writeAndRead : List (LockedObject.Event Bool Call) :=
  [.call true (.write ⟨[0x41, 0x42], true⟩ 2 0), .go true, .go true, .call false (.read 8 0 8), .go true,
    .go true, .go true, .go true, .go false, .go false, .go true, .go false, .go false, .go false,
    .go false, .go false, .go false]

theorem calls_atomic_writeAndRead : ∃ outs S,
    Machine.exec miscDemo.step miscDemo.start writeAndRead = some (outs, S) ∧
    LockedObject.history outs = [.call true (.write ⟨[0x41, 0x42], true⟩ 2 0), .call false (.read 8 0 8),
      .ret true ⟨2, [], 0⟩, .ret false ⟨2, [0x41, 0x42], 2⟩] ∧
    (∃ es' outs' A, Machine.exec (LockedObject.Atomic.step (MessageBuffer.step miscDemo.bufSize))
        (.start (.empty miscDemo.bufSize)) es' = some (outs', A) ∧
        LockedObject.history outs' = LockedObject.history outs) ∧
      ∀ i, S.thread i ≠ .idle → ∃ j, (miscDemo.step S (.go j)).isSome := by
  have hvalid : ∀ e ∈ writeAndRead, e.Meets Call.Valid := by
    simp [writeAndRead, LockedObject.Event.Meets, Call.Valid, maxCount]
  have hend : (Machine.exec miscDemo.step miscDemo.start writeAndRead).map
      (fun p => LockedObject.history p.1) = some [.call true (.write ⟨[0x41, 0x42], true⟩ 2 0),
        .call false (.read 8 0 8), .ret true ⟨2, [], 0⟩, .ret false ⟨2, [0x41, 0x42], 2⟩] := by
    decide +kernel
  obtain ⟨⟨outs, S⟩, hrun, hhist⟩ := Option.map_eq_some_iff.mp hend
  exact ⟨outs, S, hrun, hhist, calls_atomic .miscDemo writeAndRead hvalid hrun⟩

end LockedDevice
