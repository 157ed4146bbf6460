import LinuxHandson.Lib.ChunkedRead

/-!
# Endless sequences of reads

One reader goes on reading, each time with room for what it asks for. Each call may find another
driver state, so that it has a reader of its own.
-/

namespace CLib

/-- The replies to the first `n` reads from offset 0 on, and the offset after them. -/
def readSeq (read : Nat → Reader) (count : Nat → Nat) : Nat → Option (List FileReply × Int)
  | 0 => some ([], 0)
  | n + 1 => (readSeq read count n).bind fun p =>
    (read n (count n) p.2 (count n)).map fun r => (p.1 ++ [r], r.off)

/-- From some read on, what was returned is the text, and every read returns 0. -/
def ReadsWhole (read : Nat → Reader) (count : Nat → Nat) (text : List UInt8) : Prop :=
  ∃ n, ∀ m, n ≤ m → ∃ rs off r, readSeq read count m = some (rs, off) ∧ delivered rs = text ∧
    read m (count m) off (count m) = some r ∧ r.ret = 0

variable {read : Nat → Reader} {count : Nat → Nat} {text : List UInt8} {n : Nat}

theorem readSeq_succ {rs : List FileReply} {off : Int} {r : FileReply}
    (h : readSeq read count n = some (rs, off)) (hr : read n (count n) off (count n) = some r) :
    readSeq read count (n + 1) = some (rs ++ [r], r.off) := by
  rw [readSeq, h, Option.bind_some, hr, Option.map_some]

theorem delivered_concat (rs : List FileReply) (r : FileReply) :
    delivered (rs ++ [r]) = delivered rs ++ r.bytes := by
  rw [delivered, List.flatMap_append, List.flatMap_singleton]
  rfl

/-- What a reader of a text returns to a reader with room for all it asks for. -/
theorem pieceReply_room {c off : Nat} (h : off ≤ text.length) :
    (pieceReply text c off c).off = (off + min c (text.length - off) : Nat) ∧
      (pieceReply text c off c).ret = (min c (text.length - off) : Nat) ∧
      (pieceReply text c off c).bytes = (text.drop off).take (min c (text.length - off)) := by
  unfold pieceReply FileReply.bytes
  split
  · next hend =>
    have hzero : text.length - off = 0 := by omega
    rw [hzero, Nat.min_zero]
    exact ⟨rfl, rfl, rfl⟩
  · rw [if_pos (Nat.min_le_left _ _)]
    refine ⟨rfl, rfl, ?_⟩
    simp only [Int.toNat_natCast, List.take_take, Nat.min_self]

/-- After `n` reads of a text, at least `n` of its bytes were returned, as far as it has so many. -/
theorem readSeq_of_serves (h : ∀ n, (read n).Serves text)
    (hc : ∀ n, 0 < count n ∧ count n ≤ maxCount) (n : Nat) :
    ∃ (rs : List FileReply) (off : Nat), readSeq read count n = some (rs, (off : Int)) ∧
      off ≤ text.length ∧ min n text.length ≤ off ∧ delivered rs = text.take off := by
  induction n with
  | zero => exact ⟨[], 0, rfl, Nat.zero_le _, by omega, rfl⟩
  | succ n ih =>
    obtain ⟨rs, off, hrun, hle, hmin, hbytes⟩ := ih
    obtain ⟨hoff, -, hpiece⟩ := pieceReply_room (c := count n) hle
    have hpos := (hc n).1
    have hstep := readSeq_succ hrun (h n (count n) off (count n) (hc n).2)
    rw [hoff] at hstep
    refine ⟨_, off + min (count n) (text.length - off), hstep, by omega, by omega, ?_⟩
    rw [delivered_concat, hbytes, hpiece, ← List.take_add]

/-- Readers of a text return the whole of it. -/
theorem readsWhole_of_serves (h : ∀ n, (read n).Serves text)
    (hc : ∀ n, 0 < count n ∧ count n ≤ maxCount) : ReadsWhole read count text := by
  refine ⟨text.length, fun m hm => ?_⟩
  obtain ⟨rs, off, hrun, hle, hmin, hbytes⟩ := readSeq_of_serves h hc m
  obtain rfl : off = text.length := by omega
  refine ⟨rs, _, _, hrun, ?_, h m (count m) text.length (count m) (hc m).2, ?_⟩
  · rw [hbytes, List.take_length]
  · rw [pieceReply_end (Nat.le_refl _)]

/-! ## Readers that take any offset but 0 for the end -/

/-- At offset 0 the call is answered as by a reader of the text, behind it as at the end. -/
structure Reader.ServesOnce (read : Reader) (text : List UInt8) : Prop where
  start : ∀ c : Nat, c ≤ maxCount → read c 0 c = some (pieceReply text c 0 c)
  rest : ∀ (c : Nat) (off : Int), 0 < off → read c off c = some ⟨0, [], off⟩

/-- Only the first read returns something. -/
theorem readSeq_of_servesOnce (h : ∀ n, (read n).ServesOnce text)
    (hc : ∀ n, 0 < count n ∧ count n ≤ maxCount) (ht : 0 < text.length) (n : Nat) :
    ∃ rs, readSeq read count (n + 1) = some (rs, ((min (count 0) text.length : Nat) : Int)) ∧
      delivered rs = text.take (count 0) := by
  induction n with
  | zero =>
    obtain ⟨hoff, -, hpiece⟩ := @pieceReply_room text (count 0) 0 (Nat.zero_le _)
    rw [Nat.sub_zero] at hoff hpiece
    have hstep := readSeq_succ (n := 0) rfl ((h 0).start (count 0) (hc 0).2)
    rw [hoff, Nat.zero_add, Nat.zero_add] at hstep
    refine ⟨_, hstep, ?_⟩
    rw [delivered_concat, hpiece, List.drop_zero, ← List.take_eq_take_min]
    rfl
  | succ n ih =>
    obtain ⟨rs, hrun, hbytes⟩ := ih
    have hpos := (hc 0).1
    have hstep := readSeq_succ hrun ((h (n + 1)).rest (count (n + 1))
      (min (count 0) text.length : Nat) (by omega))
    refine ⟨_, hstep, ?_⟩
    rw [delivered_concat, hbytes]
    exact List.append_nil _

/-- They return the whole text exactly if the first read asks for the whole of it. -/
theorem readsWhole_of_servesOnce (h : ∀ n, (read n).ServesOnce text)
    (hc : ∀ n, 0 < count n ∧ count n ≤ maxCount) (ht : 0 < text.length) :
    ReadsWhole read count text ↔ text.length ≤ count 0 := by
  constructor
  · rintro ⟨n, hn⟩
    obtain ⟨rs, off, r, hrun, hall, -⟩ := hn (n + 1) (Nat.le_succ n)
    obtain ⟨rs', hrun', hbytes⟩ := readSeq_of_servesOnce h hc ht n
    rw [hrun'] at hrun
    obtain ⟨rfl, -⟩ := Prod.mk.inj (Option.some.inj hrun)
    rw [hall] at hbytes
    have hlen := congrArg List.length hbytes
    rw [List.length_take] at hlen
    omega
  · intro hlen
    refine ⟨1, fun m hm => ?_⟩
    obtain ⟨k, rfl⟩ := Nat.exists_eq_add_of_le' hm
    obtain ⟨rs, hrun, hbytes⟩ := readSeq_of_servesOnce h hc ht k
    have hpos := (hc 0).1
    refine ⟨rs, _, _, hrun, ?_, (h (k + 1)).rest _ _ (by omega), rfl⟩
    rw [hbytes, List.take_of_length_le hlen]

end CLib
