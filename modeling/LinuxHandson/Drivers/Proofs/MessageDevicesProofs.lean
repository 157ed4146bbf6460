import LinuxHandson.Drivers.ProcfsDemo
import LinuxHandson.Drivers.Proofs.ChardevIoctlProofs

/-!
# Reads and failed writes of the message devices

Reads piece by piece deliver the message, whichever of them fail. A write that fails leaves the message
as it was only where the bytes that it had copied by then are those of the message.
-/

namespace CLib

/-- A copy into the front of a buffer leaves its first `n` bytes as they are if and only if it copies
those bytes. -/
theorem take_splice_iff {b f : List UInt8} {n : Nat} :
    (splice b 0 f).take n = b.take n ↔ f.take n <+: b := by
  have hsplice : splice b 0 f = f ++ b.drop f.length := by simp [splice]
  rw [hsplice]
  constructor
  · intro h
    have hpre : f.take n <+: (f ++ b.drop f.length).take n := by
      rw [List.take_append]
      exact List.prefix_append _ _
    rw [h] at hpre
    exact hpre.trans (List.take_prefix n b)
  · rintro ⟨t, rfl⟩
    rcases Nat.le_total n f.length with hle | hge
    · have hlen : (f.take n).length = n := by rw [List.length_take, Nat.min_eq_left hle]
      rw [List.take_append_of_le_length hle, List.take_left' hlen]
    · rw [List.take_of_length_le hge, List.drop_left]

/-- A read that copies from the first `len` bytes of a buffer what stands there behind the offset. -/
theorem copyToUser_piece {b : List UInt8} {len count off : Nat} (room : Nat) (hlen : len ≤ b.length)
    (hoff : off < len) :
    ((copyToUser b off (min count (len - off) : Nat) room).map fun p =>
      if p.1 then (⟨(min count (len - off) : Nat), p.2, off + (min count (len - off) : Nat)⟩ : FileReply)
      else ⟨-EFAULT, p.2, off⟩) = some (pieceReply (b.take len) count off room) := by
  have htake : (b.take len).length = len := by rw [List.length_take, Nat.min_eq_left hlen]
  have hin : off + min count (len - off) ≤ (b.take len).length := by omega
  rw [pieceReply, htake, if_neg (by omega), copyToUser_take (m := len) (by omega) hlen,
    copyToUser_eq room hin, Option.map_some]
  by_cases hroom : min count (len - off) ≤ room
  · have hall : (((b.take len).drop off).take (min count (len - off))).length ≤ room :=
      (List.length_take_le _ _).trans hroom
    rw [if_pos hroom, decide_eq_true hroom, if_pos rfl, List.take_of_length_le hall]
    rfl
  · rw [if_neg hroom, decide_eq_false hroom]
    rfl

theorem strlenIn_of_mem {b : List UInt8} (h : 0 ∈ b) : strlenIn b = some (strlen (.ofBuf b)) :=
  if_pos h

theorem strlen_ofBuf_le (b : List UInt8) : strlen (.ofBuf b) ≤ b.length :=
  (List.takeWhile_prefix _).length_le

theorem take_strlen (b : List UInt8) : b.take (strlen (.ofBuf b)) = (CStr.ofBuf b).bytes :=
  List.prefix_iff_eq_take.mp (List.takeWhile_prefix _) |>.symm

/-- The string in a buffer and the NUL behind it. -/
theorem take_strlen_succ {b : List UInt8} (h : 0 ∈ b) :
    b.take (strlen (.ofBuf b) + 1) = (CStr.ofBuf b).bytes ++ [0] := by
  induction b with
  | nil => simp at h
  | cons a b ih =>
    by_cases ha : a = 0
    · subst ha
      rfl
    · have hb : 0 ∈ b := (List.mem_cons.mp h).resolve_left (Ne.symm ha)
      have hbytes : (CStr.ofBuf (a :: b)).bytes = a :: (CStr.ofBuf b).bytes :=
        List.takeWhile_cons_of_pos (p := (· != 0)) (by simpa using ha)
      have hlen : strlen (.ofBuf (a :: b)) = strlen (.ofBuf b) + 1 := by
        unfold strlen
        rw [hbytes, List.length_cons]
      rw [hlen, List.take_succ_cons, ih hb, hbytes, List.cons_append]

/-- Two buffers with a NUL hold the same string if and only if the second starts with the first
one's string and NUL. -/
theorem ofBuf_eq_iff {b b' : List UInt8} (h : 0 ∈ b) (h' : 0 ∈ b') :
    CStr.ofBuf b' = .ofBuf b ↔ b'.take (strlen (.ofBuf b) + 1) = b.take (strlen (.ofBuf b) + 1) := by
  constructor
  · intro heq
    rw [take_strlen_succ h, ← heq, take_strlen_succ h']
  · intro heq
    rw [take_strlen_succ h] at heq
    have hsplit := List.take_append_drop (strlen (.ofBuf b) + 1) b'
    rw [heq, List.append_assoc] at hsplit
    rw [← hsplit]
    exact CStr.ext_bytes (CStr.ofBuf_append_nul (CStr.ofBuf b).nulFree _)

end CLib

namespace MessageBuffer

open CLib

variable {m : Msg} {size count : Nat} {off : Int}

/-- The buffer has its size and the length is within it. -/
structure Inv (size : Nat) (m : Msg) : Prop where
  length : m.buf.length = size
  nonneg : 0 ≤ m.len
  lt : m.len < size

/-- The bytes of the message. -/
def Msg.bytes (m : Msg) : List UInt8 := m.buf.take m.len.toNat

theorem Inv.length_bytes (h : Inv size m) : m.bytes.length = m.len.toNat := by
  have hlen := h.length
  have hlt := h.lt
  rw [Msg.bytes, List.length_take]
  omega

theorem cInt_maxCount (h : count ≤ maxCount) : cInt count = count := by
  have hmax : maxCount = 0x7FFFF000 := rfl
  exact cInt_of_lt (by omega) (by omega)

/-! ## Reads -/

theorem read_serves (h : Inv size m) (hsize : size ≤ maxCount) : Reader.Serves (read m) m.bytes := by
  intro count off room hc
  have hmax : maxCount = 0x7FFFF000 := rfl
  have hnonneg := h.nonneg
  have hlt := h.lt
  have hbuf := h.length
  have hlen := h.length_bytes
  unfold read
  by_cases hoff : m.len ≤ off
  · rw [if_pos hoff, pieceReply_end (by omega)]
  · have hread : readLen m count off = (min count (m.len.toNat - off) : Nat) := by
      rw [readLen, cInt_maxCount hc, cInt_of_lt (by omega) (by omega)]
      omega
    rw [if_neg hoff, hread]
    exact copyToUser_piece room (by omega) (by omega)

/-- A read depends on the length and the bytes of the message. -/
theorem read_congr {m' : Msg} (h : Inv size m) (h' : Inv size m') (hsize : size ≤ maxCount)
    (hb : m'.bytes = m.bytes) {room : Nat} (hc : count ≤ maxCount)
    (h0 : 0 ≤ off) : read m' count off room = read m count off room := by
  obtain ⟨n, rfl⟩ := Int.eq_ofNat_of_zero_le h0
  rw [read_serves h' hsize count n room hc, read_serves h hsize count n room hc, hb]

/-! ## Writes -/

theorem writeLen_eq (hc : count ≤ maxCount) (h0 : 0 < size) (hsize : size ≤ maxCount) :
    writeLen size count = (min count (size - 1) : Nat) := by
  have hmax : maxCount = 0x7FFFF000 := rfl
  rw [writeLen, cInt_maxCount hc, cInt_of_lt (by omega) (by omega)]
  omega

/-- What a write does: it stores what it can read, and the length only if that was all. -/
theorem write_eq (h : Inv size m) (src : UserSrc) (off : Int) {n : Nat}
    (hn : writeLen size count = n) (hlt : n < size) :
    write size m src count off =
      if n ≤ src.bytes.length then
        some (⟨n, [], off⟩, ⟨(splice m.buf 0 (src.bytes.take n)).set n 0, n⟩)
      else some (⟨-EFAULT, [], off⟩, { m with buf := splice m.buf 0 (src.fetched n) }) := by
  have hlen := h.length
  rw [write, hn, copyFromUser_eq src (by omega), Option.bind_some]
  by_cases hle : n ≤ src.bytes.length
  · have hin : 0 ≤ (n : Int) ∧ (n : Int) < (splice m.buf 0 (src.bytes.take n)).length := by
      rw [length_splice (by rw [List.length_take]; omega)]
      omega
    rw [if_neg (by simp [hle]), if_pos hle, src.fetched_of_le hle, if_pos hin, Int.toNat_natCast]
  · rw [if_pos (decide_eq_false hle), if_neg hle]

theorem inv_spliced (h : Inv size m) {f : List UInt8} (hf : f.length ≤ size) :
    Inv size { m with buf := splice m.buf 0 f } := by
  have hlen := h.length
  refine ⟨?_, h.nonneg, h.lt⟩
  rw [length_splice (by omega)]
  exact hlen

theorem step_ok (h : Inv size m) (hsize : size ≤ maxCount) {c : Call} (hc : c.Valid) :
    ∃ r m', step size m c = some (r, m') ∧ Inv size m' := by
  have hnonneg := h.nonneg
  have hlt := h.lt
  have hlen := h.length
  cases c with
  | read count off room =>
    obtain ⟨n, rfl⟩ := Int.eq_ofNat_of_zero_le hc.2
    refine ⟨pieceReply m.bytes count n room, m, ?_, h⟩
    rw [step, read_serves h hsize count n room hc.1, Option.map_some]
  | write src count off =>
    have hn := @writeLen_eq size count hc.1 (by omega) hsize
    show ∃ r m', write size m src count off = some (r, m') ∧ Inv size m'
    rw [write_eq h src off hn (by omega)]
    split
    · refine ⟨_, _, rfl, ?_, Int.natCast_nonneg _, ?_⟩
      · rw [List.length_set, length_splice (by rw [List.length_take]; omega)]
        exact hlen
      · show ((min count (size - 1) : Nat) : Int) < size
        omega
    · have hfetched := src.length_fetched (min count (size - 1))
      exact ⟨_, _, rfl, inv_spliced h (by omega)⟩

theorem stored_inv (h0 : 0 < size) (hsize : size ≤ maxCount) (h : Stored size m) : Inv size m := by
  refine h.invariant_of_total ⟨List.length_replicate, Int.le_refl 0, by simpa [Msg.empty] using h0⟩ ?_
  intro s c hs hc
  exact step_ok hs hsize hc

/-- A copy into the buffer harms the message unless it copies the message's own bytes. -/
theorem unharmed_splice (h : Inv size m) (hsize : size ≤ maxCount) {f : List UInt8}
    (hf : f.length ≤ size) :
    m.Unharmed { m with buf := splice m.buf 0 f } ↔ f.take m.len.toNat <+: m.buf := by
  rw [← take_splice_iff]
  constructor
  · intro hu
    exact hu.bytes
  · intro hb
    exact ⟨rfl, hb, fun _ _ _ hc h0 => read_congr h (inv_spliced h hf) hsize hb hc h0⟩

theorem write_fault (h : Inv size m) (hsize : size ≤ maxCount) (src : UserSrc)
    (hc : count ≤ maxCount) (off : Int) :
    ∃ r m', write size m src count off = some (r, m') ∧ (r.ret = -EFAULT →
      (m.Unharmed m' ↔ (src.fetched (min count (size - 1))).take m.len.toNat <+: m.buf)) := by
  have hnonneg := h.nonneg
  have hlt := h.lt
  rw [write_eq h src off (writeLen_eq hc (by omega) hsize) (by omega)]
  split
  · refine ⟨_, _, rfl, fun hret => ?_⟩
    have hneg : -EFAULT < 0 := by decide
    simp only at hret
    omega
  · have hfetched := src.length_fetched (min count (size - 1))
    exact ⟨_, _, rfl, fun _ => unharmed_splice h hsize (by omega)⟩

end MessageBuffer

namespace ChardevIoctl

open CLib

variable {d : Dev}

theorem reader_eq (d : Dev) : reader d = MessageBuffer.read d.msg := by
  funext count off room
  unfold reader devRead MessageBuffer.read
  by_cases hoff : d.bufLen ≤ off
  · rw [if_pos hoff, if_pos (show d.msg.len ≤ off from hoff)]
    rfl
  · rw [if_neg hoff, if_neg (show ¬ d.msg.len ≤ off from hoff), Option.map_map]
    congr 1
    funext ⟨full, bytes⟩
    cases full <;> rfl

theorem DevInv.msg (h : DevInv d) : MessageBuffer.Inv bufSize d.msg where
  length := h.length
  nonneg := h.nonneg
  lt := by
    have hle := h.le
    show d.bufLen < bufSize
    omega

theorem unharmed_iff {d' : Dev} : d.Unharmed d' ↔ d.msg.Unharmed d'.msg := by
  unfold Dev.Unharmed MessageBuffer.Msg.Unharmed
  rw [reader_eq, reader_eq]
  rfl

theorem devWrite_fault (h : DevInv d) (src : UserSrc) {count : Nat} (hc : count ≤ maxCount)
    (off : Int) :
    ∃ r d', devWrite d src count off = some (r, d') ∧ (r.ret = -EFAULT →
      (d.Unharmed d' ↔
        (src.fetched (min count (bufSize - 1))).take d.bufLen.toNat <+: d.deviceBuf)) := by
  have hlt := min_lt_bufSize count
  rw [devWrite_eq h src off (writeLen_eq hc) hlt]
  split
  · refine ⟨_, _, rfl, fun hret => ?_⟩
    have hneg : -EFAULT < 0 := by decide
    simp only at hret
    omega
  · have hfetched := src.length_fetched (min count (bufSize - 1))
    refine ⟨_, _, rfl, fun _ => ?_⟩
    rw [unharmed_iff]
    exact MessageBuffer.unharmed_splice h.msg (by decide) (by omega)

theorem setMsg_fault (h : DevInv d) (src : UserSrc) (room : Nat) :
    ∃ r d', devIoctl d ioctlSetMsg src room = some (r, d') ∧ (r.ret = -EFAULT →
      (d.Unharmed d' ↔ (src.fetched (bufSize - 1)).take d.bufLen.toNat <+: d.deviceBuf)) := by
  have hset : devIoctl d ioctlSetMsg src room = setMsg d.counted src := rfl
  rw [hset, setMsg_eq h.counted]
  split
  · refine ⟨_, _, rfl, fun hret => ?_⟩
    exact absurd hret (by decide)
  · have hfetched := src.length_fetched (bufSize - 1)
    have hsize : bufSize = 4096 := rfl
    refine ⟨_, _, rfl, fun _ => ?_⟩
    rw [unharmed_iff]
    exact MessageBuffer.unharmed_splice h.msg (by decide) (by omega)

end ChardevIoctl

namespace ProcfsDemo

open CLib

variable {c : Config} {count : Nat} {off : Int}

/-- The last byte of the buffer is a NUL that no write reaches. -/
structure Config.Inv (c : Config) : Prop where
  length : c.configBuf.length = configSize
  last : c.configBuf[configSize - 1]? = some 0

theorem Config.Inv.mem (h : c.Inv) : 0 ∈ c.configBuf := List.mem_of_getElem? h.last

theorem Config.Inv.strlen_lt (h : c.Inv) : strlen c.text < configSize := by
  have hle := strlen_ofBuf_le c.configBuf
  have htake := take_strlen_succ h.mem
  have hlen := congrArg List.length htake
  rw [List.length_take, List.length_append, List.length_singleton] at hlen
  have hsize := h.length
  have hstr : (CStr.ofBuf c.configBuf).bytes.length = strlen c.text := rfl
  have htext : strlen (.ofBuf c.configBuf) = strlen c.text := rfl
  omega

theorem configRead_serves (h : c.Inv) : Reader.Serves (configRead c) c.text.bytes := by
  intro count off room hc
  have hlt := h.strlen_lt
  have hbuf := h.length
  have hlen : c.text.bytes.length = strlen c.text := rfl
  have htake : c.configBuf.take (strlen c.text) = c.text.bytes := take_strlen c.configBuf
  unfold configRead
  rw [strlenIn_of_mem h.mem, Option.bind_some, ← Config.text]
  by_cases hoff : strlen c.text ≤ off
  · rw [if_pos (by omega), pieceReply_end (by omega)]
  · have hcount : (if (count : Int) < strlen c.text - off then (count : Int)
        else strlen c.text - off) = (min count (strlen c.text - off) : Nat) := by
      split <;> omega
    rw [if_neg (by omega)]
    simp only [hcount]
    rw [← htake]
    exact copyToUser_piece room (by omega) (by omega)

theorem configWrite_eq (h : c.Inv) (src : UserSrc) (off : Int) (hc : count < configSize) :
    configWrite c src count off =
      if count ≤ src.bytes.length then
        some (⟨count, [], off⟩,
          ⟨trimNewline ((splice c.configBuf 0 (src.bytes.take count)).set count 0) count,
            sizeT (c.writeCount + 1)⟩)
      else some (⟨-EFAULT, [], off⟩, { c with configBuf := splice c.configBuf 0 (src.fetched count) }) := by
  have hlen := h.length
  rw [configWrite, if_neg (by omega), copyFromUser_eq src (by omega), Option.map_some]
  by_cases hle : count ≤ src.bytes.length
  · rw [if_neg (by simp [hle]), if_pos hle, src.fetched_of_le hle]
  · rw [if_pos (decide_eq_false hle), if_neg hle]

theorem inv_spliced (h : c.Inv) {f : List UInt8} (hf : f.length < configSize) (n : Nat) :
    Config.Inv ⟨splice c.configBuf 0 f, n⟩ := by
  have hlen := h.length
  have hin : 0 + f.length ≤ c.configBuf.length := by omega
  refine ⟨(length_splice hin).trans hlen, ?_⟩
  show (splice c.configBuf 0 f)[configSize - 1]? = some 0
  rw [getElem?_splice hin, if_neg (by omega)]
  exact h.last

/-- A NUL stored anywhere. -/
theorem inv_set (h : c.Inv) (i n : Nat) : Config.Inv ⟨c.configBuf.set i 0, n⟩ := by
  refine ⟨by rw [List.length_set]; exact h.length, ?_⟩
  show (c.configBuf.set i 0)[configSize - 1]? = some 0
  have hlen := h.length
  have hsize : configSize = 256 := rfl
  rw [List.getElem?_set]
  split
  · rw [if_pos (by omega)]
  · exact h.last

theorem inv_trimNewline (h : c.Inv) (count n : Nat) :
    Config.Inv ⟨trimNewline c.configBuf count, n⟩ := by
  unfold trimNewline
  split
  · exact inv_set h (count - 1) n
  · exact ⟨h.length, h.last⟩

theorem length_defaultConfig : defaultConfig.length = 14 := by decide

theorem inv_initial : Config.initial.Inv where
  length := by
    have hlen := length_defaultConfig
    have hsize : configSize = 256 := rfl
    rw [Config.initial, List.length_append, List.length_replicate]
    omega
  last := by
    have hlen := length_defaultConfig
    have hsize : configSize = 256 := rfl
    rw [Config.initial, List.getElem?_append_right (by omega), List.getElem?_replicate,
      if_pos (by omega)]

theorem step_ok (h : c.Inv) {call : MessageBuffer.Call} (hc : call.Valid) :
    ∃ r c', step c call = some (r, c') ∧ c'.Inv := by
  cases call with
  | read count off room =>
    obtain ⟨n, rfl⟩ := Int.eq_ofNat_of_zero_le hc.2
    refine ⟨pieceReply c.text.bytes count n room, c, ?_, h⟩
    rw [step, configRead_serves h count n room hc.1, Option.map_some]
  | write src count off =>
    show ∃ r c', configWrite c src count off = some (r, c') ∧ c'.Inv
    rcases Nat.lt_or_ge count configSize with hlt | hge
    · rw [configWrite_eq h src off hlt]
      split
      · have hf : (src.bytes.take count).length < configSize :=
          (List.length_take_le _ _).trans_lt hlt
        exact ⟨_, _, rfl, inv_trimNewline (inv_set (inv_spliced h hf 0) count 0) count _⟩
      · exact ⟨_, _, rfl, inv_spliced h ((src.length_fetched count).trans_lt hlt) c.writeCount⟩
    · rw [configWrite, if_pos hge]
      exact ⟨_, _, rfl, h⟩

theorem stored_inv (h : Stored c) : c.Inv := by
  refine h.invariant_of_total inv_initial ?_
  intro s call hs hc
  exact step_ok hs hc

/-- Two states are the same to a reader if and only if they hold the same string. -/
theorem unharmed_iff {c' : Config} (h : c.Inv) (h' : c'.Inv) : c.Unharmed c' ↔ c'.text = c.text := by
  constructor
  · intro hu
    have hlen : strlen c'.text = strlen c.text := by exact_mod_cast hu.length
    have hb := hu.bytes
    have hc : c.configBuf.take (strlen c.text) = c.text.bytes := take_strlen c.configBuf
    have hc' : c'.configBuf.take (strlen c'.text) = c'.text.bytes := take_strlen c'.configBuf
    rw [Int.toNat_natCast, hc, ← hlen, hc'] at hb
    exact CStr.ext_bytes hb
  · intro heq
    have hc : c.configBuf.take (strlen c.text) = c.text.bytes := take_strlen c.configBuf
    have hc' : c'.configBuf.take (strlen c'.text) = c'.text.bytes := take_strlen c'.configBuf
    refine ⟨by rw [heq], ?_, ?_⟩
    · rw [Int.toNat_natCast, hc, ← heq, hc']
    · intro count off room hcount h0
      obtain ⟨n, rfl⟩ := Int.eq_ofNat_of_zero_le h0
      rw [configRead_serves h' count n room hcount, configRead_serves h count n room hcount, heq]

theorem configWrite_fault (h : c.Inv) (src : UserSrc) (count : Nat) (off : Int) :
    ∃ r c', configWrite c src count off = some (r, c') ∧ (r.ret = -EFAULT →
      (c.Unharmed c' ↔ (src.fetched count).take (strlen c.text + 1) <+: c.configBuf)) := by
  rcases Nat.lt_or_ge count configSize with hlt | hge
  · rw [configWrite_eq h src off hlt]
    split
    · refine ⟨_, _, rfl, fun hret => ?_⟩
      have hneg : -EFAULT < 0 := by decide
      simp only at hret
      omega
    · have hinv := inv_spliced h ((src.length_fetched count).trans_lt hlt) c.writeCount
      refine ⟨_, _, rfl, fun _ => ?_⟩
      rw [unharmed_iff h hinv, ← take_splice_iff]
      exact ofBuf_eq_iff h.mem hinv.mem
  · rw [configWrite, if_pos hge]
    refine ⟨_, _, rfl, fun hret => ?_⟩
    exact absurd hret (show ¬ -EINVAL = -EFAULT by decide)

end ProcfsDemo

/-! ## All message devices -/

namespace MessageBuffer

open CLib

/-- The message `"AB"` in the buffer of `chardev_new`. -/
def twoLetters : Msg :=
  ⟨(splice (List.replicate ChardevNew.bufSize 0) 0 [0x41, 0x42]).set 2 0, 2⟩

theorem twoLetters_buf :
    twoLetters.buf = 0x41 :: 0x42 :: 0 :: (List.replicate ChardevNew.bufSize 0).drop 3 := by
  have hlt : [0x41, 0x42].length < (List.replicate ChardevNew.bufSize (0 : UInt8)).length := by
    rw [List.length_replicate]
    decide
  exact set_splice (v := 0) hlt

theorem twoLetters_stored : Stored ChardevNew.bufSize twoLetters := by
  have hinv : Inv ChardevNew.bufSize (.empty ChardevNew.bufSize) :=
    ⟨List.length_replicate, Int.le_refl 0, show (0 : Int) < ChardevNew.bufSize by decide⟩
  have hwrite := write_eq hinv ⟨[0x41, 0x42], false⟩ 0
    (@writeLen_eq ChardevNew.bufSize 2 (by decide) (by decide) (by decide)) (by decide)
  rw [if_pos (by decide)] at hwrite
  exact .next (c := .write ⟨[0x41, 0x42], false⟩ 2 0) .init ⟨by decide, by decide⟩ hwrite

/-- Whatever the sizes of the reads and wherever copies fault, the reads of all four drivers deliver the
message that is stored. -/
theorem reads_deliver :
    (∀ d, Machine.Reach ChardevIoctl.step (fun _ c => c.Valid) .initial d →
      (ChardevIoctl.reader d).Delivers (d.deviceBuf.take d.bufLen.toNat)) ∧
    (∀ d, Stored ChardevNew.bufSize d → (ChardevNew.devRead d).Delivers (d.buf.take d.len.toNat)) ∧
    (∀ priv, Stored MiscMulti.bufSize priv →
      (MiscMulti.miscRead priv).Delivers (priv.buf.take priv.len.toNat)) ∧
    ∀ c, ProcfsDemo.Stored c → (ProcfsDemo.configRead c).Delivers c.text.bytes := by
  refine ⟨?_, ?_, ?_, ?_⟩
  · intro d hd
    have hinv := (ChardevIoctl.devInv_reach hd).msg
    rw [ChardevIoctl.reader_eq]
    exact (read_serves hinv (by decide)).delivers
  · intro d hd
    have hinv := stored_inv (by decide) (by decide) hd
    exact (read_serves hinv (by decide)).delivers
  · intro priv hpriv
    have hinv := stored_inv (by decide) (by decide) hpriv
    exact (read_serves hinv (by decide)).delivers
  · intro c hc
    exact (ProcfsDemo.configRead_serves (ProcfsDemo.stored_inv hc)).delivers

/-- The reads of the messages stored first, and those of `"AB"`: one byte, a fault, the other byte, and
the end. -/
theorem reads_deliver_twoLetters :
    (ChardevIoctl.reader .initial).Delivers [] ∧
    (MiscMulti.miscRead (.empty MiscMulti.bufSize)).Delivers [] ∧
    (ProcfsDemo.configRead .initial).Delivers ProcfsDemo.Config.initial.text.bytes ∧
    ∃ rs off, Machine.exec (ChardevNew.devRead twoLetters).step 0 [⟨1, 1⟩, ⟨9, 0⟩, ⟨9, 9⟩, ⟨9, 9⟩] =
        some (rs, off) ∧
      rs.map FileReply.ret = [1, -EFAULT, 1, 0] ∧ delivered rs = [0x41, 0x42] := by
  obtain ⟨hioctl, hnew, hmisc, hconfig⟩ := reads_deliver
  refine ⟨hioctl _ .init, hmisc _ .init, hconfig _ .init, ?_⟩
  have hvalid : ∀ c ∈ [ReadCall.mk 1 1, ⟨9, 0⟩, ⟨9, 9⟩, ⟨9, 9⟩], c.Valid := by
    simp [ReadCall.Valid, maxCount]
  have hrets : (Machine.exec (ChardevNew.devRead twoLetters).step 0
      [⟨1, 1⟩, ⟨9, 0⟩, ⟨9, 9⟩, ⟨9, 9⟩]).map (fun p => p.1.map FileReply.ret) =
        some [1, -EFAULT, 1, 0] := by decide +kernel
  obtain ⟨rs, off, hrun, -, -, hend, -⟩ := hnew twoLetters twoLetters_stored _ hvalid
  rw [hrun] at hrets
  have hrets : rs.map FileReply.ret = [1, -EFAULT, 1, 0] := Option.some.inj hrets
  have hzero : ∃ r ∈ rs, r.ret = 0 := by
    have hmem : 0 ∈ rs.map FileReply.ret := by rw [hrets]; decide
    exact List.mem_map.mp hmem
  refine ⟨rs, off, hrun, hrets, (hend hzero).trans ?_⟩
  rw [twoLetters_buf]
  rfl

/-- A write or `IOCTL_SET_MSG` that fails with `EFAULT` leaves the message as it was if and only if the
bytes that it stored by then, as far as they reach into the message, are those of the message. Of
`config_buf` the message includes the NUL. -/
theorem failed_write_unharmed (src : UserSrc) (count : Nat) (off : Int) (hc : count ≤ maxCount) :
    (∀ d, Machine.Reach ChardevIoctl.step (fun _ c => c.Valid) .initial d →
      (∃ r d', ChardevIoctl.devWrite d src count off = some (r, d') ∧ (r.ret = -EFAULT →
        (d.Unharmed d' ↔ (src.fetched (min count 4095)).take d.bufLen.toNat <+: d.deviceBuf))) ∧
      ∀ room, ∃ r d', ChardevIoctl.devIoctl d ChardevIoctl.ioctlSetMsg src room = some (r, d') ∧
        (r.ret = -EFAULT →
          (d.Unharmed d' ↔ (src.fetched 4095).take d.bufLen.toNat <+: d.deviceBuf))) ∧
    (∀ d, Stored ChardevNew.bufSize d →
      ∃ r d', ChardevNew.devWrite d src count off = some (r, d') ∧ (r.ret = -EFAULT →
        (d.Unharmed d' ↔ (src.fetched (min count 4095)).take d.len.toNat <+: d.buf))) ∧
    (∀ priv, Stored MiscMulti.bufSize priv →
      ∃ r priv', MiscMulti.miscWrite priv src count off = some (r, priv') ∧ (r.ret = -EFAULT →
        (priv.Unharmed priv' ↔ (src.fetched (min count 1023)).take priv.len.toNat <+: priv.buf))) ∧
    ∀ c, ProcfsDemo.Stored c →
      ∃ r c', ProcfsDemo.configWrite c src count off = some (r, c') ∧ (r.ret = -EFAULT →
        (c.Unharmed c' ↔ (src.fetched count).take (strlen c.text + 1) <+: c.configBuf)) := by
  refine ⟨?_, ?_, ?_, ?_⟩
  · intro d hd
    have hinv := ChardevIoctl.devInv_reach hd
    exact ⟨ChardevIoctl.devWrite_fault hinv src hc off,
      fun room => ChardevIoctl.setMsg_fault hinv src room⟩
  · intro d hd
    exact write_fault (stored_inv (by decide) (by decide) hd) (by decide) src hc off
  · intro priv hpriv
    exact write_fault (stored_inv (by decide) (by decide) hpriv) (by decide) src hc off
  · intro c hc
    exact ProcfsDemo.configWrite_fault (ProcfsDemo.stored_inv hc) src count off

/-- A write of three bytes that faults after the first two, `A` and `B`, leaves `"AB"` as it is: the zero
behind them is behind the message. -/
theorem failed_write_unharmed_twoLetters :
    ∃ r d', ChardevNew.devWrite twoLetters ⟨[0x41, 0x42], true⟩ 3 0 = some (r, d') ∧
      r.ret = -EFAULT ∧ twoLetters.Unharmed d' := by
  obtain ⟨-, hnew, -⟩ := failed_write_unharmed ⟨[0x41, 0x42], true⟩ 3 0 (by decide)
  obtain ⟨r, d', hwrite, hiff⟩ := hnew twoLetters twoLetters_stored
  have hret : r.ret = -EFAULT := by
    have hn := @writeLen_eq ChardevNew.bufSize 3 (by decide) (by decide) (by decide)
    have heq := write_eq (stored_inv (by decide) (by decide) twoLetters_stored)
      ⟨[0x41, 0x42], true⟩ 0 hn (by decide)
    rw [if_neg (by decide)] at heq
    have hsame := Option.some.inj (hwrite.symm.trans heq)
    exact congrArg (fun p => p.1.ret) hsame
  refine ⟨r, d', hwrite, hret, (hiff hret).mpr ?_⟩
  have hf : (UserSrc.fetched ⟨[0x41, 0x42], true⟩ (min 3 4095)).take twoLetters.len.toNat =
      [0x41, 0x42] := by decide
  rw [hf, twoLetters_buf, List.cons_prefix_cons, List.cons_prefix_cons]
  exact ⟨rfl, rfl, List.nil_prefix⟩

/-- A write of two bytes that faults after the first one, an `X`, turns `"AB"` into `X` and a NUL. -/
theorem failed_write_harms :
    Stored ChardevNew.bufSize twoLetters ∧
      ∃ r d', ChardevNew.devWrite twoLetters ⟨[0x58], true⟩ 2 0 = some (r, d') ∧ r.ret = -EFAULT ∧
        d'.buf.take 2 = [0x58, 0] ∧ ¬ twoLetters.Unharmed d' := by
  have hinv := stored_inv (by decide) (by decide) twoLetters_stored
  have hn := @writeLen_eq ChardevNew.bufSize 2 (by decide) (by decide) (by decide)
  have hwrite := write_eq hinv ⟨[0x58], true⟩ 0 hn (by decide)
  rw [if_neg (by decide)] at hwrite
  refine ⟨twoLetters_stored, _, _, hwrite, rfl, rfl, ?_⟩
  rw [unharmed_splice hinv (by decide) (by decide)]
  have hf : (UserSrc.fetched ⟨[0x58], true⟩ (min 2 (ChardevNew.bufSize - 1))).take
      twoLetters.len.toNat = [0x58, 0] := by decide
  rw [hf, twoLetters_buf, List.cons_prefix_cons]
  rintro ⟨heq, -⟩
  exact absurd heq (by decide)

end MessageBuffer
