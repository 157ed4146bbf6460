import LinuxHandson.Drivers.SerdevDemo

/-!
# Bytes consumed and bytes stored

The buffer keeps the first 255 bytes of the line, and every call reports all its bytes as consumed: what
comes after the buffer is full is lost.
-/

namespace SerdevDemo

open CLib

variable {priv : SerdevDemoPriv} {held : List UInt8} {chunk : Chunk} {chunks : List Chunk}

/-- The string in the buffer. -/
structure Held (priv : SerdevDemoPriv) (held : List UInt8) : Prop where
  size : priv.rxBuf.length = rxBufSize
  len : priv.rxLen = held.length
  lt : held.length < rxBufSize
  nul : priv.rxBuf[held.length]? = some 0
  take : priv.rxBuf.take held.length = held

theorem held_probe : Held serdevDemoProbe [] where
  size := List.length_replicate
  len := rfl
  lt := by decide
  nul := by decide
  take := rfl

/-- How many bytes of a chunk of `count` bytes are stored behind `len` others. -/
def stored (len count : Nat) : Nat := (min (cInt count) (rxBufSize - len - 1)).toNat

theorem toCopy_eq (h : Held priv held) (count : Nat) :
    toCopy priv count = min (cInt count) (rxBufSize - held.length - 1) := by
  have hlt := h.lt
  have hsize : rxBufSize = 256 := rfl
  have hroom : cInt (sizeT ((rxBufSize : Int) - priv.rxLen - 1)) = rxBufSize - held.length - 1 := by
    rw [h.len, sizeT_of_lt (by omega) (by omega)]
    exact cInt_of_lt (by omega) (by omega)
  unfold toCopy
  simp only [hroom]
  split <;> omega

/-- A string stored behind the one in the buffer, and ended. -/
theorem Held.append (h : Held priv held) (src : List UInt8)
    (hfit : held.length + src.length < rxBufSize) :
    ∃ b b', store priv.rxBuf priv.rxLen src = some b ∧
      store b (priv.rxLen + src.length) [0] = some b' ∧
      Held ⟨b', priv.rxLen + src.length⟩ (held ++ src) := by
  have hsize := h.size
  obtain ⟨b, hb, hlen, htake⟩ := store_append src h.take (by omega)
  have hend : (held ++ src).length = held.length + src.length := List.length_append
  have hidx : priv.rxLen + src.length = ((held ++ src).length : Nat) := by
    rw [h.len, hend]
    rfl
  have hnul : (held ++ src).length + [(0 : UInt8)].length ≤ b.length := by
    rw [List.length_singleton]
    omega
  refine ⟨b, splice b (held ++ src).length [0], ?_, ?_, ?_, hidx, ?_, ?_, ?_⟩
  · rw [h.len]
    exact hb
  · rw [hidx]
    exact store_ok hnul
  · rw [length_splice hnul, hlen, hsize]
  · rw [hend]
    exact hfit
  · rw [getElem?_splice hnul, if_pos ⟨Nat.le_refl _, by simp⟩, Nat.sub_self]
    rfl
  · rw [take_splice (by omega), htake]

/-- A call stores within the buffer, and reports all its bytes as consumed. -/
theorem Held.receive (h : Held priv held) (chunk : Chunk) :
    ∃ priv', serdevDemoReceive priv chunk = some ((chunk.buf.length : Int), priv') ∧
      Held priv' (held ++ chunk.buf.take (stored held.length chunk.buf.length)) := by
  have hn := toCopy_eq h chunk.buf.length
  have hle := cInt_natCast_le chunk.buf.length
  unfold serdevDemoReceive stored
  rw [← hn]
  simp only
  by_cases hpos : 0 < toCopy priv chunk.buf.length
  · have hlen : ((chunk.buf.take (toCopy priv chunk.buf.length).toNat).length : Int) =
        toCopy priv chunk.buf.length := by
      rw [List.length_take]
      omega
    obtain ⟨b, b', hb, hb', hheld⟩ := h.append (chunk.buf.take (toCopy priv chunk.buf.length).toNat)
      (by omega)
    rw [hlen] at hb' hheld
    rw [if_pos hpos, hb, Option.bind_some, hb', Option.map_some]
    exact ⟨_, rfl, hheld⟩
  · rw [if_neg hpos, Int.toNat_of_nonpos (by omega), List.take_zero, List.append_nil]
    exact ⟨_, rfl, h⟩

/-! ## Runs -/

theorem stream_cons (chunk : Chunk) (chunks : List Chunk) :
    stream (chunk :: chunks) = chunk.buf ++ stream chunks := List.flatMap_cons

/-- The string after some calls. -/
def heldAfter (held : List UInt8) (chunks : List Chunk) : List UInt8 :=
  chunks.foldl (fun held chunk => held ++ chunk.buf.take (stored held.length chunk.buf.length)) held

/-- Every run writes within the buffer, keeps a string there and consumes all bytes. -/
theorem Held.run (h : Held priv held) (chunks : List Chunk) :
    ∃ rets priv', Machine.exec serdevDemoReceive priv chunks = some (rets, priv') ∧
      Held priv' (heldAfter held chunks) ∧ rets.sum = (stream chunks).length := by
  induction chunks generalizing priv held with
  | nil => exact ⟨[], priv, rfl, h, rfl⟩
  | cons chunk chunks ih =>
    obtain ⟨priv1, hstep, h1⟩ := h.receive chunk
    obtain ⟨rets, priv', hrun, hheld, hsum⟩ := ih h1
    refine ⟨chunk.buf.length :: rets, priv', ?_, hheld, ?_⟩
    · rw [Machine.exec_cons chunks hstep, hrun, Option.map_some]
    · rw [List.sum_cons, hsum, stream_cons, List.length_append, Int.natCast_add]

theorem stored_of_lt {len count : Nat} (hlen : len < rxBufSize) (hc : count < 2 ^ 31) :
    stored len count = min count (rxBufSize - len - 1) := by
  unfold stored
  rw [cInt_of_lt (by omega) (by omega)]
  omega

/-- The buffer keeps the first 255 bytes of the line. -/
theorem heldAfter_eq (bytes : List UInt8) (hb : held = bytes.take (rxBufSize - 1))
    (hc : ∀ chunk ∈ chunks, chunk.buf.length < 2 ^ 31) :
    heldAfter held chunks = (bytes ++ stream chunks).take (rxBufSize - 1) := by
  induction chunks generalizing held bytes with
  | nil =>
    show held = _
    rw [hb, stream, List.flatMap_nil, List.append_nil]
  | cons chunk chunks ih =>
    rw [List.forall_mem_cons] at hc
    have hsize : rxBufSize = 256 := rfl
    have hlen : held.length = min (rxBufSize - 1) bytes.length := by rw [hb, List.length_take]
    have hnext : held ++ chunk.buf.take (stored held.length chunk.buf.length) =
        (bytes ++ chunk.buf).take (rxBufSize - 1) := by
      rw [stored_of_lt (by omega) hc.1, List.take_append, ← hb]
      congr 1
      rw [List.take_eq_take_iff]
      omega
    show heldAfter _ chunks = _
    rw [ih (bytes ++ chunk.buf) hnext hc.2, stream_cons, List.append_assoc]

theorem Held.holds {bytes : List UInt8} (h : Held priv held) (hpre : held <+: bytes) :
    Holds priv bytes := by
  have hlen : priv.rxLen.toNat = held.length := by
    rw [h.len]
    exact Int.toNat_natCast _
  refine ⟨h.size, ?_, ?_, ?_⟩
  · rw [h.len]
    exact ⟨Int.natCast_nonneg _, Int.ofNat_lt.mpr h.lt⟩
  · rw [hlen]
    exact h.nul
  · rw [hlen, h.take]
    exact hpre

/-- Whatever comes in chunks that an `int` can count, the buffer holds the first 255 bytes of it. -/
theorem receive_first (chunks : List Chunk) (hc : ∀ chunk ∈ chunks, chunk.buf.length < 2 ^ 31) :
    ∃ rets priv, Machine.exec serdevDemoReceive serdevDemoProbe chunks = some (rets, priv) ∧
      Held priv ((stream chunks).take (rxBufSize - 1)) ∧ rets.sum = (stream chunks).length := by
  obtain ⟨rets, priv, hrun, hheld, hsum⟩ := held_probe.run chunks
  have heq : heldAfter [] chunks = ([] ++ stream chunks).take (rxBufSize - 1) :=
    heldAfter_eq [] rfl hc
  rw [heq, List.nil_append] at hheld
  exact ⟨rets, priv, hrun, hheld, hsum⟩

theorem length_buf_le {chunks : List Chunk} (h : chunk ∈ chunks) :
    chunk.buf.length ≤ (stream chunks).length := by
  obtain ⟨before, after, rfl⟩ := List.append_of_mem h
  simp only [stream, List.flatMap_append, List.flatMap_cons, List.length_append]
  omega

theorem receives_of_lt (h : (stream chunks).length < rxBufSize) : Receives chunks := by
  have hsize : rxBufSize = 256 := rfl
  obtain ⟨rets, priv, hrun, hheld, hsum⟩ := receive_first chunks fun chunk hmem => by
    have hle := length_buf_le hmem
    omega
  rw [List.take_of_length_le (by omega)] at hheld
  exact ⟨rets, priv, hrun, hheld.holds (List.prefix_refl _), Int.le_of_eq (hsum.trans hheld.len.symm)⟩

theorem lt_of_receives (h : Receives chunks) : (stream chunks).length < rxBufSize := by
  obtain ⟨rets, priv, hrun, -, hsum⟩ := h
  obtain ⟨rets', priv', hrun', hheld, hall⟩ := held_probe.run chunks
  rw [hrun] at hrun'
  cases hrun'
  have hlen := hheld.len
  have hlt := hheld.lt
  omega

/-- The bytes consumed are in the buffer after every call of a run, and the buffer holds a first part of
the stream, if and only if no more than 255 bytes come. -/
theorem serdev_receives_iff (chunks : List Chunk) :
    (∀ n, Receives (chunks.take n)) ↔ (stream chunks).length < rxBufSize := by
  constructor
  · intro h
    have hall := h chunks.length
    rw [List.take_length] at hall
    exact lt_of_receives hall
  · intro hlt n
    have hsplit : stream chunks = stream (chunks.take n) ++ stream (chunks.drop n) := by
      rw [stream, stream, stream, ← List.flatMap_append, List.take_append_drop]
    rw [hsplit, List.length_append] at hlt
    exact receives_of_lt (by omega)

/-- A call with 256 bytes. -/
def oneTooMany : Chunk := ⟨List.replicate 256 0x41, by rw [List.length_replicate]; decide⟩

/-- It stores 255 of them, and reports all as consumed. -/
theorem oneTooMany_lost : (∃ rets priv, Machine.exec serdevDemoReceive serdevDemoProbe [oneTooMany] =
      some (rets, priv) ∧ rets.sum = 256 ∧ priv.rxLen = 255) ∧ ¬ Receives [oneTooMany] := by
  have hlen : (stream [oneTooMany]).length = 256 := by
    have hbuf : oneTooMany.buf.length = 256 := @List.length_replicate _ 256 0x41
    rw [stream_cons, List.length_append, hbuf]
    rfl
  have hsmall : ∀ chunk ∈ [oneTooMany], chunk.buf.length < 2 ^ 31 := fun chunk hmem =>
    Nat.lt_of_le_of_lt (length_buf_le hmem) (by rw [hlen]; decide)
  obtain ⟨rets, priv, hrun, hheld, hsum⟩ := receive_first [oneTooMany] hsmall
  refine ⟨⟨rets, priv, hrun, ?_, ?_⟩, fun h => ?_⟩
  · rw [hsum, hlen]
    rfl
  · rw [hheld.len, List.length_take, hlen]
    rfl
  · have hlt := lt_of_receives h
    rw [hlen] at hlt
    exact absurd hlt (by decide)

end SerdevDemo
