import LinuxHandson.MiniProtocol.MiniClient

/-!
# Frames on the wire

The header survives the trip through network byte order and memory, every header that the check
accepts is that of a message, and `read_all`, `write_all`, `send_message` and `recv_message` move
exactly the bytes of their frames, however the calls below them are cut short.
-/

namespace MiniProtocol

open CLib

variable {ε : Type}

/-! ## The header -/

@[simp] theorem length_image (h : ProtoHeader) : h.image.length = sizeofHeader := by
  simp [ProtoHeader.image, sizeofHeader]

/-- The structure over which its own bytes are stored. -/
theorem ofImage_image (h : ProtoHeader) : ProtoHeader.ofImage h.image = h := by
  have hmagic := length_leBytes 4 h.magic.toNat
  have hseq := length_leBytes 2 h.seq.toNat
  have hlen := length_leBytes 4 h.payloadLen.toNat
  have hm := ofNat_leNat_leBytes32 h.magic
  have hs := ofNat_leNat_leBytes16 h.seq
  have hl := ofNat_leNat_leBytes32 h.payloadLen
  unfold ProtoHeader.ofImage ProtoHeader.image
  generalize leBytes 4 h.magic.toNat = bm at *
  generalize leBytes 2 h.seq.toNat = bs at *
  generalize leBytes 4 h.payloadLen.toNat = bl at *
  match bm, hmagic, bs, hseq, bl, hlen with
  | [a, b, c, d], _, [e, f], _, [i, j, k, l], _ =>
    cases h
    exact congr (congr (congr (congr (congr rfl hm) rfl) rfl) hs) hl

/-- The bytes of the structure over which they are stored. -/
theorem image_ofImage {b : List UInt8} (hb : b.length = sizeofHeader) :
    (ProtoHeader.ofImage b).image = b := by
  have h32 : ∀ l : List UInt8, l.length = 4 → leBytes 4 (UInt32.ofNat (leNat l)).toNat = l := by
    intro l hl
    have h := leBytes_leNat l
    rw [hl] at h
    rw [toNat_ofNat_leNat32 hl, h]
  have h16 : ∀ l : List UInt8, l.length = 2 → leBytes 2 (UInt16.ofNat (leNat l)).toNat = l := by
    intro l hl
    have h := leBytes_leNat l
    rw [hl] at h
    rw [toNat_ofNat_leNat16 hl, h]
  match b, hb with
  | [a, b, c, d, e, f, g, h, i, j, k, l], _ =>
    unfold ProtoHeader.image ProtoHeader.ofImage
    change leBytes 4 (UInt32.ofNat (leNat [a, b, c, d])).toNat ++ (e :: f ::
      (leBytes 2 (UInt16.ofNat (leNat [g, h])).toNat ++
        leBytes 4 (UInt32.ofNat (leNat [i, j, k, l])).toNat)) = _
    rw [h32 _ rfl, h16 _ rfl, h32 _ rfl]
    rfl

/-- The check accepts exactly the headers with the magic number, the version and a length of at
most `MAX_PAYLOAD`. -/
theorem validate_eq_zero_iff (h : ProtoHeader) :
    protoValidateHeader h = 0 ↔
      ntohl h.magic = protoMagic ∧ h.version = protoVersion ∧ ntohl h.payloadLen ≤ maxPayload := by
  unfold protoValidateHeader
  split
  · next hm => simp [hm]
  · next hm =>
    split
    · next hv => simp [hv]
    · next hv =>
      split
      · next hl => simpa [not_not.mp hm, not_not.mp hv] using hl
      · next hl => simpa [not_not.mp hm, not_not.mp hv] using hl

theorem validate_nonpos (h : ProtoHeader) : protoValidateHeader h ≤ 0 := by
  unfold protoValidateHeader
  split
  · decide
  · split
    · decide
    · split
      · decide
      · decide

theorem not_validate_neg {h : ProtoHeader} (hv : protoValidateHeader h = 0) :
    ¬ protoValidateHeader h < 0 := by
  rw [hv]
  decide

theorem validate_neg_of_ne {h : ProtoHeader} (hv : protoValidateHeader h ≠ 0) :
    protoValidateHeader h < 0 := by
  have := validate_nonpos h
  omega

namespace Message

variable (m : Message)

theorem len_toNat : m.len.toNat = m.payload.length :=
  UInt32.toNat_ofNat_of_lt' (Nat.lt_of_le_of_lt m.fits (by decide))

theorem header_valid : protoValidateHeader m.header = 0 := by
  refine (validate_eq_zero_iff _).mpr ⟨htonl_htonl _, rfl, ?_⟩
  have hlen : ntohl m.header.payloadLen = m.len := htonl_htonl _
  rw [hlen, UInt32.le_iff_toNat_le, m.len_toNat]
  exact m.fits

theorem header_len : ntohl m.header.payloadLen = m.len := htonl_htonl _

theorem header_seq : ntohs m.header.seq = m.seq := htons_htons _

theorem header_parts : m.header.parts m.payload = m.parts := by
  rw [ProtoHeader.parts, m.header_seq]
  rfl

theorem length_encode : m.encode.length = sizeofHeader + m.payload.length := by
  rw [encode, List.length_append, length_image]

end Message

/-- A DATA message. -/
def hiMessage : Message := ⟨msgData, 65535, [0x68, 0x69], by decide⟩

/-- A valid header is the header of a message of its length. -/
theorem header_eq_of_valid {h : ProtoHeader} (hv : protoValidateHeader h = 0) :
    h = protoFillHeader h.msgType (ntohs h.seq) (ntohl h.payloadLen) := by
  obtain ⟨hm, hver, -⟩ := (validate_eq_zero_iff h).mp hv
  cases h with
  | mk magic version msgType seq payloadLen =>
    simp only [protoFillHeader, ntohl, ntohs, htonl_htonl, htons_htons] at *
    rw [← hm, htonl_htonl, hver]

/-- The bytes after a valid header, up to its length, make a message with it. -/
theorem exists_message {h : ProtoHeader} {p : List UInt8} (hv : protoValidateHeader h = 0)
    (hp : p.length = (ntohl h.payloadLen).toNat) :
    ∃ m : Message, m.header = h ∧ m.payload = p := by
  obtain ⟨-, -, hl⟩ := (validate_eq_zero_iff h).mp hv
  have hfits : p.length ≤ 4096 := by
    rw [hp]
    exact UInt32.le_iff_toNat_le.mp hl
  refine ⟨⟨h.msgType, ntohs h.seq, p, hfits⟩, ?_, rfl⟩
  have hlen : UInt32.ofNat p.length = ntohl h.payloadLen := by rw [hp, UInt32.ofNat_toNat]
  rw [Message.header, Message.len, hlen]
  exact (header_eq_of_valid hv).symm

/-! ## Exact reads and writes -/

theorem readLoop_reads (n fuel : Nat) :
    ∀ buf b : List UInt8, buf.length + b.length = n → b.length < fuel →
      Reads (readLoop fuel n buf : SockProg ε _) b (return ((n : Int), buf ++ b)) := by
  induction fuel with
  | zero => intro buf b _ hf; omega
  | succ fuel ih =>
    intro buf b hn hf
    rcases hb : b with _ | ⟨a, as⟩
    · rw [hb, List.length_nil, Nat.add_zero] at hn
      rw [readLoop, if_neg (by omega), List.append_nil, hn]
      exact Reads.done _
    · rw [← hb]
      have hpos : 0 < b.length := by rw [hb, List.length_cons]; omega
      rw [readLoop, if_pos (by omega)]
      refine Reads.read (by omega) (by omega) fun i hi hin => ?_
      rcases htake : b.take i with _ | ⟨x, xs⟩
      · have hlen := congrArg List.length htake
        rw [List.length_take, List.length_nil] at hlen
        omega
      · have hsplit : buf ++ b = (buf ++ x :: xs) ++ b.drop i := by
          rw [← htake, List.append_assoc, List.take_append_drop]
        rw [hsplit]
        refine ih _ _ ?_ ?_
        · rw [← htake, List.length_append, List.length_take, List.length_drop]
          omega
        · rw [List.length_drop]
          omega

/-- `read_all` takes exactly the bytes it is asked for. -/
theorem readAll_reads (b : List UInt8) :
    Reads (readAll b.length : SockProg ε _) b (return ((b.length : Int), b)) := by
  have h := readLoop_reads (ε := ε) b.length (b.length + 1) [] b (by simp) (by omega)
  rwa [List.nil_append] at h

/-- The header of a frame, and what a program does with it. -/
theorem readHeader_reads {α : Type} (h : ProtoHeader) (f : Int × List UInt8 → SockProg ε α) :
    Reads (readAll sizeofHeader >>= f) h.image (f ((sizeofHeader : Int), h.image)) := by
  have hhdr := readAll_reads (ε := ε) h.image
  rw [length_image] at hhdr
  exact hhdr.bind f

theorem readLoop_drains (n fuel : Nat) :
    ∀ buf b : List UInt8, buf.length + b.length < n → b.length < fuel →
      Drains (readLoop fuel n buf : SockProg ε _) b (return (0, buf ++ b)) := by
  induction fuel with
  | zero => intro buf b _ hf; omega
  | succ fuel ih =>
    intro buf b hn hf
    rw [readLoop, if_pos (by omega)]
    rcases hb : b with _ | ⟨a, as⟩
    · rw [List.append_nil]
      exact Drains.eof _ _
    · rw [← hb]
      have hne : b ≠ [] := by
        rw [hb]
        exact List.cons_ne_nil a as
      refine Drains.read (by omega) hne fun i hi hin => ?_
      rcases htake : b.take i with _ | ⟨x, xs⟩
      · rcases List.take_eq_nil_iff.mp htake with h | h
        · omega
        · exact absurd h hne
      · have hsplit : buf ++ b = (buf ++ x :: xs) ++ b.drop i := by
          rw [← htake, List.append_assoc, List.take_append_drop]
        have hlen := congrArg List.length hsplit
        rw [List.length_append, List.length_append] at hlen
        rw [hsplit]
        refine ih _ _ (by omega) ?_
        rw [List.length_drop]
        have := List.length_pos_of_ne_nil hne
        omega

/-- `read_all` of more bytes than there are. -/
theorem readAll_drains {b : List UInt8} {n : Nat} (hb : b.length < n) :
    Drains (readAll n : SockProg ε _) b (return (0, b)) := by
  have h := readLoop_drains (ε := ε) n (n + 1) [] b (by simpa using hb) (by omega)
  rwa [List.nil_append] at h

theorem writeLoop_writes (b : List UInt8) (fuel : Nat) :
    ∀ total : Nat, total ≤ b.length → b.length - total < fuel →
      Writes (writeLoop fuel b total : SockProg ε _) (b.drop total) (return (b.length : Int)) := by
  induction fuel with
  | zero => intro total _ hf; omega
  | succ fuel ih =>
    intro total ht hf
    by_cases hlt : total < b.length
    · rw [writeLoop, if_pos hlt]
      have hne : b.drop total ≠ [] := by
        rw [ne_eq, List.drop_eq_nil_iff]
        omega
      refine Writes.write hne List.prefix_rfl fun i hi hin => ?_
      rw [List.length_drop] at hin
      obtain ⟨i, rfl⟩ := Nat.exists_eq_succ_of_ne_zero (by omega : i ≠ 0)
      rw [List.drop_drop]
      exact ih (total + (i + 1)) (by omega) (by omega)
    · have heq : total = b.length := by omega
      rw [writeLoop, if_neg hlt, heq, List.drop_length]
      exact Writes.done _

/-- `write_all` puts out exactly the bytes it is given. -/
theorem writeAll_writes (b : List UInt8) :
    Writes (writeAll b : SockProg ε _) b (return (b.length : Int)) := by
  have h := writeLoop_writes (ε := ε) b (b.length + 1) 0 (Nat.zero_le _) (by omega)
  rwa [List.drop_zero] at h

theorem sendMessage_writes (type : UInt8) (seq : UInt16) (p : List UInt8) (len : UInt32) :
    Writes (sendMessage type seq (some p) len : SockProg ε Unit)
      ((protoFillHeader type seq len).image ++ p.take len.toNat) (return ()) := by
  refine ((writeAll_writes _).bind _).trans ?_
  change Writes (if len > 0 then _ else _) _ _
  by_cases hlen : len > 0
  · rw [if_pos hlen]
    exact (writeAll_writes _).bind _
  · have hzero : len.toNat = 0 := by
      rw [gt_iff_lt, UInt32.lt_iff_toNat_lt] at hlen
      exact Nat.eq_zero_of_not_pos hlen
    rw [if_neg hlen, hzero, List.take_zero]
    exact Writes.done _

theorem sendMessage_encode (m : Message) :
    Writes (sendMessage m.type m.seq (some m.payload) m.len : SockProg ε Unit) m.encode
      (return ()) := by
  have h := sendMessage_writes (ε := ε) m.type m.seq m.payload m.len
  rwa [m.len_toNat, List.take_length] at h

/-- `send_message` without a payload puts out the header. -/
theorem sendMessage_null {m : Message} (hm : m.payload = []) :
    Writes (sendMessage m.type m.seq none 0 : SockProg ε Unit) m.encode (return ()) := by
  have hlen : m.len = 0 := by rw [Message.len, hm]; rfl
  rw [Message.encode, hm, Message.header, hlen, List.append_nil]
  exact (writeAll_writes _).bind _

theorem recvMessage_reads (m : Message) :
    Reads (recvMessage maxPayload) m.encode (return some (m.header, m.payload)) := by
  refine (readHeader_reads m.header _).trans ?_
  simp only [ofImage_image]
  rw [if_neg (by decide)]
  rw [if_neg (not_validate_neg m.header_valid), m.header_len]
  by_cases hlen : m.len > 0
  · have hmax : ¬ m.len > maxPayload := by
      rw [gt_iff_lt, UInt32.lt_iff_toNat_lt, m.len_toNat, Nat.not_lt]
      exact m.fits
    have hpos : ¬ ((m.payload.length : Nat) : Int) ≤ 0 := by
      rw [gt_iff_lt, UInt32.lt_iff_toNat_lt, m.len_toNat] at hlen
      have : (0 : UInt32).toNat = 0 := rfl
      omega
    rw [if_pos hlen, if_neg hmax, m.len_toNat]
    have hbody := ((readAll_reads (ε := Event) m.payload).bind fun r =>
      if r.1 ≤ 0 then return none else return some (m.header, r.2)).trans
        (b := []) (r := return some (m.header, m.payload)) (by
          change Reads (if _ then _ else _) _ _
          rw [if_neg hpos]
          exact Reads.done _)
    rwa [List.append_nil] at hbody
  · have hnil : m.payload = [] := by
      rw [gt_iff_lt, UInt32.lt_iff_toNat_lt, m.len_toNat] at hlen
      exact List.eq_nil_of_length_eq_zero (Nat.eq_zero_of_not_pos hlen)
    rw [if_neg hlen, hnil]
    exact Reads.done _

end MiniProtocol
