import LinuxHandson.Dns.Proofs.EncodeNameProofs
import LinuxHandson.Dns.Query

/-!
# What `encode_name` accepts

Every name that fits the buffer, with whatever labels: it writes the length of a label without looking
at it. Only where the labels have from 1 to 63 bytes are the bytes those of a name. A name that fits
may also take so much of `packet` that the question behind it does not fit.
-/

namespace DnsClient

open CLib

/-- A label of the name has no length byte of its own. -/
def BadLabel (name : CStr) : Prop := ∃ label ∈ nameLabels name.bytes, ¬ LengthOk label

/-! ## Rounds of any name -/

variable {bufsize : Int} {s s' : EncodeState} {r : Int × List UInt8}

/-- A round that ends refuses the name or writes the root byte. -/
theorem done_cases (h : encodeRound bufsize s = .done r) :
    r.1 = -1 ∨ s.p.bytes = [] ∧ ¬ bufsize ≤ s.pos := by
  by_cases hnil : s.p.bytes = []
  · by_cases hle : bufsize ≤ s.pos
    · left
      rw [encodeRound, if_pos hnil, putRoot, if_pos hle] at h
      cases h
      rfl
    · exact .inr ⟨hnil, hle⟩
  · left
    rw [encodeRound, if_neg hnil] at h
    rcases hlast : intArith (s.pos + 1 + labelLen s.p) with _ | last
    · rw [hlast] at h
      cases h
    · rw [hlast, Option.bind_some] at h
      split at h
      · cases h
        rfl
      · rcases hput : putLabel s with _ | t
        · rw [hput] at h
          cases h
        · rw [hput] at h
          cases h

/-- A round that goes on has written a label whose length is no negative number. -/
theorem again_label (h : encodeRound bufsize s = .again s') :
    s.p.bytes ≠ [] ∧ 0 ≤ labelLen s.p ∧ s.pos + 1 + labelLen s.p < bufsize ∧
      s'.p = skipLabel s.p (labelLen s.p).toNat := by
  by_cases hnil : s.p.bytes = []
  · rw [encodeRound, if_pos hnil] at h
    rcases hroot : putRoot bufsize s with _ | r
    · rw [hroot] at h
      cases h
    · rw [hroot] at h
      cases h
  · rw [encodeRound, if_neg hnil] at h
    rcases hlast : intArith (s.pos + 1 + labelLen s.p) with _ | last
    · rw [hlast] at h
      cases h
    · obtain rfl := eq_of_intArith hlast
      rw [hlast, Option.bind_some] at h
      split at h
      · cases h
      · next hroom =>
        unfold putLabel at h
        split at h
        · cases h
        · next hneg =>
          refine ⟨hnil, Int.not_lt.mp hneg, Int.not_le.mp hroom, ?_⟩
          rcases h1 : store s.buf s.pos [UInt8.ofNat (labelLen s.p).toNat] with _ | buf
          · rw [h1] at h
            cases h
          · rw [h1, Option.bind_some] at h
            rcases h2 : store buf (s.pos + 1) (s.p.bytes.take (labelLen s.p).toNat) with _ | buf'
            · rw [h2] at h
              cases h
            · rw [h2] at h
              cases h
              rfl

theorem refused_of_neg {p : CStr} {buf : List UInt8} (hneg : bufsize < 0)
    (h : Ends (encodeRound bufsize) ⟨p, 0, buf⟩ r) : r.1 = -1 := by
  rcases h.cases with hd | ⟨s', hs', -⟩
  · rcases done_cases hd with hr | ⟨-, hroom⟩
    · exact hr
    · simp only at hroom
      omega
  · obtain ⟨-, hlen, hroom, -⟩ := again_label hs'
    simp only at hlen hroom
    omega

theorem encodeRound_neg {p : CStr} {buf : List UInt8} (hneg : bufsize < 0)
    (hlen : strlen p + 2 < 2 ^ 31) : encodeRound bufsize ⟨p, 0, buf⟩ = .done (-1, buf) := by
  by_cases hnil : p.bytes = []
  · rw [encodeRound, if_pos hnil, putRoot, if_pos (show bufsize ≤ 0 by omega)]
    rfl
  · obtain ⟨label, tail, hp, hdot, htail, -⟩ := split_firstLabel hnil
    have hsum := congrArg List.length hp
    rw [List.length_append] at hsum
    have hstrlen : strlen p = p.bytes.length := rfl
    have hlast : (0 : Int) + 1 + labelLen p = (label.length + 1 : Nat) := by
      rw [labelLen_eq hp (by omega) hdot htail]
      omega
    rw [encodeRound, if_neg hnil]
    show Round.ofOption ((intArith ((0 : Int) + 1 + labelLen p)).bind _) = _
    rw [hlast, intArith_natCast (by omega), Option.bind_some, if_pos (by omega)]
    rfl

/-- A first label of 2 GB and more is never written whole: its length as an `int` is negative, or a
part of it stays in front whose length is 0 modulo 2^32. -/
theorem huge_again (hhuge : 2 ^ 31 ≤ (s.p.bytes.takeWhile (· != dot)).length)
    (h : encodeRound bufsize s = .again s') :
    2 ^ 31 ≤ (s'.p.bytes.takeWhile (· != dot)).length := by
  obtain ⟨hne, hlen, -, hp⟩ := again_label h
  obtain ⟨label, tail, hsplit, hdot, htail, -⟩ := split_firstLabel hne
  have hfirst : s.p.bytes.takeWhile (· != dot) = label := takeWhile_label hsplit hdot htail
  rw [hfirst] at hhuge
  have hcint := labelLen_cInt hsplit hdot htail
  obtain ⟨l, hl⟩ := Int.eq_ofNat_of_zero_le hlen
  have hrange : l < 2 ^ 31 ∧ 2 ^ 31 ≤ label.length - l := by
    rw [hcint, cInt, Int.bmod_def] at hl
    split at hl
    · omega
    · omega
  have hdrop : s.p.bytes.drop l = label.drop l ++ tail := by
    rw [hsplit, List.drop_append_of_le_length (by omega)]
  have hstay : skipLabel s.p l = s.p.offset l := by
    obtain ⟨b, rest, hb⟩ := List.exists_cons_of_ne_nil
      (List.ne_nil_of_length_pos (show 0 < (label.drop l).length by rw [List.length_drop]; omega))
    have hne : b ≠ dot := by
      rintro rfl
      exact hdot (List.mem_of_mem_drop (by rw [hb]; exact List.mem_cons_self))
    unfold skipLabel
    rw [CStr.charAt, CStr.offset_bytes, hdrop, hb, if_neg]
    exact hne
  rw [hp, hl, Int.toNat_natCast, hstay, CStr.offset_bytes]
  rw [takeWhile_label hdrop (fun h => hdot (List.mem_of_mem_drop h)) htail, List.length_drop]
  exact hrange.2

theorem refused_of_huge (hhuge : 2 ^ 31 ≤ (s.p.bytes.takeWhile (· != dot)).length)
    (h : Ends (encodeRound bufsize) s r) : r.1 = -1 := by
  refine h.of_invariant (fun s => 2 ^ 31 ≤ (s.p.bytes.takeWhile (· != dot)).length)
    (fun r => r.1 = -1) hhuge ?_ ?_
  · intro s s' hhuge hs' _
    exact huge_again hhuge hs'
  · intro s hhuge hr
    rcases done_cases hr with hr | ⟨hnil, -⟩
    · exact hr
    · rw [hnil] at hhuge
      simp at hhuge

/-- A round whose sum that is compared with `bufsize` overflows. -/
theorem encodeRound_overflow {p : CStr} {k : Nat} {buf : List UInt8} (hnil : p.bytes ≠ [])
    (hint : 2 ^ 31 ≤ k + 1 + labelLen p) : encodeRound bufsize ⟨p, k, buf⟩ = .undefined := by
  have hnone : intArith ((k : Int) + 1 + labelLen p) = none := if_neg (by omega)
  rw [encodeRound, if_neg hnil]
  show Round.ofOption ((intArith ((k : Int) + 1 + labelLen p)).bind _) = _
  rw [hnone]
  rfl

/-! ## Names that are encoded -/

/-- A name that is not refused has been written whole, and fits. -/
theorem written_of_done {bufsize : Nat} (n : Nat) :
    ∀ {p : CStr} {k : Nat} {buf : List UInt8}, bufsize ≤ buf.length → r.1 ≠ -1 →
      rounds (encodeRound bufsize) n ⟨p, k, buf⟩ = .done r →
      r = (((k + (wire (nameLabels p.bytes)).length : Nat) : Int),
        splice buf k (wire (nameLabels p.bytes))) ∧
      k + (wire (nameLabels p.bytes)).length ≤ bufsize := by
  induction n with
  | zero =>
    intro p k buf _ _ h
    cases h
  | succ n ih =>
    intro p k buf hbuf hr h
    by_cases hnil : p.bytes = []
    · have hlen : (wire []).length = 1 := rfl
      have hround := encodeRound_root (k := k) hnil hbuf
      rw [rounds, hround] at h
      rw [hnil, nameLabels_nil, hlen]
      by_cases hsmall : bufsize ≤ k
      · rw [if_pos hsmall] at h
        cases h
        exact absurd rfl hr
      · rw [if_neg hsmall] at h
        cases h
        exact ⟨rfl, by omega⟩
    · obtain ⟨label, tail, hp, hdot, htail, hlabels⟩ := split_firstLabel hnil
      have hskip := skipLabel_bytes hp htail
      by_cases hhuge : 2 ^ 31 ≤ label.length
      · have hfirst := takeWhile_label hp hdot htail
        exact absurd (refused_of_huge (by rw [hfirst]; exact hhuge) ⟨n + 1, h⟩) hr
      · have hlen := labelLen_eq hp (by omega) hdot htail
        by_cases hint : k + (label.length + 1) < 2 ^ 31
        · have hround := encodeRound_label (k := k) hnil hp hdot htail hint hbuf
          rw [rounds, hround] at h
          by_cases hsmall : bufsize ≤ k + (label.length + 1)
          · rw [if_pos hsmall] at h
            cases h
            exact absurd rfl hr
          · rw [if_neg hsmall] at h
            have hstore : k + (wireLabel label).length ≤ buf.length := by
              rw [length_wireLabel]
              omega
            obtain ⟨heq, hfit⟩ := ih (by rw [length_splice hstore]; exact hbuf) hr h
            have hsplice : splice (splice buf k (wireLabel label)) (k + (label.length + 1))
                (wire (nameLabels (tail.drop 1))) =
                splice buf k (wire (label :: nameLabels (tail.drop 1))) := by
              rw [wire_cons]
              exact splice_splice hstore
            rw [hskip] at heq hfit
            rw [hlabels, length_wire_cons, ← Nat.add_assoc, heq, hsplice]
            exact ⟨rfl, hfit⟩
        · rw [rounds, encodeRound_overflow hnil (by omega)] at h
          cases h

variable {name : CStr} {buf : List UInt8}

/-- What a call that does not return -1 has done. -/
theorem encoded_of_ne (hbuf : bufsize ≤ buf.length) (h : EncodeName name buf bufsize r)
    (hr : r.1 ≠ -1) :
    r = (((wire (nameLabels name.bytes)).length : Int),
        splice buf 0 (wire (nameLabels name.bytes))) ∧
      ((wire (nameLabels name.bytes)).length : Int) ≤ bufsize := by
  rcases Int.lt_or_le bufsize 0 with hneg | hpos
  · exact absurd (refused_of_neg hneg h) hr
  · obtain ⟨n, hn⟩ := h
    obtain ⟨m, rfl⟩ := Int.eq_ofNat_of_zero_le hpos
    obtain ⟨heq, hfit⟩ := written_of_done n (Int.ofNat_le.mp hbuf) hr hn
    rw [Nat.zero_add] at heq hfit
    exact ⟨heq, Int.ofNat_le.mpr hfit⟩

theorem encodeName_fits (hint : bufsize < 2 ^ 31) (hbuf : bufsize ≤ buf.length)
    (hfit : ((wire (nameLabels name.bytes)).length : Int) ≤ bufsize) :
    EncodeName name buf bufsize
      (((wire (nameLabels name.bytes)).length : Nat), splice buf 0 (wire (nameLabels name.bytes))) := by
  obtain ⟨m, rfl⟩ := Int.eq_ofNat_of_zero_le (show 0 ≤ bufsize by omega)
  have hends := (@encode_nameLabels m name.bytes.length name 0 buf le_rfl (by omega)
    (Int.ofNat_le.mp hbuf)).1 (by omega)
  rwa [Nat.zero_add] at hends

/-- The length bytes and the root take at most two bytes more than the text. -/
theorem length_wire_nameLabels_le (n : Nat) :
    ∀ b : List UInt8, b.length ≤ n → (wire (nameLabels b)).length ≤ b.length + 2 := by
  induction n with
  | zero =>
    intro b hn
    obtain rfl := List.eq_nil_of_length_eq_zero (Nat.le_zero.mp hn)
    rw [nameLabels_nil]
    decide
  | succ n ih =>
    intro b hn
    by_cases hnil : b = []
    · rw [hnil, nameLabels_nil]
      decide
    · obtain ⟨label, tail, hb, -, htail, hlabels⟩ := split_firstLabel hnil
      have hsum := congrArg List.length hb
      rw [List.length_append] at hsum
      rw [hlabels, length_wire_cons]
      rcases htail with rfl | ⟨more, rfl⟩
      · have hroot : (wire (nameLabels (([] : List UInt8).drop 1))).length = 1 := by
          rw [List.drop_nil, nameLabels_nil]
          rfl
        rw [List.length_nil] at hsum
        omega
      · rw [List.length_cons] at hsum
        have hrest := ih more (by omega)
        rw [List.drop_one, List.tail_cons]
        omega

/-- On a string whose length leaves room in an `int`, `encode_name` returns. -/
theorem encodeName_returns (hint : bufsize < 2 ^ 31) (hbuf : bufsize ≤ buf.length)
    (hlen : strlen name + 2 < 2 ^ 31) : ∃ r, EncodeName name buf bufsize r := by
  have hwire := length_wire_nameLabels_le _ name.bytes le_rfl
  have hstrlen : strlen name = name.bytes.length := rfl
  by_cases hfit : ((wire (nameLabels name.bytes)).length : Int) ≤ bufsize
  · exact ⟨_, encodeName_fits hint hbuf hfit⟩
  · rcases Int.lt_or_le bufsize 0 with hneg | hpos
    · exact ⟨(-1, buf), .done (encodeRound_neg hneg (by omega))⟩
    · obtain ⟨m, rfl⟩ := Int.eq_ofNat_of_zero_le hpos
      obtain ⟨encoded, hends⟩ := (@encode_nameLabels m name.bytes.length name 0 buf le_rfl (by omega)
        (Int.ofNat_le.mp hbuf)).2 (by omega)
      exact ⟨_, hends⟩

/-! ## Valid names -/

/-- For every string and every size of the buffer. The length that is not negative is that of a valid
name, and a label without a length byte of its own is refused, if and only if there is no such label or
the buffer has no room for the name. On a string whose length leaves room in an `int`, `encode_name`
returns. -/
theorem encode_valid_iff (hint : bufsize < 2 ^ 31) (hbuf : bufsize ≤ buf.length) :
    (strlen name + 2 < 2 ^ 31 → ∃ r, EncodeName name buf bufsize r) ∧
    ((∀ r, EncodeName name buf bufsize r →
        (0 ≤ r.1 → ValidWire (r.2.take r.1.toNat)) ∧ (BadLabel name → r.1 = -1)) ↔
      ¬ BadLabel name ∨ bufsize < (wire (nameLabels name.bytes)).length) := by
  refine ⟨encodeName_returns hint hbuf, ?_⟩
  constructor
  · intro h
    by_contra hnot
    obtain ⟨hbad, hfit⟩ := not_or.mp hnot
    have henc := encodeName_fits hint hbuf (Int.not_lt.mp hfit)
    have hret := (h _ henc).2 (not_not.mp hbad)
    simp only at hret
    omega
  · intro hcond r h
    by_cases hr : r.1 = -1
    · exact ⟨fun h0 => by omega, fun _ => hr⟩
    · obtain ⟨rfl, hfit⟩ := encoded_of_ne hbuf h hr
      have hgood : ¬ BadLabel name := hcond.resolve_right (Int.not_lt.mpr hfit)
      refine ⟨fun _ => ?_, fun hbad => absurd hbad hgood⟩
      refine ⟨nameLabels name.bytes, fun label hl => ?_, ?_⟩
      · by_contra hbad
        exact hgood ⟨label, hl, hbad⟩
      · rw [Int.toNat_natCast, splice, List.take_zero, List.nil_append]
        exact List.take_left

theorem nameLabels_trailingDot : nameLabels trailingDot.bytes = [[0x61], [0x62]] := by
  simp [trailingDot, nameLabels, dot]

theorem encode_valid_trailingDot :
    EncodeName trailingDot (List.replicate 5 0) 5 (5, [1, 0x61, 1, 0x62, 0]) ∧
      ValidWire [1, 0x61, 1, 0x62, 0] := by
  have henc : EncodeName trailingDot (List.replicate 5 0) 5 (5, [1, 0x61, 1, 0x62, 0]) := ⟨3, rfl⟩
  have hgood : ¬ BadLabel trailingDot := by
    unfold BadLabel
    rw [nameLabels_trailingDot]
    simp [LengthOk]
  refine ⟨henc, ?_⟩
  exact (((@encode_valid_iff 5 trailingDot (List.replicate 5 0) (by decide) (by decide)).2.mpr
    (.inl hgood)) _ henc).1 (by decide)

/-- The text `a..b`. -/
def emptyLabel : CStr := ⟨[0x61, 0x2E, 0x2E, 0x62], by decide⟩

/-- The label between the dots is empty: the name is not refused, and a zero byte is written in the
middle of it. -/
theorem emptyLabel_encoded :
    BadLabel emptyLabel ∧
      EncodeName emptyLabel (List.replicate 6 0) 6 (6, [1, 0x61, 0, 1, 0x62, 0]) := by
  refine ⟨⟨[], ?_, by simp [LengthOk]⟩, ⟨4, rfl⟩⟩
  simp [emptyLabel, nameLabels, dot]

/-! ## The query -/

variable {id : UInt16} {packet : List UInt8}

theorem length_queryHeader (id : UInt16) : (queryHeader id).length = sizeofHeader := by
  simp [queryHeader, sizeofHeader]

theorem length_queryQuestion : queryQuestion.length = sizeofQuestion := by decide

theorem length_nameBuf (hp : packet.length = sizeofPacket) :
    ((nameBuf id packet).length : Int) = nameBufsize := by
  have hlen := length_queryHeader id
  have hheader : sizeofHeader = 12 := rfl
  have hpacket : sizeofPacket = 512 := rfl
  unfold nameBuf nameBufsize
  rw [List.length_drop, length_splice (by omega)]
  omega

/-- For every domain that `encode_name` does not refuse, the query fits the packet, the type and class of
the question included, if and only if the encoded name has at most 496 bytes. -/
theorem query_fits_iff {r : Int × List UInt8} (hp : packet.length = sizeofPacket)
    (h : EncodeDomain name id packet r) (h0 : 0 ≤ r.1) :
    (∃ q, finishQuery id r = some (some q) ∧ q.length ≤ sizeofPacket) ↔
      (wire (nameLabels name.bytes)).length ≤ 496 := by
  have hbuf := @length_nameBuf id packet hp
  obtain ⟨rfl, hfit⟩ := encoded_of_ne (by omega) h (by omega)
  generalize wire (nameLabels name.bytes) = w at *
  have hheader : sizeofHeader = 12 := rfl
  have hquestion : sizeofQuestion = 4 := rfl
  have hpacket : sizeofPacket = 512 := rfl
  have hsize : nameBufsize = 500 := rfl
  have hlen : (queryHeader id ++ splice (nameBuf id packet) 0 w).length = 512 := by
    rw [List.length_append, length_queryHeader, length_splice (by omega)]
    omega
  have hq := length_queryQuestion
  have hpos : (sizeofHeader : Int) + (w.length : Nat) = (sizeofHeader + w.length : Nat) := by omega
  unfold finishQuery putQuestion
  rw [if_neg (by simp), hpos]
  simp only
  by_cases hroom : w.length ≤ 496
  · rw [store_ok (by omega)]
    simp only [hroom, iff_true, Option.map_some, Option.some.injEq]
    refine ⟨_, rfl, ?_⟩
    rw [List.length_take, length_splice (by omega)]
    omega
  · have hnone : store (queryHeader id ++ splice (nameBuf id packet) 0 w)
        (sizeofHeader + w.length : Nat) queryQuestion = none := by
      rw [store, if_neg (by omega)]
    rw [hnone]
    simp [hroom]

/-- A packet of zeros. -/
def zeroPacket : List UInt8 := List.replicate sizeofPacket 0

theorem query_fits_trailingDot :
    ∃ q, finishQuery 7 (5, splice (nameBuf 7 zeroPacket) 0 [1, 0x61, 1, 0x62, 0]) = some (some q) ∧
      q.length ≤ sizeofPacket := by
  have hlen : zeroPacket.length = sizeofPacket := List.length_replicate
  have henc : EncodeDomain trailingDot 7 zeroPacket
      (5, splice (nameBuf 7 zeroPacket) 0 [1, 0x61, 1, 0x62, 0]) := by
    have hbuf := @length_nameBuf 7 zeroPacket hlen
    have hfits := @encodeName_fits nameBufsize trailingDot (nameBuf 7 zeroPacket) (by decide)
      (by omega) (by rw [nameLabels_trailingDot]; decide)
    rwa [nameLabels_trailingDot] at hfits
  refine (query_fits_iff hlen henc (by decide)).mpr ?_
  rw [nameLabels_trailingDot]
  decide

/-- The labels of a name of 248 labels of one letter. -/
def manyLabels : List (List UInt8) := List.replicate 248 [0x61]

theorem manyLabels_isLabel : ∀ label ∈ manyLabels, IsLabel label := by
  intro label hl
  obtain rfl := List.eq_of_mem_replicate hl
  exact ⟨by decide, by decide, by decide, by decide⟩

/-- The name itself. -/
def manyLabelsName : CStr where
  bytes := domain manyLabels false
  nulFree := by decide +kernel

/-- Its wire format has 497 bytes: `encode_name` accepts it, and the question behind it goes past the end
of the packet. -/
theorem manyLabels_overflow :
    ∃ r, EncodeDomain manyLabelsName 7 zeroPacket r ∧ 0 ≤ r.1 ∧ putQuestion 7 r = none := by
  have hlabels : nameLabels manyLabelsName.bytes = manyLabels :=
    nameLabels_domain manyLabels_isLabel fun _ => rfl
  have hwire : (wire manyLabels).length = 497 := by decide +kernel
  have hbuf := @length_nameBuf 7 zeroPacket List.length_replicate
  have hsize : nameBufsize = 500 := rfl
  have henc := @encodeName_fits nameBufsize manyLabelsName (nameBuf 7 zeroPacket) (by decide)
    (by omega) (by rw [hlabels, hwire]; decide)
  refine ⟨_, henc, Int.natCast_nonneg _, ?_⟩
  have hlen : (queryHeader 7 ++ splice (nameBuf 7 zeroPacket) 0 (wire manyLabels)).length = 512 := by
    rw [List.length_append, length_queryHeader, length_splice (by omega)]
    have hheader : sizeofHeader = 12 := rfl
    omega
  have hnone : store (queryHeader 7 ++ splice (nameBuf 7 zeroPacket) 0 (wire manyLabels))
      (sizeofHeader + (497 : Nat)) queryQuestion = none := by
    have hq := length_queryQuestion
    have hquestion : sizeofQuestion = 4 := rfl
    have hheader : sizeofHeader = 12 := rfl
    rw [store, if_neg (by omega)]
  unfold putQuestion
  rw [hlabels, hwire, hnone]
  rfl

end DnsClient
