import LinuxHandson.Network.CustomProtocol

/-!
# Payload and padding

The header survives the trip through network byte order. The handler takes everything behind the header
for payload, so that it finds the payload that was sent exactly if the frame needs no padding within the
first 32 bytes.
-/

namespace CustomProtocol

open CLib

/-! ## The header -/

@[simp] theorem length_image (h : CustomHeader) : h.image.length = sizeofHeader := by
  simp [CustomHeader.image, sizeofHeader]

/-- The structure at the beginning of its own bytes. -/
theorem ofImage_image_append (h : CustomHeader) (rest : List UInt8) :
    CustomHeader.ofImage (h.image ++ rest) = h := by
  have hmagic := length_leBytes 4 h.magic.toNat
  have hversion := length_leBytes 2 h.version.toNat
  have htype := length_leBytes 2 h.msgType.toNat
  have hlen := length_leBytes 4 h.payloadLen.toNat
  have hm := ofNat_leNat_leBytes32 h.magic
  have hv := ofNat_leNat_leBytes16 h.version
  have ht := ofNat_leNat_leBytes16 h.msgType
  have hl := ofNat_leNat_leBytes32 h.payloadLen
  unfold CustomHeader.ofImage CustomHeader.image
  generalize leBytes 4 h.magic.toNat = bm at *
  generalize leBytes 2 h.version.toNat = bv at *
  generalize leBytes 2 h.msgType.toNat = bt at *
  generalize leBytes 4 h.payloadLen.toNat = bl at *
  match bm, hmagic, bv, hversion, bt, htype, bl, hlen with
  | [a, b, c, d], _, [e, f], _, [i, j], _, [k, l, m, n], _ =>
    cases h
    exact congr (congr (congr (congr rfl hm) hv) ht) hl

/-! ## The frame -/

/-- The bytes in the frame up to `pos`. -/
structure Frame.Has (f : Frame) (bytes : List UInt8) : Prop where
  pos : f.pos = bytes.length
  size : f.frame.length = 128
  take : f.frame.take bytes.length = bytes

theorem Frame.Has.put {f : Frame} {bytes : List UInt8} (h : f.Has bytes) (src : List UInt8)
    (hfit : bytes.length + src.length ≤ 128) : ∃ f', f.put src = some f' ∧ f'.Has (bytes ++ src) := by
  obtain ⟨b, hb, hlen, htake⟩ := store_append src h.take (by rw [h.size]; exact hfit)
  refine ⟨⟨b, f.pos + src.length⟩, ?_, ?_, hlen.trans h.size, htake⟩
  · rw [Frame.put, h.pos, hb]
    rfl
  · rw [h.pos, List.length_append]

/-- The padding fills up to 60 bytes with zeros. -/
theorem Frame.Has.pad (rounds : Nat) :
    ∀ {f : Frame} {bytes : List UInt8}, f.Has bytes → bytes.length ≤ 128 → 60 ≤ bytes.length + rounds →
      ∃ f', f.pad rounds = some f' ∧ f'.Has (bytes ++ List.replicate (60 - bytes.length) 0) := by
  induction rounds with
  | zero =>
    intro f bytes h _ hlen
    refine ⟨f, rfl, ?_⟩
    have hge : 60 ≤ bytes.length := hlen
    rw [Nat.sub_eq_zero_of_le hge, List.replicate_zero, List.append_nil]
    exact h
  | succ rounds ih =>
    intro f bytes h hle hlen
    by_cases hpos : f.pos < 60
    · have hlt : bytes.length < 60 := h.pos ▸ hpos
      obtain ⟨f1, hf1, h1⟩ := h.put [0] (by rw [List.length_singleton]; omega)
      have hlen1 : (bytes ++ [0]).length = bytes.length + 1 := by simp
      obtain ⟨f', hf', h'⟩ := ih h1 (by omega) (by omega)
      refine ⟨f', ?_, ?_⟩
      · rw [Frame.pad, if_pos hpos, hf1]
        exact hf'
      · have hsplit : 60 - bytes.length = (60 - (bytes ++ [0]).length) + 1 := by omega
        rw [hsplit, List.replicate_succ, ← List.singleton_append, ← List.append_assoc]
        exact h'
    · have hge : 60 ≤ bytes.length := by rw [← h.pos]; omega
      refine ⟨f, if_neg hpos, ?_⟩
      rw [Nat.sub_eq_zero_of_le hge, List.replicate_zero, List.append_nil]
      exact h

/-- The Ethernet header of a frame. -/
def ethHeader (ifname : CStr) (srcMac : Mac) : List UInt8 :=
  (dstMac ifname srcMac).toList ++ srcMac.toList ++ leBytes 2 (htons customEthType).toNat

theorem length_ethHeader (ifname : CStr) (srcMac : Mac) : (ethHeader ifname srcMac).length = 14 := by
  simp [ethHeader]

/-- The bytes that are sent behind the Ethernet header. -/
def body (payload : List UInt8) : List UInt8 :=
  (helloHeader payload.length).image ++ (payload ++ List.replicate (34 - payload.length) 0)

theorem length_body (payload : List UInt8) :
    (body payload).length = sizeofHeader + (payload.length + (34 - payload.length)) := by
  simp [body]

/-- Every payload of at most 102 bytes fits into the frame. -/
theorem buildFrame_eq (frame : Vector UInt8 128) (ifname : CStr) (srcMac : Mac) {payload : List UInt8}
    (hp : payload.length ≤ 102) :
    buildFrame frame ifname srcMac payload = some (ethHeader ifname srcMac ++ body payload) := by
  have h0 : Frame.Has ⟨frame.toList, 0⟩ [] := ⟨rfl, by simp, rfl⟩
  have hdst : (dstMac ifname srcMac).toList.length = 6 := by simp
  have hsrc : srcMac.toList.length = 6 := by simp
  have htype : (leBytes 2 (htons customEthType).toNat).length = 2 := length_leBytes 2 _
  have hhdr : (helloHeader payload.length).image.length = 12 := length_image _
  obtain ⟨f1, hf1, h1⟩ := h0.put (dstMac ifname srcMac).toList (by rw [hdst]; decide)
  obtain ⟨f2, hf2, h2⟩ := h1.put srcMac.toList (by
    rw [List.length_append, hdst, hsrc]
    decide)
  obtain ⟨f3, hf3, h3⟩ := h2.put (leBytes 2 (htons customEthType).toNat) (by
    rw [List.length_append, List.length_append, hdst, hsrc, htype]
    decide)
  obtain ⟨f4, hf4, h4⟩ := h3.put (helloHeader payload.length).image (by
    rw [List.length_append, List.length_append, List.length_append, hdst, hsrc, htype, hhdr]
    decide)
  have hlen4 : (([] ++ (dstMac ifname srcMac).toList ++ srcMac.toList ++
      leBytes 2 (htons customEthType).toNat ++ (helloHeader payload.length).image)).length = 26 := by
    rw [List.length_append, List.length_append, List.length_append, List.length_append, hdst, hsrc,
      htype, hhdr]
    rfl
  obtain ⟨f5, hf5, h5⟩ := h4.put payload (by rw [hlen4]; omega)
  have hlen5 : (([] ++ (dstMac ifname srcMac).toList ++ srcMac.toList ++
      leBytes 2 (htons customEthType).toNat ++ (helloHeader payload.length).image) ++
        payload).length = 26 + payload.length := by
    rw [List.length_append, hlen4]
  obtain ⟨f6, hf6, h6⟩ := h5.pad 60 (by omega) (by omega)
  have hzeros : 60 - (26 + payload.length) = 34 - payload.length := by omega
  rw [hlen5, hzeros] at h6
  have hresult : buildFrame frame ifname srcMac payload = some (f6.frame.take f6.pos) := by
    simp only [buildFrame, hf1, hf2, hf3, hf4, hf5, hf6, Option.bind_eq_bind, Option.bind_some]
  rw [hresult, h6.pos, h6.take]
  simp only [ethHeader, body, List.nil_append, List.append_assoc]

/-! ## The packet at the handler -/

theorem customProtoRcv_snd (rxCount : Nat) (pulls : Bool) (data : List UInt8) :
    (customProtoRcv rxCount pulls data).2 = examine pulls data := rfl

/-- A packet with a whole header and the right magic number. -/
theorem examine_eq_parsed {data : List UInt8} (hlen : sizeofHeader ≤ data.length)
    (hmagic : htonl (CustomHeader.ofImage data).magic = customMagic) :
    examine true data = .parsed ⟨htons (CustomHeader.ofImage data).version,
      htons (CustomHeader.ofImage data).msgType, htonl (CustomHeader.ofImage data).payloadLen,
      shownPayload data⟩ := by
  rw [examine, if_pos hlen, if_pos (Eq.refl true)]
  exact if_neg (not_not.mpr hmagic)

/-- What the handler takes for the payload in a packet of the sender. -/
theorem shownPayload_body (payload : List UInt8) :
    shownPayload (body payload) = (payload ++ List.replicate (34 - payload.length) 0).take 32 := by
  have hlen := length_body payload
  have hlt : sizeofHeader < (body payload).length := by omega
  have hmin : min ((body payload).length - sizeofHeader) 32 = 32 := by omega
  have hdrop : (body payload).drop sizeofHeader =
      payload ++ List.replicate (34 - payload.length) 0 := by
    rw [body, ← length_image (helloHeader payload.length)]
    exact List.drop_left
  rw [shownPayload, if_pos hlt, hmin, hdrop]

/-- What the handler finds in a packet of the sender. -/
theorem customProtoRcv_body (rxCount : Nat) (payload : List UInt8) :
    (customProtoRcv rxCount true (body payload)).2 =
      .parsed ⟨1, 1, UInt32.ofNat payload.length,
        (payload ++ List.replicate (34 - payload.length) 0).take 32⟩ := by
  have hlen := length_body payload
  have hhdr : CustomHeader.ofImage (body payload) = helloHeader payload.length :=
    ofImage_image_append _ _
  have hmagic : htonl (helloHeader payload.length).magic = customMagic := htonl_htonl _
  have hversion : htons (helloHeader payload.length).version = 1 := htons_htons 1
  have htype : htons (helloHeader payload.length).msgType = 1 := htons_htons 1
  have hpayload : htonl (helloHeader payload.length).payloadLen = UInt32.ofNat payload.length :=
    htonl_htonl _
  have hparsed := @examine_eq_parsed (body payload) (by omega) (by rw [hhdr]; exact hmagic)
  rw [hhdr, hversion, htype, hpayload, shownPayload_body] at hparsed
  rw [customProtoRcv_snd]
  exact hparsed

/-- The first 32 bytes of a padded payload are those of the payload exactly if it has so many. -/
theorem take_padded_iff (payload : List UInt8) :
    (payload ++ List.replicate (34 - payload.length) 0).take 32 = payload.take 32 ↔
      32 ≤ payload.length := by
  constructor
  · intro h
    have hlen := congrArg List.length h
    rw [List.length_take, List.length_take, List.length_append, List.length_replicate] at hlen
    omega
  · intro h
    exact List.take_append_of_le_length h

/-- For every payload that fits into the frame, the handler finds in the frame exactly what the sender
has put there if and only if the payload has at least 32 bytes. -/
theorem rcv_faithful_iff (frame : Vector UInt8 128) (ifname : CStr) (srcMac : Mac) (rxCount : Nat)
    (payload : List UInt8) (hp : payload.length ≤ 102) :
    ∃ sent, buildFrame frame ifname srcMac payload = some sent ∧
      (Faithful payload (customProtoRcv rxCount true (sent.drop 14)).2 ↔ 32 ≤ payload.length) := by
  refine ⟨_, buildFrame_eq frame ifname srcMac hp, ?_⟩
  have hdrop : (ethHeader ifname srcMac ++ body payload).drop 14 = body payload := by
    rw [← length_ethHeader ifname srcMac]
    exact List.drop_left
  rw [hdrop, Faithful, customProtoRcv_body, ← take_padded_iff payload]
  constructor
  · intro h
    exact congrArg (fun v => match v with
      | .parsed report => report.payload
      | _ => []) h
  · intro h
    rw [h]

/-- "Hello from custom protocol!" -/
def helloText : List UInt8 :=
  [0x48, 0x65, 0x6C, 0x6C, 0x6F, 0x20, 0x66, 0x72, 0x6F, 0x6D, 0x20, 0x63, 0x75, 0x73, 0x74, 0x6F, 0x6D,
    0x20, 0x70, 0x72, 0x6F, 0x74, 0x6F, 0x63, 0x6F, 0x6C, 0x21]

/-- Twice the text, 54 bytes. -/
theorem rcv_faithful_iff_twoTexts :
    ∃ sent, buildFrame (Vector.replicate 128 0xAA) (.ofBuf [0x6C, 0x6F]) (Vector.replicate 6 0)
        (helloText ++ helloText) = some sent ∧
      Faithful (helloText ++ helloText) (customProtoRcv 0 true (sent.drop 14)).2 := by
  obtain ⟨sent, hsent, hiff⟩ := rcv_faithful_iff (Vector.replicate 128 0xAA) (.ofBuf [0x6C, 0x6F])
    (Vector.replicate 6 0) 0 (helloText ++ helloText) (by decide)
  exact ⟨sent, hsent, hiff.mpr (by decide)⟩

theorem padding_taken_for_payload :
    ∃ sent, buildFrame (Vector.replicate 128 0xAA) (.ofBuf [0x6C, 0x6F]) (Vector.replicate 6 0)
        helloText = some sent ∧
      (customProtoRcv 0 true (sent.drop 14)).2 =
        .parsed ⟨1, 1, 27, helloText ++ [0, 0, 0, 0, 0]⟩ ∧
      ¬ Faithful helloText (customProtoRcv 0 true (sent.drop 14)).2 := by
  have hverdict : (customProtoRcv 0 true (body helloText)).2 =
      .parsed ⟨1, 1, 27, helloText ++ [0, 0, 0, 0, 0]⟩ := customProtoRcv_body 0 helloText
  refine ⟨_, buildFrame_eq _ _ _ (by decide), hverdict, ?_⟩
  intro h
  have hreport := Verdict.parsed.inj (hverdict.symm.trans h)
  have hlen := congrArg (fun report => report.payload.length) hreport
  revert hlen
  decide

end CustomProtocol
