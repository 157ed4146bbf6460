import LinuxHandson.Network.SkbLinear
import LinuxHandson.Network.Proofs.CustomProtocolProofs

/-!
# Reads in the linear part

The pull makes the header safe to read and nothing else: the bytes that are printed are read in the
linear part exactly if the pull happened to bring them there.
-/

namespace CustomProtocol

open CLib

variable {skb skb' : SkBuff} {pulled : Option SkBuff} {data : List UInt8}

theorem read_eq_some {off n : Nat} (h : off + n ≤ skb.headlen) :
    skb.read off n = some ((skb.data.drop off).take n) := if_pos h

theorem ofImage_take (data : List UInt8) :
    CustomHeader.ofImage (data.take sizeofHeader) = CustomHeader.ofImage data := by
  have htake : ∀ a n, a + n ≤ sizeofHeader →
      ((data.take sizeofHeader).drop a).take n = (data.drop a).take n := by
    intro a n h
    rw [List.drop_take, List.take_take, Nat.min_eq_left (by omega)]
  have hfirst := htake 0 4 (by decide)
  rw [List.drop_zero, List.drop_zero] at hfirst
  unfold CustomHeader.ofImage
  rw [hfirst, htake 4 2 (by decide), htake 6 2 (by decide), htake 8 4 (by decide)]

theorem rcv_pulled (hlen : sizeofHeader ≤ skb.data.length) (same : skb'.data = skb.data)
    (within : sizeofHeader ≤ skb'.headlen) :
    customProtoRcvSkb skb (some skb') =
      if htonl (CustomHeader.ofImage skb.data).magic ≠ customMagic then
        some (.badMagic (htonl (CustomHeader.ofImage skb.data).magic))
      else skb'.shown.map fun payload =>
        .parsed ⟨htons (CustomHeader.ofImage skb.data).version,
          htons (CustomHeader.ofImage skb.data).msgType,
          htonl (CustomHeader.ofImage skb.data).payloadLen, payload⟩ := by
  have hhdr : skb'.read 0 sizeofHeader = some (skb.data.take sizeofHeader) := by
    rw [read_eq_some (by omega), List.drop_zero, same]
  rw [customProtoRcvSkb, if_pos hlen]
  simp only [hhdr, Option.bind_some, ofImage_take]

theorem shown_isSome (same : skb'.data = skb.data) :
    skb'.shown.isSome ↔ (sizeofHeader < skb.data.length →
      sizeofHeader + phLength (plenOf skb.data.length) ≤ skb'.headlen) := by
  unfold SkBuff.shown SkBuff.read
  rw [same]
  split
  · next h => simp only [Option.isSome_ite, h, true_implies]
  · next h => exact iff_of_true rfl fun hlt => absurd hlt h

/-- All that the handler reads through `skb->data` lies in the linear part if and only if the pull has
brought there as many payload bytes as are printed, or the handler does not come to the payload. -/
theorem rcv_linear_iff (h : MayPull sizeofHeader skb pulled) :
    (customProtoRcvSkb skb pulled).isSome ↔ PayloadLinear skb pulled := by
  by_cases hlen : sizeofHeader ≤ skb.data.length
  · cases h with
    | fails =>
      refine iff_of_true ?_ fun _ hnone => ?_
      · rw [customProtoRcvSkb, if_pos hlen]
        rfl
      · cases hnone
    | @pulled skb' same within =>
      have hforall : PayloadLinear skb (some skb') ↔ (Ours skb.data → sizeofHeader < skb.data.length →
          sizeofHeader + phLength (plenOf skb.data.length) ≤ skb'.headlen) := by
        simp only [PayloadLinear, Option.some.injEq, forall_eq']
      rw [rcv_pulled hlen same within, hforall, Ours]
      split
      · next hbad => exact iff_of_true rfl fun hours => absurd hours.2 hbad
      · next hgood =>
        rw [Option.isSome_map, shown_isSome same]
        simp only [hlen, not_not.mp hgood, and_self, true_implies]
  · refine iff_of_true ?_ fun _ _ hours => absurd hours.1 hlen
    unfold customProtoRcvSkb
    rw [if_neg hlen]
    rfl

theorem phLength_plenOf {len : Nat} (h : len < 2 ^ 31) (hlt : sizeofHeader < len) :
    phLength (plenOf len) = min (len - sizeofHeader) 32 := by
  have hint : cInt ((len : Int) - sizeofHeader) = len - sizeofHeader := cInt_of_lt (by omega) (by omega)
  unfold plenOf phLength
  rw [hint]
  simp only
  split <;> omega

/-- Where all its reads are in the linear part, the handler finds what it finds in a packet that is
linear as a whole. -/
theorem rcv_eq_examine (h : MayPull sizeofHeader skb pulled) (hl : PayloadLinear skb pulled)
    (hlen : skb.data.length < 2 ^ 31) :
    customProtoRcvSkb skb pulled = some (examine pulled.isSome skb.data) := by
  by_cases hlong : sizeofHeader ≤ skb.data.length
  · cases h with
    | fails =>
      rw [customProtoRcvSkb, if_pos hlong, examine, if_pos hlong]
      rfl
    | @pulled skb' same within =>
      rw [rcv_pulled hlong same within, examine, if_pos hlong, if_pos Option.isSome_some]
      split
      · next hbad => exact congrArg some (if_pos hbad).symm
      · next hgood =>
        have hshown : skb'.shown = some (shownPayload skb.data) := by
          unfold SkBuff.shown shownPayload
          rw [same]
          split
          · next hlt =>
            have hin := hl skb' rfl ⟨hlong, not_not.mp hgood⟩ hlt
            rw [read_eq_some hin, phLength_plenOf hlen hlt, same]
          · rfl
        rw [hshown, Option.map_some]
        exact congrArg some (if_neg hgood).symm
  · unfold customProtoRcvSkb examine
    rw [if_neg hlong, if_neg hlong]

/-- A packet of the protocol with 34 bytes of payload. -/
def helloData : List UInt8 := (helloHeader 34).image ++ List.replicate 34 0x41

/-- The packet in one piece. -/
def linearHello : SkBuff := ⟨helloData, 46, by decide, by decide⟩

theorem rcv_linear_hello : (customProtoRcvSkb linearHello (some linearHello)).isSome :=
  (rcv_linear_iff (.pulled rfl (by decide))).mpr fun skb' h _ _ => by
    cases h
    decide

/-- The packet with its header in the linear part and its payload in a page. -/
def pagedHello : SkBuff := ⟨helloData, 12, by decide, by decide⟩

/-- The pull succeeds, and the payload is read behind the linear part. -/
theorem rcv_paged_hello : MayPull sizeofHeader pagedHello (some pagedHello) ∧
    pagedHello.shown = none ∧ customProtoRcvSkb pagedHello (some pagedHello) = none :=
  ⟨.pulled rfl (by decide), by decide, by decide⟩

end CustomProtocol
