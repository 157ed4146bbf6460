import LinuxHandson.Dns.Skip
import LinuxHandson.Dns.Proofs.ParseTerminationProofs

/-!
# What `parse_name` skips

A run that has not jumped is at the end of a label, or, once its output is full, at a byte of one. Every
byte of a label in place is one at which some output is full, so each of them has to be harmless.
-/

namespace DnsClient

open CLib Relation

namespace ParseCall

variable {c d d' : ParseCall} {p q next next' : Int} {n o : Nat} {s s' : ParseState}
  {r : Int × List UInt8}

/-! ## Calls on the same name -/

theorem sameName_full (c : ParseCall) : c.SameName c.full := .mk _ (Int.le_refl 1)

theorem SameName.room (hd : c.SameName d) : 1 ≤ d.outsize := by
  cases hd
  assumption

theorem SameName.pktlen_eq (hd : c.SameName d) : d.pktlen = c.pktlen := by
  cases hd
  rfl

theorem SameName.offset_eq (hd : c.SameName d) : d.offset = c.offset := by
  cases hd
  rfl

theorem SameName.hasByte (hd : c.SameName d) {b : UInt8} : d.HasByte p b ↔ c.HasByte p b := by
  cases hd
  rfl

theorem SameName.labelAt (hd : c.SameName d) : d.LabelAt p n ↔ c.LabelAt p n := by
  cases hd
  rfl

theorem SameName.pointerAt (hd : c.SameName d) : d.PointerAt p q ↔ c.PointerAt p q := by
  cases hd
  rfl

theorem SameName.breaksAt (hd : c.SameName d) : d.BreaksAt p ↔ c.BreaksAt p := by
  cases hd
  rfl

/-! ## Full outputs -/

theorem dotLen_full (h : c.outsize - 1 ≤ o) : c.dotLen o = 0 := if_neg (by omega)

theorem copied_full (h : c.outsize - 1 ≤ o) : c.copied p n o = 0 := by
  simp only [copied]
  omega

/-- With a full output, a label takes one byte and nothing is written, for every output. -/
theorem label_full {o' : Nat} (ho : d.outsize - 1 ≤ o) (ho' : d'.outsize - 1 ≤ o') :
    p + 1 + d.copied (p + 1) n (o + d.dotLen o) = p + 1 + d'.copied (p + 1) n (o' + d'.dotLen o') := by
  rw [copied_full (by omega), copied_full (by omega)]

/-- With a full output, the idle steps are the same for every output. -/
theorem Idle.of_full (hd : c.SameName d) (hd' : c.SameName d') {o' : Nat} (ho' : d'.outsize - 1 ≤ o')
    (h : d.Idle o p q) : d'.Idle o' p q := by
  rcases h with hp | ⟨⟨n, hn⟩, -, hq⟩
  · exact .inl (hd'.pointerAt.mpr (hd.pointerAt.mp hp))
  · exact .inr ⟨⟨n, hd'.labelAt.mpr (hd.labelAt.mp hn)⟩, ho', hq⟩

theorem Circles.of_full (hd : c.SameName d) (hd' : c.SameName d') (h : d.Circles p o) :
    d.outsize - 1 ≤ o → ∀ {o' : Nat}, d'.outsize - 1 ≤ o' → d'.Circles p o' := by
  induction h with
  | cycle hc =>
    intro _ o' ho'
    exact .cycle (TransGen.mono (fun _ _ => Idle.of_full hd hd' ho') _ _ hc)
  | pointer hp _ ih =>
    intro ho o' ho'
    exact .pointer (hd'.pointerAt.mpr (hd.pointerAt.mp hp)) (ih ho ho')
  | @label p n o hn _ ih =>
    intro ho o' ho'
    have hnext := @ih (by omega) (o' + d'.dotLen o' + d'.copied (p + 1) n (o' + d'.dotLen o')) (by omega)
    rw [label_full ho ho'] at hnext
    exact .label (hd'.labelAt.mpr (hd.labelAt.mp hn)) hnext

theorem Breaks.of_full (hd : c.SameName d) (hd' : c.SameName d') (h : d.Breaks p o) :
    d.outsize - 1 ≤ o → ∀ {o' : Nat}, d'.outsize - 1 ≤ o' → d'.Breaks p o' := by
  induction h with
  | here hp =>
    intro _ o' _
    exact .here (hd'.breaksAt.mpr (hd.breaksAt.mp hp))
  | pointer hp _ ih =>
    intro ho o' ho'
    exact .pointer (hd'.pointerAt.mpr (hd.pointerAt.mp hp)) (ih ho ho')
  | @label p n o hn _ ih =>
    intro ho o' ho'
    have hnext := @ih (by omega) (o' + d'.dotLen o' + d'.copied (p + 1) n (o' + d'.dotLen o')) (by omega)
    rw [label_full ho ho'] at hnext
    exact .label (hd'.labelAt.mpr (hd.labelAt.mp hn)) hnext

/-- With a full output, whether the loop ends is the same as for the call that has room for the NUL
only. -/
theorem exists_ends_full_iff (hd : c.SameName d) (hs : d.Inv s) (hpos : 0 ≤ s.pos)
    (hfull : d.outsize - 1 ≤ s.outPos) :
    (∃ r, Ends d.round s r) ↔ ¬ c.full.Circles s.pos 0 ∧ ¬ c.full.Breaks s.pos 0 := by
  have ho : d.outsize - 1 ≤ (s.outPos.toNat : Nat) := by
    rw [← hs.outPos_eq]
    exact hfull
  have hzero : c.full.outsize - 1 ≤ (0 : Nat) := Int.le_refl 0
  have hf := sameName_full c
  rw [exists_ends_iff hs hpos hd.room]
  exact and_congr
    (not_congr ⟨fun h => h.of_full hd hf ho hzero, fun h => h.of_full hf hd hzero ho⟩)
    (not_congr ⟨fun h => h.of_full hd hf ho hzero, fun h => h.of_full hf hd hzero ho⟩)

/-! ## The part in place -/

theorem HasByte.unique {b b' : UInt8} (h : c.HasByte p b) (h' : c.HasByte p b') : b = b' :=
  Option.some.inj (h.2.symm.trans h'.2)

theorem LabelAt.unique {n' : Nat} (h : c.LabelAt p n) (h' : c.LabelAt p n') : n = n' := by
  obtain ⟨len, hlen, -, -, rfl⟩ := h
  obtain ⟨len', hlen', -, -, rfl⟩ := h'
  rw [hlen.unique hlen']

theorem LabelAt.lt (h : c.LabelAt p n) : p < c.pktlen := by
  obtain ⟨len, hlen, -⟩ := h
  exact hlen.1

theorem LabelAt.lt_labelEnd (h : c.LabelAt p n) : p < c.labelEnd p n := by
  have := h.lt
  unfold labelEnd
  omega

/-- A label is neither the root nor a pointer. -/
theorem LabelAt.hasByte {b : UInt8} (h : c.LabelAt p n) (hb : c.HasByte p b) :
    b ≠ 0 ∧ b &&& 0xC0 ≠ 0xC0 := by
  obtain ⟨len, hlen, h0, hbits, -⟩ := h
  rw [hb.unique hlen]
  exact ⟨h0, hbits⟩

theorem NameEnd.unique (h : c.NameEnd p next) (h' : c.NameEnd p next') : next = next' := by
  induction h with
  | packet hp =>
    cases h' with
    | packet => rfl
    | root hb => exact absurd hb.1 (Int.not_lt.mpr hp)
    | pointer hb => exact absurd hb.1 (Int.not_lt.mpr hp)
    | label hn => exact absurd hn.lt (Int.not_lt.mpr hp)
  | root hb =>
    cases h' with
    | packet hp => exact absurd hb.1 (Int.not_lt.mpr hp)
    | root => rfl
    | pointer hb' hbits =>
      rw [← hb.unique hb'] at hbits
      exact absurd hbits (by decide)
    | label hn => exact absurd rfl (hn.hasByte hb).1
  | pointer hb hbits =>
    cases h' with
    | packet hp => exact absurd hb.1 (Int.not_lt.mpr hp)
    | root hb' =>
      rw [hb.unique hb'] at hbits
      exact absurd hbits (by decide)
    | pointer => rfl
    | label hn => exact absurd hbits (hn.hasByte hb).2
  | label hn _ ih =>
    cases h' with
    | packet hp => exact absurd hn.lt (Int.not_lt.mpr hp)
    | root hb => exact absurd rfl (hn.hasByte hb).1
    | pointer hb hbits => exact absurd hbits (hn.hasByte hb).2
    | label hn' hend =>
      rw [hn.unique hn'] at ih
      exact ih hend

theorem exists_nameEnd (c : ParseCall) (hp : 0 ≤ p) : ∃ next, c.NameEnd p next := by
  induction hm : (c.pktlen - p).toNat using Nat.strong_induction_on generalizing p with
  | _ m ih =>
    rcases place_cases c hp with hend | hroot | ⟨p', b, low, hb, hbits, -⟩ | ⟨n, hn⟩ | ⟨b, hb, hbits, -⟩
    · exact ⟨p, .packet hend⟩
    · exact ⟨p + 1, .root hroot⟩
    · exact ⟨p + 2, .pointer hb hbits⟩
    · have hlt := hn.lt
      have hlt' := hn.lt_labelEnd
      obtain ⟨next, hnext⟩ := ih (c.pktlen - c.labelEnd p n).toNat (by omega) (by omega) rfl
      exact ⟨next, .label hn hnext⟩
    · exact ⟨p + 2, .pointer hb hbits⟩

theorem InLabel.lt (h : c.InLabel p q) : p < q := by
  induction h with
  | here _ hlt _ => exact hlt
  | later hn _ ih => exact Int.lt_trans hn.lt_labelEnd ih

theorem InLabel.lt_pktlen (h : c.InLabel p q) : q < c.pktlen := by
  induction h with
  | here _ _ hq =>
    unfold labelEnd at hq
    omega
  | later _ _ ih => exact ih

/-! ## The position that is returned -/

/-- After a jump, the position that was saved is returned. -/
theorem ends_jumped (hsize : 1 ≤ c.outsize) (hs : c.Inv s) (hpos : 0 ≤ s.pos)
    (hjumped : s.jumped = true) (h : Ends c.round s r) : r.1 = s.savedPos := by
  refine h.of_invariant
    (fun t => c.Inv t ∧ 0 ≤ t.pos ∧ t.jumped = true ∧ t.savedPos = s.savedPos)
    (fun r => r.1 = s.savedPos) ⟨hs, hpos, hjumped, rfl⟩ ?_ ?_
  · rintro t t' ⟨ht, hpos, hjumped, hsaved⟩ hround -
    obtain ⟨ht', hpos'⟩ := again_inv ht hpos hround
    rcases again_jumped ht hround with ⟨-, hj, hsv⟩ | ⟨-, hj, hsv⟩
    · rw [if_pos hjumped] at hsv
      exact ⟨ht', hpos', hj, hsv.trans hsaved⟩
    · exact ⟨ht', hpos', hj.trans hjumped, hsv.trans hsaved⟩
  · rintro t ⟨ht, hpos, hjumped, hsaved⟩ hround
    obtain ⟨-, ⟨-, hr⟩ | ⟨-, hr⟩⟩ := done_cases ht hpos hsize hround
    · rw [if_pos hjumped] at hr
      exact hr.trans hsaved
    · rw [if_pos hjumped] at hr
      exact hr.trans hsaved

/-- A loop that ends after a round at a first pointer returns the position after the pointer. -/
theorem ends_pointer (hsize : 1 ≤ c.outsize) (hs : c.Inv s) (hpos : 0 ≤ s.pos)
    (hjumped : s.jumped = false) (hp : c.PointerAt s.pos p) (h : Ends c.round s r) :
    r.1 = s.pos + 2 := by
  have hround := round_pointer_eq hp
  obtain ⟨hinv, hpos'⟩ := again_inv hs hpos hround
  rw [ends_jumped hsize hinv hpos' rfl (h.tail hround), hjumped]
  rfl

/-! ## Runs that have not jumped -/

/-- The loop of `d` has not jumped: it is at `e`, where the part in place goes on to `next`, or, with a
full output, at a byte of the label that ends at `e`. -/
structure InPlace (c d : ParseCall) (next e : Int) (s : ParseState) : Prop where
  inv : d.Inv s
  jumped : s.jumped = false
  offset_le : c.offset ≤ s.pos
  written : s.outPos ≤ max 0 (s.pos - 1)
  pos_le : s.pos ≤ e
  nameEnd : c.NameEnd e next
  inside : ∀ q, s.pos ≤ q → q < e → c.InLabel c.offset q
  after : ∀ q, c.InLabel e q → c.InLabel c.offset q
  full : s.pos < e → d.outsize - 1 ≤ s.outPos

theorem inPlace_start (hd : c.SameName d) (hnext : c.NameEnd c.offset next) :
    InPlace c d next c.offset d.start where
  inv := inv_start d
  jumped := rfl
  offset_le := Int.le_of_eq hd.offset_eq.symm
  written := Int.le_max_left 0 _
  pos_le := Int.le_of_eq hd.offset_eq
  nameEnd := hnext
  inside q h h' := by
    rw [start, hd.offset_eq] at h
    exact absurd h' (Int.not_lt.mpr h)
  after _ h := h
  full h := by
    rw [start, hd.offset_eq] at h
    exact absurd h (Int.lt_irrefl _)

/-- A round at the length byte of a label in place. -/
theorem InPlace.again_label (hd : c.SameName d) (hoff : 0 ≤ c.offset) (h : InPlace c d next s.pos s)
    (hn : c.LabelAt s.pos n) (hround : d.round s = .again s') :
    InPlace c d next (c.labelEnd s.pos n) s' := by
  have hinv := h.inv
  obtain ⟨o, ho⟩ := Int.eq_ofNat_of_zero_le hinv.outPos_nonneg
  have hwritten := h.written
  have hoffset := h.offset_le
  have hlen := hd.pktlen_eq
  have hlt := hn.lt
  obtain ⟨t, ht, htinv, hpos, hout⟩ := round_label (hd.labelAt.mpr hn) hinv ho
  rw [hround] at ht
  cases ht
  have hdot : d.dotLen o ≤ 1 ∧ (o = 0 → d.dotLen o = 0) := by
    unfold dotLen
    split
    · omega
    · omega
  have hcopied : d.copied (s.pos + 1) n (o + d.dotLen o) =
      min n (min (c.pktlen - (s.pos + 1)).toNat (d.outsize - 1 - (o + d.dotLen o : Nat)).toNat) := by
    rw [copied, hlen]
  generalize d.copied (s.pos + 1) n (o + d.dotLen o) = k at hpos hout hcopied
  refine ⟨htinv, ?_, by omega, by omega, ?_, ?_, ?_, ?_, ?_⟩
  · exact (jumped_of_label (hd.labelAt.mpr hn) hinv hround).trans h.jumped
  · unfold labelEnd
    omega
  · cases h.nameEnd with
    | packet hp => exact absurd hlt (Int.not_lt.mpr hp)
    | root hb => exact absurd rfl (hn.hasByte hb).1
    | pointer hb hbits => exact absurd hbits (hn.hasByte hb).2
    | label hn' hend =>
      rw [hn.unique hn']
      exact hend
  · intro q hq hq'
    exact h.after q (.here hn (by omega) hq')
  · intro q hq
    exact h.after q (.later hn hq)
  · intro hfull
    unfold labelEnd at hfull
    omega

/-- A round at a byte of a label that is taken for a length byte. -/
theorem InPlace.again_inside {e : Int} (hd : c.SameName d) (h : InPlace c d next e s) (hlt : s.pos < e)
    (hn : c.LabelAt s.pos n) (hround : d.round s = .again s') : InPlace c d next e s' := by
  have hinv := h.inv
  obtain ⟨o, ho⟩ := Int.eq_ofNat_of_zero_le hinv.outPos_nonneg
  have hwritten := h.written
  have hoffset := h.offset_le
  have hfull := h.full hlt
  obtain ⟨t, ht, htinv, hpos, hout⟩ := round_label (hd.labelAt.mpr hn) hinv ho
  rw [hround] at ht
  cases ht
  rw [copied_full (by omega), Nat.add_zero] at hout
  rw [dotLen_full (by omega), Nat.add_zero] at hout
  rw [copied_full (by omega)] at hpos
  refine ⟨htinv, ?_, by omega, by omega, by omega, h.nameEnd, ?_, h.after, ?_⟩
  · exact (jumped_of_label (hd.labelAt.mpr hn) hinv hround).trans h.jumped
  · intro q hq hq'
    exact h.inside q (by omega) hq'
  · intro _
    omega

/-- A byte of a label is not taken for a length byte if there is room for the whole packet. -/
theorem InPlace.harmless {e : Int} (hoff : 0 ≤ c.offset) (h : InPlace c d next e s) (hlt : s.pos < e)
    (hc : c.HarmlessBytes ∨ c.pktlen ≤ d.outsize) : c.HarmlessBytes := by
  rcases hc with hc | hsize
  · exact hc
  · have hin := h.inside s.pos (Int.le_refl _) hlt
    have hoffset := hin.lt
    have hpkt := hin.lt_pktlen
    have hwritten := h.written
    have hfull := h.full hlt
    omega

/-- A run that ends in place returns the end of the part in place. -/
theorem InPlace.done {e : Int} (hd : c.SameName d) (hoff : 0 ≤ c.offset)
    (hc : c.HarmlessBytes ∨ c.pktlen ≤ d.outsize) (hnext : c.NameEnd c.offset next)
    (h : InPlace c d next e s) (hround : d.round s = .done r) : r.1 = next := by
  have hpos : 0 ≤ s.pos := Int.le_trans hoff h.offset_le
  have hjumped := h.jumped
  rcases Int.lt_or_eq_of_le h.pos_le with hlt | heq
  · have hin := h.inside s.pos (Int.le_refl _) hlt
    obtain ⟨-, ⟨hend, -⟩ | ⟨hroot, hr⟩⟩ := done_cases h.inv hpos hd.room hround
    · rw [hd.pktlen_eq] at hend
      exact absurd hin.lt_pktlen (Int.not_lt.mpr hend)
    · have hzero := (h.harmless hoff hlt hc next hnext s.pos 0 hin (hd.hasByte.mp hroot)).1 rfl
      rw [hr, hjumped]
      exact hzero
  · have hend := h.nameEnd
    rw [← heq] at hend
    obtain ⟨-, ⟨hpkt, hr⟩ | ⟨hroot, hr⟩⟩ := done_cases h.inv hpos hd.room hround
    · rw [hd.pktlen_eq] at hpkt
      rw [hr, hjumped, hend.unique (.packet hpkt)]
      rfl
    · rw [hr, hjumped, hend.unique (.root (hd.hasByte.mp hroot))]
      rfl

/-- A first pointer that is followed to an end stands where the part in place ends. -/
theorem InPlace.pointer {e : Int} (hd : c.SameName d) (hoff : 0 ≤ c.offset)
    (hc : c.HarmlessBytes ∨ c.pktlen ≤ d.outsize) (hnext : c.NameEnd c.offset next)
    (h : InPlace c d next e s) (hp : c.PointerAt s.pos p) (hends : Ends d.round s r) :
    s.pos + 2 = next := by
  obtain ⟨high, low, hhigh, hbits, -⟩ := hp
  rcases Int.lt_or_eq_of_le h.pos_le with hlt | heq
  · have hin := h.inside s.pos (Int.le_refl _) hlt
    have hpos : 0 ≤ s.pos := Int.le_trans hoff h.offset_le
    obtain ⟨hcircles, hbreaks⟩ := (exists_ends_full_iff hd h.inv hpos (h.full hlt)).mp ⟨r, hends⟩
    exact (h.harmless hoff hlt hc next hnext s.pos high hin hhigh).2 hbits hcircles hbreaks
  · have hend := h.nameEnd
    rw [← heq] at hend
    exact (hend.unique (.pointer hhigh hbits)).symm

/-- A run that ends returns the end of the part in place, if the bytes of the labels are harmless or the
output has room for the whole packet. -/
theorem returnsAt_nameEnd (hd : c.SameName d) (hoff : 0 ≤ c.offset)
    (hc : c.HarmlessBytes ∨ c.pktlen ≤ d.outsize) (hret : d.ReturnsAt p) : c.NameEnd c.offset p := by
  obtain ⟨out, hret⟩ := hret
  have hends : Ends d.round d.start (p, out) := hret
  obtain ⟨next, hnext⟩ := exists_nameEnd c hoff
  have hp : p = next := by
    refine hends.of_invariant
      (fun t => (∃ e, InPlace c d next e t) ∨
        (d.Inv t ∧ 0 ≤ t.pos ∧ t.jumped = true ∧ t.savedPos = next))
      (fun r => r.1 = next) (.inl ⟨_, inPlace_start hd hnext⟩) ?_ ?_
    · rintro t t' (⟨e, h⟩ | ⟨ht, hpos, hjumped, hsaved⟩) hround hend
      · have hpos : 0 ≤ t.pos := Int.le_trans hoff h.offset_le
        rcases again_jumped h.inv hround with ⟨⟨p', hp⟩, hj, hsv⟩ | ⟨⟨n, hn⟩, -⟩
        · obtain ⟨ht', hpos'⟩ := again_inv h.inv hpos hround
          rw [h.jumped] at hsv
          have hsaved := h.pointer hd hoff hc hnext (hd.pointerAt.mp hp) (.again hround hend)
          exact .inr ⟨ht', hpos', hj, hsv.trans hsaved⟩
        · rcases Int.lt_or_eq_of_le h.pos_le with hlt | rfl
          · exact .inl ⟨e, h.again_inside hd hlt (hd.labelAt.mp hn) hround⟩
          · exact .inl ⟨_, h.again_label hd hoff (hd.labelAt.mp hn) hround⟩
      · obtain ⟨ht', hpos'⟩ := again_inv ht hpos hround
        rcases again_jumped ht hround with ⟨-, hj, hsv⟩ | ⟨-, hj, hsv⟩
        · rw [if_pos hjumped] at hsv
          exact .inr ⟨ht', hpos', hj, hsv.trans hsaved⟩
        · exact .inr ⟨ht', hpos', hj.trans hjumped, hsv.trans hsaved⟩
    · rintro t (⟨e, h⟩ | ⟨ht, hpos, hjumped, hsaved⟩) hround
      · exact h.done hd hoff hc hnext hround
      · exact (ends_jumped hd.room ht hpos hjumped (.done hround)).trans hsaved
  rw [hp]
  exact hnext

/-! ## Outputs that are full at a byte -/

/-- The dot before a label when `o` bytes have been written, in an output with room for it. -/
def dotBefore (o : Nat) : Nat := if 0 < o then 1 else 0

/-- A round at a label whose bytes are copied up to the end of the label or of the output. -/
theorem round_label_upTo (hd : c.SameName d) (hn : c.LabelAt s.pos n) (hs : d.Inv s) (ho : s.outPos = o)
    (hjumped : s.jumped = false) {m : Nat} (hm : s.pos + 1 + m ≤ c.labelEnd s.pos n)
    (hroom : (o + dotBefore o + m : Nat) ≤ d.outsize - 1)
    (hstop : s.pos + 1 + m = c.labelEnd s.pos n ∨ (o + dotBefore o + m : Nat) = d.outsize - 1) :
    ∃ s', d.round s = .again s' ∧ d.Inv s' ∧ s'.pos = s.pos + 1 + m ∧
      s'.outPos = (o + dotBefore o + m : Nat) ∧ s'.jumped = false := by
  have hdot : d.dotLen o = dotBefore o := by
    unfold dotLen
    unfold dotBefore at hroom ⊢
    by_cases h0 : 0 < o
    · rw [if_pos h0] at hroom ⊢
      exact if_pos (by omega)
    · rw [if_neg h0]
      exact if_neg (by omega)
  have hcopied : d.copied (s.pos + 1) n (o + d.dotLen o) = m := by
    unfold labelEnd at hm hstop
    rw [copied, hd.pktlen_eq, hdot]
    omega
  obtain ⟨s', hs', hinv, hpos, hout⟩ := round_label (hd.labelAt.mpr hn) hs ho
  rw [hcopied] at hpos hout
  rw [hdot] at hout
  exact ⟨s', hs', hinv, hpos, hout, (jumped_of_label (hd.labelAt.mpr hn) hs hs').trans hjumped⟩

/-- Every byte of a label in place is one at which some output is full. -/
theorem InLabel.exists_full (h : c.InLabel p q) :
    ∀ o : Nat, ∃ k : Nat, o ≤ k ∧ ∀ d s, c.SameName d → d.outsize - 1 = k → d.Inv s → s.pos = p →
      s.outPos = o → s.jumped = false →
        ∃ m s', rounds d.round m s = .again s' ∧ d.Inv s' ∧ s'.pos = q ∧ s'.outPos = k ∧
          s'.jumped = false := by
  induction h with
  | @here p q n hn hlt hq =>
    intro o
    refine ⟨o + dotBefore o + (q - p - 1).toNat, by omega, ?_⟩
    rintro d s hd hsize hs rfl ho hjumped
    obtain ⟨s', hs', hinv, hpos, hout, hj⟩ := round_label_upTo hd hn hs ho hjumped
      (m := (q - s.pos - 1).toNat) (by omega) (by omega) (.inr hsize.symm)
    exact ⟨1, s', by rw [rounds_again hs', rounds], hinv, by omega, hout, hj⟩
  | @later p q n hn _ ih =>
    intro o
    have hlt := hn.lt_labelEnd
    obtain ⟨k, hk, hreach⟩ := ih (o + dotBefore o + (c.labelEnd p n - p - 1).toNat)
    refine ⟨k, by omega, ?_⟩
    rintro d s hd hsize hs rfl ho hjumped
    obtain ⟨s', hs', hinv, hpos, hout, hj⟩ := round_label_upTo hd hn hs ho hjumped
      (m := (c.labelEnd s.pos n - s.pos - 1).toNat) (by omega) (by omega) (.inl (by omega))
    obtain ⟨m, t, ht, hrest⟩ := hreach d s' hd hsize hinv (by omega) hout hj
    exact ⟨m + 1, t, by rw [rounds_again hs', ht], hrest⟩

/-- At a byte of a label in place that some output is full at, a loop that ends ends the call. -/
theorem InLabel.exists_returnsAt (hq : c.InLabel c.offset q) :
    ∃ d s, c.SameName d ∧ d.Inv s ∧ s.pos = q ∧ s.jumped = false ∧ d.outsize - 1 ≤ s.outPos ∧
      ∀ p out, Ends d.round s (p, out) → d.ReturnsAt p := by
  obtain ⟨k, -, hreach⟩ := hq.exists_full 0
  have hlen : ((k : Int) + 1) ≤ (List.replicate (k + 1) (0 : UInt8)).length := by
    rw [List.length_replicate]
    exact Int.le_refl _
  have hd := SameName.mk (c := c) hlen (by omega)
  obtain ⟨m, s, hs, hinv, hpos, hout, hj⟩ := hreach _ (start _) hd (Int.add_sub_cancel _ _)
    (inv_start _) rfl rfl rfl
  refine ⟨_, s, hd, hinv, hpos, hj, ?_, fun p out hends => ⟨out, hends.of_rounds hs⟩⟩
  rw [hout]
  exact Int.le_of_eq (Int.add_sub_cancel _ _)

/-- If every output skips the name as a whole, the bytes of its labels are harmless. -/
theorem SkipsWhole.harmless (hoff : 0 ≤ c.offset) (h : c.SkipsWhole) : c.HarmlessBytes := by
  intro next hnext q b hq hb
  obtain ⟨d, s, hd, hinv, rfl, hjumped, hfull, hret⟩ := hq.exists_returnsAt
  have hpos : 0 ≤ s.pos := Int.le_trans hoff (Int.le_of_lt hq.lt)
  constructor
  · rintro rfl
    obtain ⟨out, -, hout⟩ := round_root hinv hd.room (hd.hasByte.mpr hb)
    rw [hjumped] at hout
    exact (h d hd _ (hret _ _ (.done hout))).unique hnext
  · intro hbits hcircles hbreaks
    obtain ⟨⟨p, out⟩, hends⟩ := (exists_ends_full_iff hd hinv hpos hfull).mpr ⟨hcircles, hbreaks⟩
    have hpointer : ∃ p', d.PointerAt s.pos p' := by
      rcases hlow : byteAt d.pkt (s.pos + 1) with _ | low
      · exact absurd (round_breaksAt ⟨b, hd.hasByte.mpr hb, hbits, hlow⟩)
          fun hu => not_safe_of_undefined hu hends.safe
      · exact ⟨_, b, low, hd.hasByte.mpr hb, hbits, hlow, rfl⟩
    obtain ⟨p', hp'⟩ := hpointer
    have hp : p = s.pos + 2 := ends_pointer hd.room hinv hpos hjumped hp' hends
    rw [hp] at hends
    exact (h d hd _ (hret _ _ hends)).unique hnext

/-- For every packet and offset that is no negative number: the position that `parse_name` returns is the
end of the part of the name in place, the same for every output, exactly if no byte of the labels in
place, taken for a length byte, ends the name elsewhere. If the call returns for an output with room for
the whole packet, this is so exactly if the returned position is the same for every output. -/
theorem parse_name_skips_iff (c : ParseCall) (hoff : 0 ≤ c.offset) :
    (c.Independent ∧ c.SkipsWhole ↔ c.HarmlessBytes) ∧
      ((∃ d, c.SameName d ∧ c.pktlen ≤ d.outsize ∧ d.Returns) →
        (c.Independent ↔ c.HarmlessBytes)) := by
  have hskips : c.HarmlessBytes → c.SkipsWhole := fun hc d hd p hp =>
    returnsAt_nameEnd hd hoff (.inl hc) hp
  have hindep : c.SkipsWhole → c.Independent := fun h d d' hd hd' p p' hp hp' =>
    (h d hd p hp).unique (h d' hd' p' hp')
  refine ⟨⟨fun h => h.2.harmless hoff, fun hc => ⟨hindep (hskips hc), hskips hc⟩⟩, ?_⟩
  rintro ⟨d, hd, hroom, ⟨p, out⟩, hret⟩
  refine ⟨fun h => SkipsWhole.harmless hoff fun d' hd' p' hp' => ?_, fun hc => hindep (hskips hc)⟩
  have hp : c.NameEnd c.offset p := returnsAt_nameEnd hd hoff (.inr hroom) ⟨out, hret⟩
  rw [← h d d' hd hd' p p' ⟨out, hret⟩ hp']
  exact hp

/-- A packet with a label of one byte, a zero, and the root label. -/
def zeroLabel : ParseCall where
  pkt := [1, 0, 0]
  pktlen := 3
  offset := 0
  out := [0, 0, 0]
  outsize := 3
  readable := by decide
  writable := by decide
  isInt := by decide

theorem zeroLabel_returns : zeroLabel.ReturnsAt 3 := ⟨[0, 0, 0], 2, rfl⟩

theorem zeroLabel_sameName : zeroLabel.SameName zeroLabel := .mk zeroLabel.writable (by decide)

theorem zeroLabel_skips_iff :
    (zeroLabel.Independent ∧ zeroLabel.SkipsWhole ↔ zeroLabel.HarmlessBytes) ∧
      (zeroLabel.Independent ↔ zeroLabel.HarmlessBytes) := by
  obtain ⟨out, hret⟩ := zeroLabel_returns
  have h := parse_name_skips_iff zeroLabel (by decide)
  exact ⟨h.1, h.2 ⟨zeroLabel, zeroLabel_sameName, by decide, (3, out), hret⟩⟩

/-- The call returns at 3, but with room for the NUL only it takes the zero for the root label. -/
theorem zeroLabel_not_independent :
    zeroLabel.ReturnsAt 3 ∧ zeroLabel.full.ReturnsAt 2 ∧ ¬ zeroLabel.Independent := by
  have hfull : zeroLabel.full.ReturnsAt 2 := ⟨[0], 2, rfl⟩
  refine ⟨zeroLabel_returns, hfull, fun h => ?_⟩
  have heq : (3 : Int) = 2 :=
    h _ _ zeroLabel_sameName (sameName_full zeroLabel) 3 2 zeroLabel_returns hfull
  exact absurd heq (by decide)

end ParseCall

end DnsClient
