import LinuxHandson.Dns.Bounds
import LinuxHandson.Dns.Proofs.ParseRoundProofs

/-!
# Whether `parse_name` stays in its buffers

The output is written where there is room, whatever the packet holds. The packet is read in place but
for the second byte of a pointer: a round is undefined exactly at a pointer that is cut off.
-/

namespace DnsClient

open CLib

variable {c : ParseCall} {s s' : ParseState} {r : Int × List UInt8}

namespace ParseCall

theorem round_breaksAt {s : ParseState} (h : c.BreaksAt s.pos) : c.round s = .undefined := by
  obtain ⟨high, hhigh, hbits, hlow⟩ := h
  have h0 : high ≠ 0 := by
    rintro rfl
    exact absurd hbits (by decide)
  rw [round_eq hhigh, if_neg h0, if_pos hbits, followPointer, hlow]
  simp only [Option.map_none, Option.bind_fun_none, Round.ofOption]

/-- What a round finds: the end of the name, a pointer, a label or a pointer that is cut off. -/
theorem place_cases (c : ParseCall) {p : Int} (hp : 0 ≤ p) :
    c.pktlen ≤ p ∨ c.HasByte p 0 ∨ (∃ p', c.PointerAt p p') ∨ (∃ n, c.LabelAt p n) ∨ c.BreaksAt p := by
  rcases Int.lt_or_le p c.pktlen with hlt | hge
  · have hread := c.readable
    obtain ⟨b, hb⟩ : ∃ b, byteAt c.pkt p = some b := by
      rw [byteAt, if_pos hp]
      exact ⟨_, List.getElem?_eq_getElem (by omega)⟩
    have hbyte : c.HasByte p b := ⟨hlt, hb⟩
    by_cases h0 : b = 0
    · rw [h0] at hbyte
      exact .inr (.inl hbyte)
    · by_cases hbits : b &&& 0xC0 = 0xC0
      · rcases hlow : byteAt c.pkt (p + 1) with _ | low
        · exact .inr (.inr (.inr (.inr ⟨b, hbyte, hbits, hlow⟩)))
        · exact .inr (.inr (.inl ⟨_, b, low, hbyte, hbits, hlow, rfl⟩))
      · exact .inr (.inr (.inr (.inl ⟨b.toNat, b, hbyte, h0, hbits, rfl⟩)))
  · exact .inl hge

/-- A round that does not find a pointer that is cut off is defined. -/
theorem round_defined {s : ParseState} (hs : c.Inv s) (hpos : 0 ≤ s.pos) (hsize : 1 ≤ c.outsize)
    (hbreaks : ¬ c.BreaksAt s.pos) : c.round s ≠ .undefined := by
  rcases place_cases c hpos with hend | hroot | ⟨p', hp⟩ | ⟨n, hn⟩ | hb
  · obtain ⟨out, -, hout⟩ := round_end hs hsize hend
    rw [hout]
    simp
  · obtain ⟨out, -, hout⟩ := round_root hs hsize hroot
    rw [hout]
    simp
  · rw [round_pointer_eq hp]
    simp
  · obtain ⟨out, -, hout⟩ := round_label_eq hn hs hs.outPos_eq
    rw [hout]
    simp
  · exact absurd hb hbreaks

theorem done_cases (hs : c.Inv s) (hpos : 0 ≤ s.pos) (hsize : 1 ≤ c.outsize)
    (h : c.round s = .done r) :
    r.2.length = c.out.length ∧
      ((c.pktlen ≤ s.pos ∧ r.1 = if s.jumped then s.savedPos else s.pos) ∨
        (c.HasByte s.pos 0 ∧ r.1 = if s.jumped then s.savedPos else s.pos + 1)) := by
  rcases place_cases c hpos with hend | hroot | ⟨p', hp⟩ | ⟨n, hn⟩ | hb
  · obtain ⟨out, hlen, hout⟩ := round_end hs hsize hend
    rw [hout] at h
    cases h
    exact ⟨hlen, .inl ⟨hend, rfl⟩⟩
  · obtain ⟨out, hlen, hout⟩ := round_root hs hsize hroot
    rw [hout] at h
    cases h
    exact ⟨hlen, .inr ⟨hroot, rfl⟩⟩
  · rw [round_pointer_eq hp] at h
    cases h
  · obtain ⟨out, -, hout⟩ := round_label_eq hn hs hs.outPos_eq
    rw [hout] at h
    cases h
  · rw [round_breaksAt hb] at h
    cases h

/-- A round that goes on jumps, or leaves alone what it returns after a jump. -/
theorem again_jumped (hs : c.Inv s) (h : c.round s = .again s') :
    ((∃ p', c.PointerAt s.pos p') ∧ s'.jumped = true ∧
        s'.savedPos = if s.jumped then s.savedPos else s.pos + 2) ∨
      ((∃ n, c.LabelAt s.pos n) ∧ s'.jumped = s.jumped ∧ s'.savedPos = s.savedPos) := by
  rcases at_of_again h with ⟨p', hp⟩ | ⟨n, hn⟩
  · rw [round_pointer_eq hp] at h
    cases h
    exact .inl ⟨⟨p', hp⟩, rfl, rfl⟩
  · obtain ⟨out, -, hout⟩ := round_label_eq hn hs hs.outPos_eq
    rw [hout] at h
    cases h
    exact .inr ⟨⟨n, hn⟩, rfl, rfl⟩

theorem jumped_of_label {n : Nat} (hn : c.LabelAt s.pos n) (hs : c.Inv s)
    (h : c.round s = .again s') : s'.jumped = s.jumped := by
  obtain ⟨out, -, hout⟩ := round_label_eq hn hs hs.outPos_eq
  rw [hout] at h
  cases h
  rfl

/-- A round that goes on stays in the positions that are no negative numbers. -/
theorem again_inv (hs : c.Inv s) (hpos : 0 ≤ s.pos) (h : c.round s = .again s') :
    c.Inv s' ∧ 0 ≤ s'.pos := by
  obtain ⟨hinv, ⟨hp, -⟩ | ⟨n, -, hp, -⟩⟩ := again_cases hs hs.outPos_eq h
  · obtain ⟨high, low, -, -, -, hval⟩ := hp
    exact ⟨hinv, by omega⟩
  · exact ⟨hinv, by omega⟩

/-- A loop that ends returns no negative number, and leaves the output as long as it was. -/
theorem ends_result (hsize : 1 ≤ c.outsize) (hs : c.Inv s) (hpos : 0 ≤ s.pos) (hsaved : 0 ≤ s.savedPos)
    (h : Ends c.round s r) : 0 ≤ r.1 ∧ r.2.length = c.out.length := by
  refine h.of_invariant (fun t => c.Inv t ∧ 0 ≤ t.pos ∧ 0 ≤ t.savedPos)
    (fun r => 0 ≤ r.1 ∧ r.2.length = c.out.length) ⟨hs, hpos, hsaved⟩ ?_ ?_
  · rintro t t' ⟨ht, hpos, hsaved⟩ hround -
    obtain ⟨ht', hpos'⟩ := again_inv ht hpos hround
    refine ⟨ht', hpos', ?_⟩
    rcases again_jumped ht hround with ⟨-, -, hsv⟩ | ⟨-, -, hsv⟩
    · rw [hsv]
      split
      · exact hsaved
      · omega
    · rw [hsv]
      exact hsaved
  · rintro t ⟨ht, hpos, hsaved⟩ hround
    obtain ⟨hlen, ⟨-, hr⟩ | ⟨-, hr⟩⟩ := done_cases ht hpos hsize hround
    · refine ⟨?_, hlen⟩
      rw [hr]
      split
      · exact hsaved
      · exact hpos
    · refine ⟨?_, hlen⟩
      rw [hr]
      split
      · exact hsaved
      · omega

/-- Where the name leads to a pointer that is cut off, the loop comes to an undefined round. -/
theorem Breaks.not_safe {p : Int} {o : Nat} (h : c.Breaks p o) :
    ∀ {s : ParseState}, c.Inv s → s.pos = p → s.outPos = o → ¬ Safe c.round s := by
  induction h with
  | here hp =>
    rintro s hs rfl ho
    exact not_safe_of_undefined (round_breaksAt hp)
  | pointer hp _ ih =>
    rintro s hs rfl ho
    obtain ⟨s', hs', hinv, hpos, hout⟩ := round_pointer hp hs
    rw [safe_of_again hs']
    exact ih hinv hpos (hout.trans ho)
  | label hp _ ih =>
    rintro s hs rfl ho
    obtain ⟨s', hs', hinv, hpos, hout⟩ := round_label hp hs ho
    rw [safe_of_again hs']
    exact ih hinv hpos hout

/-- A round that goes on does not come nearer to a pointer that is cut off. -/
theorem not_breaks_again (hs : c.Inv s) (hbreaks : ¬ c.Breaks s.pos s.outPos.toNat)
    (h : c.round s = .again s') : ¬ c.Breaks s'.pos s'.outPos.toNat := by
  intro hb
  obtain ⟨-, ⟨hp, hout⟩ | ⟨n, hn, hp, hout⟩⟩ := again_cases hs hs.outPos_eq h
  · rw [hout, Int.toNat_natCast] at hb
    exact hbreaks (.pointer hp hb)
  · rw [hp, hout, Int.toNat_natCast] at hb
    exact hbreaks (.label hn hb)

/-- The loop is safe exactly if the name leads to no pointer that is cut off. -/
theorem safe_iff_not_breaks {s : ParseState} (hs : c.Inv s) (hpos : 0 ≤ s.pos) (hsize : 1 ≤ c.outsize) :
    Safe c.round s ↔ ¬ c.Breaks s.pos s.outPos.toNat := by
  constructor
  · intro hsafe hb
    exact hb.not_safe hs rfl hs.outPos_eq hsafe
  · intro hb
    refine safe_of_invariant (fun s => c.Inv s ∧ 0 ≤ s.pos ∧ ¬ c.Breaks s.pos s.outPos.toNat) ?_ ?_
      ⟨hs, hpos, hb⟩
    · rintro s ⟨hs, hpos, hb⟩
      exact round_defined hs hpos hsize fun hat => hb (.here hat)
    · rintro s s' ⟨hs, hpos, hb⟩ h
      obtain ⟨hs', hpos'⟩ := again_inv hs hpos h
      exact ⟨hs', hpos', not_breaks_again hs hb h⟩

/-- For every packet, length, offset that is no negative number and output with room for the NUL:
`parse_name` reads and writes below the lengths that it is given exactly if the labels and pointers of
the packet do not lead it to a pointer whose first byte is the last of the packet. -/
theorem parse_name_inBounds_iff (c : ParseCall) (hoff : 0 ≤ c.offset) (hsize : 1 ≤ c.outsize) :
    c.InBounds ↔ ¬ c.cut.Breaks c.offset 0 :=
  safe_iff_not_breaks (inv_start c.cut) hoff hsize

/-- A packet of one byte, the first of a pointer. -/
def halfPointer : ParseCall where
  pkt := [0xC0]
  pktlen := 1
  offset := 0
  out := List.replicate 16 0
  outsize := 16
  readable := by decide
  writable := by decide
  isInt := by decide

theorem halfPointer_inBounds_iff : halfPointer.InBounds ↔ ¬ halfPointer.cut.Breaks 0 0 :=
  parse_name_inBounds_iff halfPointer (by decide) (by decide)

/-- The byte after the packet is read. -/
theorem halfPointer_not_inBounds :
    0 ≤ halfPointer.offset ∧ 1 ≤ halfPointer.outsize ∧ ¬ halfPointer.InBounds := by
  have hat : halfPointer.cut.BreaksAt 0 := ⟨0xC0, ⟨by decide, rfl⟩, by decide, rfl⟩
  have hb : halfPointer.cut.Breaks 0 0 := .here hat
  exact ⟨by decide, by decide, hb.not_safe (inv_start _) rfl rfl⟩

end ParseCall

end DnsClient
