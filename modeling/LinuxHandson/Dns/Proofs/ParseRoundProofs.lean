import LinuxHandson.Dns.Pointers
import LinuxHandson.Dns.Proofs.ParseNameProofs

/-!
# Rounds of `parse_name`

What a round does on any packet: at a pointer it jumps, at a label it copies what is in the packet and
has room, and it never takes back what it has written.
-/

namespace DnsClient

open CLib

variable {c : ParseCall}

namespace ParseCall

theorem copyLabel_eq (n : Nat) :
    ∀ {s : ParseState} {o : Nat}, 0 ≤ s.pos → s.outPos = o → c.outsize ≤ s.out.length →
      ∃ out, copyLabel c.pkt c.pktlen c.outsize n s =
          some ⟨s.pos + c.copied s.pos n o, (o + c.copied s.pos n o : Nat), s.jumped, s.savedPos, out⟩ ∧
        out.length = s.out.length := by
  induction n with
  | zero =>
    intro s o _ ho _
    refine ⟨s.out, ?_, rfl⟩
    rw [copyLabel, copied, Nat.zero_min, Nat.add_zero, Int.natCast_zero, Int.add_zero, ← ho]
  | succ n ih =>
    intro s o hpos ho hout
    rw [copyLabel]
    by_cases hgo : s.pos < c.pktlen ∧ s.outPos < c.outsize - 1
    · have hread := c.readable
      obtain ⟨hp, hroom⟩ := hgo
      rw [ho] at hroom
      have hstore : o + 1 ≤ s.out.length := by omega
      have hbyte : ∃ b, byteAt c.pkt s.pos = some b := by
        rw [byteAt, if_pos hpos]
        exact ⟨_, List.getElem?_eq_getElem (by omega)⟩
      obtain ⟨b, hb⟩ := hbyte
      have hlen : (splice s.out o [b]).length = s.out.length := length_splice hstore
      obtain ⟨out, hcopy, hout'⟩ := @ih
        { s with pos := s.pos + 1, outPos := s.outPos + 1, out := splice s.out o [b] } (o + 1)
        (by simp only; omega) (by simp only; omega) (by simp only; omega)
      refine ⟨out, ?_, hout'.trans hlen⟩
      rw [if_pos ⟨hp, by omega⟩, hb, Option.bind_some, ho, store_ok hstore, Option.bind_some, ← ho,
        hcopy]
      have hcopied : c.copied s.pos (n + 1) o = c.copied (s.pos + 1) n (o + 1) + 1 := by
        simp only [copied]
        omega
      rw [hcopied]
      simp only [Option.some.injEq, ParseState.mk.injEq, and_true]
      omega
    · refine ⟨s.out, ?_, rfl⟩
      have hcopied : c.copied s.pos (n + 1) o = 0 := by
        simp only [copied]
        omega
      rw [if_neg hgo, hcopied, Nat.add_zero, Int.natCast_zero, Int.add_zero, ← ho]

/-- What the loop keeps: what is written has room, and the buffer is as long as at the start. -/
structure Inv (c : ParseCall) (s : ParseState) : Prop where
  outPos_nonneg : 0 ≤ s.outPos
  outPos_le : s.outPos ≤ max 0 (c.outsize - 1)
  out_length : s.out.length = c.out.length

theorem Inv.outPos_eq {s : ParseState} (hs : c.Inv s) : s.outPos = (s.outPos.toNat : Nat) :=
  (Int.toNat_of_nonneg hs.outPos_nonneg).symm

theorem inv_start (c : ParseCall) : c.Inv c.start where
  outPos_nonneg := Int.le_refl 0
  outPos_le := Int.le_max_left 0 _
  out_length := rfl

theorem HasByte.nonneg {p : Int} {b : UInt8} (h : c.HasByte p b) : 0 ≤ p := by
  have hb := h.2
  rw [byteAt] at hb
  split at hb
  · assumption
  · cases hb

theorem round_eq {s : ParseState} {b : UInt8} (h : c.HasByte s.pos b) :
    c.round s =
      .ofOption (if b = 0 then (finish { s with pos := s.pos + 1 }).map .done
        else if b &&& 0xC0 = 0xC0 then (followPointer c.pkt s b).map .again
        else ((putDot c.outsize { s with pos := s.pos + 1 }).bind
          (copyLabel c.pkt c.pktlen c.outsize b.toNat)).map .again) := by
  rw [round, parseRound, if_pos h.1, h.2, Option.bind_some]

theorem round_pointer_eq {s : ParseState} {p' : Int} (h : c.PointerAt s.pos p') :
    c.round s =
      .again { s with
        pos := p'
        jumped := true
        savedPos := if s.jumped then s.savedPos else s.pos + 2 } := by
  obtain ⟨high, low, hhigh, hbits, hlow, rfl⟩ := h
  have h0 : high ≠ 0 := by
    rintro rfl
    exact absurd hbits (by decide)
  have hsaved : (if s.jumped then some s.savedPos else intArith (s.pos + 2)) =
      some (if s.jumped then s.savedPos else s.pos + 2) := by
    have hlt : s.pos + 1 < c.pkt.length := by
      rw [byteAt] at hlow
      split at hlow
      · have := (List.getElem?_eq_some_iff.mp hlow).1
        omega
      · cases hlow
    have hpos := hhigh.nonneg
    have hint := c.isInt
    split
    · rfl
    · exact intArith_of_range (by omega) (by omega)
  rw [round_eq hhigh, if_neg h0, if_pos hbits, followPointer, hsaved, Option.bind_some, hlow,
    Option.map_some, Option.map_some]
  rfl

theorem round_pointer {s : ParseState} {p' : Int} (h : c.PointerAt s.pos p') (hs : c.Inv s) :
    ∃ s', c.round s = .again s' ∧ c.Inv s' ∧ s'.pos = p' ∧ s'.outPos = s.outPos :=
  ⟨_, round_pointer_eq h, ⟨hs.outPos_nonneg, hs.outPos_le, hs.out_length⟩, rfl, rfl⟩

theorem round_label_eq {s : ParseState} {n o : Nat} (h : c.LabelAt s.pos n) (hs : c.Inv s)
    (ho : s.outPos = o) :
    ∃ out, out.length = c.out.length ∧
      c.round s =
        .again { s with
          pos := s.pos + 1 + c.copied (s.pos + 1) n (o + c.dotLen o)
          outPos := (o + c.dotLen o + c.copied (s.pos + 1) n (o + c.dotLen o) : Nat)
          out := out } := by
  obtain ⟨len, hlen, h0, hbits, rfl⟩ := h
  have hpos := hlen.nonneg
  have hwrite := c.writable
  have hout := hs.out_length
  have hdot : ∃ out, putDot c.outsize { s with pos := s.pos + 1 } =
      some { s with pos := s.pos + 1, outPos := (o + c.dotLen o : Nat), out := out } ∧
      out.length = s.out.length := by
    rw [putDot, dotLen]
    simp only
    by_cases hroom : 0 < s.outPos ∧ s.outPos < c.outsize - 1
    · have hstore : o + [dot].length ≤ s.out.length := by
        rw [List.length_singleton]
        omega
      refine ⟨splice s.out o [dot], ?_, length_splice hstore⟩
      rw [if_pos hroom, if_pos (by omega), ho, store_ok hstore]
      rfl
    · refine ⟨s.out, ?_, rfl⟩
      rw [if_neg hroom, if_neg (by omega), Nat.add_zero, ← ho]
  obtain ⟨out, hdot, hout'⟩ := hdot
  obtain ⟨out', hcopy, hout''⟩ := @copyLabel_eq c len.toNat
    { s with pos := s.pos + 1, outPos := (o + c.dotLen o : Nat), out := out } (o + c.dotLen o)
    (by simp only; omega) rfl (by simp only; omega)
  refine ⟨out', hout''.trans (hout'.trans hout), ?_⟩
  rw [round_eq hlen, if_neg h0, if_neg hbits, hdot, Option.bind_some, hcopy, Option.map_some]
  rfl

theorem round_label {s : ParseState} {n o : Nat} (h : c.LabelAt s.pos n) (hs : c.Inv s)
    (ho : s.outPos = o) :
    ∃ s', c.round s = .again s' ∧ c.Inv s' ∧
      s'.pos = s.pos + 1 + c.copied (s.pos + 1) n (o + c.dotLen o) ∧
      s'.outPos = (o + c.dotLen o + c.copied (s.pos + 1) n (o + c.dotLen o) : Nat) := by
  obtain ⟨out, hout, hround⟩ := round_label_eq h hs ho
  have hle := hs.outPos_le
  refine ⟨_, hround, ⟨Int.natCast_nonneg _, ?_, hout⟩, rfl, rfl⟩
  simp only [copied, dotLen]
  split
  · omega
  · omega

/-- A round that goes on is one at a pointer or at a label. -/
theorem at_of_again {s s' : ParseState} (h : c.round s = .again s') :
    (∃ p', c.PointerAt s.pos p') ∨ ∃ n, c.LabelAt s.pos n := by
  by_cases hlt : s.pos < c.pktlen
  · rcases hb : byteAt c.pkt s.pos with _ | b
    · rw [round, parseRound, if_pos hlt, hb] at h
      cases h
    · have hbyte : c.HasByte s.pos b := ⟨hlt, hb⟩
      rw [round_eq hbyte] at h
      by_cases h0 : b = 0
      · rw [if_pos h0] at h
        exact absurd h (Round.ofOption_done_ne _ _)
      · by_cases hbits : b &&& 0xC0 = 0xC0
        · rw [if_neg h0, if_pos hbits, followPointer] at h
          rcases hlow : byteAt c.pkt (s.pos + 1) with _ | low
          · rw [hlow] at h
            simp only [Option.map_none, Option.bind_fun_none] at h
            cases h
          · exact .inl ⟨_, b, low, hbyte, hbits, hlow, rfl⟩
        · exact .inr ⟨b.toNat, b, hbyte, h0, hbits, rfl⟩
  · rw [round, parseRound, if_neg hlt] at h
    exact absurd h (Round.ofOption_done_ne _ _)

theorem again_cases {s s' : ParseState} {o : Nat} (hs : c.Inv s) (ho : s.outPos = o)
    (h : c.round s = .again s') :
    c.Inv s' ∧
      ((c.PointerAt s.pos s'.pos ∧ s'.outPos = o) ∨
        ∃ n, c.LabelAt s.pos n ∧ s'.pos = s.pos + 1 + c.copied (s.pos + 1) n (o + c.dotLen o) ∧
          s'.outPos = (o + c.dotLen o + c.copied (s.pos + 1) n (o + c.dotLen o) : Nat)) := by
  rcases at_of_again h with ⟨p', hp⟩ | ⟨n, hn⟩
  · obtain ⟨t, ht, hinv, hpos, hout⟩ := round_pointer hp hs
    rw [h] at ht
    cases ht
    rw [← hpos] at hp
    exact ⟨hinv, .inl ⟨hp, hout.trans ho⟩⟩
  · obtain ⟨t, ht, hinv, hpos, hout⟩ := round_label hn hs ho
    rw [h] at ht
    cases ht
    exact ⟨hinv, .inr ⟨n, hn, hpos, hout⟩⟩

/-- The NUL has room. -/
theorem finish_eq {s : ParseState} (hs : c.Inv s) (hsize : 1 ≤ c.outsize) :
    ∃ out, out.length = c.out.length ∧
      finish s = some (if s.jumped then s.savedPos else s.pos, out) := by
  obtain ⟨o, ho⟩ := Int.eq_ofNat_of_zero_le hs.outPos_nonneg
  have hle := hs.outPos_le
  have hlen := hs.out_length
  have hwrite := c.writable
  have hstore : o + [(0 : UInt8)].length ≤ s.out.length := by
    rw [List.length_singleton]
    omega
  rw [finish, ho, store_ok hstore]
  exact ⟨_, (length_splice hstore).trans hlen, rfl⟩

theorem round_end {s : ParseState} (hs : c.Inv s) (hsize : 1 ≤ c.outsize) (hend : c.pktlen ≤ s.pos) :
    ∃ out, out.length = c.out.length ∧
      c.round s = .done (if s.jumped then s.savedPos else s.pos, out) := by
  obtain ⟨out, hlen, hout⟩ := finish_eq hs hsize
  refine ⟨out, hlen, ?_⟩
  rw [round, parseRound, if_neg (Int.not_lt.mpr hend), hout]
  rfl

theorem round_root {s : ParseState} (hs : c.Inv s) (hsize : 1 ≤ c.outsize) (h : c.HasByte s.pos 0) :
    ∃ out, out.length = c.out.length ∧
      c.round s = .done (if s.jumped then s.savedPos else s.pos + 1, out) := by
  have hend : c.Inv { s with pos := s.pos + 1 } := ⟨hs.outPos_nonneg, hs.outPos_le, hs.out_length⟩
  obtain ⟨out, hlen, hout⟩ := finish_eq hend hsize
  refine ⟨out, hlen, ?_⟩
  rw [round_eq h, if_pos rfl, hout]
  rfl

end ParseCall

end DnsClient
