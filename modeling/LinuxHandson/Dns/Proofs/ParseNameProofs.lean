import LinuxHandson.Dns.Names

/-!
# Expanding a name

`parse_name` at a place where a name is stored writes the text of the name, dot by dot and label by
label, and returns the end of its part in place. The induction is on how the name is stored: a jump
only fixes the position that is returned.
-/

namespace DnsClient

open CLib

/-! ## Bytes that start a label or a pointer -/

/-- A property of all bytes that is checked one by one. -/
theorem forall_byte {P : UInt8 → Prop} (h : ∀ n, n < 256 → P (UInt8.ofNat n)) (b : UInt8) : P b := by
  have hb := h b.toNat b.toNat_lt
  rwa [UInt8.ofNat_toNat] at hb

theorem pointer_bits (b : UInt8) : b &&& 0xC0 = 0xC0 ↔ 0xC0 ≤ b :=
  forall_byte (P := fun b => b &&& 0xC0 = 0xC0 ↔ 0xC0 ≤ b) (by decide +kernel) b

theorem pointer_high (b : UInt8) (h : 0xC0 ≤ b) : (b &&& 0x3F).toNat = b.toNat - 0xC0 :=
  forall_byte (P := fun b => 0xC0 ≤ b → (b &&& 0x3F).toNat = b.toNat - 0xC0) (by decide +kernel) b h

theorem pointer_offset (high low : UInt8) (h : 0xC0 ≤ high) :
    (high &&& 0x3F).toNat <<< 8 ||| low.toNat = (high.toNat - 0xC0) * 256 + low.toNat := by
  rw [← Nat.shiftLeft_add_eq_or_of_lt low.toNat_lt, Nat.shiftLeft_eq, pointer_high high h]

theorem label_byte {n : Nat} (h0 : n ≠ 0) (h : n ≤ 63) :
    (UInt8.ofNat n).toNat = n ∧ UInt8.ofNat n ≠ 0 ∧ UInt8.ofNat n &&& 0xC0 ≠ 0xC0 := by
  have hn : (UInt8.ofNat n).toNat = n := UInt8.toNat_ofNat_of_lt' (show n < 256 by omega)
  refine ⟨hn, ?_, ?_⟩
  · intro hz
    rw [hz] at hn
    exact h0 hn.symm
  · rw [Ne, pointer_bits, UInt8.le_iff_toNat_le, hn]
    exact Nat.not_le.mpr (show n < 192 by omega)

/-! ## The text -/

/-- The text of the labels after the first. -/
def restText (labels : List (List UInt8)) : List UInt8 := labels.flatMap (dot :: ·)

theorem text_cons (label : List UInt8) (labels : List (List UInt8)) :
    text (label :: labels) = label ++ restText labels := by
  induction labels generalizing label with
  | nil =>
    rw [text, List.intercalate_singleton]
    exact (List.append_nil label).symm
  | cons l ls ih =>
    rw [text, List.intercalate_cons_cons, ← text, ih, List.append_assoc]
    rfl

/-- What is written for the labels when `o` bytes have been written. -/
def suffix (o : Nat) (labels : List (List UInt8)) : List UInt8 :=
  if o = 0 then text labels else restText labels

theorem suffix_nil (o : Nat) : suffix o [] = [] := by
  unfold suffix
  split
  · rfl
  · rfl

theorem suffix_cons (o : Nat) (label : List UInt8) (labels : List (List UInt8)) :
    suffix o (label :: labels) = (if o = 0 then [] else [dot]) ++ (label ++ restText labels) := by
  unfold suffix
  split
  · exact text_cons label labels
  · rfl

theorem suffix_pos {o : Nat} (h : 0 < o) (labels : List (List UInt8)) :
    suffix o labels = restText labels := if_neg (Nat.ne_of_gt h)

/-! ## One label -/

variable {pkt : List UInt8} {outsize : Nat}

theorem putDot_ok {s : ParseState} {o : Nat} (ho : s.outPos = o) (hlt : o + 1 < outsize)
    (hout : outsize ≤ s.out.length) :
    putDot outsize s =
      some { s with
        outPos := (o + (if o = 0 then [] else [dot]).length : Nat)
        out := splice s.out o (if o = 0 then [] else [dot]) } := by
  unfold putDot
  rw [ho]
  by_cases h0 : o = 0
  · rw [if_neg (by omega), if_pos h0, splice_nil]
    obtain ⟨pos, outPos, jumped, saved, out⟩ := s
    replace ho : outPos = o := ho
    subst ho
    rfl
  · rw [if_pos ⟨by omega, by omega⟩, if_neg h0, store_ok (by rw [List.length_singleton]; omega)]
    rfl

theorem copyLabel_ok (bytes : List UInt8) :
    ∀ {pos o : Nat} {jumped : Bool} {saved : Int} {out : List UInt8},
      (pkt.drop pos).take bytes.length = bytes → o + bytes.length < outsize →
        outsize ≤ out.length →
          copyLabel pkt pkt.length outsize bytes.length ⟨pos, o, jumped, saved, out⟩ =
            some ⟨(pos + bytes.length : Nat), (o + bytes.length : Nat), jumped, saved,
              splice out o bytes⟩ := by
  induction bytes with
  | nil =>
    intro pos o jumped saved out _ _ _
    rw [splice_nil]
    rfl
  | cons b bytes ih =>
    intro pos o jumped saved out hbytes hfit hout
    rw [List.length_cons] at hbytes hfit ⊢
    have hdrop : pkt.drop pos = b :: pkt.drop (pos + 1) := by
      rcases hd : pkt.drop pos with _ | ⟨c, cs⟩
      · rw [hd] at hbytes
        cases hbytes
      · rw [hd, List.take_succ_cons] at hbytes
        obtain ⟨rfl, -⟩ := List.cons.inj hbytes
        rw [← List.drop_drop, hd, List.drop_one, List.tail_cons]
    have hpos : pos < pkt.length := by
      rcases Nat.lt_or_ge pos pkt.length with h | h
      · exact h
      · rw [List.drop_eq_nil_of_le h] at hdrop
        cases hdrop
    have hget : pkt[pos]? = some b := by
      rw [← List.head?_drop, hdrop]
      rfl
    rw [hdrop, List.take_succ_cons] at hbytes
    obtain ⟨-, hbytes⟩ := List.cons.inj hbytes
    have hstore : o + [b].length ≤ out.length := by
      rw [List.length_singleton]
      omega
    have hlen : outsize ≤ (splice out o [b]).length := by
      rw [length_splice hstore]
      exact hout
    have hgo : (pos : Int) < pkt.length ∧ (o : Int) < outsize - 1 := by omega
    rw [copyLabel, if_pos hgo, byteAt_natCast, hget, Option.bind_some,
      store_ok hstore, Option.bind_some]
    have hrest := @ih (pos + 1) (o + 1) jumped saved (splice out o [b]) hbytes (by omega) hlen
    rw [show splice (splice out o [b]) (o + 1) bytes = splice out o (b :: bytes) from
      splice_splice hstore] at hrest
    rw [show pos + (bytes.length + 1) = pos + 1 + bytes.length by omega,
      show o + (bytes.length + 1) = o + 1 + bytes.length by omega]
    exact hrest

theorem lt_of_getElem? {pos : Nat} {b : UInt8} (h : pkt[pos]? = some b) : pos < pkt.length :=
  (List.getElem?_eq_some_iff.mp h).1

theorem parseRound_eq {s : ParseState} {pos : Nat} {b : UInt8} (hs : s.pos = pos)
    (hb : pkt[pos]? = some b) :
    parseRound pkt pkt.length outsize s =
      .ofOption (if b = 0 then (finish { s with pos := s.pos + 1 }).map .done
        else if b &&& 0xC0 = 0xC0 then (followPointer pkt s b).map .again
        else ((putDot outsize { s with pos := s.pos + 1 }).bind
          (copyLabel pkt pkt.length outsize b.toNat)).map .again) := by
  have hlt : s.pos < (pkt.length : Int) := by
    rw [hs]
    exact Int.ofNat_lt.mpr (lt_of_getElem? hb)
  rw [parseRound, if_pos hlt, hs, byteAt_natCast, hb, Option.bind_some]

theorem parseRound_root {pos o : Nat} {jumped : Bool} {saved : Int} {out : List UInt8}
    (h : pkt[pos]? = some 0) (hout : o < out.length) :
    parseRound pkt pkt.length outsize ⟨pos, o, jumped, saved, out⟩ =
      .done (if jumped then saved else (pos + 1 : Nat), splice out o [0]) := by
  rw [parseRound_eq rfl h, if_pos rfl, finish, store_ok hout]
  rfl

/-- A round at a label writes it, after a dot if it is not the first. -/
theorem parseRound_label {pos o : Nat} {jumped : Bool} {saved : Int} {out label : List UInt8}
    (hne : label ≠ []) (hlen : label.length ≤ 63)
    (h : pkt[pos]? = some (UInt8.ofNat label.length))
    (hbytes : (pkt.drop (pos + 1)).take label.length = label)
    (hfit : o + ((if o = 0 then [] else [dot]) ++ label).length < outsize)
    (hout : outsize ≤ out.length) :
    parseRound pkt pkt.length outsize ⟨pos, o, jumped, saved, out⟩ =
      .again ⟨(pos + 1 + label.length : Nat),
        (o + ((if o = 0 then [] else [dot]) ++ label).length : Nat), jumped, saved,
        splice out o ((if o = 0 then [] else [dot]) ++ label)⟩ := by
  obtain ⟨hn, h0, hbits⟩ := label_byte (fun hz => hne (List.eq_nil_of_length_eq_zero hz)) hlen
  have hpos : label.length ≠ 0 := fun hz => hne (List.eq_nil_of_length_eq_zero hz)
  rw [List.length_append, ← Nat.add_assoc] at hfit ⊢
  have hdot := @putDot_ok outsize ⟨(pos + 1 : Nat), o, jumped, saved, out⟩ o rfl (by omega) hout
  have hstore : o + (if o = 0 then [] else [dot]).length ≤ out.length := by omega
  have hlen' : outsize ≤ (splice out o (if o = 0 then [] else [dot])).length := by
    rw [length_splice hstore]
    exact hout
  have hcopy := @copyLabel_ok pkt outsize label _ _ jumped saved _ hbytes hfit hlen'
  rw [splice_splice hstore] at hcopy
  rw [parseRound_eq rfl h, if_neg h0, if_neg hbits, hn]
  show Round.ofOption (((putDot outsize ⟨(pos + 1 : Nat), o, jumped, saved, out⟩).bind _).map _) = _
  rw [hdot, Option.bind_some, hcopy]
  rfl

theorem parseRound_pointer {pos o : Nat} {jumped : Bool} {saved : Int} {out : List UInt8}
    {high low : UInt8} (hint : pkt.length < 2 ^ 31) (hhigh : pkt[pos]? = some high)
    (hlow : pkt[pos + 1]? = some low) (hbits : 0xC0 ≤ high) :
    parseRound pkt pkt.length outsize ⟨pos, o, jumped, saved, out⟩ =
      .again ⟨((high.toNat - 0xC0) * 256 + low.toNat : Nat), o, true,
        if jumped then saved else (pos + 2 : Nat), out⟩ := by
  have h0 : high ≠ 0 := by
    rintro rfl
    exact absurd hbits (by decide)
  have hlt := lt_of_getElem? hlow
  have hsaved : (if jumped then some saved else intArith ((pos : Int) + 2)) =
      some (if jumped then saved else (pos + 2 : Nat)) := by
    split
    · rfl
    · exact intArith_natCast (show pos + 2 < 2 ^ 31 by omega)
  rw [parseRound_eq rfl hhigh, if_neg h0, if_pos ((pointer_bits high).mpr hbits), followPointer]
  show Round.ofOption (((if jumped then some saved else intArith ((pos : Int) + 2)).bind _).map _) = _
  rw [hsaved, Option.bind_some,
    show byteAt pkt ((pos : Int) + 1) = some low from (byteAt_natCast pkt (pos + 1)).trans hlow,
    Option.map_some, Option.map_some, pointer_offset high low hbits]
  rfl

/-! ## The whole name -/

/-- Where a name is stored, the loop writes what is left of its text and a NUL. -/
theorem parse_nameAt (hint : pkt.length < 2 ^ 31) {pos next : Nat} {labels : List (List UInt8)}
    (h : NameAt pkt pos labels next) :
    ∀ {o : Nat} {jumped : Bool} {saved : Int} {out : List UInt8},
      o + (suffix o labels).length < outsize → outsize ≤ out.length →
        Ends (parseRound pkt pkt.length outsize) ⟨pos, o, jumped, saved, out⟩
          (if jumped then saved else next, splice out o (suffix o labels ++ [0])) := by
  induction h with
  | root h =>
    intro o jumped saved out hfit hout
    rw [suffix_nil] at hfit ⊢
    exact .done (parseRound_root h (by omega))
  | @label pos next label labels hne hlen h hbytes hrest ih =>
    intro o jumped saved out hfit hout
    rw [suffix_cons, ← List.append_assoc] at hfit ⊢
    generalize hhead : (if o = 0 then [] else [dot]) ++ label = head at hfit ⊢
    rw [List.length_append, ← Nat.add_assoc] at hfit
    have hround := @parseRound_label pkt outsize pos o jumped saved out label hne hlen h hbytes
      (by rw [hhead]; omega) hout
    rw [hhead] at hround
    have hpos : 0 < o + head.length := by
      have hlabel := List.length_pos_of_ne_nil hne
      rw [← hhead, List.length_append]
      omega
    have hstore : o + head.length ≤ out.length := by omega
    have hend := @ih (o + head.length) jumped saved (splice out o head)
      (by rw [suffix_pos hpos]; exact hfit) (by rw [length_splice hstore]; exact hout)
    rw [suffix_pos hpos, splice_splice hstore, ← List.append_assoc] at hend
    exact .again hround hend
  | @pointer pos target next high low labels hhigh hlow hbits htarget hback hrest ih =>
    intro o jumped saved out hfit hout
    have hround := @parseRound_pointer pkt outsize pos o jumped saved out high low hint hhigh hlow hbits
    rw [htarget] at hround
    have hend := @ih o true (if jumped then saved else (pos + 2 : Nat)) out hfit hout
    exact .again hround hend

/-- At every place of a packet where a name of at most 253 characters is stored, with pointers or
without, `parse_name` writes the text of the name and a NUL into a buffer of 256 bytes and returns the
end of the part in place. -/
theorem parse_name_expands {pkt : List UInt8} (hint : pkt.length < 2 ^ 31) {pos next : Nat}
    {labels : List (List UInt8)} (h : NameAt pkt pos labels next) (hfit : (text labels).length ≤ 253)
    {out : List UInt8} (hout : 256 ≤ out.length) :
    ParseName pkt pkt.length 256 pos out (next, splice out 0 (text labels ++ [0])) :=
  @parse_nameAt pkt 256 hint pos next labels h 0 false 0 out
    (show 0 + (text labels).length < 256 by omega) hout

/-- A name whose second label is a pointer: `a.b` at 4, after `b` at 0. -/
def twoNames : List UInt8 := [1, 0x62, 0, 0xFF, 1, 0x61, 0xC0, 0]

theorem parse_name_expands_twoNames :
    ParseName twoNames 8 256 4 (List.replicate 256 0)
      (8, splice (List.replicate 256 0) 0 ([0x61, 0x2E, 0x62] ++ [0])) := by
  have hb : NameAt twoNames 0 [[0x62]] 3 :=
    .label (by decide) (by decide) rfl rfl (.root rfl)
  have hname : NameAt twoNames 4 [[0x61], [0x62]] 8 :=
    .label (by decide) (by decide) rfl rfl (.pointer rfl rfl (by decide) rfl (by decide) hb)
  exact parse_name_expands (by decide) hname (by decide) (Nat.le_of_eq List.length_replicate.symm)

end DnsClient
