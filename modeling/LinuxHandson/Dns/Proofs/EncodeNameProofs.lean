import LinuxHandson.Dns.Proofs.ParseNameProofs

/-!
# Encoding a name

`encode_name` writes the wire format of a name label by label, and refuses a name exactly when the
buffer is too small for it, root byte included. What it has written is expanded by `parse_name` to the
name again. The exception is the single dot, which it takes for an empty label.
-/

namespace DnsClient

open CLib

/-! ## The wire format -/

theorem wire_cons (label : List UInt8) (labels : List (List UInt8)) :
    wire (label :: labels) = wireLabel label ++ wire labels := by
  rw [wire, List.flatMap_cons, List.append_assoc, ← wire]

theorem length_wireLabel (label : List UInt8) : (wireLabel label).length = label.length + 1 := rfl

theorem length_wire_cons (label : List UInt8) (labels : List (List UInt8)) :
    (wire (label :: labels)).length = label.length + 1 + (wire labels).length := by
  rw [wire_cons, List.length_append, length_wireLabel]

theorem length_wire_pos (labels : List (List UInt8)) : 0 < (wire labels).length := by
  rw [wire, List.length_append]
  exact Nat.succ_pos _

/-- The text of a name is two bytes shorter than its wire format, the root apart. -/
theorem length_restText (labels : List (List UInt8)) :
    (restText labels).length + 1 = (wire labels).length := by
  induction labels with
  | nil => rfl
  | cons label labels ih =>
    rw [length_wire_cons, ← ih, restText, List.flatMap_cons, List.length_append, List.length_cons,
      restText]
    omega

theorem nameAt_wire {labels : List (List UInt8)} (hl : ∀ label ∈ labels, IsLabel label)
    (before : List UInt8) :
    NameAt (before ++ wire labels) before.length labels (before.length + (wire labels).length) := by
  induction labels generalizing before with
  | nil =>
    refine .root ?_
    rw [List.getElem?_append_right (Nat.le_refl _), Nat.sub_self]
    rfl
  | cons label labels ih =>
    have hlabel := hl label List.mem_cons_self
    have hrest := ih (fun l h => hl l (List.mem_cons_of_mem _ h)) (before ++ wireLabel label)
    rw [List.length_append, length_wireLabel, List.append_assoc, ← wire_cons] at hrest
    have hbytes : ((before ++ wire (label :: labels)).drop (before.length + 1)).take label.length =
        label := by
      rw [← List.drop_drop, List.drop_left, wire_cons]
      exact List.take_left
    have hfirst : (before ++ wire (label :: labels))[before.length]? =
        some (UInt8.ofNat label.length) := by
      rw [List.getElem?_append_right (Nat.le_refl _), Nat.sub_self, wire_cons]
      rfl
    rw [length_wire_cons]
    have hend := NameAt.label hlabel.nonempty hlabel.length_le hfirst hbytes
      (by rw [Nat.add_assoc, Nat.add_comm 1]; exact hrest)
    rw [show before.length + (label.length + 1 + (wire labels).length) =
      before.length + (label.length + 1) + (wire labels).length by omega]
    exact hend

/-! ## One label of a text -/

/-- The text of a name after its first label. -/
def tailText (labels : List (List UInt8)) (trailing : Bool) : List UInt8 :=
  restText labels ++ if trailing then [dot] else []

theorem domain_cons (label : List UInt8) (labels : List (List UInt8)) (trailing : Bool) :
    domain (label :: labels) trailing = label ++ tailText labels trailing := by
  rw [domain, text_cons, List.append_assoc, tailText]

/-- After a label the text ends or goes on with a dot. -/
theorem tailText_cases (labels : List (List UInt8)) (trailing : Bool) :
    tailText labels trailing = [] ∨ ∃ more, tailText labels trailing = dot :: more := by
  cases labels with
  | nil =>
    cases trailing with
    | false => exact .inl rfl
    | true => exact .inr ⟨[], rfl⟩
  | cons label labels => exact .inr ⟨label ++ tailText labels trailing, by simp [tailText, restText]⟩

/-- Behind the dot there is the text of the other labels. The dot at the end is skipped with the last
label. -/
theorem tailText_drop (labels : List (List UInt8)) (trailing : Bool) :
    (tailText labels trailing).drop 1 = domain labels (trailing && !labels.isEmpty) := by
  cases labels with
  | nil =>
    cases trailing with
    | false => rfl
    | true => rfl
  | cons label labels =>
    rw [List.isEmpty_cons, Bool.not_false, Bool.and_true, domain_cons, tailText, restText,
      List.flatMap_cons]
    exact List.append_assoc _ _ _

variable {p : CStr} {label tail : List UInt8}

theorem labelLen_cInt (hp : p.bytes = label ++ tail) (hdot : dot ∉ label)
    (htail : tail = [] ∨ ∃ more, tail = dot :: more) : labelLen p = cInt label.length := by
  unfold labelLen strchr
  rcases htail with rfl | ⟨more, rfl⟩
  · rw [List.append_nil] at hp
    rw [if_neg (by rw [hp]; exact hdot)]
    show cInt (p.bytes.length : Int) = _
    rw [hp]
  · have hmem : dot ∈ p.bytes := by
      rw [hp]
      exact List.mem_append_right _ List.mem_cons_self
    have hidx : p.bytes.idxOf dot = label.length := by
      rw [hp, List.idxOf_append_of_notMem hdot, List.idxOf_cons_self, Nat.add_zero]
    rw [if_pos hmem, hidx]
    show cInt ((p.bytes.length : Int) - ((p.bytes.drop label.length).length : Int)) = _
    rw [hp, List.drop_left, List.length_append]
    rw [show (((label.length + (dot :: more).length : Nat) : Int) - ((dot :: more).length : Int)) =
      label.length by omega]

theorem labelLen_eq (hp : p.bytes = label ++ tail) (hlt : label.length < 2 ^ 31)
    (hdot : dot ∉ label) (htail : tail = [] ∨ ∃ more, tail = dot :: more) :
    labelLen p = label.length := by
  rw [labelLen_cInt hp hdot htail]
  exact cInt_of_lt (by omega) (by omega)

/-- The loop goes on behind the dot. -/
theorem skipLabel_bytes (hp : p.bytes = label ++ tail)
    (htail : tail = [] ∨ ∃ more, tail = dot :: more) :
    (skipLabel p label.length).bytes = tail.drop 1 := by
  have hdrop : (p.offset label.length).bytes = tail := by
    rw [CStr.offset_bytes, hp, List.drop_left]
  unfold skipLabel
  rw [CStr.charAt, hdrop]
  rcases htail with rfl | ⟨more, rfl⟩
  · rw [if_neg (by decide), hdrop]
    rfl
  · have hdot : (dot :: more).getD 0 0 = dot := rfl
    rw [if_pos hdot, CStr.offset_bytes, ← List.drop_drop, ← CStr.offset_bytes, hdrop]

/-! ## The labels of a text -/

theorem nameLabels_nil : nameLabels [] = [] := by
  unfold nameLabels
  rfl

theorem takeWhile_label {b : List UInt8} (hb : b = label ++ tail) (hdot : dot ∉ label)
    (htail : tail = [] ∨ ∃ more, tail = dot :: more) : b.takeWhile (· != dot) = label := by
  have hall : ∀ a ∈ label, (a != dot) = true := by
    intro a ha
    rw [bne_iff_ne]
    rintro rfl
    exact hdot ha
  rw [hb, List.takeWhile_append_of_pos hall]
  rcases htail with rfl | ⟨more, rfl⟩
  · simp
  · simp

/-- A text that starts with a label without a dot. -/
theorem nameLabels_append (hne : label ≠ []) (hdot : dot ∉ label)
    (htail : tail = [] ∨ ∃ more, tail = dot :: more) :
    nameLabels (label ++ tail) = label :: nameLabels (tail.drop 1) := by
  have htake := takeWhile_label rfl hdot htail
  have hdrop : (label ++ tail).dropWhile (· != dot) = tail := by
    have hsplit := List.takeWhile_append_dropWhile (p := (· != dot)) (l := label ++ tail)
    rw [htake] at hsplit
    exact List.append_cancel_left hsplit
  obtain ⟨b, text, hb⟩ := List.exists_cons_of_ne_nil hne
  rw [hb, List.cons_append] at htake hdrop ⊢
  rw [nameLabels, htake, hdrop]

/-- A text that is not empty has a first label. -/
theorem split_firstLabel {b : List UInt8} (h : b ≠ []) :
    ∃ label tail, b = label ++ tail ∧ dot ∉ label ∧ (tail = [] ∨ ∃ more, tail = dot :: more) ∧
      nameLabels b = label :: nameLabels (tail.drop 1) := by
  refine ⟨b.takeWhile (· != dot), b.dropWhile (· != dot), (List.takeWhile_append_dropWhile).symm,
    not_mem_takeWhile_ne dot b, ?_, ?_⟩
  · rcases hd : b.dropWhile (· != dot) with _ | ⟨a, more⟩
    · exact .inl rfl
    · have ha := List.head?_dropWhile_not (· != dot) b
      rw [hd] at ha
      right
      exact ⟨more, by simpa using ha⟩
  · obtain ⟨a, text, rfl⟩ := List.exists_cons_of_ne_nil h
    rw [nameLabels]

/-! ## One round -/

variable {bufsize k : Nat} {buf : List UInt8}

/-- After the last label the root byte is written, if it fits. -/
theorem encodeRound_root (hp : p.bytes = []) (hbuf : bufsize ≤ buf.length) :
    encodeRound bufsize ⟨p, k, buf⟩ =
      if bufsize ≤ k then .done (-1, buf) else .done ((k + 1 : Nat), splice buf k [0]) := by
  rw [encodeRound, if_pos hp, putRoot]
  split
  · next h =>
    rw [if_pos (Int.ofNat_le.mp h)]
    rfl
  · next h =>
    have hlt : ¬ bufsize ≤ k := fun hle => h (Int.ofNat_le.mpr hle)
    have hroot : k + [(0 : UInt8)].length ≤ buf.length := by
      rw [List.length_singleton]
      omega
    rw [if_neg hlt]
    show Round.ofOption (((store buf k [0]).map _).map _) = _
    rw [store_ok hroot]
    rfl

/-- A label is written if it leaves room for one byte more. -/
theorem encodeRound_label (hne : p.bytes ≠ []) (hp : p.bytes = label ++ tail) (hdot : dot ∉ label)
    (htail : tail = [] ∨ ∃ more, tail = dot :: more) (hk : k + (label.length + 1) < 2 ^ 31)
    (hbuf : bufsize ≤ buf.length) :
    encodeRound bufsize ⟨p, k, buf⟩ =
      if bufsize ≤ k + (label.length + 1) then .done (-1, buf)
      else .again ⟨skipLabel p label.length, (k + (label.length + 1) : Nat),
        splice buf k (wireLabel label)⟩ := by
  have hlen := labelLen_eq hp (by omega) hdot htail
  have hlast : (k : Int) + 1 + labelLen p = (k + (label.length + 1) : Nat) := by omega
  rw [encodeRound, if_neg hne]
  show Round.ofOption ((intArith ((k : Int) + 1 + labelLen p)).bind _) = _
  rw [hlast, intArith_natCast hk, Option.bind_some]
  split
  · next h =>
    rw [if_pos (Int.ofNat_le.mp h)]
    rfl
  · next h =>
    have hlt : ¬ bufsize ≤ k + (label.length + 1) := fun hle => h (Int.ofNat_le.mpr hle)
    have hfirst : k + [UInt8.ofNat label.length].length ≤ buf.length := by
      rw [List.length_singleton]
      omega
    have hrest : k + 1 + label.length ≤ (splice buf k [UInt8.ofNat label.length]).length := by
      rw [length_splice hfirst]
      omega
    have hput : putLabel ⟨p, k, buf⟩ = some ⟨skipLabel p label.length,
        (k + (label.length + 1) : Nat), splice buf k (wireLabel label)⟩ := by
      unfold putLabel
      rw [if_neg (by rw [hlen]; omega), hlen, Int.toNat_natCast, store_ok hfirst, Option.bind_some,
        hp, List.take_left]
      show (store _ ((k + 1 : Nat) : Int) label).map _ = _
      rw [store_ok hrest, Option.map_some,
        show splice (splice buf k [UInt8.ofNat label.length]) (k + 1) label =
          splice buf k (wireLabel label) from splice_splice hfirst]
      rw [show (k : Int) + 1 + label.length = (k + (label.length + 1) : Nat) by omega]
    rw [if_neg hlt, hput]
    rfl

/-! ## The whole name -/

theorem encode_root (hp : p.bytes = []) (hbuf : bufsize ≤ buf.length) :
    (k + (wire (nameLabels p.bytes)).length ≤ bufsize → Ends (encodeRound bufsize) ⟨p, k, buf⟩
      ((k + (wire (nameLabels p.bytes)).length : Nat), splice buf k (wire (nameLabels p.bytes)))) ∧
    (bufsize < k + (wire (nameLabels p.bytes)).length →
      ∃ encoded, Ends (encodeRound bufsize) ⟨p, k, buf⟩ (-1, encoded)) := by
  have hround := encodeRound_root (k := k) hp hbuf
  have hlen : (wire []).length = 1 := rfl
  rw [hp, nameLabels_nil, hlen]
  refine ⟨?_, ?_⟩
  · intro hfit
    rw [if_neg (by omega)] at hround
    exact .done hround
  · intro hsmall
    rw [if_pos (by omega)] at hround
    exact ⟨buf, .done hround⟩

/-- From any place of the buffer on, the labels that are left are written if their wire format fits. -/
theorem encode_nameLabels (n : Nat) :
    ∀ {p : CStr} {k : Nat} {buf : List UInt8}, p.bytes.length ≤ n →
      k + (wire (nameLabels p.bytes)).length < 2 ^ 31 → bufsize ≤ buf.length →
        (k + (wire (nameLabels p.bytes)).length ≤ bufsize → Ends (encodeRound bufsize) ⟨p, k, buf⟩
          ((k + (wire (nameLabels p.bytes)).length : Nat), splice buf k (wire (nameLabels p.bytes)))) ∧
        (bufsize < k + (wire (nameLabels p.bytes)).length →
          ∃ encoded, Ends (encodeRound bufsize) ⟨p, k, buf⟩ (-1, encoded)) := by
  induction n with
  | zero =>
    intro p k buf hn _ hbuf
    have hnil : p.bytes = [] := List.eq_nil_of_length_eq_zero (Nat.le_zero.mp hn)
    exact encode_root hnil hbuf
  | succ n ih =>
    intro p k buf hn hint hbuf
    by_cases hnil : p.bytes = []
    · exact encode_root hnil hbuf
    · obtain ⟨label, tail, hp, hdot, htail, hlabels⟩ := split_firstLabel hnil
      have hrest := length_wire_pos (nameLabels (tail.drop 1))
      have hskip := skipLabel_bytes hp htail
      rw [hlabels, length_wire_cons, ← Nat.add_assoc] at hint ⊢
      have hround := encodeRound_label (k := k) hnil hp hdot htail (by omega) hbuf
      by_cases hsmall : bufsize ≤ k + (label.length + 1)
      · rw [if_pos hsmall] at hround
        refine ⟨fun hfit => ?_, fun _ => ⟨buf, .done hround⟩⟩
        omega
      · rw [if_neg hsmall] at hround
        have hstore : k + (wireLabel label).length ≤ buf.length := by
          rw [length_wireLabel]
          omega
        have hshort : (skipLabel p label.length).bytes.length ≤ n := by
          have htaillen : (tail.drop 1).length ≤ n := by
            have hsum := congrArg List.length hp
            rw [List.length_append] at hsum
            rw [List.length_drop]
            rcases htail with rfl | ⟨more, rfl⟩
            · exact Nat.zero_le n
            · rw [List.length_cons] at hsum ⊢
              omega
          rw [hskip]
          exact htaillen
        obtain ⟨hfits, hrefused⟩ := @ih (skipLabel p label.length) (k + (label.length + 1))
          (splice buf k (wireLabel label)) hshort (by rw [hskip]; exact hint)
          (by rw [length_splice hstore]; exact hbuf)
        rw [hskip] at hfits hrefused
        refine ⟨fun hfit => ?_, fun hsmall' => ?_⟩
        · have hend := hfits hfit
          rw [show splice (splice buf k (wireLabel label)) (k + (label.length + 1))
            (wire (nameLabels (tail.drop 1))) = splice buf k (wire (label :: nameLabels (tail.drop 1)))
            by rw [wire_cons]; exact splice_splice hstore] at hend
          exact .again hround hend
        · obtain ⟨encoded, hend⟩ := hrefused hsmall'
          exact ⟨encoded, .again hround hend⟩

theorem nameLabels_domain {labels : List (List UInt8)} (hl : ∀ label ∈ labels, IsLabel label) :
    ∀ {trailing : Bool}, (labels = [] → trailing = false) →
      nameLabels (domain labels trailing) = labels := by
  induction labels with
  | nil =>
    intro trailing htrailing
    rw [htrailing rfl]
    exact nameLabels_nil
  | cons label labels ih =>
    intro trailing _
    have hlabel := hl label List.mem_cons_self
    have hlast : labels = [] → (trailing && !labels.isEmpty) = false := by
      rintro rfl
      exact Bool.and_false trailing
    rw [domain_cons, nameLabels_append hlabel.nonempty hlabel.noDot (tailText_cases labels trailing),
      tailText_drop, ih (fun l h => hl l (List.mem_cons_of_mem _ h)) hlast]

/-- A single dot is taken for an empty label before the root, and two zero bytes are written. -/
theorem encode_singleDot (hp : p.bytes = [dot]) (hbuf : bufsize ≤ buf.length) :
    ∃ encoded, EncodeName p buf bufsize (if bufsize ≤ 1 then -1 else 2, encoded) := by
  have hne : p.bytes ≠ [] := by
    rw [hp]
    exact List.cons_ne_nil _ _
  have htail : [dot] = [] ∨ ∃ more, [dot] = dot :: more := .inr ⟨[], rfl⟩
  have hround := @encodeRound_label p [] [dot] bufsize 0 buf hne hp List.not_mem_nil
    htail (show 0 + (0 + 1) < 2 ^ 31 by decide) hbuf
  rw [List.length_nil, Nat.zero_add] at hround
  by_cases hsmall : bufsize ≤ 1
  · rw [if_pos hsmall] at hround ⊢
    exact ⟨buf, .done hround⟩
  · rw [if_neg hsmall] at hround ⊢
    have hlen : bufsize ≤ (splice buf 0 (wireLabel [])).length := by
      rw [length_splice (by rw [length_wireLabel, List.length_nil]; omega)]
      exact hbuf
    have hend : (skipLabel p 0).bytes = [] := @skipLabel_bytes p [] [dot] hp htail
    have hroot := encodeRound_root (k := 1) hend hlen
    rw [if_neg hsmall] at hroot
    exact ⟨_, .again hround (.done hroot)⟩

theorem encoded_refused {labels : List (List UInt8)} (h : bufsize < (wire labels).length)
    (encoded : List UInt8) : Encoded labels bufsize (-1) encoded := by
  refine ⟨?_, fun hne => absurd rfl hne, fun hne => absurd rfl hne⟩
  exact ⟨fun _ => h, fun _ => rfl⟩

/-- `parse_name` expands what was written. -/
theorem encoded_wire {labels : List (List UInt8)} (hl : ∀ label ∈ labels, IsLabel label)
    (hint : (wire labels).length < 2 ^ 31) (hnul : 0 ∉ text labels)
    (hfit : (wire labels).length ≤ bufsize) :
    Encoded labels bufsize (wire labels).length (splice buf 0 (wire labels)) := by
  refine ⟨?_, fun _ => rfl, ?_⟩
  · constructor
    · intro h
      omega
    · intro h
      omega
  · intro _ out outsize htext hout
    have htake : (splice buf 0 (wire labels)).take (wire labels).length = wire labels := by
      rw [splice, List.take_zero, List.nil_append]
      exact List.take_left
    have hname := nameAt_wire hl []
    rw [List.nil_append, List.length_nil, Nat.zero_add] at hname
    have hsuffix : suffix 0 labels = text labels := if_pos rfl
    have hend := @parse_nameAt (wire labels) outsize hint 0 _ labels hname 0 false 0 out
      (by rw [hsuffix]; omega) hout
    rw [hsuffix] at hend
    refine ⟨splice out 0 (text labels ++ [0]), ?_, ?_⟩
    · rw [Int.toNat_natCast, htake]
      exact hend
    · rw [splice, List.take_zero, List.nil_append, List.append_assoc]
      exact CStr.ofBuf_append_nul hnul _

/-- The wire format has a length byte for each label and the root byte, the text the dots between. -/
theorem length_wire_le (labels : List (List UInt8)) :
    (wire labels).length ≤ (text labels).length + 2 := by
  rw [← length_restText]
  cases labels with
  | nil => exact Nat.le_add_left _ _
  | cons label labels =>
    rw [text_cons, restText, List.flatMap_cons, List.length_append, List.length_append,
      List.length_cons, restText]
    omega

/-- A name of at most 253 characters, with or without a dot at the end, is refused exactly when the
buffer is smaller than its wire format, and otherwise encoded to bytes that `parse_name` expands to the
name without that dot. This holds of every name but the root as a single dot, and of that only when the
buffer has no byte. -/
theorem round_trip_iff {labels : List (List UInt8)} {trailing : Bool} {name : CStr}
    {buf : List UInt8} {bufsize : Nat} (hl : ∀ label ∈ labels, IsLabel label)
    (htext : (text labels).length ≤ 253) (hname : name.bytes = domain labels trailing)
    (hbuf : bufsize ≤ buf.length) :
    RoundTrip name labels buf bufsize ↔ ¬ (labels = [] ∧ trailing = true) ∨ bufsize = 0 := by
  by_cases hroot : labels = [] ∧ trailing = true
  · obtain ⟨rfl, rfl⟩ := hroot
    obtain ⟨encoded, hend⟩ := encode_singleDot (p := name) hname hbuf
    have hlen : (wire []).length = 1 := rfl
    constructor
    · rintro ⟨ret, encoded', hend', hspec⟩
      obtain ⟨hret, -⟩ := Prod.mk.inj (hend'.unique hend)
      have hiff := hspec.refused_iff
      have hlength := hspec.length_eq
      rw [hlen] at hiff hlength
      split at hret
      · exact .inr (by omega)
      · omega
    · rintro (h | rfl)
      · exact absurd ⟨rfl, rfl⟩ h
      · exact ⟨-1, encoded, hend, encoded_refused (by decide) encoded⟩
  · have htrailing : labels = [] → trailing = false := by
      intro h
      rcases Bool.eq_false_or_eq_true trailing with ht | hf
      · exact absurd ⟨h, ht⟩ hroot
      · exact hf
    have hwire := length_wire_le labels
    have hnul : 0 ∉ text labels := by
      intro h
      refine name.nulFree ?_
      rw [hname]
      exact List.mem_append_left _ h
    have hlabels : nameLabels name.bytes = labels := by
      rw [hname]
      exact nameLabels_domain hl htrailing
    obtain ⟨hfits, hrefused⟩ := @encode_nameLabels bufsize name.bytes.length name 0 buf le_rfl
      (by rw [hlabels]; omega) hbuf
    rw [hlabels, Nat.zero_add] at hfits hrefused
    refine ⟨fun _ => .inl hroot, fun _ => ?_⟩
    rcases Nat.lt_or_ge bufsize (wire labels).length with hsmall | hfit
    · obtain ⟨encoded, hend⟩ := hrefused hsmall
      exact ⟨-1, encoded, hend, encoded_refused hsmall encoded⟩
    · exact ⟨_, _, hfits hfit, encoded_wire hl (by omega) hnul hfit⟩

/-- The text `a.b.`. -/
def trailingDot : CStr := ⟨[0x61, 0x2E, 0x62, 0x2E], by decide⟩

theorem round_trip_trailingDot :
    RoundTrip trailingDot [[0x61], [0x62]] (List.replicate 5 0) 5 := by
  have hl : ∀ label ∈ [[0x61], [0x62]], IsLabel label := by
    intro label h
    rcases List.mem_cons.mp h with rfl | h
    · exact ⟨by decide, by decide, by decide, by decide⟩
    · rw [List.mem_singleton.mp h]
      exact ⟨by decide, by decide, by decide, by decide⟩
  have hname : trailingDot.bytes = domain [[0x61], [0x62]] true := rfl
  refine (round_trip_iff hl (by decide) hname (Nat.le_refl 5)).mpr (.inl ?_)
  rintro ⟨h, -⟩
  cases h

/-- The root written as a single dot. -/
def singleDot : CStr := ⟨[dot], by decide⟩

/-- Two bytes are written where the wire format of the root has one. -/
theorem singleDot_twoBytes : ¬ RoundTrip singleDot [] [0xFF, 0xFF] 2 := by
  rintro ⟨ret, encoded, hend, hspec⟩
  obtain ⟨encoded', hend'⟩ := @encode_singleDot singleDot 2 [0xFF, 0xFF] rfl (Nat.le_refl 2)
  obtain ⟨rfl, -⟩ := Prod.mk.inj (hend.unique hend')
  have hlength := hspec.length_eq (by decide)
  exact absurd hlength (by decide)

end DnsClient
