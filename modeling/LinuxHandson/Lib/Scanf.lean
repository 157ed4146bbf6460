import Mathlib.Data.List.Basic

/-!
# Fields of a text

The conversion `%Ns` of `sscanf` skips white space and takes the bytes up to the next one, at most `N`.
A text that is cut gives the fields that lie before the cut, and at most a part of one more.
-/

namespace CLib

/-- `isspace` in the C locale. -/
def isSpace (b : UInt8) : Bool := b == 0x20 || (0x09 ≤ b && b ≤ 0x0D)

/-- A conversion `%ns`: the field, and the text behind it. -/
def scanField (n : Nat) (s : List UInt8) : Option (List UInt8 × List UInt8) :=
  let t := s.dropWhile isSpace
  let w := (t.takeWhile fun b => !isSpace b).take n
  if w = [] then none else some (w, t.drop w.length)

/-- Conversions of some widths, one after the other. -/
def scanFields : List Nat → List UInt8 → Option (List (List UInt8))
  | [], _ => some []
  | n :: ns, s => (scanField n s).bind fun p => (scanFields ns p.2).map fun ws => p.1 :: ws

/-- Where the field behind those of some widths begins, if there is one. -/
def fieldAt : List Nat → List UInt8 → Option Nat
  | [], s => if s.dropWhile isSpace = [] then none else some (s.takeWhile isSpace).length
  | n :: ns, s =>
    (scanField n s).bind fun p => (fieldAt ns p.2).map fun a => s.length - p.2.length + a

variable {n k p : Nat} {before : List Nat} {s w rest : List UInt8}

/-! ## One field -/

@[simp] theorem scanField_nil (n : Nat) : scanField n [] = none := by
  simp [scanField]

theorem dropWhile_take (p : UInt8 → Bool) (s : List UInt8) (k : Nat) :
    (s.take k).dropWhile p = (s.dropWhile p).take (k - (s.takeWhile p).length) := by
  induction s generalizing k with
  | nil => simp
  | cons b s ih =>
    cases k with
    | zero => simp
    | succ k =>
      cases hb : p b with
      | true => simp [hb, ih]
      | false => simp [hb]

theorem scanField_eq_some (h : scanField n s = some (w, rest)) :
    w = ((s.dropWhile isSpace).takeWhile fun b => !isSpace b).take n ∧ w ≠ [] ∧
      rest = (s.dropWhile isSpace).drop w.length ∧
      s.length - rest.length = (s.takeWhile isSpace).length + w.length ∧ rest.length ≤ s.length := by
  unfold scanField at h
  simp only at h
  split at h
  · cases h
  · next hne =>
    obtain ⟨rfl, rfl⟩ := Prod.mk.inj (Option.some.inj h)
    refine ⟨rfl, hne, rfl, ?_⟩
    generalize hw : ((s.dropWhile isSpace).takeWhile fun b => !isSpace b).take n = w
    have hsplit := congrArg List.length (List.takeWhile_append_dropWhile (p := isSpace) (l := s))
    have hle : w.length ≤ (s.dropWhile isSpace).length := by
      rw [← hw]
      exact ((List.take_prefix n _).trans (List.takeWhile_prefix _)).length_le
    rw [List.length_append] at hsplit
    rw [List.length_drop]
    omega

theorem scanField_take (n k : Nat) (s : List UInt8) :
    scanField n (s.take k) =
      let j := k - (s.takeWhile isSpace).length
      let w := ((s.dropWhile isSpace).takeWhile fun b => !isSpace b).take n
      if w.take j = [] then none
      else some (w.take j, ((s.dropWhile isSpace).take j).drop (w.take j).length) := by
  unfold scanField
  simp only [dropWhile_take, ← List.take_takeWhile, List.take_take, Nat.min_comm n]

/-- A cut behind a field leaves the field. -/
theorem scanField_take_of_le (h : scanField n s = some (w, rest)) (hk : s.length - rest.length ≤ k) :
    scanField n (s.take k) = some (w, rest.take (k - (s.length - rest.length))) := by
  obtain ⟨hw, hne, hrest, hend, -⟩ := scanField_eq_some h
  have hall : w.take (k - (s.takeWhile isSpace).length) = w := List.take_of_length_le (by omega)
  rw [scanField_take]
  simp only [← hw, hall]
  rw [if_neg hne, List.drop_take, ← hrest, hend, Nat.sub_sub]

/-- A cut before the end of a field leaves nothing behind the field. -/
theorem scanField_take_of_lt (h : scanField n s = some (w, rest)) (hk : k < s.length - rest.length) :
    scanField n (s.take k) = none ∨ ∃ w', scanField n (s.take k) = some (w', []) := by
  obtain ⟨hw, hne, hrest, hend, -⟩ := scanField_eq_some h
  have hlen : (w.take (k - (s.takeWhile isSpace).length)).length =
      k - (s.takeWhile isSpace).length := by
    rw [List.length_take]
    omega
  rw [scanField_take]
  simp only [← hw, hlen]
  split
  · exact Or.inl rfl
  · right
    refine ⟨_, congrArg some (Prod.ext rfl ?_)⟩
    exact List.drop_of_length_le (List.length_take_le _ _)

theorem scanField_take_none (h : scanField n s = none) : scanField n (s.take k) = none := by
  unfold scanField at h
  simp only at h
  split at h
  · next hnil =>
    rw [scanField_take]
    simp only [hnil, List.take_nil, if_true]
  · cases h

/-- There is a field where a text is more than white space. -/
theorem scanField_isSome (hn : 0 < n) : (scanField n s).isSome ↔ s.dropWhile isSpace ≠ [] := by
  unfold scanField
  cases ht : s.dropWhile isSpace with
  | nil => simp
  | cons b t =>
    have hhead : isSpace b = false := by
      have hnot := List.head_dropWhile_not isSpace (l := s) (by rw [ht]; exact List.cons_ne_nil b t)
      simpa only [ht, List.head_cons] using hnot
    obtain ⟨m, rfl⟩ := Nat.exists_eq_add_of_le' hn
    simp [hhead]

/-! ## Several fields -/

theorem scanFields_nil (before : List Nat) (n : Nat) : scanFields (before ++ [n]) [] = none := by
  cases before <;> simp [scanFields]

theorem scanFields_single (hn : 0 < n) :
    (s.dropWhile isSpace = [] → scanFields [n] s = none) ∧
      (s.dropWhile isSpace ≠ [] → ∃ w, scanFields [n] s = some [w]) := by
  have hsome := @scanField_isSome n s hn
  constructor
  · intro hnil
    have hnone : scanField n s = none := by
      rw [← Option.not_isSome_iff_eq_none, hsome]
      exact not_not.mpr hnil
    rw [scanFields, hnone, Option.bind_none]
  · intro hne
    obtain ⟨p, hp⟩ := Option.isSome_iff_exists.mp (hsome.mpr hne)
    exact ⟨p.1, by rw [scanFields, hp, Option.bind_some, scanFields, Option.map_some]⟩

/-- A text without the last of some fields, cut or not. -/
theorem scanFields_take_none (hn : 0 < n) (h : fieldAt before s = none) (k : Nat) :
    scanFields (before ++ [n]) (s.take k) = none := by
  induction before generalizing s k with
  | nil =>
    refine (scanFields_single hn).1 ?_
    unfold fieldAt at h
    split at h
    · next hnil => rw [dropWhile_take, hnil, List.take_nil]
    · cases h
  | cons m ms ih =>
    rw [List.cons_append, scanFields]
    rcases hm : scanField m s with _ | ⟨w, rest⟩
    · rw [scanField_take_none hm, Option.bind_none]
    · rw [fieldAt, hm, Option.bind_some, Option.map_eq_none_iff] at h
      rcases Nat.lt_or_ge k (s.length - rest.length) with hlt | hge
      · rcases scanField_take_of_lt hm hlt with hnone | ⟨w', hsome⟩
        · rw [hnone, Option.bind_none]
        · rw [hsome, Option.bind_some, scanFields_nil, Option.map_none]
      · rw [scanField_take_of_le hm hge, Option.bind_some, ih h, Option.map_none]

/-- A text with all of some fields keeps all but the last one if it is cut behind the beginning of that
one, and else has not all of them. -/
theorem scanFields_take_some (hn : 0 < n) (h : fieldAt before s = some p) :
    p < s.length ∧ ∃ ws, ws.length = before.length ∧ ∀ k,
      (k ≤ p → scanFields (before ++ [n]) (s.take k) = none) ∧
      (p < k → ∃ w, scanFields (before ++ [n]) (s.take k) = some (ws ++ [w])) := by
  induction before generalizing s p with
  | nil =>
    unfold fieldAt at h
    split at h
    · cases h
    · next hne =>
      obtain rfl := Option.some.inj h
      have hlen := congrArg List.length (List.takeWhile_append_dropWhile (p := isSpace) (l := s))
      have hpos := List.length_pos_iff.mpr hne
      rw [List.length_append] at hlen
      refine ⟨by omega, [], rfl, fun k => ⟨fun hk => ?_, fun hk => ?_⟩⟩
      · refine (scanFields_single hn).1 ?_
        rw [dropWhile_take, Nat.sub_eq_zero_of_le hk, List.take_zero]
      · refine (scanFields_single hn).2 ?_
        rw [dropWhile_take, ne_eq, List.take_eq_nil_iff]
        rintro (hzero | hnil)
        · omega
        · exact hne hnil
  | cons m ms ih =>
    rw [fieldAt] at h
    rcases hm : scanField m s with _ | ⟨w, rest⟩
    · rw [hm] at h
      cases h
    · rw [hm, Option.bind_some] at h
      obtain ⟨q, hq, rfl⟩ := Option.map_eq_some_iff.mp h
      obtain ⟨hlt, ws, hlen, hcut⟩ := ih hq
      obtain ⟨-, -, -, -, hle⟩ := scanField_eq_some hm
      simp only at hlt hcut ⊢
      refine ⟨by omega, w :: ws, congrArg (· + 1) hlen, fun k => ?_⟩
      rw [List.cons_append, scanFields]
      constructor
      · intro hk
        rcases Nat.lt_or_ge k (s.length - rest.length) with hbefore | hbehind
        · rcases scanField_take_of_lt hm hbefore with hnone | ⟨w', hsome⟩
          · rw [hnone, Option.bind_none]
          · rw [hsome, Option.bind_some, scanFields_nil, Option.map_none]
        · rw [scanField_take_of_le hm hbehind, Option.bind_some, (hcut _).1 (by omega), Option.map_none]
      · intro hk
        obtain ⟨v, hv⟩ := (hcut (k - (s.length - rest.length))).2 (by omega)
        exact ⟨v, by rw [scanField_take_of_le hm (by omega), Option.bind_some, hv, Option.map_some,
          List.cons_append]⟩

end CLib
