import Mathlib.Algebra.Group.Nat.Defs
import Mathlib.Data.List.GetD
import Mathlib.Data.List.TakeWhile

/-!
# C strings

A C string is a byte string without the NUL byte, which ends it in memory. The functions of
`<string.h>` and `<strings.h>` that return an `int` return what glibc does in the C locale: the
difference of the first two bytes that differ, read as `unsigned char`.
-/

namespace CLib

/-- A C string: its bytes up to the terminating NUL. -/
structure CStr where
  /-- The bytes before the NUL. -/
  bytes : List UInt8
  /-- None of them is the NUL byte. -/
  nulFree : 0 ∉ bytes
deriving DecidableEq

namespace CStr

theorem ext_bytes {s t : CStr} (h : s.bytes = t.bytes) : s = t := by
  cases s; cases t; simpa using h

theorem bytes_inj {s t : CStr} : s.bytes = t.bytes ↔ s = t :=
  ⟨ext_bytes, fun h => h ▸ rfl⟩

/-- The string that starts at the first byte of a buffer. -/
def ofBuf (b : List UInt8) : CStr where
  bytes := b.takeWhile (· != 0)
  nulFree := by
    intro h
    have := List.mem_takeWhile_imp h
    simp at this

/-- `s + n` as a pointer, for `n ≤ strlen(s)`. -/
def offset (s : CStr) (n : Nat) : CStr where
  bytes := s.bytes.drop n
  nulFree := fun h => s.nulFree (List.mem_of_mem_drop h)

/-- `s[i]`, the NUL included. -/
def charAt (s : CStr) (i : Nat) : UInt8 := s.bytes.getD i 0

@[simp] theorem offset_bytes (s : CStr) (n : Nat) : (s.offset n).bytes = s.bytes.drop n := rfl

/-- The text of a list of ASCII characters. -/
def ascii (cs : List Char) : List UInt8 := cs.map fun c => UInt8.ofNat c.toNat

end CStr

/-- The slash that separates the components of a path. -/
def slash : UInt8 := 0x2F

theorem slash_nulFree : 0 ∉ [slash] := by decide

/-- The comparison of two strings, each byte first mapped by `f`. -/
def cmpBytes (f : UInt8 → UInt8) : List UInt8 → List UInt8 → Int
  | [], [] => 0
  | [], b :: _ => -((f b).toNat : Int)
  | a :: _, [] => (f a).toNat
  | a :: s, b :: t =>
    if f a = f b then cmpBytes f s t else ((f a).toNat : Int) - (f b).toNat

/-- `tolower` in the C locale. -/
def toLower (b : UInt8) : UInt8 := if 0x41 ≤ b ∧ b ≤ 0x5A then b + 0x20 else b

/-- `strlen(s)` -/
def strlen (s : CStr) : Nat := s.bytes.length

/-- `strlen` of a buffer, which has no result if the buffer has no NUL. -/
def strlenIn (b : List UInt8) : Option Nat :=
  if 0 ∈ b then some (strlen (.ofBuf b)) else none

/-- What `%d` prints. -/
def decimal (x : Int) : List UInt8 :=
  (if x < 0 then [0x2D] else []) ++ CStr.ascii (Nat.toDigits 10 x.natAbs)

/-- What `snprintf` leaves in a buffer of `size` bytes, for a text that it prints. -/
def snprintf (size : Nat) (text : List UInt8) : List UInt8 := text.take (size - 1) ++ [0]

/-- `strcmp(s, t)` -/
def strcmp (s t : CStr) : Int := cmpBytes id s.bytes t.bytes

/-- `strncmp(s, t, n)` -/
def strncmp (s t : CStr) (n : Nat) : Int := cmpBytes id (s.bytes.take n) (t.bytes.take n)

/-- `strcasecmp(s, t)` -/
def strcasecmp (s t : CStr) : Int := cmpBytes toLower s.bytes t.bytes

/-- `strchr(s, c)` for `c` not the NUL: the rest of `s` from its first `c`, or `NULL`. -/
def strchr (s : CStr) (c : UInt8) : Option CStr :=
  if c ∈ s.bytes then some (s.offset (s.bytes.idxOf c)) else none

/-- `s` followed by `t`. -/
def CStr.append (s t : CStr) : CStr where
  bytes := s.bytes ++ t.bytes
  nulFree := fun h => (List.mem_append.mp h).elim s.nulFree t.nulFree

/-- The bytes before the first `c` of `s`. -/
def CStr.before (s : CStr) (c : UInt8) : CStr where
  bytes := s.bytes.takeWhile (· != c)
  nulFree := fun h => s.nulFree (List.takeWhile_subset _ h)

/-- The rest of `s` from its first byte other than `c`. -/
def CStr.skip (s : CStr) (c : UInt8) : CStr where
  bytes := s.bytes.dropWhile (· == c)
  nulFree := fun h => s.nulFree (List.dropWhile_subset _ h)

/-- `strtok(s, c)` with one delimiter: the token, if there is one, and the string at which
`strtok(NULL, c)` then goes on. -/
def strtok (s : CStr) (c : UInt8) : Option CStr × CStr :=
  let t := s.skip c
  if t.bytes = [] then (none, t) else (some (t.before c), t.offset (strlen (t.before c) + 1))

/-- The pieces of a list of bytes between runs of the delimiter. -/
def tokenBytes (c : UInt8) (b : List UInt8) : List (List UInt8) :=
  (b.splitOnP (· == c)).filter (· != [])

/-- All tokens of a string, which repeated calls of `strtok` give. -/
def tokens (s : CStr) (c : UInt8) : List CStr := (tokenBytes c s.bytes).map CStr.ofBuf

/-- `strncpy(dst, s, n)` into a buffer that is zero up to and including byte `n`: the string that
`dst` then holds. -/
def strncpy (s : CStr) (n : Nat) : CStr where
  bytes := s.bytes.take n
  nulFree := fun h => s.nulFree (List.mem_of_mem_take h)

/-- `s[n] = '\0'` for `n ≤ strlen(s)`. -/
def CStr.cut (s : CStr) (n : Nat) : CStr where
  bytes := s.bytes.take n
  nulFree := fun h => s.nulFree (List.mem_of_mem_take h)

/-! ## What the results of zero mean -/

theorem cmpBytes_eq_zero_iff (f : UInt8 → UInt8) (hf : ∀ b, b ≠ 0 → f b ≠ 0) :
    ∀ s t : List UInt8, 0 ∉ s → 0 ∉ t → (cmpBytes f s t = 0 ↔ s.map f = t.map f) := by
  have hpos : ∀ b : UInt8, b ≠ 0 → (f b).toNat ≠ 0 := fun b hb h =>
    hf b hb (UInt8.toNat_inj.mp (by simpa using h))
  intro s
  induction s with
  | nil =>
    intro t _ ht
    cases t with
    | nil => simp [cmpBytes]
    | cons b t =>
      have := hpos b (fun h => ht (by simp [h]))
      simp [cmpBytes, this]
  | cons a s ih =>
    intro t hs ht
    cases t with
    | nil =>
      have := hpos a (fun h => hs (by simp [h]))
      simp [cmpBytes, this]
    | cons b t =>
      simp only [List.mem_cons, not_or] at hs ht
      by_cases hab : f a = f b
      · simp [cmpBytes, hab, ih t hs.2 ht.2]
      · have : (f a).toNat ≠ (f b).toNat := fun h => hab (UInt8.toNat_inj.mp h)
        simp only [cmpBytes, hab, if_false, List.map_cons, List.cons.injEq, false_and, iff_false]
        omega

theorem toLower_ne_zero (b : UInt8) (hb : b ≠ 0) : toLower b ≠ 0 := by
  unfold toLower
  split
  · next h =>
    intro h0
    have h1 := UInt8.le_iff_toNat_le.mp h.1
    have h2 := UInt8.le_iff_toNat_le.mp h.2
    have h3 := congrArg UInt8.toNat h0
    simp [UInt8.toNat_add] at h1 h2 h3
    omega
  · exact hb

theorem strcmp_eq_zero {s t : CStr} : strcmp s t = 0 ↔ s = t := by
  rw [strcmp, cmpBytes_eq_zero_iff id (fun _ h => h) _ _ s.nulFree t.nulFree]
  simp [CStr.bytes_inj]

theorem strcasecmp_eq_zero {s t : CStr} :
    strcasecmp s t = 0 ↔ s.bytes.map toLower = t.bytes.map toLower :=
  cmpBytes_eq_zero_iff toLower toLower_ne_zero _ _ s.nulFree t.nulFree

/-- `strncmp(s, t, strlen(t)) == 0` says that `t` is a prefix of `s`. -/
theorem strncmp_strlen_eq_zero {s t : CStr} : strncmp s t (strlen t) = 0 ↔ t.bytes <+: s.bytes := by
  rw [strncmp, cmpBytes_eq_zero_iff id (fun _ h => h) _ _
    (fun h => s.nulFree (List.mem_of_mem_take h)) (fun h => t.nulFree (List.mem_of_mem_take h))]
  simp only [List.map_id, strlen, List.take_length]
  rw [List.prefix_iff_eq_take]
  exact eq_comm

/-- The test `strncmp(s, t, strlen(t)) == 0 && s[strlen(t)] == c`. -/
theorem strncmp_charAt_iff {s t : CStr} {c : UInt8} (hc : c ≠ 0) :
    strncmp s t (strlen t) = 0 ∧ s.charAt (strlen t) = c ↔ t.bytes ++ [c] <+: s.bytes := by
  rw [strncmp_strlen_eq_zero]
  constructor
  · rintro ⟨⟨r, hr⟩, hch⟩
    have hget : r.getD 0 0 = c := by
      rw [← hch, CStr.charAt, strlen, ← hr, List.getD_append_right _ _ _ _ le_rfl, Nat.sub_self]
    cases r with
    | nil => exact absurd hget.symm hc
    | cons a r =>
      have ha : a = c := hget
      exact ⟨r, by rw [← hr, ← ha, List.append_assoc]; rfl⟩
  · rintro ⟨r, hr⟩
    rw [List.append_assoc] at hr
    refine ⟨⟨[c] ++ r, hr⟩, ?_⟩
    rw [CStr.charAt, strlen, ← hr, List.getD_append_right _ _ _ _ le_rfl, Nat.sub_self]
    rfl

/-! ## Tokens -/

theorem CStr.ofBuf_of_nulFree {b : List UInt8} (h : 0 ∉ b) : (CStr.ofBuf b).bytes = b := by
  refine List.takeWhile_eq_self_iff.mpr ?_
  intro x hx
  simpa using fun h0 : x = 0 => h (h0 ▸ hx)

/-- What is behind a NUL is not in the string. -/
theorem CStr.ofBuf_append_zero (b rest : List UInt8) :
    (CStr.ofBuf (b ++ 0 :: rest)).bytes = (CStr.ofBuf b).bytes := by
  show List.takeWhile _ _ = List.takeWhile _ _
  rw [List.takeWhile_append]
  split
  · next hall =>
    rw [(List.takeWhile_prefix _).eq_of_length hall, List.takeWhile_cons_of_neg (by decide)]
    exact List.append_nil b
  · rfl

theorem CStr.ofBuf_append_nul {b : List UInt8} (h : 0 ∉ b) (rest : List UInt8) :
    (CStr.ofBuf (b ++ 0 :: rest)).bytes = b := by
  rw [ofBuf_append_zero, ofBuf_of_nulFree h]

@[simp] theorem CStr.ofBuf_bytes (s : CStr) : CStr.ofBuf s.bytes = s :=
  CStr.ext_bytes (CStr.ofBuf_of_nulFree s.nulFree)

theorem tokenBytes_append_delim (c : UInt8) (a b : List UInt8) :
    tokenBytes c (a ++ c :: b) = tokenBytes c a ++ tokenBytes c b := by
  rw [tokenBytes, List.splitOnP_append_cons a b (by simp), List.filter_append]
  rfl

theorem tokenBytes_cons_delim (c : UInt8) (b : List UInt8) :
    tokenBytes c (c :: b) = tokenBytes c b := by
  have h := tokenBytes_append_delim c [] b
  simpa [tokenBytes] using h

theorem tokenBytes_of_no_delim {c : UInt8} {b : List UInt8} (h : c ∉ b) :
    tokenBytes c b = if b = [] then [] else [b] := by
  have hs : b.splitOnP (· == c) = [b] := by
    refine List.splitOnP_eq_singleton ?_
    intro x hx
    simpa using fun hxc : x = c => h (hxc ▸ hx)
  rw [tokenBytes, hs]
  cases b <;> simp

theorem tokenBytes_dropWhile (c : UInt8) (b : List UInt8) :
    tokenBytes c (b.dropWhile (· == c)) = tokenBytes c b := by
  induction b with
  | nil => rfl
  | cons a b ih =>
    by_cases ha : a = c
    · subst ha
      rw [List.dropWhile_cons_of_pos (by simp), ih, tokenBytes_cons_delim]
    · rw [List.dropWhile_cons_of_neg (by simpa using ha)]

theorem not_mem_takeWhile_ne (c : UInt8) (b : List UInt8) : c ∉ b.takeWhile (· != c) := by
  intro h
  have := List.mem_takeWhile_imp h
  simp at this

/-- A string that starts with a token: the token, and the tokens after the delimiter that ends it. -/
theorem tokenBytes_takeWhile {c a : UInt8} {b : List UInt8} (ha : a ≠ c) :
    tokenBytes c (a :: b) =
      (a :: b).takeWhile (· != c) ::
        tokenBytes c ((a :: b).drop (((a :: b).takeWhile (· != c)).length + 1)) := by
  have hne : (a :: b).takeWhile (· != c) ≠ [] := by simp [ha]
  have hno := tokenBytes_of_no_delim (not_mem_takeWhile_ne c (a :: b))
  rw [if_neg hne] at hno
  have hsplit := List.takeWhile_append_dropWhile (p := (· != c)) (l := a :: b)
  generalize (a :: b).takeWhile (· != c) = t at *
  rcases hd : (a :: b).dropWhile (· != c) with _ | ⟨d, r⟩
  · rw [hd, List.append_nil] at hsplit
    rw [← hsplit, hno, List.drop_of_length_le (Nat.le_succ _)]
    rfl
  · have hdc : d = c := by
      have := List.head_dropWhile_not (p := (· != c)) (l := a :: b) (by rw [hd]; simp)
      simpa [hd] using this
    rw [hd, hdc] at hsplit
    have hdrop : (t ++ c :: r).drop (t.length + 1) = r := by
      rw [show t ++ c :: r = (t ++ [c]) ++ r by simp]
      exact List.drop_left' (by simp)
    rw [← hsplit, tokenBytes_append_delim, hno, hdrop]
    rfl

/-- `strtok` gives the first token, and leaves the string of the others. -/
theorem strtok_tokens (s : CStr) (c : UInt8) :
    (strtok s c).1 = (tokens s c).head? ∧ tokens (strtok s c).2 c = (tokens s c).tail := by
  have hskip : tokens s c = tokens (s.skip c) c := by
    rw [tokens, tokens, ← tokenBytes_dropWhile]
    rfl
  rw [hskip, strtok]
  rcases hb : (s.skip c).bytes with _ | ⟨a, b⟩
  · rw [if_pos rfl]
    simp [tokens, hb, tokenBytes]
  · have ha : a ≠ c := by
      have hh : (s.bytes.dropWhile (· == c)) = a :: b := hb
      have := List.head_dropWhile_not (p := (· == c)) (l := s.bytes) (by rw [hh]; simp)
      simpa [hh] using this
    rw [if_neg (List.cons_ne_nil a b)]
    have htok := tokenBytes_takeWhile (b := b) ha
    rw [← hb] at htok
    refine ⟨?_, ?_⟩
    · rw [tokens, htok]
      exact congrArg some (CStr.ofBuf_bytes ((s.skip c).before c)).symm
    · rw [tokens, tokens, htok]
      rfl

theorem length_tokenBytes_le (c : UInt8) (b : List UInt8) : (tokenBytes c b).length ≤ b.length := by
  induction hn : b.length using Nat.strong_induction_on generalizing b with
  | _ n ih =>
    rcases b with _ | ⟨a, b⟩
    · simp [tokenBytes]
    · rw [List.length_cons] at hn
      by_cases ha : a = c
      · have := ih b.length (by omega) b rfl
        rw [ha, tokenBytes_cons_delim]
        omega
      · have hlen : ((a :: b).drop (((a :: b).takeWhile (· != c)).length + 1)).length < n := by
          rw [List.length_drop, List.length_cons]
          omega
        have := ih _ hlen _ rfl
        rw [tokenBytes_takeWhile ha, List.length_cons]
        omega

theorem length_tokens_le (s : CStr) (c : UInt8) : (tokens s c).length ≤ strlen s := by
  rw [tokens, List.length_map]
  exact length_tokenBytes_le c s.bytes

/-- A string without the delimiter is its only token. -/
theorem tokens_of_no_delim {s : CStr} {c : UInt8} (hne : s.bytes ≠ []) (hno : c ∉ s.bytes) :
    tokens s c = [s] := by
  rw [tokens, tokenBytes_of_no_delim hno, if_neg hne]
  exact congrArg (· :: []) s.ofBuf_bytes

theorem strchr_eq_none {s : CStr} {c : UInt8} : strchr s c = none ↔ c ∉ s.bytes := by
  simp [strchr]

theorem strncpy_of_le {s : CStr} {n : Nat} (h : strlen s ≤ n) : strncpy s n = s :=
  CStr.ext_bytes (List.take_of_length_le h)

/-- An `int` has at most ten digits and a sign. -/
theorem length_decimal_le (x : Int32) : (decimal x.toInt).length ≤ 11 := by
  have hlt := x.toInt_lt
  have hle := x.le_toInt
  have hdigits : (Nat.toDigits 10 x.toInt.natAbs).length ≤ 10 :=
    (Nat.length_toDigits_le_iff (by decide) (by decide)).mpr (by omega)
  have hsign : (if x.toInt < 0 then [(0x2D : UInt8)] else []).length ≤ 1 := by
    split <;> decide
  rw [decimal, List.length_append, CStr.ascii, List.length_map]
  omega

theorem length_decimal_natCast_le {n k : Nat} (hk : 0 < k) (h : n < 10 ^ k) :
    (decimal (n : Nat)).length ≤ k := by
  rw [decimal, if_neg (by omega), List.nil_append, CStr.ascii, List.length_map, Int.natAbs_natCast]
  exact (Nat.length_toDigits_le_iff (by decide) hk).mpr h

theorem strlen_strncpy_le (s : CStr) (n : Nat) : strlen (strncpy s n) ≤ n := by
  rw [strlen, strncpy, List.length_take]
  exact Nat.min_le_left _ _

theorem strlen_eq_of_strcasecmp {s t : CStr} (h : strcasecmp s t = 0) : strlen s = strlen t := by
  have hmap := congrArg List.length (strcasecmp_eq_zero.mp h)
  rwa [List.length_map, List.length_map] at hmap

/-- Delimiters at the end give no token. -/
theorem tokenBytes_append_delims {c : UInt8} {r : List UInt8} (hr : ∀ x ∈ r, x = c) :
    ∀ b, tokenBytes c (b ++ r) = tokenBytes c b := by
  induction r with
  | nil => intro b; rw [List.append_nil]
  | cons x r ih =>
    intro b
    have hnone := ih (fun y hy => hr y (List.mem_cons_of_mem x hy)) []
    rw [hr x List.mem_cons_self, tokenBytes_append_delim, ← List.nil_append r, hnone]
    exact List.append_nil _

/-- The tokens have all bytes but the delimiters. -/
theorem flatten_tokenBytes (c : UInt8) (b : List UInt8) :
    (tokenBytes c b).flatten = b.filter (· != c) := by
  have hsplit : (b.splitOnP (· == c)).flatten = b.filter (· != c) := by
    induction b with
    | nil => rfl
    | cons a b ih =>
      rw [List.splitOnP_cons_eq_if_modifyHead]
      by_cases ha : a = c
      · simpa [ha] using ih
      · obtain ⟨t, ts, ht⟩ := List.exists_cons_of_ne_nil (List.splitOnP_ne_nil (· == c) b)
        rw [ht] at ih ⊢
        simpa [ha] using ih
  have hempty : (fun t : List UInt8 => t != []) = fun t => !t.isEmpty := by
    funext t
    cases t <;> rfl
  rw [← hsplit, tokenBytes, hempty, List.flatten_filter_not_isEmpty]

theorem map_strlen_tokens (s : CStr) (c : UInt8) :
    (tokens s c).map strlen = (tokenBytes c s.bytes).map List.length := by
  rw [tokens, List.map_map]
  refine List.map_congr_left fun t ht => ?_
  refine congrArg List.length (CStr.ofBuf_of_nulFree fun h0 => s.nulFree ?_)
  have hmem : 0 ∈ (tokenBytes c s.bytes).flatten := List.mem_flatten_of_mem ht h0
  rw [flatten_tokenBytes] at hmem
  exact (List.mem_filter.mp hmem).1

/-- A string cut short has all tokens if it has as many, of the same lengths. -/
theorem tokens_strncpy_of_lengths {s : CStr} {c : UInt8} {n : Nat}
    (h : (tokens s c).map strlen = (tokens (strncpy s n) c).map strlen) :
    tokens (strncpy s n) c = tokens s c := by
  rw [map_strlen_tokens, map_strlen_tokens] at h
  have hsum := congrArg List.sum h
  rw [← List.length_flatten, ← List.length_flatten, flatten_tokenBytes, flatten_tokenBytes] at hsum
  change _ = (List.filter _ (s.bytes.take n)).length at hsum
  rw [← List.take_append_drop n s.bytes, List.filter_append, List.length_append,
    List.take_append_drop] at hsum
  have hrest : (s.bytes.drop n).filter (· != c) = [] := List.length_eq_zero_iff.mp (by omega)
  have hdelims : ∀ x ∈ s.bytes.drop n, x = c := by
    intro x hx
    simpa using List.filter_eq_nil_iff.mp hrest x hx
  have htokens := tokenBytes_append_delims hdelims (s.bytes.take n)
  rw [List.take_append_drop] at htokens
  rw [tokens, tokens, htokens]
  rfl

end CLib
