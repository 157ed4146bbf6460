import LinuxHandson.Lib.Socket

/-!
# Buffers written one after the other

Buffers are put out in turn, each by writes until all of it is out or one of them fails, and whether
that happened is not looked at: the next buffer follows. What is on the wire is then a first part of
each buffer. It is a first part of all of them together, each buffer coming after the end of the one
before it, exactly if no write succeeds after one that failed.
-/

namespace PartialWrites

open CLib

variable {ε α : Type}

/-- While its writes get the answers `rs`, in order, `p` puts out the bytes `w`, and is then `q`. -/
inductive Puts : SockProg ε α → List (Option Nat) → List UInt8 → SockProg ε α → Prop where
  /-- No write. -/
  | done (p : SockProg ε α) : Puts p [] [] p
  /-- A write that fails, or puts out as many bytes as it says. -/
  | write {b w : List UInt8} {k : Option Nat → SockProg ε α} {r : Option Nat}
      {rs : List (Option Nat)} {q : SockProg ε α} (hr : ∀ n, r = some n → n ≤ b.length)
      (h : Puts (k r) rs w q) : Puts (.call (.write b) k) (r :: rs) (b.take (r.getD 0) ++ w) q

/-- A write that puts out a byte. -/
def Stored (r : Option Nat) : Prop := 0 < r.getD 0

/-- How much of a buffer of `n` bytes is put out, and the answers that are left for the next one. -/
def fill : Nat → List (Option Nat) → Nat × List (Option Nat)
  | _, [] => (0, [])
  | 0, r :: rs => (0, r :: rs)
  | _ + 1, none :: rs => (0, rs)
  | _ + 1, some 0 :: rs => (0, rs)
  | n + 1, some (k + 1) :: rs => (min (k + 1) (n + 1) + (fill (n - k) rs).1, (fill (n - k) rs).2)

/-- How much of each buffer is put out. -/
def counts : List Nat → List (Option Nat) → List Nat
  | [], _ => []
  | n :: ns, rs => (fill n rs).1 :: counts ns (fill n rs).2

/-- The answers that are left after the last buffer. -/
def unused : List Nat → List (Option Nat) → List (Option Nat)
  | [], rs => rs
  | n :: ns, rs => unused ns (fill n rs).2

/-- The first parts of buffers. -/
def pieces : List (List UInt8) → List Nat → List UInt8
  | b :: bufs, c :: cs => b.take c ++ pieces bufs cs
  | _, _ => []

/-- Nothing of a buffer is out before all of those in front of it is. -/
def InOrder : List Nat → List Nat → Prop
  | n :: ns, c :: cs => ((∃ d ∈ cs, 0 < d) → c = n) ∧ InOrder ns cs
  | _, _ => True

/-- After a write that failed every write fails. -/
def StaysFailed (rs : List (Option Nat)) : Prop := rs.Pairwise fun r r' => Stored r' → Stored r

/-! ## One buffer -/

theorem not_stored_none : ¬ Stored none := Nat.lt_irrefl 0

theorem not_stored_zero : ¬ Stored (some 0) := Nat.lt_irrefl 0

theorem stored_succ (k : Nat) : Stored (some (k + 1)) := Nat.succ_pos k

theorem fill_zero (rs : List (Option Nat)) : fill 0 rs = (0, rs) := by
  cases rs <;> rfl

/-- How the writes of a buffer end: with all of it out, with one that fails, or not yet. -/
theorem fill_cases (rs : List (Option Nat)) : ∀ n,
    ∃ ok : List (Option Nat), (∀ r ∈ ok, Stored r) ∧
      (rs = ok ++ (fill n rs).2 ∧ (fill n rs).1 = n ∨
        (∃ r, ¬ Stored r ∧ rs = ok ++ r :: (fill n rs).2 ∧ (fill n rs).1 < n) ∨
        rs = ok ∧ (fill n rs).2 = []) := by
  induction rs with
  | nil =>
    intro n
    exact ⟨[], by simp, Or.inr (Or.inr ⟨rfl, rfl⟩)⟩
  | cons r rs ih =>
    intro n
    rcases n with _ | n
    · exact ⟨[], by simp, Or.inl ⟨rfl, rfl⟩⟩
    · rcases r with _ | _ | k
      · exact ⟨[], by simp, Or.inr (Or.inl ⟨none, not_stored_none, rfl, Nat.succ_pos n⟩)⟩
      · exact ⟨[], by simp, Or.inr (Or.inl ⟨some 0, not_stored_zero, rfl, Nat.succ_pos n⟩)⟩
      · obtain ⟨ok, hok, hend⟩ := ih (n - k)
        have hcount : (fill (n + 1) (some (k + 1) :: rs)).1 =
          min (k + 1) (n + 1) + (fill (n - k) rs).1 := rfl
        refine ⟨some (k + 1) :: ok, ?_, ?_⟩
        · intro r hr
          rcases List.mem_cons.mp hr with rfl | hr
          · exact stored_succ k
          · exact hok r hr
        · rcases hend with ⟨hrs, hall⟩ | ⟨r, hr, hrs, hlt⟩ | ⟨hrs, hnil⟩
          · left
            exact ⟨congrArg (some (k + 1) :: ·) hrs, by omega⟩
          · right; left
            exact ⟨r, hr, congrArg (some (k + 1) :: ·) hrs, by omega⟩
          · right; right
            exact ⟨congrArg (some (k + 1) :: ·) hrs, hnil⟩

/-! ## All buffers -/

theorem counts_nil (ns : List Nat) : ∀ c ∈ counts ns [], c = 0 := by
  induction ns with
  | nil => simp [counts]
  | cons n ns ih =>
    intro c hc
    rcases List.mem_cons.mp hc with rfl | hc
    · rfl
    · exact ih c hc

theorem unused_nil (ns : List Nat) : unused ns [] = [] := by
  induction ns with
  | nil => rfl
  | cons n ns ih => exact ih

/-- Nothing is put out exactly if every write fails. -/
theorem counts_zero_iff (ns : List Nat) : ∀ rs, (∀ n ∈ ns, 0 < n) → unused ns rs = [] →
    ((∃ c ∈ counts ns rs, 0 < c) ↔ ∃ r ∈ rs, Stored r) := by
  induction ns with
  | nil =>
    intro rs _ hrs
    obtain rfl : rs = [] := hrs
    simp [counts]
  | cons n ns ih =>
    intro rs hns hrs
    have hn := hns n List.mem_cons_self
    have hrest := ih (fill n rs).2 (fun m hm => hns m (List.mem_cons_of_mem n hm)) hrs
    have hsplit : (∃ c ∈ counts (n :: ns) rs, 0 < c) ↔
        0 < (fill n rs).1 ∨ ∃ c ∈ counts ns (fill n rs).2, 0 < c := by simp [counts]
    rw [hsplit, hrest]
    obtain ⟨n, rfl⟩ := Nat.exists_eq_succ_of_ne_zero (Nat.ne_of_gt hn)
    rcases rs with _ | ⟨r, rs⟩
    · simp [fill]
    · rcases r with _ | _ | k
      · simp [fill, not_stored_none]
      · simp [fill, not_stored_zero]
      · have hpos : 0 < (fill (n + 1) (some (k + 1) :: rs)).1 := by
          show 0 < min (k + 1) (n + 1) + (fill (n - k) rs).1
          omega
        simp only [hpos, true_or, true_iff]
        exact ⟨some (k + 1), List.mem_cons_self, stored_succ k⟩

theorem staysFailed_of_all {rs : List (Option Nat)} (h : ∀ r ∈ rs, Stored r) : StaysFailed rs :=
  List.pairwise_of_forall_mem_list fun r hr _ _ _ => h r hr

theorem staysFailed_append {ok rs : List (Option Nat)} (hok : ∀ r ∈ ok, Stored r) :
    StaysFailed (ok ++ rs) ↔ StaysFailed rs := by
  unfold StaysFailed
  rw [List.pairwise_append]
  constructor
  · rintro ⟨-, h, -⟩
    exact h
  · intro h
    exact ⟨staysFailed_of_all hok, h, fun a ha _ _ _ => hok a ha⟩

theorem staysFailed_of_none {rs : List (Option Nat)} (h : ¬ ∃ a ∈ rs, Stored a) : StaysFailed rs :=
  List.pairwise_of_forall_mem_list fun _ _ b hb hs => absurd ⟨b, hb, hs⟩ h

theorem staysFailed_cons {r : Option Nat} {rs : List (Option Nat)} (hr : ¬ Stored r) :
    StaysFailed (r :: rs) ↔ ¬ ∃ a ∈ rs, Stored a := by
  unfold StaysFailed
  rw [List.pairwise_cons]
  constructor
  · rintro ⟨hcross, -⟩ ⟨a, ha, hs⟩
    exact hr (hcross a ha hs)
  · intro h
    exact ⟨fun a ha hs => absurd ⟨a, ha, hs⟩ h, staysFailed_of_none h⟩

/-- The buffers come out in order exactly if no write succeeds after one that failed. -/
theorem inOrder_iff (ns : List Nat) : ∀ rs, (∀ n ∈ ns, 0 < n) → unused ns rs = [] →
    (InOrder ns (counts ns rs) ↔ StaysFailed rs) := by
  induction ns with
  | nil =>
    intro rs _ hrs
    obtain rfl : rs = [] := hrs
    simp [InOrder, StaysFailed]
  | cons n ns ih =>
    intro rs hns hrs
    have hns' : ∀ m ∈ ns, 0 < m := fun m hm => hns m (List.mem_cons_of_mem n hm)
    have hrest := ih (fill n rs).2 hns' hrs
    have hzero := counts_zero_iff ns (fill n rs).2 hns' hrs
    have hunfold : InOrder (n :: ns) (counts (n :: ns) rs) ↔
        ((∃ r ∈ (fill n rs).2, Stored r) → (fill n rs).1 = n) ∧ StaysFailed (fill n rs).2 := by
      rw [← hrest, ← hzero]
      rfl
    rw [hunfold]
    obtain ⟨ok, hok, hend⟩ := fill_cases rs n
    rcases hend with ⟨hsplit, hall⟩ | ⟨r, hr, hsplit, hlt⟩ | ⟨hsplit, hnil⟩
    · -- all of the buffer is out
      have happ : StaysFailed rs ↔ StaysFailed (fill n rs).2 := by
        conv_lhs => rw [hsplit]
        exact staysFailed_append hok
      rw [happ]
      exact ⟨fun h => h.2, fun h => ⟨fun _ => hall, h⟩⟩
    · -- a write failed, so that the others have to fail
      have happ : StaysFailed rs ↔ ¬ ∃ a ∈ (fill n rs).2, Stored a := by
        conv_lhs => rw [hsplit]
        exact (staysFailed_append hok).trans (staysFailed_cons hr)
      rw [happ]
      constructor
      · rintro ⟨hstop, -⟩ hlater
        exact absurd (hstop hlater) (Nat.ne_of_lt hlt)
      · intro h
        exact ⟨fun hlater => absurd hlater h, staysFailed_of_none h⟩
    · -- the answers end in this buffer
      have hall : StaysFailed rs := by
        rw [hsplit]
        exact staysFailed_of_all hok
      rw [hnil]
      simp [hall, staysFailed_of_none]

theorem pieces_eq_nil (bufs : List (List UInt8)) : ∀ cs : List Nat, (¬ ∃ d ∈ cs, 0 < d) →
    pieces bufs cs = [] := by
  induction bufs with
  | nil =>
    intro cs _
    cases cs <;> rfl
  | cons b bufs ih =>
    intro cs hcs
    rcases cs with _ | ⟨d, cs⟩
    · rfl
    · have hd : d = 0 := by
        by_contra hne
        exact hcs ⟨d, List.mem_cons_self, Nat.pos_of_ne_zero hne⟩
      rw [pieces, hd, List.take_zero, List.nil_append]
      exact ih cs fun ⟨e, he, hpos⟩ => hcs ⟨e, List.mem_cons_of_mem d he, hpos⟩

/-- Buffers that come out in order put out a first part of all of them. -/
theorem pieces_prefix (bufs : List (List UInt8)) : ∀ cs : List Nat,
    InOrder (bufs.map List.length) cs → pieces bufs cs <+: bufs.flatten := by
  induction bufs with
  | nil =>
    intro cs _
    cases cs <;> exact List.nil_prefix
  | cons b bufs ih =>
    intro cs h
    rcases cs with _ | ⟨c, cs⟩
    · exact List.nil_prefix
    · obtain ⟨hfull, hrest⟩ := h
      by_cases hlater : ∃ d ∈ cs, 0 < d
      · have hc : c = b.length := hfull hlater
        rw [pieces, hc, List.take_length, List.flatten_cons]
        exact (List.prefix_append_right_inj b).mpr (ih cs hrest)
      · rw [pieces, pieces_eq_nil bufs cs hlater, List.append_nil, List.flatten_cons]
        exact (List.take_prefix c b).trans (List.prefix_append b _)

end PartialWrites
