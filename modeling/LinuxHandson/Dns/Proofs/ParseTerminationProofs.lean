import LinuxHandson.Dns.Proofs.ParseBoundsProofs
import Mathlib.Order.Interval.Set.Defs
import Mathlib.Order.Interval.Finset.Defs
import Mathlib.Data.Int.Interval

/-!
# Whether `parse_name` terminates

A round of `parse_name` moves on in the packet or jumps, and never takes back what it has written. A
loop that goes on for ever therefore writes nothing from some round on, and comes back to one of the
finitely many places of the packet.
-/

namespace DnsClient

open CLib Relation

variable {c : ParseCall}

namespace ParseCall

/-! ## Loops that go round -/

theorem round_idle {s : ParseState} {o : Nat} {p' : Int} (h : c.Idle o s.pos p') (hs : c.Inv s)
    (ho : s.outPos = o) :
    ∃ s', c.round s = .again s' ∧ c.Inv s' ∧ s'.pos = p' ∧ s'.outPos = o := by
  rcases h with hp | ⟨⟨n, hn⟩, hfull, rfl⟩
  · obtain ⟨s', hs', hinv, hpos, hout⟩ := round_pointer hp hs
    exact ⟨s', hs', hinv, hpos, hout.trans ho⟩
  · obtain ⟨s', hs', hinv, hpos, hout⟩ := round_label hn hs ho
    have hdot : c.dotLen o = 0 := if_neg (by omega)
    have hcopied : c.copied (s.pos + 1) n o = 0 := by
      simp only [copied]
      omega
    rw [hdot, Nat.add_zero, hcopied] at hpos hout
    exact ⟨s', hs', hinv, by omega, hout⟩

/-- Where the name leads back to itself, the loop goes on for ever. -/
theorem Circles.forever {p : Int} {o : Nat} (h : c.Circles p o) :
    ∀ {s : ParseState}, c.Inv s → s.pos = p → s.outPos = o → Forever c.round s := by
  induction h with
  | @cycle p o hc =>
    intro s hs hp ho
    have hstep : ∀ p p' s, c.Idle o p p' → (c.Inv s ∧ s.pos = p ∧ s.outPos = o) →
        ∃ s', c.round s = .again s' ∧ c.Inv s' ∧ s'.pos = p' ∧ s'.outPos = o := by
      rintro p p' s hidle ⟨hs, rfl, ho⟩
      exact round_idle hidle hs ho
    exact forever_of_cycle hstep hc ⟨hs, hp, ho⟩
  | pointer hp _ ih =>
    rintro s hs rfl ho
    obtain ⟨s', hs', hinv, hpos, hout⟩ := round_pointer hp hs
    exact (ih hinv hpos (hout.trans ho)).of_again hs'
  | label hp _ ih =>
    rintro s hs rfl ho
    obtain ⟨s', hs', hinv, hpos, hout⟩ := round_label hp hs ho
    exact (ih hinv hpos hout).of_again hs'

/-- A label of which nothing is written, though it does not end the packet, finds the output full. -/
theorem full_of_label {p : Int} {n o : Nat} (h : c.LabelAt p n) (hp : p + 1 < c.pktlen)
    (hnone : c.dotLen o + c.copied (p + 1) n (o + c.dotLen o) = 0) : c.outsize - 1 ≤ o := by
  obtain ⟨len, hlen, h0, -, rfl⟩ := h
  have hpos : len.toNat ≠ 0 := fun hz => h0 (UInt8.toNat_inj.mp hz)
  obtain ⟨hdot, hcopied⟩ := Nat.add_eq_zero_iff.mp hnone
  rw [hdot, Nat.add_zero, copied] at hcopied
  omega

section Trajectory

variable {f : Nat → ParseState}

theorem inv_trajectory (h0 : c.Inv (f 0)) (hf : ∀ n, c.round (f n) = .again (f (n + 1))) (n : Nat) :
    c.Inv (f n) := by
  induction n with
  | zero => exact h0
  | succ n ih => exact (again_cases ih ih.outPos_eq (hf n)).1

/-- A loop that goes on for ever is at last in idle steps that lead back. -/
theorem exists_idle_cycle (h0 : c.Inv (f 0)) (hf : ∀ n, c.round (f n) = .again (f (n + 1))) :
    ∃ n, TransGen (c.Idle (f n).outPos.toNat) (f n).pos (f n).pos := by
  have hinv := inv_trajectory h0 hf
  have hnat : ∀ n, (f n).outPos = (f n).outPos.toNat := fun n => (hinv n).outPos_eq
  have hmono : ∀ n, (f n).outPos.toNat ≤ (f (n + 1)).outPos.toNat := by
    intro n
    rcases (again_cases (hinv n) (hnat n) (hf n)).2 with ⟨-, hout⟩ | ⟨m, -, -, hout⟩
    · omega
    · omega
  have hbound : ∀ n, (f n).outPos.toNat ≤ c.outsize.toNat := by
    intro n
    have := (hinv n).outPos_le
    omega
  obtain ⟨N, hN⟩ := exists_stable hmono hbound
  have hplace : ∀ n, N ≤ n → (f n).pos ∈ Set.Ico 0 c.pktlen := by
    intro n _
    rcases at_of_again (hf n) with ⟨p', high, low, hbyte, -⟩ | ⟨m, len, hbyte, -⟩
    · exact ⟨hbyte.nonneg, hbyte.1⟩
    · exact ⟨hbyte.nonneg, hbyte.1⟩
  have hidle : ∀ n, N ≤ n → c.Idle (f N).outPos.toNat (f n).pos (f (n + 1)).pos := by
    intro n hn
    have hsame := hN n hn
    have hsame' := hN (n + 1) (by omega)
    rcases (again_cases (hinv n) (hnat n) (hf n)).2 with ⟨hp, -⟩ | ⟨m, hm, hpos, hout⟩
    · exact .inl hp
    · have hnone : c.dotLen (f n).outPos.toNat + c.copied ((f n).pos + 1) m
          ((f n).outPos.toNat + c.dotLen (f n).outPos.toNat) = 0 := by omega
      obtain ⟨hdot, hcopied⟩ := Nat.add_eq_zero_iff.mp hnone
      rw [hcopied, Int.natCast_zero, Int.add_zero] at hpos
      have hlt := (hplace (n + 1) (by omega)).2
      rw [hpos] at hlt
      have hfull := full_of_label hm hlt hnone
      exact .inr ⟨⟨m, hm⟩, by omega, hpos⟩
  obtain ⟨n, hn, hcycle⟩ := exists_cycle (Set.finite_Ico 0 c.pktlen) hplace hidle
  rw [← hN n hn] at hcycle
  exact ⟨n, hcycle⟩

/-- The rounds before one from which the name leads back. -/
theorem circles_of_trajectory (h0 : c.Inv (f 0)) (hf : ∀ n, c.round (f n) = .again (f (n + 1)))
    (n : Nat) :
    c.Circles (f n).pos (f n).outPos.toNat → c.Circles (f 0).pos (f 0).outPos.toNat := by
  induction n with
  | zero => exact id
  | succ n ih =>
    intro h
    refine ih ?_
    have hinv := inv_trajectory h0 hf n
    rcases (again_cases hinv hinv.outPos_eq (hf n)).2 with
      ⟨hp, hout⟩ | ⟨m, hm, hpos, hout⟩
    · rw [hout, Int.toNat_natCast] at h
      exact .pointer hp h
    · rw [hpos, hout, Int.toNat_natCast] at h
      exact .label hm h

end Trajectory

/-- The loop goes on for ever exactly if the name leads back to itself. -/
theorem forever_iff_circles {s : ParseState} (hs : c.Inv s) :
    Forever c.round s ↔ c.Circles s.pos s.outPos.toNat := by
  constructor
  · intro h
    obtain ⟨f, rfl, -, hf⟩ := Forever.trajectory h
    obtain ⟨n, hcycle⟩ := exists_idle_cycle hs hf
    exact circles_of_trajectory hs hf n (.cycle hcycle)
  · intro h
    exact h.forever hs rfl hs.outPos_eq

theorem hangs_iff (c : ParseCall) : c.Hangs ↔ c.Circles c.offset 0 :=
  forever_iff_circles (inv_start c)

/-! ## Calls that leave the packet and the output alone -/

/-- With room for the NUL, the loop ends exactly if it does not go round and is safe. -/
theorem exists_ends_iff {s : ParseState} (hs : c.Inv s) (hpos : 0 ≤ s.pos) (hsize : 1 ≤ c.outsize) :
    (∃ r, Ends c.round s r) ↔
      ¬ c.Circles s.pos s.outPos.toNat ∧ ¬ c.Breaks s.pos s.outPos.toNat := by
  rw [← forever_iff_circles hs, ← safe_iff_not_breaks hs hpos hsize]
  constructor
  · rintro ⟨r, hr⟩
    exact ⟨hr.not_forever, hr.safe⟩
  · rintro ⟨hforever, hsafe⟩
    exact hsafe.exists_ends hforever

/-- With a byte after the packet, no pointer is cut off. -/
theorem Roomy.not_breaks (hc : c.Roomy) {p : Int} {o : Nat} : ¬ c.Breaks p o := by
  intro h
  induction h with
  | here hp =>
    obtain ⟨high, hhigh, -, hlow⟩ := hp
    have hafter := hc.after
    have hpos := hhigh.nonneg
    have hlt := hhigh.1
    rw [byteAt, if_pos (by omega), List.getElem?_eq_none_iff] at hlow
    omega
  | pointer _ _ ih => exact ih
  | label _ _ ih => exact ih

theorem returns_iff_not_hangs (hc : c.Roomy) : c.Returns ↔ ¬ c.Hangs := by
  rw [hangs_iff]
  exact (exists_ends_iff (inv_start c) hc.offset_nonneg hc.room).trans (and_iff_left hc.not_breaks)

/-- For every packet, offset and output: the loop of `parse_name` does not go on for ever exactly if no
pointers lead the name back to itself with nothing written; on a call that leaves the packet and the
output alone, it then returns. -/
theorem parse_name_terminates_iff (c : ParseCall) :
    (¬ c.Hangs ↔ ¬ c.Circles c.offset 0) ∧ (c.Roomy → (c.Returns ↔ ¬ c.Circles c.offset 0)) := by
  refine ⟨not_congr (hangs_iff c), fun hc => ?_⟩
  rw [returns_iff_not_hangs hc, hangs_iff]

/-- A packet of a pointer to itself. -/
def selfPointer : ParseCall where
  pkt := [0xC0, 0, 0]
  pktlen := 2
  offset := 0
  out := List.replicate 256 0
  outsize := 256
  readable := by decide
  writable := Int.le_of_eq (by rw [List.length_replicate]; rfl)
  isInt := by decide

theorem selfPointer_roomy : selfPointer.Roomy := ⟨by decide, by decide, by decide⟩

theorem selfPointer_terminates_iff :
    (¬ selfPointer.Hangs ↔ ¬ selfPointer.Circles 0 0) ∧
      (selfPointer.Returns ↔ ¬ selfPointer.Circles 0 0) :=
  ⟨(parse_name_terminates_iff selfPointer).1,
    (parse_name_terminates_iff selfPointer).2 selfPointer_roomy⟩

/-- A pointer to itself is followed for ever. -/
theorem selfPointer_hangs : selfPointer.Hangs ∧ ¬ selfPointer.Returns := by
  have hp : selfPointer.PointerAt 0 0 :=
    ⟨0xC0, 0, ⟨by decide, by decide⟩, by decide, by decide, by decide⟩
  have hc : selfPointer.Circles selfPointer.offset 0 := .cycle (.single (.inl hp))
  have hhangs := (hangs_iff selfPointer).mpr hc
  refine ⟨hhangs, fun h => ?_⟩
  exact (returns_iff_not_hangs selfPointer_roomy).mp h hhangs

end ParseCall

end DnsClient
