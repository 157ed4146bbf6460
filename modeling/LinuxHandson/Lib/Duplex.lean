import LinuxHandson.Lib.Socket

/-!
# Two programs that talk to each other

Two programs at the ends of one connection, each direction of which holds a bounded number of bytes.
A move decides which program makes its next call, how many bytes the call carries and what time it
is; a call that cannot carry anything has no step. What a program does when it reads or writes given
bytes is known from `Reads`, `Drains` and `Writes`.
-/

namespace CLib

variable {ε α β : Type}

/-! ## One of the programs -/

/-- What one of two programs sees: the bytes on their way to it and from it, its standard input, and
the log that both share. -/
structure Links (ε : Type) where
  inbox : List UInt8
  outbox : List UInt8
  stdin : List UInt8
  log : List ε

/-- The next call of a program, of which `i` bytes are carried, at time `t`. A stream holds at most
`cap` bytes on their way. A read finds the end of the stream when the peer has ended and no byte is
left. -/
def act (cap : Nat) (peerEnded : Bool) (i : Nat) (t : Int) :
    SockProg ε α → Links ε → Option (SockProg ε α × Links ε)
  | .ret _, _ => none
  | .stuck, _ => none
  | .call (.read n) k, l =>
    if 0 < i ∧ i ≤ n ∧ i ≤ l.inbox.length then
      some (k (some (l.inbox.take i)), { l with inbox := l.inbox.drop i })
    else if i = 0 ∧ l.inbox = [] ∧ peerEnded then some (k (some []), l)
    else none
  | .call (.write b) k, l =>
    if 0 < i ∧ i ≤ b.length ∧ l.outbox.length + i ≤ cap then
      some (k (some i), { l with outbox := l.outbox ++ b.take i })
    else none
  | .call (.fgets n) k, l => some (k (fgets n l.stdin).1, { l with stdin := (fgets n l.stdin).2 })
  | .call .time k, l => some (k t, l)
  | .call .flag k, l => some (k true, l)
  | .call (.mark e) k, l => some (k (), { l with log := l.log ++ [e] })

/-- The program waits for its peer: in a read of an empty stream that the peer has not ended, or in
a write to a full one. -/
def Waits (cap : Nat) (peerEnded : Bool) : SockProg ε α → Links ε → Prop
  | .call (.read _) _, l => l.inbox = [] ∧ peerEnded = false
  | .call (.write _) _, l => cap ≤ l.outbox.length
  | _, _ => False

/-- The program has ended. -/
def ended : SockProg ε α → Bool
  | .ret _ => true
  | _ => false

/-- Bytes on their way to a program that reads them, all of which the peer has written if it has
ended. -/
theorem Reads.act {cap : Nat} {peerEnded : Bool} {i : Nat} {t : Int} {p q p' : SockProg ε α}
    {l l' : Links ε} {rest : List UInt8} (h : Reads p (l.inbox ++ rest) q)
    (hne : l.inbox ++ rest ≠ []) (hrest : peerEnded = true → rest = [])
    (hact : CLib.act cap peerEnded i t p l = some (p', l')) :
    ∃ j, l' = { l with inbox := l.inbox.drop j } ∧ Reads p' (l'.inbox ++ rest) q := by
  generalize hb : l.inbox ++ rest = b at *
  cases h with
  | done => exact absurd rfl hne
  | @read n k b q hn hle h =>
    simp only [CLib.act] at hact
    split at hact
    · next hi =>
      obtain ⟨rfl, rfl⟩ := Prod.mk.inj (Option.some.inj hact)
      refine ⟨i, rfl, ?_⟩
      have hstep := h i hi.1 hi.2.1
      rw [← hb, List.take_append_of_le_length hi.2.2, List.drop_append_of_le_length hi.2.2]
        at hstep
      exact hstep
    · split at hact
      · next hend =>
        obtain ⟨-, hnil, hpeer⟩ := hend
        rw [hnil, hrest hpeer] at hb
        exact absurd hb.symm hne
      · cases hact
  | flag hb' h =>
    obtain ⟨rfl, rfl⟩ := Prod.mk.inj (Option.some.inj hact)
    exact ⟨0, rfl, by rw [hb]; exact h⟩

/-- A program at the end of the stream. -/
theorem Drains.act {cap : Nat} {i : Nat} {t : Int} {peerEnded : Bool} {p q p' : SockProg ε α}
    {l l' : Links ε} (h : Drains p [] q) (hnil : l.inbox = [])
    (hact : CLib.act cap peerEnded i t p l = some (p', l')) :
    l' = l ∧ ((peerEnded = true ∧ p' = q) ∨ Drains p' [] q) := by
  generalize hb : ([] : List UInt8) = b at *
  cases h with
  | eof n k =>
    simp only [CLib.act] at hact
    split at hact
    · next hi =>
      rw [hnil, List.length_nil] at hi
      omega
    · split at hact
      · next hend =>
        obtain ⟨rfl, rfl⟩ := Prod.mk.inj (Option.some.inj hact)
        exact ⟨rfl, .inl ⟨hend.2.2, rfl⟩⟩
      · cases hact
  | read _ hne _ => exact absurd hb.symm hne
  | flag h =>
    obtain ⟨rfl, rfl⟩ := Prod.mk.inj (Option.some.inj hact)
    exact ⟨rfl, .inr h⟩

/-- Bytes that a program still has to write. -/
theorem Writes.act {cap : Nat} {peerEnded : Bool} {i : Nat} {t : Int} {p q p' : SockProg ε α}
    {l l' : Links ε} {b : List UInt8} (h : Writes p b q) (hne : b ≠ [])
    (hact : CLib.act cap peerEnded i t p l = some (p', l')) :
    ∃ j, l' = { l with outbox := l.outbox ++ b.take j } ∧ Writes p' (b.drop j) q := by
  cases h with
  | done => exact absurd rfl hne
  | @write w k b q hw hpre h =>
    simp only [CLib.act] at hact
    split at hact
    · next hi =>
      obtain ⟨rfl, rfl⟩ := Prod.mk.inj (Option.some.inj hact)
      refine ⟨i, ?_, h i hi.1 hi.2.1⟩
      obtain ⟨r, rfl⟩ := hpre
      rw [List.take_append_of_le_length hi.2.1]
    · cases hact

/-- The next call of a program can be made. -/
def CanAct (cap : Nat) (peerEnded : Bool) (p : SockProg ε α) (l : Links ε) : Prop :=
  ∃ i t r, act cap peerEnded i t p l = some r

theorem Reads.not_ended {p q : SockProg ε α} {b : List UInt8} (h : Reads p b q) (hne : b ≠ []) :
    ended p = false := by
  cases h with
  | done => exact absurd rfl hne
  | read _ _ _ => rfl
  | flag _ _ => rfl

theorem Reads.not_ended_of {p q : SockProg ε α} {b : List UInt8} (h : Reads p b q)
    (hq : ended q = false) : ended p = false := by
  cases h with
  | done => exact hq
  | read _ _ _ => rfl
  | flag _ _ => rfl

theorem Writes.not_ended {p q : SockProg ε α} {b : List UInt8} (h : Writes p b q)
    (hne : b ≠ []) : ended p = false := by
  cases h with
  | done => exact absurd rfl hne
  | write _ _ _ => rfl

theorem Reads.canAct {cap : Nat} {peerEnded : Bool} {p q : SockProg ε α} {l : Links ε}
    {b : List UInt8} (h : Reads p b q) (hne : b ≠ []) (hin : l.inbox ≠ []) :
    CanAct cap peerEnded p l := by
  cases h with
  | done => exact absurd rfl hne
  | @read n k b q hn hle h =>
    have hpos := List.length_pos_of_ne_nil hin
    refine ⟨1, 0, _, if_pos ⟨Nat.one_pos, hn, hpos⟩⟩
  | flag _ _ => exact ⟨0, 0, _, rfl⟩

theorem Writes.canAct {cap : Nat} {peerEnded : Bool} {p q : SockProg ε α} {l : Links ε}
    {b : List UInt8} (h : Writes p b q) (hne : b ≠ []) (hout : l.outbox.length < cap) :
    CanAct cap peerEnded p l := by
  cases h with
  | done => exact absurd rfl hne
  | @write w k b q hw hpre h =>
    have hpos := List.length_pos_of_ne_nil hw
    exact ⟨1, 0, _, if_pos ⟨Nat.one_pos, hpos, hout⟩⟩

theorem Drains.canAct {cap : Nat} {p q : SockProg ε α} {l : Links ε} (h : Drains p [] q)
    (hin : l.inbox = []) : CanAct cap true p l := by
  generalize hb : ([] : List UInt8) = b at *
  cases h with
  | eof n k =>
    refine ⟨0, 0, (k (some []), l), ?_⟩
    rw [CLib.act, if_neg (by omega), if_pos ⟨rfl, by rw [hin, hb], rfl⟩]
  | read _ hne _ => exact absurd hb.symm hne
  | flag _ => exact ⟨0, 0, _, rfl⟩

/-- Who waits cannot go on. -/
theorem CanAct.not_waits {cap : Nat} {peerEnded : Bool} {p : SockProg ε α} {l : Links ε}
    (h : CanAct cap peerEnded p l) : ¬ Waits cap peerEnded p l := by
  obtain ⟨i, t, r, hact⟩ := h
  intro hw
  cases p with
  | ret a => cases hact
  | stuck => cases hact
  | call op k =>
    cases op with
    | read n =>
      obtain ⟨hin, hpeer⟩ := hw
      rw [act, hin, hpeer, if_neg (by rw [List.length_nil]; omega), if_neg (by simp)] at hact
      cases hact
    | write b =>
      have hcap : cap ≤ l.outbox.length := hw
      rw [act, if_neg (by omega)] at hact
      cases hact
    | fgets n => exact hw
    | time => exact hw
    | flag => exact hw
    | mark e => exact hw

theorem not_waits_of_ended {cap : Nat} {peerEnded : Bool} {p : SockProg ε α} {l : Links ε}
    (h : ended p = true) : ¬ Waits cap peerEnded p l := by
  intro hw
  cases p with
  | ret a => exact hw
  | stuck => cases h
  | call op k => cases h

/-! ## Both programs -/

/-- Two programs, the bytes on their way from the left to the right one and back, the standard input
of the left one, and the log. -/
structure Duplex (ε α β : Type) where
  left : SockProg ε α
  right : SockProg ε β
  up : List UInt8
  down : List UInt8
  stdin : List UInt8
  log : List ε

/-- Which program goes on, how many bytes its call carries, and the time. -/
structure Move where
  left : Bool
  bytes : Nat
  now : Int

namespace Duplex

/-- What the left program sees. -/
def leftLinks (s : Duplex ε α β) : Links ε := ⟨s.down, s.up, s.stdin, s.log⟩

/-- What the right program sees. -/
def rightLinks (s : Duplex ε α β) : Links ε := ⟨s.up, s.down, [], s.log⟩

/-- The next call of one of the programs. -/
def step (cap : Nat) : Machine.Step (Duplex ε α β) Move Unit := fun s mv =>
  if mv.left then
    (act cap (ended s.right) mv.bytes mv.now s.left s.leftLinks).map fun r =>
      ((), { s with left := r.1, down := r.2.inbox, up := r.2.outbox, stdin := r.2.stdin,
                    log := r.2.log })
  else
    (act cap (ended s.left) mv.bytes mv.now s.right s.rightLinks).map fun r =>
      ((), { s with right := r.1, up := r.2.inbox, down := r.2.outbox, log := r.2.log })

/-- Both programs wait for each other. -/
def Deadlocked (cap : Nat) (s : Duplex ε α β) : Prop :=
  Waits cap (ended s.right) s.left s.leftLinks ∧ Waits cap (ended s.left) s.right s.rightLinks

/-- Both programs have ended, or one of them can go on. -/
def Progress (cap : Nat) (s : Duplex ε α β) : Prop :=
  (ended s.left = true ∧ ended s.right = true) ∨ ∃ mv r, step cap s mv = some r

theorem progress_left {cap : Nat} {s : Duplex ε α β}
    (h : CanAct cap (ended s.right) s.left s.leftLinks) : Progress cap s := by
  obtain ⟨i, t, r, hact⟩ := h
  refine .inr ⟨⟨true, i, t⟩, ?_⟩
  rw [step, if_pos rfl, hact]
  exact ⟨_, rfl⟩

theorem progress_right {cap : Nat} {s : Duplex ε α β}
    (h : CanAct cap (ended s.left) s.right s.rightLinks) : Progress cap s := by
  obtain ⟨i, t, r, hact⟩ := h
  refine .inr ⟨⟨false, i, t⟩, ?_⟩
  rw [step, if_neg Bool.false_ne_true, hact]
  exact ⟨_, rfl⟩

/-- Where one program can go on, they do not wait for each other. -/
theorem Progress.not_deadlocked {cap : Nat} {s : Duplex ε α β} (h : Progress cap s) :
    ¬ s.Deadlocked cap := by
  rintro ⟨hleft, hright⟩
  rcases h with ⟨hend, -⟩ | ⟨mv, r, hstep⟩
  · exact not_waits_of_ended hend hleft
  · unfold step at hstep
    split at hstep
    · obtain ⟨r', hact, -⟩ := Option.map_eq_some_iff.mp hstep
      exact CanAct.not_waits ⟨_, _, _, hact⟩ hleft
    · obtain ⟨r', hact, -⟩ := Option.map_eq_some_iff.mp hstep
      exact CanAct.not_waits ⟨_, _, _, hact⟩ hright

/-- A step is one of the left program or one of the right program. -/
theorem step_cases {cap : Nat} {s s' : Duplex ε α β} {mv : Move} {r : Unit}
    (h : step cap s mv = some (r, s')) :
    (∃ p l, act cap (ended s.right) mv.bytes mv.now s.left s.leftLinks = some (p, l) ∧
      s' = { s with left := p, down := l.inbox, up := l.outbox, stdin := l.stdin, log := l.log }) ∨
    (∃ p l, act cap (ended s.left) mv.bytes mv.now s.right s.rightLinks = some (p, l) ∧
      s' = { s with right := p, up := l.inbox, down := l.outbox, log := l.log }) := by
  unfold step at h
  split at h
  · obtain ⟨⟨p, l⟩, hact, heq⟩ := Option.map_eq_some_iff.mp h
    exact .inl ⟨p, l, hact, (Prod.mk.inj heq).2.symm⟩
  · obtain ⟨⟨p, l⟩, hact, heq⟩ := Option.map_eq_some_iff.mp h
    exact .inr ⟨p, l, hact, (Prod.mk.inj heq).2.symm⟩

end Duplex

end CLib
