import LinuxHandson.Lib.Prog
import Mathlib.Order.Basic

/-!
# Programs on a stream socket

The calls of a program that talks over one connected stream socket, and an environment for it: a
connection that delivers the bytes, and accepts those of the program, in given pieces.

`Reads p b q` says that `p`, however its reads cut the stream, takes exactly the bytes `b` and is
then `q`; `Drains p b q` that it takes `b` and then meets the end of the stream; `Writes p b q` that
it puts out `b`. They compose, and the connection follows them.
-/

namespace CLib

/-- The calls: `read` of at most `n` bytes and `write` on the socket, `fgets` of a line into a
buffer of `n` bytes, `time(NULL)`, a flag that a signal handler may clear, and a mark in the log
of what happened, which no program can see. -/
inductive SysCall (ε : Type) where
  | read (n : Nat)
  | write (b : List UInt8)
  | fgets (n : Nat)
  | time
  | flag
  | mark (e : ε)

variable {ε α β : Type}

/-- What a call answers. A `read` gives no bytes at the end of the stream, and `none` is the return
value -1; `fgets` gives `none` at the end of the input. -/
@[reducible] def SysCall.Res : SysCall ε → Type
  | .read _ => Option (List UInt8)
  | .write _ => Option Nat
  | .fgets _ => Option (List UInt8)
  | .time => Int
  | .flag => Bool
  | .mark _ => Unit

/-- A program over these calls. -/
abbrev SockProg (ε : Type) := Prog (SysCall ε) SysCall.Res

/-- `read` of at most `n` bytes. -/
def sysRead (n : Nat) : SockProg ε (Option (List UInt8)) := .ask (SysCall.read n)

/-- `write` of these bytes. -/
def sysWrite (b : List UInt8) : SockProg ε (Option Nat) := .ask (SysCall.write b)

/-- `fgets` into a buffer of `n` bytes. -/
def sysFgets (n : Nat) : SockProg ε (Option (List UInt8)) := .ask (SysCall.fgets n)

/-- `time(NULL)` -/
def sysTime : SockProg ε Int := .ask SysCall.time

/-- The flag is read. -/
def sysFlag : SockProg ε Bool := .ask SysCall.flag

/-- The mark is put in the log. -/
def sysMark (e : ε) : SockProg ε Unit := .ask (SysCall.mark e)

/-- The newline that ends a line. -/
def newline : UInt8 := 0x0A

/-- At most `n` bytes of a text, through its first newline, and the rest. -/
def splitLine : Nat → List UInt8 → List UInt8 × List UInt8
  | 0, text => ([], text)
  | _ + 1, [] => ([], [])
  | n + 1, b :: text =>
    if b = newline then ([b], text)
    else (b :: (splitLine n text).1, (splitLine n text).2)

/-- `fgets(buf, n, stdin)` -/
def fgets (n : Nat) (text : List UInt8) : Option (List UInt8) × List UInt8 :=
  if text = [] then (none, []) else (some (splitLine (n - 1) text).1, (splitLine (n - 1) text).2)

/-! ## What a program reads and writes -/

/-- However its reads cut the stream, `p` takes the bytes `b` and is then `q`. On the way the flag
stays set. -/
inductive Reads : SockProg ε α → List UInt8 → SockProg ε α → Prop where
  /-- Nothing to read. -/
  | done (p : SockProg ε α) : Reads p [] p
  /-- Any non-empty piece of what the call asks for. -/
  | read {n : Nat} {k : Option (List UInt8) → SockProg ε α} {b : List UInt8} {q : SockProg ε α}
      (hn : 0 < n) (hle : n ≤ b.length)
      (h : ∀ i, 0 < i → i ≤ n → Reads (k (some (b.take i))) (b.drop i) q) :
      Reads (.call (.read n) k) b q
  /-- A look at the flag before the next read. -/
  | flag {k : Bool → SockProg ε α} {b : List UInt8} {q : SockProg ε α} (hb : b ≠ [])
      (h : Reads (k true) b q) : Reads (.call .flag k) b q

/-- However its reads cut the stream, `p` takes the bytes `b`, finds the end of the stream after
them, and is then `q`. -/
inductive Drains : SockProg ε α → List UInt8 → SockProg ε α → Prop where
  /-- The end of the stream. -/
  | eof (n : Nat) (k : Option (List UInt8) → SockProg ε α) :
      Drains (.call (.read n) k) [] (k (some []))
  /-- Any non-empty piece of what there is. -/
  | read {n : Nat} {k : Option (List UInt8) → SockProg ε α} {b : List UInt8} {q : SockProg ε α}
      (hn : 0 < n) (hb : b ≠ [])
      (h : ∀ i, 0 < i → i ≤ n → Drains (k (some (b.take i))) (b.drop i) q) :
      Drains (.call (.read n) k) b q
  /-- A look at the flag before the next read. -/
  | flag {k : Bool → SockProg ε α} {b : List UInt8} {q : SockProg ε α}
      (h : Drains (k true) b q) : Drains (.call .flag k) b q

/-- However its writes are cut short, `p` puts out the bytes `b` and is then `q`. -/
inductive Writes : SockProg ε α → List UInt8 → SockProg ε α → Prop where
  /-- Nothing to write. -/
  | done (p : SockProg ε α) : Writes p [] p
  /-- Any non-empty piece of what the call offers. -/
  | write {w : List UInt8} {k : Option Nat → SockProg ε α} {b : List UInt8} {q : SockProg ε α}
      (hw : w ≠ []) (hpre : w <+: b)
      (h : ∀ i, 0 < i → i ≤ w.length → Writes (k (some i)) (b.drop i) q) :
      Writes (.call (.write w) k) b q

theorem Reads.trans {p q r : SockProg ε α} {a b : List UInt8} (h : Reads p a q)
    (h' : Reads q b r) : Reads p (a ++ b) r := by
  induction h with
  | done p => exact h'
  | read hn hle _ ih =>
    refine Reads.read hn (by rw [List.length_append]; omega) fun i hi hin => ?_
    rw [List.take_append_of_le_length (Nat.le_trans hin hle),
      List.drop_append_of_le_length (Nat.le_trans hin hle)]
    exact ih i hi hin h'
  | flag hb _ ih => exact Reads.flag (fun h0 => hb (List.append_eq_nil_iff.mp h0).1) (ih h')

theorem Reads.bind {p q : SockProg ε α} {b : List UInt8} (h : Reads p b q)
    (f : α → SockProg ε β) : Reads (p >>= f) b (q >>= f) := by
  induction h with
  | done p => exact Reads.done _
  | read hn hle _ ih => exact Reads.read hn hle ih
  | flag hb _ ih => exact Reads.flag hb ih

theorem Reads.drains {p q r : SockProg ε α} {a b : List UInt8} (h : Reads p a q)
    (h' : Drains q b r) : Drains p (a ++ b) r := by
  induction h with
  | done p => exact h'
  | @read n k a q hn hle _ ih =>
    have hne : a ++ b ≠ [] := by
      intro h0
      rw [(List.append_eq_nil_iff.mp h0).1, List.length_nil] at hle
      omega
    refine Drains.read hn hne fun i hi hin => ?_
    rw [List.take_append_of_le_length (Nat.le_trans hin hle),
      List.drop_append_of_le_length (Nat.le_trans hin hle)]
    exact ih i hi hin h'
  | flag _ _ ih => exact Drains.flag (ih h')

theorem Drains.bind {p q : SockProg ε α} {b : List UInt8} (h : Drains p b q)
    (f : α → SockProg ε β) : Drains (p >>= f) b (q >>= f) := by
  induction h with
  | eof n k => exact Drains.eof n _
  | read hn hb _ ih => exact Drains.read hn hb ih
  | flag _ ih => exact Drains.flag ih

theorem Writes.trans {p q r : SockProg ε α} {a b : List UInt8} (h : Writes p a q)
    (h' : Writes q b r) : Writes p (a ++ b) r := by
  induction h with
  | done p => exact h'
  | @write w k a q hw hpre _ ih =>
    refine Writes.write hw (hpre.trans (List.prefix_append a b)) fun i hi hin => ?_
    rw [List.drop_append_of_le_length (Nat.le_trans hin hpre.length_le)]
    exact ih i hi hin h'

theorem Writes.bind {p q : SockProg ε α} {b : List UInt8} (h : Writes p b q)
    (f : α → SockProg ε β) : Writes (p >>= f) b (q >>= f) := by
  induction h with
  | done p => exact Writes.done _
  | write hw hpre _ ih => exact Writes.write hw hpre ih

theorem Reads.eq_of_nil {p q : SockProg ε α} (h : Reads p [] q) : p = q := by
  cases h with
  | done => rfl
  | read hn hle _ =>
    rw [List.length_nil] at hle
    exact absurd hn (Nat.not_lt.mpr hle)
  | flag hb _ => exact absurd rfl hb

theorem Writes.eq_of_nil {p q : SockProg ε α} (h : Writes p [] q) : p = q := by
  cases h with
  | done => rfl
  | write hw hpre _ => exact absurd (List.prefix_nil.mp hpre) hw

/-! ## A program alone with a connection -/

/-- What arrives at the socket: a piece of at least one byte, or an error. -/
inductive Arrival where
  | data (b : UInt8) (bs : List UInt8)
  | error
deriving DecidableEq

/-- The bytes of an arrival. -/
def Arrival.bytes : Arrival → List UInt8
  | .data b bs => b :: bs
  | .error => []

/-- What is left of a piece comes before what arrives later. -/
def pushBack : List UInt8 → List Arrival → List Arrival
  | [], rest => rest
  | b :: bs, rest => .data b bs :: rest

/-- A connection: what arrives, the text on standard input, the bytes the peer got, what further
writes accept (`none` is an error, the end of the list acceptance of everything), the flag, the
clock, and the log. -/
structure Conn (ε : Type) where
  input : List Arrival
  stdin : List UInt8
  output : List UInt8
  writes : List (Option Nat)
  flag : Bool
  clock : Nat → Int
  ticks : Nat
  log : List ε

/-- How a connection answers a call. -/
def conn : Prog.Handler (SysCall ε) SysCall.Res (Conn ε)
  | .read n, c =>
    match c.input with
    | [] => (some [], c)
    | .error :: rest => (none, { c with input := rest })
    | .data b bs :: rest =>
      (some ((b :: bs).take n), { c with input := pushBack ((b :: bs).drop n) rest })
  | .write b, c =>
    match c.writes with
    | [] => (some b.length, { c with output := c.output ++ b })
    | none :: rest => (none, { c with writes := rest })
    | some k :: rest =>
      (some (min k b.length), { c with output := c.output ++ b.take k, writes := rest })
  | .fgets n, c => ((fgets n c.stdin).1, { c with stdin := (fgets n c.stdin).2 })
  | .time, c => (c.clock c.ticks, { c with ticks := c.ticks + 1 })
  | .flag, c => (c.flag, c)
  | .mark e, c => ((), { c with log := c.log ++ [e] })

namespace Conn

/-- The bytes that arrive before the end of the stream. -/
def bytes (c : Conn ε) : List UInt8 := c.input.flatMap Arrival.bytes

/-- No read fails, every write accepts at least one byte, and the flag stays set. -/
structure Healthy (c : Conn ε) : Prop where
  reads : ∀ a ∈ c.input, a ≠ .error
  writes : ∀ w ∈ c.writes, ∃ k, w = some (k + 1)
  flag : c.flag = true

theorem flatMap_pushBack (b : List UInt8) (rest : List Arrival) :
    (pushBack b rest).flatMap Arrival.bytes = b ++ rest.flatMap Arrival.bytes := by
  cases b with
  | nil => rfl
  | cons b bs => rfl

theorem ne_error_of_mem_pushBack {b : List UInt8} {rest : List Arrival}
    (h : ∀ a ∈ rest, a ≠ .error) : ∀ a ∈ pushBack b rest, a ≠ .error := by
  cases b with
  | nil => exact h
  | cons b bs =>
    intro a ha
    rcases List.mem_cons.mp ha with rfl | ha
    · exact Arrival.noConfusion
    · exact h a ha

/-- A read that finds bytes: it takes a non-empty piece of them. -/
theorem Healthy.read {c : Conn ε} (hc : c.Healthy) {n : Nat} (hn : 0 < n) (hb : c.bytes ≠ []) :
    ∃ i input, 0 < i ∧ i ≤ n ∧ Healthy { c with input := input } ∧
      input.flatMap Arrival.bytes = c.bytes.drop i ∧
      conn (.read n) c = (some (c.bytes.take i), { c with input := input }) := by
  rcases hin : c.input with _ | ⟨a, rest⟩
  · exact absurd (by rw [bytes, hin]; rfl) hb
  · have hrest : ∀ a ∈ rest, a ≠ .error := fun a ha => hc.reads a (by rw [hin]; simp [ha])
    cases a with
    | error => exact absurd rfl (hc.reads .error (by rw [hin]; simp))
    | data b bs =>
      have hbytes : c.bytes = (b :: bs) ++ rest.flatMap Arrival.bytes := by
        rw [bytes, hin]
        rfl
      refine ⟨min n (b :: bs).length, pushBack ((b :: bs).drop n) rest, ?_, Nat.min_le_left _ _,
        ⟨ne_error_of_mem_pushBack hrest, hc.writes, hc.flag⟩, ?_, ?_⟩
      · rw [List.length_cons]
        omega
      · rw [flatMap_pushBack, hbytes, List.drop_append_of_le_length (Nat.min_le_right _ _),
          List.drop_eq_drop_min]
      · rw [hbytes, List.take_append_of_le_length (Nat.min_le_right _ _), ← List.take_eq_take_min]
        simp only [conn, hin]

/-- A read at the end of the stream. -/
theorem Healthy.read_end {c : Conn ε} (hc : c.Healthy) (hb : c.bytes = []) (n : Nat) :
    conn (.read n) c = (some [], c) := by
  rcases hin : c.input with _ | ⟨a, rest⟩
  · simp only [conn, hin]
  · cases a with
    | error => exact absurd rfl (hc.reads .error (by rw [hin]; simp))
    | data b bs =>
      rw [bytes, hin] at hb
      exact absurd hb (by simp [Arrival.bytes])

/-- A write takes a non-empty piece of what it is offered. -/
theorem Healthy.write {c : Conn ε} (hc : c.Healthy) {w : List UInt8} (hw : w ≠ []) :
    ∃ i writes, 0 < i ∧ i ≤ w.length ∧ Healthy { c with writes := writes } ∧
      conn (.write w) c =
        (some i, { c with output := c.output ++ w.take i, writes := writes }) := by
  have hpos := List.length_pos_of_ne_nil hw
  rcases hws : c.writes with _ | ⟨a, rest⟩
  · refine ⟨w.length, [], hpos, Nat.le_refl _, ⟨hc.reads, by simp, hc.flag⟩, ?_⟩
    simp only [conn, hws, List.take_length]
  · obtain ⟨k, rfl⟩ := hc.writes a (by rw [hws]; simp)
    have hrest : ∀ w ∈ rest, ∃ k, w = some (k + 1) :=
      fun w hw => hc.writes w (by rw [hws]; simp [hw])
    refine ⟨min (k + 1) w.length, rest, by omega, Nat.min_le_right _ _,
      ⟨hc.reads, hrest, hc.flag⟩, ?_⟩
    rw [← List.take_eq_take_min]
    simp only [conn, hws]

/-- A connection that delivers `b` in two pieces, cut after `n` bytes, and whose first writes are
short. -/
def cutAfter (n : Nat) (b : List UInt8) : Conn ε where
  input := pushBack (b.take n) (pushBack (b.drop n) [])
  stdin := []
  output := []
  writes := [some 5, some 1]
  flag := true
  clock := fun _ => 0
  ticks := 0
  log := []

theorem bytes_cutAfter (n : Nat) (b : List UInt8) : (cutAfter n b : Conn ε).bytes = b := by
  show (pushBack (b.take n) (pushBack (b.drop n) [])).flatMap Arrival.bytes = b
  rw [flatMap_pushBack, flatMap_pushBack, List.flatMap_nil, List.append_nil,
    List.take_append_drop]

theorem healthy_cutAfter (n : Nat) (b : List UInt8) : (cutAfter n b : Conn ε).Healthy := by
  constructor
  · exact ne_error_of_mem_pushBack (ne_error_of_mem_pushBack (by simp))
  · intro w hw
    rcases List.mem_cons.mp hw with rfl | hw
    · exact ⟨4, rfl⟩
    · exact ⟨0, List.mem_singleton.mp hw⟩
  · rfl

end Conn

/-- On a healthy connection a program takes the bytes that it reads. -/
theorem Reads.run {p q : SockProg ε α} {b : List UInt8} (h : Reads p b q) :
    ∀ (c : Conn ε) (rest : List UInt8), c.Healthy → c.bytes = b ++ rest →
      ∃ input, Conn.Healthy { c with input := input } ∧ input.flatMap Arrival.bytes = rest ∧
        p.run conn c = q.run conn { c with input := input } := by
  induction h with
  | done p =>
    intro c rest hc hb
    exact ⟨c.input, hc, hb, rfl⟩
  | @read n k b q hn hle _ ih =>
    intro c rest hc hb
    have hne : c.bytes ≠ [] := by
      intro h0
      have := congrArg List.length (hb.symm.trans h0)
      simp only [List.length_append, List.length_nil] at this
      omega
    obtain ⟨i, input, hi, hin, hc', hinput, hcall⟩ := hc.read hn hne
    have htake : c.bytes.take i = b.take i := by
      rw [hb, List.take_append_of_le_length (Nat.le_trans hin hle)]
    have hdrop : c.bytes.drop i = b.drop i ++ rest := by
      rw [hb, List.drop_append_of_le_length (Nat.le_trans hin hle)]
    obtain ⟨input', hc'', hrest, hrun⟩ :=
      ih i hi hin { c with input := input } rest hc' (hinput.trans hdrop)
    refine ⟨input', hc'', hrest, ?_⟩
    rw [Prog.run_call, hcall, htake]
    exact hrun
  | flag _ _ ih =>
    intro c rest hc hb
    obtain ⟨input, hc', hrest, hrun⟩ := ih c rest hc hb
    refine ⟨input, hc', hrest, ?_⟩
    rw [← hrun, Prog.run_call]
    simp only [conn, hc.flag]

/-- On a healthy connection that carries no more bytes than a program takes, the program finds its
end. -/
theorem Drains.run {p q : SockProg ε α} {b : List UInt8} (h : Drains p b q) :
    ∀ c : Conn ε, c.Healthy → c.bytes = b →
      ∃ input, Conn.Healthy { c with input := input } ∧ input.flatMap Arrival.bytes = [] ∧
        p.run conn c = q.run conn { c with input := input } := by
  induction h with
  | eof n k =>
    intro c hc hb
    refine ⟨c.input, hc, hb, ?_⟩
    rw [Prog.run_call, hc.read_end hb]
  | @read n k b q hn hne _ ih =>
    intro c hc hb
    obtain ⟨i, input, hi, hin, hc', hinput, hcall⟩ := hc.read hn (by rw [hb]; exact hne)
    rw [hb] at hinput hcall
    obtain ⟨input', hc'', hrest, hrun⟩ := ih i hi hin { c with input := input } hc' hinput
    refine ⟨input', hc'', hrest, ?_⟩
    rw [Prog.run_call, hcall]
    exact hrun
  | flag _ ih =>
    intro c hc hb
    obtain ⟨input, hc', hrest, hrun⟩ := ih c hc hb
    refine ⟨input, hc', hrest, ?_⟩
    rw [← hrun, Prog.run_call]
    simp only [conn, hc.flag]

/-- On a healthy connection a program puts out the bytes that it writes. -/
theorem Writes.run {p q : SockProg ε α} {b : List UInt8} (h : Writes p b q) :
    ∀ c : Conn ε, c.Healthy →
      ∃ writes, Conn.Healthy { c with output := c.output ++ b, writes := writes } ∧
        p.run conn c = q.run conn { c with output := c.output ++ b, writes := writes } := by
  induction h with
  | done p =>
    intro c hc
    refine ⟨c.writes, ?_⟩
    rw [List.append_nil]
    exact ⟨hc, rfl⟩
  | @write w k b q hw hpre _ ih =>
    intro c hc
    obtain ⟨i, writes, hi, hin, hc', hcall⟩ := hc.write hw
    obtain ⟨writes', hc'', hrun⟩ := ih i hi hin
      { c with output := c.output ++ w.take i, writes := writes } ⟨hc'.reads, hc'.writes, hc'.flag⟩
    refine ⟨writes', ⟨hc''.reads, hc''.writes, hc''.flag⟩, ?_⟩
    have htake : w.take i = b.take i := by
      obtain ⟨r, rfl⟩ := hpre
      rw [List.take_append_of_le_length hin]
    have hout : c.output ++ w.take i ++ b.drop i = c.output ++ b := by
      rw [htake, List.append_assoc, List.take_append_drop]
    rw [Prog.run_call, hcall]
    rw [hout] at hrun
    exact hrun

end CLib
