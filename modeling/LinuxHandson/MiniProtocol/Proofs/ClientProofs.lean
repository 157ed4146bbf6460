import LinuxHandson.MiniProtocol.Session
import LinuxHandson.MiniProtocol.Proofs.CodecProofs

/-!
# The requests of the client

`main` makes one exchange for each request of `requests`, in order: it writes the frame of the
request, takes one frame as the reply, and only then looks at the next line.
-/

namespace MiniProtocol

open CLib

/-! ## Lines -/

theorem splitLine_lengths (n : Nat) :
    ∀ text : List UInt8, (splitLine n text).1.length ≤ n ∧
      (splitLine n text).1.length + (splitLine n text).2.length = text.length := by
  induction n with
  | zero => intro text; exact ⟨Nat.le_refl 0, Nat.zero_add _⟩
  | succ n ih =>
    intro text
    cases text with
    | nil => exact ⟨Nat.zero_le _, rfl⟩
    | cons b text =>
      obtain ⟨hle, hsum⟩ := ih text
      rw [splitLine]
      split
      · constructor
        · exact Nat.succ_le_succ (Nat.zero_le n)
        · exact Nat.add_comm 1 text.length
      · constructor
        · exact Nat.succ_le_succ hle
        · show (splitLine n text).1.length + 1 + (splitLine n text).2.length = text.length + 1
          omega

theorem splitLine_ne_nil (n : Nat) {text : List UInt8} (h : text ≠ []) :
    (splitLine (n + 1) text).1 ≠ [] := by
  cases text with
  | nil => exact absurd rfl h
  | cons b text =>
    rw [splitLine]
    split
    · exact List.cons_ne_nil _ _
    · exact List.cons_ne_nil _ _

theorem strlen_lineText_le (piece : List UInt8) : strlen (lineText piece) ≤ piece.length := by
  have hbuf : strlen (CStr.ofBuf piece) ≤ piece.length :=
    List.Sublist.length_le (List.takeWhile_sublist _)
  rw [lineText]
  split
  · refine Nat.le_trans ?_ hbuf
    show ((CStr.ofBuf piece).bytes.take _).length ≤ _
    rw [List.length_take]
    exact Nat.min_le_right _ _
  · exact hbuf

/-! ## Exchanges -/

/-- The program takes a frame, marks it as a reply, and is then `K`. -/
def Expects (p K : SockProg Event Unit) : Prop :=
  ∀ r : Message, Reads p r.encode (do
    sysMark (.reply (some r.parts))
    K)

/-- The types of requests. -/
def IsRequest (m : Message) : Prop :=
  m.type = msgHello ∨ m.type = msgData ∨ m.type = msgStatus ∨ m.type = msgBye

/-- With the text `stdin` on its standard input the program makes one exchange for each of the
requests and ends; after a BYE it ends at once. -/
inductive Asks : SockProg Event Unit → List UInt8 → List (UInt8 × UInt16 × List UInt8) → Prop where
  | done (stdin : List UInt8) : Asks (return ()) stdin []
  | line {n : Nat} {k : Option (List UInt8) → SockProg Event Unit} {stdin : List UInt8}
      {reqs : List (UInt8 × UInt16 × List UInt8)}
      (h : Asks (k (fgets n stdin).1) (fgets n stdin).2 reqs) :
      Asks (.call (.fgets n) k) stdin reqs
  | exchange {m : Message} {k : Unit → SockProg Event Unit} {recv K : SockProg Event Unit}
      {stdin : List UInt8} {reqs : List (UInt8 × UInt16 × List UInt8)} (hm : IsRequest m)
      (hw : Writes (k ()) m.encode recv) (hr : Expects recv K) (hK : Asks K stdin reqs)
      (hbye : m.type = msgBye → K = pure () ∧ reqs = []) :
      Asks (.call (.mark (.request m.parts)) k) stdin (m.parts :: reqs)

/-- The part of `exchange` after the request. -/
def takeReply : SockProg Event Unit := do
  let resp ← recvMessage maxPayload
  sysMark (.reply (resp.map fun r => r.1.parts r.2))

theorem expects_takeReply (K : SockProg Event Unit) : Expects (do takeReply; K) K := by
  intro r
  have h := ((recvMessage_reads r).bind fun resp =>
    sysMark (.reply (resp.map fun r => r.1.parts r.2))).bind fun _ => K
  rw [Prog.ret_bind, Option.map_some, r.header_parts] at h
  exact h

section Exchange

variable {m : Message} {K : SockProg Event Unit} {stdin : List UInt8}
  {reqs : List (UInt8 × UInt16 × List UInt8)}

theorem exchange_asks (hm : IsRequest m) (hK : Asks K stdin reqs)
    (hbye : m.type = msgBye → K = pure () ∧ reqs = []) :
    Asks (do exchange m.type m.seq (some m.payload) m.len; K) stdin (m.parts :: reqs) := by
  have hparts : (m.type, m.seq, ((some m.payload).getD []).take m.len.toNat) = m.parts := by
    rw [Option.getD_some, m.len_toNat, List.take_length]
    rfl
  have hw := ((sendMessage_encode m).bind fun _ => takeReply).bind fun _ => K
  rw [exchange, hparts]
  exact Asks.exchange hm hw (expects_takeReply K) hK hbye

theorem exchange_null_asks (hm : IsRequest m) (hnil : m.payload = []) (hK : Asks K stdin reqs)
    (hbye : m.type = msgBye → K = pure () ∧ reqs = []) :
    Asks (do exchange m.type m.seq none 0; K) stdin (m.parts :: reqs) := by
  have hparts : (m.type, m.seq, ((none : Option (List UInt8)).getD []).take (0 : UInt32).toNat) =
      m.parts := by
    rw [Message.parts, hnil]
    rfl
  have hw := ((sendMessage_null hnil).bind fun _ => takeReply).bind fun _ => K
  rw [exchange, hparts]
  exact Asks.exchange hm hw (expects_takeReply K) hK hbye

end Exchange

/-! ## The loop over the lines -/

theorem pieces_nil (n : Nat) : pieces n [] = [] := by
  cases n with
  | zero => rfl
  | succ n => rfl

/-- One line, and what the loop does with the lines after it. -/
theorem line_asks {fuel : Nat} {line : CStr} (hfits : strlen line ≤ 4096) {rest : List UInt8}
    {lines : List CStr}
    (hloop : ∀ seq, Asks (clientLoop fuel seq) rest (commands seq lines)) (seq : UInt16) :
    Asks
      (if strlen line = 0 then clientLoop fuel seq
      else if strcmp line cmdStatus = 0 then do
        exchange msgStatus (seq + 1) none 0
        clientLoop fuel (seq + 1)
      else if strcmp line cmdQuit = 0 then exchange msgBye (seq + 1) none 0
      else do
        exchange msgData (seq + 1) (some line.bytes) (UInt32.ofNat (strlen line))
        clientLoop fuel (seq + 1))
      rest (commands seq (line :: lines)) := by
  rw [commands]
  by_cases hempty : line.bytes = []
  · have h0 : strlen line = 0 := by rw [strlen, hempty, List.length_nil]
    rw [if_pos h0, if_pos hempty]
    exact hloop seq
  have h0 : ¬ strlen line = 0 := fun h => hempty (List.eq_nil_of_length_eq_zero h)
  rw [if_neg h0, if_neg hempty]
  by_cases hstatus : line = cmdStatus
  · rw [if_pos (strcmp_eq_zero.mpr hstatus), if_pos hstatus]
    exact exchange_null_asks (m := ⟨msgStatus, seq + 1, [], by decide⟩) (.inr (.inr (.inl rfl)))
      rfl (hloop (seq + 1)) (fun h => absurd h (by show msgStatus ≠ msgBye; decide))
  rw [if_neg (fun h => hstatus (strcmp_eq_zero.mp h)), if_neg hstatus]
  by_cases hquit : line = cmdQuit
  · rw [if_pos (strcmp_eq_zero.mpr hquit), if_pos hquit]
    have h := exchange_null_asks (m := ⟨msgBye, seq + 1, [], by decide⟩)
      (.inr (.inr (.inr rfl))) rfl (Asks.done rest) (fun _ => ⟨rfl, rfl⟩)
    rw [Prog.bind_ret] at h
    exact h
  · rw [if_neg (fun h => hquit (strcmp_eq_zero.mp h)), if_neg hquit]
    exact exchange_asks (m := ⟨msgData, seq + 1, line.bytes, hfits⟩) (.inr (.inl rfl))
      (hloop (seq + 1)) (fun h => absurd h (by show msgData ≠ msgBye; decide))

/-- The loop asks for what the lines say. -/
theorem clientLoop_asks (fuel : Nat) :
    ∀ (n : Nat) (seq : UInt16) (stdin : List UInt8), stdin.length < fuel → stdin.length < n →
      Asks (clientLoop fuel seq) stdin (commands seq ((pieces n stdin).map lineText)) := by
  induction fuel with
  | zero => intro n seq stdin hf; omega
  | succ fuel ih =>
    intro n seq stdin hf hn
    obtain ⟨n, rfl⟩ := Nat.exists_eq_succ_of_ne_zero (by omega : n ≠ 0)
    rw [clientLoop]
    refine Asks.line ?_
    by_cases hstdin : stdin = []
    · rw [hstdin, pieces_nil]
      exact Asks.done _
    · obtain ⟨hle, hsum⟩ := splitLine_lengths 1023 stdin
      have hpos : 0 < (splitLine 1023 stdin).1.length :=
        List.length_pos_of_ne_nil (splitLine_ne_nil 1022 hstdin)
      have hfgets : fgets sizeofLine stdin =
          (some (splitLine 1023 stdin).1, (splitLine 1023 stdin).2) := if_neg hstdin
      have hfits : strlen (lineText (splitLine 1023 stdin).1) ≤ 4096 := by
        have := strlen_lineText_le (splitLine 1023 stdin).1
        omega
      rw [pieces, hfgets]
      exact line_asks hfits
        (fun seq => ih n seq (splitLine 1023 stdin).2 (by omega) (by omega)) seq

theorem length_hello (pid : Nat) : (hello pid).length = 32 := by
  rw [hello, List.length_append, List.length_replicate, List.length_take]
  omega

theorem clientMain_asks (pid : Nat) (stdin : List UInt8) {fuel : Nat} (hf : stdin.length < fuel) :
    Asks (clientMain pid fuel) stdin (requests pid stdin) := by
  have hfits : (hello pid).length ≤ 4096 := by
    rw [length_hello]
    decide
  have hlen : Message.len ⟨msgHello, 1, hello pid, hfits⟩ = 32 := by
    rw [Message.len, length_hello]
    rfl
  have h := exchange_asks (m := ⟨msgHello, 1, hello pid, hfits⟩) (.inl rfl)
    (clientLoop_asks fuel (stdin.length + 1) 1 stdin hf (Nat.lt_succ_self _))
    (fun h => absurd h (by show msgHello ≠ msgBye; decide))
  rw [hlen] at h
  exact h

/-! ## Sequence numbers and the number of requests -/

theorem commands_seq (lines : List CStr) :
    ∀ (n k : Nat) (m : UInt8 × UInt16 × List UInt8),
      (commands (UInt16.ofNat n) lines)[k]? = some m → m.2.1 = UInt16.ofNat (n + (k + 1)) := by
  induction lines with
  | nil => intro n k m h; cases h
  | cons line lines ih =>
    have hcons : ∀ (n k : Nat) (a m : UInt8 × UInt16 × List UInt8), a.2.1 = UInt16.ofNat n + 1 →
        (a :: commands (UInt16.ofNat n + 1) lines)[k]? = some m →
        m.2.1 = UInt16.ofNat (n + (k + 1)) := by
      intro n k a m ha hm
      have hsucc : UInt16.ofNat n + 1 = UInt16.ofNat (n + 1) := by
        rw [UInt16.ofNat_add]
        rfl
      rw [hsucc] at ha hm
      cases k with
      | zero =>
        rw [List.getElem?_cons_zero] at hm
        rw [← Option.some.inj hm]
        exact ha
      | succ k =>
        rw [List.getElem?_cons_succ] at hm
        rw [ih (n + 1) k m hm]
        congr 1
        omega
    intro n k m h
    rw [commands] at h
    split at h
    · exact ih n k m h
    · split at h
      · exact hcons n k _ m rfl h
      · split at h
        · cases k with
          | zero =>
            rw [List.getElem?_cons_zero] at h
            rw [← Option.some.inj h, UInt16.ofNat_add]
            rfl
          | succ k => cases h
        · exact hcons n k _ m rfl h

/-- The `k`-th request has the sequence number `k` modulo 2^16. -/
theorem requests_seq {pid : Nat} {stdin : List UInt8} {k : Nat} {m : UInt8 × UInt16 × List UInt8}
    (h : (requests pid stdin)[k]? = some m) : m.2.1 = UInt16.ofNat (k + 1) := by
  cases k with
  | zero =>
    rw [requests, List.getElem?_cons_zero] at h
    rw [← Option.some.inj h]
    rfl
  | succ k =>
    rw [requests, List.getElem?_cons_succ] at h
    have hseq := commands_seq (typedLines stdin) 1 k m h
    rw [hseq]
    congr 1
    omega

theorem length_commands_le (lines : List CStr) :
    ∀ seq : UInt16, (commands seq lines).length ≤ lines.length := by
  induction lines with
  | nil => intro seq; exact Nat.le_refl 0
  | cons line lines ih =>
    intro seq
    have hseq := ih seq
    have hsucc := ih (seq + 1)
    rw [commands, List.length_cons]
    split
    · omega
    · split
      · exact Nat.succ_le_succ hsucc
      · split
        · exact Nat.succ_le_succ (Nat.zero_le _)
        · exact Nat.succ_le_succ hsucc

theorem length_pieces_le (n : Nat) : ∀ text : List UInt8, (pieces n text).length ≤ n := by
  induction n with
  | zero => intro text; exact Nat.le_refl 0
  | succ n ih =>
    intro text
    rw [pieces]
    split
    · exact Nat.zero_le _
    · exact Nat.succ_le_succ (ih _)

theorem length_requests_le (pid : Nat) (stdin : List UInt8) :
    (requests pid stdin).length ≤ stdin.length + 2 := by
  have hcmd := length_commands_le (typedLines stdin) 1
  have hlines := length_pieces_le (stdin.length + 1) stdin
  rw [typedLines, List.length_map] at hcmd
  rw [requests, List.length_cons, typedLines]
  omega

end MiniProtocol
