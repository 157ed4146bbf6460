import LinuxHandson.MiniProtocol.Frames
import LinuxHandson.MiniProtocol.Proofs.CodecProofs

/-!
# The frames of a connection whose writes fail

What is on the wire are first parts of the buffers that `write_all` was called with. They make up a
first part of the frames exactly as long as no write succeeds after one that failed.
-/

namespace MiniProtocol

open CLib PartialWrites

variable {ε α : Type}

/-! ## One `write_all` -/

/-- The writes of the loop put out a first part of the rest of the buffer, and leave the other results
to what comes after the loop. -/
theorem writeLoop_puts {f : Int → SockProg ε α} {q : SockProg ε α} {buf : List UInt8} (fuel : Nat) :
    ∀ {total : Nat} {rs : List (Option Nat)} {w : List UInt8}, buf.length - total < fuel →
      Puts (writeLoop fuel buf total >>= f) rs w q →
      ∃ w', w = (buf.drop total).take (fill (buf.length - total) rs).1 ++ w' ∧
        (((fill (buf.length - total) rs).2 = [] ∧ w' = []) ∨
          ∃ i, Puts (f i) (fill (buf.length - total) rs).2 w' q) := by
  induction fuel with
  | zero =>
    intro total rs w hf
    omega
  | succ fuel ih =>
    intro total rs w hf h
    by_cases hlt : total < buf.length
    · rw [writeLoop, if_pos hlt] at h
      obtain ⟨n, hn⟩ := Nat.exists_eq_succ_of_ne_zero (by omega : buf.length - total ≠ 0)
      have hdrop : (buf.drop total).length = n + 1 := by rw [List.length_drop, hn]
      rw [hn]
      cases h with
      | done => exact ⟨[], by simp [fill], Or.inl ⟨rfl, rfl⟩⟩
      | @write _ w _ r rs _ hr h =>
        rcases r with _ | _ | k
        · exact ⟨w, by simp [fill], Or.inr ⟨-1, h⟩⟩
        · exact ⟨w, by simp [fill], Or.inr ⟨0, h⟩⟩
        · have hk := hr (k + 1) rfl
          rw [hdrop] at hk
          have hleft : buf.length - (total + (k + 1)) = n - k := by omega
          obtain ⟨w', hw, hrest⟩ := ih (by omega) h
          rw [hleft] at hw hrest
          have hcount : (fill (n + 1) (some (k + 1) :: rs)).1 = k + 1 + (fill (n - k) rs).1 := by
            show min (k + 1) (n + 1) + _ = _
            rw [Nat.min_eq_left hk]
          refine ⟨w', ?_, hrest⟩
          rw [hcount, List.take_add, List.drop_drop, hw, List.append_assoc]
          rfl
    · have hzero : buf.length - total = 0 := by omega
      rw [writeLoop, if_neg hlt] at h
      rw [hzero, fill_zero, List.take_zero]
      exact ⟨w, rfl, Or.inr ⟨_, h⟩⟩

theorem writeAll_puts {f : Int → SockProg ε α} {q : SockProg ε α} {buf w : List UInt8}
    {rs : List (Option Nat)} (h : Puts (writeAll buf >>= f) rs w q) :
    ∃ w', w = buf.take (fill buf.length rs).1 ++ w' ∧
      (((fill buf.length rs).2 = [] ∧ w' = []) ∨ ∃ i, Puts (f i) (fill buf.length rs).2 w' q) :=
  writeLoop_puts (buf.length + 1) (by omega) h

/-! ## All messages -/

/-- `write_all` of the buffers, one after the other. -/
def writeBuffers : List (List UInt8) → SockProg ε Unit
  | [] => return ()
  | b :: bufs => do
    let _ ← writeAll b
    writeBuffers bufs

theorem writeBuffers_puts {q : SockProg ε Unit} (bufs : List (List UInt8)) :
    ∀ {rs : List (Option Nat)} {w : List UInt8}, Puts (writeBuffers bufs) rs w q →
      w = pieces bufs (counts (bufs.map List.length) rs) ∧ unused (bufs.map List.length) rs = [] := by
  induction bufs with
  | nil =>
    intro rs w h
    cases h
    exact ⟨rfl, rfl⟩
  | cons b bufs ih =>
    intro rs w h
    obtain ⟨w', hw, ⟨hnil, hw'⟩ | ⟨i, hrest⟩⟩ := writeAll_puts h
    · have hnone : ¬ ∃ c ∈ counts (bufs.map List.length) [], 0 < c := by
        rintro ⟨c, hc, hpos⟩
        have := counts_nil _ c hc
        omega
      rw [List.map_cons, counts, unused, hnil, pieces, pieces_eq_nil bufs _ hnone, hw, hw']
      exact ⟨rfl, unused_nil _⟩
    · obtain ⟨hpieces, hunused⟩ := ih hrest
      rw [List.map_cons, counts, unused, pieces, hw, ← hpieces]
      exact ⟨rfl, hunused⟩

theorem sendMessage_buffers (s : Send) (f : Unit → SockProg ε Unit) (bufs : List (List UInt8))
    (hf : f () = writeBuffers bufs) :
    (sendMessage s.type s.seq s.payload s.payloadLen >>= f) = writeBuffers (s.buffers ++ bufs) := by
  have hsize := s.size
  unfold sendMessage Send.buffers
  rw [Prog.bind_assoc]
  rcases hp : s.payload with _ | p
  · have hzero : s.payloadLen = 0 := by
      rw [hp] at hsize
      exact UInt32.toNat_inj.mp hsize.symm
    rw [if_pos hzero]
    show (writeAll s.header >>= fun _ => f ()) = _
    rw [hf]
    rfl
  · rw [hp] at hsize
    by_cases hzero : s.payloadLen = 0
    · have hnot : ¬ s.payloadLen > 0 := by
        rw [hzero]
        decide
      rw [if_pos hzero]
      simp only [if_neg hnot]
      show (writeAll s.header >>= fun _ => f ()) = _
      rw [hf]
      rfl
    · have hpos : s.payloadLen > 0 := UInt32.pos_iff_ne_zero.mpr hzero
      have htake : p.take s.payloadLen.toNat = p := by
        rw [← hsize]
        exact List.take_length
      rw [if_neg hzero]
      simp only [if_pos hpos, htake]
      show (writeAll s.header >>= fun _ => (writeAll p >>= fun _ => pure ()) >>= f) = _
      rw [Prog.bind_assoc]
      show (writeAll s.header >>= fun _ => writeAll p >>= fun _ => f ()) = _
      rw [hf]
      rfl

theorem sendAll_buffers (sends : List Send) :
    (sendAll sends : SockProg ε Unit) = writeBuffers (buffers sends) := by
  induction sends with
  | nil => rfl
  | cons s sends ih =>
    exact sendMessage_buffers s (fun _ => sendAll sends) (buffers sends) ih

/-- The frames are the buffers. -/
theorem flatten_buffers (sends : List Send) :
    (buffers sends).flatten = (sends.map Send.frame).flatten := by
  induction sends with
  | nil => rfl
  | cons s sends ih =>
    have hframe : s.buffers.flatten = s.frame := by
      have hsize := s.size
      unfold Send.buffers Send.frame
      by_cases hzero : s.payloadLen = 0
      · have hnil : s.payload.getD [] = [] := by
          rw [hzero] at hsize
          exact List.eq_nil_of_length_eq_zero hsize
        rw [if_pos hzero, hnil]
        rfl
      · rw [if_neg hzero]
        simp
    have hcons : buffers (s :: sends) = s.buffers ++ buffers sends := rfl
    rw [hcons, List.flatten_append, hframe, ih]
    rfl

theorem buffers_pos (sends : List Send) : ∀ n ∈ (buffers sends).map List.length, 0 < n := by
  intro n hn
  obtain ⟨b, hb, rfl⟩ := List.mem_map.mp hn
  obtain ⟨s, -, hbs⟩ := List.mem_flatMap.mp hb
  have hsize := s.size
  unfold Send.buffers at hbs
  rcases List.mem_cons.mp hbs with rfl | hbs
  · rw [Send.header, length_image]
    decide
  · split at hbs
    · simp at hbs
    · next hzero =>
      obtain rfl := List.mem_singleton.mp hbs
      have hpos : s.payloadLen > 0 := UInt32.pos_iff_ne_zero.mpr hzero
      rw [hsize]
      exact UInt32.lt_iff_toNat_lt.mp hpos

/-- At every moment of any calls of `send_message`, whatever their writes return, the wire carries a
first part of each buffer. Together they are a first part of the frames, none of them cut, if and only
if so far no write has succeeded after one that failed. -/
theorem wire_intact_iff {sends : List Send} {rs : List (Option Nat)} {wire : List UInt8}
    {q : SockProg ε Unit} (h : Puts (sendAll sends) rs wire q) :
    wire = pieces (buffers sends) (sent sends rs) ∧ (Intact sends rs wire ↔ StaysFailed rs) := by
  rw [sendAll_buffers] at h
  obtain ⟨hwire, hunused⟩ := writeBuffers_puts (buffers sends) h
  have hiff := inOrder_iff _ rs (buffers_pos sends) hunused
  refine ⟨hwire, ?_⟩
  constructor
  · intro hintact
    exact hiff.mp hintact.2
  · intro hstays
    have horder := hiff.mpr hstays
    refine ⟨?_, horder⟩
    rw [hwire, ← flatten_buffers]
    exact pieces_prefix (buffers sends) (sent sends rs) horder

/-- A DATA message of two bytes. -/
def hiSend : Send := ⟨msgData, 1, some [0x68, 0x69], 2, rfl⟩

/-- The header goes out in two writes, and of the payload one byte so far. -/
theorem wire_intact_hi :
    ∃ wire, ∃ q : SockProg Unit Unit,
      Puts (sendAll [hiSend]) [some 5, some 7, some 1] wire q ∧
        Intact [hiSend] [some 5, some 7, some 1] wire := by
  have hputs : Puts (sendAll [hiSend] : SockProg Unit Unit) [some 5, some 7, some 1] _ _ :=
    .write (b := hiSend.header) (by simp [Send.header, sizeofHeader])
      (.write (b := hiSend.header.drop 5) (by simp [Send.header, sizeofHeader])
        (.write (b := [0x68, 0x69]) (by simp) (.done _)))
  refine ⟨_, _, hputs, ?_⟩
  rw [(wire_intact_iff hputs).2]
  simp [StaysFailed, Stored]

/-- The write of the header is short and the next one fails. The payload follows all the same. -/
theorem payload_after_cut_header :
    ∃ wire, ∃ q : SockProg Unit Unit,
      Puts (sendAll [hiSend]) [some 5, none, some 2] wire q ∧
        ¬ wire <+: ([hiSend].map Send.frame).flatten := by
  have hputs : Puts (sendAll [hiSend] : SockProg Unit Unit) [some 5, none, some 2] _ _ :=
    .write (b := hiSend.header) (by simp [Send.header, sizeofHeader])
      (.write (b := hiSend.header.drop 5) (by simp)
        (.write (b := [0x68, 0x69]) (by simp) (.done _)))
  refine ⟨_, _, hputs, ?_⟩
  decide

end MiniProtocol
