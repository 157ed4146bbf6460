import LinuxHandson.Ipc.FifoDemo

/-!
# Messages in a pipe

The pipe keeps the bytes of the messages and not where one ends and the next begins. So the reports
are the messages exactly as long as each read happens to return one whole message.
-/

namespace FifoDemo

open CLib

variable {s s' : State} {e : Event} {r : Unit} {n : Nat}

/-- The reports are right, and the pipe holds the messages that are still to be reported. -/
structure Inv (s : State) : Prop extends Faithful s where
  pipe_eq : s.server = .reading → s.pipe = stream (unreported s.written s.reported)
  closed : s.server = .eof → s.clientOpen = false

theorem inv_start (text : List UInt8) : Inv (start text) where
  inOrder := List.nil_prefix
  complete := nofun
  stopped_iff := by simp [start]
  first := List.not_mem_nil
  pipe_eq := fun _ => rfl
  closed := nofun

/-! ## The client -/

theorem client_frame (s : State) : s.client.server = s.server ∧ s.client.reported = s.reported := by
  unfold State.client State.write
  split
  · exact ⟨rfl, rfl⟩
  · split
    · exact ⟨rfl, rfl⟩
    · exact ⟨rfl, rfl⟩

/-- A round of the client writes at most one message, and puts its bytes into the pipe. -/
theorem client_written (s : State) :
    (s.client.written = s.written ∧ s.client.pipe = s.pipe) ∨
      ∃ msg : CStr, s.client.written = s.written ++ [msg] ∧ s.client.pipe = s.pipe ++ msg.bytes := by
  unfold State.client State.write
  split
  · exact .inl ⟨rfl, rfl⟩
  · next piece rest _ =>
    split
    · exact .inl ⟨rfl, rfl⟩
    · exact .inr ⟨message piece, rfl, rfl⟩

theorem Inv.client (h : Inv s) (hopen : s.clientOpen = true) : Inv s.client := by
  obtain ⟨hserver, hreported⟩ := client_frame s
  have hne : s.server ≠ .eof := by
    intro he
    rw [h.closed he] at hopen
    cases hopen
  have hwritten := client_written s
  refine ⟨⟨?_, ?_, ?_, ?_⟩, ?_, ?_⟩
  · rw [hreported]
    rcases hwritten with ⟨hw, -⟩ | ⟨msg, hw, -⟩
    · rw [hw]
      exact h.inOrder
    · rw [hw]
      exact h.inOrder.trans (List.prefix_append _ _)
  · intro he
    exact absurd (hserver ▸ he) hne
  · rw [hserver, hreported]
    exact h.stopped_iff
  · rw [hreported]
    exact h.first
  · intro hr
    rw [hserver] at hr
    rw [hreported]
    rcases hwritten with ⟨hw, hp⟩ | ⟨msg, hw, hp⟩
    · rw [hw, hp]
      exact h.pipe_eq hr
    · rw [hw, hp, unreported_append h.inOrder, stream_append, stream_singleton, h.pipe_eq hr]
  · intro he
    exact absurd (hserver ▸ he) hne

/-! ## The server -/

/-- The bytes that a read takes. -/
theorem Inv.taken (h : Inv s) (hn : s.CanRead n) (h0 : n ≠ 0) :
    (s.pipe.take n).length = n ∧ s.pipe.take n <+: stream (unreported s.written s.reported) := by
  obtain ⟨hr, hcan⟩ := hn
  rw [if_neg h0] at hcan
  refine ⟨?_, ?_⟩
  · rw [List.length_take]
    exact Nat.min_eq_left hcan.2
  · rw [← h.pipe_eq hr]
    exact List.take_prefix _ _

/-- The end of the pipe is right exactly if nothing is left to report. -/
theorem all_reported_iff (h : Inv s) :
    s.reported = s.written ↔ (unreported s.written s.reported).head?.map strlen = none := by
  rw [Option.map_eq_none_iff, List.head?_eq_none_iff, unreported_eq_nil_iff h.inOrder]

/-- As long as the server reads it has not reported `quit`. -/
theorem Inv.not_reported (h : Inv s) (hr : s.server = .reading) : quit ∉ s.reported := by
  intro hin
  have hfirst := h.first
  have hlast := h.stopped_iff.not.mp (by rw [hr]; exact nofun)
  rcases List.eq_nil_or_concat s.reported with hnil | ⟨l, b, hlb⟩
  · rw [hnil] at hin
    cases hin
  · rw [hlb, List.concat_eq_append] at hin hfirst hlast
    rw [List.dropLast_concat] at hfirst
    rw [List.getLast?_concat] at hlast
    rcases List.mem_append.mp hin with hin | hin
    · exact hfirst hin
    · exact hlast (congrArg some (List.mem_singleton.mp hin).symm)

theorem Inv.read (h : Inv s) (hn : s.CanRead n) (hb : AtBoundary s (.server n)) : Inv (s.read n) := by
  replace hb := hb hn
  unfold State.read
  split
  · next h0 =>
    rw [if_pos h0] at hb
    have hcan := hn.2
    rw [if_pos h0] at hcan
    refine ⟨⟨h.inOrder, fun _ => (all_reported_iff h).mpr hb, ?_, h.first⟩, nofun, fun _ => hcan.2⟩
    show Server.eof = .stopped ↔ s.reported.getLast? = some quit
    rw [← h.stopped_iff, hn.1]
    exact ⟨nofun, nofun⟩
  · next h0 =>
    rw [if_neg h0] at hb
    obtain ⟨hlen, hpre⟩ := h.taken hn h0
    have hnot := h.not_reported hn.1
    generalize hm : CStr.ofBuf (s.pipe.take n) = m
    refine ⟨⟨?_, ?_, ?_, ?_⟩, ?_, ?_⟩
    · show s.reported ++ [m] <+: s.written
      rw [← hm]
      exact (chunk_inOrder_iff h.inOrder hpre).mpr (by rw [hlen]; exact hb)
    · intro he
      dsimp only at he
      split at he <;> cases he
    · show (if strcmp m quit = 0 then Server.stopped else .reading) = .stopped ↔
        (s.reported ++ [m]).getLast? = some quit
      rw [List.getLast?_concat]
      simp only [strcmp_eq_zero, Option.some.injEq]
      by_cases hq : m = quit <;> simp [hq]
    · show quit ∉ (s.reported ++ [m]).dropLast
      rw [List.dropLast_concat]
      exact hnot
    · intro _
      show s.pipe.drop n = stream (unreported s.written (s.reported ++ [m]))
      rw [unreported_report, ← stream_drop_chunk hb, h.pipe_eq hn.1]
    · intro he
      dsimp only at he
      split at he <;> cases he

/-- A read whose report is right has returned one whole message. -/
theorem atBoundary_of_faithful (h : Inv s) (hf : s.CanRead n → Faithful (s.read n)) :
    AtBoundary s (.server n) := by
  intro hn
  replace hf := hf hn
  unfold State.read at hf
  split at hf
  · next h0 =>
    rw [if_pos h0]
    exact (all_reported_iff h).mp (hf.complete rfl)
  · next h0 =>
    obtain ⟨hlen, hpre⟩ := h.taken hn h0
    have hnext := (chunk_inOrder_iff h.inOrder hpre).mp hf.inOrder
    rw [hlen] at hnext
    rw [if_neg h0]
    exact hnext

/-! ## Runs -/

/-- Whatever is typed and however the bytes are cut into reads: the server reports the messages in
order, and stops after the first `quit`, exactly if every read returns one whole message, the next one,
and the pipe ends when all messages have been reported. -/
theorem reports_messages_iff (text : List UInt8) (es : List Event) :
    Machine.Always step Faithful (start text) es ↔
      Machine.Legal step AtBoundary (start text) es := by
  refine Machine.always_iff_legal (fun s (hs : Inv s) => hs.toFaithful) ?_ ?_ es (start text)
    (inv_start text)
  · intro s e r s' hs hb hstep
    unfold step at hstep
    cases e with
    | client =>
      dsimp only at hstep
      split at hstep
      · next hopen =>
        cases hstep
        exact hs.client hopen
      · cases hstep
    | server n =>
      dsimp only at hstep
      split at hstep
      · next hn =>
        cases hstep
        exact hs.read hn hb
      · cases hstep
  · intro s e hs hf
    cases e with
    | client => trivial
    | server n =>
      exact atBoundary_of_faithful hs fun hn => hf () (s.read n) (if_pos hn)

/-- `hello` and `quit`, typed before the server reads. -/
def typedAhead : List UInt8 := CStr.ascii ['h', 'e', 'l', 'l', 'o', '\n', 'q', 'u', 'i', 't', '\n']

/-- Both messages arrive in one read, and are reported as one, which is not `quit`. -/
theorem messages_run_together :
    (Machine.exec step (start typedAhead) [.client, .client, .server 9]).map
        (fun p => (p.2.reported.map CStr.bytes, p.2.server)) =
      some ([CStr.ascii ['h', 'e', 'l', 'l', 'o', 'q', 'u', 'i', 't']], .reading) ∧
      ¬ Machine.Always step Faithful (start typedAhead) [.client, .client, .server 9] := by
  refine ⟨by decide, ?_⟩
  intro h
  have hlast := (((h.2 _ _ rfl).2 _ _ rfl).2 _ _ rfl).inOrder
  exact absurd hlast (by decide)

end FifoDemo
