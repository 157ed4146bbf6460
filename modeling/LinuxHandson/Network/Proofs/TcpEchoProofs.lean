import LinuxHandson.Network.TcpEcho

/-!
# One read for a line

The bytes that are on their way or wait in a write loop are those of the line that has been sent and
not been answered. The client answers it with one read, whatever part of the echo that read finds: the
rest of the echo is still on its way when the next line is sent.
-/

namespace TcpEcho

open CLib

variable {s s' : State} {e : Event} {r : Unit} {n k : Nat}

/-- What the client has still to write. -/
def Client.rest : Client → List UInt8
  | .sending rest => rest
  | _ => []

/-- What the server has still to write. -/
def Server.rest : Server → List UInt8
  | .echoing rest => rest
  | _ => []

/-- A line is sent, and no text is printed for it. -/
def Client.waiting : Client → Bool
  | .sending _ => true
  | .receiving => true
  | _ => false

@[simp] theorem rest_typing : Client.typing.rest = [] := rfl

@[simp] theorem rest_sending (rest : List UInt8) : (Client.sending rest).rest = rest := rfl

@[simp] theorem rest_closed : Client.closed.rest = [] := rfl

@[simp] theorem rest_reading : Server.reading.rest = [] := rfl

@[simp] theorem rest_echoing (rest : List UInt8) : (Server.echoing rest).rest = rest := rfl

@[simp] theorem rest_send (rest : List UInt8) : (Client.send rest).rest = rest := by
  unfold Client.send
  split
  · next h => exact h.symm
  · rfl

@[simp] theorem waiting_send (rest : List UInt8) : (Client.send rest).waiting = true := by
  unfold Client.send
  split <;> rfl

@[simp] theorem rest_echo (rest : List UInt8) : (Server.echo rest).rest = rest := by
  unfold Server.echo
  split
  · next h => exact h.symm
  · rfl

theorem echo_ne_closed (rest : List UInt8) : Server.echo rest ≠ .closed := by
  unfold Server.echo
  split <;> exact nofun

/-- All bytes between the client's line and the text it prints, in the order in which they arrive. -/
def State.inFlight (s : State) : List UInt8 := s.down ++ (s.server.rest ++ (s.up ++ s.client.rest))

/-- The texts are right, and the bytes in flight are those of the line that waits for its text. -/
structure Inv (s : State) : Prop where
  inOrder : s.printed <+: s.sent
  one : (unreported s.sent s.printed).length = if s.client.waiting then 1 else 0
  flight : s.inFlight = stream (unreported s.sent s.printed)
  closed : s.server = .closed → s.client = .closed

theorem inv_start (text : List UInt8) : Inv (start text) where
  inOrder := List.nil_prefix
  one := rfl
  flight := rfl
  closed := nofun

/-! ## The steps that move bytes on -/

/-- The bytes in flight, their place among the programs and the pipes apart. -/
theorem Inv.moved (h : Inv s) (hsent : s'.sent = s.sent) (hprinted : s'.printed = s.printed)
    (hwait : s'.client.waiting = s.client.waiting) (hflight : s'.inFlight = s.inFlight)
    (hclosed : s'.server = .closed → s'.client = .closed) : Inv s' where
  inOrder := by
    rw [hsent, hprinted]
    exact h.inOrder
  one := by
    rw [hsent, hprinted, hwait]
    exact h.one
  flight := by
    rw [hsent, hprinted, hflight]
    exact h.flight
  closed := hclosed

theorem Inv.clientWrite (h : Inv s) {rest : List UInt8} (hc : s.client = .sending rest) :
    Inv { s with client := .send (rest.drop k), up := s.up ++ rest.take k } := by
  refine h.moved rfl rfl ?_ ?_ ?_
  · rw [hc]
    exact waiting_send _
  · simp [State.inFlight, hc]
  · intro hs
    rw [h.closed hs] at hc
    cases hc

theorem Inv.serverWrite (h : Inv s) {rest : List UInt8} (hs : s.server = .echoing rest) :
    Inv { s with server := .echo (rest.drop k), down := s.down ++ rest.take k } := by
  refine h.moved rfl rfl rfl ?_ ?_
  · simp only [State.inFlight, hs, rest_echo, rest_echoing, List.append_assoc]
    rw [← List.append_assoc (rest.take k), List.take_append_drop]
  · intro he
    exact absurd he (echo_ne_closed _)

theorem Inv.serve (h : Inv s) (hn : s.CanServe n) : Inv (s.serve n) := by
  obtain ⟨hr, hcan⟩ := hn
  unfold State.serve
  split
  · next h0 =>
    rw [if_pos h0] at hcan
    refine h.moved rfl rfl rfl ?_ fun _ => hcan.2
    show s.down ++ ([] ++ (s.up ++ s.client.rest)) = s.inFlight
    simp [State.inFlight, hr]
  · refine h.moved rfl rfl rfl ?_ fun he => absurd he (echo_ne_closed _)
    simp only [State.inFlight, hr, rest_echo, rest_reading, List.nil_append]
    rw [← List.append_assoc (s.up.take n), List.take_append_drop]

/-! ## A line and its text -/

theorem Inv.typed (h : Inv s) (hc : s.client = .typing) : Inv s.typed := by
  unfold State.typed
  split
  · refine h.moved rfl rfl (by rw [hc]; rfl) ?_ fun _ => rfl
    simp [State.inFlight, hc]
  · next piece stdin _ =>
    have hnone := h.one
    rw [hc] at hnone
    refine ⟨h.inOrder.trans (List.prefix_append _ _), ?_, ?_, ?_⟩
    · show (unreported (s.sent ++ [CStr.ofBuf piece]) s.printed).length =
        if (Client.send (CStr.ofBuf piece).bytes).waiting then 1 else 0
      rw [unreported_append h.inOrder, List.length_append, hnone, waiting_send]
      rfl
    · show s.down ++ (s.server.rest ++ (s.up ++ (Client.send (CStr.ofBuf piece).bytes).rest)) =
        stream (unreported (s.sent ++ [CStr.ofBuf piece]) s.printed)
      rw [unreported_append h.inOrder, stream_append, stream_singleton, ← h.flight, rest_send]
      simp [State.inFlight, hc]
    · intro hs
      rw [h.closed hs] at hc
      cases hc

/-- The line that waits for its text is the last one sent. -/
theorem Inv.last (h : Inv s) (hc : s.client = .receiving) :
    (unreported s.sent s.printed).head? = s.sent.getLast? := by
  have hone := h.one
  rw [hc] at hone
  obtain ⟨line, hline⟩ := List.length_eq_one_iff.mp hone
  obtain ⟨t, ht⟩ := h.inOrder
  have hrest : t = [line] := by
    rw [← hline, ← ht, unreported, List.drop_left]
  rw [hline, ← ht, hrest, List.getLast?_concat]
  rfl

/-- The bytes that the read of the client takes. -/
theorem Inv.taken (h : Inv s) (hn : n ≤ s.down.length) :
    (s.down.take n).length = n ∧ s.down.take n <+: stream (unreported s.sent s.printed) := by
  refine ⟨?_, ?_⟩
  · rw [List.length_take]
    exact Nat.min_eq_left hn
  · rw [← h.flight]
    exact (List.take_prefix _ _).trans (List.prefix_append _ _)

theorem Inv.receive (h : Inv s) (hn : s.CanReceive n) (hw : WholeLine s (.clientRead n)) :
    Inv (s.receive n) := by
  have hline := hw n rfl hn
  obtain ⟨hr, hcan⟩ := hn
  unfold State.receive
  split
  · next h0 =>
    -- the server has not closed while the client waits
    rw [if_pos h0] at hcan
    rw [h.closed hcan.2] at hr
    cases hr
  · next h0 =>
    rw [if_neg h0] at hcan
    have hlast := hline (Nat.pos_of_ne_zero h0)
    rw [← h.last hr] at hlast
    obtain ⟨hlen, hpre⟩ := h.taken hcan.2
    refine ⟨?_, ?_, ?_, ?_⟩
    · exact (chunk_inOrder_iff h.inOrder hpre).mpr (by rw [hlen]; exact hlast)
    · have hone := h.one
      rw [hr] at hone
      show (unreported s.sent (s.printed ++ [_])).length = 0
      rw [unreported_report, List.length_tail, hone]
      rfl
    · show s.down.drop n ++ (s.server.rest ++ (s.up ++ [])) =
        stream (unreported s.sent (s.printed ++ [_]))
      rw [unreported_report, ← stream_drop_chunk hlast, ← h.flight, State.inFlight, hr,
        List.drop_append_of_le_length hcan.2]
      rfl
    · intro hs
      rw [h.closed hs] at hr
      cases hr

/-- A text that is the line has been read whole. -/
theorem wholeLine_of_echoes (h : Inv s) (hf : s.CanReceive n → Echoes (s.receive n)) :
    WholeLine s (.clientRead n) := by
  intro m hm hn hpos
  cases hm
  replace hf := hf hn
  obtain ⟨hr, hcan⟩ := hn
  have h0 : n ≠ 0 := Nat.ne_of_gt hpos
  rw [State.receive, if_neg h0] at hf
  rw [if_neg h0] at hcan
  obtain ⟨hlen, hpre⟩ := h.taken hcan.2
  have hnext := (chunk_inOrder_iff h.inOrder hpre).mp hf
  rw [hlen, h.last hr] at hnext
  exact hnext

/-! ## Runs -/

theorem inv_step (h : Inv s) (hw : WholeLine s e) (hs : step s e = some (r, s')) : Inv s' := by
  unfold step at hs
  cases e with
  | typed =>
    dsimp only at hs
    split at hs
    · next hc =>
      cases hs
      exact h.typed hc
    · cases hs
  | clientWrite k =>
    dsimp only at hs
    split at hs
    · next rest hc =>
      split at hs
      · cases hs
        exact h.clientWrite hc
      · cases hs
    · cases hs
  | clientRead n =>
    dsimp only at hs
    split at hs
    · next hn =>
      cases hs
      exact h.receive hn hw
    · cases hs
  | serverRead n =>
    dsimp only at hs
    split at hs
    · next hn =>
      cases hs
      exact h.serve hn
    · cases hs
  | serverWrite k =>
    dsimp only at hs
    split at hs
    · next rest hc =>
      split at hs
      · cases hs
        exact h.serverWrite hc
      · cases hs
    · cases hs

/-- Whatever is typed and however both streams are cut and delayed: the text printed after each line is
this line exactly if each read of the client returns as many bytes as the line before it has. -/
theorem texts_are_lines_iff (text : List UInt8) (es : List Event) :
    Machine.Always step Echoes (start text) es ↔ Machine.Legal step WholeLine (start text) es := by
  refine Machine.always_iff_legal (fun s (hs : Inv s) => hs.inOrder) ?_ ?_ es (start text)
    (inv_start text)
  · intro s e r s' hs hw hstep
    exact inv_step hs hw hstep
  · intro s e hs hf
    cases e with
    | clientRead n => exact wholeLine_of_echoes hs fun hn => hf () (s.receive n) (if_pos hn)
    | typed => exact nofun
    | clientWrite k => exact nofun
    | serverRead n => exact nofun
    | serverWrite k => exact nofun

/-- Two lines, typed one after the other. -/
def twoLines : List UInt8 := CStr.ascii ['h', 'e', 'l', 'l', 'o', '\n', 'x', '\n']

/-- The echo of the first line arrives in two pieces. -/
def splitEcho : List Event :=
  [.typed, .clientWrite 6, .serverRead 6, .serverWrite 2, .clientRead 2, .serverWrite 4, .typed,
    .clientWrite 2, .clientRead 4]

/-- The client prints the second piece after the second line. -/
theorem texts_fall_behind :
    (Machine.exec step (start twoLines) splitEcho).map
        (fun p => (p.2.sent.map CStr.bytes, p.2.printed.map CStr.bytes)) =
      some ([CStr.ascii ['h', 'e', 'l', 'l', 'o', '\n'], CStr.ascii ['x', '\n']],
        [CStr.ascii ['h', 'e'], CStr.ascii ['l', 'l', 'o', '\n']]) ∧
      ¬ Machine.Always step Echoes (start twoLines) splitEcho := by
  exact ⟨by decide, by decide⟩

end TcpEcho
