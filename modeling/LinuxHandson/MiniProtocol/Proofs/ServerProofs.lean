import LinuxHandson.MiniProtocol.Session
import LinuxHandson.MiniProtocol.Proofs.CodecProofs

/-!
# The server over one connection

`handle_client` divides every stream into the frames of `Framing`, however the stream is cut, and
answers them one by one.
-/

namespace MiniProtocol

open CLib

/-! ## Every stream divides into frames -/

/-- A stream is too short for a header, or it starts with one. -/
theorem short_or_header (b : List UInt8) :
    b.length < sizeofHeader ∨ ∃ (h : ProtoHeader) (rest : List UInt8), b = h.image ++ rest := by
  by_cases hlen : b.length < sizeofHeader
  · exact .inl hlen
  · right
    have htake : (b.take sizeofHeader).length = sizeofHeader := by
      rw [List.length_take]
      omega
    refine ⟨ProtoHeader.ofImage (b.take sizeofHeader), b.drop sizeofHeader, ?_⟩
    rw [image_ofImage htake, List.take_append_drop]

/-- After a valid header the stream is too short for the payload, or it goes on with it. -/
theorem short_or_message {h : ProtoHeader} (hv : protoValidateHeader h = 0) (b : List UInt8) :
    b.length < (ntohl h.payloadLen).toNat ∨
      ∃ (m : Message) (rest : List UInt8), h.image ++ b = m.encode ++ rest := by
  by_cases hlen : b.length < (ntohl h.payloadLen).toNat
  · exact .inl hlen
  · right
    have htake : (b.take (ntohl h.payloadLen).toNat).length = (ntohl h.payloadLen).toNat := by
      rw [List.length_take]
      omega
    obtain ⟨m, hmh, hmp⟩ := exists_message hv htake
    refine ⟨m, b.drop (ntohl h.payloadLen).toNat, ?_⟩
    rw [Message.encode, hmh, hmp, List.append_assoc, List.take_append_drop]

theorem exists_framing (n : Nat) : ∀ b : List UInt8, b.length < n → ∃ ms e, Framing b ms e := by
  induction n with
  | zero => intro b hb; omega
  | succ n ih =>
    intro b hb
    rcases short_or_header b with hlen | ⟨h, b', rfl⟩
    · exact ⟨[], _, .shortHeader hlen⟩
    by_cases hv : protoValidateHeader h = 0
    · rcases short_or_message hv b' with hlen | ⟨m, rest, hm⟩
      · exact ⟨[], _, .shortPayload hv hlen⟩
      rw [hm] at hb ⊢
      by_cases hbye : m.type = msgBye
      · exact ⟨[m], _, .bye hbye rest⟩
      · rw [List.length_append, m.length_encode, sizeofHeader] at hb
        obtain ⟨ms, e, hf⟩ := ih rest (by omega)
        exact ⟨m :: ms, e, .frame hbye hf⟩
    · exact ⟨[], _, .badHeader (validate_neg_of_ne hv) b'⟩

/-! ## One round of the loop -/

section Round

variable (next : Server → SockProg Event Server) (sv : Server)

theorem serveRound_reads (m : Message) :
    Reads (serveRound next sv) m.encode (do
      sysMark (.received m.parts)
      dispatch next (sv.count 1) m.header m.len m.payload) := by
  refine (readHeader_reads m.header _).trans ?_
  simp only [ofImage_image]
  rw [if_neg (by decide), if_neg (not_validate_neg m.header_valid), m.header_len, readPayload]
  by_cases hlen : m.len > 0
  · have hpos : ¬ ((m.payload.length : Nat) : Int) ≤ 0 := by
      rw [gt_iff_lt, UInt32.lt_iff_toNat_lt, m.len_toNat] at hlen
      have : (0 : UInt32).toNat = 0 := rfl
      omega
    rw [if_pos hlen, m.len_toNat]
    have hbody := (readAll_reads (ε := Event) m.payload).bind fun r =>
      if r.1 ≤ 0 then return sv else do
        sysMark (.received (m.header.parts r.2))
        dispatch next (sv.count 1) m.header m.len r.2
    rw [Prog.ret_bind] at hbody
    simp only at hbody
    rw [if_neg hpos, m.header_parts] at hbody
    exact hbody
  · have hnil : m.payload = [] := by
      rw [gt_iff_lt, UInt32.lt_iff_toNat_lt, m.len_toNat] at hlen
      exact List.eq_nil_of_length_eq_zero (Nat.eq_zero_of_not_pos hlen)
    have hparts := m.header_parts
    rw [hnil] at hparts
    rw [if_neg hlen, hnil, Prog.ret_bind]
    simp only
    rw [if_neg (by decide), hparts]
    exact Reads.done _

theorem serveRound_badHeader {h : ProtoHeader} (hv : protoValidateHeader h < 0) :
    Reads (serveRound next sv) h.image (do
      sendMessage msgError 0 (some badHeader) 10
      return sv) := by
  have hround : Reads (serveRound next sv) h.image _ := readHeader_reads h _
  simp only [ofImage_image] at hround
  rw [if_neg (by decide), if_pos hv] at hround
  exact hround

theorem serveRound_shortHeader {b : List UInt8} (hb : b.length < sizeofHeader) :
    Drains (serveRound next sv) b (return sv) :=
  (readAll_drains hb).bind _

theorem serveRound_shortPayload {h : ProtoHeader} (hv : protoValidateHeader h = 0)
    {p : List UInt8} (hp : p.length < (ntohl h.payloadLen).toNat) :
    Drains (serveRound next sv) (h.image ++ p) (return sv) := by
  have hpos : ntohl h.payloadLen > 0 := by
    rw [gt_iff_lt, UInt32.lt_iff_toNat_lt]
    exact Nat.lt_of_le_of_lt (Nat.zero_le _) hp
  refine (readHeader_reads h _).drains ?_
  simp only [ofImage_image]
  rw [if_neg (by decide), if_neg (not_validate_neg hv), readPayload, if_pos hpos]
  exact (readAll_drains hp).bind _

/-- The answer to a message that does not ask for the time. -/
theorem dispatch_writes {m : Message} (hm : m.type ≠ msgStatus) (now : Int) :
    Writes (dispatch next sv m.header m.len m.payload) (answer sv now m).encode
      (if m.type = msgBye then return sv else next sv) := by
  have hseq := m.header_seq
  have htype : m.header.msgType = m.type := rfl
  rw [dispatch, htype, hseq, answer]
  by_cases hhello : m.type = msgHello
  · rw [if_pos hhello, if_pos hhello, hhello, if_neg (by decide)]
    exact (sendMessage_null (m := ⟨msgAck, m.seq, [], by decide⟩) rfl).bind _
  rw [if_neg hhello, if_neg hhello]
  by_cases hdata : m.type = msgData
  · rw [if_pos hdata, if_pos hdata, hdata, if_neg (by decide)]
    exact (sendMessage_encode ⟨msgAck, m.seq, m.payload, m.fits⟩).bind _
  rw [if_neg hdata, if_neg hdata, if_neg hm, if_neg hm]
  by_cases hbye : m.type = msgBye
  · rw [if_pos hbye, if_pos hbye, if_pos hbye]
    exact (sendMessage_null (m := ⟨msgAck, m.seq, [], by decide⟩) rfl).bind _
  · rw [if_neg hbye, if_neg hbye, if_neg hbye]
    exact (sendMessage_encode ⟨msgError, m.seq, unknownType, by decide⟩).bind _

/-- A STATUS message asks for the time first. -/
theorem dispatch_status {m : Message} (hm : m.type = msgStatus) :
    ∃ k, dispatch next sv m.header m.len m.payload = .call .time k ∧
      ∀ now, Writes (k now) (answer sv now m).encode (next sv) := by
  have hseq := m.header_seq
  have htype : m.header.msgType = m.type := rfl
  rw [dispatch, htype, hseq, hm, if_neg (by decide), if_neg (by decide), if_pos rfl]
  refine ⟨_, rfl, ?_⟩
  intro now
  rw [answer, hm, if_neg (by decide), if_neg (by decide), if_pos rfl]
  exact (sendMessage_encode ⟨msgStatus, m.seq, sv.status now, by
    rw [sv.length_status]; decide⟩).bind _

/-- One frame of a healthy connection. -/
theorem serveRound_run_message (m : Message) {rest : List UInt8} {c : Conn Event} (hc : c.Healthy)
    (hb : c.bytes = m.encode ++ rest) :
    ∃ c' : Conn Event, c'.Healthy ∧ c'.bytes = rest ∧ c'.clock = c.clock ∧
      c'.ticks = (if m.type = msgStatus then c.ticks + 1 else c.ticks) ∧
      c'.output = c.output ++ (answer (sv.count 1) (c.clock c.ticks) m).encode ∧
      (serveRound next sv).run conn c =
        (if m.type = msgBye then return sv.count 1 else next (sv.count 1) :
          SockProg Event Server).run conn c' := by
  obtain ⟨input, hc', hbytes, hrun⟩ := (serveRound_reads next sv m).run c rest hc hb
  have hmark : Conn.Healthy { c with input := input, log := c.log ++ [Event.received m.parts] } :=
    ⟨hc'.reads, hc'.writes, hc'.flag⟩
  by_cases hm : m.type = msgStatus
  · obtain ⟨k, hk, hw⟩ := dispatch_status next (sv.count 1) hm
    have htime : Conn.Healthy { c with
        input := input, log := c.log ++ [Event.received m.parts], ticks := c.ticks + 1 } :=
      ⟨hc'.reads, hc'.writes, hc'.flag⟩
    obtain ⟨writes, hc'', hwrun⟩ := (hw (c.clock c.ticks)).run _ htime
    refine ⟨_, hc'', hbytes, rfl, (if_pos hm).symm, rfl, ?_⟩
    rw [hm, if_neg (by decide), hrun]
    have hdisp : (dispatch next (sv.count 1) m.header m.len m.payload).run conn
          { c with input := input, log := c.log ++ [Event.received m.parts] } =
        (k (c.clock c.ticks)).run conn { c with
          input := input, log := c.log ++ [Event.received m.parts], ticks := c.ticks + 1 } := by
      rw [hk]
      rfl
    exact hdisp.trans hwrun
  · obtain ⟨writes, hc'', hwrun⟩ :=
      (dispatch_writes next (sv.count 1) hm (c.clock c.ticks)).run _ hmark
    refine ⟨_, hc'', hbytes, rfl, (if_neg hm).symm, rfl, ?_⟩
    rw [hrun]
    exact hwrun

theorem serveRound_run_badHeader {h : ProtoHeader} (hv : protoValidateHeader h < 0)
    {rest : List UInt8} {c : Conn Event} (hc : c.Healthy) (hb : c.bytes = h.image ++ rest) :
    ∃ c', (serveRound next sv).run conn c = some (sv, c') ∧
      c'.output = c.output ++ Ending.badHeader.farewell.flatMap Message.encode := by
  obtain ⟨input, hc', -, hrun⟩ := (serveRound_badHeader next sv hv).run c rest hc hb
  have herror := (sendMessage_encode ⟨msgError, 0, badHeader, by decide⟩).bind fun _ =>
    (return sv : SockProg Event Server)
  obtain ⟨writes, -, hwrun⟩ := herror.run _ hc'
  refine ⟨_, hrun.trans hwrun, ?_⟩
  rw [Ending.farewell, List.flatMap_cons, List.flatMap_nil, List.append_nil]

end Round

/-! ## The whole connection -/

namespace Server

theorem count_zero (sv : Server) : sv.count 0 = sv := by
  show ({ sv with totalMessages := sv.totalMessages + 0 } : Server) = sv
  rw [UInt64.add_zero]

theorem count_count (m n : Nat) (sv : Server) : (sv.count m).count n = sv.count (m + n) := by
  simp only [count, UInt64.ofNat_add, UInt64.add_assoc]

end Server

theorem serveLoop_succ_run (fuel : Nat) (sv : Server) {c : Conn Event} (hc : c.Healthy) :
    (serveLoop (fuel + 1) sv).run conn c = (serveRound (serveLoop fuel) sv).run conn c := by
  show (if c.flag = true then serveRound (serveLoop fuel) sv else return sv :
    SockProg Event Server).run conn c = _
  rw [if_pos hc.flag]

/-- The loop over a stream that ends in its first frame. -/
theorem serveLoop_run_short {b : List UInt8} {fuel : Nat} {sv : Server} {c : Conn Event}
    (hc : c.Healthy) (hb : c.bytes = b) (hd : Drains (serveRound (serveLoop fuel) sv) b (return sv)) :
    ∃ c', (serveLoop (fuel + 1) sv).run conn c = some (sv.count 0, c') ∧
      c'.output = c.output ++ ([] : List Message).flatMap Message.encode := by
  obtain ⟨input, -, -, hrun⟩ := hd.run c hc hb
  refine ⟨{ c with input := input }, ?_, (List.append_nil _).symm⟩
  rw [serveLoop_succ_run _ _ hc, sv.count_zero]
  exact hrun

/-- The loop over a stream, by the division of the stream into frames. -/
theorem serveLoop_run {b : List UInt8} {ms : List Message} {e : Ending} (h : Framing b ms e) :
    ∀ (fuel : Nat) (sv : Server) (c : Conn Event), c.Healthy → c.bytes = b → b.length < fuel →
      ∃ c', (serveLoop fuel sv).run conn c = some (sv.count ms.length, c') ∧
        c'.output = c.output ++
          (answers c.clock c.ticks sv ms ++ e.farewell).flatMap Message.encode := by
  induction h with
  | shortHeader hlen =>
    intro fuel sv c hc hb hf
    obtain ⟨fuel, rfl⟩ := Nat.exists_eq_succ_of_ne_zero (by omega : fuel ≠ 0)
    exact serveLoop_run_short hc hb (serveRound_shortHeader _ _ hlen)
  | shortPayload hv hp =>
    intro fuel sv c hc hb hf
    obtain ⟨fuel, rfl⟩ := Nat.exists_eq_succ_of_ne_zero (by omega : fuel ≠ 0)
    exact serveLoop_run_short hc hb (serveRound_shortPayload _ _ hv hp)
  | badHeader hv rest =>
    intro fuel sv c hc hb hf
    obtain ⟨fuel, rfl⟩ := Nat.exists_eq_succ_of_ne_zero (by omega : fuel ≠ 0)
    obtain ⟨c', hrun, hout⟩ := serveRound_run_badHeader (serveLoop fuel) sv hv hc hb
    refine ⟨c', ?_, hout⟩
    rw [serveLoop_succ_run _ _ hc, List.length_nil, sv.count_zero]
    exact hrun
  | @bye m hm rest =>
    intro fuel sv c hc hb hf
    obtain ⟨fuel, rfl⟩ := Nat.exists_eq_succ_of_ne_zero (by omega : fuel ≠ 0)
    obtain ⟨c', -, -, -, -, hout, hrun⟩ := serveRound_run_message (serveLoop fuel) sv m hc hb
    rw [if_pos hm] at hrun
    refine ⟨c', ?_, ?_⟩
    · rw [serveLoop_succ_run _ _ hc, hrun]
      rfl
    · rw [hout]
      simp [answers, Ending.farewell]
  | @frame m hm rest ms e _ ih =>
    intro fuel sv c hc hb hf
    obtain ⟨fuel, rfl⟩ := Nat.exists_eq_succ_of_ne_zero (by omega : fuel ≠ 0)
    obtain ⟨c1, hc1, hb1, hclock, hticks, hout1, hrun1⟩ :=
      serveRound_run_message (serveLoop fuel) sv m hc hb
    have hfuel : rest.length < fuel := by
      rw [List.length_append, m.length_encode, sizeofHeader] at hf
      omega
    obtain ⟨c', hrun, hout⟩ := ih fuel (sv.count 1) c1 hc1 hb1 hfuel
    rw [if_neg hm] at hrun1
    refine ⟨c', ?_, ?_⟩
    · rw [serveLoop_succ_run _ _ hc, hrun1, hrun, Server.count_count, List.length_cons,
        Nat.add_comm]
    · rw [hout, hout1, hclock, hticks, answers, List.cons_append, List.flatMap_cons,
        List.append_assoc]

/-- However a stream is cut and however the writes are cut short, `handle_client` answers the
complete frames before the end of service, one by one and in order, counts them, and reports a bad
header. -/
theorem handleClient_answers {c : Conn Event} (hc : c.Healthy) (sv : Server) {fuel : Nat}
    (hf : c.bytes.length < fuel) :
    (∃ ms e, Framing c.bytes ms e) ∧
      ∀ ms e, Framing c.bytes ms e →
        ∃ c', (handleClient fuel sv).run conn c = some (sv.connect.count ms.length, c') ∧
          c'.output = c.output ++
            (answers c.clock c.ticks sv.connect ms ++ e.farewell).flatMap Message.encode := by
  refine ⟨exists_framing _ _ (Nat.lt_succ_self _), ?_⟩
  intro ms e h
  exact serveLoop_run h fuel sv.connect c hc rfl hf

/-- The message, and then a header of zeros. -/
def hiThenZeros : List UInt8 := hiMessage.encode ++ List.replicate 12 0

theorem framing_hiThenZeros : Framing hiThenZeros [hiMessage] .badHeader :=
  .frame (by decide) (.badHeader (h := ⟨0, 0, 0, 0, 0⟩) (by decide) [])

theorem handleClient_answers_hi :
    ∃ c', (handleClient 100 ⟨0, 0, 0⟩).run conn (Conn.cutAfter 13 hiThenZeros) =
        some (⟨0, 1, 1⟩, c') ∧
      c'.output = (Message.encode ⟨msgAck, 65535, [0x68, 0x69], by decide⟩) ++
        Message.encode ⟨msgError, 0, badHeader, by decide⟩ := by
  have hbytes := Conn.bytes_cutAfter (ε := Event) 13 hiThenZeros
  have hlen : (Conn.cutAfter 13 hiThenZeros : Conn Event).bytes.length < 100 := by
    rw [hbytes]
    decide
  obtain ⟨-, hall⟩ := handleClient_answers (Conn.healthy_cutAfter 13 hiThenZeros) ⟨0, 0, 0⟩ hlen
  rw [hbytes] at hall
  obtain ⟨c', hrun, hout⟩ := hall _ _ framing_hiThenZeros
  exact ⟨c', hrun, hout⟩

end MiniProtocol
