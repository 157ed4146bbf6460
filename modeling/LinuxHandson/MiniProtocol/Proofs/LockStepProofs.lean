import LinuxHandson.MiniProtocol.Proofs.ClientProofs
import LinuxHandson.MiniProtocol.Proofs.ServerProofs
import Mathlib.Algebra.Ring.Nat

/-!
# Sessions in lock step

The client and the server take turns. `Phase` lists the points at which a session can be, with what
each program still has to read or write; every step of either program leads from a phase to a phase,
and in every phase one of the two can go on.
-/

namespace MiniProtocol

open CLib

theorem Message.encode_ne_nil (m : Message) : m.encode ≠ [] := by
  intro h
  have hlen := m.length_encode
  rw [h, List.length_nil, sizeofHeader] at hlen
  omega

/-! ## The server between two frames -/

/-- What the server does with a frame that it has read. -/
def receive (f : Nat) (sv : Server) (m : Message) : SockProg Event Server := do
  sysMark (.received m.parts)
  dispatch (serveLoop f) (sv.count 1) m.header m.len m.payload

/-- The server is ready for the next frame, and then for `f` more rounds. -/
structure Ready (f : Nat) (sv : Server) (q : SockProg Event Server) : Prop where
  eof : Drains q [] (return sv)
  reads : ∀ m : Message, Reads q m.encode (receive f sv m)

theorem ready_serveLoop (f : Nat) (sv : Server) : Ready f sv (serveLoop (f + 1) sv) := by
  constructor
  · rw [serveLoop]
    refine Drains.flag ?_
    show Drains (if true = true then serveRound (serveLoop f) sv else return sv) [] _
    rw [if_pos rfl]
    exact serveRound_shortHeader _ _ (by decide)
  · intro m
    rw [serveLoop]
    refine Reads.flag m.encode_ne_nil ?_
    show Reads (if true = true then serveRound (serveLoop f) sv else return sv) _ _
    rw [if_pos rfl]
    exact serveRound_reads _ _ m

/-- Without bytes on their way, a server that is ready stays ready. -/
theorem Ready.act {f : Nat} {sv : Server} {q q' : SockProg Event Server} {cap i : Nat} {t : Int}
    {l l' : Links Event} (h : Ready f sv q) (hnil : l.inbox = [])
    (hact : CLib.act cap false i t q l = some (q', l')) : l' = l ∧ Ready f sv q' := by
  obtain ⟨rfl, hq'⟩ := h.eof.act hnil hact
  refine ⟨rfl, ?_, ?_⟩
  · rcases hq' with ⟨hfalse, -⟩ | hq'
    · cases hfalse
    · exact hq'
  · intro m
    have hm := h.reads m
    rw [← List.nil_append m.encode, ← hnil] at hm
    have hne : l'.inbox ++ m.encode ≠ [] := fun h0 => m.encode_ne_nil (List.append_eq_nil_iff.mp h0).2
    obtain ⟨j, -, hq''⟩ := hm.act hne (fun h0 => Bool.noConfusion h0) hact
    rw [hnil] at hq''
    exact hq''

/-- Without bytes on their way, a client that expects a reply goes on expecting it. -/
theorem Expects.act {p p' K : SockProg Event Unit} {cap i : Nat} {t : Int} {l l' : Links Event}
    (h : Expects p K) (hnil : l.inbox = []) (hact : CLib.act cap false i t p l = some (p', l')) :
    l' = l ∧ Expects p' K := by
  have hstep : ∀ r : Message, l' = l ∧ Reads p' r.encode (do
      sysMark (.reply (some r.parts))
      K) := by
    intro r
    have hr := h r
    rw [← List.nil_append r.encode, ← hnil] at hr
    have hne : l.inbox ++ r.encode ≠ [] := fun h0 => r.encode_ne_nil (List.append_eq_nil_iff.mp h0).2
    obtain ⟨j, rfl, hp'⟩ := hr.act hne (fun h0 => Bool.noConfusion h0) hact
    rw [hnil, List.drop_nil] at hp' ⊢
    refine ⟨?_, hp'⟩
    cases l
    simp only at hnil
    rw [hnil]
  exact ⟨(hstep ⟨0, 0, [], by decide⟩).1, fun r => (hstep r).2⟩

/-! ## The phases -/

/-- The points of a session of a server that had received `n` frames before the present exchange:
the requests from the present one on, and what has happened in it. -/
inductive Phase (n : Nat) : Duplex Event Unit Server →
    List (UInt8 × UInt16 × List UInt8) → List Event → Prop where
  /-- Between two exchanges. -/
  | idle {client : SockProg Event Unit} {server : SockProg Event Server} {stdin : List UInt8}
      {log : List Event} {reqs : List (UInt8 × UInt16 × List UInt8)} {f : Nat} {sv : Server}
      (hc : Asks client stdin reqs) (hs : Ready f sv server) (hf : reqs.length ≤ f)
      (hn : sv.totalMessages = UInt64.ofNat n) :
      Phase n ⟨client, server, [], [], stdin, log⟩ reqs []
  /-- The request is on its way. -/
  | sending {client recv K : SockProg Event Unit} {server : SockProg Event Server}
      {up stdin w : List UInt8} {log : List Event} {m : Message}
      {reqs : List (UInt8 × UInt16 × List UInt8)} {f : Nat} {sv : Server} (hm : IsRequest m)
      (hw : Writes client w recv) (hr : Expects recv K) (hK : Asks K stdin reqs)
      (hbye : m.type = msgBye → K = pure () ∧ reqs = [])
      (hs : Reads server (up ++ w) (receive (f + 1) sv m)) (hf : reqs.length ≤ f)
      (hn : sv.totalMessages = UInt64.ofNat n) :
      Phase n ⟨client, server, up, [], stdin, log⟩ (m.parts :: reqs) [.request m.parts]
  /-- The server looks at the clock. -/
  | asking {client K : SockProg Event Unit} {k : Int → SockProg Event Server}
      {stdin : List UInt8} {log : List Event} {m : Message}
      {reqs : List (UInt8 × UInt16 × List UInt8)} {f : Nat} {sv : Server}
      (hm : m.type = msgStatus) (hr : Expects client K) (hK : Asks K stdin reqs)
      (hk : ∀ now, Writes (k now) (answer sv now m).encode (serveLoop (f + 1) sv))
      (hf : reqs.length ≤ f) (hn : sv.totalMessages = UInt64.ofNat (n + 1)) :
      Phase n ⟨client, .call .time k, [], [], stdin, log⟩ (m.parts :: reqs)
        [.request m.parts, .received m.parts]
  /-- The reply is on its way. -/
  | replying {client K : SockProg Event Unit} {server q : SockProg Event Server}
      {down stdin w : List UInt8} {log : List Event} {m r : Message}
      {reqs : List (UInt8 × UInt16 × List UInt8)} (ha : Answered (n + 1) m.parts r.parts)
      (hw : Writes server w q)
      (hq : m.type ≠ msgBye → ∃ f sv, Ready f sv q ∧ reqs.length ≤ f ∧
        sv.totalMessages = UInt64.ofNat (n + 1))
      (hr : Reads client (down ++ w) (do
        sysMark (.reply (some r.parts))
        K))
      (hK : Asks K stdin reqs)
      (hbye : m.type = msgBye → (K = pure () ∧ reqs = []) ∧ ∃ sv, q = pure sv) :
      Phase n ⟨client, server, [], down, stdin, log⟩ (m.parts :: reqs)
        [.request m.parts, .received m.parts]
  /-- The client has ended. -/
  | closing {server : SockProg Event Server} {stdin : List UInt8} {log : List Event} {sv : Server}
      (hs : server = pure sv ∨ Drains server [] (return sv)) :
      Phase n ⟨pure (), server, [], [], stdin, log⟩ [] []

/-- From a phase the session goes on in the same exchange, or it completes the exchange. -/
def Advances (n : Nat) (s s' : Duplex Event Unit Server)
    (reqs : List (UInt8 × UInt16 × List UInt8)) (tail : List Event) : Prop :=
  ∃ more, s'.log = s.log ++ more ∧
    (Phase n s' reqs (tail ++ more) ∨
      ∃ (x : Exchange) (rest : List (UInt8 × UInt16 × List UInt8)), reqs = x.request :: rest ∧
        tail ++ more = x.events ∧ Answered (n + 1) x.request x.reply ∧ Phase (n + 1) s' rest [])

theorem Advances.same {n : Nat} {s s' : Duplex Event Unit Server}
    {reqs : List (UInt8 × UInt16 × List UInt8)} {tail : List Event} (hlog : s'.log = s.log)
    (h : Phase n s' reqs tail) : Advances n s s' reqs tail := by
  refine ⟨[], ?_, .inl ?_⟩
  · rw [hlog, List.append_nil]
  · rw [List.append_nil]
    exact h

/-! ## Steps from each phase -/

section Steps

variable {n cap i : Nat} {t : Int} {client K : SockProg Event Unit}
  {server q : SockProg Event Server} {up down stdin w : List UInt8} {log : List Event}
  {reqs : List (UInt8 × UInt16 × List UInt8)} {f : Nat} {sv : Server}

theorem idle_left (hc : Asks client stdin reqs) (hs : Ready f sv server) (hf : reqs.length ≤ f)
    (hn : sv.totalMessages = UInt64.ofNat n) {p : SockProg Event Unit} {l : Links Event}
    (hact : act cap (ended server) i t client ⟨[], [], stdin, log⟩ = some (p, l)) :
    Advances n ⟨client, server, [], [], stdin, log⟩
      ⟨p, server, l.outbox, l.inbox, l.stdin, l.log⟩ reqs [] := by
  cases hc with
  | done => cases hact
  | line h =>
    obtain ⟨rfl, rfl⟩ := Prod.mk.inj (Option.some.inj hact)
    exact .same rfl (.idle h hs hf hn)
  | @exchange m k recv K _ reqs hm hw hr hK hbye =>
    obtain ⟨rfl, rfl⟩ := Prod.mk.inj (Option.some.inj hact)
    refine ⟨[.request m.parts], rfl, .inl ?_⟩
    rw [List.length_cons] at hf
    obtain ⟨f, rfl⟩ := Nat.exists_eq_succ_of_ne_zero (by omega : f ≠ 0)
    exact .sending hm hw hr hK hbye (hs.reads m) (Nat.le_of_succ_le_succ hf) hn

theorem idle_right (hc : Asks client stdin reqs) (hs : Ready f sv server) (hf : reqs.length ≤ f)
    (hn : sv.totalMessages = UInt64.ofNat n) {p : SockProg Event Server} {l : Links Event}
    (hact : act cap (ended client) i t server ⟨[], [], [], log⟩ = some (p, l)) :
    Advances n ⟨client, server, [], [], stdin, log⟩
      ⟨client, p, l.inbox, l.outbox, stdin, l.log⟩ reqs [] := by
  cases hc with
  | done =>
    obtain ⟨rfl, ⟨-, rfl⟩ | hp⟩ := hs.eof.act rfl hact
    · exact .same rfl (.closing (.inl rfl))
    · exact .same rfl (.closing (.inr hp))
  | line h =>
    obtain ⟨rfl, hp⟩ := hs.act rfl hact
    exact .same rfl (.idle (.line h) hp hf hn)
  | exchange hm hw hr hK hbye =>
    obtain ⟨rfl, hp⟩ := hs.act rfl hact
    exact .same rfl (.idle (.exchange hm hw hr hK hbye) hp hf hn)

theorem sending_left {recv : SockProg Event Unit} {m : Message} (hm : IsRequest m)
    (hw : Writes client w recv) (hr : Expects recv K) (hK : Asks K stdin reqs)
    (hbye : m.type = msgBye → K = pure () ∧ reqs = [])
    (hs : Reads server (up ++ w) (receive (f + 1) sv m)) (hf : reqs.length ≤ f)
    (hn : sv.totalMessages = UInt64.ofNat n) {p : SockProg Event Unit} {l : Links Event}
    (hact : act cap (ended server) i t client ⟨[], up, stdin, log⟩ = some (p, l)) :
    Advances n ⟨client, server, up, [], stdin, log⟩
      ⟨p, server, l.outbox, l.inbox, l.stdin, l.log⟩ (m.parts :: reqs) [.request m.parts] := by
  by_cases hnil : w = []
  · subst hnil
    obtain rfl := hw.eq_of_nil
    rw [hs.not_ended_of rfl] at hact
    obtain ⟨rfl, hp⟩ := hr.act rfl hact
    exact .same rfl (.sending hm (Writes.done p) hp hK hbye hs hf hn)
  · obtain ⟨j, rfl, hp⟩ := hw.act hnil hact
    rw [← List.take_append_drop j w, ← List.append_assoc] at hs
    exact .same rfl (.sending hm hp hr hK hbye hs hf hn)

theorem answered_answer {m : Message} (hm : IsRequest m) (hn : sv.totalMessages = UInt64.ofNat n)
    (now : Int) : Answered n m.parts (answer sv now m).parts := by
  have hparts : m.parts = (m.type, m.seq, m.payload) := rfl
  rcases hm with h | h | h | h
  · rw [hparts, answer, h, if_pos rfl]
    exact .hello _ _
  · rw [hparts, answer, h, if_neg (by decide), if_pos rfl]
    exact .data _ _
  · rw [hparts, answer, h, if_neg (by decide), if_neg (by decide), if_pos rfl]
    have hstatus : sv.status now = protoStatus (UInt32.ofInt (now - sv.startTime))
        sv.totalConnections.toUInt32 (UInt32.ofNat n) := by
      rw [Server.status, hn, UInt64.toUInt32_ofNat']
    show Answered n _ (msgStatus, m.seq, sv.status now)
    rw [hstatus]
    exact .status _ _ _ _
  · rw [hparts, answer, h, if_neg (by decide), if_neg (by decide), if_neg (by decide), if_pos rfl]
    exact .bye _ _

theorem count_one_messages (hn : sv.totalMessages = UInt64.ofNat n) :
    (sv.count 1).totalMessages = UInt64.ofNat (n + 1) := by
  show sv.totalMessages + UInt64.ofNat 1 = _
  rw [hn, UInt64.ofNat_add]

theorem sending_right {recv : SockProg Event Unit} {m : Message} (hm : IsRequest m)
    (hw : Writes client w recv) (hr : Expects recv K) (hK : Asks K stdin reqs)
    (hbye : m.type = msgBye → K = pure () ∧ reqs = [])
    (hs : Reads server (up ++ w) (receive (f + 1) sv m)) (hf : reqs.length ≤ f)
    (hn : sv.totalMessages = UInt64.ofNat n) {p : SockProg Event Server} {l : Links Event}
    (hact : act cap (ended client) i t server ⟨up, [], [], log⟩ = some (p, l)) :
    Advances n ⟨client, server, up, [], stdin, log⟩
      ⟨client, p, l.inbox, l.outbox, stdin, l.log⟩ (m.parts :: reqs) [.request m.parts] := by
  by_cases hnil : up ++ w = []
  · -- the whole frame has been read: the server counts it
    obtain ⟨rfl, rfl⟩ := List.append_eq_nil_iff.mp hnil
    obtain rfl := hw.eq_of_nil
    obtain rfl := hs.eq_of_nil
    obtain ⟨rfl, rfl⟩ := Prod.mk.inj (Option.some.inj hact)
    refine ⟨[.received m.parts], rfl, .inl ?_⟩
    by_cases hstatus : m.type = msgStatus
    · obtain ⟨k, hk, hkw⟩ := dispatch_status (serveLoop (f + 1)) (sv.count 1) hstatus
      show Phase n ⟨client, dispatch (serveLoop (f + 1)) (sv.count 1) m.header m.len m.payload,
        [], [], stdin, _⟩ _ _
      rw [hk]
      exact .asking hstatus hr hK hkw hf (count_one_messages hn)
    · have hd := dispatch_writes (serveLoop (f + 1)) (sv.count 1) hstatus 0
      refine .replying (answered_answer hm (count_one_messages hn) 0) hd ?_ (hr _) hK ?_
      · intro hne
        rw [if_neg hne]
        exact ⟨f, _, ready_serveLoop f _, hf, count_one_messages hn⟩
      · intro hb
        rw [if_pos hb]
        exact ⟨hbye hb, _, rfl⟩
  · obtain ⟨j, rfl, hp⟩ := hs.act hnil (fun hend => by
      by_contra hne
      rw [hw.not_ended hne] at hend
      cases hend) hact
    exact .same rfl (.sending hm hw hr hK hbye hp hf hn)

theorem asking_left {k : Int → SockProg Event Server} {m : Message} (hm : m.type = msgStatus)
    (hr : Expects client K) (hK : Asks K stdin reqs)
    (hk : ∀ now, Writes (k now) (answer sv now m).encode (serveLoop (f + 1) sv))
    (hf : reqs.length ≤ f) (hn : sv.totalMessages = UInt64.ofNat (n + 1))
    {p : SockProg Event Unit} {l : Links Event}
    (hact : act cap false i t client ⟨[], [], stdin, log⟩ = some (p, l)) :
    Advances n ⟨client, .call .time k, [], [], stdin, log⟩
      ⟨p, .call .time k, l.outbox, l.inbox, l.stdin, l.log⟩ (m.parts :: reqs)
      [.request m.parts, .received m.parts] := by
  obtain ⟨rfl, hp⟩ := hr.act rfl hact
  exact .same rfl (.asking hm hp hK hk hf hn)

theorem asking_right {k : Int → SockProg Event Server} {m : Message} (hm : m.type = msgStatus)
    (hr : Expects client K) (hK : Asks K stdin reqs)
    (hk : ∀ now, Writes (k now) (answer sv now m).encode (serveLoop (f + 1) sv))
    (hf : reqs.length ≤ f) (hn : sv.totalMessages = UInt64.ofNat (n + 1))
    {p : SockProg Event Server} {l : Links Event}
    (hact : act cap (ended client) i t (.call .time k) ⟨[], [], [], log⟩ = some (p, l)) :
    Advances n ⟨client, .call .time k, [], [], stdin, log⟩
      ⟨client, p, l.inbox, l.outbox, stdin, l.log⟩ (m.parts :: reqs)
      [.request m.parts, .received m.parts] := by
  obtain ⟨rfl, rfl⟩ := Prod.mk.inj (Option.some.inj hact)
  have hne : m.type ≠ msgBye := by
    rw [hm]
    decide
  exact .same rfl (.replying (answered_answer (.inr (.inr (.inl hm))) hn t) (hk t)
    (fun _ => ⟨f, sv, ready_serveLoop f sv, hf, hn⟩) (hr _) hK (fun hb => absurd hb hne))

section Replying

variable {m r : Message} (ha : Answered (n + 1) m.parts r.parts)
  (hw : Writes server w q)
  (hq : m.type ≠ msgBye → ∃ f sv, Ready f sv q ∧ reqs.length ≤ f ∧
    sv.totalMessages = UInt64.ofNat (n + 1))
  (hr : Reads client (down ++ w) (do
    sysMark (.reply (some r.parts))
    K))
  (hK : Asks K stdin reqs)
  (hbye : m.type = msgBye → (K = pure () ∧ reqs = []) ∧ ∃ sv, q = pure sv)

include ha hw hq hr hK hbye

theorem replying_left {p : SockProg Event Unit} {l : Links Event}
    (hact : act cap (ended server) i t client ⟨down, [], stdin, log⟩ = some (p, l)) :
    Advances n ⟨client, server, [], down, stdin, log⟩
      ⟨p, server, l.outbox, l.inbox, l.stdin, l.log⟩ (m.parts :: reqs)
      [.request m.parts, .received m.parts] := by
  by_cases hnil : down ++ w = []
  · -- the whole frame has been read: the exchange is complete
    obtain ⟨rfl, rfl⟩ := List.append_eq_nil_iff.mp hnil
    obtain rfl := hw.eq_of_nil
    obtain rfl := hr.eq_of_nil
    obtain ⟨rfl, rfl⟩ := Prod.mk.inj (Option.some.inj hact)
    refine ⟨[.reply (some r.parts)], rfl, .inr ⟨⟨m.parts, r.parts⟩, reqs, rfl, rfl, ha, ?_⟩⟩
    by_cases hb : m.type = msgBye
    · obtain ⟨⟨rfl, rfl⟩, sv, rfl⟩ := hbye hb
      exact .closing (.inl rfl)
    · obtain ⟨f, sv, hready, hf, hn⟩ := hq hb
      exact .idle hK hready hf hn
  · obtain ⟨j, rfl, hp⟩ := hr.act hnil (fun hend => by
      by_contra hne
      rw [hw.not_ended hne] at hend
      cases hend) hact
    exact .same rfl (.replying ha hw hq hp hK hbye)

theorem replying_right {p : SockProg Event Server} {l : Links Event}
    (hact : act cap (ended client) i t server ⟨[], down, [], log⟩ = some (p, l)) :
    Advances n ⟨client, server, [], down, stdin, log⟩
      ⟨client, p, l.inbox, l.outbox, stdin, l.log⟩ (m.parts :: reqs)
      [.request m.parts, .received m.parts] := by
  by_cases hnil : w = []
  · subst hnil
    obtain rfl := hw.eq_of_nil
    by_cases hb : m.type = msgBye
    · obtain ⟨-, sv, rfl⟩ := hbye hb
      cases hact
    · obtain ⟨f, sv, hready, hf, hn⟩ := hq hb
      rw [hr.not_ended_of rfl] at hact
      obtain ⟨rfl, hp⟩ := hready.act rfl hact
      exact .same rfl (.replying ha (Writes.done p) (fun _ => ⟨f, sv, hp, hf, hn⟩) hr hK
        (fun h => absurd h hb))
  · obtain ⟨j, rfl, hp⟩ := hw.act hnil hact
    rw [← List.take_append_drop j w, ← List.append_assoc] at hr
    exact .same rfl (.replying ha hp hq hr hK hbye)

end Replying

theorem closing_right (hs : server = pure sv ∨ Drains server [] (return sv))
    {p : SockProg Event Server} {l : Links Event}
    (hact : act cap true i t server ⟨[], [], [], log⟩ = some (p, l)) :
    Advances n ⟨pure (), server, [], [], stdin, log⟩
      ⟨pure (), p, l.inbox, l.outbox, stdin, l.log⟩ [] [] := by
  rcases hs with rfl | hs
  · cases hact
  · obtain ⟨rfl, ⟨-, rfl⟩ | hp⟩ := hs.act rfl hact
    · exact .same rfl (.closing (.inl rfl))
    · exact .same rfl (.closing (.inr hp))

end Steps

theorem phase_step {n cap : Nat} {s s' : Duplex Event Unit Server}
    {reqs : List (UInt8 × UInt16 × List UInt8)} {tail : List Event} (h : Phase n s reqs tail)
    {mv : Move} {r : Unit} (hstep : Duplex.step cap s mv = some (r, s')) :
    Advances n s s' reqs tail := by
  rcases Duplex.step_cases hstep with ⟨p, l, hact, rfl⟩ | ⟨p, l, hact, rfl⟩
  · cases h with
    | idle hc hs hf hn => exact idle_left hc hs hf hn hact
    | sending hm hw hr hK hbye hs hf hn => exact sending_left hm hw hr hK hbye hs hf hn hact
    | asking hm hr hK hk hf hn => exact asking_left hm hr hK hk hf hn hact
    | replying ha hw hq hr hK hbye => exact replying_left ha hw hq hr hK hbye hact
    | closing hs => cases hact
  · cases h with
    | idle hc hs hf hn => exact idle_right hc hs hf hn hact
    | sending hm hw hr hK hbye hs hf hn => exact sending_right hm hw hr hK hbye hs hf hn hact
    | asking hm hr hK hk hf hn => exact asking_right hm hr hK hk hf hn hact
    | replying ha hw hq hr hK hbye => exact replying_right ha hw hq hr hK hbye hact
    | closing hs => exact closing_right hs hact

/-! ## Somebody can always go on -/

/-- A frame on its way: what is left to write goes into the stream as long as there is room, and
what is in the stream can be read. -/
theorem canAct_of_frame {ε α β : Type} {cap : Nat} (hcap : 0 < cap) {writer q : SockProg ε α}
    {reader q' : SockProg ε β} {stream w : List UInt8} (hw : Writes writer w q)
    (hr : Reads reader (stream ++ w) q') (hne : stream ++ w ≠ []) (back stdin stdin' : List UInt8)
    (log : List ε) (e e' : Bool) :
    CanAct cap e writer ⟨back, stream, stdin, log⟩ ∨
      CanAct cap e' reader ⟨stream, back, stdin', log⟩ := by
  by_cases hstream : stream = []
  · left
    rw [hstream, List.nil_append] at hne
    exact hw.canAct hne (by rw [hstream]; exact hcap)
  · right
    exact hr.canAct hne hstream

theorem phase_progress {n cap : Nat} (hcap : 0 < cap) {s : Duplex Event Unit Server}
    {reqs : List (UInt8 × UInt16 × List UInt8)} {tail : List Event} (h : Phase n s reqs tail) :
    s.Progress cap := by
  cases h with
  | idle hc hs hf hn =>
    cases hc with
    | done => exact Duplex.progress_right (hs.eof.canAct rfl)
    | line h => exact Duplex.progress_left ⟨0, 0, _, rfl⟩
    | exchange hm hw hr hK hbye => exact Duplex.progress_left ⟨0, 0, _, rfl⟩
  | @sending client recv K server up stdin w log m reqs f sv hm hw hr hK hbye hs hf hn =>
    by_cases hnil : up ++ w = []
    · rw [hnil] at hs
      obtain rfl := hs.eq_of_nil
      exact Duplex.progress_right ⟨0, 0, _, rfl⟩
    · rcases canAct_of_frame hcap hw hs hnil [] stdin [] log _ _ with h | h
      · exact Duplex.progress_left h
      · exact Duplex.progress_right h
  | asking hm hr hK hk hf hn => exact Duplex.progress_right ⟨0, 0, _, rfl⟩
  | @replying client K server q down stdin w log m r reqs ha hw hq hr hK hbye =>
    by_cases hnil : down ++ w = []
    · rw [hnil] at hr
      obtain rfl := hr.eq_of_nil
      exact Duplex.progress_left ⟨0, 0, _, rfl⟩
    · rcases canAct_of_frame hcap hw hr hnil [] [] stdin log _ _ with h | h
      · exact Duplex.progress_right h
      · exact Duplex.progress_left h
  | closing hs =>
    rcases hs with rfl | hs
    · exact .inl ⟨rfl, rfl⟩
    · exact Duplex.progress_right (hs.canAct rfl)

/-! ## The whole session -/

/-- The invariant of a session: complete exchanges for the first requests, and a phase of the
next. -/
def InSession (before : Nat) (reqs : List (UInt8 × UInt16 × List UInt8))
    (s : Duplex Event Unit Server) : Prop :=
  ∃ (xs : List Exchange) (rest : List (UInt8 × UInt16 × List UInt8)) (tail : List Event),
    reqs = xs.map Exchange.request ++ rest ∧ s.log = xs.flatMap Exchange.events ++ tail ∧
    (∀ k (hk : k < xs.length), Answered (before + (k + 1)) xs[k].request xs[k].reply) ∧
    Phase (before + xs.length) s rest tail

section Session

variable {before cap : Nat} {reqs : List (UInt8 × UInt16 × List UInt8)}
  {s s' : Duplex Event Unit Server}

theorem inSession_step (h : InSession before reqs s) {mv : Move} {r : Unit}
    (hstep : Duplex.step cap s mv = some (r, s')) : InSession before reqs s' := by
  obtain ⟨xs, rest, tail, hreqs, hlog, hans, hph⟩ := h
  obtain ⟨more, hmore, hph' | ⟨x, rest', hrest, hx, ha, hph'⟩⟩ := phase_step hph hstep
  · refine ⟨xs, rest, tail ++ more, hreqs, ?_, hans, hph'⟩
    rw [hmore, hlog, List.append_assoc]
  · refine ⟨xs ++ [x], rest', [], ?_, ?_, ?_, ?_⟩
    · rw [hreqs, hrest, List.map_append, List.append_assoc]
      rfl
    · rw [hmore, hlog, List.append_assoc, hx, List.flatMap_append, List.append_nil]
      simp only [List.flatMap_cons, List.flatMap_nil, List.append_nil]
    · intro k hk
      rw [List.length_append, List.length_singleton] at hk
      by_cases hlt : k < xs.length
      · rw [List.getElem_append_left hlt]
        exact hans k hlt
      · obtain rfl : k = xs.length := by omega
        rw [List.getElem_concat_length rfl]
        exact ha
    · rw [List.length_append, List.length_singleton]
      exact hph'

theorem phase_underway {n : Nat} {tail : List Event} (h : Phase n s reqs tail) :
    Underway reqs[0]? tail := by
  cases h with
  | idle _ _ _ _ => exact .inl rfl
  | sending _ _ _ _ _ _ _ _ => exact .inr ⟨_, rfl, .inl rfl⟩
  | asking _ _ _ _ _ _ => exact .inr ⟨_, rfl, .inr rfl⟩
  | replying _ _ _ _ _ _ => exact .inr ⟨_, rfl, .inr rfl⟩
  | closing _ => exact .inl rfl

theorem inSession_lockStep (h : InSession before reqs s)
    (hseq : ∀ k m, reqs[k]? = some m → m.2.1 = UInt16.ofNat (k + 1)) :
    LockStep before reqs s.log := by
  obtain ⟨xs, rest, tail, hreqs, hlog, hans, hph⟩ := h
  refine ⟨xs, tail, hlog, ?_, ?_⟩
  · have hnext : reqs[xs.length]? = rest[0]? := by
      rw [hreqs, List.getElem?_append_right (by rw [List.length_map]), List.length_map,
        Nat.sub_self]
    rw [hnext]
    exact phase_underway hph
  · intro k hk
    have hreq : reqs[k]? = some xs[k].request := by
      rw [hreqs, List.getElem?_append_left (by rw [List.length_map]; exact hk), List.getElem?_map,
        List.getElem?_eq_getElem hk]
      rfl
    exact ⟨hreq, hseq k _ hreq, hans k hk⟩

theorem session_inSession (pid : Nat) (stdin : List UInt8) {sv : Server}
    (hn : sv.totalMessages = UInt64.ofNat before) {fuel : Nat} (hf : stdin.length + 2 < fuel) :
    InSession before (requests pid stdin) (session pid stdin sv fuel) := by
  obtain ⟨f, rfl⟩ := Nat.exists_eq_succ_of_ne_zero (by omega : fuel ≠ 0)
  refine ⟨[], requests pid stdin, [], rfl, rfl, fun k hk => absurd hk (Nat.not_lt_zero k), ?_⟩
  have hlen := length_requests_le pid stdin
  exact .idle (clientMain_asks pid stdin (by omega)) (ready_serveLoop f sv.connect) (by omega) hn

end Session

/-- Earlier connections, whose frames the server has counted. -/
theorem serveAll_run (earlier : List (Conn Event × List Message)) :
    ∀ sv : Server, (∀ p ∈ earlier, p.1.Healthy ∧ ∃ e, Framing p.1.bytes p.2 e) →
      ∃ sv', serveAll (earlier.map Prod.fst) sv = some sv' ∧
        sv'.totalMessages = sv.totalMessages +
          UInt64.ofNat (earlier.map fun p => p.2.length).sum := by
  induction earlier with
  | nil =>
    intro sv _
    refine ⟨sv, rfl, ?_⟩
    show sv.totalMessages = sv.totalMessages + 0
    rw [UInt64.add_zero]
  | cons p earlier ih =>
    intro sv h
    obtain ⟨hc, e, hf⟩ := h p List.mem_cons_self
    obtain ⟨c', hrun, -⟩ := serveLoop_run hf _ sv.connect p.1 hc rfl (Nat.lt_succ_self _)
    obtain ⟨sv', hrest, hsum⟩ := ih (sv.connect.count p.2.length) fun p' hp' =>
      h p' (List.mem_cons_of_mem _ hp')
    refine ⟨sv', ?_, ?_⟩
    · rw [List.map_cons, serveAll, handleClient]
      show ((serveLoop _ sv.connect).run conn p.1).bind _ = _
      rw [hrun]
      exact hrest
    · rw [hsum, List.map_cons, List.sum_cons, UInt64.ofNat_add, ← UInt64.add_assoc]
      rfl

/-- In every session of the client with the server, whatever the server has served before, and in
whatever order and in whatever pieces the two go on, they stay in lock step and never wait for each
other: until both have ended, one of them can go on. -/
theorem session_lock_step {cap : Nat} (hcap : 0 < cap) (startTime : Int)
    {earlier : List (Conn Event × List Message)}
    (hearlier : ∀ p ∈ earlier, p.1.Healthy ∧ ∃ e, Framing p.1.bytes p.2 e) :
    ∃ sv, serveAll (earlier.map Prod.fst) ⟨startTime, 0, 0⟩ = some sv ∧
      ∀ (pid : Nat) (stdin : List UInt8) (fuel : Nat), stdin.length + 2 < fuel →
        ∀ s, Machine.Reach (Duplex.step cap) (fun _ _ => True) (session pid stdin sv fuel) s →
          LockStep (earlier.map fun p => p.2.length).sum (requests pid stdin) s.log ∧
            ¬ s.Deadlocked cap ∧ s.Progress cap := by
  obtain ⟨sv, hsv, hsum⟩ := serveAll_run earlier ⟨startTime, 0, 0⟩ hearlier
  refine ⟨sv, hsv, ?_⟩
  intro pid stdin fuel hf s hreach
  have hn : sv.totalMessages = UInt64.ofNat (earlier.map fun p => p.2.length).sum := by
    rw [hsum]
    exact UInt64.zero_add _
  have hinv : InSession (earlier.map fun p => p.2.length).sum (requests pid stdin) s := by
    refine Machine.Reach.invariant (session_inSession pid stdin hn hf) ?_ hreach
    intro s mv r s' h _ hstep
    exact inSession_step h hstep
  have hprog : s.Progress cap := by
    obtain ⟨_, _, _, _, _, _, hph⟩ := hinv
    exact phase_progress hcap hph
  exact ⟨inSession_lockStep hinv fun k m h => requests_seq h, hprog.not_deadlocked, hprog⟩

/-- The line `/status`. -/
def statusLine : List UInt8 := cmdStatus.bytes ++ [newline]

/-- A schedule up to the reply to `/status`: the bytes of each call, and whether the client makes
it. -/
def statusMoves : List Move :=
  [(true, 0), (true, 12), (true, 32), (false, 0), (false, 12), (false, 20), (false, 12), (false, 0),
    (false, 12), (true, 12), (true, 0), (true, 0), (true, 0), (true, 5), (true, 7), (false, 0),
    (false, 1), (false, 11), (false, 0), (false, 0), (false, 12), (false, 12), (true, 12),
    (true, 12), (true, 0)].map fun mv => ⟨mv.1, mv.2, 5⟩

theorem statusMoves_log :
    ((Machine.exec (Duplex.step 64) (session 7 statusLine ⟨0, 1, 1⟩ 20) statusMoves).map
      fun r => r.2.log) =
    some (Exchange.events ⟨(msgHello, 1, hello 7), (msgAck, 1, [])⟩ ++
      Exchange.events ⟨(msgStatus, 2, []), (msgStatus, 2, protoStatus 5 2 3)⟩) := by
  decide +kernel

theorem session_lock_step_status :
    ∃ sv rs s, serveAll [Conn.cutAfter 13 hiThenZeros] ⟨0, 0, 0⟩ = some sv ∧
      Machine.exec (Duplex.step 64) (session 7 statusLine sv 20) statusMoves = some (rs, s) ∧
      LockStep 1 (requests 7 statusLine) s.log ∧ ¬ s.Deadlocked 64 ∧ s.Progress 64 := by
  have hearlier : ∀ p ∈ [((Conn.cutAfter 13 hiThenZeros : Conn Event), [hiMessage])],
      p.1.Healthy ∧ ∃ e, Framing p.1.bytes p.2 e := by
    intro p hp
    obtain rfl := List.mem_singleton.mp hp
    refine ⟨Conn.healthy_cutAfter 13 hiThenZeros, .badHeader, ?_⟩
    rw [Conn.bytes_cutAfter]
    exact framing_hiThenZeros
  obtain ⟨sv, hsv, hall⟩ := session_lock_step (by decide : 0 < 64) 0 hearlier
  have hserve : serveAll [Conn.cutAfter 13 hiThenZeros] ⟨0, 0, 0⟩ = some ⟨0, 1, 1⟩ := by
    decide +kernel
  obtain rfl : sv = ⟨0, 1, 1⟩ := Option.some.inj (hsv.symm.trans hserve)
  obtain ⟨⟨rs, s⟩, hexec, -⟩ := Option.map_eq_some_iff.mp statusMoves_log
  exact ⟨_, rs, s, hserve, hexec, hall 7 statusLine 20 (by decide) s (.exec _ .init hexec)⟩

end MiniProtocol
