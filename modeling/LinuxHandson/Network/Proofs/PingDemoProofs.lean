import LinuxHandson.Network.PingDemo
import Mathlib.Tactic.Linarith

/-!
# Requests and replies of the ping loop

An iteration reads one packet, and looks at its type and its id only. It is faithful exactly when that
packet is not one for another iteration.
-/

namespace PingDemo

open CLib Datagram

variable {s s' : State} {r : Round} {o : Outcome} {a : Arrival Packet} {inbox : Inbox Packet}

/-! ## The packets -/

theorem ofImage_image (h : Icmphdr) (rest : List UInt8) : Icmphdr.ofImage (h.image ++ rest) = h := by
  have heq : Icmphdr.ofImage (h.image ++ rest) =
      ⟨h.type, h.code, UInt16.ofNat (leNat (leBytes 2 h.checksum.toNat)),
        UInt16.ofNat (leNat (leBytes 2 h.id.toNat)),
        UInt16.ofNat (leNat (leBytes 2 h.sequence.toNat))⟩ := rfl
  rw [heq, ofNat_leNat_leBytes16, ofNat_leNat_leBytes16, ofNat_leNat_leBytes16]

theorem headD_take (buf : List UInt8) (n : Nat) : (buf.take (n + 1)).headD 0 = buf.headD 0 := by
  cases buf <;> rfl

theorem ipHdrLen_le (buf : List UInt8) : ipHdrLen buf ≤ 60 := by
  unfold ipHdrLen
  omega

/-- The buffer holds the ICMP header of each packet, also of one that is longer than the buffer. -/
theorem replyIn_take (p : Packet) : replyIn (p.bytes.take sizeofRecvBuf) = some p.icmp := by
  have hlen : ipHdrLen (p.bytes.take sizeofRecvBuf) = ipHdrLen p.bytes := by
    rw [ipHdrLen, sizeofRecvBuf, headD_take, ipHdrLen]
  have hle := ipHdrLen_le p.bytes
  have hcomplete := p.complete
  have hbound : ipHdrLen p.bytes + sizeofIcmphdr ≤ (p.bytes.take sizeofRecvBuf).length := by
    rw [List.length_take]
    unfold sizeofIcmphdr sizeofRecvBuf at *
    omega
  have htake : ((p.bytes.take sizeofRecvBuf).drop (ipHdrLen p.bytes)).take sizeofIcmphdr =
      (p.bytes.drop (ipHdrLen p.bytes)).take sizeofIcmphdr := by
    rw [List.drop_take, List.take_take, Nat.min_eq_left]
    unfold sizeofIcmphdr sizeofRecvBuf
    omega
  rw [replyIn, hlen, memcpyFrom]
  simp only [Int.toNat_natCast, Int.natCast_nonneg, true_and]
  rw [if_pos hbound, htake]
  rfl

/-- The clock is read to the microsecond. -/
theorem timeDiffMs_gettimeofday (t u : Nat) :
    timeDiffMs (gettimeofday t) (gettimeofday u) = ((u : ℚ) - t) / 1000 := by
  have ht : (t : ℚ) = 1000000 * ((t / 1000000 : Nat) : ℚ) + ((t % 1000000 : Nat) : ℚ) := by
    exact_mod_cast (Nat.div_add_mod t 1000000).symm
  have hu : (u : ℚ) = 1000000 * ((u / 1000000 : Nat) : ℚ) + ((u % 1000000 : Nat) : ℚ) := by
    exact_mod_cast (Nat.div_add_mod u 1000000).symm
  have heq : timeDiffMs (gettimeofday t) (gettimeofday u) =
      (((u / 1000000 : Nat) : ℚ) - ((t / 1000000 : Nat) : ℚ)) * 1000 +
        (((u % 1000000 : Nat) : ℚ) - ((t % 1000000 : Nat) : ℚ)) / 1000 := by
    unfold timeDiffMs gettimeofday
    push_cast
    rfl
  rw [heq]
  linarith only [ht, hu]

/-! ## One iteration -/

/-- The value of `recv_time` after the packet `a` has been read. -/
def recvTime (s : State) (r : Round) (a : Arrival Packet) : Nat := max (s.called r) a.time + r.reading

theorem step_of_not_inLoop (h : ¬ InLoop s) : step s r = none := if_neg h

/-- Without a request there is no wait. -/
theorem step_unsent (h : InLoop s) (hr : r.sendOk = false) :
    step s r = some (⟨s.request r, none, none⟩, s.advance r (s.called r)) := by
  rw [step, if_pos h, if_neg (by rw [hr]; exact Bool.false_ne_true)]

theorem step_timeout (h : InLoop s) (hr : r.sendOk = true)
    (hi : s.inbox.recv (s.giveUp r) = (none, inbox)) :
    step s r = some (⟨s.request r, none, none⟩, (s.exchanged inbox).advance r (s.giveUp r)) := by
  rw [step, if_pos h, if_pos hr, hi]

theorem examine_own (h : OwnReply s a.packet) (t u : Nat) :
    examine s r t u a = some (⟨s.request r, some (a, u), some (((u : ℚ) - t) / 1000)⟩,
      (s.count (((u : ℚ) - t) / 1000)).advance r (s.sleep r u)) := by
  rw [examine, replyIn_take, ← timeDiffMs_gettimeofday]
  exact congrArg some (if_pos h)

theorem examine_foreign (h : ¬ OwnReply s a.packet) (t u : Nat) :
    examine s r t u a = some (⟨s.request r, some (a, u), none⟩, s.advance r (s.sleep r u)) := by
  rw [examine, replyIn_take]
  exact congrArg some (if_neg h)

theorem step_examine (h : InLoop s) (hr : r.sendOk = true)
    (hi : s.inbox.recv (s.giveUp r) = (some a, inbox)) :
    step s r = examine (s.exchanged inbox) r (s.sendTime r) (recvTime s r a) a := by
  rw [step, if_pos h, if_pos hr, hi]
  rfl

/-- The packet that is read is counted if it is an own reply. -/
theorem step_read (h : InLoop s) (hr : r.sendOk = true)
    (hi : s.inbox.recv (s.giveUp r) = (some a, inbox)) :
    ∃ s', step s r = some (⟨s.request r, some (a, recvTime s r a),
      if OwnReply s a.packet then some (((recvTime s r a : ℚ) - s.sendTime r) / 1000)
      else none⟩, s') := by
  rw [step_examine h hr hi]
  by_cases hown : OwnReply (s.exchanged inbox) a.packet
  · rw [if_pos (show OwnReply s a.packet from hown)]
    exact ⟨_, examine_own hown (s.sendTime r) (recvTime s r a)⟩
  · rw [if_neg (show ¬ OwnReply s a.packet from hown)]
    exact ⟨_, examine_foreign hown (s.sendTime r) (recvTime s r a)⟩

theorem faithfulRound_iff (h : step s r = some (o, s')) : FaithfulRound s r ↔ Faithful s r o := by
  constructor
  · intro hf
    exact hf o s' h
  · intro hf o' s'' h'
    obtain ⟨rfl, -⟩ := Prod.mk.inj (Option.some.inj (h.symm.trans h'))
    exact hf

/-- Nothing is counted, and there is nothing to count. -/
theorem faithful_uncounted (request : List UInt8) (read : Option (Arrival Packet × Nat)) :
    Faithful s r ⟨request, read, none⟩ ↔ ¬ Answered s r := by
  constructor
  · intro hf ha
    exact hf.counted.mpr ha rfl
  · intro ha
    exact ⟨⟨fun h => absurd rfl h, fun h => absurd h ha⟩, nofun⟩

/-- A counted packet is the one that answers the request. -/
theorem faithful_counted {request : List UInt8} {x : ℚ} {t : Nat}
    (hx : x = ((t : ℚ) - s.sendTime r) / 1000)
    (hr : r.sendOk = true) (ha : a ∈ s.inbox.unread) (ht : a.time ≤ s.giveUp r) :
    Faithful s r ⟨request, some (a, t), some x⟩ ↔ Answers s a.packet := by
  constructor
  · intro hf
    obtain ⟨a', t', hread, hanswers, -⟩ := hf.rtt x rfl
    obtain ⟨rfl, -⟩ := Prod.mk.inj (Option.some.inj hread)
    exact hanswers
  · intro hanswers
    refine ⟨⟨fun _ => ⟨hr, a, ha, ht, hanswers⟩, fun _ => nofun⟩, ?_⟩
    intro y hy
    exact ⟨a, t, rfl, hanswers, (Option.some.inj hy).symm.trans hx⟩

theorem matched_timeout (hi : s.inbox.recv (s.giveUp r) = (none, inbox)) :
    ¬ Answered s r ∧ Matched s r := by
  have hnone := Inbox.recv_none hi
  refine ⟨?_, ?_, ?_⟩
  · rintro ⟨-, a, ha, ht, -⟩
    exact hnone a ha ht
  · intro a rest hunread ht
    exact absurd ht (hnone a (hunread ▸ List.mem_cons_self))
  · intro a rest hunread ht
    exact absurd ht (hnone a (hunread ▸ List.mem_cons_self))

/-- When an own reply is read, the iteration is matched if that reply carries its sequence number. -/
theorem matched_own (hi : s.inbox.recv (s.giveUp r) = (some a, inbox)) (hown : OwnReply s a.packet) :
    Matched s r ↔ Answers s a.packet := by
  obtain ⟨hunread, ht⟩ := Inbox.recv_some hi
  constructor
  · intro hm
    exact ⟨hown, hm.own a inbox.unread hunread ht hown⟩
  · intro hanswers
    constructor
    · intro b rest hb _ _
      obtain ⟨rfl, -⟩ := List.cons.inj (hunread.symm.trans hb)
      exact hanswers.2
    · intro b rest hb _ hforeign
      obtain ⟨rfl, -⟩ := List.cons.inj (hunread.symm.trans hb)
      exact absurd hown hforeign

/-- When another packet is read, the iteration is matched if its request stays without a reply. -/
theorem matched_foreign (hi : s.inbox.recv (s.giveUp r) = (some a, inbox)) (hr : r.sendOk = true)
    (hforeign : ¬ OwnReply s a.packet) : Matched s r ↔ ¬ Answered s r := by
  obtain ⟨hunread, ht⟩ := Inbox.recv_some hi
  constructor
  · rintro hm ⟨-, b, hb, hbt, hanswers⟩
    rw [hunread] at hb
    rcases List.mem_cons.mp hb with rfl | hb
    · exact hforeign hanswers.1
    · exact hm.foreign a inbox.unread hunread ht hforeign b hb hbt hanswers
  · intro hna
    constructor
    · intro b rest hb _ hown
      obtain ⟨rfl, -⟩ := List.cons.inj (hunread.symm.trans hb)
      exact absurd hown hforeign
    · intro b rest hb _ _ c hc hct hanswers
      exact hna ⟨hr, c, hb ▸ List.mem_cons_of_mem b hc, hct, hanswers⟩

theorem faithfulRound_iff_matched (s : State) (r : Round) : FaithfulRound s r ↔ MatchedRound s r := by
  by_cases h : InLoop s
  · rcases hr : r.sendOk with _ | _
    · rw [faithfulRound_iff (step_unsent h hr), faithful_uncounted]
      refine ⟨fun _ _ htrue => absurd (hr.symm.trans htrue) nofun, ?_⟩
      rintro - ⟨htrue, -⟩
      exact absurd (hr.symm.trans htrue) nofun
    · have hmatched : MatchedRound s r ↔ Matched s r :=
        ⟨fun hm => hm h hr, fun hm _ _ => hm⟩
      rw [hmatched]
      rcases hi : s.inbox.recv (s.giveUp r) with ⟨_ | a, inbox⟩
      · obtain ⟨hna, hm⟩ := matched_timeout hi
        rw [faithfulRound_iff (step_timeout h hr hi), faithful_uncounted]
        exact ⟨fun _ => hm, fun _ => hna⟩
      · obtain ⟨s', hstep⟩ := step_read h hr hi
        obtain ⟨hunread, ht⟩ := Inbox.recv_some hi
        rw [faithfulRound_iff hstep]
        by_cases hown : OwnReply s a.packet
        · rw [if_pos hown, matched_own hi hown]
          exact faithful_counted rfl hr (hunread ▸ List.mem_cons_self) ht
        · rw [if_neg hown, matched_foreign hi hr hown]
          exact faithful_uncounted _ _
  · constructor
    · intro _ hl
      exact absurd hl h
    · intro _ o s' hstep
      rw [step_of_not_inLoop h] at hstep
      cases hstep

/-- The runs whose iterations all count the right reply. -/
theorem counts_own_reply_iff (pid : Nat) (maxCount : Int32) (now : Nat) (inbox : Inbox Packet)
    (rs : List Round) :
    Machine.Legal step FaithfulRound (start pid maxCount now inbox) rs ↔
      Machine.Legal step MatchedRound (start pid maxCount now inbox) rs :=
  Machine.legal_congr faithfulRound_iff_matched rs (start pid maxCount now inbox)

/-! ## A ping to the own host -/

/-- The header of the request: it carries the id of the process and the sequence number. -/
theorem ofImage_request (s : State) (r : Round) :
    Icmphdr.ofImage (s.request r) =
      echoHeader icmpEcho s.id (UInt16.ofNat s.seq) (gettimeofday (s.now + r.stamping)) :=
  ofImage_image _ _

/-- A request that comes back is not taken for a reply. -/
theorem request_not_ownReply {t : State} {p : Packet} (h : p.icmp = .ofImage (s.request r)) :
    ¬ OwnReply t p := by
  have htype : p.icmp.type = icmpEcho := by
    rw [h, ofImage_request]
    rfl
  rintro ⟨hreply, -⟩
  exact absurd (htype.symm.trans hreply) (by decide)

/-- The IP header of a packet from 127.0.0.1 to itself. -/
def loopbackHeader : List UInt8 :=
  [0x45, 0, 0, 92, 0, 0, 0x40, 0, 64, 1, 0x3C, 0x9F, 127, 0, 0, 1, 127, 0, 0, 1]

theorem ipHdrLen_loopback (icmp : List UInt8) : ipHdrLen (loopbackHeader ++ icmp) = 20 := by
  have hfirst : (loopbackHeader ++ icmp).headD 0 = 0x45 := rfl
  rw [ipHdrLen, hfirst]
  rfl

/-- The packet in which an ICMP message arrives. -/
def loopback (icmp : List UInt8) (h : sizeofIcmphdr ≤ icmp.length) : Packet where
  bytes := loopbackHeader ++ icmp
  complete := by
    rw [ipHdrLen_loopback, List.length_append]
    exact Nat.add_le_add_left h 20

theorem icmp_loopback (icmp : List UInt8) (h : sizeofIcmphdr ≤ icmp.length) :
    (loopback icmp h).icmp = .ofImage (icmp.take sizeofIcmphdr) := by
  rw [Packet.icmp, loopback, ipHdrLen_loopback]
  rfl

theorem le_length_packetImage (hdr : Icmphdr) (timestamp : Timeval) :
    sizeofIcmphdr ≤ (packetImage hdr timestamp).length := by
  have himage : hdr.image.length = sizeofIcmphdr := rfl
  rw [packetImage, List.length_append, himage]
  exact Nat.le_add_right _ _

/-- An echo message as it arrives over the loopback interface. -/
def echoPacket (type : UInt8) (id seq : UInt16) (timestamp : Timeval) : Packet :=
  loopback (packetImage (echoHeader type id seq timestamp) timestamp) (le_length_packetImage _ _)

theorem icmp_echoPacket (type : UInt8) (id seq : UInt16) (timestamp : Timeval) :
    (echoPacket type id seq timestamp).icmp = echoHeader type id seq timestamp := by
  rw [echoPacket, icmp_loopback]
  exact ofImage_image _ []

/-- The request comes back before its reply. -/
def loopbackInbox : Inbox Packet where
  unread := [⟨6, echoPacket icmpEcho 4242 1 (gettimeofday 4)⟩,
    ⟨7, echoPacket icmpEchoreply 4242 1 (gettimeofday 4)⟩]
  ordered := List.pairwise_pair.mpr (Nat.le_succ 6)

/-- The round in which `recvfrom` is called after both have arrived. -/
def loopbackRound : Round := ⟨4, 1, true, 3, .none, 1, 0⟩

/-- `ping_demo 127.0.0.1 1` reads its own request, and reports that the reply was lost. -/
theorem loopback_reply_lost :
    (∃ os s', Machine.exec step (start 4242 1 0 loopbackInbox) [loopbackRound] = some (os, s') ∧
      s'.sent = 1 ∧ s'.received = 0) ∧
      Answered (start 4242 1 0 loopbackInbox) loopbackRound ∧
        ¬ Machine.Legal step FaithfulRound (start 4242 1 0 loopbackInbox) [loopbackRound] := by
  have hloop : InLoop (start 4242 1 0 loopbackInbox) := ⟨by decide, rfl⟩
  have hrecv : ∃ a inbox, loopbackInbox.recv 2000008 = (some a, inbox) ∧
      a.packet.icmp = .ofImage ((start 4242 1 0 loopbackInbox).request loopbackRound) :=
    ⟨_, _, rfl, by rw [icmp_echoPacket, ofImage_request]; rfl⟩
  obtain ⟨a, inbox, hi, hrequest⟩ := hrecv
  have hanswered : Answered (start 4242 1 0 loopbackInbox) loopbackRound := by
    refine ⟨rfl, _, List.mem_cons_of_mem _ List.mem_cons_self, by decide, ?_⟩
    rw [Answers, OwnReply, icmp_echoPacket]
    refine ⟨⟨rfl, htons_htons 4242⟩, htons_htons 1⟩
  have hstep := step_examine (r := loopbackRound) hloop rfl hi
  rw [examine_foreign (request_not_ownReply hrequest)] at hstep
  refine ⟨⟨_, _, Machine.exec_cons [] hstep, rfl, rfl⟩, hanswered, ?_⟩
  · intro hl
    exact (hl.1 _ _ hstep).counted.mpr hanswered rfl

/-! ## The statistics -/

/-- What the loop has recorded between two states: the round trip times `rtts`. -/
structure Recorded (s : State) (rtts : List ℚ) (s' : State) : Prop where
  received : s'.received = s.received + rtts.length
  total : s'.totalRtt = s.totalRtt + rtts.sum
  min : s'.minRtt ≤ s.minRtt
  max : s.maxRtt ≤ s'.maxRtt
  between : ∀ x ∈ rtts, s'.minRtt ≤ x ∧ x ≤ s'.maxRtt

theorem Recorded.nil (hreceived : s'.received = s.received) (htotal : s'.totalRtt = s.totalRtt)
    (hmin : s'.minRtt = s.minRtt) (hmax : s'.maxRtt = s.maxRtt) : Recorded s [] s' :=
  ⟨hreceived, htotal.trans (add_zero _).symm, hmin.le, hmax.ge, nofun⟩

theorem Recorded.append {t : State} {xs ys : List ℚ} (h1 : Recorded s xs s') (h2 : Recorded s' ys t) :
    Recorded s (xs ++ ys) t := by
  refine ⟨?_, ?_, h2.min.trans h1.min, h1.max.trans h2.max, ?_⟩
  · rw [h2.received, h1.received, List.length_append, Nat.add_assoc]
  · rw [h2.total, h1.total, List.sum_append, add_assoc]
  · intro x hx
    rcases List.mem_append.mp hx with hx | hx
    · exact ⟨h2.min.trans (h1.between x hx).1, (h1.between x hx).2.trans h2.max⟩
    · exact h2.between x hx

theorem recorded_count (s : State) (rtt : ℚ) : Recorded s [rtt] (s.count rtt) := by
  have hmin : (s.count rtt).minRtt ≤ s.minRtt ∧ (s.count rtt).minRtt ≤ rtt := by
    show (if _ then _ else _) ≤ _ ∧ (if _ then _ else _) ≤ _
    split
    · next h => exact ⟨h.le, le_rfl⟩
    · next h => exact ⟨le_rfl, not_lt.mp h⟩
  have hmax : s.maxRtt ≤ (s.count rtt).maxRtt ∧ rtt ≤ (s.count rtt).maxRtt := by
    show _ ≤ (if _ then _ else _) ∧ _ ≤ (if _ then _ else _)
    split
    · next h => exact ⟨h.le, le_rfl⟩
    · next h => exact ⟨le_rfl, not_lt.mp h⟩
  refine ⟨rfl, ?_, hmin.1, hmax.1, ?_⟩
  · rw [List.sum_singleton]
    rfl
  · intro x hx
    obtain rfl := List.mem_singleton.mp hx
    exact ⟨hmin.2, hmax.2⟩

theorem recorded_step (h : step s r = some (o, s')) : Recorded s o.rtt.toList s' := by
  by_cases hl : InLoop s
  · rcases hr : r.sendOk with _ | _
    · obtain ⟨rfl, rfl⟩ := Prod.mk.inj (Option.some.inj ((step_unsent hl hr).symm.trans h))
      exact .nil rfl rfl rfl rfl
    · rcases hi : s.inbox.recv (s.giveUp r) with ⟨_ | a, inbox⟩
      · obtain ⟨rfl, rfl⟩ := Prod.mk.inj (Option.some.inj ((step_timeout hl hr hi).symm.trans h))
        exact .nil rfl rfl rfl rfl
      · rw [step_examine hl hr hi] at h
        by_cases hown : OwnReply (s.exchanged inbox) a.packet
        · rw [examine_own hown] at h
          obtain ⟨rfl, rfl⟩ := Prod.mk.inj (Option.some.inj h)
          obtain ⟨h1, h2, h3, h4, h5⟩ :=
            recorded_count (s.exchanged inbox) (((recvTime s r a : ℚ) - s.sendTime r) / 1000)
          exact ⟨h1, h2, h3, h4, h5⟩
        · rw [examine_foreign hown] at h
          obtain ⟨rfl, rfl⟩ := Prod.mk.inj (Option.some.inj h)
          exact .nil rfl rfl rfl rfl
  · rw [step_of_not_inLoop hl] at h
    cases h

/-- The statistics at the end of a run are those of the times that its iterations recorded. -/
theorem recorded_exec (rs : List Round) :
    ∀ {s s' : State} {os : List Outcome}, Machine.exec step s rs = some (os, s') →
      Recorded s (os.flatMap fun o => o.rtt.toList) s' := by
  induction rs with
  | nil =>
    intro s s' os h
    obtain ⟨rfl, rfl⟩ := Prod.mk.inj (Option.some.inj h)
    exact .nil rfl rfl rfl rfl
  | cons r rs ih =>
    intro s s' os h
    obtain ⟨o, s1, os', hr, h', rfl⟩ := Machine.exec_cons_some h
    exact (recorded_step hr).append (ih h')

end PingDemo
