import LinuxHandson.Dns.Response
import LinuxHandson.Dns.Proofs.ParseBoundsProofs

/-!
# Whether `main` stays in the response

The fixed part of a record is read after a comparison with the number of bytes received, the data behind
it is not. The bound is carried over the answers one by one, as far as the loop comes to them.
-/

namespace DnsClient

open CLib

namespace Response

variable {r : Response} {ancount i : Nat} {lines : List Line} {pos : Int} {name out : List UInt8}
  {p : Int × List UInt8} {rr : DnsRr}

/-! ## What is read in place -/

theorem ntohsAt_isSome {b : List UInt8} : (ntohsAt b pos).isSome ↔ 0 ≤ pos ∧ pos + 2 ≤ b.length := by
  rw [ntohsAt, Option.isSome_map]
  exact memcpyFrom_isSome

theorem ntohlAt_isSome {b : List UInt8} : (ntohlAt b pos).isSome ↔ 0 ≤ pos ∧ pos + 4 ≤ b.length := by
  rw [ntohlAt, Option.isSome_map]
  exact memcpyFrom_isSome

theorem readHeader_isSome {b : List UInt8} : (readHeader b).isSome ↔ 8 ≤ b.length := by
  constructor
  · intro h
    obtain ⟨hdr, h⟩ := Option.isSome_iff_exists.mp h
    unfold readHeader at h
    obtain ⟨flags, -, h⟩ := Option.bind_eq_some_iff.mp h
    obtain ⟨an, han, -⟩ := Option.bind_eq_some_iff.mp h
    have := ntohsAt_isSome.mp (Option.isSome_of_eq_some han)
    omega
  · intro h
    obtain ⟨flags, hflags⟩ := Option.isSome_iff_exists.mp
      (ntohsAt_isSome.mpr (show (0 : Int) ≤ 2 ∧ 2 + 2 ≤ (b.length : Int) by omega))
    obtain ⟨an, han⟩ := Option.isSome_iff_exists.mp
      (ntohsAt_isSome.mpr (show (0 : Int) ≤ 6 ∧ 6 + 2 ≤ (b.length : Int) by omega))
    obtain ⟨id, hid⟩ := Option.isSome_iff_exists.mp
      (ntohsAt_isSome.mpr (show (0 : Int) ≤ 0 ∧ 0 + 2 ≤ (b.length : Int) by omega))
    rw [readHeader, hflags, han, hid]
    rfl

/-- The fixed part of a record that lies in the response. -/
theorem exists_readRr {b : List UInt8} (hpos : 0 ≤ pos) (hfit : pos + sizeofRr ≤ b.length) :
    ∃ rr, readRr b pos = some rr := by
  have hsize : (sizeofRr : Int) = 10 := rfl
  obtain ⟨rtype, hrtype⟩ := Option.isSome_iff_exists.mp
    (ntohsAt_isSome.mpr (show 0 ≤ pos ∧ pos + 2 ≤ (b.length : Int) by omega))
  obtain ⟨rdlen, hrdlen⟩ := Option.isSome_iff_exists.mp
    (ntohsAt_isSome.mpr (show 0 ≤ pos + 8 ∧ pos + 8 + 2 ≤ (b.length : Int) by omega))
  obtain ⟨ttl, httl⟩ := Option.isSome_iff_exists.mp
    (ntohlAt_isSome.mpr (show 0 ≤ pos + 4 ∧ pos + 4 + 4 ≤ (b.length : Int) by omega))
  refine ⟨⟨rtype, rdlen, ttl⟩, ?_⟩
  rw [readRr, hrtype, hrdlen, httl]
  rfl

/-! ## Calls of `parse_name` -/

theorem one_le_outsize (r : Response) : 1 ≤ r.call.outsize := show (1 : Int) ≤ 256 by decide

theorem inv_parseStart (hout : out.length = sizeofName) : r.call.Inv (parseStart pos out) where
  outPos_nonneg := Int.le_refl 0
  outPos_le := Int.le_max_left 0 _
  out_length := hout.trans r.length_name.symm

theorem NameAt.result (h : r.NameAt pos out p) (hpos : 0 ≤ pos) (hout : out.length = sizeofName) :
    0 ≤ p.1 ∧ p.2.length = sizeofName := by
  obtain ⟨hp, hlen⟩ := ParseCall.ends_result r.one_le_outsize (inv_parseStart hout) hpos (Int.le_refl 0) h
  exact ⟨hp, hlen.trans r.length_name⟩

/-- A call is safe exactly if its name leads to no pointer that is cut off and what `main` does after it
is safe. -/
theorem safe_call (wrap : ParseState → MainState)
    {ret : Int × List UInt8 → Round MainState (Int × List Line)}
    (hwrap : ∀ s, r.mainRound (wrap s) = (r.call.round s).call wrap ret) (hpos : 0 ≤ pos)
    (hout : out.length = sizeofName) :
    Safe r.mainRound (wrap (parseStart pos out)) ↔
      ¬ r.call.Breaks pos 0 ∧ ∀ p, r.NameAt pos out p → SafeRound r.mainRound (ret p) := by
  rw [safe_call_iff hwrap,
    ParseCall.safe_iff_not_breaks (inv_parseStart hout) hpos r.one_le_outsize]
  rfl

theorem safe_question (r : Response) :
    Safe r.mainRound (.question ancount lines (parseStart sizeofHeader r.name)) ↔
      ¬ r.call.Breaks sizeofHeader 0 ∧ ∀ p, r.NameAt sizeofHeader r.name p →
        Safe r.mainRound (.answers ancount lines 0 (p.1 + sizeofQuestion) p.2) :=
  safe_call (.question ancount lines) (fun _ => rfl) (Int.natCast_nonneg _) r.length_name

theorem safe_answers (hpos : 0 ≤ pos) (hname : name.length = sizeofName) :
    Safe r.mainRound (.answers ancount lines i pos name) ↔
      (i < ancount → pos < r.resp.length → ¬ r.call.Breaks pos 0 ∧
        ∀ p, r.NameAt pos name p → SafeRound r.mainRound (r.answer ancount lines i p)) := by
  by_cases hgo : i < ancount ∧ pos < r.resp.length
  · have hround : r.mainRound (.answers ancount lines i pos name) =
        .again (.answerName ancount lines i (parseStart pos name)) := if_pos hgo
    rw [safe_of_again hround,
      safe_call (.answerName ancount lines i) (fun _ => rfl) hpos hname]
    exact ⟨fun h _ _ => h, fun h => h hgo.1 hgo.2⟩
  · have hround : r.mainRound (.answers ancount lines i pos name) = .done (0, lines) := if_neg hgo
    exact iff_of_true (safe_of_done hround) fun hi hpos => absurd ⟨hi, hpos⟩ hgo

/-! ## One record -/

theorem read_cases (r : Response) (hpos : 0 ≤ pos) (n : Nat) :
    (¬ pos + n ≤ r.resp.length ∧ memcpyFrom (some r.resp) pos n = none) ∨
      (pos + n ≤ r.resp.length ∧ ∃ addr, memcpyFrom (some r.resp) pos n = some addr) := by
  rcases hread : memcpyFrom (some r.resp) pos n with _ | addr
  · refine .inl ⟨fun hfit => ?_, rfl⟩
    have hsome := memcpyFrom_isSome.mpr ⟨hpos, hfit⟩
    rw [hread] at hsome
    cases hsome
  · exact .inr ⟨(memcpyFrom_isSome.mp (Option.isSome_of_eq_some hread)).2, addr, rfl⟩

/-- What becomes of a record: its data is parsed as a name, it is printed, or an address is read that
does not lie in the response. -/
theorem answerData_cases (r : Response) (ancount : Nat) (lines : List Line) (i : Nat) (hpos : 0 ≤ pos)
    (name : List UInt8) (rr : DnsRr) :
    (rr.rtype = 5 ∧ (r.DataFits pos rr ↔ ¬ r.call.Breaks pos 0) ∧
        r.answerData ancount lines i pos name rr =
          some (.cname ancount lines i pos name rr (parseStart pos (r.cname i)))) ∨
      (rr.rtype ≠ 5 ∧ r.DataFits pos rr ∧ ∃ lines', r.answerData ancount lines i pos name rr =
          some (.answers ancount lines' (i + 1) (pos + rr.rdlen.toNat) name)) ∨
      (rr.rtype ≠ 5 ∧ ¬ r.DataFits pos rr ∧ r.answerData ancount lines i pos name rr = none) := by
  unfold answerData
  by_cases ha : rr.rtype = 1 ∧ rr.rdlen = 4
  · have h28 : rr.rtype ≠ 28 := by
      rw [ha.1]
      decide
    have h5 : rr.rtype ≠ 5 := by
      rw [ha.1]
      decide
    rw [if_pos ha]
    rcases read_cases r hpos 4 with ⟨hnot, hread⟩ | ⟨hfit, addr, hread⟩
    · rw [hread]
      exact .inr (.inr ⟨h5, fun hfits => hnot (hfits.a ha.1 ha.2), rfl⟩)
    · rw [hread]
      exact .inr (.inl ⟨h5, ⟨fun _ _ => hfit, fun h => absurd h h28, fun h => absurd h h5⟩, _, rfl⟩)
  · rw [if_neg ha]
    by_cases haaaa : rr.rtype = 28 ∧ rr.rdlen = 16
    · have h5 : rr.rtype ≠ 5 := by
        rw [haaaa.1]
        decide
      rw [if_pos haaaa]
      rcases read_cases r hpos 16 with ⟨hnot, hread⟩ | ⟨hfit, addr, hread⟩
      · rw [hread]
        exact .inr (.inr ⟨h5, fun hfits => hnot (hfits.aaaa haaaa.1 haaaa.2), rfl⟩)
      · rw [hread]
        exact .inr (.inl ⟨h5, ⟨fun h h' => absurd ⟨h, h'⟩ ha, fun _ _ => hfit,
          fun h => absurd h h5⟩, _, rfl⟩)
    · rw [if_neg haaaa]
      by_cases h5 : rr.rtype = 5
      · rw [if_pos h5]
        refine .inl ⟨h5, ⟨fun hfits => hfits.cname h5, fun hb => ?_⟩, rfl⟩
        exact ⟨fun h h' => absurd ⟨h, h'⟩ ha, fun h h' => absurd ⟨h, h'⟩ haaaa, fun _ => hb⟩
      · rw [if_neg h5]
        exact .inr (.inl ⟨h5, ⟨fun h h' => absurd ⟨h, h'⟩ ha, fun h h' => absurd ⟨h, h'⟩ haaaa,
          fun h => absurd h h5⟩, _, rfl⟩)

theorem safe_cname (hpos : 0 ≤ pos) :
    Safe r.mainRound (.cname ancount lines i pos name rr (parseStart pos (r.cname i))) ↔
      ¬ r.call.Breaks pos 0 ∧ ∀ q, r.NameAt pos (r.cname i) q →
        Safe r.mainRound (.answers ancount
          (lines ++ [.cname (stringOf name) (stringOf q.2) rr.ttl]) (i + 1) (pos + rr.rdlen.toNat) name) :=
  safe_call (.cname ancount lines i pos name rr) (fun _ => rfl) hpos (r.length_cname i)

/-- What is read of a record fits, and the loop goes on with the next record, if it gets that far. -/
theorem answerData_safe (hpos : 0 ≤ pos)
    (h : SafeRound r.mainRound (.ofOption ((r.answerData ancount lines i pos name rr).map .again))) :
    r.DataFits pos rr ∧ ((rr.rtype = 5 → ∃ q, r.NameAt pos (r.cname i) q) →
      ∃ lines', Safe r.mainRound (.answers ancount lines' (i + 1) (pos + rr.rdlen.toNat) name)) := by
  rcases answerData_cases r ancount lines i hpos name rr with
    ⟨h5, hfits, hdata⟩ | ⟨-, hfits, lines', hdata⟩ | ⟨-, -, hdata⟩
  · rw [hdata] at h
    obtain ⟨hbreaks, hnext⟩ := (safe_cname hpos).mp h
    refine ⟨hfits.mpr hbreaks, fun hcname => ?_⟩
    obtain ⟨q, hq⟩ := hcname h5
    exact ⟨_, hnext q hq⟩
  · rw [hdata] at h
    exact ⟨hfits, fun _ => ⟨lines', h⟩⟩
  · rw [hdata] at h
    exact h.elim

theorem safe_answerData (hpos : 0 ≤ pos) (hfits : r.DataFits pos rr)
    (hnext : (rr.rtype = 5 → ∃ q, r.NameAt pos (r.cname i) q) →
      ∀ lines', Safe r.mainRound (.answers ancount lines' (i + 1) (pos + rr.rdlen.toNat) name)) :
    SafeRound r.mainRound (.ofOption ((r.answerData ancount lines i pos name rr).map .again)) := by
  rcases answerData_cases r ancount lines i hpos name rr with
    ⟨-, hcname, hdata⟩ | ⟨h5, -, lines', hdata⟩ | ⟨-, hnot, -⟩
  · rw [hdata]
    exact (safe_cname hpos).mpr ⟨hcname.mp hfits, fun q hq => hnext (fun _ => ⟨q, hq⟩) _⟩
  · rw [hdata]
    exact hnext (fun h => absurd h h5) lines'
  · exact absurd hfits hnot

/-! ## The answers -/

theorem AnswerAt.result (h : r.AnswerAt ancount i pos name) : 0 ≤ pos ∧ name.length = sizeofName := by
  induction h with
  | first hp =>
    obtain ⟨hpos, hlen⟩ := hp.result (Int.natCast_nonneg _) r.length_name
    exact ⟨by omega, hlen⟩
  | next _ _ _ hp _ _ _ ih =>
    obtain ⟨hpos, hlen⟩ := hp.result ih.1 ih.2
    exact ⟨by omega, hlen⟩

/-- A safe run is safe at every answer that it comes to. -/
theorem AnswerAt.safe (h : r.AnswerAt ancount i pos name)
    (hsafe : Safe r.mainRound (.question ancount lines (parseStart sizeofHeader r.name))) :
    ∃ lines', Safe r.mainRound (.answers ancount lines' i pos name) := by
  induction h with
  | first hp => exact ⟨lines, ((safe_question r).mp hsafe).2 _ hp⟩
  | @next i pos name p rr hat hi hlt hp hfit hrr hcname ih =>
    obtain ⟨hpos, hname⟩ := hat.result
    obtain ⟨lines', hanswers⟩ := ih
    have hanswer := (((safe_answers hpos hname).mp hanswers) hi hlt).2 p hp
    rw [answer, if_neg (Int.not_lt.mpr hfit), hrr, Option.bind_some] at hanswer
    have hp0 : 0 ≤ p.1 + sizeofRr := Int.add_nonneg (hp.result hpos hname).1 (Int.natCast_nonneg _)
    exact (answerData_safe hp0 hanswer).2 hcname

/-- What is read of an answer that a safe run comes to fits. -/
theorem answerFits_of_safe (hpos : 0 ≤ pos) (hname : name.length = sizeofName) (hi : i < ancount)
    (hlt : pos < r.resp.length) (hsafe : Safe r.mainRound (.answers ancount lines i pos name)) :
    r.AnswerFits pos name := by
  obtain ⟨hbreaks, hanswer⟩ := (safe_answers hpos hname).mp hsafe hi hlt
  refine ⟨hbreaks, fun p rr hp hfit hrr => ?_⟩
  have hround := hanswer p hp
  rw [answer, if_neg (Int.not_lt.mpr hfit), hrr, Option.bind_some] at hround
  have hp0 : 0 ≤ p.1 + sizeofRr := Int.add_nonneg (hp.result hpos hname).1 (Int.natCast_nonneg _)
  exact (answerData_safe hp0 hround).1

/-- The loop over the answers is safe if what is read of each answer that it comes to fits. The induction
is on the number of answers that are left. -/
theorem safe_of_answerFits
    (hfits : ∀ i pos name, r.AnswerAt ancount i pos name → i < ancount → pos < r.resp.length →
      r.AnswerFits pos name) :
    ∀ k i pos name lines, ancount - i = k → r.AnswerAt ancount i pos name →
      Safe r.mainRound (.answers ancount lines i pos name) := by
  intro k
  induction k with
  | zero =>
    intro i pos name lines hk hat
    obtain ⟨hpos, hname⟩ := hat.result
    exact (safe_answers hpos hname).mpr fun hi => absurd hi (by omega)
  | succ k ih =>
    intro i pos name lines hk hat
    obtain ⟨hpos, hname⟩ := hat.result
    refine (safe_answers hpos hname).mpr fun hi hlt => ?_
    obtain ⟨hbreaks, hdata⟩ := hfits i pos name hat hi hlt
    refine ⟨hbreaks, fun p hp => ?_⟩
    have hp1 := (hp.result hpos hname).1
    unfold answer
    split
    · trivial
    · next hfit =>
      have hfit := Int.not_lt.mp hfit
      obtain ⟨rr, hrr⟩ := exists_readRr hp1 hfit
      rw [hrr, Option.bind_some]
      refine safe_answerData (Int.add_nonneg hp1 (Int.natCast_nonneg _)) (hdata p rr hp hfit hrr)
        fun hcname lines' => ?_
      exact ih (i + 1) _ _ lines' (by omega) (.next hat hi hlt hp hfit hrr hcname)

/-! ## The whole response -/

theorem safe_header (r : Response) :
    Safe r.mainRound .header ↔ 8 ≤ r.resp.length ∧ ∀ h, readHeader r.resp = some h → h.rcode = 0 →
      Safe r.mainRound (.question h.ancount.toNat [.response h.id h.rcode h.ancount]
        (parseStart sizeofHeader r.name)) := by
  rw [safe_iff, mainRound, ← readHeader_isSome]
  rcases readHeader r.resp with _ | h
  · exact iff_of_false id fun hsome => Bool.noConfusion hsome.1
  · rw [Option.map_some]
    by_cases hrcode : h.rcode = 0
    · rw [if_neg (not_not.mpr hrcode)]
      constructor
      · rintro hsafe
        refine ⟨rfl, fun h' hh _ => ?_⟩
        cases hh
        exact hsafe
      · rintro ⟨-, hsafe⟩
        exact hsafe h rfl hrcode
    · rw [if_pos hrcode]
      refine iff_of_true trivial ⟨rfl, fun h' hh hrcode' => ?_⟩
      cases hh
      exact absurd hrcode' hrcode

/-- For every response that is received: every byte of `resp` that `main` uses, from the header to the
data of the last answer, is one of those received, exactly if the response is whole. -/
theorem response_inBounds_iff (r : Response) : r.InBounds ↔ r.Whole := by
  rw [InBounds, safe_header, Whole]
  refine and_congr_right fun _ => forall_congr' fun h => imp_congr_right fun _ =>
    imp_congr_right fun _ => ?_
  constructor
  · intro hsafe
    refine ⟨((safe_question r).mp hsafe).1, fun i pos name hat hi hlt => ?_⟩
    obtain ⟨lines, hanswers⟩ := hat.safe hsafe
    exact answerFits_of_safe hat.result.1 hat.result.2 hi hlt hanswers
  · rintro ⟨hbreaks, hfits⟩
    refine (safe_question r).mpr ⟨hbreaks, fun p hp => ?_⟩
    exact safe_of_answerFits hfits _ 0 _ _ _ rfl (.first hp)

/-- A response that ends after the fixed part of an A record: the header with one answer, the root as
the name of the question and of the answer, and an `rdlength` of 4 with no data. -/
def truncatedAnswer : Response where
  resp := [0, 0, 0x81, 0x80, 0, 1, 0, 1, 0, 0, 0, 0] ++ [0, 0, 1, 0, 1] ++
    [0, 0, 1, 0, 1, 0, 0, 0, 0, 0, 4]
  name := List.replicate sizeofName 0
  cname _ := List.replicate sizeofName 0
  length_resp := by decide
  length_name := List.length_replicate
  length_cname _ := List.length_replicate

theorem exists_nameAt_root (hroot : r.call.HasByte pos 0) (hout : out.length = sizeofName) :
    ∃ out', out'.length = sizeofName ∧ r.NameAt pos out (pos + 1, out') := by
  obtain ⟨out', hlen, hround⟩ := ParseCall.round_root (s := parseStart pos out) (inv_parseStart hout)
    r.one_le_outsize hroot
  exact ⟨out', hlen.trans r.length_name, .done hround⟩

/-- The address behind the end of the response is used. -/
theorem truncatedAnswer_not_inBounds : ¬ truncatedAnswer.InBounds := by
  intro h
  have hquestion := (safe_header truncatedAnswer).mp h |>.2 ⟨0, 0, 1⟩ (by rfl) rfl
  obtain ⟨out, hlen, hp⟩ := @exists_nameAt_root truncatedAnswer sizeofHeader truncatedAnswer.name
    ⟨by decide, by rfl⟩ truncatedAnswer.length_name
  have hat : truncatedAnswer.AnswerAt 1 0 17 out := .first hp
  obtain ⟨lines, hanswers⟩ := hat.safe hquestion
  have hfits := answerFits_of_safe (by decide) hlen (by decide) (by decide) hanswers
  obtain ⟨out', -, hp'⟩ := @exists_nameAt_root truncatedAnswer 17 out
    ⟨by decide, by rfl⟩ hlen
  have hdata := hfits.2 (18, out') ⟨1, 4, 0⟩ hp' (show (18 : Int) + 10 ≤ 28 by decide)
    (show readRr truncatedAnswer.resp 18 = _ by decide +kernel)
  exact absurd (hdata.a rfl rfl) (show ¬ (18 : Int) + 10 + 4 ≤ 28 by decide)

end Response

end DnsClient
