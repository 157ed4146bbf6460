import LinuxHandson.Dns.Response
import LinuxHandson.Dns.Proofs.ParseNameProofs
import LinuxHandson.Dns.Proofs.ResponseProofs
import LinuxHandson.Dns.Proofs.WireProofs

/-!
# Messages

What the bytes of a message say, apart from how the client goes through them: an identification, a
question and resource records, with names in place or behind pointers. The client sends a message with
the question that it was asked, and of a message that it receives it prints every answer as it is.
-/

namespace DnsClient

open CLib

/-! ## The format -/

/-- The `n` bytes of a number in network order. -/
def netBytes (n x : Nat) : List UInt8 := (leBytes n x).reverse

/-- These bytes are at `pos`. -/
def BytesAt (pkt : List UInt8) (pos : Nat) (bytes : List UInt8) : Prop :=
  (pkt.drop pos).take bytes.length = bytes

/-- A name that fits `name` and has no NUL in it. -/
structure Printable (labels : List (List UInt8)) : Prop where
  fits : (text labels).length < sizeofName
  nulFree : 0 ∉ text labels

/-- The data of a record. -/
inductive RData where
  | a (addr : List UInt8)
  | aaaa (addr : List UInt8)
  | cname (labels : List (List UInt8))
  /-- Data of a type, or of a length, that the client does not know. -/
  | other (rtype rdlen : UInt16)

/-- A resource record of a message. -/
structure Record where
  labels : List (List UInt8)
  ttl : UInt32
  data : RData

/-- The data of a record with this type and length is at `pos`. -/
inductive RDataAt (pkt : List UInt8) (pos : Nat) : RData → UInt16 → UInt16 → Prop where
  | a {addr : List UInt8} (hlen : addr.length = 4) (h : BytesAt pkt pos addr) :
    RDataAt pkt pos (.a addr) 1 4
  | aaaa {addr : List UInt8} (hlen : addr.length = 16) (h : BytesAt pkt pos addr) :
    RDataAt pkt pos (.aaaa addr) 28 16
  | cname {labels : List (List UInt8)} {rdlen : UInt16} (hname : Printable labels)
      (h : NameAt pkt pos labels (pos + rdlen.toNat)) : RDataAt pkt pos (.cname labels) 5 rdlen
  | other {rtype rdlen : UInt16} (ha : ¬ (rtype = 1 ∧ rdlen = 4)) (haaaa : ¬ (rtype = 28 ∧ rdlen = 16))
      (hcname : rtype ≠ 5) : RDataAt pkt pos (.other rtype rdlen) rtype rdlen

/-- These records are one behind the other from `pos` on. -/
inductive RecordsAt (pkt : List UInt8) : Nat → List Record → Prop where
  | nil {pos : Nat} : RecordsAt pkt pos []
  | cons {pos p : Nat} {r : Record} {rs : List Record} {rtype rclass rdlen : UInt16}
      (hname : NameAt pkt pos r.labels p) (hprint : Printable r.labels)
      (hfixed : BytesAt pkt p (netBytes 2 rtype.toNat ++ netBytes 2 rclass.toNat ++
        netBytes 4 r.ttl.toNat ++ netBytes 2 rdlen.toNat))
      (hdata : RDataAt pkt (p + 10) r.data rtype rdlen)
      (hrest : RecordsAt pkt (p + 10 + rdlen.toNat) rs) : RecordsAt pkt pos (r :: rs)

/-- A message with one question, and `records` as its answers. What may follow them is left open. -/
structure Message (pkt : List UInt8) (id flags : UInt16) (labels : List (List UInt8))
    (records : List Record) : Prop where
  count : records.length < 2 ^ 16
  header : ∃ nscount arcount : UInt16, BytesAt pkt 0 (netBytes 2 id.toNat ++ netBytes 2 flags.toNat ++
    netBytes 2 1 ++ netBytes 2 records.length ++ netBytes 2 nscount.toNat ++ netBytes 2 arcount.toNat)
  question : ∃ p, NameAt pkt sizeofHeader labels p ∧ Printable labels ∧
    RecordsAt pkt (p + sizeofQuestion) records

/-- What is printed of a record. -/
def Record.line (r : Record) : Line :=
  match r.data with
  | .a addr => .a (text r.labels) addr r.ttl
  | .aaaa addr => .aaaa (text r.labels) addr r.ttl
  | .cname labels => .cname (text r.labels) (text labels) r.ttl
  | .other rtype rdlen => .other (text r.labels) rtype rdlen r.ttl

/-! ## Numbers -/

section Numbers

variable {pkt bytes bytes' : List UInt8} {pos : Nat}

theorem BytesAt.fits (h : BytesAt pkt pos bytes) (hne : bytes ≠ []) :
    pos + bytes.length ≤ pkt.length := by
  have hlen := congrArg List.length h
  rw [List.length_take, List.length_drop] at hlen
  have hpos := List.length_pos_of_ne_nil hne
  omega

theorem BytesAt.left (h : BytesAt pkt pos (bytes ++ bytes')) : BytesAt pkt pos bytes := by
  have htake := congrArg (List.take bytes.length) h
  rwa [List.take_take, List.take_left, List.length_append,
    Nat.min_eq_left (Nat.le_add_right ..)] at htake

theorem BytesAt.right (h : BytesAt pkt pos (bytes ++ bytes')) :
    BytesAt pkt (pos + bytes.length) bytes' := by
  have hdrop := congrArg (List.drop bytes.length) h
  rwa [List.drop_take, List.drop_left, List.length_append, Nat.add_sub_cancel_left,
    List.drop_drop] at hdrop

theorem BytesAt.memcpyFrom (h : BytesAt pkt pos bytes) (hne : bytes ≠ []) :
    CLib.memcpyFrom (some pkt) pos bytes.length = some bytes := by
  rw [memcpyFrom_ok (h.fits hne), h]

theorem netBytes_htons (x : UInt16) : netBytes 2 x.toNat = leBytes 2 (htons x).toNat :=
  (leBytes_htons x).symm

theorem ntohsAt_of_bytes {x : UInt16} (h : BytesAt pkt pos (netBytes 2 x.toNat)) :
    ntohsAt pkt pos = some x := by
  rw [netBytes_htons] at h
  have hcopy := h.memcpyFrom (List.cons_ne_nil _ _)
  rw [length_leBytes] at hcopy
  rw [ntohsAt, hcopy, Option.map_some, ofNat_leNat_leBytes16, htons_htons]

theorem ntohlAt_of_bytes {x : UInt32} (h : BytesAt pkt pos (netBytes 4 x.toNat)) :
    ntohlAt pkt pos = some x := by
  rw [netBytes, ← leBytes_htonl] at h
  have hcopy := h.memcpyFrom (List.cons_ne_nil _ _)
  rw [length_leBytes] at hcopy
  rw [ntohlAt, hcopy, Option.map_some, ofNat_leNat_leBytes32, htonl_htonl]

end Numbers

/-! ## The answers -/

namespace Response

variable {r : Response} {labels : List (List UInt8)} {out : List UInt8} {pos next : Nat}

/-- The buffer of a name after `parse_name`. -/
def nameBuffer (out : List UInt8) (labels : List (List UInt8)) : List UInt8 :=
  splice out 0 (text labels ++ [0])

theorem length_nameBuffer (hprint : Printable labels) (hout : out.length = sizeofName) :
    (nameBuffer out labels).length = sizeofName := by
  have hfits := hprint.fits
  rw [nameBuffer, length_splice (by rw [List.length_append, List.length_singleton]; omega), hout]

theorem stringOf_nameBuffer (hprint : Printable labels) :
    stringOf (nameBuffer out labels) = text labels := by
  have hall : ∀ b ∈ text labels, decide (b ≠ 0) = true := by
    intro b hb
    refine decide_eq_true ?_
    rintro rfl
    exact hprint.nulFree hb
  rw [stringOf, nameBuffer, splice, List.take_zero, List.nil_append, List.append_assoc,
    List.takeWhile_append_of_pos hall]
  simp

/-- A name that is stored in the response is read as a whole. -/
theorem nameAt_of_stored (h : DnsClient.NameAt r.resp pos labels next) (hprint : Printable labels)
    (hout : out.length = sizeofName) : r.NameAt pos out (next, nameBuffer out labels) := by
  have hresp : r.resp.length < 2 ^ 31 := Nat.lt_of_le_of_lt r.length_resp (by decide)
  exact @parse_nameAt r.resp sizeofName hresp pos next labels h 0 false 0 out
    (show 0 + (text labels).length < sizeofName by rw [Nat.zero_add]; exact hprint.fits)
    (Nat.le_of_eq hout.symm)

theorem lt_of_stored (h : DnsClient.NameAt r.resp pos labels next) : pos < r.resp.length := by
  cases h with
  | root h => exact lt_of_getElem? h
  | label _ _ h => exact lt_of_getElem? h
  | pointer h => exact lt_of_getElem? h

variable {ancount i : Nat} {lines : List Line} {name : List UInt8}

/-- The fixed part of a record is read field by field. -/
theorem readRr_of_bytes {rtype rclass rdlen : UInt16} {ttl : UInt32} {p : Nat}
    (h : BytesAt r.resp p (netBytes 2 rtype.toNat ++ netBytes 2 rclass.toNat ++
      netBytes 4 ttl.toNat ++ netBytes 2 rdlen.toNat)) :
    (p + sizeofRr : Nat) ≤ r.resp.length ∧ readRr r.resp p = some ⟨rtype, rdlen, ttl⟩ := by
  have hlen : ∀ n x, (netBytes n x).length = n := fun n x => by
    rw [netBytes, List.length_reverse, length_leBytes]
  have hrtype := ntohsAt_of_bytes h.left.left.left
  have httl := ntohlAt_of_bytes h.left.right
  have hrdlen := ntohsAt_of_bytes h.right
  have hfits := h.fits (by simp [netBytes, leBytes])
  simp only [List.length_append, hlen] at httl hrdlen hfits
  refine ⟨hfits, ?_⟩
  unfold readRr
  rw [hrtype, Option.bind_some,
    show ntohsAt r.resp ((p : Int) + 8) = some rdlen from hrdlen, Option.bind_some,
    show ntohlAt r.resp ((p : Int) + 4) = some ttl from httl]
  rfl

/-- One answer: its name, its fixed part and its data are read, and its line is printed. -/
theorem answer_reported {rec : Record} {rtype rclass rdlen : UInt16} {p : Nat}
    {x : Int × List Line} (hi : i < ancount) (hname : DnsClient.NameAt r.resp pos rec.labels p)
    (hprint : Printable rec.labels) (hout : name.length = sizeofName)
    (hfixed : BytesAt r.resp p (netBytes 2 rtype.toNat ++ netBytes 2 rclass.toNat ++
      netBytes 4 rec.ttl.toNat ++ netBytes 2 rdlen.toNat))
    (hdata : RDataAt r.resp (p + 10) rec.data rtype rdlen)
    (hrest : Ends r.mainRound (.answers ancount (lines ++ [rec.line]) (i + 1) (p + 10 + rdlen.toNat : Nat)
      (nameBuffer name rec.labels)) x) :
    Ends r.mainRound (.answers ancount lines i pos name) x := by
  have hhead : r.mainRound (.answers ancount lines i pos name) =
      .again (.answerName ancount lines i (parseStart pos name)) :=
    if_pos ⟨hi, Int.ofNat_lt.mpr (lt_of_stored hname)⟩
  obtain ⟨hfits, hrr⟩ := readRr_of_bytes hfixed
  have hanswer : r.answer ancount lines i (p, nameBuffer name rec.labels) =
      .ofOption ((r.answerData ancount lines i (p + 10 : Nat) (nameBuffer name rec.labels)
        ⟨rtype, rdlen, rec.ttl⟩).map .again) := by
    have hnot : ¬ ((p : Int) + sizeofRr > r.resp.length) := Int.not_lt.mpr (Int.ofNat_le.mpr hfits)
    rw [answer, if_neg hnot, hrr]
    rfl
  have hcall : ∀ t, r.answerData ancount lines i (p + 10 : Nat) (nameBuffer name rec.labels)
      ⟨rtype, rdlen, rec.ttl⟩ = some t → Ends r.mainRound t x →
      Ends r.mainRound (.answers ancount lines i pos name) x := by
    intro t ht hend
    have houter : ∀ s, r.mainRound (.answerName ancount lines i s) =
        (r.call.round s).call (.answerName ancount lines i) (r.answer ancount lines i) := fun _ => rfl
    refine .again hhead (Ends.call_again houter (nameAt_of_stored hname hprint hout) ?_ hend)
    rw [hanswer, ht]
    rfl
  have hstring := @stringOf_nameBuffer rec.labels name hprint
  unfold Record.line at hrest
  generalize hd : rec.data = d at hdata hrest
  cases hdata with
  | @a addr hlen haddr =>
    have hcopy := haddr.memcpyFrom (by rintro rfl; cases hlen)
    rw [hlen] at hcopy
    refine hcall _ ?_ hrest
    rw [answerData, if_pos ⟨rfl, rfl⟩, hcopy, Option.map_some, hstring]
    rfl
  | @aaaa addr hlen haddr =>
    have hcopy := haddr.memcpyFrom (by rintro rfl; cases hlen)
    rw [hlen] at hcopy
    refine hcall _ ?_ hrest
    rw [answerData, if_neg (fun h => absurd h.1 (by decide : (28 : UInt16) ≠ 1)), if_pos ⟨rfl, rfl⟩,
      hcopy, Option.map_some, hstring]
    rfl
  | @cname labels _ hcname h =>
    have hname' := nameAt_of_stored h hcname (r.length_cname i)
    refine hcall (.cname ancount lines i (p + 10 : Nat) (nameBuffer name rec.labels)
      ⟨5, rdlen, rec.ttl⟩ (parseStart (p + 10 : Nat) (r.cname i))) ?_ ?_
    · rw [answerData, if_neg (fun h => absurd h.1 (by decide : (5 : UInt16) ≠ 1)),
        if_neg (fun h => absurd h.1 (by decide : (5 : UInt16) ≠ 28)), if_pos rfl]
    · have houter : ∀ s, r.mainRound (.cname ancount lines i (p + 10 : Nat)
          (nameBuffer name rec.labels) ⟨5, rdlen, rec.ttl⟩ s) =
          (r.call.round s).call (.cname ancount lines i (p + 10 : Nat) (nameBuffer name rec.labels)
            ⟨5, rdlen, rec.ttl⟩) fun q => .again (.answers ancount (lines ++
              [.cname (stringOf (nameBuffer name rec.labels)) (stringOf q.2) rec.ttl]) (i + 1)
              ((p + 10 : Nat) + rdlen.toNat) (nameBuffer name rec.labels)) := fun _ => rfl
      refine Ends.call_again houter hname' ?_ hrest
      rw [hstring, stringOf_nameBuffer hcname]
      rfl
  | @other _ _ ha haaaa hcname =>
    refine hcall _ ?_ hrest
    rw [answerData, if_neg ha, if_neg haaaa, if_neg hcname, hstring]
    rfl

/-- The answers that are left, from any place of the loop on. -/
theorem answers_reported {records : List Record} (h : RecordsAt r.resp pos records) :
    ∀ {lines : List Line} {i : Nat} {name : List UInt8}, i + records.length = ancount →
      name.length = sizeofName → Ends r.mainRound (.answers ancount lines i pos name)
        (0, lines ++ records.map Record.line) := by
  induction h with
  | nil =>
    intro lines i name hi _
    rw [List.map_nil, List.append_nil]
    exact .done (if_neg fun hlt => Nat.ne_of_lt hlt.1 hi)
  | @cons pos p rec rs rtype rclass rdlen hname hprint hfixed hdata hrest ih =>
    intro lines i name hi hout
    rw [List.length_cons] at hi
    have hend := @ih (lines ++ [rec.line]) (i + 1) (nameBuffer name rec.labels) (by omega)
      (length_nameBuffer hprint hout)
    rw [List.append_assoc, List.singleton_append, ← List.map_cons] at hend
    exact answer_reported (by omega) hname hprint hout hfixed hdata hend

/-- Of the header, `main` reads the identification, the flags and the number of answers. -/
theorem readHeader_of_message {id flags : UInt16} {records : List Record}
    (h : Message r.resp id flags labels records) :
    readHeader r.resp = some ⟨id, flags &&& 0x000F, UInt16.ofNat records.length⟩ := by
  have hlen : ∀ n x, (netBytes n x).length = n := fun n x => by
    rw [netBytes, List.length_reverse, length_leBytes]
  obtain ⟨nscount, arcount, hheader⟩ := h.header
  have hcount : records.length = (UInt16.ofNat records.length).toNat :=
    (UInt16.toNat_ofNat_of_lt' h.count).symm
  have hid := ntohsAt_of_bytes hheader.left.left.left.left.left
  have hflags := ntohsAt_of_bytes hheader.left.left.left.left.right
  have hancount := hheader.left.left.right
  rw [hcount] at hancount
  have hancount := ntohsAt_of_bytes hancount
  simp only [List.length_append, hlen] at hflags hancount
  unfold readHeader
  rw [show ntohsAt r.resp 2 = some flags from hflags, Option.bind_some,
    show ntohsAt r.resp 6 = some (UInt16.ofNat records.length) from hancount, Option.bind_some,
    show ntohsAt r.resp 0 = some id from hid]
  rfl

/-- Every response that is a message is reported as it is: the answers one by one, with their names,
whether they are in place or behind pointers, their data and their times to live; or the error. -/
theorem response_reported (r : Response) {id flags : UInt16} {labels : List (List UInt8)}
    {records : List Record} (h : Message r.resp id flags labels records) :
    Ends r.mainRound .header
      (if flags &&& 0x000F = 0 then
        (0, .response id 0 (UInt16.ofNat records.length) :: records.map Record.line)
      else (1, [.response id (flags &&& 0x000F) (UInt16.ofNat records.length)])) := by
  have hheader := readHeader_of_message h
  by_cases hrcode : flags &&& 0x000F = 0
  · have hround : r.mainRound .header = .again (.question records.length
        [.response id 0 (UInt16.ofNat records.length)] (parseStart sizeofHeader r.name)) := by
      have hcount : (UInt16.ofNat records.length).toNat = records.length :=
        UInt16.toNat_ofNat_of_lt' h.count
      rw [mainRound, hheader, hrcode]
      show Round.again (MainState.question (UInt16.ofNat records.length).toNat _ _) = _
      rw [hcount]
    obtain ⟨p, hname, hprint, hrecords⟩ := h.question
    have houter : ∀ s, r.mainRound (.question records.length
        [.response id 0 (UInt16.ofNat records.length)] s) =
        (r.call.round s).call (.question records.length [.response id 0 (UInt16.ofNat records.length)])
          fun q => .again (.answers records.length [.response id 0 (UInt16.ofNat records.length)] 0
            (q.1 + sizeofQuestion) q.2) := fun _ => rfl
    rw [if_pos hrcode]
    exact .again hround (Ends.call_again houter (nameAt_of_stored hname hprint r.length_name) rfl
      (answers_reported hrecords (Nat.zero_add _) (length_nameBuffer hprint r.length_name)))
  · rw [if_neg hrcode]
    refine .done ?_
    rw [mainRound, hheader]
    show Round.ofOption (some (if flags &&& 0x000F ≠ 0 then _ else _)) = _
    rw [if_pos hrcode]
    rfl

/-- A response to `a.b`: the name is an alias of `c.b`, whose second label is a pointer into the
question, and the name of the second answer is a pointer into the first. -/
def aliasedBytes : List UInt8 :=
  [0, 7, 0x81, 0x80, 0, 1, 0, 2, 0, 0, 0, 0,
    1, 0x61, 1, 0x62, 0, 0, 1, 0, 1,
    0xC0, 12, 0, 5, 0, 1, 0, 0, 0, 60, 0, 4, 1, 0x63, 0xC0, 14,
    0xC0, 33, 0, 1, 0, 1, 0, 0, 0, 60, 0, 4, 10, 0, 0, 1]

theorem length_aliasedBytes : aliasedBytes.length ≤ sizeofResp := by decide

theorem length_zeroName : (List.replicate sizeofName (0 : UInt8)).length = sizeofName :=
  List.length_replicate

theorem length_zeroCname (i : Nat) :
    ((fun _ : Nat => List.replicate sizeofName (0 : UInt8)) i).length = sizeofName :=
  List.length_replicate

/-- The response with an alias, whose buffers are zero at first. -/
def aliased : Response where
  resp := aliasedBytes
  name := List.replicate sizeofName 0
  cname := fun _ => List.replicate sizeofName 0
  length_resp := length_aliasedBytes
  length_name := length_zeroName
  length_cname := length_zeroCname

theorem aliased_message : Message aliased.resp 7 0x8180 [[0x61], [0x62]]
    [⟨[[0x61], [0x62]], 60, .cname [[0x63], [0x62]]⟩, ⟨[[0x63], [0x62]], 60, .a [10, 0, 0, 1]⟩] := by
  have hb : DnsClient.NameAt aliased.resp 14 [[0x62]] 17 :=
    .label (by decide) (by decide) rfl rfl (.root rfl)
  have hab : DnsClient.NameAt aliased.resp 12 [[0x61], [0x62]] 17 :=
    .label (by decide) (by decide) rfl rfl hb
  have hcb : DnsClient.NameAt aliased.resp 33 [[0x63], [0x62]] 37 :=
    .label (by decide) (by decide) rfl rfl (.pointer rfl rfl (by decide) rfl (by decide) hb)
  have hprint : Printable [[0x61], [0x62]] := ⟨by decide, by decide⟩
  have hprint' : Printable [[0x63], [0x62]] := ⟨by decide, by decide⟩
  have hfixed : BytesAt aliased.resp 23 (netBytes 2 (5 : UInt16).toNat ++
      netBytes 2 (1 : UInt16).toNat ++ netBytes 4 (60 : UInt32).toNat ++
      netBytes 2 (4 : UInt16).toNat) := rfl
  have hfixed' : BytesAt aliased.resp 39 (netBytes 2 (1 : UInt16).toNat ++
      netBytes 2 (1 : UInt16).toNat ++ netBytes 4 (60 : UInt32).toNat ++
      netBytes 2 (4 : UInt16).toNat) := rfl
  exact ⟨by decide, ⟨0, 0, rfl⟩, 17, hab, hprint,
    .cons (.pointer rfl rfl (by decide) rfl (by decide) hab) hprint hfixed (.cname hprint' hcb) <|
    .cons (.pointer rfl rfl (by decide) rfl (by decide) hcb) hprint' hfixed' (.a rfl rfl) .nil⟩

theorem response_reported_aliased : Ends aliased.mainRound .header
    (0, [.response 7 0 2, .cname [0x61, 0x2E, 0x62] [0x63, 0x2E, 0x62] 60,
      .a [0x63, 0x2E, 0x62] [10, 0, 0, 1] 60]) := by
  have h := response_reported aliased aliased_message
  rw [if_pos (by decide)] at h
  exact h

end Response

/-! ## The query -/

section Query

variable {labels : List (List UInt8)}

/-- The message that asks for the address of a name. -/
def query (id : UInt16) (labels : List (List UInt8)) : List UInt8 :=
  queryHeader id ++ wire labels ++ queryQuestion

/-- A name stays where it is when more bytes follow. -/
theorem NameAt.append {pkt : List UInt8} {pos next : Nat} (h : NameAt pkt pos labels next)
    (more : List UInt8) : NameAt (pkt ++ more) pos labels next := by
  have hget : ∀ {i : Nat} {b : UInt8}, pkt[i]? = some b → (pkt ++ more)[i]? = some b := fun hi => by
    rw [List.getElem?_append_left (lt_of_getElem? hi)]
    exact hi
  induction h with
  | root h => exact .root (hget h)
  | @label pos next label labels hne hlen h hbytes hrest ih =>
    refine .label hne hlen (hget h) ?_ ih
    have hlength := congrArg List.length hbytes
    rw [List.length_take, List.length_drop] at hlength
    have hpos := List.length_pos_of_ne_nil hne
    rw [List.drop_append_of_le_length (by omega), List.take_append_of_le_length, hbytes]
    rw [List.length_drop]
    omega
  | pointer hhigh hlow hbits htarget hback hrest ih =>
    exact .pointer (hget hhigh) (hget hlow) hbits htarget hback ih

theorem query_message (hl : ∀ label ∈ labels, IsLabel label) (hprint : Printable labels)
    (id : UInt16) : Message (query id labels) id 0x0100 labels [] where
  count := by decide
  header := by
    refine ⟨0, 0, ?_⟩
    have hheader : queryHeader id = netBytes 2 id.toNat ++ netBytes 2 (0x0100 : UInt16).toNat ++
        netBytes 2 1 ++ netBytes 2 0 ++ netBytes 2 (0 : UInt16).toNat ++
        netBytes 2 (0 : UInt16).toNat := by
      rw [netBytes_htons]
      rfl
    rw [List.length_nil, ← hheader, BytesAt, List.drop_zero, query, List.append_assoc]
    exact List.take_left
  question := by
    have hname := nameAt_wire hl (queryHeader id)
    rw [length_queryHeader] at hname
    exact ⟨_, hname.append _, hprint, .nil⟩

/-- For every name of at most 253 characters, with or without a dot at the end, but not the dot alone:
`encode_name` accepts it, and what `main` sends is the message that asks for the address of that name. -/
theorem query_sent {name : CStr} {trailing : Bool} (hname : name.bytes = domain labels trailing)
    (hl : ∀ label ∈ labels, IsLabel label) (htrailing : labels = [] → trailing = false)
    (hfit : (text labels).length ≤ 253) (id : UInt16) {packet : List UInt8}
    (hp : packet.length = sizeofPacket) :
    ∃ r, EncodeDomain name id packet r ∧ finishQuery id r = some (some (query id labels)) ∧
      Message (query id labels) id 0x0100 labels [] := by
  have hlabels : nameLabels name.bytes = labels := by
    rw [hname]
    exact nameLabels_domain hl htrailing
  have hwire := length_wire_le labels
  have hbuf := @length_nameBuf id packet hp
  have hsize : nameBufsize = 500 := rfl
  have henc := @encodeName_fits nameBufsize name (nameBuf id packet) (by decide) (by omega)
    (by rw [hlabels]; omega)
  have hnul : 0 ∉ text labels := by
    intro hmem
    refine name.nulFree ?_
    rw [hname]
    exact List.mem_append_left _ hmem
  have hprint : Printable labels := ⟨Nat.lt_of_le_of_lt hfit (by decide), hnul⟩
  rw [hlabels] at henc
  refine ⟨_, henc, ?_, query_message hl hprint id⟩
  have hheader := length_queryHeader id
  have htwelve : sizeofHeader = 12 := rfl
  have hquestion := length_queryQuestion
  have hfour : sizeofQuestion = 4 := rfl
  have hpos : (sizeofHeader : Int) + ((wire labels).length : Nat) =
      ((queryHeader id ++ wire labels).length : Nat) := by
    rw [List.length_append]
    omega
  have hpre : (queryHeader id ++ splice (nameBuf id packet) 0 (wire labels)).take
      (queryHeader id ++ wire labels).length = queryHeader id ++ wire labels := by
    rw [splice, List.take_zero, List.nil_append, ← List.append_assoc]
    exact List.take_left
  have hroom : (queryHeader id ++ wire labels).length + queryQuestion.length ≤
      (queryHeader id ++ splice (nameBuf id packet) 0 (wire labels)).length := by
    rw [List.length_append, List.length_append, length_splice (by omega)]
    omega
  obtain ⟨b, hstore, -, htake⟩ := store_append queryQuestion hpre hroom
  unfold finishQuery putQuestion
  rw [if_neg (by simp)]
  simp only
  rw [hpos, hstore, Option.map_some, Option.map_some]
  have hlen : (((queryHeader id ++ wire labels).length : Nat) + (sizeofQuestion : Int)).toNat =
      (queryHeader id ++ wire labels ++ queryQuestion).length := by
    have happend := @List.length_append _ (queryHeader id ++ wire labels) queryQuestion
    omega
  rw [hlen, htake]
  rfl

theorem query_sent_trailingDot :
    trailingDot.bytes = domain [[0x61], [0x62]] true ∧
      ∃ r, EncodeDomain trailingDot 7 zeroPacket r ∧
        finishQuery 7 r = some (some (query 7 [[0x61], [0x62]])) ∧
        Message (query 7 [[0x61], [0x62]]) 7 0x0100 [[0x61], [0x62]] [] := by
  have hl : ∀ label ∈ [[0x61], [(0x62 : UInt8)]], IsLabel label := by
    intro label hmem
    rcases List.mem_cons.mp hmem with rfl | hmem
    · exact ⟨by decide, by decide, by decide, by decide⟩
    · obtain rfl := List.mem_singleton.mp hmem
      exact ⟨by decide, by decide, by decide, by decide⟩
  have hname : trailingDot.bytes = domain [[0x61], [0x62]] true := rfl
  exact ⟨hname, query_sent hname hl nofun (by decide) 7 List.length_replicate⟩

end Query

end DnsClient
