import LinuxHandson.Dns.Query
import LinuxHandson.Dns.Bounds

/-!
# The response

What `main` does with the bytes that it has received: the header, the name of the question, and the
answers one by one. A round of `parse_name` is a round of `main`. A position is at most the size of the
buffer, and 2^16 more by an `rdlength`, so an `int` holds it.
-/

namespace DnsClient

open CLib

/-- `sizeof(resp)` -/
def sizeofResp : Nat := 512

/-- `sizeof(name)` and `sizeof(cname)` -/
def sizeofName : Nat := 256

/-- `sizeof(struct dns_rr)` -/
def sizeofRr : Nat := 10

/-- The bytes received, which are as many as `recvfrom` says, and what `name` and, in each round of the
loop over the answers, `cname` hold before they are written. -/
structure Response where
  resp : List UInt8
  name : List UInt8
  cname : Nat → List UInt8
  length_resp : resp.length ≤ sizeofResp
  length_name : name.length = sizeofName
  length_cname : ∀ i, (cname i).length = sizeofName

/-- `ntohs` of the `uint16_t` at `i`. -/
def ntohsAt (b : List UInt8) (i : Int) : Option UInt16 :=
  (memcpyFrom (some b) i 2).map fun x => htons (UInt16.ofNat (leNat x))

/-- `ntohl` of the `uint32_t` at `i`. -/
def ntohlAt (b : List UInt8) (i : Int) : Option UInt32 :=
  (memcpyFrom (some b) i 4).map fun x => htonl (UInt32.ofNat (leNat x))

/-- What `main` uses of the header. -/
structure RespHeader where
  id : UInt16
  rcode : UInt16
  ancount : UInt16
deriving DecidableEq

/-- The fields of the header, in the order of the host. -/
def readHeader (resp : List UInt8) : Option RespHeader :=
  (ntohsAt resp 2).bind fun flags => (ntohsAt resp 6).bind fun ancount =>
    (ntohsAt resp 0).map fun id => ⟨id, flags &&& 0x000F, ancount⟩

/-- What `main` uses of a `dns_rr`. -/
structure DnsRr where
  rtype : UInt16
  rdlen : UInt16
  ttl : UInt32
deriving DecidableEq

/-- The fields of the record at `pos`, in the order of the host. -/
def readRr (resp : List UInt8) (pos : Int) : Option DnsRr :=
  (ntohsAt resp pos).bind fun rtype => (ntohsAt resp (pos + 8)).bind fun rdlen =>
    (ntohlAt resp (pos + 4)).map fun ttl => ⟨rtype, rdlen, ttl⟩

/-- A line that is printed, with the string that a buffer holds. -/
inductive Line where
  | response (id rcode ancount : UInt16)
  | a (name addr : List UInt8) (ttl : UInt32)
  | aaaa (name addr : List UInt8) (ttl : UInt32)
  | cname (name target : List UInt8) (ttl : UInt32)
  | other (name : List UInt8) (rtype rdlen : UInt16) (ttl : UInt32)

/-- The string in a buffer. -/
def stringOf (b : List UInt8) : List UInt8 := b.takeWhile (· ≠ 0)

/-- Where `main` is, with its variables. -/
inductive MainState where
  /-- It reads the header. -/
  | header
  /-- It is in the call of `parse_name` for the question. -/
  | question (ancount : Nat) (lines : List Line) (s : ParseState)
  /-- It is at the head of the loop over the answers. -/
  | answers (ancount : Nat) (lines : List Line) (i : Nat) (pos : Int) (name : List UInt8)
  /-- It is in the call of `parse_name` for the name of an answer. -/
  | answerName (ancount : Nat) (lines : List Line) (i : Nat) (s : ParseState)
  /-- It is in the call of `parse_name` for the data of a CNAME. -/
  | cname (ancount : Nat) (lines : List Line) (i : Nat) (pos : Int) (name : List UInt8) (rr : DnsRr)
      (s : ParseState)

/-- The state in which `parse_name` starts. -/
def parseStart (pos : Int) (out : List UInt8) : ParseState := ⟨pos, 0, false, 0, out⟩

namespace Response

variable (r : Response)

/-- A call of `parse_name` on the response. -/
def call : ParseCall where
  pkt := r.resp
  pktlen := r.resp.length
  offset := sizeofHeader
  out := r.name
  outsize := sizeofName
  readable := Int.le_refl _
  writable := Int.le_of_eq (congrArg Nat.cast r.length_name.symm)
  isInt := Nat.lt_of_le_of_lt r.length_resp (by decide)

/-- The record at `pos`, after its name. -/
def answerData (ancount : Nat) (lines : List Line) (i : Nat) (pos : Int) (name : List UInt8)
    (rr : DnsRr) : Option MainState :=
  if rr.rtype = 1 ∧ rr.rdlen = 4 then
    (memcpyFrom (some r.resp) pos 4).map fun addr =>
      .answers ancount (lines ++ [.a (stringOf name) addr rr.ttl]) (i + 1) (pos + rr.rdlen.toNat) name
  else if rr.rtype = 28 ∧ rr.rdlen = 16 then
    (memcpyFrom (some r.resp) pos 16).map fun addr =>
      .answers ancount (lines ++ [.aaaa (stringOf name) addr rr.ttl]) (i + 1) (pos + rr.rdlen.toNat)
        name
  else if rr.rtype = 5 then
    some (.cname ancount lines i pos name rr (parseStart pos (r.cname i)))
  else
    some (.answers ancount (lines ++ [.other (stringOf name) rr.rtype rr.rdlen rr.ttl]) (i + 1)
      (pos + rr.rdlen.toNat) name)

/-- A round of the loop over the answers, after the call of `parse_name`. -/
def answer (ancount : Nat) (lines : List Line) (i : Nat) (p : Int × List UInt8) :
    Round MainState (Int × List Line) :=
  if p.1 + sizeofRr > r.resp.length then .done (0, lines)
  else .ofOption <|
    (readRr r.resp p.1).bind fun rr =>
      (r.answerData ancount lines i (p.1 + sizeofRr) p.2 rr).map .again

/-- A round of `main` after the `recv`: what it does in its phase. -/
def mainRound : MainState → Round MainState (Int × List Line)
  | .header => .ofOption <| (readHeader r.resp).map fun h =>
      if h.rcode ≠ 0 then .done (1, [.response h.id h.rcode h.ancount])
      else .again (.question h.ancount.toNat [.response h.id h.rcode h.ancount]
        (parseStart sizeofHeader r.name))
  | .question ancount lines s =>
      (r.call.round s).call (.question ancount lines) fun p =>
        .again (.answers ancount lines 0 (p.1 + sizeofQuestion) p.2)
  | .answers ancount lines i pos name =>
      if i < ancount ∧ pos < r.resp.length then
        .again (.answerName ancount lines i (parseStart pos name))
      else .done (0, lines)
  | .answerName ancount lines i s =>
      (r.call.round s).call (.answerName ancount lines i) (r.answer ancount lines i)
  | .cname ancount lines i pos name rr s =>
      (r.call.round s).call (.cname ancount lines i pos name rr) fun p =>
        .again (.answers ancount (lines ++ [.cname (stringOf name) (stringOf p.2) rr.ttl]) (i + 1)
          (pos + rr.rdlen.toNat) name)

/-- Every byte of `resp` that `main` uses is one of those received. -/
def InBounds : Prop := Safe r.mainRound .header

/-- `parse_name` at `pos`, with `out` in its buffer, returns `p.1` and leaves `p.2`. -/
def NameAt (pos : Int) (out : List UInt8) (p : Int × List UInt8) : Prop :=
  Ends r.call.round (parseStart pos out) p

/-- The loop over the answers comes to round `i` with these `pos` and `name`. -/
inductive AnswerAt (ancount : Nat) : Nat → Int → List UInt8 → Prop where
  | first {p : Int × List UInt8} (hp : r.NameAt sizeofHeader r.name p) :
      AnswerAt ancount 0 (p.1 + sizeofQuestion) p.2
  | next {i : Nat} {pos : Int} {name : List UInt8} {p : Int × List UInt8} {rr : DnsRr}
      (h : AnswerAt ancount i pos name) (hi : i < ancount) (hpos : pos < r.resp.length)
      (hp : r.NameAt pos name p) (hfit : p.1 + sizeofRr ≤ r.resp.length)
      (hrr : readRr r.resp p.1 = some rr)
      (hcname : rr.rtype = 5 → ∃ q, r.NameAt (p.1 + sizeofRr) (r.cname i) q) :
      AnswerAt ancount (i + 1) (p.1 + sizeofRr + rr.rdlen.toNat) p.2

/-- The data of a record, at `pos`, that is read lies in the response: an address as a whole, and the
name of a CNAME up to its pointers. -/
structure DataFits (pos : Int) (rr : DnsRr) : Prop where
  a : rr.rtype = 1 → rr.rdlen = 4 → pos + 4 ≤ r.resp.length
  aaaa : rr.rtype = 28 → rr.rdlen = 16 → pos + 16 ≤ r.resp.length
  cname : rr.rtype = 5 → ¬ r.call.Breaks pos 0

/-- What is read of an answer at `pos` lies in the response. -/
def AnswerFits (pos : Int) (name : List UInt8) : Prop :=
  ¬ r.call.Breaks pos 0 ∧ ∀ p rr, r.NameAt pos name p → p.1 + sizeofRr ≤ r.resp.length →
    readRr r.resp p.1 = some rr → r.DataFits (p.1 + sizeofRr) rr

/-- The response has the header up to `ancount`; if there is no error in it, the name of the question
leads to no pointer that is cut off, and what is read of each answer lies in the response. -/
def Whole : Prop :=
  8 ≤ r.resp.length ∧ ∀ h, readHeader r.resp = some h → h.rcode = 0 →
    ¬ r.call.Breaks sizeofHeader 0 ∧
      ∀ i pos name, r.AnswerAt h.ancount.toNat i pos name → i < h.ancount.toNat →
        pos < r.resp.length → r.AnswerFits pos name

end Response

end DnsClient
