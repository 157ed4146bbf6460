import LinuxHandson.Dns.Names
import LinuxHandson.Lib.Bytes

/-!
# The query

What `main` puts into `packet` before it sends it: the header, the name of the question by
`encode_name`, and the type and class behind it.
-/

namespace DnsClient

open CLib

/-- `sizeof(packet)` -/
def sizeofPacket : Nat := 512

/-- `sizeof(struct dns_header)` -/
def sizeofHeader : Nat := 12

/-- `sizeof(struct dns_question)` -/
def sizeofQuestion : Nat := 4

/-- The header of a query with this id. -/
def queryHeader (id : UInt16) : List UInt8 :=
  [htons id, htons 0x0100, htons 1, 0, 0, 0].flatMap fun x => leBytes 2 x.toNat

/-- `qtype` and `qclass` -/
def queryQuestion : List UInt8 := [htons 1, htons 1].flatMap fun x => leBytes 2 x.toNat

/-- The part of `packet` that `encode_name` gets, behind the header. -/
def nameBuf (id : UInt16) (packet : List UInt8) : List UInt8 :=
  (splice packet 0 (queryHeader id)).drop sizeofHeader

/-- The size that `encode_name` gets. -/
def nameBufsize : Int := sizeofPacket - sizeofHeader

/-- The call of `encode_name` returns `r.1` and leaves `r.2` behind the header. -/
def EncodeDomain (domain : CStr) (id : UInt16) (packet : List UInt8) (r : Int × List UInt8) : Prop :=
  EncodeName domain (nameBuf id packet) nameBufsize r

/-- The packet after `encode_name`, and the position behind the name. -/
def putQuestion (id : UInt16) (r : Int × List UInt8) : Option (List UInt8 × Int) :=
  (store (queryHeader id ++ r.2) (sizeofHeader + r.1) queryQuestion).map fun packet =>
    (packet, sizeofHeader + r.1 + sizeofQuestion)

/-- What `main` sends after `encode_name`: nothing if it failed, otherwise the packet up to the
position behind the question. -/
def finishQuery (id : UInt16) (r : Int × List UInt8) : Option (Option (List UInt8)) :=
  if r.1 < 0 then some none
  else (putQuestion id r).map fun p => some (p.1.take p.2.toNat)

end DnsClient
