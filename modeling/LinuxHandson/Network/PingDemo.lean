import LinuxHandson.Lib.Bytes
import LinuxHandson.Lib.CMemory
import LinuxHandson.Lib.Datagram
import LinuxHandson.Lib.Machine
import Mathlib.Algebra.Field.Rat

/-!
# Ping over a raw socket

The loop of `main`, one iteration at a time. What the network brings is the list of the packets that
arrive at the socket, and what the system does in an iteration is a `Round`. Times are microseconds
since the Epoch; the clock is not set while the program runs. The round trip times are exact.
-/

namespace PingDemo

open CLib Datagram

/-- `ICMP_ECHOREPLY` -/
def icmpEchoreply : UInt8 := 0

/-- `ICMP_ECHO` -/
def icmpEcho : UInt8 := 8

/-- `struct icmphdr` of an echo message: the values of its fields as the machine reads them. -/
structure Icmphdr where
  type : UInt8
  code : UInt8
  checksum : UInt16
  id : UInt16
  sequence : UInt16
deriving DecidableEq

/-- `sizeof(struct icmphdr)` -/
def sizeofIcmphdr : Nat := 8

/-- The bytes of the structure. -/
def Icmphdr.image (h : Icmphdr) : List UInt8 :=
  h.type :: h.code :: (leBytes 2 h.checksum.toNat ++ (leBytes 2 h.id.toNat ++
    leBytes 2 h.sequence.toNat))

/-- The structure at the beginning of some bytes. -/
def Icmphdr.ofImage (b : List UInt8) : Icmphdr where
  type := b.headD 0
  code := (b.drop 1).headD 0
  checksum := UInt16.ofNat (leNat ((b.drop 2).take 2))
  id := UInt16.ofNat (leNat ((b.drop 4).take 2))
  sequence := UInt16.ofNat (leNat ((b.drop 6).take 2))

/-! ## The clock -/

/-- `struct timeval` -/
structure Timeval where
  tvSec : Int
  tvUsec : Int

/-- The time that `gettimeofday` stores at the time `t`. -/
def gettimeofday (t : Nat) : Timeval := ⟨t / 1000000, t % 1000000⟩

/-- `time_diff_ms`, without the rounding of `double`. -/
def timeDiffMs (start stop : Timeval) : ℚ :=
  (stop.tvSec - start.tvSec : Int) * 1000 + (stop.tvUsec - start.tvUsec : Int) / 1000

/-! ## The request -/

/-- The loop of `compute_checksum` and the byte that an odd length leaves over. -/
def sumWords (sum : UInt32) : List UInt8 → UInt32
  | a :: b :: rest => sumWords (sum + UInt32.ofNat (leNat [a, b])) rest
  | [a] => sum + a.toUInt32
  | [] => sum

/-- `compute_checksum` -/
def computeChecksum (data : List UInt8) : UInt16 :=
  let sum := sumWords 0 data
  let sum := (sum >>> 16) + (sum &&& 0xFFFF)
  let sum := sum + (sum >>> 16)
  (~~~ sum).toUInt16

/-- The 16-bit words of some bytes as a little-endian machine reads them, an odd last byte padded with
zero. -/
def words : List UInt8 → List Nat
  | a :: b :: rest => leNat [a, b] :: words rest
  | [a] => [leNat [a, 0]]
  | [] => []

/-- The same words in network byte order. -/
def netWords : List UInt8 → List Nat
  | a :: b :: rest => leNat [b, a] :: netWords rest
  | [a] => [leNat [0, a]]
  | [] => []

/-- The bytes of `packet`. -/
def packetImage (hdr : Icmphdr) (timestamp : Timeval) : List UInt8 :=
  hdr.image ++ (leBytes 8 timestamp.tvSec.toNat ++ (leBytes 8 timestamp.tvUsec.toNat ++
    List.replicate 48 0))

/-- The header of an echo message, with its checksum. -/
def echoHeader (type : UInt8) (id seq : UInt16) (timestamp : Timeval) : Icmphdr :=
  let hdr : Icmphdr := ⟨type, 0, 0, htons id, htons seq⟩
  { hdr with checksum := computeChecksum (packetImage hdr timestamp) }

/-- The request that an iteration sends. -/
def echoRequest (id seq : UInt16) (timestamp : Timeval) : List UInt8 :=
  packetImage (echoHeader icmpEcho id seq timestamp) timestamp

/-! ## The reply -/

/-- `ip->ihl * 4` -/
def ipHdrLen (buf : List UInt8) : Nat := (buf.headD 0).toNat % 16 * 4

/-- A packet that arrives at the socket. -/
structure Packet where
  bytes : List UInt8
  /-- It has a complete ICMP header. -/
  complete : ipHdrLen bytes + sizeofIcmphdr ≤ bytes.length

/-- The ICMP header of a packet. -/
def Packet.icmp (p : Packet) : Icmphdr :=
  .ofImage ((p.bytes.drop (ipHdrLen p.bytes)).take sizeofIcmphdr)

/-- `sizeof(recv_buf)` -/
def sizeofRecvBuf : Nat := 1024

/-- The structure to which `reply` points, when the received bytes contain it. -/
def replyIn (recvBuf : List UInt8) : Option Icmphdr :=
  (memcpyFrom (some recvBuf) (ipHdrLen recvBuf) sizeofIcmphdr).map Icmphdr.ofImage

/-! ## The loop -/

/-- When SIGINT comes in an iteration. -/
inductive Signal where
  /-- It does not come. -/
  | none
  /-- It comes, and interrupts no wait. -/
  | outside
  /-- It comes when `recvfrom` has waited so long, if `recvfrom` is still waiting. -/
  | inRecvfrom (wait : Nat)
deriving DecidableEq

/-- What the system does in an iteration, and how long each part of it takes. -/
structure Round where
  /-- Up to the first `gettimeofday`, for the request. -/
  stamping : Nat
  /-- From there to the second one. -/
  building : Nat
  /-- `sendto` succeeds. -/
  sendOk : Bool
  /-- From there to the call of `recvfrom`. -/
  sending : Nat
  signal : Signal
  /-- From the return of `recvfrom` to the next `gettimeofday`. -/
  reading : Nat
  /-- From the end of the iteration to the next one, beyond the second of `sleep(1)`. -/
  pause : Nat

/-- The variables of `main` and the handler's flag, at the beginning of an iteration. -/
structure State where
  id : UInt16
  maxCount : Int32
  seq : Nat
  running : Bool
  sent : Nat
  received : Nat
  minRtt : ℚ
  maxRtt : ℚ
  totalRtt : ℚ
  now : Nat
  inbox : Inbox Packet

/-- Before the loop. -/
def start (pid : Nat) (maxCount : Int32) (now : Nat) (inbox : Inbox Packet) : State where
  id := UInt16.ofNat (pid % 0x10000)
  maxCount := maxCount
  seq := 1
  running := true
  sent := 0
  received := 0
  minRtt := 99999
  maxRtt := 0
  totalRtt := 0
  now := now
  inbox := inbox

/-- What happens in an iteration: the bytes that `sendto` is called with, the packet that was read,
with `recv_time`, and the time that was recorded if a reply was counted. -/
structure Outcome where
  request : List UInt8
  read : Option (Arrival Packet × Nat)
  rtt : Option ℚ

/-- The request of the iteration. -/
def State.request (s : State) (r : Round) : List UInt8 :=
  echoRequest s.id (UInt16.ofNat s.seq) (gettimeofday (s.now + r.stamping))

/-- The time stored in `send_time`. -/
def State.sendTime (s : State) (r : Round) : Nat := s.now + r.stamping + r.building

/-- The time at which `recvfrom` is called. -/
def State.called (s : State) (r : Round) : Nat := s.sendTime r + r.sending

/-- How long `recvfrom` waits: `SO_RCVTIMEO`, unless SIGINT interrupts it. -/
def Round.timeout (r : Round) : Nat :=
  match r.signal with
  | .inRecvfrom wait => min 2000000 wait
  | _ => 2000000

/-- The time at which `recvfrom` gives up. -/
def State.giveUp (s : State) (r : Round) : Nat := s.called r + r.timeout

/-- The value of `running` after the iteration. -/
def State.stillRunning (s : State) (r : Round) : Bool := s.running && decide (r.signal = .none)

/-- The end of the iteration at the time `t`. -/
def State.advance (s : State) (r : Round) (t : Nat) : State :=
  { s with seq := s.seq + 1, running := s.stillRunning r, now := t + r.pause }

/-- The time after `if (seq < max_count && running) sleep(1);`. Where SIGINT cuts the sleep short, no
iteration follows. -/
def State.sleep (s : State) (r : Round) (t : Nat) : Nat :=
  if (s.seq : Int) < s.maxCount.toInt ∧ s.stillRunning r = true then t + 1000000 else t

/-- The request has been sent, and `recvfrom` has left `inbox`. -/
def State.exchanged (s : State) (inbox : Inbox Packet) : State :=
  { s with sent := s.sent + 1, inbox := inbox }

/-- A reply is counted. -/
def State.count (s : State) (rtt : ℚ) : State :=
  { s with
    received := s.received + 1
    minRtt := if rtt < s.minRtt then rtt else s.minRtt
    maxRtt := if s.maxRtt < rtt then rtt else s.maxRtt
    totalRtt := s.totalRtt + rtt }

/-- The iteration from the return of `recvfrom` with the packet `a` on. -/
def examine (s : State) (r : Round) (sendTime recvTime : Nat) (a : Arrival Packet) :
    Option (Outcome × State) :=
  (replyIn (a.packet.bytes.take sizeofRecvBuf)).map fun reply =>
    if reply.type = icmpEchoreply ∧ htons reply.id = s.id then
      let rtt := timeDiffMs (gettimeofday sendTime) (gettimeofday recvTime)
      (⟨s.request r, some (a, recvTime), some rtt⟩, (s.count rtt).advance r (s.sleep r recvTime))
    else (⟨s.request r, some (a, recvTime), none⟩, s.advance r (s.sleep r recvTime))

/-- The condition of the loop. -/
def InLoop (s : State) : Prop := (s.seq : Int) ≤ s.maxCount.toInt ∧ s.running = true

instance (s : State) : Decidable (InLoop s) := inferInstanceAs (Decidable (_ ∧ _))

/-- An iteration of the loop. -/
def step (s : State) (r : Round) : Option (Outcome × State) :=
  if InLoop s then
    if r.sendOk = true then
      match s.inbox.recv (s.giveUp r) with
      | (none, inbox) =>
        some (⟨s.request r, none, none⟩, (s.exchanged inbox).advance r (s.giveUp r))
      | (some a, inbox) =>
        examine (s.exchanged inbox) r (s.sendTime r) (max (s.called r) a.time + r.reading) a
    else some (⟨s.request r, none, none⟩, s.advance r (s.called r))
  else none

/-! ## The replies of an iteration -/

/-- An ECHOREPLY that carries the id of the process. -/
def OwnReply (s : State) (p : Packet) : Prop := p.icmp.type = icmpEchoreply ∧ htons p.icmp.id = s.id

instance (s : State) (p : Packet) : Decidable (OwnReply s p) := inferInstanceAs (Decidable (_ ∧ _))

/-- An own reply that carries the sequence number of the iteration's request. -/
def Answers (s : State) (p : Packet) : Prop :=
  OwnReply s p ∧ htons p.icmp.sequence = UInt16.ofNat s.seq

/-- The reply to the iteration's request arrives before its receive gives up. -/
def Answered (s : State) (r : Round) : Prop :=
  r.sendOk = true ∧ ∃ a ∈ s.inbox.unread, a.time ≤ s.giveUp r ∧ Answers s a.packet

/-- The iteration counts a reply exactly if the reply to its request arrives in time, and records the
milliseconds from the sending of the request to the receipt of that reply. -/
structure Faithful (s : State) (r : Round) (o : Outcome) : Prop where
  counted : o.rtt ≠ none ↔ Answered s r
  rtt : ∀ x, o.rtt = some x →
    ∃ a t, o.read = some (a, t) ∧ Answers s a.packet ∧ x = ((t : ℚ) - s.sendTime r) / 1000

/-- The iteration, if it is made, is faithful. -/
def FaithfulRound (s : State) (r : Round) : Prop := ∀ o s', step s r = some (o, s') → Faithful s r o

/-- The first unread packet, if it arrives before the receive gives up, is not an own reply to another
request, nor does it keep the reply to this request waiting behind it. -/
structure Matched (s : State) (r : Round) : Prop where
  own : ∀ a rest, s.inbox.unread = a :: rest → a.time ≤ s.giveUp r → OwnReply s a.packet →
    htons a.packet.icmp.sequence = UInt16.ofNat s.seq
  foreign : ∀ a rest, s.inbox.unread = a :: rest → a.time ≤ s.giveUp r → ¬ OwnReply s a.packet →
    ∀ b ∈ rest, b.time ≤ s.giveUp r → ¬ Answers s b.packet

/-- The iteration is matched, if it is made and sends its request. -/
def MatchedRound (s : State) (r : Round) : Prop := InLoop s → r.sendOk = true → Matched s r

end PingDemo
