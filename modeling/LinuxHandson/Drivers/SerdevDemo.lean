import LinuxHandson.Lib.CInt
import LinuxHandson.Lib.CMemory
import LinuxHandson.Lib.Machine
import Mathlib.Algebra.Order.Ring.Int

/-!
# The receive buffer of the serdev driver

`serdev_demo_receive` is called with the next bytes of the serial line, appends what fits to a string in
a buffer, and returns how many bytes it has consumed. The line goes on behind these.
-/

namespace SerdevDemo

open CLib

/-- `sizeof(priv->rx_buf)` -/
def rxBufSize : Nat := 256

/-- `struct serdev_demo_priv` -/
structure SerdevDemoPriv where
  rxBuf : List UInt8
  rxLen : Int
deriving DecidableEq

/-- `serdev_demo_probe`, which allocates zeros. -/
def serdevDemoProbe : SerdevDemoPriv := ⟨List.replicate rxBufSize 0, 0⟩

/-- What one call is given; an object in memory has less than 2^63 bytes. -/
structure Chunk where
  buf : List UInt8
  lt : buf.length < 2 ^ 63

/-- `min_t(int, count, sizeof(priv->rx_buf) - priv->rx_len - 1)`, where the subtraction is made in
`size_t`. -/
def toCopy (priv : SerdevDemoPriv) (count : Nat) : Int :=
  let room := cInt (sizeT ((rxBufSize : Int) - priv.rxLen - 1))
  if cInt count < room then cInt count else room

/-- `serdev_demo_receive` -/
def serdevDemoReceive : Machine.Step SerdevDemoPriv Chunk Int := fun priv chunk =>
  let n := toCopy priv chunk.buf.length
  if 0 < n then
    (store priv.rxBuf priv.rxLen (chunk.buf.take n.toNat)).bind fun b =>
      (store b (priv.rxLen + n) [0]).map fun b => ((chunk.buf.length : Int), ⟨b, priv.rxLen + n⟩)
  else some ((chunk.buf.length : Int), priv)

/-- The bytes that have come in some calls. -/
def stream (chunks : List Chunk) : List UInt8 := chunks.flatMap Chunk.buf

/-- The buffer has its 256 bytes and holds a string of `rx_len` bytes, at most 255 of them, which are
the first ones of `bytes`. -/
structure Holds (priv : SerdevDemoPriv) (bytes : List UInt8) : Prop where
  size : priv.rxBuf.length = rxBufSize
  len : 0 ≤ priv.rxLen ∧ priv.rxLen < rxBufSize
  nul : priv.rxBuf[priv.rxLen.toNat]? = some 0
  pre : priv.rxBuf.take priv.rxLen.toNat <+: bytes

/-- The calls write within the buffer, which then holds a first part of the stream, and the bytes that
they have consumed are in it. -/
def Receives (chunks : List Chunk) : Prop :=
  ∃ rets priv, Machine.exec serdevDemoReceive serdevDemoProbe chunks = some (rets, priv) ∧
    Holds priv (stream chunks) ∧ rets.sum ≤ priv.rxLen

end SerdevDemo
