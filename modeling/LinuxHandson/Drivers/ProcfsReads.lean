import LinuxHandson.Drivers.ProcfsDemo
import LinuxHandson.Lib.Jiffies
import LinuxHandson.Lib.ReadSequence

/-!
# The generated files of the procfs driver

`/proc/mydriver_info` and `/proc/mydriver_stats` have no buffer behind them: each read prints its text
anew, and takes every offset behind 0 for the end of the file.
-/

namespace ProcfsDemo

open CLib

/-- The variables of the module. -/
structure Driver where
  config : Config
  readCount : Nat

/-- The variables when the module is loaded. -/
def Driver.initial : Driver := ⟨.initial, 0⟩

/-- What `info_read` prints. -/
def infoText (hz : Hz) (jiffies : UInt64) : List UInt8 :=
  CStr.ascii "Driver: procfs_demo\nVersion: 1.0\nUptime: ".toList ++
    decimal (jiffies.toNat / hz.val : Nat) ++ CStr.ascii " seconds\nHZ: ".toList ++
    decimal (hz.val : Nat) ++ CStr.ascii "\n".toList

/-- What `stats_read` prints. -/
def statsText (d : Driver) : List UInt8 :=
  CStr.ascii "Reads:  ".toList ++ decimal (d.readCount : Nat) ++ CStr.ascii "\nWrites: ".toList ++
    decimal (d.config.writeCount : Nat) ++ CStr.ascii "\n".toList

/-- A read of a text that is printed into `char tmp[size]`. -/
def generatedRead (size : Nat) (text : List UInt8) : Reader := fun count off room =>
  if 0 < off then some ⟨0, [], off⟩
  else
    let len : Int := if count < text.length then count else text.length
    (copyToUser (snprintf size text) 0 len room).map fun p =>
      if p.1 then ⟨len, p.2, off + len⟩ else ⟨-EFAULT, p.2, off⟩

/-- `info_read` -/
def infoRead (hz : Hz) (jiffies : UInt64) (d : Driver) (count : Nat) (off : Int) (room : Nat) :
    Option (FileReply × Driver) :=
  (generatedRead 256 (infoText hz jiffies) count off room).map fun r =>
    -- the read is counted on the path that has copied the text
    (r, if 0 < off ∨ r.ret < 0 then d else { d with readCount := sizeT (d.readCount + 1) })

/-- `stats_read` -/
def statsRead (d : Driver) : Reader := generatedRead 128 (statsText d)

/-- A call on one of the files. -/
inductive FileCall where
  | info (jiffies : UInt64) (count : Nat) (off : Int) (room : Nat)
  | stats (count : Nat) (off : Int) (room : Nat)
  | config (call : MessageBuffer.Call)

/-- What the VFS guarantees. -/
def FileCall.Valid : FileCall → Prop
  | .info _ count off _ => count ≤ maxCount ∧ 0 ≤ off
  | .stats count off _ => count ≤ maxCount ∧ 0 ≤ off
  | .config call => call.Valid

/-- One call on one of the files. -/
def driverStep (hz : Hz) : Machine.Step Driver FileCall FileReply := fun d call =>
  match call with
  | .info jiffies count off room => infoRead hz jiffies d count off room
  | .stats count off room => (statsRead d count off room).map fun r => (r, d)
  | .config call => (step d.config call).map fun p => (p.1, { d with config := p.2 })

/-- The variables that the calls can lead to. -/
def Running (hz : Hz) (d : Driver) : Prop :=
  Machine.Reach (driverStep hz) (fun _ call => call.Valid) .initial d

/-- What a call finds: the variables, after any calls before it, and the clock. -/
structure Moment (hz : Hz) where
  driver : Driver
  jiffies : UInt64
  running : Running hz driver

/-- What a read of the info file gets at that moment. -/
def Moment.infoReader {hz : Hz} (m : Moment hz) : Reader := fun count off room =>
  (infoRead hz m.jiffies m.driver count off room).map Prod.fst

/-- What the info file shows at that moment. -/
def Moment.infoText {hz : Hz} (m : Moment hz) : List UInt8 := ProcfsDemo.infoText hz m.jiffies

end ProcfsDemo
