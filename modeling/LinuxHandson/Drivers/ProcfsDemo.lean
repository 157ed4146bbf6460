import LinuxHandson.Drivers.MessageDevices

/-!
# The configuration file of the procfs driver

`/proc/mydriver_config` stores a string in `config_buf`. Its length is not kept: `config_read` takes it
from the NUL.
-/

namespace ProcfsDemo

open CLib

/-- `sizeof(config_buf)` -/
def configSize : Nat := 256

/-- `config_buf` and `write_count` -/
structure Config where
  configBuf : List UInt8
  writeCount : Nat

/-- `"default_config"` -/
def defaultConfig : List UInt8 := CStr.ascii "default_config".toList

/-- The variables when the module is loaded. -/
def Config.initial : Config := ⟨defaultConfig ++ List.replicate (configSize - defaultConfig.length) 0, 0⟩

/-- The string in the buffer. -/
def Config.text (c : Config) : CStr := .ofBuf c.configBuf

/-- `config_read`, which is undefined on a buffer without a NUL. -/
def configRead (c : Config) : Reader := fun count off room =>
  (strlenIn c.configBuf).bind fun (strlen : Nat) =>
    if (strlen : Int) ≤ off then some ⟨0, [], off⟩
    else
      let len : Int := if (count : Int) < strlen - off then count else strlen - off
      (copyToUser c.configBuf off len room).map fun p =>
        if p.1 then ⟨len, p.2, off + len⟩ else ⟨-EFAULT, p.2, off⟩

/-- `config_buf[count - 1] = '\0'` where there is a newline. -/
def trimNewline (buf : List UInt8) (count : Nat) : List UInt8 :=
  if 0 < count ∧ buf[count - 1]? = some 0x0A then buf.set (count - 1) 0 else buf

/-- `config_write` -/
def configWrite (c : Config) (src : UserSrc) (count : Nat) (off : Int) : Option (FileReply × Config) :=
  if configSize ≤ count then some (⟨-EINVAL, [], off⟩, c)
  else
    (copyFromUser c.configBuf src count).map fun p =>
      if p.1 = false then (⟨-EFAULT, [], off⟩, { c with configBuf := p.2 })
      else (⟨count, [], off⟩, ⟨trimNewline (p.2.set count 0) count, sizeT (c.writeCount + 1)⟩)

/-- One call on the file. -/
def step : Machine.Step Config MessageBuffer.Call FileReply := fun c call =>
  match call with
  | .read count off room => (configRead c count off room).map fun r => (r, c)
  | .write src count off => configWrite c src count off

/-- The variables that the calls can lead to. -/
def Stored (c : Config) : Prop := Machine.Reach step (fun _ call => call.Valid) .initial c

/-- The string and what reads return of it are as before. -/
def Config.Unharmed (c c' : Config) : Prop :=
  MessageBuffer.Unharmed (strlen c.text) (strlen c'.text) c.configBuf c'.configBuf (configRead c)
    (configRead c')

end ProcfsDemo
