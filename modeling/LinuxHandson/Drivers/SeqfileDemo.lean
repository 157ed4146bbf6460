import LinuxHandson.Lib.CString
import LinuxHandson.Lib.SeqFile

/-!
# The records of the seq_file driver

The file shows the elements of `data_array`, one line each. An iterator is a pointer to an element, here
its index.
-/

namespace SeqfileDemo

open CLib

/-- `struct my_data` -/
structure MyData where
  id : Int32
  name : CStr
  value : UInt64
deriving DecidableEq

/-- What `%3d` prints, where `w` is 3. -/
def padLeft (w : Nat) (text : List UInt8) : List UInt8 :=
  List.replicate (w - text.length) 0x20 ++ text

/-- What `%-20s` prints, where `w` is 20. -/
def padRight (w : Nat) (text : List UInt8) : List UInt8 :=
  text ++ List.replicate (w - text.length) 0x20

/-- The line `"[%3d] %-20s %lu\n"` of an element. -/
def MyData.line (item : MyData) : List UInt8 :=
  CStr.ascii "[".toList ++ padLeft 3 (decimal item.id.toInt) ++ CStr.ascii "] ".toList ++
    padRight 20 item.name.bytes ++ CStr.ascii " ".toList ++ decimal (item.value.toNat : Nat) ++
    CStr.ascii "\n".toList

example : MyData.line ⟨7, ⟨CStr.ascii "item_007".toList, by decide⟩, 1200⟩ =
    CStr.ascii "[  7] item_007             1200\n".toList := by decide +kernel

/-- `data_array`, whose length is `NUM_ITEMS`. -/
abbrev DataArray := List MyData

/-- `my_seq_start` -/
def mySeqStart (data : DataArray) (pos : Nat) : Option Nat × Nat :=
  if data.length ≤ pos then (none, pos) else (some pos, pos)

/-- `my_seq_next`, which does not use the element that it is given. -/
def mySeqNext (data : DataArray) (_v pos : Nat) : Option Nat × Nat :=
  let pos := pos + 1
  if data.length ≤ pos then (none, pos) else (some pos, pos)

/-- `my_seq_show`: the line of the element, which has to be one of the array. -/
def mySeqShow (data : DataArray) (v : Nat) : Option (List UInt8) := data[v]?.map MyData.line

/-- `my_seq_ops`, where `my_seq_stop` does nothing. -/
def mySeqOps (data : DataArray) : SeqOps Nat := ⟨mySeqStart data, mySeqNext data⟩

/-- The array that `seqfile_demo_init` fills, for any number of items: `name` is `"item_%03d"` in 32
bytes, and `jiffies i` is the clock when it comes to item `i`. -/
def seqfileDemoInit (numItems : Nat) (jiffies : Nat → UInt64) : DataArray :=
  (List.range numItems).map fun i =>
    { id := Int32.ofNat i
      name := .ofBuf (CLib.snprintf 32 (CStr.ascii "item_".toList ++
        List.replicate (3 - (decimal (i : Nat)).length) 0x30 ++ decimal (i : Nat)))
      value := jiffies i + UInt64.ofNat (i * 100) }

end SeqfileDemo
