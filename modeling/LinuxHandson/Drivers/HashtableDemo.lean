import LinuxHandson.Lib.CInt
import LinuxHandson.Lib.CString
import LinuxHandson.Lib.HashTable
import LinuxHandson.Lib.Machine

/-!
# A table of students

`add_student`, `find_student` and `remove_student` of `hashtable_demo.c`. The hash function is a
parameter: what the table does is the same for all of them.
-/

namespace HashtableDemo

open CLib HashTable

/-- `sizeof(s->name)` -/
def sizeofName : Nat := 32

/-- `struct student` -/
structure Student where
  id : Int
  name : CStr
  grade : Int
deriving DecidableEq

/-- `student_table`, with `2^MY_HASH_BITS` buckets. -/
abbrev StudentTable := Table (Fin 16) Student

/-- `strscpy(dst, s, size)`, for a size that is not 0. -/
def strscpy (s : CStr) (size : Nat) : CStr := s.cut (size - 1)

/-- The record that `add_student` fills in. -/
def student (id : Int) (name : CStr) (grade : Int) : Student := ⟨id, strscpy name sizeofName, grade⟩

/-- The kernel's `hash_min` of an `int` key. -/
def hashMin (id : Int) : Fin 16 := Fin.ofNat 16 (uint32 id * 0x61C88647 % 2 ^ 32 / 2 ^ 28)

variable (hash : Int → Fin 16)

/-- `add_student`. `kmalloc` finds memory or not. -/
def addStudent (allocated : Bool) (id : Int) (name : CStr) (grade : Int) (t : StudentTable) :
    StudentTable :=
  if allocated then hashAdd hash t (student id name grade) id else t

/-- The node that `find_student` returns. -/
def findNode (id : Int) (t : StudentTable) : Option Nat := firstPossible Student.id hash t id

/-- `find_student` -/
def findStudent (id : Int) (t : StudentTable) : Option Student :=
  (findNode hash id t).bind fun i => (t (hash id))[i]?

/-- `remove_student` -/
def removeStudent (id : Int) (t : StudentTable) : StudentTable :=
  match findNode hash id t with
  | none => t
  | some i => hashDel t (hash id) i

/-- A call on the table. -/
inductive Call where
  | add (allocated : Bool) (id : Int) (name : CStr) (grade : Int)
  | find (id : Int)
  | remove (id : Int)

/-- A call on the table. Only `find_student` returns something. -/
def step : Machine.Step StudentTable Call (Option Student) := fun t c =>
  match c with
  | .add allocated id name grade => some (none, addStudent hash allocated id name grade t)
  | .find id => some (findStudent hash id t, t)
  | .remove id => some (none, removeStudent hash id t)

/-- A finite map from ids to records. -/
abbrev StudentMap := Int → Option Student

/-- What the calls do to a finite map. -/
def mapStep (m : StudentMap) : Call → Option Student × StudentMap
  | .add allocated id name grade =>
    (none, if allocated then Function.update m id (some (student id name grade)) else m)
  | .find id => (m id, m)
  | .remove id => (none, Function.update m id none)

/-- For each id the records that were added under it and are still there, the latest first. -/
abbrev StudentStacks := Int → List Student

/-- What the calls do to the stacks. -/
def stackStep (m : StudentStacks) : Call → Option Student × StudentStacks
  | .add allocated id name grade =>
    (none, if allocated then Function.update m id (student id name grade :: m id) else m)
  | .find id => ((m id).head?, m)
  | .remove id => (none, Function.update m id (m id).tail)

/-- The table, and beside it the map that the same calls give. -/
def stepBoth : Machine.Step (StudentTable × StudentMap) Call (Option Student) := fun s c =>
  (step hash s.1 c).map fun r => (r.1, (r.2, (mapStep s.2 c).2))

/-- The table is the map. -/
def IsMap (s : StudentTable × StudentMap) : Prop := ∀ id, findStudent hash id s.1 = s.2 id

/-- `remove_student` finds no more than one record with its id. -/
def RemovesLast (s : StudentTable × StudentMap) (c : Call) : Prop :=
  ∀ id, c = .remove id → (stack Student.id hash s.1 id).length ≤ 1

end HashtableDemo
