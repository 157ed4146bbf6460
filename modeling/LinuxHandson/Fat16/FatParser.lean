import LinuxHandson.Fat16.Fat16

/-!
# The FAT16 image parser (`fat_parser.c`)

`main` as a program that reads the image and returns what it prints. Each part keeps the loop and
the tests of its own that the source has.
-/

namespace Fat16.FatParser

open CLib

/-- A line of `print_directory`. -/
structure Line where
  fname : CStr
  attr : UInt8
  fileSize : UInt32
  firstCluster : UInt16
deriving DecidableEq

/-- The loop of `print_directory`, with `n` rounds to go. -/
def printEntries : Nat → StdioProg (List Line)
  | 0 => return []
  | n + 1 => do
    match ← freadEntry with
    | none => return []
    | some entry =>
      if entry.isEnd then return []
      else if entry.isDeleted then printEntries n
      else if entry.attr = attrLongName then printEntries n
      else
        let line : Line := ⟨formatName entry, entry.attr, entry.fileSize, entry.firstCluster⟩
        return line :: (← printEntries n)

/-- `print_directory` -/
def printDirectory (dirOffset : UInt32) (maxEntries : Nat) : StdioProg (List Line) := do
  fseek dirOffset.toNat
  printEntries maxEntries

/-- The loop that prints the first entries of the FAT, with `n` rounds to go. -/
def printFat : Nat → StdioProg (List UInt16)
  | 0 => return []
  | n + 1 => do
    let b ← fread 2 1
    if b.length < 2 then return []
    return UInt16.ofNat (leNat b) :: (← printFat n)

/-- A file and the start of its content. -/
structure Preview where
  entry : DirEntry
  fname : CStr
  content : List UInt8
deriving DecidableEq

/-- The content of the file that is found: at most 512 bytes from its first cluster. The address is
computed in type `int` before it is added to `data_start`. -/
def readPreview (bpb : Bpb) (dataStart : UInt32) (entry : DirEntry) : StdioProg Preview :=
  match intArith ((entry.firstCluster.toNat - 2) * bpb.sectorsPerCluster.toNat) with
  | none => .stuck
  | some sectors =>
    match intArith (sectors * bpb.bytesPerSector.toNat) with
    | none => .stuck
    | some bytes => do
      let fileOffset := dataStart + UInt32.ofInt bytes
      fseek fileOffset.toNat
      let toRead := if entry.fileSize < 512 then entry.fileSize.toNat else 512
      let content ← fread 1 toRead
      return ⟨entry, formatName entry, content⟩

/-- The loop that looks for a file to show, with `n` rounds to go. -/
def findFile (bpb : Bpb) (dataStart : UInt32) : Nat → StdioProg (Option Preview)
  | 0 => return none
  | n + 1 => do
    match ← freadEntry with
    | none => return none
    | some entry =>
      if entry.isEnd then return none
      else if entry.isDeleted then findFile bpb dataStart n
      else if entry.attr &&& (attrDirectory ||| attrVolumeId) ≠ 0 then findFile bpb dataStart n
      else if entry.fileSize = 0 then findFile bpb dataStart n
      else return some (← readPreview bpb dataStart entry)

/-- What `main` prints after the BPB. -/
structure Report where
  fatStart : UInt32
  rootDirStart : UInt32
  dataStart : UInt32
  fat : List UInt16
  rootDir : List Line
  preview : Option Preview
deriving DecidableEq

/-- `main`: the return code 1 when the BPB cannot be read. -/
def main : StdioProg (Except Int Report) := do
  let b ← fread sizeofBpb 1
  if b.length < sizeofBpb then return .error 1
  let bpb := Bpb.decode b
  match layout bpb with
  | none => .stuck
  | some v => do
    fseek v.fatStart.toNat
    let fat ← printFat 32
    let rootDir ← printDirectory v.rootDirStart bpb.rootEntryCount.toNat
    fseek v.rootDirStart.toNat
    let preview ← findFile bpb v.dataStart bpb.rootEntryCount.toNat
    return .ok ⟨v.fatStart, v.rootDirStart, v.dataStart, fat, rootDir, preview⟩

end Fat16.FatParser
