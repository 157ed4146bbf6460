import LinuxHandson.Lib.CInt
import LinuxHandson.Lib.Pthread
import Mathlib.Data.Fintype.Sum
import Mathlib.Tactic.DeriveFintype

/-!
# Producers and consumers

`producer` and `consumer` over the circular buffer `bb`, as code of threads that share it. Any
number of threads run each of the two functions. Beside the buffer stands its history, which no code
reads: the items in the order in which they were added to the buffer and removed from it.
-/

namespace ProducerConsumer

open CLib Pthread

/-- `BUFFER_SIZE` -/
def bufferSize : Nat := 8

/-- `bounded_buffer_t` -/
structure BoundedBuffer where
  buffer : List Int
  head : Nat
  tail : Nat
  count : Nat

/-- The initial value of `bb`. -/
def BoundedBuffer.initial : BoundedBuffer := ⟨List.replicate bufferSize 0, 0, 0, 0⟩

/-- The items added so far, and those removed so far. -/
structure History where
  produced : List Int
  consumed : List Int

/-- What the threads share. -/
structure Data where
  bb : BoundedBuffer
  history : History

/-- `bb.mutex` is the only mutex. -/
inductive Mutex where
  | mutex
deriving DecidableEq

/-- The condition variables. -/
inductive Cond where
  | notFull
  | notEmpty
deriving DecidableEq

/-- The producers and the consumers. -/
inductive Thread (p c : Nat) where
  | producer (i : Fin p)
  | consumer (i : Fin c)
deriving DecidableEq, Fintype

/-- The places of the code. -/
inductive Loc where
  /-- `producer`, at the test of its loop. -/
  | forTest (i : Nat)
  /-- `producer`, before the critical section for item `i`. -/
  | produce (i : Nat)
  /-- `producer` has returned. -/
  | doneProducing
  /-- `consumer`, before its critical section. -/
  | consume (consumed : Nat)
  /-- `consumer`, at the test that ends its loop. -/
  | exitTest (consumed : Nat)
  /-- `consumer` has returned. -/
  | doneConsuming
deriving DecidableEq

/-- `producer` adds an item. -/
def Data.add (s : Data) (item : Int) : Data where
  bb := { s.bb with
    buffer := s.bb.buffer.set s.bb.head item
    head := (s.bb.head + 1) % bufferSize
    count := s.bb.count + 1 }
  history := { s.history with produced := s.history.produced ++ [item] }

/-- `consumer` removes an item. -/
def Data.remove (s : Data) (item : Int) : Data where
  bb := { s.bb with
    tail := (s.bb.tail + 1) % bufferSize
    count := s.bb.count - 1 }
  history := { s.history with consumed := s.history.consumed ++ [item] }

/-- The critical section of `producer`, from its wait loop to the unlock. -/
def addItem (i : Nat) (item : Int) (s : Data) : Option (Exit Cond Loc Data) :=
  if s.bb.count = bufferSize then some (.wait .notFull)
  else if s.bb.head < s.bb.buffer.length then
    some (.unlock (.forTest (i + 1)) (s.add item) (.signal .notEmpty))
  else none

/-- The critical section of `consumer`, from its wait loop to the unlock. -/
def removeItem (consumed : Nat) (s : Data) : Option (Exit Cond Loc Data) :=
  if s.bb.count = 0 then some (.wait .notEmpty)
  else (s.bb.buffer[s.bb.tail]?).map fun item =>
    .unlock (.exitTest (consumed + 1)) (s.remove item) (.signal .notFull)

/-- `id * 1000 + i`, an `int` -/
def item (id : Int) (i : Nat) : Int := cInt (id * 1000 + i)

/-- The code of all threads, for `NUM_ITEMS` and the arguments `id` of the producers. -/
def code {p c : Nat} (numItems : Nat) (id : Fin p → Int) :
    Thread p c → Loc → Act Mutex Cond Unit Loc Data
  | .producer _, .forTest i =>
    .plain fun _ s => some (if i < numItems then .produce i else .doneProducing, s)
  | .producer k, .produce i => .lock .mutex (addItem i (item (id k) i))
  | .consumer _, .consume consumed => .lock .mutex (removeItem consumed)
  | .consumer _, .exitTest consumed =>
    .plain fun _ s => some (if numItems ≤ consumed then .doneConsuming else .consume consumed, s)
  | _, _ => .stop

/-- Where a thread begins. -/
def firstLoc {p c : Nat} : Thread p c → Loc
  | .producer _ => .forTest 0
  | .consumer _ => .consume 0

/-- The places of the threads, the lock, and the buffer. -/
abbrev BufferState (p c : Nat) := State (Thread p c) Mutex Cond Loc Data

/-- The threads have been created, and the buffer is empty. -/
def start {p c : Nat} : BufferState p c := .start firstLoc ⟨.initial, ⟨[], []⟩⟩

end ProducerConsumer
