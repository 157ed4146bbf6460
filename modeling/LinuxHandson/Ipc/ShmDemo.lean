import LinuxHandson.Lib.CInt
import LinuxHandson.Lib.Semaphore

/-!
# The shared ring

The loops of the producer process and the consumer process of `main`, from the moment both run. Each
call on a semaphore and each assignment to the ring is a step of its own. Beside the ring stands its
history, which no code reads: the values in the order in which they were written to the buffer and
read from it, each with its slot.
-/

namespace ShmDemo

open CLib Semaphore

/-- `RING_SIZE` -/
def ringSize : Nat := 8

/-- `shared_ring_t` -/
structure SharedRing where
  buffer : List Int
  head : Nat
  tail : Nat
  produced : Int
  consumed : Int

/-- The ring after the `memset`. -/
def SharedRing.zero : SharedRing := ⟨List.replicate ringSize 0, 0, 0, 0, 0⟩

/-- Values and their slots. -/
structure History where
  written : List (Int × Nat)
  read : List (Int × Nat)

/-- What the processes share: the mapped ring, and whether the child has exited. -/
structure Data where
  ring : SharedRing
  exited : Bool
  history : History

/-- The three semaphores. -/
inductive Sem where
  | prod
  | cons
  | mutex
deriving DecidableEq

/-- The two processes. -/
inductive Proc where
  | producer
  | consumer
deriving DecidableEq

instance : Fintype Proc where
  elems := {.producer, .consumer}
  complete p := by cases p <;> simp

/-- The places in round `i` of a loop, and those after the loop. -/
inductive Loc where
  /-- At the test of the loop. -/
  | forTest (i : Nat)
  /-- Before the `sem_wait` for a slot or an item. -/
  | waitSem (i : Nat)
  /-- Before the `sem_wait` for the mutex. -/
  | waitMutex (i : Nat)
  /-- Before the access to the buffer. -/
  | access (i : Nat)
  /-- Before the update of `head` or `tail`. -/
  | advance (i : Nat)
  /-- Before the update of `produced` or `consumed`. -/
  | count (i : Nat)
  /-- Before the `sem_post` of the mutex. -/
  | postMutex (i : Nat)
  /-- Before the `sem_post` of an item or a slot. -/
  | postSem (i : Nat)
  /-- Before the `waitpid` of the parent. -/
  | waitpid
  /-- After the loop, and for the parent after the `waitpid`. -/
  | finished
deriving DecidableEq

/-- `i * 10`, an `int` -/
def item (i : Nat) : Int := cInt (i * 10)

/-- `ring->buffer[ring->head] = i * 10` -/
def Data.write (s : Data) (i : Nat) : Option Data :=
  if s.ring.head < s.ring.buffer.length then
    some { s with
      ring := { s.ring with buffer := s.ring.buffer.set s.ring.head (item i) }
      history := { s.history with written := s.history.written ++ [(item i, s.ring.head)] } }
  else none

/-- `ring->head = (ring->head + 1) % RING_SIZE` -/
def Data.advanceHead (s : Data) : Data :=
  { s with ring := { s.ring with head := (s.ring.head + 1) % ringSize } }

/-- `ring->produced++` -/
def Data.countProduced (s : Data) : Data :=
  { s with ring := { s.ring with produced := cInt (s.ring.produced + 1) } }

/-- `int val = ring->buffer[ring->tail]` -/
def Data.readTail (s : Data) : Option Data :=
  (s.ring.buffer[s.ring.tail]?).map fun val =>
    { s with history := { s.history with read := s.history.read ++ [(val, s.ring.tail)] } }

/-- `ring->tail = (ring->tail + 1) % RING_SIZE` -/
def Data.advanceTail (s : Data) : Data :=
  { s with ring := { s.ring with tail := (s.ring.tail + 1) % ringSize } }

/-- `ring->consumed++` -/
def Data.countConsumed (s : Data) : Data :=
  { s with ring := { s.ring with consumed := cInt (s.ring.consumed + 1) } }

/-- The child. -/
def producer (numItems : Nat) : Loc → Act Sem Loc Data
  | .forTest i =>
    .plain fun s =>
      some (if i < numItems then (.waitSem i, s) else (.finished, { s with exited := true }))
  | .waitSem i => .wait .prod (.waitMutex i)
  | .waitMutex i => .wait .mutex (.access i)
  | .access i => .plain fun s => (s.write i).map fun s' => (.advance i, s')
  | .advance i => .plain fun s => some (.count i, s.advanceHead)
  | .count i => .plain fun s => some (.postMutex i, s.countProduced)
  | .postMutex i => .post .mutex (.postSem i)
  | .postSem i => .post .cons (.forTest (i + 1))
  | .waitpid => .exit
  | .finished => .exit

/-- The parent. -/
def consumer (numItems : Nat) : Loc → Act Sem Loc Data
  | .forTest i => .plain fun s => some (if i < numItems then .waitSem i else .waitpid, s)
  | .waitSem i => .wait .cons (.waitMutex i)
  | .waitMutex i => .wait .mutex (.access i)
  | .access i => .plain fun s => s.readTail.map fun s' => (.advance i, s')
  | .advance i => .plain fun s => some (.count i, s.advanceTail)
  | .count i => .plain fun s => some (.postMutex i, s.countConsumed)
  | .postMutex i => .post .mutex (.postSem i)
  | .postSem i => .post .prod (.forTest (i + 1))
  | .waitpid => .plain fun s => if s.exited then some (.finished, s) else none
  | .finished => .exit

/-- The code of both processes, for `NUM_ITEMS`. -/
def code (numItems : Nat) : Proc → Loc → Act Sem Loc Data
  | .producer => producer numItems
  | .consumer => consumer numItems

/-- The places of the processes, the semaphores, and the shared memory. -/
abbrev ShmState := State Proc Sem Loc Data

/-- The values given to `sem_open`. -/
def initialValue : Sem → Nat
  | .prod => ringSize
  | .cons => 0
  | .mutex => 1

/-- After the `fork`. -/
def start : ShmState where
  loc _ := .forTest 0
  sem := initialValue
  data := ⟨.zero, false, ⟨[], []⟩⟩

end ShmDemo
