import LinuxHandson.Lib.KthreadPair
import LinuxHandson.Lib.WeakMemory

/-!
# A flag behind memory barriers, and a completion

The writer and the reader of `barrier_demo`, on processors that keep no order of loads and stores but
what the barriers make them keep, and the producer and the consumer of `completion_demo`. Both modules
start the one that waits first.
-/

namespace BarrierDemo

open Kthread WeakMemory

/-- The two variables. -/
inductive Var where
  | message
  | flag
deriving DecidableEq

/-- What the threads share, and the results that the reader prints. -/
structure Data where
  mem : Memory Var Int
  writer : Cpu Var
  reader : Cpu Var
  /-- The values of `flag` and `message` in each. -/
  printed : List (Int × Int)

/-- The variables are zero. -/
def Data.initial : Data := ⟨.initial fun _ => 0, .initial, .initial, []⟩

/-- The places of `writer_fn`. -/
inductive WriterLoc where
  /-- `message = 42` -/
  | setMessage
  /-- `smp_wmb()` -/
  | barrier
  /-- `flag = 1` -/
  | setFlag
  /-- `while (!kthread_should_stop())` -/
  | idle
deriving DecidableEq

/-- The places of `reader_fn`. -/
inductive ReaderLoc where
  /-- The test of the loop. -/
  | loopTest (loops : Nat)
  /-- `smp_rmb()` in the loop. -/
  | loopBarrier (loops : Nat)
  /-- `if (flag == 1)` -/
  | check
  /-- `smp_rmb()` behind the test. -/
  | barrier
  /-- `flag` is read for the line. -/
  | readFlag
  /-- `message` is read for the line. -/
  | readMessage (flag : Int)
  /-- `while (!kthread_should_stop())` -/
  | idle
deriving DecidableEq

/-- A step of `writer_fn`. -/
def writerFn (shouldStop : Bool) : WriterLoc → Data → Option (Option WriterLoc × Data)
  | .setMessage, s =>
    some (some .barrier, { s with
      mem := (s.writer.store s.mem .message 42).2
      writer := (s.writer.store s.mem .message 42).1 })
  | .barrier, s => some (some .setFlag, { s with writer := s.writer.wmb })
  | .setFlag, s =>
    some (some .idle, { s with
      mem := (s.writer.store s.mem .flag 1).2
      writer := (s.writer.store s.mem .flag 1).1 })
  | .idle, s => some (if shouldStop then none else some .idle, s)

/-- The number of rounds after which the reader gives up. -/
def maxLoops : Nat := 50

/-- A step of `reader_fn`, in which a load returns store `t` of the variable. -/
def readerFn (t : Nat) (shouldStop : Bool) : ReaderLoc → Data → Option (Option ReaderLoc × Data)
  | .loopTest loops, s =>
    (s.reader.load s.mem .flag t).map fun p =>
      (some (if p.1 = 0 ∧ loops < maxLoops then .loopBarrier loops else .check),
        { s with reader := p.2 })
  | .loopBarrier loops, s => some (some (.loopTest (loops + 1)), { s with reader := s.reader.rmb })
  | .check, s =>
    (s.reader.load s.mem .flag t).map fun p =>
      (some (if p.1 = 1 then .barrier else .idle), { s with reader := p.2 })
  | .barrier, s => some (some .readFlag, { s with reader := s.reader.rmb })
  | .readFlag, s =>
    (s.reader.load s.mem .flag t).map fun p => (some (.readMessage p.1), { s with reader := p.2 })
  | .readMessage flag, s =>
    (s.reader.load s.mem .message t).map fun p =>
      (some .idle, { s with reader := p.2, printed := s.printed ++ [(flag, p.1)] })
  | .idle, s => some (if shouldStop then none else some .idle, s)

/-- The module: the reader is started first. -/
def code : Pair.Code ReaderLoc WriterLoc Nat Data where
  start₁ := .loopTest 0
  body₁ := readerFn
  start₂ := .setMessage
  body₂ _ := writerFn

/-- One step of the module or of a thread. -/
def step : Machine.Step (Pair.State ReaderLoc WriterLoc Data) (Pair.Event Nat) Unit := Pair.step code

/-- Before the init function. -/
def start : Pair.State ReaderLoc WriterLoc Data := .start .initial

end BarrierDemo

namespace CompletionDemo

open Kthread

/-- What the consumer prints after its wait. -/
inductive Line where
  | got (result : Int)
  | timedOut
deriving DecidableEq

/-- What the threads share, and the lines that the consumer prints. -/
structure Data where
  sharedResult : Int
  /-- `data_ready.done` -/
  done : Nat
  lines : List Line

/-- There is no result. -/
def Data.initial : Data := ⟨0, 0, []⟩

/-- The places of `producer_fn`. -/
inductive ProducerLoc where
  /-- `shared_result = 42` -/
  | setResult
  /-- `complete(&data_ready)` -/
  | complete
  /-- `while (!kthread_should_stop())` -/
  | idle
deriving DecidableEq

/-- The places of `consumer_fn`. -/
inductive ConsumerLoc where
  /-- In `wait_for_completion_timeout`. -/
  | waiting
  /-- `shared_result` is read for the line. -/
  | report
  /-- `while (!kthread_should_stop())` -/
  | idle
deriving DecidableEq

/-- A step of `producer_fn`. -/
def producerFn (shouldStop : Bool) : ProducerLoc → Data → Option (Option ProducerLoc × Data)
  | .setResult, s => some (some .complete, { s with sharedResult := 42 })
  | .complete, s => some (some .idle, { s with done := s.done + 1 })
  | .idle, s => some (if shouldStop then none else some .idle, s)

/-- A step of `consumer_fn`, in which a wait may time out while there is no completion. -/
def consumerFn (timeout : Bool) (shouldStop : Bool) :
    ConsumerLoc → Data → Option (Option ConsumerLoc × Data)
  | .waiting, s =>
    if 0 < s.done then some (some .report, { s with done := s.done - 1 })
    else if timeout then some (some .idle, { s with lines := s.lines ++ [.timedOut] })
    else none
  | .report, s => some (some .idle, { s with lines := s.lines ++ [.got s.sharedResult] })
  | .idle, s => some (if shouldStop then none else some .idle, s)

/-- The module: the consumer is started first. -/
def code : Pair.Code ConsumerLoc ProducerLoc Bool Data where
  start₁ := .waiting
  body₁ := consumerFn
  start₂ := .setResult
  body₂ _ := producerFn

/-- One step of the module or of a thread. -/
def step : Machine.Step (Pair.State ConsumerLoc ProducerLoc Data) (Pair.Event Bool) Unit :=
  Pair.step code

/-- Before the init function. -/
def start : Pair.State ConsumerLoc ProducerLoc Data := .start .initial

end CompletionDemo
