import LinuxHandson.Lib.CString
import LinuxHandson.Lib.Errno
import LinuxHandson.Lib.Slab

/-!
# A cache of objects that is used by half

`slab_demo_init` fills an array of pointers from a cache, frees the first half and allocates it again;
`slab_demo_exit` frees what the array points to. An access outside the array, or through a pointer that
is `NULL`, is undefined.
-/

namespace SlabDemo

open CLib Slab

/-- `struct my_object` -/
structure MyObject where
  id : Int
  name : CStr
  timestamp : UInt64
deriving DecidableEq

/-- `my_cache` and `objects`, whose length is `NUM_OBJECTS`. -/
structure State where
  myCache : KmemCache MyObject
  objects : List (Option Nat)
deriving DecidableEq

/-- `objects[i]` -/
def State.ptr (s : State) (i : Int) : Option (Option Nat) :=
  if 0 ≤ i then s.objects[i.toNat]? else none

/-- `*objects[i]` -/
def State.load (s : State) (i : Int) : Option MyObject := (s.ptr i).bind s.myCache.load

/-- `*objects[i] = f(*objects[i])` -/
def State.modify (s : State) (i : Nat) (f : MyObject → MyObject) : Option State :=
  (s.ptr i).bind fun p => (s.myCache.modify p f).map fun c => { s with myCache := c }

variable (a : Allocator MyObject)

/-- `objects[i] = kmem_cache_alloc(my_cache, GFP_KERNEL)` -/
def State.alloc (s : State) (i : Nat) : Option State :=
  if i < s.objects.length then
    some ⟨(s.myCache.alloc a).2, s.objects.set i (s.myCache.alloc a).1⟩
  else none

/-- `kmem_cache_free(my_cache, objects[i])`, and then `objects[i] = NULL`. -/
def State.free (s : State) (i : Nat) : Option State :=
  (s.ptr i).bind fun p => (s.myCache.free p).map fun c => ⟨c, s.objects.set i none⟩

/-- What `snprintf(..., "obj_%03d", i)` makes of `name`, which has 28 bytes. -/
def objName (i : Nat) : CStr :=
  .ofBuf (CLib.snprintf 28 (CStr.ascii "obj_".toList ++
    List.replicate (3 - (decimal (i : Nat)).length) 0x30 ++ decimal (i : Nat)))

variable (jiffies : Nat → UInt64)

/-- The first loop, with `k` rounds to go at `i`, and the `i` that it leaves. `jiffies i` is the clock
when it comes to `i`. -/
def allocLoop : Nat → Nat → State → Option (Nat × State)
  | 0, i, s => some (i, s)
  | k + 1, i, s =>
    (s.alloc a i).bind fun s =>
    (s.ptr i).bind fun p =>
      match p with
      | none => some (i, s)
      | some _ =>
        (s.modify i fun _ => ⟨i, objName i, jiffies i⟩).bind fun s => allocLoop k (i + 1) s

/-- The second loop. -/
def freeLoop : Nat → Nat → State → Option State
  | 0, _, s => some s
  | k + 1, i, s => (s.free i).bind fun s => freeLoop k (i + 1) s

/-- The third loop, in which the result of the allocation is not checked. -/
def reallocLoop : Nat → Nat → State → Option State
  | 0, _, s => some s
  | k + 1, i, s =>
    (s.alloc a i).bind fun s =>
    (s.modify i fun obj => { obj with id := i + 1000 }).bind fun s => reallocLoop k (i + 1) s

/-- `slab_demo_init`; `created` says whether `kmem_cache_create` succeeds. -/
def slabDemoInit (numObjects : Nat) (created : Bool) : Option (Except Int State) :=
  if created then
    (allocLoop a jiffies numObjects 0 ⟨.create, List.replicate numObjects none⟩).bind fun r =>
    -- the first object and the last one are printed
    (r.2.load 0).bind fun _ =>
    (r.2.load (r.1 - 1)).bind fun _ =>
    (freeLoop (numObjects / 2) 0 r.2).bind fun s =>
    (reallocLoop a (numObjects / 2) 0 s).map .ok
  else some (.error (-ENOMEM))

/-- The loop of `slab_demo_exit`. -/
def exitLoop : List (Option Nat) → KmemCache MyObject → Option (KmemCache MyObject)
  | [], c => some c
  | none :: ptrs, c => exitLoop ptrs c
  | some o :: ptrs, c => (c.free (some o)).bind fun c => exitLoop ptrs c

/-- `slab_demo_exit`: the cache when it is destroyed. -/
def slabDemoExit (s : State) : Option (KmemCache MyObject) := exitLoop s.objects s.myCache

/-- The module loads, or fails to with an error, and when it is unloaded again every object that it
allocated has been freed once. -/
def Clean (numObjects : Nat) (created : Bool) : Prop :=
  ∃ r, slabDemoInit a jiffies numObjects created = some r ∧
    ∀ s, r = .ok s → ∃ c, slabDemoExit s = some c ∧ c.AllFreedOnce

/-! ## The allocations that have to succeed -/

/-- How many of `k` calls of `kmem_cache_alloc` from call `c` on succeed before the first that fails. -/
def successes (fails : Nat → Bool) : Nat → Nat → Nat
  | _, 0 => 0
  | c, k + 1 => if fails c then 0 else successes fails (c + 1) k + 1

/-- How many calls the first loop makes. -/
def firstCalls (fails : Nat → Bool) (numObjects : Nat) : Nat :=
  min numObjects (successes fails 0 numObjects + 1)

/-- The allocations of the first half of the array succeed, both times. -/
def HalfSucceeds (fails : Nat → Bool) (numObjects : Nat) : Prop :=
  (∀ i < numObjects / 2, fails i = false) ∧
    ∀ i < numObjects / 2, fails (firstCalls fails numObjects + i) = false

end SlabDemo
