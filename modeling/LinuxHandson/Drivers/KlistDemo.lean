import LinuxHandson.Lib.CString
import LinuxHandson.Lib.KernelList
import LinuxHandson.Lib.Loop
import LinuxHandson.Lib.Machine

/-!
# A list of cities

`add_city`, `print_cities`, `delete_city` and `free_all_cities` of `klist_demo.c`, on a list whose
entries `kmalloc` places at any address that is not in use. The calls can come in any order.
-/

namespace KlistDemo

open CLib KernelList

/-- `sizeof(c->name)` -/
def sizeofName : Nat := 32

/-- `struct city` -/
structure City where
  name : CStr
  population : Int
deriving DecidableEq

/-- `city_list` -/
abbrev CityList := Heap Nat City

/-- What `add_city` stores: `strscpy` cuts the name. -/
def city (name : CStr) (population : Int) : City := ⟨name.cut (sizeofName - 1), population⟩

/-- `add_city`, for what `kmalloc` returns. -/
def addCity (addr : Option Nat) (name : CStr) (population : Int) (h : CityList) : Option CityList :=
  match addr with
  | none => some h
  | some a => (h.alloc a (city name population)).addTail a

/-- The first two links of `list_for_each_entry_safe`. -/
def startSafe (h : CityList) : Option (Link Nat × Link Nat) := do
  let c ← h.next .head
  let tmp ← h.next c
  return (c, tmp)

/-- The next two links of `list_for_each_entry_safe`. -/
def nextSafe {ρ : Type} (h : CityList) (tmp : Link Nat) : Round (CityList × Link Nat × Link Nat) ρ :=
  match h.next tmp with
  | some n => .again (h, tmp, n)
  | none => .undefined

/-- `list_del(&c->list); kfree(c);` -/
def remove (h : CityList) (a : Nat) : Option CityList := do
  let h ← h.del a
  h.free a

/-- A round of the loop of `delete_city`, which tells whether the city was found. -/
def deleteRound (name : CStr) :
    CityList × Link Nat × Link Nat → Round (CityList × Link Nat × Link Nat) (Bool × CityList)
  | (h, .head, _) => .done (false, h)
  | (_, .poison, _) => .undefined
  | (h, .entry a, tmp) =>
    match h.val a with
    | none => .undefined
    | some c =>
      if strcmp c.name name = 0 then
        match remove h a with
        | some h' => .done (true, h')
        | none => .undefined
      else nextSafe h tmp

/-- A round of the loop of `free_all_cities`. -/
def freeRound : CityList × Link Nat × Link Nat → Round (CityList × Link Nat × Link Nat) CityList
  | (h, .head, _) => .done h
  | (_, .poison, _) => .undefined
  | (h, .entry a, tmp) =>
    match remove h a with
    | some h' => nextSafe h' tmp
    | none => .undefined

/-- A round of the loop of `print_cities`, with the cities printed so far. -/
def printRound (h : CityList) : Link Nat × List City → Round (Link Nat × List City) (List City)
  | (.head, cs) => .done cs
  | (.poison, _) => .undefined
  | (.entry a, cs) =>
    match h.val a, h.next (.entry a) with
    | some c, some n => .again (n, cs ++ [c])
    | _, _ => .undefined

/-- A round of `list_for_each(pos, &city_list) count++`. -/
def countRound (h : CityList) : Link Nat × Nat → Round (Link Nat × Nat) Nat
  | (.head, n) => .done n
  | (pos, n) =>
    match h.next pos with
    | some pos' => .again (pos', n + 1)
    | none => .undefined

/-- A call on the list; `kmalloc` returns an address or `NULL`. -/
inductive Call where
  | addCity (addr : Option Nat) (name : CStr) (population : Int)
  | printCities
  | deleteCity (name : CStr)
  | listEmpty
  | count
  | freeAllCities

/-- What a call prints. -/
inductive Output where
  | none
  | cities (cs : List City)
  | deleted (found : Bool)
  | empty (b : Bool)
  | count (n : Nat)
deriving DecidableEq

/-- A call that comes to its end. -/
inductive Does : CityList → Call → Output → CityList → Prop where
  | addCity {h h' : CityList} {addr : Option Nat} {name : CStr} {population : Int}
      (hfresh : ∀ a, addr = some a → h.val a = .none)
      (hadd : KlistDemo.addCity addr name population h = some h') :
      Does h (.addCity addr name population) .none h'
  | printCities {h : CityList} {c : Link Nat} {cs : List City} (hc : h.next .head = some c)
      (hends : Ends (printRound h) (c, []) cs) : Does h .printCities (.cities cs) h
  | deleteCity {h h' : CityList} {name : CStr} {c tmp : Link Nat} {found : Bool}
      (hc : startSafe h = some (c, tmp)) (hends : Ends (deleteRound name) (h, c, tmp) (found, h')) :
      Does h (.deleteCity name) (.deleted found) h'
  | listEmpty {h : CityList} {c : Link Nat} (hc : h.next .head = some c) :
      Does h .listEmpty (.empty (c = .head)) h
  | count {h : CityList} {c : Link Nat} {n : Nat} (hc : h.next .head = some c)
      (hends : Ends (countRound h) (c, 0) n) : Does h .count (.count n) h
  | freeAllCities {h h' : CityList} {c tmp : Link Nat} (hc : startSafe h = some (c, tmp))
      (hends : Ends freeRound (h, c, tmp) h') : Does h .freeAllCities .none h'

/-- Calls one after the other. -/
inductive Runs : CityList → List Call → List Output → CityList → Prop where
  | nil {h : CityList} : Runs h [] [] h
  | cons {h h₁ h₂ : CityList} {c : Call} {cs : List Call} {o : Output} {os : List Output}
      (hc : Does h c o h₁) (hcs : Runs h₁ cs os h₂) : Runs h (c :: cs) (o :: os) h₂

/-- What the calls do to a list of cities. -/
def spec (xs : List City) : Call → Output × List City
  | .addCity addr name population =>
    (.none, if addr.isSome then xs ++ [city name population] else xs)
  | .printCities => (.cities xs, xs)
  | .deleteCity name => (.deleted (xs.any (·.name = name)), xs.eraseP (·.name = name))
  | .listEmpty => (.empty xs.isEmpty, xs)
  | .count => (.count xs.length, xs)
  | .freeAllCities => (.none, [])

/-- The allocator can make the call: the address that it returns is not in use. -/
def Call.Fresh (h : CityList) : Call → Prop
  | .addCity addr _ _ => ∀ a, addr = some a → h.val a = .none
  | _ => True

end KlistDemo
