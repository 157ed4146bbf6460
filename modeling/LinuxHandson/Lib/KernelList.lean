import Mathlib.Data.List.Nodup
import Mathlib.Logic.Function.Basic

/-!
# Lists of the kernel

A doubly linked list that runs in a ring through a list head and the `list_head` in each of its entries.
The entries are allocated and freed; an access through a link to what is not allocated, or through the
poison that `list_del` leaves, is undefined and has no result.
-/

namespace KernelList

variable {α β : Type}

/-- A pointer to a `list_head`: that of the list itself, that of an entry, or poison. -/
inductive Link (α : Type) where
  | head
  | entry (a : α)
  | poison
deriving DecidableEq

theorem Link.head_ne (a : α) : (Link.head : Link α) ≠ .entry a := nofun

theorem Link.entry_ne {a b : α} {q : List α} (ha : a ∉ q) (hb : b ∈ q) :
    Link.entry b ≠ Link.entry a :=
  fun heq => ha (Link.entry.inj heq ▸ hb)

/-- A node: its links, and what contains it. -/
structure Entry (α β : Type) where
  next : Link α
  prev : Link α
  val : β

/-- The head of a list, and what is allocated. -/
structure Heap (α β : Type) where
  first : Link α
  last : Link α
  entries : α → Option (Entry α β)

namespace Heap

/-- `LIST_HEAD`, with nothing allocated. -/
def empty : Heap α β := ⟨.head, .head, fun _ => none⟩

/-- `x->next` -/
def next (h : Heap α β) : Link α → Option (Link α)
  | .head => some h.first
  | .entry a => (h.entries a).map Entry.next
  | .poison => none

/-- `x->prev` -/
def prev (h : Heap α β) : Link α → Option (Link α)
  | .head => some h.last
  | .entry a => (h.entries a).map Entry.prev
  | .poison => none

/-- What an entry holds. -/
def val (h : Heap α β) (a : α) : Option β := (h.entries a).map Entry.val

variable [DecidableEq α]

/-- `x->next = y` -/
def setNext (h : Heap α β) (x y : Link α) : Option (Heap α β) :=
  match x with
  | .head => some { h with first := y }
  | .entry a => (h.entries a).map fun e =>
    { h with entries := Function.update h.entries a (some { e with next := y }) }
  | .poison => none

/-- `x->prev = y` -/
def setPrev (h : Heap α β) (x y : Link α) : Option (Heap α β) :=
  match x with
  | .head => some { h with last := y }
  | .entry a => (h.entries a).map fun e =>
    { h with entries := Function.update h.entries a (some { e with prev := y }) }
  | .poison => none

/-- `kmalloc` returns `a`, and the entry is filled in; its links are not set. -/
def alloc (h : Heap α β) (a : α) (v : β) : Heap α β :=
  { h with entries := Function.update h.entries a (some ⟨.poison, .poison, v⟩) }

/-- `kfree` of what is allocated. -/
def free (h : Heap α β) (a : α) : Option (Heap α β) :=
  (h.entries a).map fun _ => { h with entries := Function.update h.entries a none }

/-- `list_add_tail` -/
def addTail (h : Heap α β) (a : α) : Option (Heap α β) := do
  let prev ← h.prev .head
  let h ← h.setPrev .head (.entry a)
  let h ← h.setNext (.entry a) .head
  let h ← h.setPrev (.entry a) prev
  h.setNext prev (.entry a)

/-- `list_del` -/
def del (h : Heap α β) (a : α) : Option (Heap α β) := do
  let prev ← h.prev (.entry a)
  let next ← h.next (.entry a)
  let h ← h.setPrev next prev
  let h ← h.setNext prev next
  let h ← h.setNext (.entry a) .poison
  h.setPrev (.entry a) .poison

/-! ## One access -/

variable {h h' : Heap α β} {x y : Link α} {a : α}

theorem next_update (h : Heap α β) (a : α) (o : Option (Entry α β)) :
    next { h with entries := Function.update h.entries a o } =
      Function.update h.next (.entry a) (o.map Entry.next) := by
  funext z
  by_cases hz : z = .entry a
  · rw [hz, Function.update_self]
    show (Function.update h.entries a o a).map Entry.next = _
    rw [Function.update_self]
  · rw [Function.update_of_ne hz]
    cases z with
    | head => rfl
    | poison => rfl
    | entry b =>
      show (Function.update h.entries a o b).map Entry.next = _
      rw [Function.update_of_ne fun hb => hz (congrArg Link.entry hb)]
      rfl

theorem prev_update (h : Heap α β) (a : α) (o : Option (Entry α β)) :
    prev { h with entries := Function.update h.entries a o } =
      Function.update h.prev (.entry a) (o.map Entry.prev) := by
  funext z
  by_cases hz : z = .entry a
  · rw [hz, Function.update_self]
    show (Function.update h.entries a o a).map Entry.prev = _
    rw [Function.update_self]
  · rw [Function.update_of_ne hz]
    cases z with
    | head => rfl
    | poison => rfl
    | entry b =>
      show (Function.update h.entries a o b).map Entry.prev = _
      rw [Function.update_of_ne fun hb => hz (congrArg Link.entry hb)]
      rfl

theorem val_update (h : Heap α β) (a : α) (o : Option (Entry α β)) :
    val { h with entries := Function.update h.entries a o } =
      Function.update h.val a (o.map Entry.val) := by
  funext b
  show (Function.update h.entries a o b).map Entry.val = _
  by_cases hb : b = a
  · rw [hb, Function.update_self, Function.update_self]
  · rw [Function.update_of_ne hb, Function.update_of_ne hb]
    rfl

theorem setNext_spec (hx : (h.next x).isSome) (y : Link α) :
    ∃ h', h.setNext x y = some h' ∧ h'.next = Function.update h.next x (some y) ∧
      h'.prev = h.prev ∧ h'.val = h.val := by
  cases x with
  | head =>
    refine ⟨_, rfl, funext fun z => ?_, funext fun z => by cases z <;> rfl, rfl⟩
    cases z with
    | head => rw [Function.update_self, next]
    | entry b => rw [Function.update_of_ne (by nofun), next, next]
    | poison => rw [Function.update_of_ne (by nofun), next, next]
  | poison => cases hx
  | entry a =>
    obtain ⟨e, he⟩ : ∃ e, h.entries a = some e := by
      rwa [next, Option.isSome_map, Option.isSome_iff_exists] at hx
    have hprev : h.prev (.entry a) = some e.prev := by rw [prev, he, Option.map_some]
    have hval : h.val a = some e.val := by rw [val, he, Option.map_some]
    refine ⟨_, by rw [setNext, he, Option.map_some], by rw [next_update, Option.map_some], ?_, ?_⟩
    · rw [prev_update, Option.map_some, ← hprev, Function.update_eq_self]
    · rw [val_update, Option.map_some, ← hval, Function.update_eq_self]

theorem setPrev_spec (hx : (h.prev x).isSome) (y : Link α) :
    ∃ h', h.setPrev x y = some h' ∧ h'.prev = Function.update h.prev x (some y) ∧
      h'.next = h.next ∧ h'.val = h.val := by
  cases x with
  | head =>
    refine ⟨_, rfl, funext fun z => ?_, funext fun z => by cases z <;> rfl, rfl⟩
    cases z with
    | head => rw [Function.update_self, prev]
    | entry b => rw [Function.update_of_ne (by nofun), prev, prev]
    | poison => rw [Function.update_of_ne (by nofun), prev, prev]
  | poison => cases hx
  | entry a =>
    obtain ⟨e, he⟩ : ∃ e, h.entries a = some e := by
      rwa [prev, Option.isSome_map, Option.isSome_iff_exists] at hx
    have hnext : h.next (.entry a) = some e.next := by rw [next, he, Option.map_some]
    have hval : h.val a = some e.val := by rw [val, he, Option.map_some]
    refine ⟨_, by rw [setPrev, he, Option.map_some], by rw [prev_update, Option.map_some], ?_, ?_⟩
    · rw [next_update, Option.map_some, ← hnext, Function.update_eq_self]
    · rw [val_update, Option.map_some, ← hval, Function.update_eq_self]

/-! ## Paths -/

/-- From `x` the links lead through the entries `q`, in order, to `y`, and back. -/
def Path (h : Heap α β) : Link α → List α → Link α → Prop
  | x, [], y => h.next x = some y ∧ h.prev y = some x
  | x, a :: q, y => h.next x = some (.entry a) ∧ h.prev (.entry a) = some x ∧ Path h (.entry a) q y

/-- The last link before the end of a path. -/
def lastOf : Link α → List α → Link α
  | x, [] => x
  | _, a :: q => lastOf (.entry a) q

/-- The list holds the entries `q`, in order. -/
structure Ring (h : Heap α β) (q : List α) : Prop where
  path : h.Path .head q .head
  nodup : q.Nodup

variable {q q₁ q₂ : List α} {y' : Link α}

omit [DecidableEq α] in
theorem lastOf_cases (x : Link α) (q : List α) : lastOf x q = x ∨ ∃ b ∈ q, lastOf x q = .entry b := by
  induction q generalizing x with
  | nil => exact .inl rfl
  | cons a q ih =>
    right
    rcases ih (.entry a) with heq | ⟨b, hb, heq⟩
    · exact ⟨a, List.mem_cons_self, heq⟩
    · exact ⟨b, List.mem_cons_of_mem a hb, heq⟩

omit [DecidableEq α] in
theorem lastOf_ne {x : Link α} (hx : x ≠ .entry a) (ha : a ∉ q) : lastOf x q ≠ .entry a := by
  rcases lastOf_cases x q with heq | ⟨b, hb, heq⟩
  · rwa [heq]
  · rw [heq]
    intro hab
    exact ha (Link.entry.inj hab ▸ hb)

omit [DecidableEq α] in
theorem Path.last (hp : h.Path x q y) :
    h.prev y = some (lastOf x q) ∧ h.next (lastOf x q) = some y := by
  induction q generalizing x with
  | nil => exact ⟨hp.2, hp.1⟩
  | cons a q ih => exact ih hp.2.2

omit [DecidableEq α] in
/-- Two paths, one behind the other. -/
theorem path_append : h.Path x (q₁ ++ a :: q₂) y ↔ h.Path x q₁ (.entry a) ∧ h.Path (.entry a) q₂ y := by
  induction q₁ generalizing x with
  | nil => exact and_assoc.symm
  | cons b q₁ ih =>
    show _ ∧ _ ∧ h.Path (.entry b) (q₁ ++ a :: q₂) y ↔ (_ ∧ _ ∧ h.Path (.entry b) q₁ (.entry a)) ∧ _
    rw [ih, and_assoc, and_assoc]

omit [DecidableEq α] in
/-- A path that is led to another link behind its last entry. -/
theorem Path.retarget (hp : h.Path x q y) (hx : ∀ b ∈ q, x ≠ .entry b) (hq : q.Nodup)
    (hnext : h'.next (lastOf x q) = some y') (hprev : h'.prev y' = some (lastOf x q))
    (hn : ∀ z, z = x ∨ (∃ b ∈ q, z = .entry b) → z ≠ lastOf x q → h'.next z = h.next z)
    (hb : ∀ b ∈ q, h'.prev (.entry b) = h.prev (.entry b)) : h'.Path x q y' := by
  induction q generalizing x with
  | nil => exact ⟨hnext, hprev⟩
  | cons a q ih =>
    obtain ⟨h1, h2, h3⟩ := hp
    obtain ⟨haq, hq⟩ := List.nodup_cons.mp hq
    have hlast : x ≠ lastOf (.entry a) q := by
      rcases lastOf_cases (.entry a) q with heq | ⟨b, hbq, heq⟩
      · rw [heq]
        exact hx a List.mem_cons_self
      · rw [heq]
        exact hx b (List.mem_cons_of_mem a hbq)
    refine ⟨(hn x (.inl rfl) hlast).trans h1, (hb a List.mem_cons_self).trans h2, ?_⟩
    refine ih h3 (fun b hbq heq => haq (Link.entry.inj heq ▸ hbq)) hq hnext hprev ?_ ?_
    · rintro z (rfl | ⟨b, hbq, rfl⟩) hz
      · exact hn _ (.inr ⟨a, List.mem_cons_self, rfl⟩) hz
      · exact hn _ (.inr ⟨b, List.mem_cons_of_mem a hbq, rfl⟩) hz
    · exact fun b hbq => hb b (List.mem_cons_of_mem a hbq)

omit [DecidableEq α] in
theorem Path.congr (hp : h.Path x q y) (hn : ∀ z, z = x ∨ (∃ b ∈ q, z = .entry b) → h'.next z = h.next z)
    (hy : h'.prev y = h.prev y) (hb : ∀ b ∈ q, h'.prev (.entry b) = h.prev (.entry b)) :
    h'.Path x q y := by
  induction q generalizing x with
  | nil => exact ⟨(hn x (.inl rfl)).trans hp.1, hy.trans hp.2⟩
  | cons a q ih =>
    obtain ⟨h1, h2, h3⟩ := hp
    refine ⟨(hn x (.inl rfl)).trans h1, (hb a List.mem_cons_self).trans h2, ih h3 ?_ ?_⟩
    · rintro z (rfl | ⟨b, hbq, rfl⟩)
      · exact hn _ (.inr ⟨a, List.mem_cons_self, rfl⟩)
      · exact hn _ (.inr ⟨b, List.mem_cons_of_mem a hbq, rfl⟩)
    · exact fun b hbq => hb b (List.mem_cons_of_mem a hbq)

omit [DecidableEq α] in
theorem ring_empty : Ring (empty : Heap α β) [] := ⟨⟨rfl, rfl⟩, List.nodup_nil⟩

omit [DecidableEq α] in
/-- What the links of a list do not lead through may change. -/
theorem Ring.congr (hr : h.Ring q) (ha : a ∉ q) (hn : ∀ z, z ≠ .entry a → h'.next z = h.next z)
    (hp : ∀ z, z ≠ .entry a → h'.prev z = h.prev z) : h'.Ring q := by
  have hne : ∀ b ∈ q, Link.entry b ≠ .entry a := fun b hb => Link.entry_ne ha hb
  refine ⟨hr.path.congr ?_ (hp .head nofun) fun b hb => hp _ (hne b hb), hr.nodup⟩
  rintro z (rfl | ⟨b, hb, rfl⟩)
  · exact hn .head nofun
  · exact hn _ (hne b hb)

/-! ## The operations -/

omit [DecidableEq α] in
theorem isSome_val : (h.val a).isSome ↔ (h.entries a).isSome := by rw [val, Option.isSome_map]

omit [DecidableEq α] in
theorem isSome_next : (h.next (.entry a)).isSome ↔ (h.val a).isSome := by
  rw [next, val, Option.isSome_map, Option.isSome_map]

omit [DecidableEq α] in
theorem isSome_prev : (h.prev (.entry a)).isSome ↔ (h.val a).isSome := by
  rw [prev, val, Option.isSome_map, Option.isSome_map]

theorem alloc_spec (hr : h.Ring q) (ha : a ∉ q) (v : β) :
    (h.alloc a v).Ring q ∧ (h.alloc a v).val = Function.update h.val a (some v) := by
  refine ⟨hr.congr ha ?_ ?_, val_update h a _⟩
  · intro z hz
    rw [alloc, next_update, Function.update_of_ne hz]
  · intro z hz
    rw [alloc, prev_update, Function.update_of_ne hz]

theorem free_spec (hr : h.Ring q) (ha : a ∉ q) (hv : (h.val a).isSome) :
    ∃ h', h.free a = some h' ∧ h'.Ring q ∧ h'.val = Function.update h.val a none := by
  obtain ⟨e, he⟩ := Option.isSome_iff_exists.mp (isSome_val.mp hv)
  refine ⟨_, by rw [free, he, Option.map_some], hr.congr ha ?_ ?_, val_update h a none⟩
  · intro z hz
    rw [next_update, Function.update_of_ne hz]
  · intro z hz
    rw [prev_update, Function.update_of_ne hz]

theorem addTail_spec (hr : h.Ring q) (ha : a ∉ q) (hv : (h.val a).isSome) :
    ∃ h', h.addTail a = some h' ∧ h'.Ring (q ++ [a]) ∧ h'.val = h.val := by
  have hlast := hr.path.last
  have hL : lastOf .head q ≠ .entry a := lastOf_ne nofun ha
  obtain ⟨h1, e1, p1, n1, v1⟩ := h.setPrev_spec (x := .head) rfl (.entry a)
  obtain ⟨h2, e2, n2, p2, v2⟩ := h1.setNext_spec (x := .entry a)
    (by rw [n1]; exact isSome_next.mpr hv) .head
  obtain ⟨h3, e3, p3, n3, v3⟩ := h2.setPrev_spec (x := .entry a)
    (by rw [p2, p1, Function.update_of_ne (Link.head_ne a).symm]; exact isSome_prev.mpr hv) (lastOf .head q)
  obtain ⟨h4, e4, n4, p4, v4⟩ := h3.setNext_spec (x := lastOf .head q)
    (by rw [n3, n2, n1, Function.update_of_ne hL, hlast.2]; rfl) (.entry a)
  rw [n3, n2, n1] at n4
  rw [p3, p2, p1] at p4
  refine ⟨h4, ?_, ⟨?_, ?_⟩, by rw [v4, v3, v2, v1]⟩
  · simp only [addTail, hlast.1, e1, e2, e3, e4, Option.bind_eq_bind, Option.bind_some]
  · refine path_append.mpr ⟨?_, ?_, ?_⟩
    · refine hr.path.retarget (fun _ _ => nofun) hr.nodup ?_ ?_ ?_ ?_
      · rw [n4, Function.update_self]
      · rw [p4, Function.update_self]
      · intro z hz hzL
        have hza : z ≠ .entry a := by
          rcases hz with rfl | ⟨b, hb, rfl⟩
          · nofun
          · exact Link.entry_ne ha hb
        rw [n4, Function.update_of_ne hzL, Function.update_of_ne hza]
      · intro b hb
        rw [p4, Function.update_of_ne (Link.entry_ne ha hb),
          Function.update_of_ne (Link.head_ne b).symm]
    · rw [n4, Function.update_of_ne hL.symm, Function.update_self]
    · rw [p4, Function.update_of_ne (Link.head_ne a), Function.update_self]
  · exact List.nodup_append.mpr ⟨hr.nodup, List.nodup_singleton a, fun b hb c hc hbc =>
      ha (List.mem_singleton.mp hc ▸ hbc ▸ hb)⟩

omit [DecidableEq α] in
/-- The links of an entry. -/
theorem Ring.links (hr : h.Ring (q₁ ++ a :: q₂)) :
    h.prev (.entry a) = some (lastOf .head q₁) ∧ h.next (lastOf .head q₁) = some (.entry a) ∧
      h.next (.entry a) = some ((q₂.head?).elim .head .entry) ∧
      h.prev ((q₂.head?).elim .head .entry) = some (.entry a) := by
  obtain ⟨h1, h2⟩ := path_append.mp hr.path
  refine ⟨h1.last.1, h1.last.2, ?_⟩
  cases q₂ with
  | nil => exact h2
  | cons b q₂ => exact ⟨h2.1, h2.2.1⟩

theorem del_spec (hr : h.Ring (q₁ ++ a :: q₂)) :
    ∃ h', h.del a = some h' ∧ h'.Ring (q₁ ++ q₂) ∧ h'.val = h.val := by
  obtain ⟨hprev, hnextP, hnext, hprevN⟩ := hr.links
  obtain ⟨hpath₁, hpath₂⟩ := path_append.mp hr.path
  obtain ⟨hnd₁, hnd₂, hdisj⟩ := List.nodup_append.mp hr.nodup
  obtain ⟨haq₂, hnd₂'⟩ := List.nodup_cons.mp hnd₂
  have haq₁ : a ∉ q₁ := fun hm => hdisj a hm a List.mem_cons_self rfl
  have hdisj' : ∀ b ∈ q₁, b ∉ q₂ := fun b hb hb' => hdisj b hb b (List.mem_cons_of_mem a hb') rfl
  generalize hN : (q₂.head?).elim Link.head Link.entry = N at hnext hprevN
  have hNa : N ≠ .entry a := by
    cases q₂ with
    | nil => rw [← hN]; nofun
    | cons b q₂ =>
      rw [← hN]
      intro heq
      exact haq₂ (Link.entry.inj heq ▸ List.mem_cons_self)
  have hPa : lastOf .head q₁ ≠ .entry a := lastOf_ne nofun haq₁
  obtain ⟨h1, e1, p1, n1, v1⟩ := h.setPrev_spec (x := N) (by rw [hprevN]; rfl) (lastOf .head q₁)
  obtain ⟨h2, e2, n2, p2, v2⟩ := h1.setNext_spec (x := lastOf .head q₁)
    (by rw [n1, hnextP]; rfl) N
  obtain ⟨h3, e3, n3, p3, v3⟩ := h2.setNext_spec (x := .entry a)
    (by rw [n2, n1, Function.update_of_ne hPa.symm, hnext]; rfl) .poison
  obtain ⟨h4, e4, p4, n4, v4⟩ := h3.setPrev_spec (x := .entry a)
    (by rw [p3, p2, p1, Function.update_of_ne hNa.symm, hprev]; rfl) .poison
  rw [n3, n2, n1] at n4
  rw [p3, p2, p1] at p4
  -- the path up to `a` now leads to what was behind `a`
  have hfront : h4.Path .head q₁ N := by
    refine hpath₁.retarget (fun _ _ => nofun) hnd₁ ?_ ?_ ?_ ?_
    · rw [n4, Function.update_of_ne hPa, Function.update_self]
    · rw [p4, Function.update_of_ne hNa, Function.update_self]
    · intro z hz hzP
      have hza : z ≠ .entry a := by
        rcases hz with rfl | ⟨b, hb, rfl⟩
        · nofun
        · exact Link.entry_ne haq₁ hb
      rw [n4, Function.update_of_ne hza, Function.update_of_ne hzP]
    · intro b hb
      have hba : Link.entry b ≠ .entry a := Link.entry_ne haq₁ hb
      have hbN : Link.entry b ≠ N := by
        cases q₂ with
        | nil => rw [← hN]; nofun
        | cons c q₂ =>
          rw [← hN]
          exact fun heq => hdisj' b hb (Link.entry.inj heq ▸ List.mem_cons_self)
      rw [p4, Function.update_of_ne hba, Function.update_of_ne hbN]
  refine ⟨h4, ?_, ⟨?_, ?_⟩, by rw [v4, v3, v2, v1]⟩
  · simp only [del, hprev, hnext, e1, e2, e3, e4, Option.bind_eq_bind, Option.bind_some]
  · cases q₂ with
    | nil =>
      rw [List.append_nil]
      rw [← hN] at hfront
      exact hfront
    | cons b q₂ =>
      obtain ⟨hbq₂, -⟩ := List.nodup_cons.mp hnd₂'
      have hN' : N = .entry b := hN.symm
      rw [hN'] at hfront n4 p4
      refine path_append.mpr ⟨hfront, hpath₂.2.2.congr ?_ ?_ ?_⟩
      · intro z hz
        have hzq : ∃ c ∈ b :: q₂, z = .entry c := by
          rcases hz with rfl | ⟨c, hc, rfl⟩
          · exact ⟨b, List.mem_cons_self, rfl⟩
          · exact ⟨c, List.mem_cons_of_mem b hc, rfl⟩
        obtain ⟨c, hc, rfl⟩ := hzq
        have hca : Link.entry c ≠ .entry a := Link.entry_ne haq₂ hc
        have hcP : Link.entry c ≠ lastOf .head q₁ :=
          (lastOf_ne (Link.head_ne c) fun hm => hdisj' c hm hc).symm
        rw [n4, Function.update_of_ne hca, Function.update_of_ne hcP]
      · rw [p4, Function.update_of_ne (Link.head_ne a), Function.update_of_ne (Link.head_ne b)]
      · intro c hc
        have hca : Link.entry c ≠ .entry a := Link.entry_ne haq₂ (List.mem_cons_of_mem b hc)
        have hcb : Link.entry c ≠ .entry b := Link.entry_ne hbq₂ hc
        rw [p4, Function.update_of_ne hca, Function.update_of_ne hcb]
  · exact List.nodup_append.mpr ⟨hnd₁, hnd₂', fun b hb c hc hbc => hdisj' b hb (hbc ▸ hc)⟩

/-! ## What a list holds -/

/-- The list holds the values `xs`, in order, and nothing else is allocated. -/
def Holds (h : Heap α β) (xs : List β) : Prop :=
  ∃ q, h.Ring q ∧ q.map h.val = xs.map some ∧ ∀ a, (h.val a).isSome → a ∈ q

end Heap

end KernelList
