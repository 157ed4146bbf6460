import Mathlib.Data.Fintype.Basic
import Mathlib.Data.List.Basic
import Mathlib.Logic.Function.Basic

/-!
# Read-copy-update

Readers open and close read-side sections. A grace period that begins now is over when every section
that is open now has been closed; a callback runs after a grace period that began when it was queued.
A clock that ticks at every opening tells the sections that were open at a moment from the later ones.

What readers hold in their sections is protected from a callback as long as nobody takes hold of it
after the callback is queued.
-/

namespace Rcu

variable {ι κ : Type}

/-- A callback, with what it is about and the moment at which it was queued. -/
structure Callback (κ : Type) where
  head : κ
  queued : Nat
deriving DecidableEq

/-- The readers' sections and the callbacks that have not run. -/
structure State (ι κ : Type) where
  /-- The moment at which the open section of a reader began. -/
  opened : ι → Option Nat
  clock : Nat
  callbacks : List (Callback κ)

/-- No section is open and no callback is queued. -/
def State.quiet : State ι κ := ⟨fun _ => none, 0, []⟩

/-- `rcu_read_unlock` of reader `i`. -/
def State.readUnlock [DecidableEq ι] (s : State ι κ) (i : ι) : State ι κ :=
  { s with opened := Function.update s.opened i none }

/-- `rcu_read_lock` of reader `i`. -/
def State.readLock [DecidableEq ι] (s : State ι κ) (i : ι) : State ι κ :=
  { s with opened := Function.update s.opened i (some s.clock), clock := s.clock + 1 }

/-- `call_rcu` -/
def State.callRcu (s : State ι κ) (head : κ) : State ι κ :=
  { s with callbacks := s.callbacks ++ [⟨head, s.clock⟩] }

/-- The callback `c` leaves the queue. -/
def State.dequeue [DecidableEq κ] (s : State ι κ) (c : Callback κ) : State ι κ :=
  { s with callbacks := s.callbacks.erase c }

/-- The grace period that began at `t` is over. -/
def State.Elapsed (s : State ι κ) (t : Nat) : Prop := ∀ i, ∀ b ∈ s.opened i, t ≤ b

instance [Fintype ι] (s : State ι κ) (t : Nat) : Decidable (s.Elapsed t) :=
  inferInstanceAs (Decidable (∀ i, ∀ b ∈ s.opened i, t ≤ b))

/-- What waits to be reclaimed. -/
def State.heads (s : State ι κ) : List κ := s.callbacks.map Callback.head

/-- Readers hold things only in open sections, which were open before any callback for what they
hold was queued. -/
structure Protects (s : State ι κ) (Holds : ι → κ → Prop) : Prop where
  past : ∀ i, ∀ b ∈ s.opened i, b < s.clock
  inside : ∀ i k, Holds i k → (s.opened i).isSome = true
  waits : ∀ c ∈ s.callbacks, ∀ i, Holds i c.head → ∃ b ∈ s.opened i, b < c.queued

section Protects

variable {s : State ι κ} {Holds Holds' : ι → κ → Prop}

theorem protects_quiet (h : ∀ i k, ¬ Holds i k) : Protects (State.quiet : State ι κ) Holds := by
  refine ⟨?_, ?_, ?_⟩
  · intro i b hb
    cases hb
  · intro i k hk
    exact absurd hk (h i k)
  · intro c hc
    cases hc

/-- Readers may let things go. -/
theorem Protects.mono (h : Protects s Holds) (hle : ∀ i k, Holds' i k → Holds i k) :
    Protects s Holds' :=
  ⟨h.past, fun i k hk => h.inside i k (hle i k hk), fun c hc i hk => h.waits c hc i (hle i _ hk)⟩

/-- A reader may take hold of what no callback is queued for. -/
theorem Protects.fetch (h : Protects s Holds) {i : ι} {k : κ} (hi : (s.opened i).isSome = true)
    (hk : k ∉ s.heads) (hle : ∀ j l, Holds' j l → Holds j l ∨ (j = i ∧ l = k)) :
    Protects s Holds' := by
  refine ⟨h.past, ?_, ?_⟩
  · intro j l hl
    rcases hle j l hl with hl | ⟨rfl, -⟩
    · exact h.inside j l hl
    · exact hi
  · intro c hc j hj
    rcases hle j c.head hj with hj | ⟨-, hck⟩
    · exact h.waits c hc j hj
    · exact absurd (List.mem_map.mpr ⟨c, hc, hck⟩) hk

theorem Protects.callRcu (h : Protects s Holds) (k : κ) : Protects (s.callRcu k) Holds := by
  refine ⟨h.past, h.inside, ?_⟩
  intro c hc i hi
  rcases List.mem_append.mp hc with hc | hc
  · exact h.waits c hc i hi
  · rw [List.mem_singleton.mp hc] at hi ⊢
    obtain ⟨b, hb⟩ := Option.isSome_iff_exists.mp (h.inside i k hi)
    exact ⟨b, hb, h.past i b hb⟩

theorem Protects.dequeue [DecidableEq κ] (h : Protects s Holds) (c : Callback κ) :
    Protects (s.dequeue c) Holds :=
  ⟨h.past, h.inside, fun d hd i hi => h.waits d (List.mem_of_mem_erase hd) i hi⟩

/-- What a callback is about is held by nobody once the grace period of the callback is over. -/
theorem Protects.not_holds (h : Protects s Holds) {c : Callback κ} (hc : c ∈ s.callbacks)
    (he : s.Elapsed c.queued) (i : ι) : ¬ Holds i c.head := by
  intro hi
  obtain ⟨b, hb, hlt⟩ := h.waits c hc i hi
  exact absurd (he i b hb) (Nat.not_le.mpr hlt)

variable [DecidableEq ι]

theorem Protects.readLock (h : Protects s Holds) {i : ι} (hi : ∀ k, ¬ Holds i k) :
    Protects (s.readLock i) Holds := by
  have hother : ∀ j k, Holds j k → j ≠ i := by
    rintro j k hk rfl
    exact hi k hk
  refine ⟨?_, ?_, ?_⟩
  · intro j b hb
    show b < s.clock + 1
    by_cases hj : j = i
    · subst hj
      have hb' : some s.clock = some b := by simpa [State.readLock] using hb
      cases hb'
      exact Nat.lt_succ_self _
    · have hb' : b ∈ s.opened j := by simpa [State.readLock, hj] using hb
      exact Nat.lt_succ_of_lt (h.past j b hb')
  · intro j k hk
    simpa [State.readLock, hother j k hk] using h.inside j k hk
  · intro c hc j hk
    obtain ⟨b, hb, hlt⟩ := h.waits c hc j hk
    refine ⟨b, ?_, hlt⟩
    simpa [State.readLock, hother j c.head hk] using hb

theorem Protects.readUnlock (h : Protects s Holds) {i : ι}
    (hle : ∀ j k, Holds' j k → Holds j k ∧ j ≠ i) : Protects (s.readUnlock i) Holds' := by
  refine ⟨?_, ?_, ?_⟩
  · intro j b hb
    by_cases hj : j = i
    · subst hj
      simp [State.readUnlock] at hb
    · exact h.past j b (by simpa [State.readUnlock, hj] using hb)
  · intro j k hk
    obtain ⟨hk, hj⟩ := hle j k hk
    simpa [State.readUnlock, hj] using h.inside j k hk
  · intro c hc j hk
    obtain ⟨hk, hj⟩ := hle j c.head hk
    obtain ⟨b, hb, hlt⟩ := h.waits c hc j hk
    refine ⟨b, ?_, hlt⟩
    simpa [State.readUnlock, hj] using hb

end Protects

end Rcu
