import Mathlib.Data.List.Basic

/-!
# A socket that receives packets

The packets that arrive at a datagram or raw socket wait there in the order in which they came, until
they are read, one at a time. A read that finds none waits for one until it gives up.
-/

namespace Datagram

variable {α : Type}

/-- A packet and when it arrives. -/
structure Arrival (α : Type) where
  time : Nat
  packet : α

/-- The packets that have not been read, those that have yet to arrive included. -/
structure Inbox (α : Type) where
  unread : List (Arrival α)
  /-- They are in the order of their arrival. -/
  ordered : unread.Pairwise fun a b => a.time ≤ b.time

/-- A read that gives up at the time `giveUp`: the packet that it returns, if any, and what remains. -/
def Inbox.recv (i : Inbox α) (giveUp : Nat) : Option (Arrival α) × Inbox α :=
  match i with
  | ⟨[], h⟩ => (none, ⟨[], h⟩)
  | ⟨a :: rest, h⟩ =>
    if a.time ≤ giveUp then (some a, ⟨rest, (List.pairwise_cons.mp h).2⟩) else (none, ⟨a :: rest, h⟩)

section Recv

variable {i i' : Inbox α} {giveUp : Nat} {a : Arrival α}

/-- A read returns the first of the unread packets, which has arrived in time. -/
theorem Inbox.recv_some (h : i.recv giveUp = (some a, i')) :
    i.unread = a :: i'.unread ∧ a.time ≤ giveUp := by
  obtain ⟨unread, hord⟩ := i
  cases unread with
  | nil => cases h
  | cons b rest =>
    rw [Inbox.recv] at h
    split at h
    · next hb =>
      cases h
      exact ⟨rfl, hb⟩
    · cases h

/-- A read gives up when no packet arrives in time. -/
theorem Inbox.recv_none (h : i.recv giveUp = (none, i')) : ∀ a ∈ i.unread, ¬ a.time ≤ giveUp := by
  obtain ⟨unread, hord⟩ := i
  cases unread with
  | nil => nofun
  | cons b rest =>
    rw [Inbox.recv] at h
    split at h
    · cases h
    · next hb =>
      intro a ha hle
      rcases List.mem_cons.mp ha with rfl | ha
      · exact hb hle
      · exact hb (Nat.le_trans ((List.pairwise_cons.mp hord).1 a ha) hle)

end Recv

end Datagram
