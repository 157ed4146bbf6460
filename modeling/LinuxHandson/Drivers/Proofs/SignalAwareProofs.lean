import LinuxHandson.Drivers.SignalAware
import Mathlib.Data.List.Perm.Subperm

/-!
# Reads of one write

The flag stays set from the store of a write until some reader clears it. A write is consumed twice
exactly when a second reader looks at the flag between the check and the clearing of the first.
-/

namespace SignalAware

open CLib

variable {r w : Nat} {S S' : State r w} {e : Event r w} {x : Option Reply}

/-! ## What a step can be -/

/-- What a step does to the flag, the history, the writers and the readers that are about to clear. -/
inductive Change (S S' : State r w) (e : Event r w) : Prop where
  /-- No access to the flag. -/
  | quiet (hflag : S'.dataAvailable = S.dataAvailable) (hh : S'.history = S.history)
      (hclear : ∀ j count n, S'.readers j = .clear count n ↔ S.readers j = .clear count n)
      (hset : ∀ k count n, S'.writers k = .set count n → S.writers k = .set count n)
  /-- A write begins. -/
  | begin (k : Fin w) (count : Nat) (hflag : S'.dataAvailable = S.dataAvailable)
      (hh : S'.history = { S.history with begun := S.history.begun + 1 })
      (hclear : S'.readers = S.readers)
      (hw : S'.writers = Function.update S.writers k (.set count (S.history.begun + 1)))
  /-- A write sets the flag. -/
  | set (k : Fin w) (count n : Nat) (hk : S.writers k = .set count n)
      (hh : S'.history = { S.history with lastSet := n }) (hclear : S'.readers = S.readers)
      (hw : S'.writers = Function.update S.writers k (.wake count))
  /-- A reader passes the wait. -/
  | pass (i : Fin r) (signal : Bool) (room count : Nat) (he : e = .reader i signal room)
      (hi : S.readers i = .check count) (hflag : S.dataAvailable ≠ 0) (hS : S' = S.pass i count)
  /-- A reader clears the flag. -/
  | clear (hflag : S'.dataAvailable = 0) (hh : S'.history = S.history) (hw : S'.writers = S.writers)
      (hclear : ∀ j count n, S'.readers j = .clear count n → S.readers j = .clear count n)

/-- A reader that moves between places at which it is not about to clear. -/
theorem Change.reader_moved {i : Fin r} {l : ReaderLoc}
    (hi : ∀ count n, S.readers i ≠ .clear count n) (hl : ∀ count n, l ≠ .clear count n) :
    Change S (S.setReader i l) e := by
  refine .quiet rfl rfl ?_ (fun _ _ _ h => h)
  intro j count n
  by_cases hj : j = i
  · subst hj
    constructor
    · intro h
      exact absurd (by simpa [State.setReader] using h) (hl count n)
    · intro h
      exact absurd h (hi count n)
  · simp [State.setReader, hj]

theorem woken_clear (l : ReaderLoc) (count n : Nat) : l.woken = .clear count n ↔ l = .clear count n := by
  cases l with
  | asleep c => exact ⟨nofun, nofun⟩
  | _ => exact Iff.rfl

theorem sigRead_change {i : Fin r} {signal : Bool} {room : Nat}
    (h : sigRead S i signal room = some (x, S')) : Change S S' (.reader i signal room) := by
  unfold sigRead at h
  split at h
  · cases h
  · next count hi =>
    split at h
    · next hflag =>
      cases h
      exact .pass i signal room count rfl hi hflag rfl
    · split at h
      · cases h
        exact .reader_moved (by rw [hi]; nofun) nofun
      · cases h
        exact .reader_moved (by rw [hi]; nofun) nofun
  · cases h
  · next count n hi =>
    cases h
    refine .clear rfl rfl rfl ?_
    intro j count' n' hj
    by_cases hji : j = i
    · subst hji
      simp [State.setReader] at hj
    · simpa [State.setReader, hji] using hj
  · next count hi =>
    obtain ⟨p, hp, heq⟩ := Option.map_eq_some_iff.mp h
    cases heq
    exact .reader_moved (by rw [hi]; nofun) nofun

theorem sigWrite_change {k : Fin w} (h : sigWrite S k = some (x, S')) : Change S S' (.writer k) := by
  unfold sigWrite at h
  split at h
  · cases h
  · next count n hk =>
    cases h
    exact .set k count n hk rfl rfl rfl
  · next count hk =>
    cases h
    refine .quiet rfl rfl (fun j count n => woken_clear _ count n) ?_
    intro j count n hj
    by_cases hjk : j = k
    · subst hjk
      simp [State.setWriter] at hj
    · simpa [State.setWriter, hjk] using hj

theorem step_change (h : step S e = some (x, S')) : Change S S' e := by
  cases e with
  | read i count =>
    replace h : (if S.readers i = .idle then _ else none) = some (x, S') := h
    split at h
    · next hi =>
      cases h
      exact .reader_moved (by rw [hi]; nofun) nofun
    · cases h
  | reader i signal room => exact sigRead_change h
  | wakeUp i =>
    cases h
    refine .quiet rfl rfl ?_ (fun _ _ _ h => h)
    intro j count n
    by_cases hj : j = i
    · subst hj
      simpa [State.setReader] using woken_clear (S.readers j) count n
    · simp [State.setReader, hj]
  | write k count =>
    replace h : (if S.writers k = .idle then _ else none) = some (x, S') := h
    split at h
    · cases h
      exact .begin k count rfl rfl rfl rfl
    · cases h
  | writer k => exact sigWrite_change h

/-! ## The invariant -/

/-- What a write knows that has begun and not set the flag. -/
structure Unset (S : State r w) (n : Nat) : Prop where
  pos : 1 ≤ n
  begun : n ≤ S.history.begun
  fresh : n ∉ S.history.consumed
  notLast : n ≠ S.history.lastSet

/-- Which writes have been consumed, and which are about to be. -/
structure Inv (S : State r w) : Prop where
  unset : ∀ k count n, S.writers k = .set count n → Unset S n
  distinct : ∀ j k count count' n, S.writers j = .set count n → S.writers k = .set count' n → j = k
  last : S.dataAvailable ≠ 0 → 1 ≤ S.history.lastSet
  lastBegun : S.history.lastSet ≤ S.history.begun
  consumed : ∀ n ∈ S.history.consumed, 1 ≤ n ∧ n ≤ S.history.begun
  /-- A write that has been consumed while the flag is set waits for a reader to clear the flag. -/
  clears : S.dataAvailable ≠ 0 → S.history.lastSet ∈ S.history.consumed → ∃ j, Clears S j
  /-- Readers have consumed what they are about to clear. -/
  passed : ∀ j count n, S.readers j = .clear count n → n ∈ S.history.consumed

theorem inv_start : Inv (start : State r w) :=
  ⟨nofun, nofun, fun h => absurd rfl h, le_rfl, nofun, fun h => absurd rfl h, nofun⟩

theorem Inv.quiet (hS : Inv S) (hflag : S'.dataAvailable = S.dataAvailable)
    (hh : S'.history = S.history)
    (hclear : ∀ j count n, S'.readers j = .clear count n ↔ S.readers j = .clear count n)
    (hset : ∀ k count n, S'.writers k = .set count n → S.writers k = .set count n) : Inv S' := by
  refine ⟨?_, ?_, ?_, ?_, ?_, ?_, ?_⟩
  · intro k count n hk
    obtain ⟨h1, h2, h3, h4⟩ := hS.unset k count n (hset k count n hk)
    exact ⟨h1, hh ▸ h2, hh ▸ h3, hh ▸ h4⟩
  · intro j k count count' n hj hk
    exact hS.distinct j k count count' n (hset j count n hj) (hset k count' n hk)
  · rw [hflag, hh]
    exact hS.last
  · rw [hh]
    exact hS.lastBegun
  · rw [hh]
    exact hS.consumed
  · intro h0 h1
    rw [hflag] at h0
    rw [hh] at h1
    obtain ⟨j, count, hj⟩ := hS.clears h0 h1
    refine ⟨j, count, ?_⟩
    rw [hh]
    exact (hclear j count _).mpr hj
  · intro j count n hj
    rw [hh]
    exact hS.passed j count n ((hclear j count n).mp hj)

theorem Inv.begin (hS : Inv S) {k : Fin w} {count : Nat} (hflag : S'.dataAvailable = S.dataAvailable)
    (hh : S'.history = { S.history with begun := S.history.begun + 1 })
    (hclear : S'.readers = S.readers)
    (hw : S'.writers = Function.update S.writers k (.set count (S.history.begun + 1))) : Inv S' := by
  have hsets : ∀ j count' n, S'.writers j = .set count' n →
      (j = k ∧ n = S.history.begun + 1) ∨ (j ≠ k ∧ S.writers j = .set count' n) := by
    intro j count' n hj
    rw [hw] at hj
    by_cases hjk : j = k
    · subst hjk
      rw [Function.update_self] at hj
      cases hj
      exact .inl ⟨rfl, rfl⟩
    · rw [Function.update_of_ne hjk] at hj
      exact .inr ⟨hjk, hj⟩
  have hlast : S'.history.lastSet = S.history.lastSet := by rw [hh]
  have hcons : S'.history.consumed = S.history.consumed := by rw [hh]
  have hbegun : S'.history.begun = S.history.begun + 1 := by rw [hh]
  refine ⟨?_, ?_, ?_, ?_, ?_, ?_, ?_⟩
  · intro j count' n hj
    rcases hsets j count' n hj with ⟨-, rfl⟩ | ⟨-, hj⟩
    · refine ⟨Nat.le_add_left 1 _, hbegun.ge, ?_, ?_⟩
      · intro hmem
        rw [hcons] at hmem
        exact Nat.not_succ_le_self _ (hS.consumed _ hmem).2
      · have := hS.lastBegun
        omega
    · obtain ⟨h1, h2, h3, h4⟩ := hS.unset j count' n hj
      exact ⟨h1, by omega, hcons ▸ h3, hlast ▸ h4⟩
  · intro i j count' count'' n hi hj
    rcases hsets i count' n hi with ⟨hik, hn⟩ | ⟨hik, hi⟩
    · rcases hsets j count'' n hj with ⟨hjk, -⟩ | ⟨-, hj⟩
      · exact hik.trans hjk.symm
      · have := (hS.unset j count'' n hj).begun
        omega
    · rcases hsets j count'' n hj with ⟨hjk, hn⟩ | ⟨-, hj⟩
      · have := (hS.unset i count' n hi).begun
        omega
      · exact hS.distinct i j count' count'' n hi hj
  · rw [hflag, hlast]
    exact hS.last
  · have := hS.lastBegun
    omega
  · intro n hn
    rw [hcons] at hn
    have := hS.consumed n hn
    omega
  · intro h0 h1
    rw [hflag] at h0
    rw [hlast, hcons] at h1
    obtain ⟨j, count', hj⟩ := hS.clears h0 h1
    refine ⟨j, count', ?_⟩
    rw [hclear, hlast]
    exact hj
  · intro j count' n hj
    rw [hclear] at hj
    rw [hcons]
    exact hS.passed j count' n hj

theorem Inv.set (hS : Inv S) {k : Fin w} {count n : Nat} (hk : S.writers k = .set count n)
    (hh : S'.history = { S.history with lastSet := n }) (hclear : S'.readers = S.readers)
    (hw : S'.writers = Function.update S.writers k (.wake count)) : Inv S' := by
  have hsets : ∀ j count' m, S'.writers j = .set count' m → j ≠ k ∧ S.writers j = .set count' m := by
    intro j count' m hj
    rw [hw] at hj
    by_cases hjk : j = k
    · subst hjk
      rw [Function.update_self] at hj
      cases hj
    · rw [Function.update_of_ne hjk] at hj
      exact ⟨hjk, hj⟩
  have hcons : S'.history.consumed = S.history.consumed := by rw [hh]
  have hbegun : S'.history.begun = S.history.begun := by rw [hh]
  have hlast : S'.history.lastSet = n := by rw [hh]
  have hn := hS.unset k count n hk
  refine ⟨?_, ?_, ?_, ?_, ?_, ?_, ?_⟩
  · intro j count' m hj
    obtain ⟨hjk, hj⟩ := hsets j count' m hj
    obtain ⟨h1, h2, h3, -⟩ := hS.unset j count' m hj
    refine ⟨h1, hbegun ▸ h2, hcons ▸ h3, ?_⟩
    intro hm
    rw [hlast] at hm
    subst hm
    exact hjk (hS.distinct j k count' count m hj hk)
  · intro i j count' count'' m hi hj
    exact hS.distinct i j count' count'' m (hsets i count' m hi).2 (hsets j count'' m hj).2
  · intro _
    rw [hlast]
    exact hn.pos
  · rw [hlast, hbegun]
    exact hn.begun
  · rw [hcons, hbegun]
    exact hS.consumed
  · intro _ hmem
    rw [hlast, hcons] at hmem
    exact absurd hmem hn.fresh
  · intro j count' m hj
    rw [hclear] at hj
    rw [hcons]
    exact hS.passed j count' m hj

theorem Inv.pass (hS : Inv S) {i : Fin r} {count : Nat} (hi : S.readers i = .check count)
    (hflag : S.dataAvailable ≠ 0) : Inv (S.pass i count) := by
  refine ⟨?_, hS.distinct, hS.last, hS.lastBegun, ?_, ?_, ?_⟩
  · intro k count' n hk
    obtain ⟨h1, h2, h3, h4⟩ := hS.unset k count' n hk
    refine ⟨h1, h2, ?_, h4⟩
    intro hmem
    rcases List.mem_append.mp hmem with hmem | hmem
    · exact h3 hmem
    · exact h4 (List.mem_singleton.mp hmem)
  · intro n hn
    rcases List.mem_append.mp hn with hn | hn
    · exact hS.consumed n hn
    · rw [List.mem_singleton.mp hn]
      exact ⟨hS.last hflag, hS.lastBegun⟩
  · intro _ _
    exact ⟨i, count, Function.update_self _ _ _⟩
  · intro j count' n hj
    by_cases hji : j = i
    · subst hji
      have hj' : ReaderLoc.clear count S.history.lastSet = .clear count' n := by
        simpa [State.pass, State.setReader] using hj
      cases hj'
      exact List.mem_append.mpr (.inr (List.mem_singleton.mpr rfl))
    · have hj' : S.readers j = .clear count' n := by
        simpa [State.pass, State.setReader, hji] using hj
      exact List.mem_append.mpr (.inl (hS.passed j count' n hj'))

theorem Inv.clear (hS : Inv S) (hflag : S'.dataAvailable = 0) (hh : S'.history = S.history)
    (hw : S'.writers = S.writers)
    (hclear : ∀ j count n, S'.readers j = .clear count n → S.readers j = .clear count n) : Inv S' := by
  refine ⟨?_, ?_, fun h => absurd hflag h, ?_, ?_, fun h => absurd hflag h, ?_⟩
  · intro k count n hk
    rw [hw] at hk
    obtain ⟨h1, h2, h3, h4⟩ := hS.unset k count n hk
    exact ⟨h1, hh ▸ h2, hh ▸ h3, hh ▸ h4⟩
  · rw [hw]
    exact hS.distinct
  · rw [hh]
    exact hS.lastBegun
  · rw [hh]
    exact hS.consumed
  · intro j count n hj
    rw [hh]
    exact hS.passed j count n (hclear j count n hj)

theorem Inv.step (hS : Inv S) (h : step S e = some (x, S')) : Inv S' := by
  cases step_change h with
  | quiet hflag hh hclear hset => exact hS.quiet hflag hh hclear hset
  | begin k count hflag hh hclear hw => exact hS.begin hflag hh hclear hw
  | set k count n hk hh hclear hw => exact hS.set hk hh hclear hw
  | pass i signal room count he hi hflag hS' =>
    subst hS'
    exact hS.pass hi hflag
  | clear hflag hh hw hclear => exact hS.clear hflag hh hw hclear

/-! ## One read for each write -/

/-- Reads of different writes are at most as many as the writes that have begun. -/
theorem Inv.bound (hS : Inv S) (h : S.history.consumed.Nodup) :
    S.history.consumed.length ≤ S.history.begun := by
  have hsub : S.history.consumed ⊆ List.range' 1 S.history.begun := by
    intro n hn
    have := hS.consumed n hn
    rw [List.mem_range'_1]
    omega
  have hle := (h.subperm hsub).length_le
  rwa [List.length_range'] at hle

theorem ConsumedOnce.step (hS : ConsumedOnce S) (hI : Inv S) (hg : OneAtATime S e)
    (h : SignalAware.step S e = some (x, S')) : ConsumedOnce S' ∧ Inv S' := by
  have hinv := hI.step h
  have hkeep : S'.history.consumed = S.history.consumed → ConsumedOnce S' := by
    intro hcons
    have hnodup : S'.history.consumed.Nodup := by
      rw [hcons]
      exact hS.once
    exact ⟨hnodup, hinv.bound hnodup⟩
  refine ⟨?_, hinv⟩
  cases step_change h with
  | quiet hflag hh hclear hset => exact hkeep (by rw [hh])
  | begin k count hflag hh hclear hw => exact hkeep (by rw [hh])
  | set k count n hk hh hclear hw => exact hkeep (by rw [hh])
  | clear hflag hh hw hclear => exact hkeep (by rw [hh])
  | pass i signal room count he hi hflag hS' =>
    have hfresh : S.history.lastSet ∉ S.history.consumed := by
      intro hmem
      obtain ⟨j, hj⟩ := hI.clears hflag hmem
      exact hg i signal room count he hi hflag j hj
    have hnodup : S'.history.consumed.Nodup := by
      rw [hS']
      show (S.history.consumed ++ [S.history.lastSet]).Nodup
      exact List.nodup_append.mpr ⟨hS.once, List.nodup_singleton _, by
        rintro a ha b hb rfl
        rw [List.mem_singleton.mp hb] at ha
        exact hfresh ha⟩
    exact ⟨hnodup, hinv.bound hnodup⟩

/-- A reader that passes while another one is about to clear the flag consumes the same write. -/
theorem oneAtATime_of_consumedOnce (hS : Inv S)
    (h : ∀ x S', SignalAware.step S e = some (x, S') → ConsumedOnce S') : OneAtATime S e := by
  rintro i signal room count rfl hi hflag j ⟨count', hj⟩
  have hstep : SignalAware.step S (.reader i signal room) = some (none, S.pass i count) := by
    show sigRead S i signal room = _
    rw [sigRead, hi]
    exact if_pos hflag
  have hnodup : (S.history.consumed ++ [S.history.lastSet]).Nodup := (h _ _ hstep).once
  have hmem := hS.passed j count' _ hj
  exact (List.nodup_append.mp hnodup).2.2 _ hmem _ (List.mem_singleton.mpr rfl) rfl

/-- In a run of any number of readers and writers no write is ever consumed by two reads, and no more
reads than writes have consumed data, exactly if no reader ever finds the flag set while another one is
about to clear it. -/
theorem consumed_once_iff (r w : Nat) (es : List (Event r w)) :
    Machine.Always step ConsumedOnce start es ↔ Machine.Legal step OneAtATime start es := by
  refine Machine.always_iff_legal (fun S (hS : ConsumedOnce S ∧ Inv S) => hS.1) ?_ ?_ es start
    ⟨⟨List.nodup_nil, le_rfl⟩, inv_start⟩
  · intro S e x S' hS hg h
    exact hS.1.step hS.2 hg h
  · intro S e hS h
    exact oneAtATime_of_consumedOnce hS.2 h

/-- Two readers sleep; one write wakes both, and both look at the flag before either clears it. -/
def oneWriteTwoReads : List (Event 2 1) :=
  [.read ⟨0, Nat.two_pos⟩ 5, .read ⟨1, Nat.one_lt_two⟩ 5, .reader ⟨0, Nat.two_pos⟩ false 5,
    .reader ⟨1, Nat.one_lt_two⟩ false 5, .write ⟨0, Nat.one_pos⟩ 1, .writer ⟨0, Nat.one_pos⟩,
    .writer ⟨0, Nat.one_pos⟩, .reader ⟨0, Nat.two_pos⟩ false 5, .reader ⟨1, Nat.one_lt_two⟩ false 5]

theorem write_consumed_twice :
    ∃ xs S, Machine.exec step (start : State 2 1) oneWriteTwoReads = some (xs, S) ∧
      S.history.begun = 1 ∧ S.history.consumed = [1, 1] ∧
        ¬ Machine.Always step ConsumedOnce (start : State 2 1) oneWriteTwoReads := by
  refine ⟨_, _, rfl, rfl, rfl, ?_⟩
  intro h
  exact absurd (h.last rfl).bound (by decide)

end SignalAware
