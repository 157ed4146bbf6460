import LinuxHandson.Threads.Proofs.RcuDemoProofs

/-!
# Callbacks at the unload

After the writer has been stopped nothing is queued any more, and nothing in `rcu_demo_exit` waits for
a callback. So the callbacks that are pending at that moment may be pending still when the module is
unloaded: the readers and `rcu_demo_exit` can go on to their ends without them.
-/

namespace RcuDemo

open Kthread

variable {n : Nat} {S S' : State n} {e : Event n} {r : Unit}

/-! ## No callback is left if none was pending -/

theorem readerFn_callbacks {i : Fin n} {b : Bool} {l : ReaderLoc} {s s' : Shared n}
    {next : Option ReaderLoc} (h : readerFn i b l s = some (next, s')) :
    s'.rcu.callbacks = s.rcu.callbacks := by
  cases l <;> cases h <;> rfl

theorem reader_callbacks {i : Fin n} {t t' : Thread ReaderLoc} {s s' : Shared n}
    (h : t.step .test (readerFn i) s = some (t', s')) : s'.rcu.callbacks = s.rcu.callbacks := by
  cases Thread.step_moves h with
  | skip ht hstop => rfl
  | enter ht hstop => rfl
  | body ht hb => exact readerFn_callbacks hb

theorem kfreeLast_rcu (s : Shared n) (last : Option Nat) : (s.kfreeLast last).rcu = s.rcu := by
  cases last <;> rfl

/-- No step of `rcu_demo_exit` touches the callbacks, nor sets an ended writer going again. -/
theorem exit_frame (h : rcuDemoExit S = some S') :
    S'.shared.rcu.callbacks = S.shared.rcu.callbacks ∧ (S.writer.Ended → S'.writer.Ended) := by
  unfold rcuDemoExit at h
  split at h
  · cases h
    exact ⟨rfl, (Thread.ended_stop S.writer).mpr⟩
  · split at h
    · cases h
      exact ⟨rfl, id⟩
    · cases h
  · split at h
    · cases h
      exact ⟨rfl, id⟩
    · cases h
      exact ⟨rfl, id⟩
  · split at h
    · split at h
      · cases h
        exact ⟨rfl, id⟩
      · cases h
    · cases h
  · split at h
    · cases h
      exact ⟨rfl, id⟩
    · cases h
  · cases h
    exact ⟨rfl, id⟩
  · cases h
    exact ⟨congrArg _ (kfreeLast_rcu _ _), id⟩
  · cases h

theorem exit_stopWriter (hx : S.exit = .stopWriter) (h : rcuDemoExit S = some S') :
    S'.exit = .joinWriter := by
  rw [rcuDemoExit, hx] at h
  cases h
  rfl

/-- `kthread_stop(writer_thread)` returns only when the writer has ended. -/
theorem exit_joinWriter (hx : S.exit = .joinWriter) (h : rcuDemoExit S = some S') : S.writer.Ended := by
  rw [rcuDemoExit, hx] at h
  by_contra hw
  rw [if_neg hw] at h
  cases h

/-- Nothing is queued, and nobody is left to queue anything. -/
def Empty (S : State n) : Prop := S.writer.Ended ∧ S.shared.rcu.callbacks = []

theorem Empty.step (h : Empty S) (hs : step S e = some (r, S')) : Empty S' := by
  cases e with
  | reader i =>
    obtain ⟨⟨t, s⟩, hp, heq⟩ := Option.map_eq_some_iff.mp hs
    obtain ⟨-, rfl⟩ := Prod.mk.inj heq
    exact ⟨h.1, (reader_callbacks hp).trans h.2⟩
  | writer ok =>
    obtain ⟨⟨t, s⟩, hp, heq⟩ := Option.map_eq_some_iff.mp hs
    rw [h.1.step_eq_none] at hp
    cases hp
  | callback c =>
    obtain ⟨s, hp, heq⟩ := Option.map_eq_some_iff.mp hs
    unfold myRcuFree at hp
    split at hp
    · next hc =>
      rw [h.2] at hc
      cases hc.1
    · cases hp
  | exit =>
    obtain ⟨T, hp, heq⟩ := Option.map_eq_some_iff.mp hs
    obtain ⟨-, rfl⟩ := Prod.mk.inj heq
    obtain ⟨hcb, hw⟩ := exit_frame hp
    exact ⟨hw h.1, hcb.trans h.2⟩

/-- After the writer has been joined nothing is queued. -/
def Drained (S : State n) : Prop := S.exit ≠ .stopWriter → S.exit ≠ .joinWriter → Empty S

theorem Drained.step (hS : Drained S) (hg : DrainedAtJoin S e) (hs : step S e = some (r, S')) :
    Drained S' := by
  by_cases h1 : S.exit = .stopWriter ∨ S.exit = .joinWriter
  · cases e with
    | reader i =>
      obtain ⟨⟨t, s⟩, hp, heq⟩ := Option.map_eq_some_iff.mp hs
      obtain ⟨-, rfl⟩ := Prod.mk.inj heq
      intro h2 h3
      exact absurd h1 (not_or.mpr ⟨h2, h3⟩)
    | writer ok =>
      obtain ⟨⟨t, s⟩, hp, heq⟩ := Option.map_eq_some_iff.mp hs
      obtain ⟨-, rfl⟩ := Prod.mk.inj heq
      intro h2 h3
      exact absurd h1 (not_or.mpr ⟨h2, h3⟩)
    | callback c =>
      obtain ⟨s, hp, heq⟩ := Option.map_eq_some_iff.mp hs
      obtain ⟨-, rfl⟩ := Prod.mk.inj heq
      intro h2 h3
      exact absurd h1 (not_or.mpr ⟨h2, h3⟩)
    | exit =>
      obtain ⟨T, hp, heq⟩ := Option.map_eq_some_iff.mp hs
      obtain ⟨-, rfl⟩ := Prod.mk.inj heq
      obtain ⟨hcb, hw⟩ := exit_frame hp
      intro _ h3
      rcases h1 with h1 | h1
      · exact absurd (exit_stopWriter h1 hp) h3
      · have hend := exit_joinWriter h1 hp
        exact ⟨hw hend, hcb.trans (hg rfl h1 hend)⟩
  · obtain ⟨h2, h3⟩ := not_or.mp h1
    exact fun _ _ => (hS h2 h3).step hs

theorem drained_start : Drained (start : State n) := fun h _ => absurd rfl h

/-! ## Readers that have been asked to stop come to their ends -/

/-- The reader is in its section. -/
def inside : Place ReaderLoc → Bool
  | .running .dereference => true
  | .running (.print _) => true
  | .running (.unlock _) => true
  | _ => false

/-- All threads exist, and readers outside their sections have closed them. -/
structure Tidy (S : State n) : Prop where
  present : ∀ i, (S.readers i).place ≠ .absent
  closed : ∀ i, inside (S.readers i).place = false → S.shared.rcu.opened i = none

theorem tidy_start : Tidy (start : State n) := ⟨fun _ => nofun, fun _ _ => rfl⟩

/-- Reader `i` moves to `t`, and the section of no other reader changes. -/
theorem Tidy.moved (h : Tidy S) {i : Fin n} {t : Thread ReaderLoc} {s : Shared n}
    (ht : t.place ≠ .absent) (hother : ∀ j ≠ i, s.rcu.opened j = S.shared.rcu.opened j)
    (hi : inside t.place = false → s.rcu.opened i = none) :
    Tidy { S with readers := Function.update S.readers i t, shared := s } := by
  refine ⟨?_, ?_⟩
  · intro j
    by_cases hj : j = i
    · subst hj
      simpa using ht
    · simpa [hj] using h.present j
  · intro j hj
    by_cases hji : j = i
    · subst hji
      exact hi (by simpa using hj)
    · rw [hother j hji]
      exact h.closed j (by simpa [hji] using hj)

theorem Tidy.reader (h : Tidy S) {i : Fin n} {t : Thread ReaderLoc} {s : Shared n}
    (hs : (S.readers i).step .test (readerFn i) S.shared = some (t, s)) :
    Tidy { S with readers := Function.update S.readers i t, shared := s } := by
  have hsame : inside (S.readers i).place = false → S.shared.rcu.opened i = none := h.closed i
  have hne := Thread.step_ne_absent hs
  cases Thread.step_moves hs with
  | skip ht hstop => exact h.moved hne (fun _ _ => rfl) fun _ => hsame (by rw [ht]; rfl)
  | enter ht hstop => exact h.moved hne (fun _ _ => rfl) fun _ => hsame (by rw [ht]; rfl)
  | @body l next s' ht hb =>
    cases l with
    | test =>
      obtain ⟨rfl, rfl⟩ := Prod.mk.inj (Option.some.inj hb)
      exact h.moved hne (fun _ _ => rfl) fun _ => hsame (by rw [ht]; rfl)
    | lock =>
      cases hb
      refine h.moved hne ?_ fun hout => by cases hout
      intro j hj
      simp [Rcu.State.readLock, hj]
    | dereference =>
      cases hb
      exact h.moved hne (fun _ _ => rfl) fun hout => by cases hout
    | print d =>
      cases hb
      exact h.moved hne (fun _ _ => rfl) fun hout => by cases hout
    | unlock d =>
      cases hb
      refine h.moved hne ?_ ?_
      · intro j hj
        simp [Rcu.State.readUnlock, hj]
      · intro _
        simp [Rcu.State.readUnlock]
    | sleep =>
      cases hb
      exact h.moved hne (fun _ _ => rfl) fun _ => hsame (by rw [ht]; rfl)

/-- How far a reader that has been asked to stop is from its end. -/
def remaining : Place ReaderLoc → Nat
  | .running .lock => 6
  | .running .dereference => 5
  | .running (.print _) => 4
  | .running (.unlock _) => 3
  | .running .sleep => 2
  | .running .test => 1
  | .created => 1
  | _ => 0

/-- The next step of a reader that has been asked to stop. -/
theorem reader_step (hS : Tidy S) {i : Fin n} (hstop : (S.readers i).shouldStop = true)
    (hrun : ¬ (S.readers i).Ended) :
    ∃ t s, (S.readers i).step .test (readerFn i) S.shared = some (t, s) ∧ t.shouldStop = true ∧
      remaining t.place < remaining (S.readers i).place := by
  rcases hi : S.readers i with ⟨p, b⟩
  have hpresent := hS.present i
  rw [hi] at hstop hrun hpresent
  cases hstop
  cases p with
  | absent => exact absurd rfl hpresent
  | created => exact ⟨_, _, rfl, rfl, Nat.one_pos⟩
  | skipped => exact absurd (.inl rfl) hrun
  | returned => exact absurd (.inr rfl) hrun
  | running l =>
    cases l with
    | test => exact ⟨_, _, rfl, rfl, Nat.one_pos⟩
    | lock => exact ⟨_, _, rfl, rfl, Nat.lt_succ_self 5⟩
    | dereference => exact ⟨_, _, rfl, rfl, Nat.lt_succ_self 4⟩
    | print d => exact ⟨_, _, rfl, rfl, Nat.lt_succ_self 3⟩
    | unlock d => exact ⟨_, _, rfl, rfl, Nat.lt_succ_self 2⟩
    | sleep => exact ⟨_, _, rfl, rfl, Nat.lt_succ_self 1⟩

/-! ## The unload without the callbacks -/

/-- From `S` the module can be unloaded before any callback runs. -/
def Unloads (S : State n) : Prop :=
  ∃ es rs T, Machine.exec step S es = some (rs, T) ∧ T.exit = .returned ∧
    T.shared.rcu.callbacks = S.shared.rcu.callbacks

theorem Unloads.cons (h : Unloads S') (hs : step S e = some (r, S'))
    (hcb : S'.shared.rcu.callbacks = S.shared.rcu.callbacks) : Unloads S := by
  obtain ⟨es, rs, T, he, hx, hT⟩ := h
  refine ⟨e :: es, r :: rs, T, ?_, hx, hT.trans hcb⟩
  rw [Machine.exec_cons es hs, he]
  rfl

theorem Unloads.exit (h : Unloads S') (hs : rcuDemoExit S = some S')
    (hcb : S'.shared.rcu.callbacks = S.shared.rcu.callbacks) : Unloads S := by
  refine h.cons (e := .exit) (r := ()) ?_ hcb
  show (rcuDemoExit S).map _ = _
  rw [hs]
  rfl

/-- The readers have ended, and `rcu_demo_exit` is about to call `synchronize_rcu`. -/
theorem unloads_of_all_stopped (hS : Tidy S) (hx : S.exit = .stopReader n)
    (hend : ∀ i, (S.readers i).Ended) : Unloads S := by
  have helapsed : S.shared.rcu.Elapsed S.shared.rcu.clock := by
    intro i b hb
    have hout : inside (S.readers i).place = false := by
      rcases hend i with hp | hp
      · rw [hp]
        rfl
      · rw [hp]
        rfl
    rw [hS.closed i hout] at hb
    cases hb
  let S1 : State n := { S with exit := .synchronize S.shared.rcu.clock }
  let S2 : State n := { S with exit := .fetchLast }
  let S3 : State n := { S with exit := .free S.shared.globalData }
  let S4 : State n :=
    { S with exit := .returned, shared := S.shared.kfreeLast S.shared.globalData }
  have h4 : Unloads S4 := ⟨[], [], S4, rfl, rfl, rfl⟩
  have h3 : Unloads S3 := h4.exit rfl (congrArg _ (kfreeLast_rcu S.shared S.shared.globalData))
  have h2 : Unloads S2 := h3.exit rfl rfl
  have h1 : Unloads S1 := h2.exit (if_pos helapsed) rfl
  refine h1.exit ?_ rfl
  rw [rcuDemoExit, hx]
  exact dif_neg (Nat.lt_irrefl n)

/-- In `kthread_stop` of reader `k`, the reader goes on to its end. -/
theorem unloads_of_joining {k : Nat} (hk : k < n)
    (hnext : ∀ T : State n, Tidy T → T.exit = .stopReader (k + 1) →
      (∀ i : Fin n, i < k + 1 → (T.readers i).Ended) → Unloads T) :
    ∀ d (S : State n), Tidy S → S.exit = .joinReader k →
      (∀ i : Fin n, i < k → (S.readers i).Ended) → (S.readers ⟨k, hk⟩).shouldStop = true →
        remaining (S.readers ⟨k, hk⟩).place ≤ d → Unloads S := by
  intro d
  induction d with
  | zero =>
    intro S hS hx hdone hstop hd
    by_cases hend : (S.readers ⟨k, hk⟩).Ended
    · let S1 : State n := { S with exit := .stopReader (k + 1) }
      have h1 : Unloads S1 := by
        exact hnext S1 ⟨hS.present, hS.closed⟩ rfl (ended_succ hdone hk hend)
      refine h1.exit ?_ rfl
      rw [rcuDemoExit, hx]
      exact (dif_pos hk).trans (if_pos hend)
    · obtain ⟨t, s, -, -, hlt⟩ := reader_step hS hstop hend
      omega
  | succ d ih =>
    intro S hS hx hdone hstop hd
    by_cases hend : (S.readers ⟨k, hk⟩).Ended
    · exact ih S hS hx hdone hstop (by
        have hzero : remaining (S.readers ⟨k, hk⟩).place = 0 := by
          rcases hend with hp | hp
          · rw [hp]
            rfl
          · rw [hp]
            rfl
        omega)
    · obtain ⟨t, s, hs, ht, hlt⟩ := reader_step hS hstop hend
      let S1 : State n := { S with readers := Function.update S.readers ⟨k, hk⟩ t, shared := s }
      have hself : S1.readers ⟨k, hk⟩ = t := Function.update_self _ _ _
      have h1 : Unloads S1 := by
        refine ih S1 (hS.reader hs) hx (ended_update hdone hk t) ?_ ?_
        · rw [hself]
          exact ht
        · rw [hself]
          omega
      refine h1.cons (e := .reader ⟨k, hk⟩) (r := ()) ?_ (reader_callbacks hs)
      show ((S.readers ⟨k, hk⟩).step .test (readerFn ⟨k, hk⟩) S.shared).map _ = _
      rw [hs]
      rfl

/-- From the loop over the readers. -/
theorem unloads_of_stopping :
    ∀ d k (S : State n), k + d = n → Tidy S → S.exit = .stopReader k →
      (∀ i : Fin n, i < k → (S.readers i).Ended) → Unloads S := by
  intro d
  induction d with
  | zero =>
    intro k S hk hS hx hdone
    cases hk
    exact unloads_of_all_stopped hS hx fun i => hdone i i.isLt
  | succ d ih =>
    intro k S hk hS hx hdone
    have hkn : k < n := by omega
    let S1 : State n := { S with
      readers := Function.update S.readers ⟨k, hkn⟩ (S.readers ⟨k, hkn⟩).stop
      exit := .joinReader k }
    have htidy : Tidy S1 := by
      have hmoved := hS.moved (i := ⟨k, hkn⟩) (t := (S.readers ⟨k, hkn⟩).stop) (s := S.shared)
        (hS.present ⟨k, hkn⟩) (fun _ _ => rfl) (hS.closed ⟨k, hkn⟩)
      exact ⟨hmoved.present, hmoved.closed⟩
    have hself : S1.readers ⟨k, hkn⟩ = (S.readers ⟨k, hkn⟩).stop := Function.update_self _ _ _
    have h1 : Unloads S1 := by
      refine unloads_of_joining hkn (fun T hT hTx hTd => ih (k + 1) T (by omega) hT hTx hTd)
        (remaining (S1.readers ⟨k, hkn⟩).place) S1 htidy rfl
        (ended_update hdone hkn (S.readers ⟨k, hkn⟩).stop) ?_ le_rfl
      rw [hself]
      rfl
    refine h1.exit ?_ rfl
    rw [rcuDemoExit, hx]
    exact dif_pos hkn

theorem Tidy.step (h : Tidy S) (hs : step S e = some (r, S')) : Tidy S' := by
  cases e with
  | reader i =>
    obtain ⟨⟨t, s⟩, hp, heq⟩ := Option.map_eq_some_iff.mp hs
    obtain ⟨-, rfl⟩ := Prod.mk.inj heq
    exact h.reader hp
  | writer ok =>
    obtain ⟨⟨t, s⟩, hp, heq⟩ := Option.map_eq_some_iff.mp hs
    obtain ⟨-, rfl⟩ := Prod.mk.inj heq
    have hopened : s.rcu.opened = S.shared.rcu.opened := by
      cases Thread.step_moves hp with
      | skip ht hstop => rfl
      | enter ht hstop => rfl
      | @body l next s' ht hb =>
        cases l with
        | kmalloc =>
          cases ok <;> cases hb <;> rfl
        | callRcu oldData => cases oldData <;> cases hb <;> rfl
        | _ => cases hb; rfl
    refine ⟨h.present, ?_⟩
    intro i hi
    show s.rcu.opened i = none
    rw [hopened]
    exact h.closed i hi
  | callback c =>
    obtain ⟨s, hp, heq⟩ := Option.map_eq_some_iff.mp hs
    obtain ⟨-, rfl⟩ := Prod.mk.inj heq
    unfold myRcuFree at hp
    split at hp
    · cases hp
      exact ⟨h.present, h.closed⟩
    · cases hp
  | exit =>
    obtain ⟨T, hp, heq⟩ := Option.map_eq_some_iff.mp hs
    obtain ⟨-, rfl⟩ := Prod.mk.inj heq
    unfold rcuDemoExit at hp
    split at hp
    · cases hp
      exact ⟨h.present, h.closed⟩
    · split at hp
      · cases hp
        exact ⟨h.present, h.closed⟩
      · cases hp
    · next k hx =>
      split at hp
      · next hk =>
        cases hp
        have hmoved := h.moved (i := ⟨k, hk⟩) (t := (S.readers ⟨k, hk⟩).stop) (s := S.shared)
          (h.present ⟨k, hk⟩) (fun _ _ => rfl) (h.closed ⟨k, hk⟩)
        exact ⟨hmoved.present, hmoved.closed⟩
      · cases hp
        exact ⟨h.present, h.closed⟩
    · repeat' split at hp
      all_goals cases hp
      exact ⟨h.present, h.closed⟩
    · split at hp
      · cases hp
        exact ⟨h.present, h.closed⟩
      · cases hp
    · cases hp
      exact ⟨h.present, h.closed⟩
    · next last hx =>
      cases hp
      refine ⟨h.present, ?_⟩
      intro i hi
      show (S.shared.kfreeLast last).rcu.opened i = none
      rw [kfreeLast_rcu]
      exact h.closed i hi
    · cases hp

theorem tidy_of_exec {es : List (Event n)} {rs : List Unit}
    (h : Machine.exec step start es = some (rs, S)) : Tidy S :=
  (Machine.Reach.exec es .init h).invariant tidy_start fun _ _ _ _ hS _ hs => Tidy.step hS hs

theorem inv_of_exec {es : List (Event n)} {rs : List Unit}
    (h : Machine.exec step start es = some (rs, S)) : Inv S :=
  (Machine.Reach.exec es .init h).invariant inv_start fun _ _ _ _ hS _ hs => Inv.step hS hs

/-- A run in which all callbacks have run when the writer is joined leaves none to the unload; and
exactly from such a join no continuation leaves one. -/
theorem unload_iff_drained (n : Nat) :
    (∀ es, Machine.Legal step DrainedAtJoin (start : State n) es →
        Machine.Always step Unloadable start es) ∧
      ∀ es rs (S : State n), Machine.exec step start es = some (rs, S) → S.exit = .stopReader 0 →
        ((∀ fs, Machine.Always step Unloadable S fs) ↔ S.shared.rcu.callbacks = []) := by
  refine ⟨?_, ?_⟩
  · intro es hl
    have hd : Machine.Always step Drained (start : State n) es :=
      Machine.Legal.always (fun _ _ _ _ hS hg hs => Drained.step hS hg hs) es start drained_start hl
    refine hd.mono ?_ es start
    intro S hS hx
    exact (hS (by rw [hx]; nofun) (by rw [hx]; nofun)).2
  · intro es rs S hrun hx
    constructor
    · intro h
      have hstop : ∀ i : Fin n, (i : Nat) < 0 → (S.readers i).Ended := fun i hi =>
        absurd hi (Nat.not_lt_zero i)
      obtain ⟨fs, qs, T, hT, hret, hcb⟩ :=
        unloads_of_stopping n 0 S (Nat.zero_add n) (tidy_of_exec hrun) hx hstop
      rw [← hcb]
      exact (h fs).last hT hret
    · intro hempty fs
      have hw := (inv_of_exec hrun).order.writer (by rw [hx]; nofun) (by rw [hx]; nofun)
      have he : Machine.Always step Empty S fs :=
        Machine.Legal.always (fun _ _ _ _ hS _ hs => Empty.step hS hs) fs S ⟨hw, hempty⟩
          (Machine.legal_true fs S)
      exact he.mono (fun T hT _ => hT.2) fs S

/-- The writer publishes one version, and is stopped while it sleeps. -/
def publishOnce : List (Event 1) :=
  [.writer true, .writer true, .writer true, .writer true, .writer true, .writer true, .exit,
    .writer true, .writer true, .exit]

/-- The reader has not run when it is stopped; the exit function returns. -/
def unloadNow : List (Event 1) :=
  [.exit, .reader ⟨0, Nat.one_pos⟩, .exit, .exit, .exit, .exit, .exit]

instance (S : State 1) (e : Event 1) : Decidable (DrainedAtJoin S e) :=
  inferInstanceAs (Decidable (e = .exit → S.exit = .joinWriter → S.writer.Ended →
    S.shared.rcu.callbacks = []))

/-- The same, but the callback runs before the writer is joined. -/
def callbackFirst : List (Event 1) :=
  publishOnce.dropLast ++ .callback ⟨0, 0⟩ :: .exit :: unloadNow

theorem unload_iff_drained_publishOnce :
    (Machine.Always step Unloadable (start : State 1) callbackFirst ∧
      (Machine.exec step (start : State 1) callbackFirst).map
        (fun p => (p.2.exit, p.2.shared.published, p.2.shared.freed)) =
          some (.returned, [0, 1], [0, 1])) ∧
      ∃ rs S, Machine.exec step (start : State 1) publishOnce = some (rs, S) ∧
        S.shared.rcu.callbacks = [⟨0, 0⟩] ∧ ¬ ∀ fs, Machine.Always step Unloadable S fs := by
  refine ⟨⟨(unload_iff_drained 1).1 _ (by decide), by decide⟩, _, _, rfl, rfl, ?_⟩
  intro h
  have hnil := ((unload_iff_drained 1).2 publishOnce _ _ rfl rfl).mp h
  cases hnil

theorem callback_pending_at_unload :
    (Machine.exec step (start : State 1) (publishOnce ++ unloadNow)).map
        (fun p => (p.2.exit, p.2.shared.rcu.callbacks)) = some (.returned, [⟨0, 0⟩]) ∧
      ¬ ∀ es, Machine.Always step Unloadable (start : State 1) es := by
  refine ⟨rfl, ?_⟩
  intro h
  obtain ⟨⟨rs, T⟩, hT, heq⟩ := Option.map_eq_some_iff.mp
    (show (Machine.exec step (start : State 1) (publishOnce ++ unloadNow)).map
      (fun p => (p.2.exit, p.2.shared.rcu.callbacks)) = some (.returned, [⟨0, 0⟩]) from rfl)
  obtain ⟨hx, hcb⟩ := Prod.mk.inj heq
  have hnil := (h _).last hT hx
  rw [hcb] at hnil
  cases hnil

end RcuDemo
