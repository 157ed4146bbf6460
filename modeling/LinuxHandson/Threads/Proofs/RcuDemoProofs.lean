import LinuxHandson.Threads.RcuDemo

/-!
# Reclamation

Every published object is in one place: current, in the hands of the writer that has just replaced
it, queued, or freed. Readers fetch the current object only, so what is queued later was fetched in a
section that the callback waits for. The last object is freed by `rcu_demo_exit`, which has stopped
all threads before.
-/

namespace RcuDemo

open Kthread
open Rcu (Callback Protects)

variable {n : Nat} {S S' : State n} {e : Event n} {r : Unit}

/-! ## The invariant -/

/-- The object that the writer has replaced and not queued yet. -/
def replaced : Place WriterLoc → Option Nat
  | .running (.callRcu old) => old
  | _ => none

/-- The objects published, and neither queued nor freed. -/
def State.inHand (S : State n) : List Nat :=
  (replaced S.writer.place).toList ++
    if S.exit = .returned then [] else S.shared.globalData.toList

/-- What the writer knows between `kmalloc` and `rcu_assign_pointer`. -/
def WriterKnows (s : Shared n) : Place WriterLoc → Prop
  | .running (.fetchOld newData) => newData < s.allocated ∧ newData ∉ s.published
  | .running (.assign newData oldData) =>
    newData < s.allocated ∧ newData ∉ s.published ∧ oldData = s.globalData
  | _ => True

/-- Where the objects are. -/
structure Ledger (S : State n) : Prop where
  count : ∀ o, S.shared.freed.count o + S.shared.rcu.heads.count o + S.inHand.count o =
    S.shared.published.count o
  unique : S.shared.published.Nodup
  old : ∀ o ∈ S.shared.published, o < S.shared.allocated
  writer : WriterKnows S.shared S.writer.place

/-- The number of readers that `rcu_demo_exit` has stopped. -/
def ExitLoc.joined (n : Nat) : ExitLoc → Nat
  | .stopWriter => 0
  | .joinWriter => 0
  | .stopReader k => k
  | .joinReader k => k
  | _ => n

/-- What has ended at each place of `rcu_demo_exit`. -/
structure Order (S : State n) : Prop where
  writer : S.exit ≠ .stopWriter → S.exit ≠ .joinWriter → S.writer.Ended
  readers : ∀ i : Fin n, i < S.exit.joined n → (S.readers i).Ended
  last : ∀ last, S.exit = .free last → last = S.shared.globalData

/-- Readers hold objects in sections that protect them. -/
structure Guarded (S : State n) : Prop where
  protects : Protects S.shared.rcu S.Holds
  opened : ∀ i, (S.readers i).place = .running .dereference →
    (S.shared.rcu.opened i).isSome = true
  unfreed : ∀ i o, S.Holds i o → o ∉ S.shared.freed

/-- What holds in every reachable state. -/
structure Inv (S : State n) : Prop where
  ledger : Ledger S
  order : Order S
  guarded : Guarded S

theorem inv_start : Inv (start : State n) := by
  refine ⟨⟨?_, List.nodup_singleton 0, ?_, trivial⟩, ⟨?_, ?_, nofun⟩, ⟨?_, nofun, nofun⟩⟩
  · intro o
    show List.count o [] + List.count o [] + List.count o [0] = List.count o [0]
    simp
  · intro o ho
    rw [List.mem_singleton.mp ho]
    exact Nat.one_pos
  · intro h
    exact absurd rfl h
  · intro i hi
    exact absurd hi (Nat.not_lt_zero _)
  · exact Rcu.protects_quiet nofun

theorem Ledger.at_most_once (h : Ledger S) (o : Nat) :
    S.shared.freed.count o + S.shared.rcu.heads.count o + S.inHand.count o ≤ 1 := by
  rw [h.count o]
  exact List.nodup_iff_count_le_one.mp h.unique o

/-! ## Readers -/

/-- A step of reader `i` changes its place, and nothing that is shared but its section. -/
theorem Inv.reader_moved (h : Inv S) {i : Fin n} {t : Thread ReaderLoc} {s : Shared n}
    (hrun : ¬ (S.readers i).Ended) (hcb : s.rcu.callbacks = S.shared.rcu.callbacks)
    (hs : s = { S.shared with rcu := s.rcu })
    (hg : Guarded { S with readers := Function.update S.readers i t, shared := s }) :
    Inv { S with readers := Function.update S.readers i t, shared := s } := by
  have hheads : s.rcu.heads = S.shared.rcu.heads := by rw [Rcu.State.heads, hcb, Rcu.State.heads]
  rw [hs] at hg ⊢
  refine ⟨⟨?_, h.ledger.unique, h.ledger.old, h.ledger.writer⟩, ⟨h.order.writer, ?_, h.order.last⟩, hg⟩
  · intro o
    show _ + s.rcu.heads.count o + _ = _
    rw [hheads]
    exact h.ledger.count o
  · intro j hj
    have hji : j ≠ i := by
      rintro rfl
      exact hrun (h.order.readers j hj)
    show (Function.update S.readers i t j).Ended
    rw [Function.update_of_ne hji]
    exact h.order.readers j hj

/-- What the readers hold after reader `i` has moved. -/
theorem holds_update {i j : Fin n} {t : Thread ReaderLoc} {s : Shared n} {o : Nat} :
    State.Holds { S with readers := Function.update S.readers i t, shared := s } j o ↔
      if j = i then held t.place = some o else S.Holds j o := by
  by_cases hj : j = i
  · subst hj
    simp [State.Holds]
  · simp [State.Holds, hj]

/-- The reader moves to a place at which it holds no more than before. -/
theorem Guarded.narrow (h : Guarded S) {i : Fin n} {t : Thread ReaderLoc}
    (ht : ∀ o, held t.place = some o → held (S.readers i).place = some o)
    (hd : t.place ≠ .running .dereference) :
    Guarded { S with readers := Function.update S.readers i t } := by
  have hle : ∀ j o, State.Holds { S with readers := Function.update S.readers i t } j o →
      S.Holds j o := by
    intro j o hj
    rw [holds_update] at hj
    split at hj
    · next hji =>
      subst hji
      exact ht o hj
    · exact hj
  refine ⟨h.protects.mono hle, ?_, fun j o hj => h.unfreed j o (hle j o hj)⟩
  intro j hj
  by_cases hji : j = i
  · subst hji
    exact absurd (by simpa using hj) hd
  · exact h.opened j (by simpa [hji] using hj)

/-- A place at which nothing is held. -/
theorem Guarded.idle (h : Guarded S) {i : Fin n} {t : Thread ReaderLoc}
    (ht : held t.place = none) (hd : t.place ≠ .running .dereference) :
    Guarded { S with readers := Function.update S.readers i t } := by
  refine h.narrow (fun o ho => ?_) hd
  rw [ht] at ho
  cases ho

/-- The reader prints what it holds. -/
theorem Guarded.keep (h : Guarded S) {i : Fin n} {t : Thread ReaderLoc}
    (ht : held t.place = held (S.readers i).place) (hd : t.place ≠ .running .dereference) :
    Guarded { S with readers := Function.update S.readers i t } := by
  refine h.narrow (fun o ho => ?_) hd
  rw [← ht]
  exact ho

/-- The reader opens its section. -/
theorem Guarded.lock (h : Guarded S) {i : Fin n} {b : Bool}
    (hi : (S.readers i).place = .running .lock) :
    Guarded { S with
      readers := Function.update S.readers i ⟨.running .dereference, b⟩
      shared := { S.shared with rcu := S.shared.rcu.readLock i } } := by
  have hnone : ∀ o, ¬ S.Holds i o := by
    intro o ho
    rw [State.Holds, hi] at ho
    cases ho
  have hle : ∀ j o, State.Holds { S with
      readers := Function.update S.readers i ⟨.running .dereference, b⟩
      shared := { S.shared with rcu := S.shared.rcu.readLock i } } j o → S.Holds j o := by
    intro j o hj
    rw [holds_update] at hj
    split at hj
    · cases hj
    · exact hj
  refine ⟨(h.protects.readLock hnone).mono hle, ?_, fun j o hj => h.unfreed j o (hle j o hj)⟩
  intro j hj
  by_cases hji : j = i
  · subst hji
    simp [Rcu.State.readLock]
  · have := h.opened j (by simpa [hji] using hj)
    simpa [Rcu.State.readLock, hji] using this

theorem Guarded.unlock (h : Guarded S) {i : Fin n} {b : Bool} :
    Guarded { S with
      readers := Function.update S.readers i ⟨.running .sleep, b⟩
      shared := { S.shared with rcu := S.shared.rcu.readUnlock i } } := by
  have hle : ∀ j o, State.Holds { S with
      readers := Function.update S.readers i ⟨.running .sleep, b⟩
      shared := { S.shared with rcu := S.shared.rcu.readUnlock i } } j o →
        S.Holds j o ∧ j ≠ i := by
    intro j o hj
    rw [holds_update] at hj
    split at hj
    · cases hj
    · next hji => exact ⟨hj, hji⟩
  refine ⟨h.protects.readUnlock hle, ?_, fun j o hj => h.unfreed j o (hle j o hj).1⟩
  intro j hj
  by_cases hji : j = i
  · subst hji
    simp at hj
  · have := h.opened j (by simpa [hji] using hj)
    simpa [Rcu.State.readUnlock, hji] using this

/-- The reader fetches the current object, which is neither queued nor freed. -/
theorem Guarded.fetch (h : Guarded S) (hl : Ledger S) (hexit : S.exit ≠ .returned) {i : Fin n}
    {b : Bool} (hi : (S.readers i).place = .running .dereference) :
    Guarded { S with
      readers := Function.update S.readers i ⟨.running (.print S.shared.globalData), b⟩ } := by
  rcases hd : S.shared.globalData with _ | o
  · exact h.idle rfl nofun
  have hcur : S.inHand.count o = (replaced S.writer.place).toList.count o + 1 := by
    rw [State.inHand, if_neg hexit, hd, List.count_append]
    simp
  have hone := hl.at_most_once o
  have hqueued : o ∉ S.shared.rcu.heads := List.count_eq_zero.mp (by omega)
  have hfreed : o ∉ S.shared.freed := List.count_eq_zero.mp (by omega)
  have hle : ∀ j k, State.Holds { S with
      readers := Function.update S.readers i ⟨.running (.print (some o)), b⟩ } j k →
        S.Holds j k ∨ (j = i ∧ k = o) := by
    intro j k hj
    rw [holds_update] at hj
    split at hj
    · next hji => exact .inr ⟨hji, (Option.some.inj hj).symm⟩
    · exact .inl hj
  refine ⟨h.protects.fetch (h.opened i hi) hqueued hle, ?_, ?_⟩
  · intro j hj
    by_cases hji : j = i
    · subst hji
      simp at hj
    · exact h.opened j (by simpa [hji] using hj)
  · intro j k hj
    rcases hle j k hj with hj | ⟨-, rfl⟩
    · exact h.unfreed j k hj
    · exact hfreed

/-- A thread in its function has not ended, so `rcu_demo_exit` has not returned. -/
theorem Order.not_returned (h : Order S) {i : Fin n} (hi : ¬ (S.readers i).Ended) :
    S.exit ≠ .returned := by
  intro hexit
  refine hi (h.readers i ?_)
  rw [hexit]
  exact i.isLt

theorem Inv.reader (h : Inv S) {i : Fin n} {t : Thread ReaderLoc} {s : Shared n}
    (hs : (S.readers i).step .test (readerFn i) S.shared = some (t, s)) :
    Inv { S with readers := Function.update S.readers i t, shared := s } := by
  have hrun : ¬ (S.readers i).Ended := by
    intro hend
    rw [hend.step_eq_none] at hs
    cases hs
  cases Thread.step_moves hs with
  | skip ht hstop => exact h.reader_moved hrun rfl rfl (h.guarded.idle rfl nofun)
  | enter ht hstop => exact h.reader_moved hrun rfl rfl (h.guarded.idle rfl nofun)
  | @body l next s' ht hb =>
    cases l with
    | test =>
      obtain ⟨rfl, rfl⟩ := Prod.mk.inj (Option.some.inj hb)
      cases (S.readers i).shouldStop with
      | true => exact h.reader_moved hrun rfl rfl (h.guarded.idle rfl nofun)
      | false => exact h.reader_moved hrun rfl rfl (h.guarded.idle rfl nofun)
    | lock =>
      cases hb
      exact h.reader_moved hrun rfl rfl (h.guarded.lock ht)
    | dereference =>
      cases hb
      exact h.reader_moved hrun rfl rfl
        (h.guarded.fetch h.ledger (h.order.not_returned hrun) ht)
    | print d =>
      cases hb
      refine h.reader_moved hrun rfl rfl (h.guarded.keep ?_ nofun)
      rw [ht]
      rfl
    | unlock d =>
      cases hb
      exact h.reader_moved hrun rfl rfl h.guarded.unlock
    | sleep =>
      cases hb
      exact h.reader_moved hrun rfl rfl (h.guarded.idle rfl nofun)

/-! ## The writer -/

/-- The writer runs only while `rcu_demo_exit` has not stopped it. -/
theorem Order.before_join (h : Order S) (hw : ¬ S.writer.Ended) :
    S.exit = .stopWriter ∨ S.exit = .joinWriter := by
  by_contra hexit
  rw [not_or] at hexit
  exact hw (h.writer hexit.1 hexit.2)

/-- A step of the writer leaves the readers and what they hold alone. -/
theorem Inv.writer_moved (h : Inv S) {t : Thread WriterLoc} {s : Shared n}
    (hrun : ¬ S.writer.Ended) (hl : Ledger { S with writer := t, shared := s })
    (hp : Protects s.rcu S.Holds) (hopened : s.rcu.opened = S.shared.rcu.opened)
    (hfreed : s.freed = S.shared.freed) : Inv { S with writer := t, shared := s } := by
  refine ⟨hl, ⟨?_, h.order.readers, ?_⟩, hp, ?_, ?_⟩
  · intro h1 h2
    rcases h.order.before_join hrun with hexit | hexit
    · exact absurd hexit h1
    · exact absurd hexit h2
  · intro last hlast
    rcases h.order.before_join hrun with hexit | hexit
    · exact absurd (hexit.symm.trans hlast) nofun
    · exact absurd (hexit.symm.trans hlast) nofun
  · intro i hi
    show (s.rcu.opened i).isSome = true
    rw [hopened]
    exact h.guarded.opened i hi
  · intro i o hi
    show o ∉ s.freed
    rw [hfreed]
    exact h.guarded.unfreed i o hi

/-- A step of the writer that does not touch what is published. -/
theorem Ledger.idle (h : Ledger S) {t : Thread WriterLoc}
    (hold : replaced t.place = replaced S.writer.place) (hk : WriterKnows S.shared t.place) :
    Ledger { S with writer := t } := by
  refine ⟨?_, h.unique, h.old, hk⟩
  intro o
  show _ + _ + ((replaced t.place).toList ++ _).count o = _
  rw [hold]
  exact h.count o

/-- `kmalloc` returns an object that has never been published. -/
theorem Ledger.kmalloc (h : Ledger S) {b : Bool} (hw : replaced S.writer.place = none) :
    Ledger { S with
      writer := ⟨.running (.fetchOld S.shared.allocated), b⟩
      shared := { S.shared with allocated := S.shared.allocated + 1 } } := by
  refine ⟨?_, h.unique, fun o ho => Nat.lt_succ_of_lt (h.old o ho), Nat.lt_succ_self _, ?_⟩
  · intro o
    have := h.count o
    rw [State.inHand, hw] at this
    exact this
  · intro hmem
    exact Nat.lt_irrefl _ (h.old _ hmem)

/-- The new object becomes current, and the old one is in the hands of the writer. -/
theorem Ledger.assign (h : Ledger S) (hexit : S.exit ≠ .returned) {newData : Nat}
    {oldData : Option Nat} {b : Bool} (hw : S.writer.place = .running (.assign newData oldData)) :
    Ledger { S with
      writer := ⟨.running (.callRcu oldData), b⟩
      shared := S.shared.assign newData } := by
  have hk := h.writer
  rw [hw] at hk
  obtain ⟨hlt, hnew, rfl⟩ := hk
  refine ⟨?_, ?_, ?_, trivial⟩
  · intro o
    have hcount := h.count o
    rw [State.inHand, hw, if_neg hexit] at hcount
    show _ + _ + (S.shared.globalData.toList ++ if S.exit = .returned then [] else [newData]).count o =
      (S.shared.published ++ [newData]).count o
    rw [if_neg hexit, List.count_append, List.count_append, ← hcount]
    show _ + _ + _ = _ + S.shared.rcu.heads.count o + S.shared.globalData.toList.count o + _
    exact (Nat.add_assoc _ _ _).symm
  · show (S.shared.published ++ [newData]).Nodup
    rw [List.nodup_append]
    refine ⟨h.unique, List.nodup_singleton _, ?_⟩
    intro a ha b hb hab
    rw [hab, List.mem_singleton.mp hb] at ha
    exact hnew ha
  · intro o ho
    rcases List.mem_append.mp ho with ho | ho
    · exact h.old o ho
    · rw [List.mem_singleton.mp ho]
      exact hlt

theorem Ledger.callRcu (h : Ledger S) {old : Nat} {b : Bool}
    (hw : S.writer.place = .running (.callRcu (some old))) :
    Ledger { S with writer := ⟨.running .sleep, b⟩, shared := S.shared.callRcu (some old) } := by
  refine ⟨?_, h.unique, h.old, trivial⟩
  intro o
  have hcount := h.count o
  rw [State.inHand, hw, List.count_append] at hcount
  show S.shared.freed.count o + ((S.shared.rcu.callbacks ++ [_]).map Callback.head).count o +
    ([] ++ if S.exit = ExitLoc.returned then [] else S.shared.globalData.toList).count o = _
  rw [List.map_append, List.count_append, List.nil_append]
  have hone : (replaced (.running (.callRcu (some old)))).toList.count o = [old].count o := rfl
  have hheads : (S.shared.rcu.callbacks.map Callback.head).count o = S.shared.rcu.heads.count o := rfl
  have hlast : ([(⟨old, S.shared.rcu.clock⟩ : Callback Nat)].map Callback.head).count o =
    [old].count o := rfl
  show _ = S.shared.published.count o
  omega

theorem Inv.writer (h : Inv S) {ok : Bool} {t : Thread WriterLoc} {s : Shared n}
    (hs : S.writer.step .test (writerFn ok) S.shared = some (t, s)) :
    Inv { S with writer := t, shared := s } := by
  have hrun : ¬ S.writer.Ended := by
    intro hend
    rw [hend.step_eq_none] at hs
    cases hs
  have hexit : S.exit ≠ .returned := by
    intro hexit
    rcases h.order.before_join hrun with h1 | h1
    · rw [h1] at hexit
      cases hexit
    · rw [h1] at hexit
      cases hexit
  have hquiet : ∀ {t : Thread WriterLoc}, replaced t.place = replaced S.writer.place →
      WriterKnows S.shared t.place → Inv { S with writer := t } := fun hold hk =>
    h.writer_moved hrun (h.ledger.idle hold hk) h.guarded.protects rfl rfl
  cases Thread.step_moves hs with
  | skip ht hstop => exact hquiet (by rw [ht]; rfl) trivial
  | enter ht hstop => exact hquiet (by rw [ht]; rfl) trivial
  | @body l next s' ht hb =>
    cases l with
    | test =>
      obtain ⟨rfl, rfl⟩ := Prod.mk.inj (Option.some.inj hb)
      cases S.writer.shouldStop with
      | true => exact hquiet (by rw [ht]; rfl) trivial
      | false => exact hquiet (by rw [ht]; rfl) trivial
    | kmalloc =>
      cases ok with
      | true =>
        cases hb
        exact h.writer_moved hrun (h.ledger.kmalloc (by rw [ht]; rfl)) h.guarded.protects rfl rfl
      | false =>
        cases hb
        exact hquiet (by rw [ht]; rfl) trivial
    | fetchOld newData =>
      cases hb
      have hk := h.ledger.writer
      rw [ht] at hk
      exact hquiet (by rw [ht]; rfl) ⟨hk.1, hk.2, rfl⟩
    | assign newData oldData =>
      cases hb
      exact h.writer_moved hrun (h.ledger.assign hexit ht) h.guarded.protects rfl rfl
    | callRcu oldData =>
      cases oldData with
      | none =>
        cases hb
        exact hquiet (by rw [ht]; rfl) trivial
      | some old =>
        cases hb
        exact h.writer_moved hrun (h.ledger.callRcu ht) (h.guarded.protects.callRcu old) rfl rfl
    | sleep =>
      cases hb
      exact hquiet (by rw [ht]; rfl) trivial

/-! ## Callbacks -/

/-- A callback frees what it is about. -/
theorem Ledger.callback (h : Ledger S) {c : Callback Nat} (hc : c ∈ S.shared.rcu.callbacks) :
    Ledger { S with
      shared := ({ S.shared with rcu := S.shared.rcu.dequeue c } : Shared n).kfree c.head } := by
  refine ⟨?_, h.unique, h.old, h.writer⟩
  intro o
  have hcount := h.count o
  have hperm := ((List.perm_cons_erase hc).map Callback.head).count_eq o
  rw [List.map_cons, List.count_cons] at hperm
  show (S.shared.freed ++ [c.head]).count o + ((S.shared.rcu.callbacks.erase c).map _).count o +
    S.inHand.count o = _
  rw [List.count_append, List.count_singleton]
  have hheads : (S.shared.rcu.callbacks.map Callback.head).count o = S.shared.rcu.heads.count o := rfl
  show _ = S.shared.published.count o
  omega

theorem Inv.callback (h : Inv S) {c : Callback Nat} {s : Shared n}
    (hs : myRcuFree c S.shared = some s) : Inv { S with shared := s } := by
  unfold myRcuFree at hs
  split at hs
  · next hc =>
    cases hs
    have hfree := h.guarded.protects.not_holds hc.1 hc.2
    refine ⟨h.ledger.callback hc.1, ⟨h.order.writer, h.order.readers, h.order.last⟩,
      h.guarded.protects.dequeue c, h.guarded.opened, ?_⟩
    intro i o hi ho
    rcases List.mem_append.mp ho with ho | ho
    · exact h.guarded.unfreed i o hi ho
    · rw [List.mem_singleton.mp ho] at hi
      exact hfree i hi
  · cases hs

/-! ## The exit function -/

/-- A step of `rcu_demo_exit` that frees nothing and moves no reader. -/
theorem Inv.exit_moved (h : Inv S) {w : Thread WriterLoc} {x : ExitLoc}
    (hw : w.place = S.writer.place) (hx : x ≠ ExitLoc.returned) (hS : S.exit ≠ ExitLoc.returned)
    (ho : Order { S with writer := w, exit := x }) : Inv { S with writer := w, exit := x } := by
  refine ⟨⟨?_, h.ledger.unique, h.ledger.old, ?_⟩, ho,
    ⟨h.guarded.protects, h.guarded.opened, h.guarded.unfreed⟩⟩
  · intro o
    have hcount := h.ledger.count o
    rw [State.inHand, if_neg hS] at hcount
    show _ + _ + ((replaced w.place).toList ++ if x = ExitLoc.returned then [] else _).count o = _
    rw [if_neg hx, hw]
    exact hcount
  · show WriterKnows S.shared w.place
    rw [hw]
    exact h.ledger.writer

/-- A reader that has been asked to stop is where it was. -/
theorem Guarded.stop (h : Guarded S) (i : Fin n) :
    Guarded { S with readers := Function.update S.readers i (S.readers i).stop } := by
  have hplace : ∀ j, (Function.update S.readers i (S.readers i).stop j).place =
      (S.readers j).place := by
    intro j
    by_cases hj : j = i
    · subst hj
      simp [Thread.stop]
    · simp [hj]
  have hle : ∀ j o, State.Holds { S with readers := Function.update S.readers i (S.readers i).stop }
      j o → S.Holds j o := by
    intro j o hj
    rw [State.Holds, hplace] at hj
    exact hj
  refine ⟨h.protects.mono hle, ?_, fun j o hj => h.unfreed j o (hle j o hj)⟩
  intro j hj
  exact h.opened j (by rw [← hplace]; exact hj)

/-- `rcu_demo_exit` frees the current object; no reader is left that could hold it. -/
theorem Inv.free (h : Inv S) {last : Option Nat} (hx : S.exit = .free last) :
    Inv { S with exit := .returned, shared := S.shared.kfreeLast last } := by
  have hlast := h.order.last last hx
  have hended : ∀ i, (S.readers i).Ended := fun i => h.order.readers i (by rw [hx]; exact i.isLt)
  have hnone : ∀ i o, ¬ S.Holds i o := by
    intro i o hi
    rw [State.Holds] at hi
    rcases hended i with hp | hp
    · rw [hp] at hi
      cases hi
    · rw [hp] at hi
      cases hi
  have hwriter := h.order.writer (by rw [hx]; nofun) (by rw [hx]; nofun)
  have horder : ∀ {s : Shared n}, Order { S with exit := .returned, shared := s } :=
    ⟨fun _ _ => hwriter, fun i _ => hended i, nofun⟩
  have hcount := h.ledger.count
  have hret : S.exit ≠ ExitLoc.returned := by rw [hx]; nofun
  rw [State.inHand, if_neg hret, ← hlast] at hcount
  cases last with
  | none =>
    refine ⟨⟨?_, h.ledger.unique, h.ledger.old, h.ledger.writer⟩, horder,
      ⟨h.guarded.protects, h.guarded.opened, h.guarded.unfreed⟩⟩
    intro o
    exact hcount o
  | some k =>
    refine ⟨⟨?_, h.ledger.unique, h.ledger.old, h.ledger.writer⟩, horder, h.guarded.protects,
      h.guarded.opened, fun i o hi => absurd hi (hnone i o)⟩
    intro o
    have hco := hcount o
    rw [List.count_append] at hco
    show (S.shared.freed ++ [k]).count o + S.shared.rcu.heads.count o +
      ((replaced S.writer.place).toList ++ []).count o = _
    rw [List.count_append, List.append_nil]
    have hone : (some k).toList.count o = [k].count o := rfl
    show _ = S.shared.published.count o
    omega

theorem Inv.exit (h : Inv S) (hs : rcuDemoExit S = some S') : Inv S' := by
  unfold rcuDemoExit at hs
  split at hs
  · next hx =>
    cases hs
    refine h.exit_moved rfl nofun (by rw [hx]; nofun) ⟨fun _ h2 => absurd rfl h2, ?_, nofun⟩
    intro i hi
    exact absurd hi (Nat.not_lt_zero _)
  · next hx =>
    split at hs
    · next hw =>
      cases hs
      refine h.exit_moved rfl nofun (by rw [hx]; nofun) ⟨fun _ _ => hw, ?_, nofun⟩
      intro i hi
      exact absurd hi (Nat.not_lt_zero _)
    · cases hs
  · next k hx =>
    have hwriter := h.order.writer (by rw [hx]; nofun) (by rw [hx]; nofun)
    have hdone : ∀ i : Fin n, i < k → (S.readers i).Ended := by
      intro i hi
      exact h.order.readers i (by rw [hx]; exact hi)
    split at hs
    · next hk =>
      cases hs
      have hmove := h.exit_moved (w := S.writer) (x := .joinReader k) rfl nofun (by rw [hx]; nofun)
        ⟨fun _ _ => hwriter, hdone, nofun⟩
      exact ⟨⟨hmove.ledger.count, hmove.ledger.unique, hmove.ledger.old, hmove.ledger.writer⟩,
        ⟨fun _ _ => hwriter, ended_update hdone hk (S.readers ⟨k, hk⟩).stop, nofun⟩,
        hmove.guarded.stop ⟨k, hk⟩⟩
    · next hk =>
      cases hs
      refine h.exit_moved rfl nofun (by rw [hx]; nofun) ⟨fun _ _ => hwriter, ?_, nofun⟩
      intro i _
      exact hdone i (by omega)
  · next k hx =>
    have hwriter := h.order.writer (by rw [hx]; nofun) (by rw [hx]; nofun)
    split at hs
    · next hk =>
      split at hs
      · next hend =>
        cases hs
        have hdone : ∀ i : Fin n, i < k → (S.readers i).Ended := by
          intro i hi
          exact h.order.readers i (by rw [hx]; exact hi)
        exact h.exit_moved rfl nofun (by rw [hx]; nofun)
          ⟨fun _ _ => hwriter, ended_succ hdone hk hend, nofun⟩
      · cases hs
    · cases hs
  · next t hx =>
    have hwriter := h.order.writer (by rw [hx]; nofun) (by rw [hx]; nofun)
    have hdone : ∀ i : Fin n, (S.readers i).Ended := fun i =>
      h.order.readers i (by rw [hx]; exact i.isLt)
    split at hs
    · cases hs
      exact h.exit_moved rfl nofun (by rw [hx]; nofun) ⟨fun _ _ => hwriter, fun i _ => hdone i, nofun⟩
    · cases hs
  · next hx =>
    have hwriter := h.order.writer (by rw [hx]; nofun) (by rw [hx]; nofun)
    have hdone : ∀ i : Fin n, (S.readers i).Ended := fun i =>
      h.order.readers i (by rw [hx]; exact i.isLt)
    cases hs
    refine h.exit_moved rfl nofun (by rw [hx]; nofun) ⟨fun _ _ => hwriter, fun i _ => hdone i, ?_⟩
    intro last hlast
    cases hlast
    rfl
  · next last hx =>
    cases hs
    exact h.free hx
  · cases hs

/-! ## Every run -/

theorem Inv.step (h : Inv S) (hs : step S e = some (r, S')) : Inv S' := by
  cases e with
  | reader i =>
    obtain ⟨⟨t, s⟩, hp, heq⟩ := Option.map_eq_some_iff.mp hs
    obtain ⟨-, rfl⟩ := Prod.mk.inj heq
    exact h.reader hp
  | writer ok =>
    obtain ⟨⟨t, s⟩, hp, heq⟩ := Option.map_eq_some_iff.mp hs
    obtain ⟨-, rfl⟩ := Prod.mk.inj heq
    exact h.writer hp
  | callback c =>
    obtain ⟨s, hp, heq⟩ := Option.map_eq_some_iff.mp hs
    obtain ⟨-, rfl⟩ := Prod.mk.inj heq
    exact h.callback hp
  | exit =>
    obtain ⟨T, hp, heq⟩ := Option.map_eq_some_iff.mp hs
    obtain ⟨-, rfl⟩ := Prod.mk.inj heq
    exact h.exit hp

theorem Inv.reclaimed (h : Inv S) : Reclaimed S := by
  refine ⟨?_, h.guarded.unfreed, ?_⟩
  · rw [List.nodup_iff_count_le_one]
    intro o
    have := h.ledger.at_most_once o
    omega
  · intro hx o ho
    have hwriter := h.order.writer (by rw [hx]; nofun) (by rw [hx]; nofun)
    have hempty : S.inHand = [] := by
      rw [State.inHand, if_pos hx]
      rcases hwriter with hw | hw
      · rw [hw]
        rfl
      · rw [hw]
        rfl
    have hcount := h.ledger.count o
    rw [hempty, List.count_nil, List.count_eq_one_of_mem h.ledger.unique ho] at hcount
    rw [← List.count_pos_iff, ← List.count_pos_iff]
    omega

/-- In every run, for any number of readers: no object is freed twice or while a reader holds it, and
when `rcu_demo_exit` has returned, every published object is freed or left to its one callback. -/
theorem versions_reclaimed (n : Nat) (es : List (Event n)) :
    Machine.Always step Reclaimed start es := by
  have hinv : Machine.Always step Inv (start : State n) es :=
    Machine.Legal.always (fun S e r S' hS _ hs => Inv.step hS hs) es start inv_start
      (Machine.legal_true es start)
  exact hinv.mono (fun S hS => hS.reclaimed) es start

end RcuDemo
