import LinuxHandson.Lib.Kthread
import LinuxHandson.Lib.Machine

/-!
# Modules with two threads

The init function starts one thread and then the other; if the second cannot be started it stops the
first. The exit function stops the second and then the first. When either function has left nothing to
the other, no thread of the module is left.
-/

namespace Kthread.Pair

variable {ℓ₁ ℓ₂ χ σ : Type}

/-- The functions of the two threads, which share `σ`; a step may depend on a choice of the
environment. -/
structure Code (ℓ₁ ℓ₂ χ σ : Type) where
  start₁ : ℓ₁
  body₁ : χ → Bool → ℓ₁ → σ → Option (Option ℓ₁ × σ)
  start₂ : ℓ₂
  body₂ : χ → Bool → ℓ₂ → σ → Option (Option ℓ₂ × σ)

/-- The places of the init and the exit function. -/
inductive ModuleLoc where
  /-- Before `kthread_run` of the first thread. -/
  | run₁
  /-- Before `kthread_run` of the second thread. -/
  | run₂
  /-- In `kthread_stop` of the first thread, since there is no second one. -/
  | unwind
  /-- The init function has returned 0. -/
  | loaded
  /-- In `kthread_stop` of the second thread. -/
  | join₂
  /-- In `kthread_stop` of the first thread. -/
  | join₁
  /-- The init function has returned an error, or the exit function has returned. -/
  | gone
deriving DecidableEq

/-- The two threads, where the module is, and what they share. -/
structure State (ℓ₁ ℓ₂ σ : Type) where
  thread₁ : Thread ℓ₁
  thread₂ : Thread ℓ₂
  loc : ModuleLoc
  data : σ

/-- Before the init function. -/
def State.start (s : σ) : State ℓ₁ ℓ₂ σ := ⟨.absent, .absent, .run₁, s⟩

/-- Who makes the next step. -/
inductive Event (χ : Type) where
  /-- The init or the exit function, where `kthread_run` may fail. -/
  | module (fails : Bool)
  | thread₁ (x : χ)
  | thread₂ (x : χ)
deriving DecidableEq

/-- There is no such thread, or it has ended. -/
def Over {ℓ : Type} (t : Thread ℓ) : Prop := t.place = .absent ∨ t.Ended

/-- A thread that is over makes no step. -/
theorem Over.step_eq_none {t : Thread ℓ₁} (h : Over t) (start : ℓ₁)
    (body : Bool → ℓ₁ → σ → Option (Option ℓ₁ × σ)) (s : σ) : t.step start body s = none := by
  rcases h with h | h
  · unfold Thread.step
    rw [h]
  · exact h.step_eq_none s

/-! ## What a step can be -/

/-- The steps of the system, one constructor for each kind. -/
inductive Move (code : Code ℓ₁ ℓ₂ χ σ) (S : State ℓ₁ ℓ₂ σ) : State ℓ₁ ℓ₂ σ → Prop where
  | run₁ (h : S.loc = .run₁) : Move code S { S with thread₁ := .created, loc := .run₂ }
  | run₁Fails (h : S.loc = .run₁) : Move code S { S with loc := .gone }
  | run₂ (h : S.loc = .run₂) : Move code S { S with thread₂ := .created, loc := .loaded }
  | run₂Fails (h : S.loc = .run₂) :
    Move code S { S with thread₁ := S.thread₁.stop, loc := .unwind }
  | unwound (h : S.loc = .unwind) (hend : S.thread₁.Ended) : Move code S { S with loc := .gone }
  | exit (h : S.loc = .loaded) : Move code S { S with thread₂ := S.thread₂.stop, loc := .join₂ }
  | joined₂ (h : S.loc = .join₂) (hend : S.thread₂.Ended) :
    Move code S { S with thread₁ := S.thread₁.stop, loc := .join₁ }
  | joined₁ (h : S.loc = .join₁) (hend : S.thread₁.Ended) : Move code S { S with loc := .gone }
  | thread₁ {x : χ} {t : Thread ℓ₁} {s : σ}
      (h : S.thread₁.step code.start₁ (code.body₁ x) S.data = some (t, s)) :
      Move code S { S with thread₁ := t, data := s }
  | thread₂ {x : χ} {t : Thread ℓ₂} {s : σ}
      (h : S.thread₂.step code.start₂ (code.body₂ x) S.data = some (t, s)) :
      Move code S { S with thread₂ := t, data := s }

variable {code : Code ℓ₁ ℓ₂ χ σ} {S S' : State ℓ₁ ℓ₂ σ}

/-! ## The end of the module -/

/-- Which threads there are while the init and the exit function are at their places. -/
structure Order (S : State ℓ₁ ℓ₂ σ) : Prop where
  absent₁ : S.loc = .run₁ → S.thread₁.place = .absent
  absent₂ : S.loc = .run₁ ∨ S.loc = .run₂ ∨ S.loc = .unwind → S.thread₂.place = .absent
  ended₂ : S.loc = .join₁ → S.thread₂.Ended
  gone : S.loc = .gone → Over S.thread₁ ∧ Over S.thread₂

theorem order_start (s : σ) : Order (State.start s : State ℓ₁ ℓ₂ σ) :=
  ⟨fun _ => rfl, fun _ => rfl, nofun, nofun⟩

/-- A step of a thread, which there is and which has not ended. -/
theorem Order.thread₁ (h : Order S) {x : χ} {t : Thread ℓ₁} {s : σ}
    (hs : S.thread₁.step code.start₁ (code.body₁ x) S.data = some (t, s)) :
    Order { S with thread₁ := t, data := s } where
  absent₁ := by
    intro hloc
    rw [Over.step_eq_none (.inl (h.absent₁ hloc))] at hs
    cases hs
  absent₂ := h.absent₂
  ended₂ := h.ended₂
  gone := by
    intro hloc
    rw [(h.gone hloc).1.step_eq_none] at hs
    cases hs

theorem Order.thread₂ (h : Order S) {x : χ} {t : Thread ℓ₂} {s : σ}
    (hs : S.thread₂.step code.start₂ (code.body₂ x) S.data = some (t, s)) :
    Order { S with thread₂ := t, data := s } where
  absent₁ := h.absent₁
  absent₂ := by
    intro hloc
    rw [Over.step_eq_none (.inl (h.absent₂ hloc))] at hs
    cases hs
  ended₂ := by
    intro hloc
    rw [(h.ended₂ hloc).step_eq_none] at hs
    cases hs
  gone := by
    intro hloc
    rw [(h.gone hloc).2.step_eq_none] at hs
    cases hs

theorem Order.move (h : Order S) (hm : Move code S S') : Order S' := by
  cases hm with
  | run₁ hloc => exact ⟨nofun, fun _ => h.absent₂ (.inl hloc), nofun, nofun⟩
  | run₁Fails hloc =>
    exact ⟨nofun, nofun, nofun, fun _ => ⟨.inl (h.absent₁ hloc), .inl (h.absent₂ (.inl hloc))⟩⟩
  | run₂ hloc => exact ⟨nofun, nofun, nofun, nofun⟩
  | run₂Fails hloc => exact ⟨nofun, fun _ => h.absent₂ (.inr (.inl hloc)), nofun, nofun⟩
  | unwound hloc hend =>
    exact ⟨nofun, nofun, nofun, fun _ => ⟨.inr hend, .inl (h.absent₂ (.inr (.inr hloc)))⟩⟩
  | exit hloc => exact ⟨nofun, nofun, nofun, nofun⟩
  | joined₂ hloc hend => exact ⟨nofun, nofun, fun _ => hend, nofun⟩
  | joined₁ hloc hend =>
    exact ⟨nofun, nofun, nofun, fun _ => ⟨.inr hend, .inr (h.ended₂ hloc)⟩⟩
  | thread₁ hs => exact h.thread₁ hs
  | thread₂ hs => exact h.thread₂ hs

/-! ## What the threads share -/

/-- An invariant of the threads' places and the data. -/
structure Keeps (code : Code ℓ₁ ℓ₂ χ σ) (Inv : Place ℓ₁ → Place ℓ₂ → σ → Prop) : Prop where
  create₁ : ∀ q s, Inv .absent q s → Inv .created q s
  create₂ : ∀ p s, Inv p .absent s → Inv p .created s
  thread₁ : ∀ x t t' q s s', Inv t.place q s → Moves code.start₁ (code.body₁ x) t s t' s' →
    Inv t'.place q s'
  thread₂ : ∀ x t t' p s s', Inv p t.place s → Moves code.start₂ (code.body₂ x) t s t' s' →
    Inv p t'.place s'

/-! ## Runs -/

section Run

variable [DecidableEq ℓ₁] [DecidableEq ℓ₂] {guard : State ℓ₁ ℓ₂ σ → Event χ → Prop} {s₀ : σ}

/-- One step of the init or the exit function. -/
def moduleStep (S : State ℓ₁ ℓ₂ σ) (fails : Bool) : Option (State ℓ₁ ℓ₂ σ) :=
  match S.loc with
  | .run₁ =>
    some (if fails then { S with loc := .gone } else { S with thread₁ := .created, loc := .run₂ })
  | .run₂ =>
    some (if fails then { S with thread₁ := S.thread₁.stop, loc := .unwind }
      else { S with thread₂ := .created, loc := .loaded })
  | .unwind => if S.thread₁.Ended then some { S with loc := .gone } else none
  | .loaded => some { S with thread₂ := S.thread₂.stop, loc := .join₂ }
  | .join₂ =>
    if S.thread₂.Ended then some { S with thread₁ := S.thread₁.stop, loc := .join₁ } else none
  | .join₁ => if S.thread₁.Ended then some { S with loc := .gone } else none
  | .gone => none

/-- One step of the module or of a thread. -/
def step (code : Code ℓ₁ ℓ₂ χ σ) : Machine.Step (State ℓ₁ ℓ₂ σ) (Event χ) Unit := fun S e =>
  match e with
  | .module fails => (moduleStep S fails).map fun S' => ((), S')
  | .thread₁ x =>
    (S.thread₁.step code.start₁ (code.body₁ x) S.data).map fun p =>
      ((), { S with thread₁ := p.1, data := p.2 })
  | .thread₂ x =>
    (S.thread₂.step code.start₂ (code.body₂ x) S.data).map fun p =>
      ((), { S with thread₂ := p.1, data := p.2 })

theorem step_move {e : Event χ} {r : Unit} (h : step code S e = some (r, S')) : Move code S S' := by
  cases e with
  | module fails =>
    obtain ⟨T, hT, heq⟩ := Option.map_eq_some_iff.mp h
    obtain ⟨-, rfl⟩ := Prod.mk.inj heq
    unfold moduleStep at hT
    split at hT
    · next hloc =>
      cases fails with
      | true =>
        cases hT
        exact .run₁Fails hloc
      | false =>
        cases hT
        exact .run₁ hloc
    · next hloc =>
      cases fails with
      | true =>
        cases hT
        exact .run₂Fails hloc
      | false =>
        cases hT
        exact .run₂ hloc
    · next hloc =>
      split at hT
      · next hend =>
        cases hT
        exact .unwound hloc hend
      · cases hT
    · next hloc =>
      cases hT
      exact .exit hloc
    · next hloc =>
      split at hT
      · next hend =>
        cases hT
        exact .joined₂ hloc hend
      · cases hT
    · next hloc =>
      split at hT
      · next hend =>
        cases hT
        exact .joined₁ hloc hend
      · cases hT
    · cases hT
  | thread₁ x =>
    obtain ⟨⟨t, s⟩, ht, heq⟩ := Option.map_eq_some_iff.mp h
    obtain ⟨-, rfl⟩ := Prod.mk.inj heq
    exact .thread₁ ht
  | thread₂ x =>
    obtain ⟨⟨t, s⟩, ht, heq⟩ := Option.map_eq_some_iff.mp h
    obtain ⟨-, rfl⟩ := Prod.mk.inj heq
    exact .thread₂ ht

/-- When the module is gone, so are its threads. -/
theorem Reach.order (h : Machine.Reach (step code) guard (.start s₀) S) : Order S :=
  h.invariant (order_start s₀) fun _ _ _ _ hS _ hs => hS.move (step_move hs)

theorem Keeps.reach {Inv : Place ℓ₁ → Place ℓ₂ → σ → Prop} (hkeep : Keeps code Inv)
    (h0 : Inv .absent .absent s₀) (h : Machine.Reach (step code) guard (.start s₀) S) :
    Inv S.thread₁.place S.thread₂.place S.data := by
  have hstep : ∀ S e r S', (Order S ∧ Inv S.thread₁.place S.thread₂.place S.data) → guard S e →
      step code S e = some (r, S') → Order S' ∧ Inv S'.thread₁.place S'.thread₂.place S'.data := by
    rintro S e r S' ⟨hS, hinv⟩ - hs
    have hm := step_move hs
    refine ⟨hS.move hm, ?_⟩
    cases hm with
    | run₁ hloc =>
      rw [hS.absent₁ hloc] at hinv
      exact hkeep.create₁ _ _ hinv
    | run₂ hloc =>
      rw [hS.absent₂ (.inr (.inl hloc))] at hinv
      exact hkeep.create₂ _ _ hinv
    | run₁Fails => exact hinv
    | run₂Fails => exact hinv
    | unwound => exact hinv
    | exit => exact hinv
    | joined₂ => exact hinv
    | joined₁ => exact hinv
    | thread₁ ht => exact hkeep.thread₁ _ _ _ _ _ _ hinv (Thread.step_moves ht)
    | thread₂ ht => exact hkeep.thread₂ _ _ _ _ _ _ hinv (Thread.step_moves ht)
  exact (h.invariant ⟨order_start s₀, h0⟩ hstep).2

end Run

end Kthread.Pair
