import Mathlib.Data.List.Basic

/-!
# Loops that may not end

A loop of a C function, as what one round of it does. A loop ends with a result if some number of
rounds gives it; a loop that runs for ever, or comes to an undefined step, has no result.
-/

namespace CLib

variable {σ ρ : Type}

/-- What one round of a loop does. -/
inductive Round (σ ρ : Type) where
  /-- The loop goes on. -/
  | again (s : σ)
  /-- The function returns. -/
  | done (r : ρ)
  /-- The behaviour is undefined. -/
  | undefined
deriving DecidableEq

/-- A round that goes on or ends, or is undefined. -/
def Round.ofOption : Option (Round σ ρ) → Round σ ρ
  | none => .undefined
  | some r => r

/-- A round that can only end does not go on. -/
theorem Round.ofOption_done_ne (x : Option ρ) (s : σ) : Round.ofOption (x.map .done) ≠ .again s := by
  cases x <;> simp [Round.ofOption]

/-- At most `n` rounds. -/
def rounds (body : σ → Round σ ρ) : Nat → σ → Round σ ρ
  | 0, s => .again s
  | n + 1, s =>
    match body s with
    | .again s' => rounds body n s'
    | .done r => .done r
    | .undefined => .undefined

/-- The loop ends with the result `r`. -/
def Ends (body : σ → Round σ ρ) (s : σ) (r : ρ) : Prop := ∃ n, rounds body n s = .done r

variable {body : σ → Round σ ρ} {s s' : σ} {r r' : ρ}

theorem Ends.done (h : body s = .done r) : Ends body s r := by
  refine ⟨1, ?_⟩
  simp only [rounds, h]

theorem Ends.again (h : body s = .again s') (he : Ends body s' r) : Ends body s r := by
  obtain ⟨n, hn⟩ := he
  refine ⟨n + 1, ?_⟩
  simp only [rounds, h, hn]

theorem Ends.cases (h : Ends body s r) :
    body s = .done r ∨ ∃ s', body s = .again s' ∧ Ends body s' r := by
  obtain ⟨n, hn⟩ := h
  cases n with
  | zero => cases hn
  | succ n =>
    rw [rounds] at hn
    split at hn
    · next s' hs => exact .inr ⟨s', hs, n, hn⟩
    · next r' hr =>
      cases hn
      exact .inl hr
    · cases hn

/-- A loop that goes on and ends, ends from there. -/
theorem Ends.tail (h : Ends body s r) (hs : body s = .again s') : Ends body s' r := by
  rcases h.cases with hd | ⟨t, ht, he⟩
  · rw [hs] at hd
    cases hd
  · rw [hs] at ht
    cases ht
    exact he

/-- What a round that goes on passes back to the state before it, some rounds pass back. -/
theorem of_rounds_again {P : σ → Prop} (hback : ∀ s s', body s = .again s' → P s' → P s) (h : P s') :
    ∀ {n : Nat} {s : σ}, rounds body n s = .again s' → P s := by
  intro n
  induction n with
  | zero =>
    intro s hn
    cases hn
    exact h
  | succ n ih =>
    intro s hn
    rw [rounds] at hn
    split at hn
    · next s1 hs1 => exact hback s s1 hs1 (ih hn)
    · cases hn
    · cases hn

/-- What ends after some rounds ends. -/
theorem Ends.of_rounds (h : Ends body s' r) {n : Nat} {s : σ} (hn : rounds body n s = .again s') :
    Ends body s r :=
  of_rounds_again (P := fun s => Ends body s r) (fun _ _ => Ends.again) h hn

/-- An invariant that the rounds of a loop that ends keep holds when it ends. -/
theorem Ends.of_invariant (Inv : σ → Prop) (Post : ρ → Prop) (h : Ends body s r) (hs : Inv s)
    (hkeep : ∀ s s', Inv s → body s = .again s' → Ends body s' r → Inv s')
    (hpost : ∀ s, Inv s → body s = .done r → Post r) : Post r := by
  obtain ⟨n, hn⟩ := h
  induction n generalizing s with
  | zero => cases hn
  | succ n ih =>
    rw [rounds] at hn
    split at hn
    · next s1 hs1 => exact ih (hkeep s s1 hs hs1 ⟨n, hn⟩) hn
    · next r1 hr1 =>
      cases hn
      exact hpost s hs hr1
    · cases hn

/-- A loop that has ended does not go on. -/
theorem rounds_done_of_le {n m : Nat} (h : rounds body n s = .done r) (hle : n ≤ m) :
    rounds body m s = .done r := by
  induction n generalizing s m with
  | zero => cases h
  | succ n ih =>
    obtain ⟨m, rfl⟩ := Nat.exists_eq_add_of_le' hle
    rw [rounds] at h
    split at h
    · next s' hs =>
      simp only [rounds, hs]
      exact ih h (Nat.le_add_left n m)
    · next r' hr =>
      simp only [rounds, hr]
      exact h
    · cases h

/-- A loop ends with one result. -/
theorem Ends.unique (h : Ends body s r) (h' : Ends body s r') : r = r' := by
  obtain ⟨n, hn⟩ := h
  induction n generalizing s with
  | zero => cases hn
  | succ n ih =>
    rw [rounds] at hn
    rcases h'.cases with hd | ⟨t, ht, he⟩
    · rw [hd] at hn
      cases hn
      rfl
    · rw [ht] at hn
      exact ih he hn

/-- A loop whose rounds keep an invariant and make a measure smaller until one comes to `Q`, comes to it
in as many rounds as the measure says. -/
theorem rounds_of_measure {Inv : σ → Prop} {Q : Round σ ρ → Prop} (hQ : ∀ s, ¬ Q (.again s))
    (measure : σ → Nat)
    (hbody : ∀ s, Inv s → Q (body s) ∨
      ∃ s', body s = .again s' ∧ Inv s' ∧ measure s' < measure s) :
    ∀ n s, Inv s → measure s < n → Q (rounds body n s) := by
  intro n
  induction n with
  | zero =>
    intro s _ hn
    exact absurd hn (Nat.not_lt_zero _)
  | succ n ih =>
    intro s hs hn
    rw [rounds]
    rcases hbody s hs with hq | ⟨s', hs', hinv, hlt⟩
    · cases hb : body s with
      | again s' =>
        rw [hb] at hq
        exact absurd hq (hQ s')
      | done r => rwa [hb] at hq
      | undefined => rwa [hb] at hq
    · rw [hs']
      exact ih s' hinv (by omega)

theorem rounds_done {Inv : σ → Prop} {Post : ρ → Prop} (measure : σ → Nat)
    (hbody : ∀ s, Inv s → (∃ r, body s = .done r ∧ Post r) ∨
      ∃ s', body s = .again s' ∧ Inv s' ∧ measure s' < measure s) :
    ∀ n s, Inv s → measure s < n → ∃ r, rounds body n s = .done r ∧ Post r :=
  rounds_of_measure (Q := fun x => ∃ r, x = .done r ∧ Post r) (fun s ⟨_, hr, _⟩ => by cases hr) measure
    hbody

theorem rounds_undefined {Inv : σ → Prop} (measure : σ → Nat)
    (hbody : ∀ s, Inv s → body s = .undefined ∨
      ∃ s', body s = .again s' ∧ Inv s' ∧ measure s' < measure s) :
    ∀ n s, Inv s → measure s < n → rounds body n s = .undefined :=
  rounds_of_measure (Q := (· = .undefined)) (fun s hs => by cases hs) measure hbody

end CLib
