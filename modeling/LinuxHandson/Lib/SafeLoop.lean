import LinuxHandson.Lib.Endless

/-!
# Loops that stay defined

A loop is safe if none of the rounds that it comes to is undefined, whether it ends or not. A loop that
is part of another function is safe there, up to the place after it, exactly if it is safe by itself.
-/

namespace CLib

variable {σ τ ρ χ : Type} {body : σ → Round σ ρ} {s s' : σ} {r : ρ}

/-- No round that the loop comes to is undefined. -/
def Safe (body : σ → Round σ ρ) (s : σ) : Prop := ∀ n, rounds body n s ≠ .undefined

/-- A round is defined, and so are those after it. -/
def SafeRound (body : σ → Round σ ρ) : Round σ ρ → Prop
  | .again s => Safe body s
  | .done _ => True
  | .undefined => False

theorem safe_iff : Safe body s ↔ SafeRound body (body s) := by
  constructor
  · intro h
    rcases hb : body s with s' | r | _
    · intro n
      rw [← rounds_again hb]
      exact h (n + 1)
    · exact trivial
    · refine h 1 ?_
      simp only [rounds, hb]
  · intro h n
    cases n with
    | zero => simp [rounds]
    | succ n =>
      rcases hb : body s with s' | r | _
      · rw [hb] at h
        rw [rounds_again hb]
        exact h n
      · simp [rounds, hb]
      · rw [hb] at h
        exact h.elim

theorem safe_of_again (h : body s = .again s') : Safe body s ↔ Safe body s' := by
  rw [safe_iff, h]
  rfl

theorem safe_of_done (h : body s = .done r) : Safe body s := by
  rw [safe_iff, h]
  trivial

theorem not_safe_of_undefined (h : body s = .undefined) : ¬ Safe body s := by
  rw [safe_iff, h]
  exact id

/-- A loop whose rounds are defined, as long as an invariant holds that they keep. -/
theorem safe_of_invariant (Inv : σ → Prop) (hdef : ∀ s, Inv s → body s ≠ .undefined)
    (hkeep : ∀ s s', Inv s → body s = .again s' → Inv s') (hs : Inv s) : Safe body s := by
  intro n
  induction n generalizing s with
  | zero => simp [rounds]
  | succ n ih =>
    rcases hb : body s with s' | r | _
    · rw [rounds_again hb]
      exact ih (hkeep s s' hs hb)
    · simp [rounds, hb]
    · exact absurd hb (hdef s hs)

/-- A safe loop ends or goes on for ever. -/
theorem Safe.exists_ends (h : Safe body s) (hf : ¬ Forever body s) : ∃ r, Ends body s r := by
  obtain ⟨n, hn⟩ := not_forall.mp hf
  rcases hr : rounds body n s with s' | r | _
  · exact absurd ⟨s', hr⟩ hn
  · exact ⟨r, n, hr⟩
  · exact absurd hr (h n)

/-- A loop that ends is safe. -/
theorem Ends.safe (h : Ends body s r) : Safe body s := by
  intro n hn
  obtain ⟨m, hm⟩ := h
  induction m generalizing s n with
  | zero => cases hm
  | succ m ih =>
    cases n with
    | zero => cases hn
    | succ n =>
      rcases hb : body s with s' | r' | _
      · rw [rounds_again hb] at hm hn
        exact ih n hn hm
      · simp [rounds, hb] at hn
      · simp [rounds, hb] at hm

/-! ## A loop inside a function -/

/-- A round of a loop as one of the function that it is part of: `wrap` adds the other variables of the
function, which does `ret` with the result. -/
def Round.call (wrap : σ → τ) (ret : ρ → Round τ χ) : Round σ ρ → Round τ χ
  | .again s => .again (wrap s)
  | .done r => ret r
  | .undefined => .undefined

/-- A loop inside a function that ends with a result, after which the function goes on. -/
theorem Ends.call_again {outer : τ → Round τ χ} {wrap : σ → τ} {ret : ρ → Round τ χ}
    (houter : ∀ s, outer (wrap s) = (body s).call wrap ret) (h : Ends body s r) {t : τ} {x : χ}
    (hret : ret r = .again t) (ht : Ends outer t x) : Ends outer (wrap s) x := by
  obtain ⟨n, hn⟩ := h
  induction n generalizing s with
  | zero => cases hn
  | succ n ih =>
    rw [rounds] at hn
    split at hn
    · next s' hs => exact .again (by rw [houter, hs]; rfl) (ih hn)
    · next r' hr =>
      cases hn
      exact .again (by rw [houter, hr]; exact hret) ht
    · cases hn

theorem safe_call_iff {outer : τ → Round τ χ} {wrap : σ → τ} {ret : ρ → Round τ χ}
    (houter : ∀ s, outer (wrap s) = (body s).call wrap ret) :
    Safe outer (wrap s) ↔ Safe body s ∧ ∀ r, Ends body s r → SafeRound outer (ret r) := by
  constructor
  · intro h
    refine ⟨fun n hn => ?_, ?_⟩
    · induction n generalizing s with
      | zero => cases hn
      | succ n ih =>
        rw [safe_iff, houter] at h
        rcases hb : body s with s' | r | _
        · rw [hb] at h
          rw [rounds_again hb] at hn
          exact ih h hn
        · simp [rounds, hb] at hn
        · rw [hb] at h
          exact h
    · rintro r ⟨n, hn⟩
      induction n generalizing s with
      | zero => cases hn
      | succ n ih =>
        rw [safe_iff, houter] at h
        rcases hb : body s with s' | r' | _
        · rw [hb] at h
          rw [rounds_again hb] at hn
          exact ih h hn
        · rw [hb] at h
          simp only [rounds, hb, Round.done.injEq] at hn
          rw [← hn]
          exact h
        · simp [rounds, hb] at hn
  · rintro ⟨h, hret⟩ n
    induction n generalizing s with
    | zero => simp [rounds]
    | succ n ih =>
      have hround := houter s
      rcases hb : body s with s' | r | _
      · rw [hb] at hround
        rw [rounds_again hround]
        exact ih ((safe_of_again hb).mp h) fun r hr => hret r (.again hb hr)
      · rw [hb] at hround
        have hsafe : Safe outer (wrap s) := by
          rw [safe_iff, hround]
          exact hret r (.done hb)
        exact hsafe (n + 1)
      · exact absurd h (not_safe_of_undefined hb)

end CLib
