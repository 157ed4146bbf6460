import Mathlib.Algebra.Ring.Nat
import Mathlib.Data.List.Basic

/-!
# Step machines and their runs

A step machine answers one call at a time. A call the program cannot finish (undefined behaviour
of the C code) has no step. The lemmas below turn what one step does into what whole runs do: an
invariant, a condition on every step, and a simulation by a total reference machine.
-/

namespace Machine

variable {σ τ α ρ : Type}

/-- The answer of a machine to a call: the reply and the next state, `none` when the call has
undefined behaviour. -/
abbrev Step (σ α ρ : Type) := σ → α → Option (ρ × σ)

/-- The run of a list of calls: the replies, in order, and the last state. -/
def exec (step : Step σ α ρ) : σ → List α → Option (List ρ × σ)
  | s, [] => some ([], s)
  | s, c :: cs =>
    match step s c with
    | none => none
    | some (r, s') => (exec step s' cs).map fun p => (r :: p.1, p.2)

/-- Every call of the run meets `guard` in the state in which it is made. -/
def Legal (step : Step σ α ρ) (guard : σ → α → Prop) : σ → List α → Prop
  | _, [] => True
  | s, c :: cs => guard s c ∧ ∀ r s', step s c = some (r, s') → Legal step guard s' cs

/-- Every state of the run, the first and the last included, satisfies `P`. -/
def Always (step : Step σ α ρ) (P : σ → Prop) : σ → List α → Prop
  | s, [] => P s
  | s, c :: cs => P s ∧ ∀ r s', step s c = some (r, s') → Always step P s' cs

/-- The states a run whose calls meet `guard` can reach from `s₀`. -/
inductive Reach (step : Step σ α ρ) (guard : σ → α → Prop) (s₀ : σ) : σ → Prop where
  /-- The first state. -/
  | init : Reach step guard s₀ s₀
  /-- One more call. -/
  | next {s s' : σ} {c : α} {r : ρ} (h : Reach step guard s₀ s) (hg : guard s c)
      (hs : step s c = some (r, s')) : Reach step guard s₀ s'

/-- The runs of a reference machine that may answer a call in several ways. -/
inductive Runs (spec : τ → α → ρ → τ → Prop) : τ → List α → List ρ → τ → Prop where
  | nil {t : τ} : Runs spec t [] [] t
  | cons {t t' t'' : τ} {c : α} {cs : List α} {r : ρ} {rs : List ρ} (h : spec t c r t')
      (hrest : Runs spec t' cs rs t'') : Runs spec t (c :: cs) (r :: rs) t''

section Run

variable {step : Step σ α ρ} {guard : σ → α → Prop}

instance decidableLegal [∀ s c, Decidable (guard s c)] :
    ∀ (s : σ) (cs : List α), Decidable (Legal step guard s cs)
  | _, [] => isTrue trivial
  | s, c :: cs =>
    match h : step s c with
    | none => decidable_of_iff (guard s c) (by simp [Legal, h])
    | some (r, s') =>
      have : Decidable (Legal step guard s' cs) := decidableLegal s' cs
      decidable_of_iff (guard s c ∧ Legal step guard s' cs) (by simp [Legal, h])

instance decidableAlways {P : σ → Prop} [∀ s, Decidable (P s)] :
    ∀ (s : σ) (cs : List α), Decidable (Always step P s cs)
  | s, [] => inferInstanceAs (Decidable (P s))
  | s, c :: cs =>
    match h : step s c with
    | none => decidable_of_iff (P s) (by simp [Always, h])
    | some (r, s') =>
      have : Decidable (Always step P s' cs) := decidableAlways s' cs
      decidable_of_iff (P s ∧ Always step P s' cs) (by simp [Always, h])

/-- The run of a total reference machine. -/
def specRun (spec : τ → α → ρ × τ) : τ → List α → List ρ × τ
  | t, [] => ([], t)
  | t, c :: cs => ((spec t c).1 :: (specRun spec (spec t c).2 cs).1, (specRun spec (spec t c).2 cs).2)

theorem exec_cons {s s' : σ} {c : α} {r : ρ} (cs : List α) (h : step s c = some (r, s')) :
    exec step s (c :: cs) = (exec step s' cs).map fun p => (r :: p.1, p.2) := by
  simp [exec, h]

/-- A run that ends takes its first step, and ends from there. -/
theorem exec_cons_some {s s' : σ} {c : α} {cs : List α} {rs : List ρ}
    (h : exec step s (c :: cs) = some (rs, s')) :
    ∃ r s1 rs', step s c = some (r, s1) ∧ exec step s1 cs = some (rs', s') ∧ rs = r :: rs' := by
  rcases hc : step s c with _ | ⟨r, s1⟩
  · rw [exec, hc] at h
    cases h
  · rw [exec_cons cs hc] at h
    obtain ⟨⟨rs', s2⟩, hrun, heq⟩ := Option.map_eq_some_iff.mp h
    cases heq
    exact ⟨r, s1, rs', rfl, hrun, rfl⟩

/-- A legal run ends in a reachable state. -/
theorem Reach.exec_legal {s₀ : σ} (cs : List α) :
    ∀ {s s' : σ} {rs : List ρ}, Reach step guard s₀ s → Legal step guard s cs →
      Machine.exec step s cs = some (rs, s') → Reach step guard s₀ s' := by
  induction cs with
  | nil =>
    intro s s' rs h _ he
    obtain ⟨-, rfl⟩ := Prod.mk.inj (Option.some.inj he)
    exact h
  | cons c cs ih =>
    intro s s' rs h hl he
    obtain ⟨r, s1, rs', hc, he', -⟩ := exec_cons_some he
    exact ih (h.next hl.1 hc) (hl.2 r s1 hc) he'

theorem legal_congr {guard' : σ → α → Prop} (h : ∀ s c, guard s c ↔ guard' s c) (cs : List α) :
    ∀ s, Legal step guard s cs ↔ Legal step guard' s cs := by
  induction cs with
  | nil =>
    intro s
    exact Iff.rfl
  | cons c cs ih =>
    intro s
    exact and_congr (h s c) (forall₃_congr fun _ s' _ => ih s')

/-- A condition on the calls alone. -/
theorem legal_of_forall {P : α → Prop} (cs : List α) :
    (∀ c ∈ cs, P c) → ∀ s, Legal step (fun _ c => P c) s cs := by
  induction cs with
  | nil =>
    intro _ s
    trivial
  | cons c cs ih =>
    intro h s
    exact ⟨h c List.mem_cons_self, fun _ s' _ => ih (fun b hb => h b (List.mem_cons_of_mem _ hb)) s'⟩

theorem legal_true (cs : List α) (s : σ) : Legal step (fun _ _ => True) s cs :=
  legal_of_forall cs (fun _ _ => trivial) s

/-- A run ends in a reachable state. -/
theorem Reach.exec {s₀ : σ} (cs : List α) {s s' : σ} {rs : List ρ}
    (h : Reach step (fun _ _ => True) s₀ s) (he : Machine.exec step s cs = some (rs, s')) :
    Reach step (fun _ _ => True) s₀ s' :=
  h.exec_legal cs (legal_true cs s) he

/-- An invariant that every guarded step preserves holds in every reachable state. -/
theorem Reach.invariant {Inv : σ → Prop} {s₀ : σ} (h0 : Inv s₀)
    (hstep : ∀ s c r s', Inv s → guard s c → step s c = some (r, s') → Inv s') {s : σ}
    (h : Reach step guard s₀ s) : Inv s := by
  induction h with
  | init => exact h0
  | next _ hg hs ih => exact hstep _ _ _ _ ih hg hs

/-- The same for an invariant under which every guarded step has a result. -/
theorem Reach.invariant_of_total {Inv : σ → Prop} {s₀ : σ} (h0 : Inv s₀)
    (hstep : ∀ s c, Inv s → guard s c → ∃ r s', step s c = some (r, s') ∧ Inv s') {s : σ}
    (h : Reach step guard s₀ s) : Inv s := by
  refine h.invariant h0 fun s c r s' hs hg hr => ?_
  obtain ⟨r', t, ht, hinv⟩ := hstep s c hs hg
  rw [hr] at ht
  cases ht
  exact hinv

/-- An invariant that every guarded step preserves holds all along a legal run. -/
theorem Legal.always {Inv : σ → Prop}
    (hstep : ∀ s c r s', Inv s → guard s c → step s c = some (r, s') → Inv s') (cs : List α) :
    ∀ s, Inv s → Legal step guard s cs → Always step Inv s cs := by
  induction cs with
  | nil => intro s hs _; exact hs
  | cons c cs ih =>
    intro s hs hl
    exact ⟨hs, fun r s' hr => ih s' (hstep s c r s' hs hl.1 hr) (hl.2 r s' hr)⟩

/-- Where an invariant that the guarded steps preserve gives a weaker guard, a legal run meets that
one too. -/
theorem Legal.imp {Inv : σ → Prop} {guard' : σ → α → Prop}
    (hstep : ∀ s c r s', Inv s → guard s c → step s c = some (r, s') → Inv s')
    (himp : ∀ s c, Inv s → guard s c → guard' s c) (cs : List α) :
    ∀ s, Inv s → Legal step guard s cs → Legal step guard' s cs := by
  induction cs with
  | nil =>
    intro s _ _
    trivial
  | cons c cs ih =>
    intro s hs hl
    exact ⟨himp s c hs hl.1, fun r s' hr => ih s' (hstep s c r s' hs hl.1 hr) (hl.2 r s' hr)⟩

/-- The last call of a legal run. -/
theorem Legal.last {c : α} {cs : List α} :
    ∀ {s s' : σ} {rs : List ρ}, Legal step guard s (cs ++ [c]) →
      exec step s cs = some (rs, s') → guard s' c := by
  induction cs with
  | nil =>
    intro s s' rs h he
    obtain ⟨-, rfl⟩ := Prod.mk.inj (Option.some.inj he)
    exact h.1
  | cons b cs ih =>
    intro s s' rs h he
    obtain ⟨r, s1, rs', hb, he', -⟩ := exec_cons_some he
    exact ih (h.2 r s1 hb) he'

/-- Two guards that are the same where an invariant holds that the steps which meet one of them keep. -/
theorem legal_iff_of_inv {Inv : σ → Prop} {P : α → Prop} {guard' : σ → α → Prop}
    (hiff : ∀ s c, Inv s → P c → (guard s c ↔ guard' s c))
    (hstep : ∀ s c r s', Inv s → P c → guard' s c → step s c = some (r, s') → Inv s')
    (cs : List α) :
    (∀ c ∈ cs, P c) → ∀ s, Inv s → (Legal step guard s cs ↔ Legal step guard' s cs) := by
  induction cs with
  | nil =>
    intro _ s _
    exact Iff.rfl
  | cons c cs ih =>
    intro hP s hs
    have hc := hP c List.mem_cons_self
    have hrest := ih fun d hd => hP d (List.mem_cons_of_mem c hd)
    refine (and_congr_left' (hiff s c hs hc)).trans (and_congr_right fun hg => ?_)
    constructor
    · intro h r s' hr
      exact (hrest s' (hstep s c r s' hs hc hg hr)).mp (h r s' hr)
    · intro h r s' hr
      exact (hrest s' (hstep s c r s' hs hc hg hr)).mpr (h r s' hr)

theorem Always.mono {P Q : σ → Prop} (hPQ : ∀ s, P s → Q s) (cs : List α) :
    ∀ s, Always step P s cs → Always step Q s cs := by
  induction cs with
  | nil => intro s h; exact hPQ s h
  | cons c cs ih => intro s h; exact ⟨hPQ s h.1, fun r s' hr => ih s' (h.2 r s' hr)⟩

/-- The last state of a run that is always in `P`. -/
theorem Always.last {P : σ → Prop} {cs : List α} :
    ∀ {s s' : σ} {rs : List ρ}, Always step P s cs → exec step s cs = some (rs, s') → P s' := by
  induction cs with
  | nil =>
    intro s s' rs h he
    obtain ⟨-, rfl⟩ := Prod.mk.inj (Option.some.inj he)
    exact h
  | cons c cs ih =>
    intro s s' rs h he
    obtain ⟨r, s1, rs', hc, he', -⟩ := exec_cons_some he
    exact ih (h.2 r s1 hc) he'

/-- If `P` after a step forces `guard` at the step, a run that is always in `P` is legal. The
invariant `Inv` holds along every run. -/
theorem Always.legal {Inv P : σ → Prop}
    (hinv : ∀ s c r s', Inv s → step s c = some (r, s') → Inv s')
    (hguard : ∀ s c, Inv s → (∀ r s', step s c = some (r, s') → P s') → guard s c) (cs : List α) :
    ∀ s, Inv s → Always step P s cs → Legal step guard s cs := by
  induction cs with
  | nil => intro s _ _; trivial
  | cons c cs ih =>
    intro s hs h
    have hP : ∀ r s', step s c = some (r, s') → P s' := by
      intro r s' hr
      have := h.2 r s' hr
      cases cs with
      | nil => exact this
      | cons c' cs' => exact this.1
    exact ⟨hguard s c hs hP, fun r s' hr => ih s' (hinv s c r s' hs hr) (h.2 r s' hr)⟩

/-- If `Inv` is kept by the steps that meet `guard` and gives `P`, and a step that leads to `P` meets
`guard`, then the runs that are always in `P` are those whose steps all meet `guard`. -/
theorem always_iff_legal {Inv P : σ → Prop} (hP : ∀ s, Inv s → P s)
    (hstep : ∀ s c r s', Inv s → guard s c → step s c = some (r, s') → Inv s')
    (hguard : ∀ s c, Inv s → (∀ r s', step s c = some (r, s') → P s') → guard s c) (cs : List α) :
    ∀ s, Inv s → (Always step P s cs ↔ Legal step guard s cs) := by
  induction cs with
  | nil =>
    intro s hs
    exact ⟨fun _ => trivial, fun _ => hP s hs⟩
  | cons c cs ih =>
    intro s hs
    constructor
    · intro h
      have hnext : ∀ r s', step s c = some (r, s') → P s' := by
        intro r s' hr
        have := h.2 r s' hr
        cases cs with
        | nil => exact this
        | cons c' cs' => exact this.1
      have hg := hguard s c hs hnext
      exact ⟨hg, fun r s' hr => (ih s' (hstep s c r s' hs hg hr)).mp (h.2 r s' hr)⟩
    · intro h
      exact ⟨hP s hs, fun r s' hr => (ih s' (hstep s c r s' hs h.1 hr)).mpr (h.2 r s' hr)⟩

/-- A flag that a step raises exactly when the step breaks `guard` tells at the end of a run whether
the run is legal. -/
theorem legal_iff_of_flag {Inv B : σ → Prop}
    (hinv : ∀ s c r s', Inv s → step s c = some (r, s') → Inv s')
    (hflag : ∀ s c r s', Inv s → step s c = some (r, s') → (B s' ↔ B s ∨ ¬ guard s c)) {cs : List α} :
    ∀ {s s' : σ} {rs : List ρ}, Inv s → exec step s cs = some (rs, s') →
      (B s' ↔ B s ∨ ¬ Legal step guard s cs) := by
  induction cs with
  | nil =>
    intro s s' rs _ he
    obtain ⟨-, rfl⟩ := Prod.mk.inj (Option.some.inj he)
    exact ⟨.inl, fun h => h.resolve_right fun hl => hl trivial⟩
  | cons c cs ih =>
    intro s s' rs hs he
    obtain ⟨r, s1, rs', hc, he', -⟩ := exec_cons_some he
    have hlegal : Legal step guard s (c :: cs) ↔ guard s c ∧ Legal step guard s1 cs := by
      refine ⟨fun h => ⟨h.1, h.2 r s1 hc⟩, fun h => ⟨h.1, ?_⟩⟩
      intro q t ht
      rw [hc] at ht
      obtain ⟨-, rfl⟩ := Prod.mk.inj (Option.some.inj ht)
      exact h.2
    rw [ih (hinv s c r s1 hs hc) he', hflag s c r s1 hs hc, hlegal, not_and_or, or_assoc]

/-- Where every step makes a measure smaller, a run has at most as many steps as it measures at its
start. -/
theorem exec_length_le {Inv : σ → Prop} {μ : σ → Nat}
    (hstep : ∀ s c r s', Inv s → step s c = some (r, s') → Inv s' ∧ μ s' < μ s) {cs : List α} :
    ∀ {s s' : σ} {rs : List ρ}, Inv s → exec step s cs = some (rs, s') → cs.length ≤ μ s := by
  induction cs with
  | nil =>
    intro s s' rs _ _
    exact Nat.zero_le _
  | cons c cs ih =>
    intro s s' rs hs he
    obtain ⟨r, s1, rs', hc, he', -⟩ := exec_cons_some he
    obtain ⟨hs1, hlt⟩ := hstep s c r s1 hs hc
    have hle := ih hs1 he'
    rw [List.length_cons]
    exact Nat.lt_of_le_of_lt hle hlt

/-- The same for the legal runs of a machine some of whose calls allow further steps: as many as they
cost. -/
theorem Legal.length_le {Inv : σ → Prop} {μ : σ → Nat} {cost : α → Nat}
    (hstep : ∀ s c r s', Inv s → guard s c → step s c = some (r, s') →
      Inv s' ∧ μ s' + 1 ≤ μ s + cost c) {cs : List α} :
    ∀ {s s' : σ} {rs : List ρ}, Inv s → Legal step guard s cs → exec step s cs = some (rs, s') →
      cs.length ≤ μ s + (cs.map cost).sum := by
  induction cs with
  | nil =>
    intro s s' rs _ _ _
    exact Nat.zero_le _
  | cons c cs ih =>
    intro s s' rs hs hl he
    obtain ⟨r, s1, rs', hc, he', -⟩ := exec_cons_some he
    obtain ⟨hs1, hle⟩ := hstep s c r s1 hs hl.1 hc
    have hrest := ih hs1 (hl.2 r s1 hc) he'
    rw [List.length_cons, List.map_cons, List.sum_cons]
    omega

/-- Forward simulation: if every guarded step from related states succeeds, gives the reply of the
reference machine and leads to related states, every legal run gives the replies of the reference
run. -/
theorem Legal.sim {R : σ → τ → Prop} {spec : τ → α → ρ × τ}
    (hstep : ∀ s t c, R s t → guard s c →
      ∃ s', step s c = some ((spec t c).1, s') ∧ R s' (spec t c).2) (cs : List α) :
    ∀ s t, R s t → Legal step guard s cs →
      ∃ s', exec step s cs = some ((specRun spec t cs).1, s') ∧ R s' (specRun spec t cs).2 := by
  induction cs with
  | nil => intro s t hR _; exact ⟨s, rfl, hR⟩
  | cons c cs ih =>
    intro s t hR hl
    obtain ⟨s1, h1, hR1⟩ := hstep s t c hR hl.1
    obtain ⟨s', h2, hR'⟩ := ih s1 (spec t c).2 hR1 (hl.2 _ _ h1)
    refine ⟨s', ?_, hR'⟩
    rw [exec_cons cs h1, h2]
    rfl

/-- Forward simulation by a reference machine that may answer in several ways. -/
theorem Legal.runs {R : σ → τ → Prop} {spec : τ → α → ρ → τ → Prop}
    (hstep : ∀ s t c, R s t → guard s c →
      ∃ r s' t', step s c = some (r, s') ∧ spec t c r t' ∧ R s' t') (cs : List α) :
    ∀ s t, R s t → Legal step guard s cs →
      ∃ rs s' t', exec step s cs = some (rs, s') ∧ Runs spec t cs rs t' ∧ R s' t' := by
  induction cs with
  | nil => intro s t hR _; exact ⟨[], s, t, rfl, .nil, hR⟩
  | cons c cs ih =>
    intro s t hR hl
    obtain ⟨r, s1, t1, h1, hspec, hR1⟩ := hstep s t c hR hl.1
    obtain ⟨rs, s', t', h2, hruns, hR'⟩ := ih s1 t1 hR1 (hl.2 _ _ h1)
    refine ⟨r :: rs, s', t', ?_, .cons hspec hruns, hR'⟩
    rw [exec_cons cs h1, h2]
    rfl

/-- States that no call tells apart: if each call is undefined in both, or gets one reply and leads to
states related again, all runs from related states get the same replies. -/
theorem exec_same {R : σ → σ → Prop} {P : α → Prop}
    (hstep : ∀ s t c, R s t → P c → (step s c = none ∧ step t c = none) ∨
      ∃ r s' t', step s c = some (r, s') ∧ step t c = some (r, t') ∧ R s' t') (cs : List α) :
    (∀ c ∈ cs, P c) → ∀ s t, R s t →
      (exec step s cs).map Prod.fst = (exec step t cs).map Prod.fst := by
  induction cs with
  | nil =>
    intro _ s t _
    rfl
  | cons c cs ih =>
    intro hP s t hR
    rcases hstep s t c hR (hP c List.mem_cons_self) with ⟨hs, ht⟩ | ⟨r, s', t', hs, ht, hR'⟩
    · simp only [exec, hs, ht]
    · have hrest := ih (fun d hd => hP d (List.mem_cons_of_mem c hd)) s' t' hR'
      rw [exec_cons cs hs, exec_cons cs ht, Option.map_map, Option.map_map]
      have hcons : ∀ o : Option (List ρ × σ),
          o.map (Prod.fst ∘ fun p => (r :: p.1, p.2)) = (o.map Prod.fst).map (r :: ·) := by
        intro o
        rw [Option.map_map]
        rfl
      rw [hcons, hcons, hrest]

/-- Two runs of one machine in lock-step: if calls related by `C` lead from related states to related
states and give replies related by `Q`, two runs of related calls give related replies. -/
theorem exec_lockstep {R : σ → σ → Prop} {C : α → α → Prop} {Q : α → α → ρ → ρ → Prop}
    (hstep : ∀ s t c d r q s' t', R s t → C c d → step s c = some (r, s') →
      step t d = some (q, t') → R s' t' ∧ Q c d r q) {cs ds : List α} (hC : List.Forall₂ C cs ds) :
    ∀ {s t rs qs s' t'}, R s t → exec step s cs = some (rs, s') → exec step t ds = some (qs, t') →
      ∀ {i : Nat} {c d r q}, cs[i]? = some c → ds[i]? = some d → rs[i]? = some r → qs[i]? = some q →
        Q c d r q := by
  induction hC with
  | nil =>
    intro s t rs qs s' t' _ _ _ i c d r q hc
    cases hc
  | @cons c₁ d₁ cs ds h₁ hC ih =>
    intro s t rs qs s' t' hR hs ht i c d r q hc hd hr hq
    obtain ⟨r₁, s₁, rs', hsc, hs', rfl⟩ := exec_cons_some hs
    obtain ⟨q₁, t₁, qs', htd, ht', rfl⟩ := exec_cons_some ht
    obtain ⟨hR₁, hQ₁⟩ := hstep s t c₁ d₁ r₁ q₁ s₁ t₁ hR h₁ hsc htd
    cases i with
    | zero =>
      cases hc
      cases hd
      cases hr
      cases hq
      exact hQ₁
    | succ i => exact ih hR₁ hs' ht' hc hd hr hq

end Run

end Machine
