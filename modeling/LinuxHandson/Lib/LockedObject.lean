import LinuxHandson.Lib.Loop
import LinuxHandson.Lib.Machine
import Mathlib.Logic.Function.Basic

/-!
# Objects behind one lock

Threads call the operations of an object whose code runs under a lock, one small step at a time. In the
atomic object each call takes effect in one step between the call and its return. If the section under
the lock, run alone, does what the atomic operation does, then whatever the schedule, what the callers
see of the one is what they can see of the other.
-/

namespace LockedObject

open CLib

variable {ι σ α ρ ℓ : Type}

/-- What the callers see. -/
inductive Action (ι α ρ : Type) where
  | call (i : ι) (c : α)
  | ret (i : ι) (r : ρ)
deriving DecidableEq

/-- Thread `i` makes the call `c`, or its next step. -/
inductive Event (ι α : Type) where
  | call (i : ι) (c : α)
  | go (i : ι)

/-- The calls and the returns of a run, in order. -/
def history (outs : List (Option (Action ι α ρ))) : List (Action ι α ρ) := outs.filterMap id

/-! ## The atomic object -/

namespace Atomic

/-- Where a thread is with respect to the object. -/
inductive Place (α ρ : Type) where
  | idle
  /-- The call has not taken effect. -/
  | pending (c : α)
  | done (r : ρ)

/-- Where each thread is, and the object. -/
structure State (ι σ α ρ : Type) where
  thread : ι → Place α ρ
  data : σ

/-- No thread is in a call. -/
def State.start (s : σ) : State ι σ α ρ := ⟨fun _ => .idle, s⟩

/-- One step of the object with the operations `op`. -/
def step [DecidableEq ι] (op : Machine.Step σ α ρ) :
    Machine.Step (State ι σ α ρ) (Event ι α) (Option (Action ι α ρ)) := fun A e =>
  match e with
  | .call i c =>
    match A.thread i with
    | .idle => some (some (.call i c), { A with thread := Function.update A.thread i (.pending c) })
    | _ => none
  | .go i =>
    match A.thread i with
    | .idle => none
    | .pending c => (op A.data c).map fun p => (none, ⟨Function.update A.thread i (.done p.1), p.2⟩)
    | .done r => some (some (.ret i r), { A with thread := Function.update A.thread i .idle })

end Atomic

/-! ## The object behind a lock -/

/-- The code of the operations: where a call is when it takes the lock, and one step of the section
under the lock, which ends with the unlock and the reply. -/
structure Code (σ α ρ ℓ : Type) where
  enter : α → ℓ
  body : ℓ × σ → Round (ℓ × σ) (ρ × σ)

/-- Where a thread is. -/
inductive Place (α ρ ℓ : Type) where
  | idle
  /-- In the lock call. -/
  | blocked (c : α)
  | inside (l : ℓ)
  /-- After the unlock. -/
  | leaving (r : ρ)

/-- Where each thread is, who holds the lock, and the object. -/
structure State (ι σ α ρ ℓ : Type) where
  thread : ι → Place α ρ ℓ
  owner : Option ι
  data : σ

/-- No thread is in a call, and the lock is free. -/
def State.start (s : σ) : State ι σ α ρ ℓ := ⟨fun _ => .idle, none, s⟩

section Step

variable [DecidableEq ι]

/-- The step of thread `i` from its place. -/
def advance (code : Code σ α ρ ℓ) (S : State ι σ α ρ ℓ) (i : ι) :
    Place α ρ ℓ → Option (Option (Action ι α ρ) × State ι σ α ρ ℓ)
  | .idle => none
  | .blocked c =>
    if S.owner = none then
      some (none, ⟨Function.update S.thread i (.inside (code.enter c)), some i, S.data⟩)
    else none
  | .inside l =>
    match code.body (l, S.data) with
    | .again (l', s') => some (none, ⟨Function.update S.thread i (.inside l'), S.owner, s'⟩)
    | .done (r, s') => some (none, ⟨Function.update S.thread i (.leaving r), none, s'⟩)
    | .undefined => none
  | .leaving r => some (some (.ret i r), { S with thread := Function.update S.thread i .idle })

/-- One step of the code under the lock. -/
def step (code : Code σ α ρ ℓ) :
    Machine.Step (State ι σ α ρ ℓ) (Event ι α) (Option (Action ι α ρ)) := fun S e =>
  match e with
  | .call i c =>
    match S.thread i with
    | .idle => some (some (.call i c), { S with thread := Function.update S.thread i (.blocked c) })
    | _ => none
  | .go i => advance code S i (S.thread i)

end Step

/-- The section under the lock does what the operation does, on the data and for the calls in
question, which the operation leads to data of that kind. -/
def Code.Implements (code : Code σ α ρ ℓ) (op : Machine.Step σ α ρ) (Inv : σ → Prop) (P : α → Prop) :
    Prop :=
  ∀ s c, Inv s → P c →
    ∃ r s', op s c = some (r, s') ∧ Ends code.body (code.enter c, s) (r, s') ∧ Inv s'

/-- The calls of an event meet `P`. -/
def Event.Meets (P : α → Prop) : Event ι α → Prop
  | .call _ c => P c
  | .go _ => True

/-! ## Simulation -/

section Sim

variable {code : Code σ α ρ ℓ} {op : Machine.Step σ α ρ} {Inv : σ → Prop} {P : α → Prop}

/-- A thread behind the lock and the same thread of the atomic object, when the data is `s` behind the
lock and `t` in the object. -/
inductive Match (code : Code σ α ρ ℓ) (op : Machine.Step σ α ρ) (Inv : σ → Prop) (P : α → Prop)
    (s t : σ) : Place α ρ ℓ → Atomic.Place α ρ → Prop where
  | idle : Match code op Inv P s t .idle .idle
  | blocked {c : α} (hc : P c) : Match code op Inv P s t (.blocked c) (.pending c)
  /-- What is left of the section leads to the effect of the call. -/
  | inside {c : α} {l : ℓ} {r : ρ} {s' : σ} (hop : op t c = some (r, s'))
      (hends : Ends code.body (l, s) (r, s')) (hinv : Inv s') :
      Match code op Inv P s t (.inside l) (.pending c)
  | leaving {r : ρ} : Match code op Inv P s t (.leaving r) (.done r)

/-- The states of the two objects. While the lock is free the data is the same. -/
structure Sim (code : Code σ α ρ ℓ) (op : Machine.Step σ α ρ) (Inv : σ → Prop) (P : α → Prop)
    (S : State ι σ α ρ ℓ) (A : Atomic.State ι σ α ρ) : Prop where
  thread : ∀ i, Match code op Inv P S.data A.data (S.thread i) (A.thread i)
  owner : ∀ i l, S.thread i = .inside l → S.owner = some i
  free : S.owner = none → S.data = A.data
  held : ∀ i, S.owner = some i → ∃ l, S.thread i = .inside l
  inv : Inv A.data

theorem Match.change {s t s' t' : σ} {p : Place α ρ ℓ} {q : Atomic.Place α ρ}
    (h : Match code op Inv P s t p q) (hp : ∀ l, p ≠ .inside l) : Match code op Inv P s' t' p q := by
  cases h with
  | idle => exact .idle
  | blocked hc => exact .blocked hc
  | inside => exact absurd rfl (hp _)
  | leaving => exact .leaving

theorem sim_start {s : σ} (hs : Inv s) :
    Sim code op Inv P (State.start s : State ι σ α ρ ℓ) (Atomic.State.start s) where
  thread _ := .idle
  owner := by
    intro i l h
    cases h
  free _ := rfl
  held := by
    intro i h
    cases h
  inv := hs

variable [DecidableEq ι] {S S' : State ι σ α ρ ℓ} {A : Atomic.State ι σ α ρ}

/-- A relation between the places of each thread, when one thread moves. -/
theorem forall_update {β γ : Type} {R : β → γ → Prop} {f : ι → β} {g : ι → γ} {i : ι} {x : β} {y : γ}
    (hi : R x y) (h : ∀ j, j ≠ i → R (f j) (g j)) (j : ι) :
    R (Function.update f i x j) (Function.update g i y j) := by
  by_cases hj : j = i
  · rw [hj, Function.update_self, Function.update_self]
    exact hi
  · rw [Function.update_of_ne hj, Function.update_of_ne hj]
    exact h j hj

/-- A thread outside the lock moves to a place outside the lock. -/
theorem Sim.outside (h : Sim code op Inv P S A) {i : ι} {p : Place α ρ ℓ} {q : Atomic.Place α ρ}
    (hi : ∀ l, S.thread i ≠ .inside l) (hp : ∀ l, p ≠ .inside l)
    (hm : Match code op Inv P S.data A.data p q) :
    Sim code op Inv P { S with thread := Function.update S.thread i p }
      { A with thread := Function.update A.thread i q } where
  thread := forall_update hm fun j _ => h.thread j
  owner := by
    intro j l hl
    by_cases hj : j = i
    · rw [hj] at hl
      exact absurd ((Function.update_self i p S.thread).symm.trans hl) (hp l)
    · exact h.owner j l ((Function.update_of_ne hj p S.thread).symm.trans hl)
  free := h.free
  held := by
    intro j hj
    obtain ⟨l, hl⟩ := h.held j hj
    have hne : j ≠ i := by
      rintro rfl
      exact hi l hl
    exact ⟨l, (Function.update_of_ne hne p S.thread).trans hl⟩
  inv := h.inv

/-- A step of a thread that has the lock or takes it: the others are outside, so that the data may
change for them. -/
theorem Sim.owned (h : Sim code op Inv P S A) {i : ι} (hout : ∀ j l, j ≠ i → S.thread j ≠ .inside l)
    {p : Place α ρ ℓ} {q : Atomic.Place α ρ} {s t : σ} {o : Option ι}
    (hm : Match code op Inv P s t p q) (ho : ∀ l, p = .inside l → o = some i)
    (hheld : ∀ j, o = some j → j = i ∧ ∃ l, p = .inside l) (hfree : o = none → s = t) (ht : Inv t) :
    Sim code op Inv P ⟨Function.update S.thread i p, o, s⟩ ⟨Function.update A.thread i q, t⟩ where
  thread := forall_update hm fun j hj => (h.thread j).change fun l => hout j l hj
  owner := by
    intro j l hl
    by_cases hj : j = i
    · rw [hj] at hl ⊢
      exact ho l ((Function.update_self i p S.thread).symm.trans hl)
    · exact absurd ((Function.update_of_ne hj p S.thread).symm.trans hl) (hout j l hj)
  free := hfree
  held := by
    intro j hj
    obtain ⟨rfl, l, hl⟩ := hheld j hj
    exact ⟨l, (Function.update_self j p S.thread).trans hl⟩
  inv := ht

theorem Sim.call (h : Sim code op Inv P S A) {i : ι} {c : α} (hc : P c) (hi : S.thread i = .idle) :
    ∃ A', Atomic.step op A (.call i c) = some (some (.call i c), A') ∧
      Sim code op Inv P { S with thread := Function.update S.thread i (.blocked c) } A' := by
  have hm := h.thread i
  rw [hi] at hm
  generalize hA : A.thread i = q at hm
  cases hm
  refine ⟨_, by simp only [Atomic.step, hA], h.outside ?_ nofun (.blocked hc)⟩
  intro l hl
  rw [hi] at hl
  cases hl

/-- The lock is taken: no thread of the atomic object moves. -/
theorem Sim.acquire (h : Sim code op Inv P S A) (himp : code.Implements op Inv P) {i : ι} {c : α}
    (hi : S.thread i = .blocked c) (hfree : S.owner = none) :
    Sim code op Inv P ⟨Function.update S.thread i (.inside (code.enter c)), some i, S.data⟩ A := by
  have hm := h.thread i
  rw [hi] at hm
  generalize hA : A.thread i = q at hm
  cases hm with
  | blocked hc =>
    obtain ⟨r, s', hop, hends, hinv⟩ := himp A.data c h.inv hc
    rw [← h.free hfree] at hends
    have hout : ∀ j l, j ≠ i → S.thread j ≠ .inside l := by
      intro j l _ hl
      rw [h.owner j l hl] at hfree
      cases hfree
    have hsim := h.owned (o := some i) hout (Match.inside (P := P) hop hends hinv) (fun _ _ => rfl)
      (fun j hj => ⟨(Option.some.inj hj).symm, _, rfl⟩) nofun h.inv
    rw [← hA, Function.update_eq_self] at hsim
    exact hsim

/-- A step of the section: the call takes effect in the atomic object with the last one. -/
theorem Sim.section (h : Sim code op Inv P S A) {i : ι} {l : ℓ} (hi : S.thread i = .inside l) :
    (∃ l' s', code.body (l, S.data) = .again (l', s') ∧
      Sim code op Inv P ⟨Function.update S.thread i (.inside l'), S.owner, s'⟩ A) ∨
    ∃ r s' A', code.body (l, S.data) = .done (r, s') ∧ Atomic.step op A (.go i) = some (none, A') ∧
      Sim code op Inv P ⟨Function.update S.thread i (.leaving r), none, s'⟩ A' := by
  have hown := h.owner i l hi
  have hout : ∀ j l, j ≠ i → S.thread j ≠ .inside l := fun j l hj hl =>
    hj (Option.some.inj ((h.owner j l hl).symm.trans hown))
  have hm := h.thread i
  rw [hi] at hm
  generalize hA : A.thread i = q at hm
  cases hm with
  | @inside c _ r s' hop hends hinv =>
    rcases hends.cases with hd | ⟨⟨l', s1⟩, ha, hrest⟩
    · right
      refine ⟨r, s', ⟨Function.update A.thread i (.done r), s'⟩, hd, ?_, ?_⟩
      · simp only [Atomic.step, hA, hop, Option.map_some]
      · exact h.owned hout .leaving nofun nofun (fun _ => rfl) hinv
    · left
      refine ⟨l', s1, ha, ?_⟩
      have hsim := h.owned (o := S.owner) hout (Match.inside (P := P) hop hrest hinv) (fun _ _ => hown)
        (fun j hj => ⟨Option.some.inj (hj.symm.trans hown), l', rfl⟩)
        (fun hnone => by rw [hown] at hnone; cases hnone) h.inv
      rw [← hA, Function.update_eq_self] at hsim
      exact hsim

theorem Sim.leave (h : Sim code op Inv P S A) {i : ι} {r : ρ} (hi : S.thread i = .leaving r) :
    ∃ A', Atomic.step op A (.go i) = some (some (.ret i r), A') ∧
      Sim code op Inv P { S with thread := Function.update S.thread i .idle } A' := by
  have hm := h.thread i
  rw [hi] at hm
  generalize hA : A.thread i = q at hm
  cases hm
  refine ⟨_, by simp only [Atomic.step, hA], h.outside ?_ nofun .idle⟩
  intro l hl
  rw [hi] at hl
  cases hl

/-- A step behind the lock is one of the atomic object that the callers see as the same, or none. -/
theorem Sim.step (h : Sim code op Inv P S A) (himp : code.Implements op Inv P) {e : Event ι α}
    (he : e.Meets P) {o : Option (Action ι α ρ)} (hs : LockedObject.step code S e = some (o, S')) :
    (o = none ∧ Sim code op Inv P S' A) ∨
      ∃ A', Atomic.step op A e = some (o, A') ∧ Sim code op Inv P S' A' := by
  cases e with
  | call i c =>
    simp only [LockedObject.step] at hs
    split at hs
    · next hi =>
      cases hs
      exact Or.inr (h.call he hi)
    · cases hs
  | go i =>
    simp only [LockedObject.step] at hs
    cases hi : S.thread i with
    | idle =>
      rw [hi] at hs
      cases hs
    | blocked c =>
      rw [hi] at hs
      simp only [advance] at hs
      split at hs
      · next hfree =>
        cases hs
        exact Or.inl ⟨rfl, h.acquire himp hi hfree⟩
      · cases hs
    | inside l =>
      rw [hi] at hs
      simp only [advance] at hs
      rcases h.section hi with ⟨l', s', hb, hsim⟩ | ⟨r, s', A', hb, hstep, hsim⟩
      · rw [hb] at hs
        cases hs
        exact Or.inl ⟨rfl, hsim⟩
      · rw [hb] at hs
        cases hs
        exact Or.inr ⟨A', hstep, hsim⟩
    | leaving r =>
      rw [hi] at hs
      cases hs
      exact Or.inr (h.leave hi)

/-- What the callers see behind the lock, they can see of the atomic object. -/
theorem Sim.exec (himp : code.Implements op Inv P) (es : List (Event ι α)) :
    ∀ {S S' : State ι σ α ρ ℓ} {A : Atomic.State ι σ α ρ} {outs : List (Option (Action ι α ρ))},
      Sim code op Inv P S A → (∀ e ∈ es, e.Meets P) →
      Machine.exec (LockedObject.step code) S es = some (outs, S') →
      ∃ es' outs' A', es'.Sublist es ∧ Machine.exec (Atomic.step op) A es' = some (outs', A') ∧
        history outs' = history outs ∧ Sim code op Inv P S' A' := by
  induction es with
  | nil =>
    intro S S' A outs h _ hs
    obtain ⟨rfl, rfl⟩ := Prod.mk.inj (Option.some.inj hs)
    exact ⟨[], [], A, List.Sublist.refl _, rfl, rfl, h⟩
  | cons e es ih =>
    intro S S' A outs h he hs
    obtain ⟨o, S1, outs1, hstep, hrest, rfl⟩ := Machine.exec_cons_some hs
    have htail := fun d hd => he d (List.mem_cons_of_mem e hd)
    rcases h.step himp (he e List.mem_cons_self) hstep with ⟨rfl, h1⟩ | ⟨A1, hA1, h1⟩
    · obtain ⟨es', outs', A', hsub, hrun, hhist, h'⟩ := ih h1 htail hrest
      exact ⟨es', outs', A', hsub.cons e, hrun, hhist, h'⟩
    · obtain ⟨es', outs', A', hsub, hrun, hhist, h'⟩ := ih h1 htail hrest
      refine ⟨e :: es', o :: outs', A', hsub.cons_cons e, ?_, ?_, h'⟩
      · rw [Machine.exec_cons es' hA1, hrun, Option.map_some]
      · show List.filterMap id (o :: outs') = List.filterMap id (o :: outs1)
        rw [List.filterMap_cons, List.filterMap_cons]
        have hh : List.filterMap id outs' = List.filterMap id outs1 := hhist
        rw [hh]

/-- No thread is stuck: while a call has not returned some thread can make a step. -/
theorem Sim.alive (h : Sim code op Inv P S A) {i : ι} (hi : S.thread i ≠ .idle) :
    ∃ j, (LockedObject.step code S (.go j)).isSome := by
  cases ho : S.owner with
  | some j =>
    obtain ⟨l, hl⟩ := h.held j ho
    refine ⟨j, ?_⟩
    simp only [LockedObject.step, hl, advance]
    rcases h.section hl with ⟨l', s', hb, -⟩ | ⟨r, s', A', hb, -, -⟩
    · rw [hb]
      rfl
    · rw [hb]
      rfl
  | none =>
    refine ⟨i, ?_⟩
    simp only [LockedObject.step]
    cases hp : S.thread i with
    | idle => exact absurd hp hi
    | blocked c =>
      simp only [advance, if_pos ho]
      rfl
    | inside l =>
      rw [h.owner i l hp] at ho
      cases ho
    | leaving r => rfl

end Sim

end LockedObject
