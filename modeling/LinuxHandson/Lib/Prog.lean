import LinuxHandson.Lib.Machine
import Mathlib.Logic.Function.Basic

/-!
# Programs that call an environment

A program is the tree of the calls it can make: each call stops it until the environment answers.
A handler that keeps a state answers the calls of one program at a time; a pool of programs makes
its calls to one shared state, in the order of a schedule. The result of this file is that programs
of a pool end as they end alone, in every schedule in which each call is answered from a state that
looks to its caller as the one that the caller's own calls would have left.
-/

/-- A program that makes calls `op : Op`, answered in `Res op`, and returns a value of `α`. `stuck`
has no result: undefined behaviour, or a loop that used up its rounds. -/
inductive Prog (Op : Type) (Res : Op → Type) (α : Type) : Type where
  | ret (a : α)
  | call (op : Op) (k : Res op → Prog Op Res α)
  | stuck

namespace Prog

variable {Op : Type} {Res : Op → Type} {σ ι α β : Type}

/-- `p`, then `f` on its result. -/
def bind : Prog Op Res α → (α → Prog Op Res β) → Prog Op Res β
  | .ret a, f => f a
  | .call op k, f => .call op fun r => (k r).bind f
  | .stuck, _ => .stuck

instance : Monad (Prog Op Res) where
  pure := .ret
  bind := bind

theorem ret_bind (a : α) (f : α → Prog Op Res β) : (pure a : Prog Op Res α) >>= f = f a := rfl

theorem bind_ret (p : Prog Op Res α) : (p >>= fun a => pure a) = p := by
  induction p with
  | ret a => rfl
  | call op k ih => exact congrArg (Prog.call op) (funext ih)
  | stuck => rfl

theorem bind_assoc {γ : Type} (p : Prog Op Res α) (f : α → Prog Op Res β) (g : β → Prog Op Res γ) :
    p >>= f >>= g = p >>= fun a => f a >>= g := by
  induction p with
  | ret a => rfl
  | call op k ih => exact congrArg (Prog.call op) (funext ih)
  | stuck => rfl

/-- One call, whose answer is the result. -/
def ask (op : Op) : Prog Op Res (Res op) := .call op .ret

/-- The value of a program that has ended. -/
def value? : Prog Op Res α → Option α
  | .ret a => some a
  | _ => none

/-- How an environment with state `σ` answers calls. -/
abbrev Handler (Op : Type) (Res : Op → Type) (σ : Type) := (op : Op) → σ → Res op × σ

/-- The result of a program and the state its calls leave. -/
def run (h : Handler Op Res σ) : Prog Op Res α → σ → Option (α × σ)
  | .ret a, s => some (a, s)
  | .call op k, s => (k (h op s).1).run h (h op s).2
  | .stuck, _ => none

section Run

variable {h : Handler Op Res σ}

@[simp] theorem run_pure (a : α) (s : σ) : (pure a : Prog Op Res α).run h s = some (a, s) := rfl

@[simp] theorem run_call (op : Op) (k : Res op → Prog Op Res α) (s : σ) :
    (call op k).run h s = (k (h op s).1).run h (h op s).2 := rfl

@[simp] theorem run_bind (p : Prog Op Res α) (f : α → Prog Op Res β) (s : σ) :
    (p >>= f).run h s = (p.run h s).bind fun x => (f x.1).run h x.2 := by
  induction p generalizing s with
  | ret a => rfl
  | call op k ih => exact ih _ _
  | stuck => rfl

theorem run_bind_of_eq {p : Prog Op Res α} {f : α → Prog Op Res β} {s s' : σ} {a : α}
    (hp : p.run h s = some (a, s')) : (p >>= f).run h s = (f a).run h s' := by
  rw [run_bind, hp]
  rfl

end Run

/-! ## Programs whose result does not depend on the state they start in -/

/-- The result of a program, not the state it leaves, is the same from every state. -/
def StartFree (h : Handler Op Res σ) (p : Prog Op Res α) : Prop :=
  ∀ s t, (p.run h s).map Prod.fst = (p.run h t).map Prod.fst

section StartFree

variable {h : Handler Op Res σ}

theorem startFree_ret (a : α) : StartFree h (ret a : Prog Op Res α) := fun _ _ => rfl

theorem startFree_stuck : StartFree h (stuck : Prog Op Res α) := fun _ _ => rfl

theorem StartFree.bind {p : Prog Op Res α} {f : α → Prog Op Res β} (hp : StartFree h p)
    (hf : ∀ a, StartFree h (f a)) : StartFree h (p >>= f) := by
  intro s t
  have hst := hp s t
  rw [run_bind, run_bind]
  rcases hs : p.run h s with _ | ⟨a, s'⟩
  · rcases ht : p.run h t with _ | ⟨b, t'⟩
    · rfl
    · rw [hs, ht] at hst
      cases hst
  · rcases ht : p.run h t with _ | ⟨b, t'⟩
    · rw [hs, ht] at hst
      cases hst
    · rw [hs, ht] at hst
      obtain rfl : a = b := Option.some.inj hst
      exact hf a s' t'

end StartFree

/-! ## Programs that share a state -/

/-- Programs that run at the same time over one state. Beside the state stands, for each program,
the state as its own calls alone have left it, which no step reads. -/
structure Pool (Op : Type) (Res : Op → Type) (σ τ ι α : Type) where
  /-- What is left of each program. -/
  thread : ι → Prog Op Res α
  /-- The state that answers the calls. -/
  shared : σ
  /-- The state after the calls of one program, made alone. -/
  own : ι → τ

namespace Pool

variable {τ : Type} {h : ι → Handler Op Res σ} {g : Handler Op Res τ}

/-- All programs at their start, in state `s₀`, which is `t₀` to a program alone. -/
def start (prog : ι → Prog Op Res α) (s₀ : σ) (t₀ : τ) : Pool Op Res σ τ ι α where
  thread := prog
  shared := s₀
  own := fun _ => t₀

/-- The next call of program `i`. There is none once it has ended. The shared state may note who
calls; `g` answers a program that is alone. -/
def step [DecidableEq ι] (h : ι → Handler Op Res σ) (g : Handler Op Res τ) :
    Machine.Step (Pool Op Res σ τ ι α) ι Unit := fun P i =>
  match P.thread i with
  | .call op k =>
    some ((), {
      thread := Function.update P.thread i (k (h i op P.shared).1)
      shared := (h i op P.shared).2
      own := Function.update P.own i (g op (P.own i)).2 })
  | _ => none

/-- The next call of program `i` finds in the state what the program's own calls left there. `same`
says this of the two states for one kind of call. -/
def Undisturbed (same : ι → Op → σ → τ → Prop) (P : Pool Op Res σ τ ι α) (i : ι) : Prop :=
  ∀ op k, P.thread i = .call op k → same i op P.shared (P.own i)

instance {same : ι → Op → σ → τ → Prop} [∀ i op s t, Decidable (same i op s t)]
    (P : Pool Op Res σ τ ι α) (i : ι) : Decidable (Undisturbed same P i) :=
  match hi : P.thread i with
  | .call op k => decidable_of_iff (same i op P.shared (P.own i))
      ⟨fun hs _ _ hc => by rw [hi] at hc; cases hc; exact hs, fun hu => hu op k hi⟩
  | .ret a => isTrue (fun _ _ hc => by rw [hi] at hc; cases hc)
  | .stuck => isTrue (fun _ _ hc => by rw [hi] at hc; cases hc)

/-- Every program goes on alone to the end that the whole program has alone. -/
def OnCourse (g : Handler Op Res τ) (prog : ι → Prog Op Res α) (t₀ : τ)
    (P : Pool Op Res σ τ ι α) : Prop :=
  ∀ i, (P.thread i).run g (P.own i) = (prog i).run g t₀

theorem onCourse_start (prog : ι → Prog Op Res α) (s₀ : σ) (t₀ : τ) :
    OnCourse g prog t₀ (start prog s₀ t₀) := fun _ => rfl

variable [DecidableEq ι]

theorem onCourse_step {same : ι → Op → σ → τ → Prop}
    (hsame : ∀ i op s t, same i op s t → (h i op s).1 = (g op t).1)
    {prog : ι → Prog Op Res α} {t₀ : τ} (P : Pool Op Res σ τ ι α) (i : ι) (r : Unit)
    (P' : Pool Op Res σ τ ι α) (hP : OnCourse g prog t₀ P) (hu : Undisturbed same P i)
    (hs : step h g P i = some (r, P')) : OnCourse g prog t₀ P' := by
  unfold step at hs
  split at hs
  · rename_i op k hk
    obtain ⟨-, rfl⟩ := Prod.mk.inj (Option.some.inj hs)
    intro j
    by_cases hj : j = i
    · subst hj
      have hcall := hP j
      rw [hk, run_call, ← hsame j op _ _ (hu op k hk)] at hcall
      simpa using hcall
    · simpa [hj] using hP j
  · cases hs

/-- Along every run whose steps are undisturbed, each program that has ended has the result that it
has alone. -/
theorem ends_as_alone {same : ι → Op → σ → τ → Prop}
    (hsame : ∀ i op s t, same i op s t → (h i op s).1 = (g op t).1)
    (prog : ι → Prog Op Res α) (s₀ : σ) (t₀ : τ) (is : List ι)
    (hl : Machine.Legal (step h g) (Undisturbed same) (start prog s₀ t₀) is) :
    Machine.Always (step h g)
      (fun P => ∀ i a, P.thread i = .ret a → ((prog i).run g t₀).map Prod.fst = some a)
      (start prog s₀ t₀) is := by
  have hon : Machine.Always (step h g) (OnCourse g prog t₀) (start prog s₀ t₀) is :=
    Machine.Legal.always (fun P i r P' hP hu hs => onCourse_step hsame P i r P' hP hu hs) is _
      (onCourse_start prog s₀ t₀) hl
  refine Machine.Always.mono ?_ is _ hon
  intro P hP i a hi
  rw [← hP i, hi]
  rfl

end Pool

end Prog
