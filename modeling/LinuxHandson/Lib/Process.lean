import LinuxHandson.Lib.Machine
import Mathlib.Logic.Function.Basic

/-!
# Processes

Processes that come from `fork`, with their descriptor tables. One that has ended is a zombie until its
parent has waited for it, and from its end `SIGCHLD` is pending in the parent until the handler runs.
What descriptors stand for is a parameter, and so are the system calls on it.
-/

namespace Process

variable {ι ω ℓ σ : Type}

/-! ## Descriptor tables -/

/-- A descriptor table: what each descriptor stands for, `none` where it is closed. -/
abbrev Fds (ω : Type) := List (Option ω)

/-- What `fd` stands for. -/
def Fds.get (t : Fds ω) (fd : Nat) : Option ω := t[fd]?.join

/-- The lowest closed descriptor, and the table in which it stands for `o`. -/
def Fds.add (t : Fds ω) (o : ω) : Nat × Fds ω :=
  let fd := t.findIdx Option.isNone
  (fd, if fd < t.length then t.set fd (some o) else t ++ [some o])

/-- `close(fd)` -/
def Fds.close (t : Fds ω) (fd : Nat) : Fds ω := t.set fd none

/-- `dup2(oldfd, newfd)` -/
def Fds.dup2 (t : Fds ω) (oldfd newfd : Nat) : Fds ω :=
  match t.get oldfd with
  | none => t
  | some o =>
    if newfd < t.length then t.set newfd (some o)
    else t ++ List.replicate (newfd - t.length) none ++ [some o]

/-! ## The system -/

/-- How a process has ended. -/
inductive Status where
  | exited (code : Nat)
  /-- By a signal. -/
  | killed
deriving DecidableEq

/-- The life of a process. -/
inductive Life (ω ℓ : Type) where
  /-- Not forked yet. -/
  | absent
  | running (loc : ℓ) (fds : Fds ω)
  | zombie (status : Status)
  | reaped (status : Status)
deriving DecidableEq

/-- The process has not ended. -/
def Life.isRunning : Life ω ℓ → Bool
  | .running _ _ => true
  | _ => false

/-- The process has ended, and has not been waited for. -/
def Life.isZombie : Life ω ℓ → Bool
  | .zombie _ => true
  | _ => false

/-- The process has ended with `st`. -/
def Life.EndedWith (p : Life ω ℓ) (st : Status) : Prop := p = .zombie st ∨ p = .reaped st

theorem Life.EndedWith.not_running {p : Life ω ℓ} {st : Status} (h : p.EndedWith st) :
    p.isRunning = false := by
  rcases h with rfl | rfl
  · rfl
  · rfl

/-- A descriptor of the process stands for `o`. -/
def Life.holds [DecidableEq ω] (o : ω) : Life ω ℓ → Bool
  | .running _ fds => decide (some o ∈ fds)
  | _ => false

/-- What a process does next. -/
inductive Act (ι ω ℓ σ : Type) where
  /-- `fork`: the child is at `start`, the parent goes on by whether there is one. -/
  | fork (child : ι) (start : ℓ) (next : Bool → ℓ)
  | exit (code : Nat)
  /-- `waitpid` for the child `who`, or for any with -1. -/
  | wait (who : Option ι) (next : ℓ)
  /-- `waitpid(-1, _, WNOHANG)`, after which the process goes on by whether it has got a child. -/
  | poll (next : Bool → ℓ)
  /-- A system call on the descriptors, given what is still open in some process and a choice of the
  kernel. It has no result while it blocks, and no next place when a signal ends the process. -/
  | sys (f : (ω → Bool) → Nat → Fds ω → σ → Option (Option ℓ × Fds ω × σ))

/-- The processes with their parents, and what they share. -/
structure State (ι ω ℓ σ : Type) where
  proc : ι → Life ω ℓ
  parent : ι → Option ι
  /-- The processes there have been. -/
  spawned : List ι
  /-- `SIGCHLD` is pending. -/
  pending : ι → Bool
  data : σ

/-- Who makes the next step. -/
inductive Event (ι : Type) where
  | go (i : ι) (choice : Nat)
  | forkFails (i : ι)
  /-- Process `i` gets the zombie `j` from `waitpid`. -/
  | collect (i j : ι)
  /-- The handler of `SIGCHLD` starts. -/
  | signal (i : ι)
deriving DecidableEq

namespace State

/-- One process, which has no parent here. -/
def start [DecidableEq ι] (i : ι) (l : ℓ) (fds : Fds ω) (s : σ) : State ι ω ℓ σ where
  proc := Function.update (fun _ => .absent) i (.running l fds)
  parent := fun _ => none
  spawned := [i]
  pending := fun _ => false
  data := s

/-- Some descriptor of some process stands for `o`. -/
def isOpen [DecidableEq ω] (S : State ι ω ℓ σ) (o : ω) : Bool :=
  S.spawned.any fun i => (S.proc i).holds o

/-- Every process that there has been is listed. -/
def Listed (S : State ι ω ℓ σ) : Prop := ∀ i, S.proc i ≠ .absent → i ∈ S.spawned

/-- `o` is open when a process that runs holds it. -/
theorem Listed.isOpen_iff [DecidableEq ω] {S : State ι ω ℓ σ} (h : S.Listed) (o : ω) :
    S.isOpen o = true ↔ ∃ i l fds, S.proc i = .running l fds ∧ some o ∈ fds := by
  constructor
  · intro ho
    obtain ⟨i, -, hi⟩ := List.any_eq_true.mp ho
    cases hp : S.proc i with
    | running l fds =>
      rw [hp] at hi
      exact ⟨i, l, fds, hp, of_decide_eq_true hi⟩
    | absent => simp [hp, Life.holds] at hi
    | zombie st => simp [hp, Life.holds] at hi
    | reaped st => simp [hp, Life.holds] at hi
  · rintro ⟨i, l, fds, hp, hfd⟩
    refine List.any_eq_true.mpr ⟨i, h i (by simp [hp]), ?_⟩
    rw [hp]
    exact decide_eq_true hfd

/-- What is not open no process holds. -/
theorem Listed.not_held [DecidableEq ω] {S : State ι ω ℓ σ} (h : S.Listed) {o : ω}
    (ho : S.isOpen o = false) {i : ι} {l : ℓ} {fds : Fds ω} (hi : S.proc i = .running l fds) :
    some o ∉ fds := by
  intro hfd
  have hopen := (h.isOpen_iff o).mpr ⟨i, l, fds, hi, hfd⟩
  rw [ho] at hopen
  cases hopen

variable [DecidableEq ι]

/-- Process `i` is changed. -/
def set (S : State ι ω ℓ σ) (i : ι) (p : Life ω ℓ) : State ι ω ℓ σ :=
  { S with proc := Function.update S.proc i p }

/-- Process `i` ends. -/
def finish (S : State ι ω ℓ σ) (i : ι) (st : Status) : State ι ω ℓ σ :=
  { S with
    proc := Function.update S.proc i (.zombie st)
    pending :=
      match S.parent i with
      | none => S.pending
      | some p => Function.update S.pending p true }

/-- The child `c` of `i`, at `start` with the descriptors of its parent. -/
def spawn (S : State ι ω ℓ σ) (i c : ι) (start : ℓ) (fds : Fds ω) : State ι ω ℓ σ :=
  { S with
    proc := Function.update S.proc c (.running start fds)
    parent := Function.update S.parent c (some i)
    spawned := S.spawned ++ [c] }

/-- `waitpid` of process `i` for `who` may return child `j`, at once or later. -/
def Awaits (S : State ι ω ℓ σ) (i : ι) (who : Option ι) (j : ι) : Prop :=
  S.parent j = some i ∧ (who = none ∨ who = some j)

instance (S : State ι ω ℓ σ) (i : ι) (who : Option ι) (j : ι) : Decidable (S.Awaits i who j) :=
  inferInstanceAs (Decidable (_ ∧ _))

/-- There is no child to wait for. -/
def Childless (S : State ι ω ℓ σ) (i : ι) (who : Option ι) : Prop :=
  ∀ j ∈ S.spawned, S.Awaits i who j → (S.proc j).isRunning = false ∧ (S.proc j).isZombie = false

/-- No child is a zombie. -/
def NoZombie (S : State ι ω ℓ σ) (i : ι) : Prop :=
  ∀ j ∈ S.spawned, S.parent j = some i → (S.proc j).isZombie = false

instance (S : State ι ω ℓ σ) (i : ι) (who : Option ι) : Decidable (S.Childless i who) :=
  inferInstanceAs (Decidable (∀ j ∈ S.spawned, _))

instance (S : State ι ω ℓ σ) (i : ι) : Decidable (S.NoZombie i) :=
  inferInstanceAs (Decidable (∀ j ∈ S.spawned, _))

@[simp] theorem set_proc_self (S : State ι ω ℓ σ) (i : ι) (p : Life ω ℓ) : (S.set i p).proc i = p :=
  Function.update_self ..

theorem set_proc_of_ne (S : State ι ω ℓ σ) {i j : ι} (p : Life ω ℓ) (h : j ≠ i) :
    (S.set i p).proc j = S.proc j :=
  Function.update_of_ne h ..

@[simp] theorem finish_proc_self (S : State ι ω ℓ σ) (i : ι) (st : Status) :
    (S.finish i st).proc i = .zombie st :=
  Function.update_self ..

theorem finish_proc_of_ne (S : State ι ω ℓ σ) {i j : ι} (st : Status) (h : j ≠ i) :
    (S.finish i st).proc j = S.proc j :=
  Function.update_of_ne h ..

theorem listed_start (i : ι) (l : ℓ) (fds : Fds ω) (s : σ) : Listed (start i l fds s) := by
  intro j hj
  by_cases h : j = i
  · subst h
    exact List.mem_singleton_self _
  · have habs : (start i l fds s : State ι ω ℓ σ).proc j = .absent := by simp [start, h]
    exact absurd habs hj

theorem Listed.update {S : State ι ω ℓ σ} (h : S.Listed) {i : ι} (hi : S.proc i ≠ .absent)
    {p : Life ω ℓ} {j : ι} (hj : Function.update S.proc i p j ≠ .absent) : j ∈ S.spawned := by
  by_cases hji : j = i
  · subst hji
    exact h j hi
  · rw [Function.update_of_ne hji] at hj
    exact h j hj

end State

section Step

variable [DecidableEq ι] [DecidableEq ω]

/-- The next step of process `i`. -/
def goStep (code : ι → ℓ → Act ι ω ℓ σ) (S : State ι ω ℓ σ) (i : ι) (choice : Nat) :
    Option (State ι ω ℓ σ) :=
  match S.proc i with
  | .running l fds =>
    match code i l with
    | .fork c start next =>
      match S.proc c with
      | .absent => some ((S.set i (.running (next true) fds)).spawn i c start fds)
      | _ => none
    | .exit n => some (S.finish i (.exited n))
    | .wait who next => if S.Childless i who then some (S.set i (.running next fds)) else none
    | .poll next => if S.NoZombie i then some (S.set i (.running (next false) fds)) else none
    | .sys f =>
      match f S.isOpen choice fds S.data with
      | none => none
      | some (none, _, s) => some ({ S with data := s }.finish i .killed)
      | some (some l', fds', s) => some ({ S with data := s }.set i (.running l' fds'))
  | _ => none

/-- Process `i` gets the zombie `j`. -/
def collectStep (code : ι → ℓ → Act ι ω ℓ σ) (S : State ι ω ℓ σ) (i j : ι) :
    Option (State ι ω ℓ σ) :=
  match S.proc i, S.proc j with
  | .running l fds, .zombie st =>
    match code i l with
    | .wait who next =>
      if S.Awaits i who j then some ((S.set j (.reaped st)).set i (.running next fds)) else none
    | .poll next =>
      if S.Awaits i none j then some ((S.set j (.reaped st)).set i (.running (next true) fds))
      else none
    | _ => none
  | _, _ => none

/-- The `fork` of process `i` fails. -/
def forkFailsStep (code : ι → ℓ → Act ι ω ℓ σ) (S : State ι ω ℓ σ) (i : ι) :
    Option (State ι ω ℓ σ) :=
  match S.proc i with
  | .running l fds =>
    match code i l with
    | .fork _ _ next => some (S.set i (.running (next false) fds))
    | _ => none
  | _ => none

/-- The handler of process `i` starts, where `SIGCHLD` is pending and not blocked. -/
def signalStep (handler : ι → ℓ → Option ℓ) (S : State ι ω ℓ σ) (i : ι) :
    Option (State ι ω ℓ σ) :=
  match S.proc i with
  | .running l fds =>
    if S.pending i then
      (handler i l).map fun l' =>
        { S.set i (.running l' fds) with pending := Function.update S.pending i false }
    else none
  | _ => none

/-- One step of the processes that run `code`, with `handler` as handler of `SIGCHLD`. -/
def step (code : ι → ℓ → Act ι ω ℓ σ) (handler : ι → ℓ → Option ℓ) :
    Machine.Step (State ι ω ℓ σ) (Event ι) Unit := fun S e =>
  (match e with
    | .go i choice => goStep code S i choice
    | .forkFails i => forkFailsStep code S i
    | .collect i j => collectStep code S i j
    | .signal i => signalStep handler S i).map fun S' => ((), S')

/-- The steps, one constructor for each kind. -/
inductive Move (code : ι → ℓ → Act ι ω ℓ σ) (handler : ι → ℓ → Option ℓ) (S : State ι ω ℓ σ)
    (i : ι) (l : ℓ) (fds : Fds ω) : State ι ω ℓ σ → Prop where
  | fork {c : ι} {start : ℓ} {next : Bool → ℓ} (hc : code i l = .fork c start next)
      (hnew : S.proc c = .absent) :
      Move code handler S i l fds ((S.set i (.running (next true) fds)).spawn i c start fds)
  | forkFails {c : ι} {start : ℓ} {next : Bool → ℓ} (hc : code i l = .fork c start next) :
      Move code handler S i l fds (S.set i (.running (next false) fds))
  | exit {n : Nat} (hc : code i l = .exit n) :
      Move code handler S i l fds (S.finish i (.exited n))
  | childless {who : Option ι} {next : ℓ} (hc : code i l = .wait who next)
      (hnone : S.Childless i who) : Move code handler S i l fds (S.set i (.running next fds))
  | wait {who : Option ι} {next : ℓ} {j : ι} {st : Status} (hc : code i l = .wait who next)
      (hj : S.proc j = .zombie st) (hwho : S.Awaits i who j) :
      Move code handler S i l fds ((S.set j (.reaped st)).set i (.running next fds))
  | pollNone {next : Bool → ℓ} (hc : code i l = .poll next) (hnone : S.NoZombie i) :
      Move code handler S i l fds (S.set i (.running (next false) fds))
  | poll {next : Bool → ℓ} {j : ι} {st : Status} (hc : code i l = .poll next)
      (hj : S.proc j = .zombie st) (hwho : S.Awaits i none j) :
      Move code handler S i l fds ((S.set j (.reaped st)).set i (.running (next true) fds))
  | sys {f : (ω → Bool) → Nat → Fds ω → σ → Option (Option ℓ × Fds ω × σ)} {k : Nat} {l' : ℓ}
      {fds' : Fds ω} {s : σ} (hc : code i l = .sys f)
      (hf : f S.isOpen k fds S.data = some (some l', fds', s)) :
      Move code handler S i l fds ({ S with data := s }.set i (.running l' fds'))
  | killed {f : (ω → Bool) → Nat → Fds ω → σ → Option (Option ℓ × Fds ω × σ)} {k : Nat}
      {fds' : Fds ω} {s : σ} (hc : code i l = .sys f)
      (hf : f S.isOpen k fds S.data = some (none, fds', s)) :
      Move code handler S i l fds ({ S with data := s }.finish i .killed)
  | signal {l' : ℓ} (hpend : S.pending i = true) (hh : handler i l = some l') :
      Move code handler S i l fds
        { S.set i (.running l' fds) with pending := Function.update S.pending i false }

variable {code : ι → ℓ → Act ι ω ℓ σ} {handler : ι → ℓ → Option ℓ} {S S' : State ι ω ℓ σ}

theorem goStep_move {i : ι} {k : Nat} (h : goStep code S i k = some S') :
    ∃ l fds, S.proc i = .running l fds ∧ Move code handler S i l fds S' := by
  unfold goStep at h
  split at h
  · next l fds hi =>
    refine ⟨l, fds, hi, ?_⟩
    split at h
    · next c start next hc =>
      split at h
      · next hnew =>
        cases h
        exact .fork hc hnew
      · cases h
    · next n hc =>
      cases h
      exact .exit hc
    · next who next hc =>
      split at h
      · next hnone =>
        cases h
        exact .childless hc hnone
      · cases h
    · next next hc =>
      split at h
      · next hnone =>
        cases h
        exact .pollNone hc hnone
      · cases h
    · next f hc =>
      split at h
      · cases h
      · next hf =>
        cases h
        exact .killed hc hf
      · next hf =>
        cases h
        exact .sys hc hf
  · cases h

theorem collectStep_move {i j : ι} (h : collectStep code S i j = some S') :
    ∃ l fds, S.proc i = .running l fds ∧ Move code handler S i l fds S' := by
  unfold collectStep at h
  split at h
  · next l fds st hi hj =>
    refine ⟨l, fds, hi, ?_⟩
    split at h
    · next who next hc =>
      split at h
      · next hwho =>
        cases h
        exact .wait hc hj hwho
      · cases h
    · next next hc =>
      split at h
      · next hwho =>
        cases h
        exact .poll hc hj hwho
      · cases h
    · cases h
  · cases h

theorem forkFailsStep_move {i : ι} (h : forkFailsStep code S i = some S') :
    ∃ l fds, S.proc i = .running l fds ∧ Move code handler S i l fds S' := by
  unfold forkFailsStep at h
  split at h
  · next l fds hi =>
    refine ⟨l, fds, hi, ?_⟩
    split at h
    · next c start next hc =>
      cases h
      exact .forkFails hc
    · cases h
  · cases h

theorem signalStep_move {i : ι} (h : signalStep handler S i = some S') :
    ∃ l fds, S.proc i = .running l fds ∧ Move code handler S i l fds S' := by
  unfold signalStep at h
  split at h
  · next l fds hi =>
    refine ⟨l, fds, hi, ?_⟩
    split at h
    · next hpend =>
      obtain ⟨l', hh, heq⟩ := Option.map_eq_some_iff.mp h
      cases heq
      exact .signal hpend hh
    · cases h
  · cases h

/-- A step is one of a process that runs. -/
theorem step_move {e : Event ι} {r : Unit} (h : step code handler S e = some (r, S')) :
    ∃ i l fds, S.proc i = .running l fds ∧ Move code handler S i l fds S' := by
  obtain ⟨T, hT, heq⟩ := Option.map_eq_some_iff.mp h
  obtain ⟨-, rfl⟩ := Prod.mk.inj heq
  cases e with
  | go i k => exact ⟨i, goStep_move hT⟩
  | forkFails i => exact ⟨i, forkFailsStep_move hT⟩
  | collect i j => exact ⟨i, collectStep_move hT⟩
  | signal i => exact ⟨i, signalStep_move hT⟩

section Inversion

variable {i : ι} {l : ℓ} {fds : Fds ω}

/-- A step is the start of the handler, or a step of the code alone. -/
theorem Move.signal_or (hm : Move code handler S i l fds S') :
    (∃ l', handler i l = some l' ∧
      S' = { S.set i (.running l' fds) with pending := Function.update S.pending i false }) ∨
      Move code (fun _ _ => none) S i l fds S' := by
  cases hm with
  | signal _ hh => exact .inl ⟨_, hh, rfl⟩
  | fork hc hnew => exact .inr (.fork hc hnew)
  | forkFails hc => exact .inr (.forkFails hc)
  | exit hc => exact .inr (.exit hc)
  | childless hc hnone => exact .inr (.childless hc hnone)
  | wait hc hj hwho => exact .inr (.wait hc hj hwho)
  | pollNone hc hnone => exact .inr (.pollNone hc hnone)
  | poll hc hj hwho => exact .inr (.poll hc hj hwho)
  | sys hc hf => exact .inr (.sys hc hf)
  | killed hc hf => exact .inr (.killed hc hf)

theorem Move.of_fork {c : ι} {start : ℓ} {next : Bool → ℓ} (hc : code i l = .fork c start next)
    (hm : Move code (fun _ _ => none) S i l fds S') :
    (S.proc c = .absent ∧ S' = (S.set i (.running (next true) fds)).spawn i c start fds) ∨
      S' = S.set i (.running (next false) fds) := by
  cases hm with
  | fork hc' hnew =>
    rw [hc] at hc'
    cases hc'
    exact .inl ⟨hnew, rfl⟩
  | forkFails hc' =>
    rw [hc] at hc'
    cases hc'
    exact .inr rfl
  | signal _ hh => cases hh
  | _ hc' => simp [hc] at hc'

theorem Move.of_exit {n : Nat} (hc : code i l = .exit n)
    (hm : Move code (fun _ _ => none) S i l fds S') : S' = S.finish i (.exited n) := by
  cases hm with
  | exit hc' =>
    rw [hc] at hc'
    cases hc'
    rfl
  | signal _ hh => cases hh
  | _ hc' => simp [hc] at hc'

theorem Move.of_wait {who : Option ι} {next : ℓ} (hc : code i l = .wait who next)
    (hm : Move code (fun _ _ => none) S i l fds S') :
    (S.Childless i who ∧ S' = S.set i (.running next fds)) ∨
      ∃ j st, S.proc j = .zombie st ∧ S.Awaits i who j ∧
        S' = (S.set j (.reaped st)).set i (.running next fds) := by
  cases hm with
  | childless hc' hnone =>
    rw [hc] at hc'
    cases hc'
    exact .inl ⟨hnone, rfl⟩
  | wait hc' hj hwho =>
    rw [hc] at hc'
    cases hc'
    exact .inr ⟨_, _, hj, hwho, rfl⟩
  | signal _ hh => cases hh
  | _ hc' => simp [hc] at hc'

theorem Move.of_poll {next : Bool → ℓ} (hc : code i l = .poll next)
    (hm : Move code (fun _ _ => none) S i l fds S') :
    S' = S.set i (.running (next false) fds) ∨
      ∃ j st, S.proc j = .zombie st ∧ S.Awaits i none j ∧
        S' = (S.set j (.reaped st)).set i (.running (next true) fds) := by
  cases hm with
  | pollNone hc' hnone =>
    rw [hc] at hc'
    cases hc'
    exact .inl rfl
  | poll hc' hj hwho =>
    rw [hc] at hc'
    cases hc'
    exact .inr ⟨_, _, hj, hwho, rfl⟩
  | signal _ hh => cases hh
  | _ hc' => simp [hc] at hc'

theorem Move.of_sys {f : (ω → Bool) → Nat → Fds ω → σ → Option (Option ℓ × Fds ω × σ)}
    (hc : code i l = .sys f) (hm : Move code (fun _ _ => none) S i l fds S') :
    ∃ k fds' s, (f S.isOpen k fds S.data = some (none, fds', s) ∧
        S' = { S with data := s }.finish i .killed) ∨
      ∃ l', f S.isOpen k fds S.data = some (some l', fds', s) ∧
        S' = { S with data := s }.set i (.running l' fds') := by
  cases hm with
  | sys hc' hf =>
    rw [hc] at hc'
    cases hc'
    exact ⟨_, _, _, .inr ⟨_, hf, rfl⟩⟩
  | killed hc' hf =>
    rw [hc] at hc'
    cases hc'
    exact ⟨_, _, _, .inl ⟨hf, rfl⟩⟩
  | signal _ hh => cases hh
  | _ hc' => simp [hc] at hc'

end Inversion

/-! ## What a step keeps -/

theorem Move.listed {i : ι} {l : ℓ} {fds : Fds ω} (h : S.Listed) (hi : S.proc i = .running l fds)
    (hm : Move code handler S i l fds S') : S'.Listed := by
  have hi' : S.proc i ≠ .absent := by simp [hi]
  cases hm with
  | @fork c start next hc hnew =>
    intro j hj
    by_cases hjc : j = c
    · exact List.mem_append_right _ (List.mem_singleton.mpr hjc)
    · exact List.mem_append_left _ (h.update hi' (by simpa [State.spawn, State.set, hjc] using hj))
  | forkFails hc => exact fun j hj => h.update hi' hj
  | exit hc => exact fun j hj => h.update hi' hj
  | childless hc hnone => exact fun j hj => h.update hi' hj
  | @wait who next c st hc hj hwho =>
    intro j hj'
    have hlist : State.Listed (S.set c (.reaped st)) := fun k hk => h.update (by simp [hj]) hk
    have hne : i ≠ c := by
      rintro rfl
      rw [hi] at hj
      cases hj
    exact hlist.update (by rw [State.set_proc_of_ne _ _ hne]; exact hi') hj'
  | pollNone hc hnone => exact fun j hj => h.update hi' hj
  | @poll next c st hc hj hwho =>
    intro j hj'
    have hlist : State.Listed (S.set c (.reaped st)) := fun k hk => h.update (by simp [hj]) hk
    have hne : i ≠ c := by
      rintro rfl
      rw [hi] at hj
      cases hj
    exact hlist.update (by rw [State.set_proc_of_ne _ _ hne]; exact hi') hj'
  | sys hc hf => exact fun j hj => h.update hi' hj
  | killed hc hf => exact fun j hj => h.update hi' hj
  | signal hpend hh => exact fun j hj => h.update hi' hj

/-! ## Who can go on -/

section Can

variable {i : ι} {l : ℓ} {fds : Fds ω}

theorem can_sys (hi : S.proc i = .running l fds)
    {f : (ω → Bool) → Nat → Fds ω → σ → Option (Option ℓ × Fds ω × σ)} (hc : code i l = .sys f)
    {k : Nat} (hf : (f S.isOpen k fds S.data).isSome) : ∃ e, (step code handler S e).isSome := by
  refine ⟨.go i k, ?_⟩
  obtain ⟨⟨l', fds', s⟩, hf⟩ := Option.isSome_iff_exists.mp hf
  cases l' <;> simp [step, goStep, hi, hc, hf]

theorem can_exit (hi : S.proc i = .running l fds) {n : Nat} (hc : code i l = .exit n) :
    ∃ e, (step code handler S e).isSome :=
  ⟨.go i 0, by simp [step, goStep, hi, hc]⟩

theorem can_fork (hi : S.proc i = .running l fds) {c : ι} {start : ℓ} {next : Bool → ℓ}
    (hc : code i l = .fork c start next) : ∃ e, (step code handler S e).isSome :=
  ⟨.forkFails i, by simp [step, forkFailsStep, hi, hc]⟩

/-- A `waitpid` returns unless a child that it waits for still runs. -/
theorem can_wait (hi : S.proc i = .running l fds) {who : Option ι} {next : ℓ}
    (hc : code i l = .wait who next)
    (hnone : ∀ j, S.Awaits i who j → (S.proc j).isRunning = false) :
    ∃ e, (step code handler S e).isSome := by
  by_cases hz : S.Childless i who
  · exact ⟨.go i 0, by simp [step, goStep, hi, hc, hz]⟩
  · unfold State.Childless at hz
    push Not at hz
    obtain ⟨j, -, hj, hz⟩ := hz
    have hzombie := hz (hnone j hj)
    cases hp : S.proc j with
    | zombie st => exact ⟨.collect i j, by simp [step, collectStep, hi, hp, hc, hj]⟩
    | running l' fds' => simp [hp, Life.isZombie] at hzombie
    | absent => simp [hp, Life.isZombie] at hzombie
    | reaped st => simp [hp, Life.isZombie] at hzombie

end Can

end Step

end Process
