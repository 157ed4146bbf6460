import LinuxHandson.Lib.Process

/-!
# Processes that reap their children in a handler

Any program, with `while (waitpid(-1, NULL, WNOHANG) > 0);` as its handler of `SIGCHLD`. The signal is
blocked while the handler runs, and children that end meanwhile or at the same time leave one pending
signal. The result is that no zombie is overlooked: while there is one, its parent's handler is still
to look for it.
-/

namespace Process.Reaper

variable {ι ω ℓ σ : Type}

/-- The places of the handler. -/
inductive Handler where
  /-- Before `waitpid`. -/
  | poll
  /-- After the loop, with the signal still blocked. -/
  | leave
deriving DecidableEq

/-- A place of the program, and one of the handler while it runs. -/
structure Loc (ℓ : Type) where
  main : ℓ
  handler : Option Handler
deriving DecidableEq

/-- A step of the program, outside the handler. -/
def lift : Act ι ω ℓ σ → Act ι ω (Loc ℓ) σ
  | .fork c start next => .fork c ⟨start, none⟩ fun ok => ⟨next ok, none⟩
  | .exit n => .exit n
  | .wait who next => .wait who ⟨next, none⟩
  | .poll next => .poll fun got => ⟨next got, none⟩
  | .sys f => .sys fun isOpen k fds s =>
    (f isOpen k fds s).map fun r => (r.1.map fun l => ⟨l, none⟩, r.2)

/-- The program `main` with its handler. -/
def code (main : ι → ℓ → Act ι ω ℓ σ) : ι → Loc ℓ → Act ι ω (Loc ℓ) σ
  | i, ⟨l, none⟩ => lift (main i l)
  | _, ⟨l, some .poll⟩ => .poll fun got => ⟨l, some (if got then .poll else .leave)⟩
  | _, ⟨l, some .leave⟩ => .sys fun _ _ fds s => some (some ⟨l, none⟩, fds, s)

/-- Where the signal finds a process. -/
def handler : ι → Loc ℓ → Option (Loc ℓ)
  | _, ⟨l, none⟩ => some ⟨l, some .poll⟩
  | _, ⟨_, some _⟩ => none

/-! ## The invariant -/

variable {S S' : State ι ω (Loc ℓ) σ} {i j : ι} {l l' : Loc ℓ} {fds : Fds ω}

/-- No child of `i` is a zombie. -/
def Zombieless (S : State ι ω (Loc ℓ) σ) (i : ι) : Prop :=
  ∀ j, S.parent j = some i → (S.proc j).isZombie = false

/-- The handler of `i` is still to look for zombies, or there are none. -/
def Attends (S : State ι ω (Loc ℓ) σ) (i : ι) (l : Loc ℓ) : Prop :=
  S.pending i = true ∨ l.handler = some .poll ∨ Zombieless S i

/-- The parents are there, and each attends to its zombies. -/
structure Inv (S : State ι ω (Loc ℓ) σ) : Prop where
  listed : S.Listed
  parent : ∀ i j, S.parent j = some i → S.proc i ≠ .absent
  attends : ∀ i l fds, S.proc i = .running l fds → Attends S i l

theorem Inv.zombieless (h : Inv S) (hnone : S.NoZombie i) : Zombieless S i := by
  intro j hj
  by_cases habs : S.proc j = .absent
  · rw [habs]
    rfl
  · exact hnone j (h.listed j habs) hj

/-- Outside the handler the signal is pending, or there is no zombie. -/
theorem attends_of_none {m : ℓ} (h : Attends S i ⟨m, none⟩) (l' : Loc ℓ) : Attends S i l' := by
  rcases h with hp | hh | hz
  · exact .inl hp
  · cases hh
  · exact .inr (.inr hz)

variable [DecidableEq ι]

theorem inv_start (i : ι) (l : Loc ℓ) (fds : Fds ω) (s : σ) : Inv (State.start i l fds s) where
  listed := State.listed_start i l fds s
  parent := nofun
  attends := fun _ _ _ _ => .inr (.inr nofun)

theorem parent_update (h : Inv S) (p : Life ω (Loc ℓ)) (hp : p ≠ .absent) (k j : ι)
    (hj : S.parent j = some k) : Function.update S.proc i p k ≠ .absent := by
  by_cases hk : k = i
  · subst hk
    rw [Function.update_self]
    exact hp
  · rw [Function.update_of_ne hk]
    exact h.parent k j hj

theorem Zombieless.set (h : Zombieless S j) {p : Life ω (Loc ℓ)} (hp : p.isZombie = false) :
    Zombieless (S.set i p) j := by
  intro k hk
  by_cases hki : k = i
  · subst hki
    rw [State.set_proc_self]
    exact hp
  · rw [State.set_proc_of_ne _ _ hki]
    exact h k hk

/-- A process goes on, and whoever has no zombie has none then. -/
theorem Inv.set (h : Inv S) (hi : S.proc i = .running l fds) (s : σ) (fds' : Fds ω)
    (hatt : Attends S i l → Attends S i l') :
    Inv ({ S with data := s }.set i (.running l' fds')) where
  listed := fun k hk => h.listed.update (by simp [hi]) hk
  parent := parent_update h (.running l' fds') nofun
  attends := by
    intro k m fds'' hk
    have hold : Attends S k m := by
      by_cases hki : k = i
      · subst hki
        rw [State.set_proc_self] at hk
        cases hk
        exact hatt (h.attends k l fds hi)
      · rw [State.set_proc_of_ne _ _ hki] at hk
        exact h.attends k m fds'' hk
    rcases hold with hp | hh | hz
    · exact .inl hp
    · exact .inr (.inl hh)
    · exact .inr (.inr (Zombieless.set (S := { S with data := s }) hz rfl))

/-- A process ends, which its parent's pending signal tells. -/
theorem Inv.finish (h : Inv S) (hi : S.proc i = .running l fds) (s : σ) (st : Status) :
    Inv ({ S with data := s }.finish i st) where
  listed := fun k hk => h.listed.update (by simp [hi]) hk
  parent := parent_update h (.zombie st) nofun
  attends := by
    intro k m fds' hk
    have hki : k ≠ i := by
      rintro rfl
      rw [State.finish_proc_self] at hk
      cases hk
    rw [State.finish_proc_of_ne _ _ hki] at hk
    by_cases hpar : S.parent i = some k
    · left
      simp [State.finish, hpar]
    have hpend : S.pending k = true → ({ S with data := s }.finish i st).pending k = true := by
      intro hp
      cases hq : S.parent i with
      | none => simpa [State.finish, hq] using hp
      | some q => by_cases hkq : k = q <;> simp [State.finish, hq, hkq, hp]
    rcases h.attends k m fds' hk with hp | hh | hz
    · exact .inl (hpend hp)
    · exact .inr (.inl hh)
    · refine .inr (.inr fun j hj => ?_)
      have hji : j ≠ i := by
        rintro rfl
        exact hpar hj
      rw [State.finish_proc_of_ne _ _ hji]
      exact hz j hj

/-- A child that is reaped is no zombie any more. -/
theorem Inv.reap (h : Inv S) {st : Status} (hj : S.proc j = .zombie st) : Inv (S.set j (.reaped st)) where
  listed := fun k hk => h.listed.update (by simp [hj]) hk
  parent := parent_update h (.reaped st) nofun
  attends := by
    intro k m fds' hk
    have hkj : k ≠ j := by
      rintro rfl
      rw [State.set_proc_self] at hk
      cases hk
    rw [State.set_proc_of_ne _ _ hkj] at hk
    rcases h.attends k m fds' hk with hp | hh | hz
    · exact .inl hp
    · exact .inr (.inl hh)
    · exact .inr (.inr (hz.set rfl))

/-- A new child has no children itself. -/
theorem Inv.spawn (h : Inv S) (hi : S.proc i ≠ .absent) {c : ι} (hc : S.proc c = .absent)
    (start : Loc ℓ) (fds : Fds ω) : Inv (S.spawn i c start fds) where
  listed := by
    intro k hk
    by_cases hkc : k = c
    · exact List.mem_append_right _ (List.mem_singleton.mpr hkc)
    · refine List.mem_append_left _ (h.listed k ?_)
      change Function.update S.proc c _ k ≠ _ at hk
      rwa [Function.update_of_ne hkc] at hk
  parent := by
    intro k j hj
    change Function.update S.parent c (some i) j = _ at hj
    change Function.update S.proc c _ k ≠ _
    by_cases hkc : k = c
    · rw [hkc, Function.update_self]
      nofun
    · rw [Function.update_of_ne hkc]
      by_cases hjc : j = c
      · rw [hjc, Function.update_self] at hj
        cases hj
        exact hi
      · rw [Function.update_of_ne hjc] at hj
        exact h.parent k j hj
  attends := by
    intro k m fds' hk
    change Function.update S.proc c _ k = _ at hk
    have hzombie : ∀ k, Zombieless S k → Zombieless (S.spawn i c start fds) k := by
      intro k hz j hj
      change (Function.update S.proc c _ j).isZombie = false
      change Function.update S.parent c (some i) j = _ at hj
      by_cases hjc : j = c
      · rw [hjc, Function.update_self]
        rfl
      · rw [Function.update_of_ne hjc] at hj ⊢
        exact hz j hj
    by_cases hkc : k = c
    · refine .inr (.inr (hzombie k fun j hj => ?_))
      rw [hkc] at hj
      exact absurd hc (h.parent c j hj)
    · rw [Function.update_of_ne hkc] at hk
      rcases h.attends k m fds' hk with hp | hh | hz
      · exact .inl hp
      · exact .inr (.inl hh)
      · exact .inr (.inr (hzombie k hz))

/-- The handler starts. -/
theorem Inv.signal (h : Inv S) (hi : S.proc i = .running l fds) {m : ℓ} :
    Inv { S.set i (.running ⟨m, some .poll⟩ fds) with pending := Function.update S.pending i false } where
  listed := fun k hk => h.listed.update (by simp [hi]) hk
  parent := parent_update h (.running ⟨m, some .poll⟩ fds) nofun
  attends := by
    intro k m' fds' hk
    by_cases hki : k = i
    · change Function.update S.proc i _ k = _ at hk
      rw [hki, Function.update_self] at hk
      cases hk
      exact .inr (.inl rfl)
    · change Function.update S.proc i _ k = _ at hk
      rw [Function.update_of_ne hki] at hk
      rcases h.attends k m' fds' hk with hp | hh | hz
      · refine .inl ?_
        change Function.update S.pending i false k = true
        rw [Function.update_of_ne hki]
        exact hp
      · exact .inr (.inl hh)
      · exact .inr (.inr (hz.set rfl))

/-- Whoever gets a child from `waitpid` is as attentive afterwards as before. -/
theorem Inv.collect (h : Inv S) (hi : S.proc i = .running l fds) {st : Status}
    (hj : S.proc j = .zombie st)
    (hatt : Attends (S.set j (.reaped st)) i l → Attends (S.set j (.reaped st)) i l') :
    Inv ((S.set j (.reaped st)).set i (.running l' fds)) := by
  have hij : i ≠ j := by
    rintro rfl
    rw [hi] at hj
    cases hj
  have hi' : (S.set j (.reaped st)).proc i = .running l fds := by
    rw [State.set_proc_of_ne _ _ hij]
    exact hi
  exact (h.reap hj).set hi' S.data fds hatt

theorem Inv.fork (h : Inv S) (hi : S.proc i = .running l fds) {c : ι} (hc : S.proc c = .absent)
    (start : Loc ℓ) (hatt : Attends S i l → Attends S i l') :
    Inv ((S.set i (.running l' fds)).spawn i c start fds) := by
  have hci : c ≠ i := by
    rintro rfl
    rw [hi] at hc
    cases hc
  refine (h.set hi S.data fds hatt).spawn (by simp) ?_ start fds
  rw [State.set_proc_of_ne _ _ hci]
  exact hc

/-! ## Runs -/

section Run

variable [DecidableEq ω] {main : ι → ℓ → Act ι ω ℓ σ}

/-- A system call of the program. -/
theorem move_sys {m : ℓ} {f : (ω → Bool) → Nat → Fds ω → σ → Option (Option ℓ × Fds ω × σ)}
    (hc : main i m = .sys f)
    (hm : Move (code main) (fun _ _ => none) S i ⟨m, none⟩ fds S') :
    ∃ k fds' s, (f S.isOpen k fds S.data = some (none, fds', s) ∧
        S' = { S with data := s }.finish i .killed) ∨
      ∃ m', f S.isOpen k fds S.data = some (some m', fds', s) ∧
        S' = { S with data := s }.set i (.running ⟨m', none⟩ fds') := by
  have hlift : code main i ⟨m, none⟩ = lift (.sys f) := congrArg lift hc
  obtain ⟨k, fds', s, hf⟩ := hm.of_sys hlift
  rcases hr : f S.isOpen k fds S.data with _ | ⟨m', fds'', s''⟩
  · simp [hr] at hf
  · cases m' with
    | none =>
      simp only [hr, Option.map_some, Option.map_none] at hf
      obtain ⟨hf, rfl⟩ | ⟨l', hf, -⟩ := hf
      · cases hf
        exact ⟨k, _, _, .inl ⟨hr, rfl⟩⟩
      · cases hf
    | some m' =>
      simp only [hr, Option.map_some] at hf
      obtain ⟨hf, -⟩ | ⟨l', hf, rfl⟩ := hf
      · cases hf
      · cases hf
        exact ⟨k, _, _, .inr ⟨m', hr, rfl⟩⟩

/-- A step outside the handler, whatever the program does. -/
theorem Inv.main_move (h : Inv S) {m : ℓ} (hi : S.proc i = .running ⟨m, none⟩ fds)
    (hm : Move (code main) handler S i ⟨m, none⟩ fds S') : Inv S' := by
  cases hm with
  | fork hc hnew => exact h.fork hi hnew _ fun ha => attends_of_none ha _
  | forkFails hc => exact h.set hi S.data fds fun ha => attends_of_none ha _
  | exit hc => exact h.finish hi S.data _
  | childless hc hnone => exact h.set hi S.data fds fun ha => attends_of_none ha _
  | wait hc hj hwho => exact h.collect hi hj fun ha => attends_of_none ha _
  | pollNone hc hnone => exact h.set hi S.data fds fun ha => attends_of_none ha _
  | poll hc hj hwho => exact h.collect hi hj fun ha => attends_of_none ha _
  | sys hc hf => exact h.set hi _ _ fun ha => attends_of_none ha _
  | killed hc hf => exact h.finish hi _ _
  | signal hpend hh =>
    cases hh
    exact h.signal hi

/-- A call of `waitpid` in the handler, which ends the loop when there is no zombie. -/
theorem Inv.poll_move (h : Inv S) {m : ℓ} (hi : S.proc i = .running ⟨m, some .poll⟩ fds)
    (hm : Move (code main) handler S i ⟨m, some .poll⟩ fds S') : Inv S' := by
  cases hm with
  | pollNone hc hnone =>
    cases hc
    exact h.set hi S.data fds fun _ => .inr (.inr (h.zombieless hnone))
  | poll hc hj hwho =>
    cases hc
    exact h.collect hi hj fun _ => .inr (.inl rfl)
  | signal hpend hh => cases hh
  | _ hc => cases hc

/-- The handler returns. -/
theorem Inv.leave_move (h : Inv S) {m : ℓ} (hi : S.proc i = .running ⟨m, some .leave⟩ fds)
    (hm : Move (code main) handler S i ⟨m, some .leave⟩ fds S') : Inv S' := by
  cases hm with
  | sys hc hf =>
    cases hc
    cases hf
    refine h.set hi S.data fds fun ha => ?_
    rcases ha with hp | hh | hz
    · exact .inl hp
    · cases hh
    · exact .inr (.inr hz)
  | killed hc hf =>
    cases hc
    cases hf
  | signal hpend hh => cases hh
  | _ hc => cases hc

theorem Inv.move (h : Inv S) (hi : S.proc i = .running l fds)
    (hm : Move (code main) handler S i l fds S') : Inv S' := by
  obtain ⟨m, hd⟩ := l
  cases hd with
  | none => exact h.main_move hi hm
  | some hd =>
    cases hd with
    | poll => exact h.poll_move hi hm
    | leave => exact h.leave_move hi hm

/-- Whatever the programs are and in every order of the steps: a process that has no signal pending
and is not at the head of its handler's loop has no zombie among its children. -/
theorem no_zombie (m : ℓ) (fds₀ : Fds ω) (s : σ)
    (h : Machine.Reach (step (code main) handler) (fun _ _ => True)
      (State.start i ⟨m, none⟩ fds₀ s) S)
    (hj : S.proc j = .running l fds) (hpend : S.pending j = false) (hpoll : l.handler ≠ some .poll) :
    Zombieless S j := by
  have hinv : Inv S := h.invariant (inv_start i _ fds₀ s) fun _ _ _ _ hS _ hs => by
    obtain ⟨k, l', fds', hk, hm⟩ := step_move hs
    exact hS.move hk hm
  rcases hinv.attends j l fds hj with hp | hh | hz
  · rw [hpend] at hp
    cases hp
  · exact absurd hh hpoll
  · exact hz

end Run

end Process.Reaper
