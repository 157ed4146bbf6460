import LinuxHandson.Ipc.PipeDemo

/-!
# The pipeline counts the lines

What each process has open is fixed by its place, and that tells who can still write to the pipe or
read from it. So `wc` sees the end of the file only behind the last byte of `ls`, whatever the order of
the steps, and nobody waits for ever.
-/

namespace PipeDemo.Pipeline

open Process Pipe

/-! ## The descriptors at each place -/

/-- The descriptor table of a process at each place. -/
def table : Place → Fds (Obj Unit)
  | .pipe => [some .terminal, some .terminal, some .terminal]
  | .fork₁ | .fork₂ _ | .closeRead _ _ | .lsCloseRead | .wcCloseWrite =>
    [some .terminal, some .terminal, some .terminal, some (.reader ()), some (.writer ())]
  | .closeWrite _ _ | .lsDup =>
    [some .terminal, some .terminal, some .terminal, none, some (.writer ())]
  | .wait₁ _ _ | .wait₂ _ | .returned =>
    [some .terminal, some .terminal, some .terminal, none, none]
  | .lsCloseWrite => [some .terminal, some (.writer ()), some .terminal, none, some (.writer ())]
  | .lsExec | .ls _ | .lsFailed =>
    [some .terminal, some (.writer ()), some .terminal, none, none]
  | .wcDup => [some .terminal, some .terminal, some .terminal, some (.reader ()), none]
  | .wcCloseRead =>
    [some (.reader ()), some .terminal, some .terminal, some (.reader ()), none]
  | .wcExec | .wc _ | .wcPrint _ | .wcExit | .wcFailed =>
    [some (.reader ()), some .terminal, some .terminal, none, none]

/-- The array `pipefd` at each place. -/
def pipefdAt : Place → Nat × Nat
  | .pipe => (0, 0)
  | _ => (3, 4)

/-- A process that runs at a place. -/
def running (p : Place) : Life (Obj Unit) Loc := .running ⟨p, pipefdAt p⟩ (table p)

/-! ## The invariant -/

/-- There is no such process any more, or there never was. -/
def Over (p : Life (Obj Unit) Loc) : Prop := p.isRunning = false ∧ p.isZombie = false

/-- What there is of the children `a` and `b` while the parent is at a place. -/
def Order : Place → Life (Obj Unit) Loc → Life (Obj Unit) Loc → Prop
  | .pipe, a, b | .fork₁, a, b => a = .absent ∧ b = .absent
  | .fork₂ p1, a, b => (a = .absent ↔ p1 = false) ∧ b = .absent
  | .closeRead p1 p2, a, b | .closeWrite p1 p2, a, b | .wait₁ p1 p2, a, b =>
    (a = .absent ↔ p1 = false) ∧ (b = .absent ↔ p2 = false)
  | .wait₂ p2, a, b => Over a ∧ (b = .absent ↔ p2 = false)
  | .returned, a, b => Over a ∧ Over b
  | _, _, _ => False

/-- The parent has closed its read end. -/
def ClosedRead : Place → Prop
  | .closeWrite _ _ | .wait₁ _ _ | .wait₂ _ | .returned => True
  | _ => False

/-- The parent has closed both ends. -/
def ClosedBoth : Place → Prop
  | .wait₁ _ _ | .wait₂ _ | .returned => True
  | _ => False

/-- How far the first child is when `sent` has gone into the pipe. -/
inductive LsAt (P : Programs) : Life (Obj Unit) Loc → List UInt8 → Prop where
  | absent : LsAt P .absent []
  | closeRead : LsAt P (running .lsCloseRead) []
  | dup : LsAt P (running .lsDup) []
  | closeWrite : LsAt P (running .lsCloseWrite) []
  | exec : LsAt P (running .lsExec) []
  | writing {sent rest : List UInt8} (h : sent ++ rest = P.out) : LsAt P (running (.ls rest)) sent
  | failing : LsAt P (running .lsFailed) []
  | done {p : Life (Obj Unit) Loc} (h : p.EndedWith (.exited 0)) : LsAt P p P.out
  | failed {p : Life (Obj Unit) Loc} (h : p.EndedWith (.exited 1)) : LsAt P p []
  | killed {p : Life (Obj Unit) Loc} {sent : List UInt8} (h : p.EndedWith .killed) : LsAt P p sent

/-- How far the second child is when `sent` has gone into the pipe, `got` has come out, and `printed`
has been printed. -/
inductive WcAt : Life (Obj Unit) Loc → List UInt8 → List UInt8 → List Nat → Prop where
  | absent {sent : List UInt8} : WcAt .absent sent [] []
  | closeWrite {sent : List UInt8} : WcAt (running .wcCloseWrite) sent [] []
  | dup {sent : List UInt8} : WcAt (running .wcDup) sent [] []
  | closeRead {sent : List UInt8} : WcAt (running .wcCloseRead) sent [] []
  | exec {sent : List UInt8} : WcAt (running .wcExec) sent [] []
  | counting {sent got : List UInt8} : WcAt (running (.wc (lines got))) sent got []
  | print {sent got : List UInt8} : WcAt (running (.wcPrint (lines sent))) sent got []
  | exit {sent got : List UInt8} : WcAt (running .wcExit) sent got [lines sent]
  | failing {sent : List UInt8} : WcAt (running .wcFailed) sent [] []
  | done {p : Life (Obj Unit) Loc} {sent got : List UInt8} (h : p.EndedWith (.exited 0)) :
    WcAt p sent got [lines sent]
  | failed {p : Life (Obj Unit) Loc} {sent : List UInt8} (h : p.EndedWith (.exited 1)) :
    WcAt p sent [] []

/-- `wc` has seen the end of the file. -/
def SeenEnd : Life (Obj Unit) Loc → Prop
  | .running ⟨.wcPrint _, _⟩ _ | .running ⟨.wcExit, _⟩ _ => True
  | .zombie st | .reaped st => st = .exited 0
  | _ => False

/-- The `fork` or the `execlp` of a child has failed. -/
def Failed (b : Life (Obj Unit) Loc) : Prop := b = .absent ∨ b.EndedWith (.exited 1)

/-- The invariant of the parent's place, the children and the world. -/
structure Good (P : Programs) (p : Place) (a b : Life (Obj Unit) Loc) (s : World Unit Nat) : Prop where
  order : Order p a b
  ls : LsAt P a (s.pipe ()).sent
  wc : WcAt b (s.pipe ()).sent (s.pipe ()).got s.printed
  pipe : (s.pipe ()).Wf
  seen : SeenEnd b → ClosedBoth p ∧ a.isRunning = false
  killed : a.EndedWith .killed → ClosedRead p ∧ Failed b

/-- The children, and only they, are children of the parent. -/
structure Parents (S : SysState) : Prop where
  parent : S.parent .parent = none
  child : ∀ i, i ≠ .parent → S.proc i ≠ .absent → S.parent i = some .parent

/-- Who is whose parent, and where the children stand for each place of the parent. -/
structure Inv (P : Programs) (S : SysState) : Prop where
  listed : S.Listed
  parents : Parents S
  good : ∃ p, S.proc .parent = running p ∧ Good P p (S.proc .ls) (S.proc .wc) S.data

theorem inv_start (P : Programs) : Inv P start where
  listed := State.listed_start _ _ _ _
  parents := ⟨rfl, fun i hi hi' => absurd (by simp [start, State.start, hi]) hi'⟩
  good := by
    refine ⟨.pipe, rfl, ⟨rfl, rfl⟩, .absent, .absent, Content.wf_empty, False.elim, ?_⟩
    rintro (h | h)
    · cases h
    · cases h

theorem Parents.update {S S' : SysState} (h : Parents S) {i : Proc} {p : Life (Obj Unit) Loc}
    (hi : S.proc i ≠ .absent) (hproc : S'.proc = Function.update S.proc i p)
    (hparent : S'.parent = S.parent) : Parents S' := by
  refine ⟨by rw [hparent]; exact h.parent, fun j hj hj' => ?_⟩
  rw [hparent]
  refine h.child j hj ?_
  by_cases hji : j = i
  · rw [hji]
    exact hi
  · rw [hproc, Function.update_of_ne hji] at hj'
    exact hj'

theorem Parents.spawn {S : SysState} (h : Parents S) {l : Loc} {fds : Fds (Obj Unit)} {c : Proc}
    (start : Loc) (hrun : S.proc .parent ≠ .absent) (hc : c ≠ .parent) :
    Parents ((S.set .parent (.running l fds)).spawn .parent c start fds) := by
  refine ⟨?_, fun j hj hj' => ?_⟩
  · change Function.update _ c _ _ = _
    rw [Function.update_of_ne (Ne.symm hc)]
    exact h.parent
  by_cases hjc : j = c
  · subst hjc
    exact Function.update_self ..
  · have hset : Parents (S.set .parent (.running l fds)) := h.update hrun rfl rfl
    change Function.update _ c _ j ≠ _ at hj'
    change Function.update _ c _ j = _
    rw [Function.update_of_ne hjc] at hj' ⊢
    exact hset.child j hj hj'

/-! ## How far the processes are from their ends -/

/-- What is left to do at a place, for those who are not forked yet too. -/
def weight (P : Programs) : Place → Nat
  | .pipe => 21 + 2 * P.out.length
  | .fork₁ => 20 + 2 * P.out.length
  | .fork₂ _ => 13
  | .closeRead _ _ => 4
  | .closeWrite _ _ => 3
  | .wait₁ _ _ => 2
  | .wait₂ _ => 1
  | .returned => 0
  | .lsCloseRead => 6 + 2 * P.out.length
  | .lsDup => 5 + 2 * P.out.length
  | .lsCloseWrite => 4 + 2 * P.out.length
  | .lsExec => 3 + 2 * P.out.length
  | .ls rest => 2 + 2 * rest.length
  | .lsFailed => 2
  | .wcCloseWrite => 8
  | .wcDup => 7
  | .wcCloseRead => 6
  | .wcExec => 5
  | .wc _ => 4
  | .wcPrint _ => 3
  | .wcExit | .wcFailed => 2

/-- What a process has left to do, its `wait` by the parent included. -/
def lifeWeight (P : Programs) : Life (Obj Unit) Loc → Nat
  | .running l _ => weight P l.place
  | .zombie _ => 1
  | _ => 0

/-- What is left to do, where a byte in the pipe is left to be read. -/
def left (P : Programs) (S : SysState) : Nat :=
  lifeWeight P (S.proc .parent) + lifeWeight P (S.proc .ls) + lifeWeight P (S.proc .wc) +
    (S.data.pipe ()).buf.length

/-- What a step leaves, which is less than before. -/
def Turn (P : Programs) (S S' : SysState) : Prop :=
  Parents S' ∧ left P S' < left P S ∧
    ∃ q, S'.proc .parent = running q ∧ Good P q (S'.proc .ls) (S'.proc .wc) S'.data

theorem not_endedWith_running {p : Place} {st : Status} : ¬ (running p).EndedWith st := by
  rintro (h | h)
  · cases h
  · cases h

theorem LsAt.of_absent {P : Programs} {a : Life (Obj Unit) Loc} {sent : List UInt8}
    (h : LsAt P a sent) (ha : a = .absent) : sent = [] := by
  cases h with
  | absent => rfl
  | done h => cases h <;> subst ha <;> contradiction
  | failed h => rfl
  | killed h => cases h <;> subst ha <;> contradiction
  | _ => cases ha

theorem WcAt.of_absent {b : Life (Obj Unit) Loc} {sent got : List UInt8} {printed : List Nat}
    (h : WcAt b sent got printed) (hb : b = .absent) : got = [] ∧ printed = [] := by
  cases h with
  | absent => exact ⟨rfl, rfl⟩
  | done h => cases h <;> subst hb <;> contradiction
  | failed h => exact ⟨rfl, rfl⟩
  | _ => cases hb

section Parent

variable {P : Programs} {S S' : SysState} {p q : Place} {a b : Life (Obj Unit) Loc}
  {s : World Unit Nat} {st : Status}

/-- The parent goes on to `q`. -/
theorem Good.moved (hg : Good P p a b s) (horder : Order q a b) (hread : ClosedRead p → ClosedRead q)
    (hboth : ClosedBoth p → ClosedBoth q) : Good P q a b s :=
  ⟨horder, hg.ls, hg.wc, hg.pipe, fun hs => ⟨hboth (hg.seen hs).1, (hg.seen hs).2⟩,
    fun hk => ⟨hread (hg.killed hk).1, (hg.killed hk).2⟩⟩

theorem EndedWith.of_reaped {st' : Status} (h : (Life.reaped st : Life (Obj Unit) Loc).EndedWith st') :
    (Life.zombie st : Life (Obj Unit) Loc).EndedWith st' := by
  rcases h with h | h
  · cases h
  · cases h
    exact .inl rfl

theorem EndedWith.of_zombie {st' : Status} (h : (Life.zombie st : Life (Obj Unit) Loc).EndedWith st') :
    (Life.reaped st : Life (Obj Unit) Loc).EndedWith st' := by
  rcases h with h | h
  · cases h
    exact .inr rfl
  · cases h

theorem LsAt.reaped {sent : List UInt8} (h : LsAt P a sent) (ha : a = .zombie st) :
    LsAt P (.reaped st) sent := by
  cases h with
  | done h => exact .done (EndedWith.of_zombie (ha ▸ h))
  | failed h => exact .failed (EndedWith.of_zombie (ha ▸ h))
  | killed h => exact .killed (EndedWith.of_zombie (ha ▸ h))
  | _ => cases ha

theorem WcAt.reaped {sent got : List UInt8} {printed : List Nat} (h : WcAt b sent got printed)
    (hb : b = .zombie st) : WcAt (.reaped st) sent got printed := by
  cases h with
  | done h => exact .done (EndedWith.of_zombie (hb ▸ h))
  | failed h => exact .failed (EndedWith.of_zombie (hb ▸ h))
  | _ => cases hb

/-- The first child is reaped. -/
theorem Good.reap_ls (hg : Good P p a b s) (ha : a = .zombie st) : LsAt P (.reaped st) (s.pipe ()).sent ∧
    (SeenEnd b → ClosedBoth p ∧ (Life.reaped st : Life (Obj Unit) Loc).isRunning = false) ∧
    ((Life.reaped st : Life (Obj Unit) Loc).EndedWith .killed → ClosedRead p ∧ Failed b) := by
  subst ha
  exact ⟨hg.ls.reaped rfl, fun hs => ⟨(hg.seen hs).1, rfl⟩,
    fun hk => hg.killed (EndedWith.of_reaped hk)⟩

/-- The second child is reaped. -/
theorem Good.reap_wc (hg : Good P p a b s) (hb : b = .zombie st) :
    WcAt (.reaped st) (s.pipe ()).sent (s.pipe ()).got s.printed ∧
    (SeenEnd (.reaped st) → ClosedBoth p ∧ a.isRunning = false) ∧
    (a.EndedWith .killed → ClosedRead p ∧ Failed (.reaped st)) := by
  subst hb
  refine ⟨hg.wc.reaped rfl, hg.seen, fun hk => ⟨(hg.killed hk).1, ?_⟩⟩
  rcases (hg.killed hk).2 with h | h
  · cases h
  · exact .inr (EndedWith.of_zombie h)

/-- A child that is waited for, with -1 or with its own number, when there is none left. -/
theorem over_of_childless (h : Inv P S) {c : Proc} (hc : c ≠ .parent) {who : Option Proc}
    (hwho : who = none ∨ who = some c) (hnone : S.Childless .parent who) : Over (S.proc c) := by
  by_cases habs : S.proc c = .absent
  · rw [habs]
    exact ⟨rfl, rfl⟩
  · exact hnone c (h.listed c habs) ⟨h.parents.child c hc habs, hwho⟩

/-- A step of the parent that leaves the children as they are. -/
theorem Inv.parent_goes (h : Inv P S) (hp : S.proc .parent = running p)
    (hlt : weight P q < weight P p) (hq : Good P q (S.proc .ls) (S.proc .wc) S.data) :
    Turn P S (S.set .parent (running q)) := by
  have hrun : S.proc .parent ≠ .absent := by
    rw [hp]
    nofun
  refine ⟨h.parents.update hrun rfl rfl, ?_, q, rfl, hq⟩
  have hleft : lifeWeight P (running q) < lifeWeight P (S.proc .parent) := by
    rw [hp]
    exact hlt
  exact Nat.add_lt_add_right (Nat.add_lt_add_right (Nat.add_lt_add_right hleft _) _) _

/-- A step of the parent that reaps the child `c`. -/
theorem Inv.parent_reaps (h : Inv P S) (hp : S.proc .parent = running p) {c : Proc}
    (hc : S.proc c = .zombie st) {T : SysState} (hT : T = (S.set c (.reaped st)).set .parent (running q))
    (hlt : weight P q < weight P p) (hq : Good P q (T.proc .ls) (T.proc .wc) S.data) :
    Turn P S T := by
  have hset : Parents (S.set c (.reaped st)) := h.parents.update (by simp [hc]) rfl rfl
  have hrun : (S.set c (.reaped st)).proc .parent ≠ .absent := by
    rw [State.set_proc_of_ne]
    · simp [hp, running]
    · rintro rfl
      rw [hp] at hc
      cases hc
  subst hT
  refine ⟨hset.update hrun rfl rfl, ?_, q, rfl, hq⟩
  have hparent : lifeWeight P (S.proc .parent) = weight P p := by rw [hp]; rfl
  have hchild : ∀ j, lifeWeight P (Function.update S.proc c (.reaped st) j) ≤ lifeWeight P (S.proc j) := by
    intro j
    by_cases hj : j = c
    · subst hj
      rw [Function.update_self]
      exact Nat.zero_le _
    · exact Nat.le_of_eq (by rw [Function.update_of_ne hj])
  have hls := hchild .ls
  have hwc := hchild .wc
  change weight P q + lifeWeight P (Function.update S.proc c _ .ls) +
    lifeWeight P (Function.update S.proc c _ .wc) + (S.data.pipe ()).buf.length < left P S
  unfold left
  omega

theorem Inv.parent_wait₁ {p1 p2 : Bool} (h : Inv P S) (hp : S.proc .parent = running (.wait₁ p1 p2))
    (hg : Good P (.wait₁ p1 p2) (S.proc .ls) (S.proc .wc) S.data)
    (hm : Move (code P) (fun _ _ => none) S .parent ⟨.wait₁ p1 p2, (3, 4)⟩ (table (.wait₁ p1 p2)) S') :
    Turn P S S' := by
  obtain ⟨hls, hwc⟩ := hg.order
  rcases hm.of_wait rfl with ⟨hnone, rfl⟩ | ⟨j, st, hj, ⟨-, hwho⟩, rfl⟩
  · have hover : Over (S.proc .ls) := by
      cases p1 with
      | true => exact over_of_childless h (by decide) (.inr rfl) hnone
      | false => exact over_of_childless h (by decide) (.inl rfl) hnone
    exact h.parent_goes hp (by simp [weight]) (hg.moved ⟨hover, hwc⟩ id id)
  · cases j with
    | parent =>
      rw [hp] at hj
      cases hj
    | ls =>
      obtain ⟨hls', hseen, hkilled⟩ := hg.reap_ls hj
      exact h.parent_reaps hp hj rfl (by simp [weight]) ⟨⟨⟨rfl, rfl⟩, hwc⟩, hls', hg.wc, hg.pipe, hseen, hkilled⟩
    | wc =>
      have hp1 : p1 = false := by
        cases p1 with
        | true => simp [pidOf] at hwho
        | false => rfl
      obtain ⟨hwc', hseen, hkilled⟩ := hg.reap_wc hj
      have hpresent : p2 ≠ false := fun h2 => by
        rw [hwc.mpr h2] at hj
        cases hj
      have hover : Over (S.proc .ls) := by
        rw [hls.mpr hp1]
        exact ⟨rfl, rfl⟩
      exact h.parent_reaps hp hj rfl (by simp [weight])
        ⟨⟨hover, ⟨nofun, fun h2 => absurd h2 hpresent⟩⟩, hg.ls, hwc', hg.pipe, hseen, hkilled⟩

theorem Inv.parent_wait₂ {p2 : Bool} (h : Inv P S) (hp : S.proc .parent = running (.wait₂ p2))
    (hg : Good P (.wait₂ p2) (S.proc .ls) (S.proc .wc) S.data)
    (hm : Move (code P) (fun _ _ => none) S .parent ⟨.wait₂ p2, (3, 4)⟩ (table (.wait₂ p2)) S') :
    Turn P S S' := by
  obtain ⟨hls, hwc⟩ := hg.order
  rcases hm.of_wait rfl with ⟨hnone, rfl⟩ | ⟨j, st, hj, ⟨-, hwho⟩, rfl⟩
  · have hover : Over (S.proc .wc) := by
      cases p2 with
      | true => exact over_of_childless h (by decide) (.inr rfl) hnone
      | false => exact over_of_childless h (by decide) (.inl rfl) hnone
    exact h.parent_goes hp (by simp [weight]) (hg.moved ⟨hls, hover⟩ id id)
  · cases j with
    | parent =>
      rw [hp] at hj
      cases hj
    | ls =>
      rw [hj] at hls
      cases hls.2
    | wc =>
      obtain ⟨hwc', hseen, hkilled⟩ := hg.reap_wc hj
      exact h.parent_reaps hp hj rfl (by simp [weight]) ⟨⟨hls, ⟨rfl, rfl⟩⟩, hg.ls, hwc', hg.pipe, hseen, hkilled⟩

theorem Inv.parent_turn (h : Inv P S) (hp : S.proc .parent = running p)
    (hg : Good P p (S.proc .ls) (S.proc .wc) S.data)
    (hm : Move (code P) (fun _ _ => none) S .parent ⟨p, pipefdAt p⟩ (table p) S') :
    Turn P S S' := by
  have hrun : S.proc .parent ≠ .absent := by
    rw [hp]
    nofun
  cases p with
  | pipe =>
    obtain ⟨ha, hb⟩ := hg.order
    obtain rfl := create_move rfl hm
    have hls : LsAt P (S.proc .ls) [] := by
      rw [ha]
      exact .absent
    have hwc : WcAt (S.proc .wc) [] [] S.data.printed := by
      rw [hb, (hg.wc.of_absent hb).2]
      exact .absent
    refine ⟨h.parents.update hrun rfl rfl, ?_, .fork₁, rfl, hg.order, hls, hwc, Content.wf_empty,
      fun hs => (hg.seen hs).1.elim, fun hk => (hg.killed hk).1.elim⟩
    change 20 + 2 * P.out.length + lifeWeight P (S.proc .ls) + lifeWeight P (S.proc .wc) + 0 < left P S
    simp only [left, hp, running, lifeWeight, weight]
    omega
  | fork₁ =>
    obtain ⟨ha, hb⟩ := hg.order
    rcases hm.of_fork rfl with ⟨-, rfl⟩ | rfl
    · have hls : LsAt P (running .lsCloseRead) (S.data.pipe ()).sent := by
        rw [hg.ls.of_absent ha]
        exact .closeRead
      refine ⟨h.parents.spawn _ hrun (by decide), ?_, .fork₂ true, rfl, ⟨⟨nofun, nofun⟩, hb⟩, hls,
        hg.wc, hg.pipe, fun hs => (hg.seen hs).1.elim, fun hk => (not_endedWith_running hk).elim⟩
      change 13 + (6 + 2 * P.out.length) + lifeWeight P (S.proc .wc) +
        (S.data.pipe ()).buf.length < left P S
      simp only [left, hp, running, lifeWeight, weight]
      omega
    · exact h.parent_goes hp (by simp only [weight]; omega)
        (hg.moved ⟨⟨fun _ => rfl, fun _ => ha⟩, hb⟩ nofun nofun)
  | fork₂ p1 =>
    obtain ⟨ha, hb⟩ := hg.order
    rcases hm.of_fork rfl with ⟨-, rfl⟩ | rfl
    · have hwc : WcAt (running .wcCloseWrite) (S.data.pipe ()).sent (S.data.pipe ()).got
          S.data.printed := by
        rw [(hg.wc.of_absent hb).1, (hg.wc.of_absent hb).2]
        exact .closeWrite
      refine ⟨h.parents.spawn _ hrun (by decide), ?_, .closeRead p1 true, rfl, ⟨ha, ⟨nofun, nofun⟩⟩,
        hg.ls, hwc, hg.pipe, False.elim, fun hk => (hg.killed hk).1.elim⟩
      change 4 + lifeWeight P (S.proc .ls) + 8 + (S.data.pipe ()).buf.length < left P S
      simp only [left, hp, running, lifeWeight, weight]
      omega
    · exact h.parent_goes hp (by simp [weight]) (hg.moved ⟨ha, ⟨fun _ => rfl, fun _ => hb⟩⟩ nofun nofun)
  | closeRead p1 p2 =>
    obtain rfl := close_move rfl hm
    exact h.parent_goes hp (by simp [weight]) (hg.moved hg.order nofun nofun)
  | closeWrite p1 p2 =>
    obtain rfl := close_move rfl hm
    exact h.parent_goes hp (by simp [weight]) (hg.moved hg.order id nofun)
  | wait₁ p1 p2 => exact h.parent_wait₁ hp hg hm
  | wait₂ p2 => exact h.parent_wait₂ hp hg hm
  | returned =>
    obtain ⟨_, _, _, ⟨hf, -⟩ | ⟨_, hf, -⟩⟩ := hm.of_sys rfl
    · cases hf
    · cases hf
  | _ => exact hg.order.elim

end Parent

/-! ## The children -/

section Children

variable {P : Programs} {S S' : SysState} {p q : Place} {a a' b b' : Life (Obj Unit) Loc}
  {s s' : World Unit Nat} {l : Loc} {fds : Fds (Obj Unit)}

theorem Order.ls (h : Order p a b) (ha : a.isRunning = true) (ha' : a' ≠ .absent) : Order p a' b := by
  have hne : a ≠ .absent := by
    rintro rfl
    cases ha
  have hiff : ∀ p1, (a = .absent ↔ p1 = false) → (a' = .absent ↔ p1 = false) := fun p1 h1 =>
    ⟨fun h => absurd h ha', fun h => absurd (h1.mpr h) hne⟩
  have hover : ¬ Over a := fun h => by
    rw [h.1] at ha
    cases ha
  cases p with
  | pipe => exact absurd h.1 hne
  | fork₁ => exact absurd h.1 hne
  | fork₂ p1 => exact ⟨hiff p1 h.1, h.2⟩
  | closeRead p1 p2 => exact ⟨hiff p1 h.1, h.2⟩
  | closeWrite p1 p2 => exact ⟨hiff p1 h.1, h.2⟩
  | wait₁ p1 p2 => exact ⟨hiff p1 h.1, h.2⟩
  | wait₂ p2 => exact absurd h.1 hover
  | returned => exact absurd h.1 hover
  | _ => exact h.elim

theorem Order.wc (h : Order p a b) (hb : b.isRunning = true) (hb' : b' ≠ .absent) : Order p a b' := by
  have hne : b ≠ .absent := by
    rintro rfl
    cases hb
  have hiff : ∀ p2, (b = .absent ↔ p2 = false) → (b' = .absent ↔ p2 = false) := fun p2 h2 =>
    ⟨fun h => absurd h hb', fun h => absurd (h2.mpr h) hne⟩
  have hover : ¬ Over b := fun h => by
    rw [h.1] at hb
    cases hb
  cases p with
  | pipe => exact absurd h.2 hne
  | fork₁ => exact absurd h.2 hne
  | fork₂ p1 => exact absurd h.2 hne
  | closeRead p1 p2 => exact ⟨h.1, hiff p2 h.2⟩
  | closeWrite p1 p2 => exact ⟨h.1, hiff p2 h.2⟩
  | wait₁ p1 p2 => exact ⟨h.1, hiff p2 h.2⟩
  | wait₂ p2 => exact ⟨h.1, hiff p2 h.2⟩
  | returned => exact absurd h.2 hover
  | _ => exact h.elim

theorem ne_absent_of_running (ha : a.isRunning = true) : a ≠ .absent := by
  rintro rfl
  cases ha

theorem running_ne_absent (q : Place) : running q ≠ .absent := nofun

theorem zombie_ne_absent (st : Status) : (Life.zombie st : Life (Obj Unit) Loc) ≠ .absent := nofun

/-- Until it has seen the end of the file, `wc` does not know what else there is to come. -/
theorem WcAt.grow {sent got : List UInt8} {printed : List Nat} (h : WcAt b sent got printed)
    (hseen : ¬ SeenEnd b) (sent' : List UInt8) : WcAt b sent' got printed := by
  cases h with
  | absent => exact .absent
  | closeWrite => exact .closeWrite
  | dup => exact .dup
  | closeRead => exact .closeRead
  | exec => exact .exec
  | counting => exact .counting
  | print => exact absurd trivial hseen
  | exit => exact absurd trivial hseen
  | failing => exact .failing
  | done hb => rcases hb with rfl | rfl <;> exact absurd rfl hseen
  | failed hb => exact .failed hb

/-- A step of the first child. While it runs, `wc` has not seen the end of the file. -/
theorem Inv.ls_goes (h : Inv P S) (hls : (S.proc .ls).isRunning = true) (ha' : a' ≠ .absent)
    (hproc : S'.proc = Function.update S.proc .ls a') (hparent : S'.parent = S.parent)
    (hlt : lifeWeight P a' + (S'.data.pipe ()).buf.length <
      lifeWeight P (S.proc .ls) + (S.data.pipe ()).buf.length)
    (hgood : ∀ p, S.proc .parent = running p → Good P p (S.proc .ls) (S.proc .wc) S.data →
      ¬ SeenEnd (S.proc .wc) →
      LsAt P a' (S'.data.pipe ()).sent ∧
      WcAt (S.proc .wc) (S'.data.pipe ()).sent (S'.data.pipe ()).got S'.data.printed ∧
      (S'.data.pipe ()).Wf ∧ (a'.EndedWith .killed → ClosedRead p ∧ Failed (S.proc .wc))) :
    Turn P S S' := by
  obtain ⟨p, hp, hg⟩ := h.good
  have hseen : ¬ SeenEnd (S.proc .wc) := fun hs => by
    rw [(hg.seen hs).2] at hls
    cases hls
  obtain ⟨hls', hwc, hpipe, hkilled⟩ := hgood p hp hg hseen
  refine ⟨h.parents.update (ne_absent_of_running hls) hproc hparent, ?_, p, ?_, ?_⟩
  · unfold left
    rw [hproc]
    change lifeWeight P (S.proc .parent) + lifeWeight P a' + lifeWeight P (S.proc .wc) + _ < _
    omega
  · rw [hproc]
    exact hp
  · rw [hproc]
    exact ⟨hg.order.ls hls ha', hls', hwc, hpipe, fun hs => absurd hs hseen, hkilled⟩

/-- Who has the read end is at a place where it is still open. -/
theorem Inv.reader_gone (h : Inv P S) (hp : S.proc .parent = running p)
    (hg : Good P p (S.proc .ls) (S.proc .wc) S.data) (hls : S.proc .ls ≠ .absent)
    (hseen : ¬ SeenEnd (S.proc .wc)) (hopen : S.isOpen (.reader ()) = false) :
    ClosedRead p ∧ Failed (S.proc .wc) := by
  constructor
  · have hnot := h.listed.not_held hopen hp
    cases p with
    | pipe => exact absurd hg.order.1 hls
    | fork₁ => exact absurd hg.order.1 hls
    | fork₂ p1 => exact absurd (by simp [table]) hnot
    | closeRead p1 p2 => exact absurd (by simp [table]) hnot
    | closeWrite p1 p2 => trivial
    | wait₁ p1 p2 => trivial
    | wait₂ p2 => trivial
    | returned => trivial
    | _ => exact hg.order.elim
  · have hnot := fun l fds (hb : S.proc .wc = .running l fds) => h.listed.not_held hopen hb
    have hwc := hg.wc
    generalize S.proc .wc = b at hwc hnot hseen
    generalize (S.data.pipe ()).got = got, S.data.printed = printed at hwc
    cases hwc with
    | absent => exact .inl rfl
    | failed hb => exact .inr hb
    | done hb => rcases hb with rfl | rfl <;> exact absurd rfl hseen
    | _ => exact absurd (by simp [table]) (hnot _ _ rfl)

/-- A step of the first child on its descriptors alone. -/
theorem Inv.ls_early (h : Inv P S) (hls : S.proc .ls = running p) (hlt : weight P q < weight P p)
    (hq : LsAt P (running q) (S.data.pipe ()).sent) : Turn P S (S.set .ls (running q)) := by
  refine h.ls_goes (by rw [hls]; rfl) (running_ne_absent q) rfl rfl ?_ fun _ _ hg _ =>
    ⟨hq, hg.wc, hg.pipe, fun hk => (not_endedWith_running hk).elim⟩
  rw [hls]
  exact Nat.add_lt_add_right hlt _

/-- The first child ends. -/
theorem Inv.ls_ends (h : Inv P S) (hls : S.proc .ls = running p) (hlt : 1 < weight P p) {n : Nat}
    (hq : LsAt P (.zombie (.exited n)) (S.data.pipe ()).sent) :
    Turn P S (S.finish .ls (.exited n)) := by
  refine h.ls_goes (by rw [hls]; rfl) (zombie_ne_absent _) rfl rfl ?_ fun _ _ hg _ =>
    ⟨hq, hg.wc, hg.pipe, ?_⟩
  · rw [hls]
    exact Nat.add_lt_add_right hlt _
  · rintro (h | h)
    · cases h
    · cases h

theorem Inv.ls_turn (h : Inv P S) (hl : S.proc .ls = .running l fds)
    (hm : Move (code P) (fun _ _ => none) S .ls l fds S') : Turn P S S' := by
  obtain ⟨p, hp, hg⟩ := h.good
  have hrun : (S.proc .ls).isRunning = true := by
    rw [hl]
    rfl
  have hat := hg.ls
  rw [hl] at hat
  generalize hsent : (S.data.pipe ()).sent = sent at hat
  cases hat with
  | closeRead =>
    obtain rfl := close_move rfl hm
    exact h.ls_early hl (by simp [weight]) (hsent ▸ .dup)
  | dup =>
    obtain rfl := dup2_move rfl hm
    exact h.ls_early hl (by simp [weight]) (hsent ▸ .closeWrite)
  | closeWrite =>
    obtain rfl := close_move rfl hm
    exact h.ls_early hl (by simp [weight]) (hsent ▸ .exec)
  | exec =>
    rcases either_move rfl hm with rfl | rfl
    · exact h.ls_early hl (by simp [weight]) (.writing (by rw [hsent]; rfl))
    · exact h.ls_early hl (by simp only [weight]; omega) (hsent ▸ .failing)
  | @writing _ rest hrest =>
    subst hsent
    cases rest with
    | nil =>
      obtain rfl := hm.of_exit rfl
      rw [List.append_nil] at hrest
      exact h.ls_ends hl (by simp [weight]) (hrest ▸ .done (.inl rfl))
    | cons b bs =>
      rcases writeSome_move rfl rfl hm with ⟨hopen, rfl⟩ | ⟨k, hk0, hk, hroom, rfl⟩
      · refine h.ls_goes hrun (zombie_ne_absent _) rfl rfl ?_ fun p hp hg hseen =>
          ⟨.killed (.inl rfl), hg.wc, hg.pipe,
            fun _ => h.reader_gone hp hg (ne_absent_of_running hrun) hseen hopen⟩
        rw [hl]
        change 1 + _ < 2 + 2 * (b :: bs).length + (S.data.pipe ()).buf.length
        simp only [State.finish]
        omega
      · have hout : (S.data.pipe ()).sent ++ (b :: bs).take k ++ (b :: bs).drop k = P.out := by
          rw [List.append_assoc, List.take_append_drop, hrest]
        have hlen : ((b :: bs).take k).length = k := by rw [List.length_take, Nat.min_eq_left hk]
        refine h.ls_goes hrun (running_ne_absent (.ls ((b :: bs).drop k))) rfl rfl ?_
          fun p hp hg hseen => ⟨.writing hout, hg.wc.grow hseen _,
            hg.pipe.put (by rw [hlen]; exact hroom), fun hk => (not_endedWith_running hk).elim⟩
        rw [hl]
        change 2 + 2 * ((b :: bs).drop k).length +
          ((S.data.pipe ()).buf ++ (b :: bs).take k).length < 2 + 2 * (b :: bs).length + _
        rw [List.length_append, hlen, List.length_drop]
        omega
  | failing =>
    obtain rfl := hm.of_exit rfl
    exact h.ls_ends hl (by simp [weight]) (hsent ▸ .failed (.inl rfl))
  | done hend => rcases hend with h | h <;> cases h
  | failed hend => rcases hend with h | h <;> cases h
  | killed hend => rcases hend with h | h <;> cases h

/-- A step of the second child. While it runs, the first has not been ended by a signal. -/
theorem Inv.wc_goes (h : Inv P S) (hwc : (S.proc .wc).isRunning = true) (hb' : b' ≠ .absent)
    (hproc : S'.proc = Function.update S.proc .wc b') (hparent : S'.parent = S.parent)
    (hlt : lifeWeight P b' + (S'.data.pipe ()).buf.length <
      lifeWeight P (S.proc .wc) + (S.data.pipe ()).buf.length)
    (hgood : ∀ p, S.proc .parent = running p → Good P p (S.proc .ls) (S.proc .wc) S.data →
      (S'.data.pipe ()).sent = (S.data.pipe ()).sent ∧
      WcAt b' (S'.data.pipe ()).sent (S'.data.pipe ()).got S'.data.printed ∧
      (S'.data.pipe ()).Wf ∧ (SeenEnd b' → ClosedBoth p ∧ (S.proc .ls).isRunning = false)) :
    Turn P S S' := by
  obtain ⟨p, hp, hg⟩ := h.good
  obtain ⟨hsent, hwc', hpipe, hseen⟩ := hgood p hp hg
  have hkilled : ¬ (S.proc .ls).EndedWith .killed := by
    intro hk
    rcases (hg.killed hk).2 with hb | hb
    · exact ne_absent_of_running hwc hb
    · rw [hb.not_running] at hwc
      cases hwc
  refine ⟨h.parents.update (ne_absent_of_running hwc) hproc hparent, ?_, p, ?_, ?_⟩
  · unfold left
    rw [hproc]
    change lifeWeight P (S.proc .parent) + lifeWeight P (S.proc .ls) + lifeWeight P b' + _ < _
    omega
  · rw [hproc]
    exact hp
  · rw [hproc]
    exact ⟨hg.order.wc hwc hb', hsent ▸ hg.ls, hwc', hpipe, hseen, fun hk => absurd hk hkilled⟩

/-- Who has the write end is at a place where it is still open. -/
theorem Inv.writer_gone (h : Inv P S) (hp : S.proc .parent = running p)
    (hg : Good P p (S.proc .ls) (S.proc .wc) S.data) (hwc : S.proc .wc ≠ .absent)
    (hopen : S.isOpen (.writer ()) = false) : ClosedBoth p ∧ (S.proc .ls).isRunning = false := by
  constructor
  · have hnot := h.listed.not_held hopen hp
    cases p with
    | pipe => exact absurd hg.order.2 hwc
    | fork₁ => exact absurd hg.order.2 hwc
    | fork₂ p1 => exact absurd hg.order.2 hwc
    | closeRead p1 p2 => exact absurd (by simp [table]) hnot
    | closeWrite p1 p2 => exact absurd (by simp [table]) hnot
    | wait₁ p1 p2 => trivial
    | wait₂ p2 => trivial
    | returned => trivial
    | _ => exact hg.order.elim
  · have hnot := fun l fds (ha : S.proc .ls = .running l fds) => h.listed.not_held hopen ha
    have hls := hg.ls
    generalize S.proc .ls = a at hls hnot
    generalize (S.data.pipe ()).sent = sent at hls
    cases hls with
    | absent => rfl
    | done ha => exact ha.not_running
    | failed ha => exact ha.not_running
    | killed ha => exact ha.not_running
    | _ => exact absurd (by simp [table]) (hnot _ _ rfl)

/-- A step of the second child on its descriptors alone. -/
theorem Inv.wc_early (h : Inv P S) (hwc : S.proc .wc = running p) (hlt : weight P q < weight P p)
    (hq : WcAt (running q) (S.data.pipe ()).sent (S.data.pipe ()).got S.data.printed)
    (hseen : SeenEnd (running q) → ∀ p, Good P p (S.proc .ls) (S.proc .wc) S.data →
      S.proc .parent = running p → ClosedBoth p ∧ (S.proc .ls).isRunning = false) :
    Turn P S (S.set .wc (running q)) := by
  refine h.wc_goes (by rw [hwc]; rfl) (running_ne_absent q) rfl rfl ?_ fun p hp hg =>
    ⟨rfl, hq, hg.pipe, fun hs => hseen hs p hg hp⟩
  rw [hwc]
  exact Nat.add_lt_add_right hlt _

theorem Inv.wc_turn (h : Inv P S) (hl : S.proc .wc = .running l fds)
    (hm : Move (code P) (fun _ _ => none) S .wc l fds S') : Turn P S S' := by
  obtain ⟨p, hp, hg⟩ := h.good
  have hrun : (S.proc .wc).isRunning = true := by
    rw [hl]
    rfl
  have hat := hg.wc
  have hseen := hg.seen
  rw [hl] at hat hseen
  generalize hsent : (S.data.pipe ()).sent = sent at hat
  generalize hgot : (S.data.pipe ()).got = got at hat
  generalize hprinted : S.data.printed = printed at hat
  cases hat with
  | closeWrite =>
    obtain rfl := close_move rfl hm
    exact h.wc_early hl (by simp [weight]) (by rw [hgot, hprinted]; exact .dup) False.elim
  | dup =>
    obtain rfl := dup2_move rfl hm
    exact h.wc_early hl (by simp [weight]) (by rw [hgot, hprinted]; exact .closeRead) False.elim
  | closeRead =>
    obtain rfl := close_move rfl hm
    exact h.wc_early hl (by simp [weight]) (by rw [hgot, hprinted]; exact .exec) False.elim
  | exec =>
    rcases either_move rfl hm with rfl | rfl
    · exact h.wc_early hl (by simp [weight]) (by rw [hgot, hprinted]; exact @WcAt.counting _ []) False.elim
    · exact h.wc_early hl (by simp [weight]) (by rw [hgot, hprinted]; exact .failing) False.elim
  | counting =>
    subst hsent hgot
    rcases read_move rfl rfl hm with ⟨hbuf, hopen, rfl⟩ | ⟨hbuf, hS⟩
    · have hwc : WcAt (running (.wcPrint (lines (S.data.pipe ()).got))) (S.data.pipe ()).sent
          (S.data.pipe ()).got S.data.printed := by
        rw [hprinted, hg.pipe.all hbuf]
        exact .print
      exact h.wc_early hl (by simp [weight]) hwc fun _ p hg hp =>
        h.writer_gone hp hg (ne_absent_of_running hrun) hopen
    · have htake : (S.data.pipe ()).buf.take P.count ≠ [] := by
        have hpos := P.count_pos
        intro hnil
        rcases List.take_eq_nil_iff.mp hnil with hzero | hnil
        · omega
        · exact hbuf hnil
      have hwc : WcAt (running (.wc (lines ((S.data.pipe ()).got ++ (S.data.pipe ()).buf.take P.count))))
          (S.data.pipe ()).sent ((S.data.pipe ()).got ++ (S.data.pipe ()).buf.take P.count)
          S.data.printed := by
        rw [hprinted]
        exact .counting
      have hlines : lines ((S.data.pipe ()).got ++ (S.data.pipe ()).buf.take P.count) =
          lines (S.data.pipe ()).got + lines ((S.data.pipe ()).buf.take P.count) :=
        List.count_append
      rw [hlines] at hwc
      simp only [if_neg htake] at hS
      subst hS
      refine h.wc_goes hrun (running_ne_absent _) rfl rfl ?_ fun p hp hg =>
        ⟨rfl, hwc, hg.pipe.take _, False.elim⟩
      rw [hl]
      change 4 + ((S.data.pipe ()).buf.drop P.count).length < 4 + (S.data.pipe ()).buf.length
      have hpos := P.count_pos
      have hlen := List.length_pos_iff.mpr hbuf
      rw [List.length_drop]
      omega
  | print =>
    subst hsent hgot
    obtain rfl := printf_move rfl hm
    have hwc : WcAt (running .wcExit) (S.data.pipe ()).sent (S.data.pipe ()).got
        (S.data.printed ++ [lines (S.data.pipe ()).sent]) := by
      rw [hprinted]
      exact .exit
    refine h.wc_goes hrun (running_ne_absent .wcExit) rfl rfl ?_ fun p hp hg =>
      ⟨rfl, hwc, hg.pipe, fun _ => hg.seen (by rw [hl]; trivial)⟩
    rw [hl]
    exact Nat.add_lt_add_right (Nat.lt_succ_self 2) (S.data.pipe ()).buf.length
  | exit =>
    subst hsent hgot
    obtain rfl := hm.of_exit rfl
    have hwc : WcAt (.zombie (.exited 0)) (S.data.pipe ()).sent (S.data.pipe ()).got S.data.printed := by
      rw [hprinted]
      exact .done (.inl rfl)
    refine h.wc_goes hrun (zombie_ne_absent _) rfl rfl ?_ fun p hp hg =>
      ⟨rfl, hwc, hg.pipe, fun _ => hg.seen (by rw [hl]; trivial)⟩
    rw [hl]
    exact Nat.add_lt_add_right (Nat.lt_succ_self 1) (S.data.pipe ()).buf.length
  | failing =>
    subst hsent
    obtain rfl := hm.of_exit rfl
    have hwc : WcAt (.zombie (.exited 1)) (S.data.pipe ()).sent (S.data.pipe ()).got S.data.printed := by
      rw [hgot, hprinted]
      exact .failed (.inl rfl)
    refine h.wc_goes hrun (zombie_ne_absent _) rfl rfl ?_ fun p hp hg => ⟨rfl, hwc, hg.pipe, nofun⟩
    rw [hl]
    exact Nat.add_lt_add_right (Nat.lt_succ_self 1) (S.data.pipe ()).buf.length
  | done hend => rcases hend with h | h <;> cases h
  | failed hend => rcases hend with h | h <;> cases h

end Children

/-! ## Runs -/

section Run

variable {P : Programs} {S S' : SysState} {p : Place}

theorem Inv.turn (h : Inv P S) {i : Proc} {l : Loc} {fds : Fds (Obj Unit)}
    (hi : S.proc i = .running l fds) (hm : Move (code P) (fun _ _ => none) S i l fds S') :
    Turn P S S' := by
  cases i with
  | parent =>
    obtain ⟨p, hp, hg⟩ := h.good
    rw [hp] at hi
    cases hi
    exact h.parent_turn hp hg hm
  | ls => exact h.ls_turn hi hm
  | wc => exact h.wc_turn hi hm

/-- A step keeps the invariant, and less is left to do. -/
theorem Inv.step (h : Inv P S) {e : Event Proc} {r : Unit} (hs : step P S e = some (r, S')) :
    Inv P S' ∧ left P S' < left P S := by
  obtain ⟨i, l, fds, hi, hm⟩ := step_move hs
  obtain ⟨hparents, hlt, hgood⟩ := h.turn hi hm
  exact ⟨⟨hm.listed h.listed hi, hparents, hgood⟩, hlt⟩

theorem inv_reach (h : Machine.Reach (step P) (fun _ _ => True) start S) : Inv P S :=
  h.invariant (inv_start P) fun _ _ _ _ hS _ hs => (hS.step hs).1

theorem left_start (P : Programs) : left P start = 21 + 2 * P.out.length := rfl

/-! ## Nobody waits for ever -/

/-- The second child goes on, unless it waits at an empty pipe that is still open for writing. -/
theorem Inv.wc_can (h : Inv P S) (hwc : (S.proc .wc).isRunning = true)
    (hready : ∀ n, S.proc .wc = running (.wc n) →
      (S.data.pipe ()).buf ≠ [] ∨ S.isOpen (.writer ()) = false) :
    ∃ e, (PipeDemo.Pipeline.step P S e).isSome := by
  obtain ⟨p, -, hg⟩ := h.good
  have hat := hg.wc
  generalize hb : S.proc .wc = b at hat hwc
  generalize (S.data.pipe ()).sent = sent, (S.data.pipe ()).got = got, S.data.printed = printed at hat
  cases hat with
  | closeWrite => exact can_sys hb rfl (k := 0) rfl
  | dup => exact can_sys hb rfl (k := 0) rfl
  | closeRead => exact can_sys hb rfl (k := 0) rfl
  | exec => exact can_sys hb rfl (k := 0) rfl
  | counting => exact can_sys hb rfl (k := 0) (read_ready rfl (hready _ hb))
  | print => exact can_sys hb rfl (k := 0) rfl
  | exit => exact can_exit hb rfl
  | failing => exact can_exit hb rfl
  | absent => cases hwc
  | done hend =>
    rw [hend.not_running] at hwc
    cases hwc
  | failed hend =>
    rw [hend.not_running] at hwc
    cases hwc

/-- The first child goes on, or it waits for room in the pipe, and then the second goes on. -/
theorem Inv.ls_can (h : Inv P S) (hp : S.proc .parent = running p) (hboth : ClosedBoth p)
    (hls : (S.proc .ls).isRunning = true) : ∃ e, (PipeDemo.Pipeline.step P S e).isSome := by
  obtain ⟨_, -, hg⟩ := h.good
  have hat := hg.ls
  generalize ha : S.proc .ls = a at hat hls
  generalize (S.data.pipe ()).sent = sent at hat
  cases hat with
  | closeRead => exact can_sys ha rfl (k := 0) rfl
  | dup => exact can_sys ha rfl (k := 0) rfl
  | closeWrite => exact can_sys ha rfl (k := 0) rfl
  | exec => exact can_sys ha rfl (k := 0) rfl
  | @writing _ rest =>
    cases rest with
    | nil => exact can_exit ha rfl
    | cons b bs =>
      by_cases hroom : (S.data.pipe ()).buf.length < capacity
      · exact can_sys ha rfl (writeSome_ready rfl (List.cons_ne_nil b bs) (.inl hroom))
      cases hopen : S.isOpen (.reader ()) with
      | false => exact can_sys ha rfl (writeSome_ready rfl (List.cons_ne_nil b bs) (.inr hopen))
      | true =>
        -- The pipe is full, and only the second child can have its read end open.
        have hbuf : (S.data.pipe ()).buf ≠ [] := by
          intro hnil
          rw [hnil] at hroom
          exact hroom (by decide)
        obtain ⟨i, l, fds, hi, hfd⟩ := (h.listed.isOpen_iff _).mp hopen
        cases i with
        | parent =>
          rw [hp] at hi
          cases hi
          cases p <;> first | exact hboth.elim | simp [table] at hfd
        | ls =>
          rw [ha] at hi
          cases hi
          simp [table] at hfd
        | wc =>
          exact h.wc_can (by rw [hi]; rfl) fun _ _ => .inl hbuf
  | failing => exact can_exit ha rfl
  | absent => cases hls
  | done hend =>
    rw [hend.not_running] at hls
    cases hls
  | failed hend =>
    rw [hend.not_running] at hls
    cases hls
  | killed hend =>
    rw [hend.not_running] at hls
    cases hls

/-- A `waitpid` of the parent returns, or a child goes on. -/
theorem Inv.wait_can (h : Inv P S) (hp : S.proc .parent = running p) (hboth : ClosedBoth p)
    {who : Option Proc} {next : Loc} (hc : code P .parent ⟨p, pipefdAt p⟩ = .wait who next) :
    ∃ e, (PipeDemo.Pipeline.step P S e).isSome := by
  by_cases hls : (S.proc .ls).isRunning = true
  · exact h.ls_can hp hboth hls
  by_cases hwc : (S.proc .wc).isRunning = true
  · refine h.wc_can hwc fun n hn => .inr (Bool.eq_false_iff.mpr fun hopen => ?_)
    obtain ⟨i, l, fds, hi, hfd⟩ := (h.listed.isOpen_iff _).mp hopen
    cases i with
    | parent =>
      rw [hp] at hi
      cases hi
      cases p <;> first | exact hboth.elim | simp [table] at hfd
    | ls =>
      rw [hi] at hls
      exact hls rfl
    | wc =>
      rw [hn] at hi
      cases hi
      simp [table] at hfd
  · refine can_wait hp hc fun j hj => ?_
    cases j with
    | parent =>
      have hparent := hj.1
      rw [h.parents.parent] at hparent
      cases hparent
    | ls => exact Bool.eq_false_iff.mpr hls
    | wc => exact Bool.eq_false_iff.mpr hwc

theorem Inv.can (h : Inv P S) (hnot : S.proc .parent ≠ running .returned) :
    ∃ e, (PipeDemo.Pipeline.step P S e).isSome := by
  obtain ⟨p, hp, hg⟩ := h.good
  cases p with
  | pipe => exact can_sys hp rfl (k := 0) rfl
  | fork₁ => exact can_fork hp rfl
  | fork₂ p1 => exact can_fork hp rfl
  | closeRead p1 p2 => exact can_sys hp rfl (k := 0) rfl
  | closeWrite p1 p2 => exact can_sys hp rfl (k := 0) rfl
  | wait₁ p1 p2 => exact h.wait_can hp trivial rfl
  | wait₂ p2 => exact h.wait_can hp trivial rfl
  | returned => exact absurd hp hnot
  | _ => exact hg.order.elim

/-! ## What is printed -/

/-- What has been printed is the number of lines of all that has gone into the pipe. -/
theorem WcAt.printed {b : Life (Obj Unit) Loc} {sent got : List UInt8} {printed : List Nat}
    (h : WcAt b sent got printed) : printed = [] ∨ printed = [lines sent] := by
  cases h with
  | exit => exact .inr rfl
  | done => exact .inr rfl
  | _ => exact .inl rfl

/-- When both children are gone, the lines have been counted, or a child has failed. -/
theorem Good.counted {a b : Life (Obj Unit) Loc} {s : World Unit Nat} (hg : Good P p a b s)
    (ha : Over a) (hb : Over b) : s.printed = [lines P.out] ∨ Failed a ∨ Failed b := by
  have hls := hg.ls
  have hwc := hg.wc
  generalize (s.pipe ()).sent = sent at hls hwc
  generalize (s.pipe ()).got = got, s.printed = printed at hwc ⊢
  cases hls with
  | absent => exact .inr (.inl (.inl rfl))
  | failed h => exact .inr (.inl (.inr h))
  | killed h => exact .inr (.inr (hg.killed h).2)
  | done h =>
    cases hwc with
    | absent => exact .inr (.inr (.inl rfl))
    | failed h => exact .inr (.inr (.inr h))
    | done h => exact .inl rfl
    | _ => cases hb.1
  | _ => cases ha.1

/-- Whatever `ls` writes, in whatever pieces, and in every order of the steps: `demo_pipe_pipeline`
returns after at most so many steps, with its descriptors closed and its children reaped; and `wc` has
printed the number of lines of all that `ls` writes, unless a `fork` or an `execlp` has failed. -/
theorem pipeline_counts (P : Programs) {es : List (Event Proc)} {outs : List Unit}
    (hrun : Machine.exec (step P) start es = some (outs, S)) :
    es.length ≤ 21 + 2 * P.out.length ∧
    (S.data.printed = [] ∨ S.data.printed = [lines (S.data.pipe ()).sent]) ∧
    ((∀ e, step P S e = none) → S.proc .parent = running .returned ∧
      Over (S.proc .ls) ∧ Over (S.proc .wc) ∧
      (S.data.printed = [lines P.out] ∨ Failed (S.proc .ls) ∨ Failed (S.proc .wc))) := by
  have hinv : Inv P S := inv_reach (Machine.Reach.exec es .init hrun)
  refine ⟨?_, ?_, fun hstuck => ?_⟩
  · rw [← left_start P]
    exact Machine.exec_length_le (fun _ _ _ _ hS hs => hS.step hs) (inv_start P) hrun
  · obtain ⟨p, -, hg⟩ := hinv.good
    exact hg.wc.printed
  · have hret : S.proc .parent = running .returned := by
      by_contra hnot
      obtain ⟨e, he⟩ := hinv.can hnot
      rw [hstuck e] at he
      cases he
    obtain ⟨p, hp, hg⟩ := hinv.good
    rw [hret] at hp
    cases p with
    | returned =>
      obtain ⟨hls, hwc⟩ := hg.order
      exact ⟨hret, hls, hwc, hg.counted hls hwc⟩
    | _ => cases hp

/-- `ls` writes two lines, in two pieces, and `wc` asks for three bytes at once. -/
def twoLines : Programs := ⟨[0x61, 0x0A, 0x62, 0x0A], 3, by decide⟩

/-- `wc` reads between the two writes. -/
def twoLinesRun : List (Event Proc) :=
  [.go .parent 0, .go .parent 0, .go .parent 0, .go .parent 0, .go .parent 0,
    .go .ls 0, .go .ls 0, .go .ls 0, .go .ls 1, .go .wc 0, .go .wc 0, .go .wc 0, .go .wc 1,
    .go .ls 3, .go .wc 0, .go .ls 1, .go .ls 0, .collect .parent .ls, .go .wc 0, .go .wc 0,
    .go .wc 0, .go .wc 0, .collect .parent .wc]

theorem pipeline_counts_twoLines : ∃ outs S,
    Machine.exec (step twoLines) start twoLinesRun = some (outs, S) ∧ S.data.printed = [2] ∧
    twoLinesRun.length ≤ 21 + 2 * twoLines.out.length ∧
    (S.data.printed = [] ∨ S.data.printed = [lines (S.data.pipe ()).sent]) ∧
    ((∀ e, step twoLines S e = none) → S.proc .parent = running .returned ∧
      Over (S.proc .ls) ∧ Over (S.proc .wc) ∧
      (S.data.printed = [lines twoLines.out] ∨ Failed (S.proc .ls) ∨ Failed (S.proc .wc))) := by
  refine ⟨_, _, rfl, rfl, ?_⟩
  exact pipeline_counts twoLines rfl

end Run

end PipeDemo.Pipeline
