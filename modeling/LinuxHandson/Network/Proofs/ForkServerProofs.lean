import LinuxHandson.Network.ForkServer
import Mathlib.Data.List.Infix

/-!
# What the forking server leaves open

Each process has the descriptors of its place and no others, so that the server hands a connection
over to one child and keeps nothing of it. Together with the handler this is what lets it run for any
number of clients.
-/

namespace ForkServer

open Process

/-! ## The invariant -/

/-- The table of the parent between two clients. -/
def Base (fds : Fds Obj) : Prop :=
  fds = [some .terminal, some .terminal, some .terminal, some .server] ∨
    fds = [some .terminal, some .terminal, some .terminal, some .server, none]

/-- The table when connection `n` has just been accepted. -/
def withClient (n : Nat) : Fds Obj :=
  [some .terminal, some .terminal, some .terminal, some .server, some (.client n)]

/-- The table of a child that has closed the server's socket. -/
def childFds (n : Nat) : Fds Obj :=
  [some .terminal, some .terminal, some .terminal, none, some (.client n)]

/-- The parent, where no child has a number above `n`. -/
inductive ParentAt : Nat → Life Obj (Reaper.Loc Loc) → Prop where
  | socket {hd : Option Reaper.Handler} :
    ParentAt 0 (.running ⟨⟨.socket, 0, 0⟩, hd⟩ (List.replicate 3 (some .terminal)))
  | accept {n : Nat} {hd : Option Reaper.Handler} {fds : Fds Obj} (h : Base fds) :
    ParentAt n (.running ⟨⟨.accept, 3, n⟩, hd⟩ fds)
  | fork {n : Nat} {hd : Option Reaper.Handler} :
    ParentAt n (.running ⟨⟨.fork 4, 3, n + 1⟩, hd⟩ (withClient n))
  | closeClient {n : Nat} {hd : Option Reaper.Handler} :
    ParentAt (n + 1) (.running ⟨⟨.closeClient 4, 3, n + 1⟩, hd⟩ (withClient n))
  | closeServer {n : Nat} {hd : Option Reaper.Handler} {fds : Fds Obj} (h : Base fds) :
    ParentAt n (.running ⟨⟨.closeServer, 3, n⟩, hd⟩ fds)
  | exit {n : Nat} {hd : Option Reaper.Handler} {fds : Fds Obj}
      (h : ∀ o, some o ∈ fds → o = .terminal) : ParentAt n (.running ⟨⟨.exit, 3, n⟩, hd⟩ fds)
  | ended {n : Nat} {p : Life Obj (Reaper.Loc Loc)} {st : Status} (h : p.EndedWith st) : ParentAt n p

/-- The child for connection `n`, and what has become of the connection. -/
inductive ChildAt (n : Nat) : Life Obj (Reaper.Loc Loc) → Conn → Prop where
  | absent : ChildAt n .absent ⟨[], []⟩
  | closeServer {a : Nat} {hd : Option Reaper.Handler} :
    ChildAt n (.running ⟨⟨.childCloseServer 4, 3, a⟩, hd⟩ (withClient n)) ⟨[], []⟩
  | reading {a : Nat} {hd : Option Reaper.Handler} {bytes : List UInt8} :
    ChildAt n (.running ⟨⟨.reading 4, 3, a⟩, hd⟩ (childFds n)) ⟨bytes, bytes⟩
  | writing {a : Nat} {hd : Option Reaper.Handler} {rest echoed : List UInt8} :
    ChildAt n (.running ⟨⟨.writing 4 rest, 3, a⟩, hd⟩ (childFds n)) ⟨echoed ++ rest, echoed⟩
  | closeClient {a : Nat} {hd : Option Reaper.Handler} {c : Conn} (h : c.echoed <+: c.received) :
    ChildAt n (.running ⟨⟨.childCloseClient 4, 3, a⟩, hd⟩ (childFds n)) c
  | exit {a : Nat} {hd : Option Reaper.Handler} {fds : Fds Obj} {c : Conn}
      (hfds : ∀ o, some o ∈ fds → o = .terminal) (h : c.echoed <+: c.received) :
    ChildAt n (.running ⟨⟨.childExit, 3, a⟩, hd⟩ fds) c
  | ended {p : Life Obj (Reaper.Loc Loc)} {st : Status} {c : Conn} (hp : p.EndedWith st)
      (h : c.echoed <+: c.received) : ChildAt n p c

/-- What has been received is what the client has sent first. -/
def Sent (input : Nat → Nat → UInt8) (n : Nat) (c : Conn) : Prop :=
  c.received = (List.range c.received.length).map (input n)

/-- Where the parent and each child are, with their descriptors, and what was sent to whom. -/
structure Good (input : Nat → Nat → UInt8) (S : SysState) : Prop where
  parent : ∃ n, ParentAt n (S.proc 0) ∧ ∀ j, n < j → S.proc j = .absent
  child : ∀ n, ChildAt n (S.proc (n + 1)) (S.data n)
  sent : ∀ n, Sent input n (S.data n)
  forked : ∀ n, S.proc (n + 1) ≠ .absent → S.parent (n + 1) = some 0

theorem good_start (input : Nat → Nat → UInt8) : Good input start where
  parent := by
    refine ⟨0, .socket, fun j hj => ?_⟩
    have hne : j ≠ 0 := Nat.ne_of_gt hj
    simp [start, State.start, hne]
  child := fun n => .absent
  sent := fun n => rfl
  forked := fun n hn => absurd (by simp [start, State.start]) hn

variable {input : Nat → Nat → UInt8} {S S' : SysState} {n : Nat} {p : Life Obj (Reaper.Loc Loc)}
  {c : Conn} {m : Loc} {hd : Option Reaper.Handler} {fds : Fds Obj} {st : Status}

theorem ParentAt.handler (h : ParentAt n (.running ⟨m, hd⟩ fds)) (hd' : Option Reaper.Handler) :
    ParentAt n (.running ⟨m, hd'⟩ fds) := by
  cases h with
  | socket => exact .socket
  | accept h => exact .accept h
  | fork => exact .fork
  | closeClient => exact .closeClient
  | closeServer h => exact .closeServer h
  | exit h => exact .exit h
  | ended h => rcases h with h | h <;> cases h

theorem ChildAt.handler (h : ChildAt n (.running ⟨m, hd⟩ fds) c) (hd' : Option Reaper.Handler) :
    ChildAt n (.running ⟨m, hd'⟩ fds) c := by
  cases h with
  | closeServer => exact .closeServer
  | reading => exact .reading
  | writing => exact .writing
  | closeClient h => exact .closeClient h
  | exit hfds h => exact .exit hfds h
  | ended h => rcases h with h | h <;> cases h

theorem ChildAt.isPrefix (h : ChildAt n p c) : c.echoed <+: c.received := by
  cases h with
  | absent => exact List.prefix_rfl
  | closeServer => exact List.prefix_rfl
  | reading => exact List.prefix_rfl
  | writing => exact List.prefix_append ..
  | closeClient h => exact h
  | exit _ h => exact h
  | ended _ h => exact h

/-! ## Steps that change one process -/

theorem Good.set_parent (h : Good input S) (hp : ParentAt n p) (hfresh : ∀ j, n < j → S.proc j = .absent)
    (hproc : S'.proc = Function.update S.proc 0 p) (hparent : S'.parent = S.parent)
    (hdata : S'.data = S.data) : Good input S' where
  parent := by
    refine ⟨n, by rw [hproc, Function.update_self]; exact hp, fun j hj => ?_⟩
    rw [hproc, Function.update_of_ne (Nat.ne_of_gt (Nat.zero_lt_of_lt hj))]
    exact hfresh j hj
  child := by
    intro m
    rw [hproc, hdata, Function.update_of_ne (Nat.succ_ne_zero m)]
    exact h.child m
  sent := by
    rw [hdata]
    exact h.sent
  forked := by
    intro m hm
    rw [hproc, Function.update_of_ne (Nat.succ_ne_zero m)] at hm
    rw [hparent]
    exact h.forked m hm

theorem Good.set_child (h : Good input S) (hn : S.proc (n + 1) ≠ .absent) (hp : ChildAt n p (S'.data n))
    (hproc : S'.proc = Function.update S.proc (n + 1) p) (hparent : S'.parent = S.parent)
    (hdata : ∀ m, m ≠ n → S'.data m = S.data m)
    (hsent : Sent input n (S'.data n)) : Good input S' where
  parent := by
    obtain ⟨a, ha, hfresh⟩ := h.parent
    refine ⟨a, by rw [hproc, Function.update_of_ne (Nat.succ_ne_zero n).symm]; exact ha, fun j hj => ?_⟩
    have hne : j ≠ n + 1 := by
      rintro rfl
      exact hn (hfresh _ hj)
    rw [hproc, Function.update_of_ne hne]
    exact hfresh j hj
  child := by
    intro m
    by_cases hm : m = n
    · subst hm
      rw [hproc, Function.update_self]
      exact hp
    · rw [hproc, hdata m hm, Function.update_of_ne (by omega)]
      exact h.child m
  sent := by
    intro m
    by_cases hm : m = n
    · rw [hm]
      exact hsent
    · rw [hdata m hm]
      exact h.sent m
  forked := by
    intro m hm
    rw [hparent]
    by_cases hmn : m = n
    · rw [hmn]
      exact h.forked n hn
    · rw [hproc, Function.update_of_ne (by omega)] at hm
      exact h.forked m hm

theorem Good.handler_goes (h : Good input S) {i : Nat} (hi : S.proc i = .running ⟨m, hd⟩ fds)
    {hd' : Option Reaper.Handler}
    (hproc : S'.proc = Function.update S.proc i (.running ⟨m, hd'⟩ fds))
    (hparent : S'.parent = S.parent) (hdata : S'.data = S.data) : Good input S' := by
  cases i with
  | zero =>
    obtain ⟨a, ha, hfresh⟩ := h.parent
    rw [hi] at ha
    exact h.set_parent (ha.handler hd') hfresh hproc hparent hdata
  | succ n =>
    have hn := h.child n
    rw [hi] at hn
    have hp : ChildAt n (.running ⟨m, hd'⟩ fds) (S'.data n) := by
      rw [hdata]
      exact hn.handler hd'
    have hsent := h.sent n
    rw [← hdata] at hsent
    exact h.set_child (by simp [hi]) hp hproc hparent (fun m _ => by rw [hdata]) hsent

theorem Good.reap (h : Good input S) {j : Nat} (hj : S.proc j = .zombie st) :
    Good input (S.set j (.reaped st)) := by
  cases j with
  | zero =>
    obtain ⟨a, -, hfresh⟩ := h.parent
    exact h.set_parent (.ended (.inr rfl)) hfresh rfl rfl rfl
  | succ n =>
    exact h.set_child (by simp [hj]) (.ended (.inr rfl) (h.child n).isPrefix) rfl rfl (fun _ _ => rfl)
      (h.sent n)

theorem ChildAt.of_absent (h : ChildAt n .absent c) : c = ⟨[], []⟩ := by
  cases h with
  | absent => rfl
  | ended hp => rcases hp with hp | hp <;> cases hp

/-- A child for the connection that was accepted last. -/
theorem Good.spawn (h : Good input S) (hp : ParentAt (n + 1) (S.proc 0))
    (hfresh : ∀ j, n < j → S.proc j = .absent) {a : Nat} :
    Good input (S.spawn 0 (n + 1) ⟨⟨.childCloseServer 4, 3, a⟩, none⟩ (withClient n)) where
  parent := by
    refine ⟨n + 1, ?_, fun j hj => ?_⟩
    · simpa [State.spawn] using hp
    · change Function.update S.proc (n + 1) _ j = _
      rw [Function.update_of_ne (Nat.ne_of_gt hj)]
      exact hfresh j (Nat.lt_of_succ_lt hj)
  child := by
    intro m
    change ChildAt m (Function.update S.proc (n + 1) _ (m + 1)) (S.data m)
    by_cases hm : m = n
    · have hchild := h.child n
      rw [hfresh (n + 1) (Nat.lt_succ_self n)] at hchild
      rw [hm, Function.update_self, hchild.of_absent]
      exact .closeServer
    · rw [Function.update_of_ne (by omega)]
      exact h.child m
  sent := h.sent
  forked := by
    intro m hm
    change Function.update S.proc (n + 1) _ (m + 1) ≠ _ at hm
    change Function.update S.parent (n + 1) _ (m + 1) = _
    by_cases hmn : m + 1 = n + 1
    · rw [hmn, Function.update_self]
    · rw [Function.update_of_ne hmn] at hm ⊢
      exact h.forked m hm

/-! ## The parent -/

/-- The lowest closed descriptor is 4 for every client. -/
theorem Base.add (h : Base fds) (o : Obj) : fds.add o =
    (4, [some .terminal, some .terminal, some .terminal, some .server, some o]) := by
  rcases h with rfl | rfl
  · rfl
  · rfl

theorem Base.close (h : Base fds) : ∀ o, some o ∈ fds.close 3 → o = .terminal := by
  rcases h with rfl | rfl <;> simp [Fds.close]

/-- The code of the processes of the server. -/
abbrev serverCode (input : Nat → Nat → UInt8) := Reaper.code (main input)

theorem Good.parent_goes (h : Good input S) (hi : S.proc 0 = .running ⟨m, none⟩ fds)
    (hm : Move (serverCode input) (fun _ _ => none) S 0 ⟨m, none⟩ fds S') : Good input S' := by
  obtain ⟨a, ha, hfresh⟩ := h.parent
  rw [hi] at ha
  cases ha with
  | socket =>
    obtain ⟨k, fds', s, ⟨hf, -⟩ | ⟨l', hf, rfl⟩⟩ := Reaper.move_sys rfl hm
    · cases hf
    · cases hf
      exact h.set_parent (.accept (.inl rfl)) hfresh rfl rfl rfl
  | accept hb =>
    obtain ⟨k, fds', s, hf⟩ := Reaper.move_sys rfl hm
    match k, hf with
    | 0, .inl ⟨hf, _⟩ => cases hf
    | 0, .inr ⟨l', hf, hS⟩ =>
      cases hf
      subst hS
      exact h.set_parent (.closeServer hb) hfresh rfl rfl rfl
    | 1, .inl ⟨hf, _⟩ => cases hf
    | 1, .inr ⟨l', hf, hS⟩ =>
      cases hf
      subst hS
      exact h.set_parent (.accept hb) hfresh rfl rfl rfl
    | k + 2, .inl ⟨hf, _⟩ => cases hf
    | k + 2, .inr ⟨l', hf, hS⟩ =>
      simp only [accept, hb.add] at hf
      cases hf
      subst hS
      exact h.set_parent .fork hfresh rfl rfl rfl
  | fork =>
    rcases hm.of_fork rfl with ⟨-, rfl⟩ | rfl
    · have hset : Good input (S.set 0 (.running ⟨⟨.closeClient 4, 3, a + 1⟩, none⟩ (withClient a))) :=
        h.set_parent .closeClient (fun j hj => hfresh j (Nat.lt_of_succ_lt hj)) rfl rfl rfl
      refine hset.spawn (by rw [State.set_proc_self]; exact .closeClient) fun j hj => ?_
      rw [State.set_proc_of_ne _ _ (Nat.ne_of_gt (Nat.zero_lt_of_lt hj))]
      exact hfresh j hj
    · exact h.set_parent .closeClient (fun j hj => hfresh j (Nat.lt_of_succ_lt hj)) rfl rfl rfl
  | closeClient =>
    obtain ⟨k, fds', s, ⟨hf, -⟩ | ⟨l', hf, rfl⟩⟩ := Reaper.move_sys rfl hm
    · cases hf
    · cases hf
      exact h.set_parent (.accept (.inr rfl)) hfresh rfl rfl rfl
  | closeServer hb =>
    obtain ⟨k, fds', s, ⟨hf, -⟩ | ⟨l', hf, rfl⟩⟩ := Reaper.move_sys rfl hm
    · cases hf
    · cases hf
      exact h.set_parent (.exit hb.close) hfresh rfl rfl rfl
  | exit hterm =>
    obtain rfl := hm.of_exit rfl
    exact h.set_parent (.ended (.inl rfl)) hfresh rfl rfl rfl
  | ended hp => rcases hp with hp | hp <;> cases hp

/-! ## The children -/

theorem Sent.next (h : Sent input n c) (k : Nat) :
    Sent input n { c with received := c.received ++ nextBytes input n c k } := by
  unfold Sent nextBytes at *
  simp only [List.length_append, List.length_map, List.length_range]
  rw [List.range_add, List.map_append, List.map_map, ← h]
  rfl

/-- What a `read` of a child can do. -/
theorem read_cases {k : Nat} {isOpen : Obj → Bool} {l : Loc} {s s' : Nat → Conn} {r : Option Loc}
    (hf : read input 4 l isOpen k (childFds n) s = some (r, fds, s')) :
    (r = some { l with place := .childCloseClient 4 } ∧ fds = childFds n ∧ s' = s) ∨
      (r = some { l with place := .writing 4 (nextBytes input n (s n) k) } ∧ fds = childFds n ∧
        s' = Function.update s n { s n with
          received := (s n).received ++ nextBytes input n (s n) k }) := by
  have hget : (childFds n).get 4 = some (.client n) := rfl
  simp only [read, hget] at hf
  split at hf
  · cases hf
    exact .inl ⟨rfl, rfl, rfl⟩
  · split at hf
    · cases hf
      exact .inr ⟨rfl, rfl, rfl⟩
    · cases hf

/-- What a `write` of a child can do. -/
theorem write_cases {k : Nat} {isOpen : Obj → Bool} {l : Loc} {s s' : Nat → Conn} {r : Option Loc}
    {rest : List UInt8} (hf : write 4 rest l isOpen k (childFds n) s = some (r, fds, s')) :
    ((r = none ∨ r = some { l with place := .childCloseClient 4 }) ∧ fds = childFds n ∧ s' = s) ∨
      ((r = some { l with place := .reading 4 } ∧ rest.drop k = [] ∨
          r = some { l with place := .writing 4 (rest.drop k) }) ∧ fds = childFds n ∧
        s' = Function.update s n { s n with echoed := (s n).echoed ++ rest.take k }) := by
  have hget : (childFds n).get 4 = some (.client n) := rfl
  simp only [write, hget] at hf
  split at hf
  · cases hf
    exact .inl ⟨.inr rfl, rfl, rfl⟩
  · split at hf
    · split at hf
      · next hlen =>
        cases hf
        exact .inr ⟨.inl ⟨rfl, List.drop_of_length_le (Nat.le_of_eq hlen)⟩, rfl, rfl⟩
      · cases hf
        exact .inr ⟨.inr rfl, rfl, rfl⟩
    · cases hf
      exact .inl ⟨.inl rfl, rfl, rfl⟩

/-- A step of a child on its own connection. -/
theorem Good.set_conn (h : Good input S) (hn : S.proc (n + 1) ≠ .absent) {l : Loc} {c : Conn}
    (hp : ChildAt n (.running ⟨l, none⟩ (childFds n)) c) (hsent : Sent input n c) :
    Good input ({ S with data := Function.update S.data n c }.set (n + 1)
      (.running ⟨l, none⟩ (childFds n))) := by
  refine h.set_child hn ?_ rfl rfl (fun k hk => Function.update_of_ne hk ..) ?_
  · simpa [State.set] using hp
  · simpa [State.set] using hsent

theorem Good.child_goes (h : Good input S) (hi : S.proc (n + 1) = .running ⟨m, none⟩ fds)
    (hm : Move (serverCode input) (fun _ _ => none) S (n + 1) ⟨m, none⟩ fds S') : Good input S' := by
  have hn := h.child n
  have hsent := h.sent n
  have hne : S.proc (n + 1) ≠ .absent := by simp [hi]
  rw [hi] at hn
  generalize hc : S.data n = c at hn hsent
  cases hn with
  | closeServer =>
    obtain ⟨k, fds', s, ⟨hf, -⟩ | ⟨l', hf, rfl⟩⟩ := Reaper.move_sys rfl hm
    · cases hf
    · cases hf
      exact h.set_child hne (by rw [State.set, hc]; exact .reading) rfl rfl (fun _ _ => rfl) (h.sent n)
  | @reading _ _ bytes =>
    obtain ⟨k, fds', s, ⟨hf, -⟩ | ⟨l', hf, rfl⟩⟩ := Reaper.move_sys rfl hm
    · rcases read_cases hf with ⟨hr, -⟩ | ⟨hr, -⟩
      · cases hr
      · cases hr
    · rcases read_cases hf with ⟨hr, rfl, rfl⟩ | ⟨hr, rfl, rfl⟩
      · cases hr
        exact h.set_child hne (by rw [State.set, hc]; exact .closeClient List.prefix_rfl) rfl rfl
          (fun _ _ => rfl) (h.sent n)
      · cases hr
        rw [hc]
        exact h.set_conn hne .writing (hsent.next k)
  | @writing _ _ rest echoed =>
    have hpre : echoed <+: echoed ++ rest := List.prefix_append ..
    obtain ⟨k, fds', s, ⟨hf, rfl⟩ | ⟨l', hf, rfl⟩⟩ := Reaper.move_sys rfl hm
    · rcases write_cases hf with ⟨-, -, rfl⟩ | ⟨hr | hr, -⟩
      · exact h.set_child hne (.ended (.inl rfl) (by rw [State.finish, hc]; exact hpre)) rfl rfl
          (fun _ _ => rfl) (h.sent n)
      · cases hr.1
      · cases hr
    · rcases write_cases hf with ⟨hr | hr, rfl, rfl⟩ | ⟨⟨hr, hdrop⟩ | hr, rfl, rfl⟩
      · cases hr
      · cases hr
        exact h.set_child hne (by rw [State.set, hc]; exact .closeClient hpre) rfl rfl (fun _ _ => rfl)
          (h.sent n)
      · cases hr
        have hrest : rest.take k = rest := List.take_of_length_le (List.drop_eq_nil_iff.mp hdrop)
        rw [hc]
        simp only [hrest]
        exact h.set_conn hne .reading hsent
      · cases hr
        have hsplit : echoed ++ rest = echoed ++ rest.take k ++ rest.drop k := by
          rw [List.append_assoc, List.take_append_drop]
        rw [hc]
        simp only [hsplit]
        rw [hsplit] at hsent
        exact h.set_conn hne .writing hsent
  | closeClient hpre =>
    obtain ⟨k, fds', s, ⟨hf, -⟩ | ⟨l', hf, rfl⟩⟩ := Reaper.move_sys rfl hm
    · cases hf
    · cases hf
      refine h.set_child hne (.exit ?_ (by rw [State.set, hc]; exact hpre)) rfl rfl (fun _ _ => rfl) (h.sent n)
      simp [childFds, Fds.close]
  | exit hterm hpre =>
    obtain rfl := hm.of_exit rfl
    exact h.set_child hne (.ended (.inl rfl) (by rw [State.finish, hc]; exact hpre)) rfl rfl (fun _ _ => rfl)
      (h.sent n)
  | ended hp => rcases hp with hp | hp <;> cases hp

/-! ## Runs -/

theorem Good.step {i : Nat} {l : Reaper.Loc Loc} (h : Good input S) (hi : S.proc i = .running l fds)
    (hm : Move (serverCode input) Reaper.handler S i l fds S') : Good input S' := by
  obtain ⟨m, hd⟩ := l
  rcases hm.signal_or with ⟨l', hh, rfl⟩ | hm'
  · cases hd with
    | none =>
      cases hh
      exact h.handler_goes hi rfl rfl rfl
    | some hd => cases hh
  · cases hd with
    | none =>
      cases i with
      | zero => exact h.parent_goes hi hm'
      | succ n => exact h.child_goes hi hm'
    | some hd =>
      cases hd with
      | poll =>
        rcases hm'.of_poll rfl with rfl | ⟨j, st, hj, -, rfl⟩
        · exact h.handler_goes hi rfl rfl rfl
        · have hij : i ≠ j := by
            rintro rfl
            rw [hi] at hj
            cases hj
          have hi' : (S.set j (.reaped st)).proc i = .running ⟨m, some .poll⟩ fds := by
            rw [State.set_proc_of_ne _ _ hij]
            exact hi
          exact (h.reap hj).handler_goes hi' rfl rfl rfl
      | leave =>
        obtain ⟨k, fds', s, ⟨hf, -⟩ | ⟨l', hf, rfl⟩⟩ := hm'.of_sys rfl
        · cases hf
        · cases hf
          exact h.handler_goes hi rfl rfl rfl

theorem good_reach (h : Machine.Reach (step input) (fun _ _ => True) start S) :
    S.Listed ∧ Good input S := by
  have hstep : ∀ (S : SysState) (e : Event Nat) (r : Unit) (S' : SysState),
      S.Listed ∧ Good input S → True → step input S e = some (r, S') → S'.Listed ∧ Good input S' := by
    rintro S e r S' ⟨hlist, hgood⟩ - hs
    obtain ⟨i, l, fds, hi, hm⟩ := step_move hs
    exact ⟨hm.listed hlist hi, hgood.step hi hm⟩
  exact h.invariant ⟨State.listed_start _ _ _ _, good_start input⟩ hstep

/-- At the head of its loop the parent has nothing of its clients. -/
theorem ParentAt.holds {l : Reaper.Loc Loc} (h : ParentAt n (.running l fds))
    (hplace : l.main.place = .accept) {o : Obj} (ho : some o ∈ fds) : o = .terminal ∨ o = .server := by
  cases h with
  | accept hb => rcases hb with rfl | rfl <;> simpa using ho
  | ended hp => rcases hp with hp | hp <;> cases hp
  | _ => cases hplace

/-- A child has its own connection, and the server's socket only before its first step. -/
theorem ChildAt.holds {l : Reaper.Loc Loc} (h : ChildAt n (.running l fds) c) {o : Obj}
    (ho : some o ∈ fds) :
    o = .terminal ∨ o = .client n ∨ o = .server ∧ l.main.place = .childCloseServer 4 := by
  cases h with
  | closeServer =>
    simp only [withClient, List.mem_cons, Option.some.injEq, List.not_mem_nil, or_false] at ho
    tauto
  | exit hterm => exact .inl (hterm o ho)
  | ended hp => rcases hp with hp | hp <;> cases hp
  | _ =>
    simp [childFds] at ho
    tauto

/-- A child that is about to read has echoed all that it has read. -/
theorem ChildAt.echoed_at_read {l : Reaper.Loc Loc} {fd : Nat} (h : ChildAt n (.running l fds) c)
    (hplace : l.main.place = .reading fd) : c.echoed = c.received := by
  cases h with
  | reading => rfl
  | ended hp => rcases hp with hp | hp <;> cases hp
  | _ => cases hplace

/-- What has been echoed is what the client has sent first. -/
theorem Good.echoed (h : Good input S) (n : Nat) :
    ∃ k, (S.data n).echoed = (List.range k).map (input n) := by
  have hpre := (h.child n).isPrefix
  rw [h.sent n] at hpre
  refine ⟨min (S.data n).echoed.length (S.data n).received.length, ?_⟩
  rw [← List.take_range, List.map_take]
  exact List.prefix_iff_eq_take.mp hpre

/-- For any number of clients that send anything, and in every order of the steps: once `SIGCHLD` has
been handled there is no zombie; each client is sent back an initial part of what it has sent, which at
every `read` of its child is all that the child has read; and when the parent is back at `accept`, a
connection whose child has ended is closed everywhere. -/
theorem server_serves (h : Machine.Reach (step input) (fun _ _ => True) start S) :
    (∀ l fds, S.proc 0 = .running l fds → S.pending 0 = false → l.handler ≠ some .poll →
      ∀ n, (S.proc (n + 1)).isZombie = false) ∧
    (∀ n, ∃ k, (S.data n).echoed = (List.range k).map (input n)) ∧
    (∀ n l fds fd, S.proc (n + 1) = .running l fds → l.main.place = .reading fd →
      (S.data n).echoed = (S.data n).received) ∧
    (∀ l fds, S.proc 0 = .running l fds → l.main.place = .accept →
      (∀ o, some o ∈ fds → o = .terminal ∨ o = .server) ∧
      ∀ n, (S.proc (n + 1)).isRunning = false → S.isOpen (.client n) = false) := by
  obtain ⟨hlist, hgood⟩ := good_reach h
  refine ⟨fun l fds hl hpend hpoll n => ?_, hgood.echoed, fun n l fds fd hl hplace => ?_,
    fun l fds hl hplace => ?_⟩
  · by_cases habs : S.proc (n + 1) = .absent
    · rw [habs]
      rfl
    · exact Reaper.no_zombie _ _ _ h hl hpend hpoll (n + 1) (hgood.forked n habs)
  · have hchild := hgood.child n
    rw [hl] at hchild
    exact hchild.echoed_at_read hplace
  · obtain ⟨a, ha, -⟩ := hgood.parent
    rw [hl] at ha
    refine ⟨fun o ho => ha.holds hplace ho, fun n hn => Bool.eq_false_iff.mpr fun hopen => ?_⟩
    obtain ⟨i, l', fds', hi, hfd⟩ := (hlist.isOpen_iff _).mp hopen
    cases i with
    | zero =>
      rw [hl] at hi
      cases hi
      rcases ha.holds hplace hfd with h | h <;> cases h
    | succ j =>
      have hj := hgood.child j
      rw [hi] at hj
      rcases hj.holds hfd with h | h | ⟨h, -⟩
      · cases h
      · cases h
        rw [hi] at hn
        cases hn
      · cases h

/-- A client is served while the next one is accepted, and its child is reaped. -/
def oneServed : List (Event Nat) :=
  [.go 0 0, .go 0 2, .go 0 0, .go 1 0, .go 1 2, .go 0 0, .go 0 2, .go 1 2, .go 1 0, .go 1 0, .go 1 0,
    .signal 0, .collect 0 1, .go 0 0, .go 0 0, .forkFails 0, .go 0 0]

/-- Every client sends the bytes 0, 1, 2 and so on. -/
def counting : Nat → Nat → UInt8 := fun _ i => UInt8.ofNat i

theorem server_serves_oneServed : ∃ outs S,
    Machine.exec (step counting) start oneServed = some (outs, S) ∧
    (S.data 0).echoed = [0, 1] ∧ S.proc 1 = .reaped (.exited 0) ∧
    (∀ l fds, S.proc 0 = .running l fds → S.pending 0 = false → l.handler ≠ some .poll →
      ∀ n, (S.proc (n + 1)).isZombie = false) ∧
    (∀ n, ∃ k, (S.data n).echoed = (List.range k).map (counting n)) ∧
    (∀ n l fds fd, S.proc (n + 1) = .running l fds → l.main.place = .reading fd →
      (S.data n).echoed = (S.data n).received) ∧
    (∀ l fds, S.proc 0 = .running l fds → l.main.place = .accept →
      (∀ o, some o ∈ fds → o = .terminal ∨ o = .server) ∧
      ∀ n, (S.proc (n + 1)).isRunning = false → S.isOpen (.client n) = false) := by
  refine ⟨_, _, rfl, rfl, rfl, ?_⟩
  exact server_serves (Machine.Reach.exec oneServed .init rfl)

end ForkServer
