import LinuxHandson.Ptrace.MiniStrace

/-!
# In phase with the child

As long as the child makes system calls only, `in_syscall` says whether it is inside one. A signal stop
turns the bit too: it is printed as a call or as a return value, and neither line is ever put right.
-/

namespace MiniStrace

open CLib

variable {inside : Bool} {calls : Nat} {s s' : Tracer} {regs : Regs} {stop : Stop} {l : Line}

/-! ## One stop -/

theorem stopped_entry (h : s.inSyscall = false) :
    s.stopped regs stop = (intArith (s.syscallCount + 1)).map fun count =>
      ⟨count, true, ⟨count, callText regs.origRax.toInt, stop, none⟩ :: s.lines⟩ := if_pos h

theorem stopped_exit (h : s.inSyscall = true) {rest : List Line} (hl : s.lines = l :: rest) :
    s.stopped regs stop = (retOf regs.rax.toInt).map fun ret =>
      ⟨s.syscallCount, false, { l with ret := some (ret, stop) } :: rest⟩ := by
  unfold Tracer.stopped
  rw [h, if_neg (by simp), hl]
  rfl

theorem retOf_isSome_iff (ret : Int) : (retOf ret).isSome ↔ Printable ret := by
  unfold retOf Printable intArith
  have hlo : -2 ^ 31 ≤ cInt ret := by
    unfold cInt
    have := Int.le_bmod (x := ret) (m := 2 ^ 32) (by decide)
    omega
  have hhi : cInt ret < 2 ^ 31 := by
    unfold cInt
    have := Int.bmod_lt (x := ret) (m := 2 ^ 32) (by decide)
    omega
  split
  · next hneg =>
    rw [Option.isSome_map]
    split
    · next hr =>
      refine ⟨fun _ _ => ?_, fun _ => rfl⟩
      omega
    · next hr =>
      refine ⟨nofun, fun h => ?_⟩
      have := h hneg
      omega
  · next hpos => exact ⟨fun _ h => absurd h hpos, fun _ => rfl⟩

/-! ## Lines that are finished -/

/-- The lines that end in a newline. -/
def Tracer.finished (s : Tracer) : List Line := if s.inSyscall then s.lines.tail else s.lines

theorem finished_subset (s : Tracer) : s.finished ⊆ s.lines := by
  unfold Tracer.finished
  split
  · exact List.tail_sublist _ |>.subset
  · exact fun _ h => h

/-- A stop does not change a finished line. -/
theorem finished_stopped (h : s.stopped regs stop = some s') : s.finished ⊆ s'.finished := by
  unfold Tracer.stopped at h
  unfold Tracer.finished
  split at h
  · next hf =>
    obtain ⟨count, -, rfl⟩ := Option.map_eq_some_iff.mp h
    rw [hf]
    exact fun _ hl => hl
  · next ht =>
    obtain ⟨ret, -, rfl⟩ := Option.map_eq_some_iff.mp h
    rw [Bool.not_eq_false] at ht
    rw [ht]
    cases hl : s.lines with
    | nil => exact fun _ h => h
    | cons l rest => exact List.subset_cons_self _ _

theorem finished_traceLoop (t : Trace inside) :
    ∀ calls s s', traceLoop t calls s = some s' → s.finished ⊆ s'.finished := by
  induction t with
  | ended e | unreadEntry | unread =>
    intro calls s s' h
    cases h
    exact fun _ hl => hl
  | signal regs t ih | entry regs t ih | exit regs t ih =>
    intro calls s s' h
    obtain ⟨s1, hs1, h1⟩ := Option.bind_eq_some_iff.mp h
    exact List.Subset.trans (finished_stopped hs1) (ih _ s1 s' h1)

/-- A finished line that is wrong stays in the output. -/
theorem not_all_right {t : Trace inside} (h : traceLoop t calls s = some s') (hl : l ∈ s.finished)
    (hw : ¬ l.Right) : ¬ ∀ l ∈ s'.lines, l.Right :=
  fun hall => hw (hall l (finished_subset s' (finished_traceLoop t calls s s' h hl)))

/-- A return value is printed where none belongs. -/
theorem wrong_line (h : s.inSyscall = true) {rest : List Line} (hl : s.lines = l :: rest)
    (hne : ∀ k, ¬ (l.stop = .entry k ∧ stop = .exit k)) (hs : s.stopped regs stop = some s') :
    ∃ l' ∈ s'.finished, ¬ l'.Right := by
  rw [stopped_exit h hl] at hs
  obtain ⟨ret, -, rfl⟩ := Option.map_eq_some_iff.mp hs
  refine ⟨{ l with ret := some (ret, stop) }, List.mem_cons_self, ?_⟩
  intro hr
  obtain ⟨k, hk⟩ := hr ret stop rfl
  exact hne k hk

/-- A signal that has been printed as a call: its line is given a return value, or is counted. -/
theorem signal_counted {t : Trace inside} (ht : ¬ (Trace.signal regs t).InStep)
    (hbit : s.inSyscall = true) {rest : List Line} (hl : s.lines = l :: rest) (hstop : l.stop = .signal)
    (hcount : s.syscallCount = calls + 1) (h : traceLoop t calls s = some s') :
    ¬ (s'.syscallCount = calls + t.entries ∧ ∀ l ∈ s'.lines, l.Right) := by
  rintro ⟨hentries, hall⟩
  have hne : ∀ (stop : Stop) (k : Nat), ¬ (l.stop = .entry k ∧ stop = .exit k) := by
    rintro stop k ⟨hk, -⟩
    rw [hstop] at hk
    cases hk
  cases t with
  | ended e | unread =>
    cases h
    rw [hcount] at hentries
    change (calls : Int) + 1 = calls + (0 : Nat) at hentries
    omega
  | unreadEntry => exact ht trivial
  | signal regs t | entry regs t | exit regs t =>
    obtain ⟨s1, hs1, h1⟩ := Option.bind_eq_some_iff.mp h
    obtain ⟨l', hl', hw⟩ := wrong_line hbit hl (hne _) hs1
    exact not_all_right h1 hl' hw hall

/-! ## Traces -/

/-- The bit is that of the child, after `calls` system calls, and the lines are right so far. -/
structure InPhase (inside : Bool) (calls : Nat) (s : Tracer) : Prop where
  bit : s.inSyscall = inside
  count : s.syscallCount = calls
  small : calls < 2 ^ 31
  right : ∀ l ∈ s.lines, l.Right
  last : inside = true → ∃ l rest, s.lines = l :: rest ∧ l.stop = .entry calls

theorem inPhase_start : InPhase false 0 .start where
  bit := rfl
  count := rfl
  small := by decide
  right := nofun
  last := nofun

/-- An entry starts a line. -/
theorem InPhase.entry (h : InPhase false calls s) (hlt : calls + 1 < 2 ^ 31) :
    ∃ s', s.stopped regs (.entry (calls + 1)) = some s' ∧ InPhase true (calls + 1) s' := by
  have hadd : intArith (s.syscallCount + 1) = some ((calls + 1 : Nat) : Int) := by
    rw [h.count]
    exact intArith_natCast hlt
  refine ⟨_, by rw [stopped_entry h.bit, hadd]; rfl, rfl, rfl, hlt, ?_, fun _ => ⟨_, _, rfl, rfl⟩⟩
  intro l hl
  rcases List.mem_cons.mp hl with rfl | hl
  · exact nofun
  · exact h.right l hl

/-- An exit ends the line of its entry. -/
theorem InPhase.exit (h : InPhase true calls s) (hp : Printable regs.rax.toInt) :
    ∃ s', s.stopped regs (.exit calls) = some s' ∧ InPhase false calls s' := by
  obtain ⟨l, rest, hl, hstop⟩ := h.last rfl
  obtain ⟨ret, hret⟩ := Option.isSome_iff_exists.mp ((retOf_isSome_iff _).mpr hp)
  refine ⟨⟨s.syscallCount, false, { l with ret := some (ret, .exit calls) } :: rest⟩, ?_, rfl,
    h.count, h.small, ?_, nofun⟩
  · rw [stopped_exit h.bit hl, hret]
    rfl
  intro l' hl'
  rcases List.mem_cons.mp hl' with rfl | hl'
  · intro r st heq
    cases heq
    exact ⟨calls, hstop, rfl⟩
  · refine h.right l' ?_
    rw [hl]
    exact List.mem_cons_of_mem _ hl'

/-- From here on the tracer counts the entries and prints no wrong line. -/
def EndsRight (t : Trace inside) (calls : Nat) (s : Tracer) : Prop :=
  ∃ s', traceLoop t calls s = some s' ∧ s'.syscallCount = (calls + t.entries : Nat) ∧
    ∀ l ∈ s'.lines, l.Right

/-- After a signal the tracer does not end right, but for one that is counted in the place of an entry. -/
theorem not_endsRight_signal {t : Trace inside} (h : InPhase inside calls s)
    (ht : ¬ (Trace.signal regs t).InStep) : ¬ EndsRight (.signal regs t) calls s := by
  rintro ⟨s', hrun, hcount, hall⟩
  obtain ⟨s1, hs1, h1⟩ := Option.bind_eq_some_iff.mp hrun
  cases inside with
  | false =>
    rw [stopped_entry h.bit] at hs1
    obtain ⟨count, hadd, rfl⟩ := Option.map_eq_some_iff.mp hs1
    have hc : count = calls + 1 := by
      rw [eq_of_intArith hadd, h.count]
    exact signal_counted ht rfl rfl rfl hc h1 ⟨hcount, hall⟩
  | true =>
    obtain ⟨l, rest, hl, -⟩ := h.last rfl
    obtain ⟨l', hl', hw⟩ := wrong_line h.bit hl (fun k hk => by cases hk.2) hs1
    exact not_all_right h1 hl' hw hall

/-- A signal right before an entry that the tracer misses: it is counted as the entry. -/
theorem endsRight_signal_unreadEntry (h : InPhase false calls s) :
    EndsRight (.signal regs .unreadEntry) calls s ↔ calls + 1 < 2 ^ 31 := by
  have hstop := @stopped_entry s regs .signal h.bit
  rw [h.count] at hstop
  constructor
  · rintro ⟨s', hrun, -⟩
    obtain ⟨s1, hs1, -⟩ := Option.bind_eq_some_iff.mp hrun
    rw [hstop] at hs1
    obtain ⟨count, hadd, -⟩ := Option.map_eq_some_iff.mp hs1
    have := lt_of_intArith hadd
    omega
  · intro hlt
    have hadd : intArith ((calls : Int) + 1) = some ((calls + 1 : Nat) : Int) := intArith_natCast hlt
    rw [hadd, Option.map_some] at hstop
    refine ⟨_, by rw [traceLoop, hstop, Option.bind_some, traceLoop], rfl, ?_⟩
    intro l hl
    rcases List.mem_cons.mp hl with rfl | hl
    · exact nofun
    · exact h.right l hl

/-- An entry that is counted. -/
theorem endsRight_entry {t : Trace true} (h : InPhase false calls s) (hlt : calls + 1 < 2 ^ 31) :
    ∃ s', InPhase true (calls + 1) s' ∧
      (EndsRight (.entry regs t) calls s ↔ EndsRight t (calls + 1) s') := by
  obtain ⟨s', hs, h'⟩ := @InPhase.entry calls s regs h hlt
  refine ⟨s', h', ?_⟩
  have hloop : traceLoop (.entry regs t) calls s = traceLoop t (calls + 1) s' := by
    rw [traceLoop, hs, Option.bind_some]
  have hsum : calls + (Trace.entry regs t).entries = calls + 1 + t.entries := by
    show calls + (t.entries + 1) = _
    omega
  rw [EndsRight, hloop, hsum]
  rfl

/-- An entry whose number is not an `int`. -/
theorem not_endsRight_entry {t : Trace true} (h : InPhase false calls s) (hle : ¬ calls + 1 < 2 ^ 31) :
    ¬ EndsRight (.entry regs t) calls s := by
  rintro ⟨s', hrun, -⟩
  obtain ⟨s1, hs1, -⟩ := Option.bind_eq_some_iff.mp hrun
  rw [stopped_entry h.bit, h.count, intArith, if_neg (by omega)] at hs1
  cases hs1

/-- An exit whose return value is printed. -/
theorem endsRight_exit {t : Trace false} (h : InPhase true calls s) (hp : Printable regs.rax.toInt) :
    ∃ s', InPhase false calls s' ∧ (EndsRight (.exit regs t) calls s ↔ EndsRight t calls s') := by
  obtain ⟨s', hs, h'⟩ := h.exit hp
  refine ⟨s', h', ?_⟩
  have hloop : traceLoop (.exit regs t) calls s = traceLoop t calls s' := by
    rw [traceLoop, hs, Option.bind_some]
  rw [EndsRight, hloop]
  rfl

/-- An exit whose return value has no negation. -/
theorem not_endsRight_exit {t : Trace false} (h : InPhase true calls s)
    (hp : ¬ Printable regs.rax.toInt) : ¬ EndsRight (.exit regs t) calls s := by
  obtain ⟨l, rest, hl, -⟩ := h.last rfl
  rintro ⟨s', hrun, -⟩
  obtain ⟨s1, hs1, -⟩ := Option.bind_eq_some_iff.mp hrun
  rw [stopped_exit h.bit hl] at hs1
  obtain ⟨ret, hret, -⟩ := Option.map_eq_some_iff.mp hs1
  exact hp ((retOf_isSome_iff _).mp (by rw [hret]; rfl))

theorem endsRight_iff (t : Trace inside) :
    ∀ calls s, InPhase inside calls s →
      (EndsRight t calls s ↔
        t.InStep ∧ calls + t.entries < 2 ^ 31 ∧ ∀ ret ∈ t.returns, Printable ret) := by
  induction t with
  | ended e | unread =>
    intro calls s h
    constructor
    · intro _
      exact ⟨trivial, h.small, nofun⟩
    · intro _
      exact ⟨s, rfl, h.count, h.right⟩
  | unreadEntry =>
    intro calls s h
    constructor
    · rintro ⟨s', hrun, hcount, -⟩
      cases hrun
      rw [h.count] at hcount
      change (calls : Int) = (calls + 1 : Nat) at hcount
      omega
    · rintro ⟨hstep, -⟩
      exact False.elim hstep
  | signal regs t ih =>
    intro calls s h
    by_cases hstep : (Trace.signal regs t).InStep
    · cases t with
      | unreadEntry =>
        rw [endsRight_signal_unreadEntry h]
        exact ⟨fun hlt => ⟨trivial, hlt, nofun⟩, fun hr => hr.2.1⟩
      | _ => simp [Trace.InStep] at hstep
    · exact iff_of_false (not_endsRight_signal h hstep) fun hr => hstep hr.1
  | entry regs t ih =>
    intro calls s h
    have hsum : calls + (Trace.entry regs t).entries = calls + 1 + t.entries := by
      show calls + (t.entries + 1) = _
      omega
    rw [hsum]
    by_cases hlt : calls + 1 < 2 ^ 31
    · obtain ⟨s', h', hiff⟩ := @endsRight_entry calls s regs t h hlt
      rw [hiff]
      exact ih (calls + 1) s' h'
    · exact iff_of_false (not_endsRight_entry h hlt) fun hr => hlt (by omega)
  | exit regs t ih =>
    intro calls s h
    have hreturns : (∀ ret ∈ (Trace.exit regs t).returns, Printable ret) ↔
        Printable regs.rax.toInt ∧ ∀ ret ∈ t.returns, Printable ret := by
      rw [Trace.returns, List.forall_mem_cons]
    rw [hreturns]
    by_cases hp : Printable regs.rax.toInt
    · obtain ⟨s', h', hiff⟩ := @endsRight_exit calls s regs t h hp
      rw [hiff, and_iff_right hp]
      exact ih calls s' h'
    · exact iff_of_false (not_endsRight_exit h hp) fun hr => hp hr.2.2.1

/-- Whatever the child reports: the count is the number of entries and every return value stands on the
line of its system call exactly if no stop is taken for another one and no entry is missed, as long as the
count fits into an `int` and every return value can be printed. -/
theorem tracesRight_iff (t : Trace false) :
    TracesRight t ↔ t.InStep ∧ t.entries < 2 ^ 31 ∧ ∀ ret ∈ t.returns, Printable ret := by
  have h := endsRight_iff t 0 .start inPhase_start
  rw [EndsRight, Nat.zero_add] at h
  exact h

/-- Two calls of `getpid`, a signal between them, and then `SIGKILL`. -/
def signalBetween : Trace false :=
  .entry ⟨39, -38⟩ (.exit ⟨39, 42⟩ (.signal ⟨-1, 42⟩
    (.entry ⟨39, -38⟩ (.exit ⟨39, 42⟩ (.ended (.signaled 9))))))

/-- The signal is counted, and the number of the second call is printed as an error. -/
theorem signal_shifts_lines :
    signalBetween.entries = 2 ∧
      (traceLoop signalBetween 0 .start).map (fun s => (s.syscallCount, s.lines.map Line.ret)) =
        some (3, [none, some (.error 38, .entry 2), some (.value 42, .exit 1)]) ∧
      ¬ TracesRight signalBetween := by
  refine ⟨rfl, by decide, ?_⟩
  intro h
  have hends : EndsRight signalBetween 0 .start := by
    rw [EndsRight, Nat.zero_add]
    exact h
  obtain ⟨hnone, -⟩ := (endsRight_iff signalBetween 0 .start inPhase_start).mp hends
  exact hnone

end MiniStrace
