import LinuxHandson.Ipc.ShmDemo
import LinuxHandson.Lib.Ring

/-!
# The shared ring is a queue

The three semaphores count the free slots, the items and the free mutex. With what the two processes
hold of them at their places, their sums are constant; so the ring is never written when it is full
nor read when it is empty, one process at most is in its critical section, and one of the two can
always go on until both have finished.
-/

namespace ShmDemo

open CLib Semaphore

variable {numItems : Nat}

/-! ## The steps -/

/-- What the steps outside the semaphores do, one constructor for each. -/
inductive Change (numItems : Nat) (s : Data) : Proc → Loc → Loc → Data → Prop where
  | produceNext {i : Nat} (hi : i < numItems) :
      Change numItems s .producer (.forTest i) (.waitSem i) s
  | exit {i : Nat} (hi : ¬ i < numItems) :
      Change numItems s .producer (.forTest i) .finished { s with exited := true }
  | write {i : Nat} {s' : Data} (h : s.write i = some s') :
      Change numItems s .producer (.access i) (.advance i) s'
  | advanceHead {i : Nat} : Change numItems s .producer (.advance i) (.count i) s.advanceHead
  | countProduced {i : Nat} : Change numItems s .producer (.count i) (.postMutex i) s.countProduced
  | consumeNext {i : Nat} (hi : i < numItems) :
      Change numItems s .consumer (.forTest i) (.waitSem i) s
  | leave {i : Nat} (hi : ¬ i < numItems) : Change numItems s .consumer (.forTest i) .waitpid s
  | read {i : Nat} {s' : Data} (h : s.readTail = some s') :
      Change numItems s .consumer (.access i) (.advance i) s'
  | advanceTail {i : Nat} : Change numItems s .consumer (.advance i) (.count i) s.advanceTail
  | countConsumed {i : Nat} : Change numItems s .consumer (.count i) (.postMutex i) s.countConsumed
  | reap (h : s.exited = true) : Change numItems s .consumer .waitpid .finished s

theorem producer_change {l l' : Loc} {s s' : Data} {f : Data → Option (Loc × Data)}
    (hc : producer numItems l = .plain f) (hf : f s = some (l', s')) :
    Change numItems s .producer l l' s' := by
  cases l with
  | forTest i =>
    cases hc
    simp only [Option.some.injEq] at hf
    split at hf
    · next hi =>
      cases hf
      exact .produceNext hi
    · next hi =>
      cases hf
      exact .exit hi
  | access i =>
    cases hc
    obtain ⟨s1, hw, heq⟩ := Option.map_eq_some_iff.mp hf
    cases heq
    exact .write hw
  | advance i =>
    cases hc
    cases hf
    exact .advanceHead
  | count i =>
    cases hc
    cases hf
    exact .countProduced
  | _ => cases hc

theorem consumer_change {l l' : Loc} {s s' : Data} {f : Data → Option (Loc × Data)}
    (hc : consumer numItems l = .plain f) (hf : f s = some (l', s')) :
    Change numItems s .consumer l l' s' := by
  cases l with
  | forTest i =>
    cases hc
    obtain ⟨hl, rfl⟩ := Prod.mk.inj (Option.some.inj hf)
    split at hl
    · next hi =>
      cases hl
      exact .consumeNext hi
    · next hi =>
      cases hl
      exact .leave hi
  | access i =>
    cases hc
    obtain ⟨s1, hr, heq⟩ := Option.map_eq_some_iff.mp hf
    cases heq
    exact .read hr
  | advance i =>
    cases hc
    cases hf
    exact .advanceTail
  | count i =>
    cases hc
    cases hf
    exact .countConsumed
  | waitpid =>
    cases hc
    simp only at hf
    split at hf
    · next hx =>
      cases hf
      exact .reap hx
    · cases hf
  | _ => cases hc

theorem plain_change {p : Proc} {l l' : Loc} {s s' : Data} {f : Data → Option (Loc × Data)}
    (hc : code numItems p l = .plain f) (hf : f s = some (l', s')) :
    Change numItems s p l l' s' := by
  cases p with
  | producer => exact producer_change hc hf
  | consumer => exact consumer_change hc hf

/-- The semaphore for which a process waits before its critical section. -/
def Proc.own : Proc → Sem
  | .producer => .prod
  | .consumer => .cons

/-- The semaphore that a process posts after its critical section. -/
def Proc.other : Proc → Sem
  | .producer => .cons
  | .consumer => .prod

theorem wait_cases {p : Proc} {l l' : Loc} {k : Sem} (hc : code numItems p l = .wait k l') :
    ∃ i, (k = p.own ∧ l = .waitSem i ∧ l' = .waitMutex i) ∨
      (k = .mutex ∧ l = .waitMutex i ∧ l' = .access i) := by
  cases p <;> cases l with
  | waitSem i =>
    cases hc
    exact ⟨i, .inl ⟨rfl, rfl, rfl⟩⟩
  | waitMutex i =>
    cases hc
    exact ⟨i, .inr ⟨rfl, rfl, rfl⟩⟩
  | _ => cases hc

theorem post_cases {p : Proc} {l l' : Loc} {k : Sem} (hc : code numItems p l = .post k l') :
    ∃ i, (k = .mutex ∧ l = .postMutex i ∧ l' = .postSem i) ∨
      (k = p.other ∧ l = .postSem i ∧ l' = .forTest (i + 1)) := by
  cases p <;> cases l with
  | postMutex i =>
    cases hc
    exact ⟨i, .inl ⟨rfl, rfl, rfl⟩⟩
  | postSem i =>
    cases hc
    exact ⟨i, .inr ⟨rfl, rfl, rfl⟩⟩
  | _ => cases hc

theorem write_ok {s s' : Data} {i : Nat} (h : s.write i = some s') :
    s.ring.head < s.ring.buffer.length ∧ s' =
      { s with
        ring := { s.ring with buffer := s.ring.buffer.set s.ring.head (item i) }
        history :=
          { s.history with written := s.history.written ++ [(item i, s.ring.head)] } } := by
  unfold Data.write at h
  split at h
  · next hlt =>
    cases h
    exact ⟨hlt, rfl⟩
  · cases h

theorem readTail_ok {s s' : Data} (h : s.readTail = some s') :
    ∃ val, s.ring.buffer[s.ring.tail]? = some val ∧
      s' = { s with
        history := { s.history with read := s.history.read ++ [(val, s.ring.tail)] } } := by
  obtain ⟨val, hval, rfl⟩ := Option.map_eq_some_iff.mp h
  exact ⟨val, hval, rfl⟩

/-! ## What the semaphores count -/

/-- Between `sem_wait(sem_mutex)` and `sem_post(sem_mutex)`. -/
def Loc.inside : Loc → Bool
  | .access _ | .advance _ | .count _ | .postMutex _ => true
  | _ => false

/-- A slot or item was waited for and has not been used. -/
def Loc.claims : Loc → Bool
  | .waitMutex _ | .access _ => true
  | _ => false

/-- A slot or item has been used and the other process has not been told. -/
def Loc.owes : Loc → Bool
  | .advance _ | .count _ | .postMutex _ | .postSem _ => true
  | _ => false

/-- The number of values that were written and not read. -/
def unread (s : Data) : Int := s.history.written.length - s.history.read.length

theorem unread_write {s s' : Data} {i : Nat} (h : s.write i = some s') :
    unread s' = unread s + 1 := by
  obtain ⟨-, rfl⟩ := write_ok h
  simp only [unread, List.length_append, List.length_singleton]
  omega

theorem unread_read {s s' : Data} (h : s.readTail = some s') : unread s' = unread s - 1 := by
  obtain ⟨val, -, rfl⟩ := readTail_ok h
  simp only [unread, List.length_append, List.length_singleton]
  omega

/-- What a process holds of a semaphore. -/
def credit : Sem → Proc → Loc → Int
  | .mutex, _, l => l.inside.toNat
  | .prod, .producer, l => l.claims.toNat
  | .prod, .consumer, l => l.owes.toNat
  | .cons, .producer, l => l.owes.toNat
  | .cons, .consumer, l => l.claims.toNat

/-- What the ring holds of a semaphore. -/
def ringUnits : Sem → Data → Int
  | .mutex, _ => 0
  | .prod, s => unread s
  | .cons, s => -unread s

theorem conserves (k : Sem) : Conserves (code numItems) k (credit k) (ringUnits k) where
  wait := by
    intro p l j l' hc
    obtain ⟨i, ⟨rfl, rfl, rfl⟩ | ⟨rfl, rfl, rfl⟩⟩ := wait_cases hc
    · cases p <;> cases k <;> rfl
    · cases p <;> cases k <;> rfl
  post := by
    intro p l j l' hc
    obtain ⟨i, ⟨rfl, rfl, rfl⟩ | ⟨rfl, rfl, rfl⟩⟩ := post_cases hc
    · cases p <;> cases k <;> rfl
    · cases p <;> cases k <;> rfl
  plain := by
    intro p l f s l' s' hc hf
    cases plain_change hc hf with
    | @write i s' h =>
      have hun := unread_write h
      cases k with
      | prod =>
        show (0 : Int) + unread s' = 1 + unread s
        omega
      | cons =>
        show (1 : Int) + -unread s' = 0 + -unread s
        omega
      | mutex => rfl
    | @read i s' h =>
      have hun := unread_read h
      cases k with
      | prod =>
        show (1 : Int) + unread s' = 0 + unread s
        omega
      | cons =>
        show (0 : Int) + -unread s' = 1 + -unread s
        omega
      | mutex => rfl
    | _ => cases k <;> rfl

/-- The sums of the three semaphores in the reachable states. -/
theorem semaphore_sums {S : ShmState}
    (h : Machine.Reach (step (code numItems)) (fun _ _ => True) start S) (k : Sem) :
    S.sem k + (credit k .producer (S.loc .producer) + credit k .consumer (S.loc .consumer)) +
      ringUnits k S.data = initialValue k := by
  have hsum : ∀ f : Proc → Int, ∑ p, f p = f .producer + f .consumer := by
    intro f
    rw [show (Finset.univ : Finset Proc) = {.producer, .consumer} from rfl,
      Finset.sum_pair (by decide)]
  have hreach := (@conserves numItems k).reach h
  rw [units, units, hsum, hsum] at hreach
  rw [hreach]
  cases k <;> rfl

/-- A process that is about to write has found a free slot. -/
theorem unread_lt {S : ShmState} (h : Machine.Reach (step (code numItems)) (fun _ _ => True) start S)
    {i : Nat} (hp : S.loc .producer = .access i) : unread S.data < ringSize := by
  have hsum := semaphore_sums h .prod
  rw [hp] at hsum
  have howes : 0 ≤ credit .prod .consumer (S.loc .consumer) := Int.natCast_nonneg _
  have hclaims : credit .prod .producer (.access i) = 1 := rfl
  have hunits : ringUnits .prod S.data = unread S.data := rfl
  have hinit : initialValue .prod = ringSize := rfl
  omega

/-- A process that is about to read has found an item. -/
theorem unread_pos {S : ShmState} (h : Machine.Reach (step (code numItems)) (fun _ _ => True) start S)
    {i : Nat} (hc : S.loc .consumer = .access i) : 0 < unread S.data := by
  have hsum := semaphore_sums h .cons
  rw [hc] at hsum
  have howes : 0 ≤ credit .cons .producer (S.loc .producer) := Int.natCast_nonneg _
  have hclaims : credit .cons .consumer (.access i) = 1 := rfl
  have hunits : ringUnits .cons S.data = -unread S.data := rfl
  have hinit : initialValue .cons = 0 := rfl
  omega

/-! ## The ring -/

/-- An index as it will be after the assignment that is due. -/
def due : Loc → Nat → Nat
  | .advance _, x => (x + 1) % ringSize
  | _, x => x

/-- A process at its place has accessed the buffer `n` times. -/
def AtRound (numItems n : Nat) : Loc → Prop
  | .forTest i => n = i ∧ i ≤ numItems
  | .waitSem i | .waitMutex i | .access i => n = i ∧ i < numItems
  | .advance i | .count i | .postMutex i | .postSem i => n = i + 1 ∧ i < numItems
  | .waitpid | .finished => n = numItems

/-- With the producer at `p` and the consumer at `c`, the buffer holds the queue `xs`. -/
structure RingInv (numItems : Nat) (p c : Loc) (s : Data) (xs : List (Int × Nat)) : Prop where
  ring : Ring s.ring.buffer.zipIdx (due p s.ring.head) (due c s.ring.tail) xs
  length : s.ring.buffer.length = ringSize
  head_lt : s.ring.head < ringSize
  tail_lt : s.ring.tail < ringSize
  history : s.history.written = s.history.read ++ xs
  produced : AtRound numItems s.history.written.length p
  consumed : AtRound numItems s.history.read.length c
  running : p ≠ .waitpid
  exited : s.exited = true ↔ p = .finished

theorem zipIdx_set (l : List Int) (i : Nat) (v : Int) :
    (l.set i v).zipIdx = l.zipIdx.set i (v, i) := by
  refine List.ext_getElem? ?_
  intro j
  rw [List.getElem?_zipIdx, Nat.zero_add]
  by_cases hij : i = j
  · subst hij
    by_cases hi : i < l.length
    · rw [List.getElem?_set_self hi, List.getElem?_set_self (by rwa [List.length_zipIdx])]
      rfl
    · rw [List.getElem?_eq_none (by rw [List.length_set]; omega),
        List.getElem?_eq_none (by rw [List.length_set, List.length_zipIdx]; omega)]
      rfl
  · rw [List.getElem?_set_ne hij, List.getElem?_set_ne hij, List.getElem?_zipIdx, Nat.zero_add]

section RingInv

variable {p p' c c' : Loc} {s s' : Data} {xs : List (Int × Nat)}

theorem RingInv.unread (h : RingInv numItems p c s xs) : unread s = xs.length := by
  rw [ShmDemo.unread, h.history, List.length_append]
  omega

/-- The producer goes on without touching the ring. -/
theorem RingInv.producer (h : RingInv numItems p c s xs)
    (hdue : due p' s.ring.head = due p s.ring.head)
    (hround : ∀ n, AtRound numItems n p → AtRound numItems n p') (hrun : p' ≠ .waitpid)
    (hend : p' = .finished ↔ p = .finished) : RingInv numItems p' c s xs :=
  { h with
    ring := by rw [hdue]; exact h.ring
    produced := hround _ h.produced
    running := hrun
    exited := h.exited.trans hend.symm }

/-- The consumer goes on without touching the ring. -/
theorem RingInv.consumer (h : RingInv numItems p c s xs)
    (hdue : due c' s.ring.tail = due c s.ring.tail)
    (hround : ∀ n, AtRound numItems n c → AtRound numItems n c') : RingInv numItems p c' s xs :=
  { h with
    ring := by rw [hdue]; exact h.ring
    consumed := hround _ h.consumed }

theorem RingInv.write {i : Nat} (h : RingInv numItems (.access i) c s xs)
    (hlt : ShmDemo.unread s < ringSize) (hw : s.write i = some s') :
    RingInv numItems (.advance i) c s' (xs ++ [(item i, s.ring.head)]) := by
  obtain ⟨-, rfl⟩ := write_ok hw
  have hlen : s.ring.buffer.zipIdx.length = ringSize := by rw [List.length_zipIdx, h.length]
  have hfree : xs.length < s.ring.buffer.zipIdx.length := by
    rw [h.unread] at hlt
    omega
  have hring := h.ring.push (x := (item i, s.ring.head)) hfree
  have hexit : s.exited = true ↔ Loc.advance i = .finished :=
    h.exited.trans (iff_of_false nofun nofun)
  refine { h with
    ring := ?_, length := ?_, history := ?_, produced := ?_, running := nofun, exited := hexit }
  · show Ring (s.ring.buffer.set s.ring.head (item i)).zipIdx ((s.ring.head + 1) % ringSize) _ _
    rw [zipIdx_set, ← hlen]
    exact hring
  · show (s.ring.buffer.set _ _).length = _
    rw [List.length_set, h.length]
  · show s.history.written ++ _ = s.history.read ++ _
    rw [h.history, List.append_assoc]
  · obtain ⟨hn, hi⟩ := h.produced
    refine ⟨?_, hi⟩
    show (s.history.written ++ _).length = _
    rw [List.length_append, hn]
    rfl

theorem RingInv.read {i : Nat} (h : RingInv numItems p (.access i) s xs)
    (hpos : 0 < ShmDemo.unread s) (hr : s.readTail = some s') :
    ∃ ys, RingInv numItems p (.advance i) s' ys := by
  obtain ⟨val, hval, rfl⟩ := readTail_ok hr
  rcases xs with _ | ⟨x, ys⟩
  · rw [h.unread] at hpos
    cases hpos
  have hlen : s.ring.buffer.zipIdx.length = ringSize := by rw [List.length_zipIdx, h.length]
  have hx : s.ring.buffer.zipIdx[s.ring.tail]? = some x := h.ring.first
  rw [List.getElem?_zipIdx, hval, Nat.zero_add] at hx
  obtain rfl : (val, s.ring.tail) = x := Option.some.inj hx
  have hring := h.ring.pop
  rw [hlen] at hring
  refine ⟨ys, { h with ring := hring, history := ?_, consumed := ?_ }⟩
  · show s.history.written = s.history.read ++ _ ++ ys
    rw [h.history, List.append_assoc]
    rfl
  · obtain ⟨hn, hi⟩ := h.consumed
    refine ⟨?_, hi⟩
    show (s.history.read ++ _).length = _
    rw [List.length_append, hn]
    rfl

/-- What a step outside the semaphores makes of the queue. -/
theorem RingInv.change {q : Proc} {L : Proc → Loc} {l' : Loc}
    (h : RingInv numItems (L .producer) (L .consumer) s xs)
    (hfree : ∀ i, L .producer = .access i → ShmDemo.unread s < ringSize)
    (hitem : ∀ i, L .consumer = .access i → 0 < ShmDemo.unread s)
    (hc : Change numItems s q (L q) l' s') :
    ∃ ys, RingInv numItems (Function.update L q l' .producer) (Function.update L q l' .consumer)
      s' ys := by
  have hmod : ∀ x, (x + 1) % ringSize < ringSize := fun x => Nat.mod_lt _ (by decide)
  cases q with
  | producer =>
    rw [Function.update_self, Function.update_of_ne (by decide)]
    generalize L .producer = p at h hc hfree
    cases hc with
    | produceNext hi =>
      exact ⟨xs, h.producer rfl (fun n hn => ⟨hn.1, hi⟩) nofun (iff_of_false nofun nofun)⟩
    | exit hi =>
      obtain ⟨hn, hle⟩ := h.produced
      have hexit : true = true ↔ Loc.finished = .finished := iff_of_true rfl rfl
      refine ⟨xs, { h with produced := ?_, running := nofun, exited := hexit }⟩
      show s.history.written.length = numItems
      omega
    | @write i s' hw => exact ⟨_, h.write (hfree i rfl) hw⟩
    | @advanceHead i =>
      have hexit : s.exited = true ↔ Loc.count i = .finished :=
        h.exited.trans (iff_of_false nofun nofun)
      exact ⟨xs, { h with head_lt := hmod _, running := nofun, exited := hexit }⟩
    | @countProduced i =>
      have hexit : s.exited = true ↔ Loc.postMutex i = .finished :=
        h.exited.trans (iff_of_false nofun nofun)
      exact ⟨xs, { h with running := nofun, exited := hexit }⟩
  | consumer =>
    rw [Function.update_self, Function.update_of_ne (by decide)]
    generalize L .consumer = c at h hc hitem
    cases hc with
    | consumeNext hi => exact ⟨xs, h.consumer rfl fun n hn => ⟨hn.1, hi⟩⟩
    | leave hi =>
      refine ⟨xs, h.consumer rfl ?_⟩
      rintro n ⟨hn, hle⟩
      show n = numItems
      omega
    | @read i s' hr => exact h.read (hitem i rfl) hr
    | advanceTail => exact ⟨xs, { h with tail_lt := hmod _ }⟩
    | countConsumed => exact ⟨xs, { h with }⟩
    | reap hx => exact ⟨xs, h.consumer rfl fun n hn => hn⟩

end RingInv

/-- The buffer holds some queue. -/
def ShmInv (numItems : Nat) (S : ShmState) : Prop :=
  ∃ xs, RingInv numItems (S.loc .producer) (S.loc .consumer) S.data xs

/-- A process that goes on without touching the ring, at a place of the same round. -/
theorem ShmInv.moved {S : ShmState} (h : ShmInv numItems S) {q : Proc} {l l' : Loc}
    {sem : Sem → Nat} (hl : S.loc q = l) (hdue : ∀ x, due l' x = due l x)
    (hround : ∀ n, AtRound numItems n l → AtRound numItems n l') (hrun : l' ≠ .waitpid)
    (hend' : l' ≠ .finished) (hend : l ≠ .finished) :
    ShmInv numItems ⟨Function.update S.loc q l', sem, S.data⟩ := by
  obtain ⟨xs, h⟩ := h
  subst hl
  refine ⟨xs, ?_⟩
  cases q with
  | producer =>
    simp only [Function.update_self, ne_eq, reduceCtorEq, not_false_eq_true, Function.update_of_ne]
    exact h.producer (hdue _) hround hrun (iff_of_false hend' hend)
  | consumer =>
    simp only [Function.update_self, ne_eq, reduceCtorEq, not_false_eq_true, Function.update_of_ne]
    exact h.consumer (hdue _) hround

theorem shmInv_start : ShmInv numItems start :=
  ⟨[], {
    ring := Ring.nil (by decide)
    length := rfl
    head_lt := by decide
    tail_lt := by decide
    history := rfl
    produced := ⟨rfl, Nat.zero_le _⟩
    consumed := ⟨rfl, Nat.zero_le _⟩
    running := nofun
    exited := iff_of_false nofun nofun }⟩

theorem shmInv_reach {S : ShmState}
    (h : Machine.Reach (step (code numItems)) (fun _ _ => True) start S) : ShmInv numItems S := by
  induction h with
  | init => exact shmInv_start
  | next hr _ hs ih =>
    cases step_move hs with
    | wait hc hk =>
      obtain ⟨i, ⟨-, hl, rfl⟩ | ⟨-, hl, rfl⟩⟩ := wait_cases hc
      · exact ih.moved hl (fun _ => rfl) (fun _ hn => hn) nofun nofun nofun
      · exact ih.moved hl (fun _ => rfl) (fun _ hn => hn) nofun nofun nofun
    | post hc =>
      obtain ⟨i, ⟨-, hl, rfl⟩ | ⟨-, hl, rfl⟩⟩ := post_cases hc
      · exact ih.moved hl (fun _ => rfl) (fun _ hn => hn) nofun nofun nofun
      · exact ih.moved hl (fun _ => rfl) (fun _ hn => hn) nofun nofun nofun
    | plain hc hf =>
      obtain ⟨xs, hxs⟩ := ih
      exact hxs.change (fun i hp => unread_lt hr hp) (fun i hp => unread_pos hr hp)
        (plain_change hc hf)

/-! ## Main result -/

/-- A process in its critical section can go on. -/
theorem can_leave {S : ShmState} (h : ShmInv numItems S) {q : Proc}
    (hq : (S.loc q).inside = true) : ∃ S', step (code numItems) S q = some ((), S') := by
  obtain ⟨xs, h⟩ := h
  cases q with
  | producer =>
    generalize hl : S.loc .producer = l at hq h
    cases l with
    | access i =>
      have hlt : S.data.ring.head < S.data.ring.buffer.length := h.length ▸ h.head_lt
      obtain ⟨s', hs'⟩ : ∃ s', S.data.write i = some s' := ⟨_, if_pos hlt⟩
      refine can_plain (by rw [hl]; rfl) (r := (.advance i, s')) ?_
      rw [hs']
      rfl
    | advance i => exact can_plain (by rw [hl]; rfl) rfl
    | count i => exact can_plain (by rw [hl]; rfl) rfl
    | postMutex i => exact can_post (by rw [hl]; rfl)
    | _ => cases hq
  | consumer =>
    generalize hl : S.loc .consumer = l at hq h
    cases l with
    | access i =>
      have hlt : S.data.ring.tail < S.data.ring.buffer.length := h.length ▸ h.tail_lt
      obtain ⟨s', hs'⟩ : ∃ s', S.data.readTail = some s' := by
        rw [Data.readTail, List.getElem?_eq_getElem hlt]
        exact ⟨_, rfl⟩
      refine can_plain (by rw [hl]; rfl) (r := (.advance i, s')) ?_
      rw [hs']
      rfl
    | advance i => exact can_plain (by rw [hl]; rfl) rfl
    | count i => exact can_plain (by rw [hl]; rfl) rfl
    | postMutex i => exact can_post (by rw [hl]; rfl)
    | _ => cases hq

/-- At most one process is in its critical section, and none if the mutex is free. -/
theorem inside_le {S : ShmState}
    (h : Machine.Reach (step (code numItems)) (fun _ _ => True) start S) :
    S.sem .mutex + (S.loc .producer).inside.toNat + (S.loc .consumer).inside.toNat = 1 := by
  have hsum := semaphore_sums h .mutex
  have hunits : ringUnits .mutex S.data = 0 := rfl
  have hp : credit .mutex .producer (S.loc .producer) = (S.loc .producer).inside.toNat := rfl
  have hc : credit .mutex .consumer (S.loc .consumer) = (S.loc .consumer).inside.toNat := rfl
  have hinit : initialValue .mutex = 1 := rfl
  omega

/-- A process that cannot go on while the mutex is free has finished, or waits for its own semaphore,
or for the child to exit. -/
theorem stuck_cases {S : ShmState} (h : ShmInv numItems S) (hm : S.sem .mutex ≠ 0) {q : Proc}
    (hno : ¬ ∃ S', step (code numItems) S q = some ((), S')) :
    (∃ i, S.loc q = .waitSem i ∧ S.sem q.own = 0) ∨ S.loc q = .finished ∨
      (q = .consumer ∧ S.loc q = .waitpid ∧ S.data.exited = false) := by
  have hinside : ¬ (S.loc q).inside = true := fun hq => hno (can_leave h hq)
  rcases hl : S.loc q with i | i | i | i | i | i | i | i
  · refine absurd ?_ hno
    cases q
    · exact can_plain (by rw [hl]; rfl) rfl
    · exact can_plain (by rw [hl]; rfl) rfl
  · refine .inl ⟨i, rfl, ?_⟩
    by_contra hk
    refine hno ?_
    cases q
    · exact can_wait (by rw [hl]; rfl) hk
    · exact can_wait (by rw [hl]; rfl) hk
  · refine absurd ?_ hno
    cases q
    · exact can_wait (by rw [hl]; rfl) hm
    · exact can_wait (by rw [hl]; rfl) hm
  · exact absurd (by rw [hl]; rfl) hinside
  · exact absurd (by rw [hl]; rfl) hinside
  · exact absurd (by rw [hl]; rfl) hinside
  · exact absurd (by rw [hl]; rfl) hinside
  · refine absurd ?_ hno
    cases q
    · exact can_post (by rw [hl]; rfl)
    · exact can_post (by rw [hl]; rfl)
  · obtain ⟨xs, h⟩ := h
    cases q with
    | producer => exact absurd hl h.running
    | consumer =>
      refine .inr (.inr ⟨rfl, rfl, ?_⟩)
      rw [← Bool.not_eq_true]
      intro hx
      refine hno (can_plain (by rw [hl]; rfl) (r := (.finished, S.data)) ?_)
      rw [if_pos hx]
  · exact .inr (.inl rfl)

/-- While a process has not finished, one of the two can go on. -/
theorem no_deadlock {S : ShmState}
    (h : Machine.Reach (step (code numItems)) (fun _ _ => True) start S) {q : Proc}
    (hq : S.loc q ≠ .finished) : ∃ q S', step (code numItems) S q = some ((), S') := by
  by_contra hno
  have hstuck : ∀ q, ¬ ∃ S', step (code numItems) S q = some ((), S') := fun q hS => hno ⟨q, hS⟩
  have hinv := shmInv_reach h
  have hinside : ∀ q, (S.loc q).inside = false := by
    intro q
    rw [← Bool.not_eq_true]
    exact fun hq => hstuck q (can_leave hinv hq)
  have hm := inside_le h
  rw [hinside, hinside] at hm
  have hm : S.sem .mutex ≠ 0 := by
    intro h0
    rw [h0] at hm
    cases hm
  obtain ⟨xs, hxs⟩ := id hinv
  have hprod : S.sem .prod + unread S.data + (S.loc .consumer).owes.toNat +
      (S.loc .producer).claims.toNat = ringSize := by
    rw [← show initialValue .prod = ringSize from rfl, ← semaphore_sums h .prod, credit, credit,
      ringUnits]
    omega
  have hcons : S.sem .cons + (S.loc .producer).owes.toNat + (S.loc .consumer).claims.toNat =
      unread S.data := by
    have hsum := semaphore_sums h .cons
    rw [show initialValue .cons = 0 from rfl, credit, credit, ringUnits] at hsum
    omega
  have hwritten := hxs.produced
  have hread := hxs.consumed
  have hun : unread S.data = S.data.history.written.length - S.data.history.read.length := rfl
  have hsize : ringSize = 8 := rfl
  rcases stuck_cases hinv hm (hstuck .producer) with ⟨i, hp, hp0⟩ | hp | ⟨⟨⟩, -⟩
  · -- the producer waits for a slot, so the ring is full, and the consumer has an item to read
    rw [hp] at hprod hcons hwritten
    simp only [Proc.own] at hp0
    obtain ⟨hi, hlt⟩ := hwritten
    simp only [Loc.claims, Loc.owes, Bool.toNat_false] at hprod hcons
    rcases stuck_cases hinv hm (hstuck .consumer) with ⟨j, hc, hc0⟩ | hc | ⟨-, hc, -⟩
    · rw [hc] at hprod hcons
      simp only [Proc.own] at hc0
      simp only [Bool.toNat_false] at hprod hcons
      omega
    · rw [hc] at hprod hread
      simp only [AtRound, Bool.toNat_false] at hprod hread
      omega
    · rw [hc] at hprod hread
      simp only [AtRound, Bool.toNat_false] at hprod hread
      omega
  · -- the producer has finished, so that all items that are left are in the ring
    rw [hp] at hcons hwritten
    simp only [AtRound, Loc.owes, Bool.toNat_false] at hcons hwritten
    rcases stuck_cases hinv hm (hstuck .consumer) with ⟨j, hc, hc0⟩ | hc | ⟨-, -, hx⟩
    · rw [hc] at hcons hread
      simp only [Proc.own] at hc0
      simp only [AtRound, Loc.claims, Bool.toNat_false] at hcons hread
      omega
    · cases q with
      | producer => exact hq hp
      | consumer => exact hq hc
    · rw [hxs.exited.mpr hp] at hx
      cases hx

/-- In every reachable state: what was read is what was written first, each value from its slot; the
producer never writes to a slot whose value has not been read; one process at most is between
`sem_wait(sem_mutex)` and `sem_post(sem_mutex)`; and while a process has not finished, one of the two
can go on. -/
theorem shm_ring (numItems : Nat) {S : ShmState}
    (h : Machine.Reach (step (code numItems)) (fun _ _ => True) start S) :
    S.data.history.read <+: S.data.history.written ∧
    (∀ i, S.loc .producer = .access i →
      ∀ w ∈ S.data.history.written.drop S.data.history.read.length, w.2 ≠ S.data.ring.head) ∧
    ¬ ((S.loc .producer).inside = true ∧ (S.loc .consumer).inside = true) ∧
    ((∃ q, S.loc q ≠ .finished) → ∃ q S', step (code numItems) S q = some ((), S')) := by
  obtain ⟨xs, hxs⟩ := shmInv_reach h
  refine ⟨?_, ?_, ?_, ?_⟩
  · rw [hxs.history]
    exact List.prefix_append _ _
  · intro i hi w hw
    rw [hxs.history, List.drop_left] at hw
    have hlt := unread_lt h hi
    rw [hxs.unread] at hlt
    have hlen : S.data.ring.buffer.zipIdx.length = ringSize := by
      rw [List.length_zipIdx, hxs.length]
    obtain ⟨j, hj, rfl⟩ := List.mem_iff_getElem.mp hw
    have hslot := hxs.ring.holds j hj
    rw [List.getElem?_zipIdx, List.getElem?_eq_getElem hj] at hslot
    obtain ⟨v, -, hv⟩ := Option.map_eq_some_iff.mp hslot
    rw [← hv, Nat.zero_add]
    have hhead := hxs.ring.head_eq
    rw [hi] at hhead
    rw [show S.data.ring.head = due (.access i) S.data.ring.head from rfl, hhead]
    exact Ring.slot_ne hj (by omega)
  · rintro ⟨hp, hc⟩
    have hle := inside_le h
    rw [hp, hc] at hle
    simp only [Bool.toNat_true] at hle
    omega
  · rintro ⟨q, hq⟩
    exact no_deadlock h hq

/-- The producer posts one item, and writes the second between the `sem_wait` of the consumer for the
first and its `sem_wait` for the mutex. The consumer then reads the first while the producer comes to
its third round. -/
def twoItems : List Proc :=
  let p := Proc.producer
  let c := Proc.consumer
  [c, p, p, p, p, p, p, p, p, c, p, p, p, p, p, p, p, c, p, c, p, c, p, c, c, c, c]

theorem shm_ring_twoItems :
    ∃ rs S, Machine.exec (step (code 3)) start twoItems = some (rs, S) ∧
      S.data.history.read = [(0, 0)] ∧ S.data.history.written = [(0, 0), (10, 1)] ∧
        S.data.history.read <+: S.data.history.written ∧ ∃ q S', step (code 3) S q = some ((), S') := by
  have hend : (Machine.exec (step (code 3)) start twoItems).map
      (fun p => (p.2.data.history.read, p.2.data.history.written, p.2.loc .consumer)) =
        some ([(0, 0)], [(0, 0), (10, 1)], .waitSem 1) := by decide +kernel
  obtain ⟨⟨rs, S⟩, hexec, heq⟩ := Option.map_eq_some_iff.mp hend
  obtain ⟨hread, heq⟩ := Prod.mk.inj heq
  obtain ⟨hwritten, hloc⟩ := Prod.mk.inj heq
  obtain ⟨hpre, -, -, hgo⟩ := shm_ring 3 (.exec _ .init hexec)
  refine ⟨rs, S, hexec, hread, hwritten, hpre, hgo ⟨.consumer, ?_⟩⟩
  rw [hloc]
  nofun

end ShmDemo
