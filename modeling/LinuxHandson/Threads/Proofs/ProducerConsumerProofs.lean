import LinuxHandson.Lib.Ring
import LinuxHandson.Threads.ProducerConsumer

/-!
# The bounded buffer

The circular buffer is the queue of the items that were produced and not consumed yet, so that items
are consumed in the order in which they were produced. A free slot is never left to producers that all
sleep, and an item never to consumers that all sleep.
-/

namespace ProducerConsumer

open CLib Pthread

variable {p c numItems : Nat} {id : Fin p → Int}

/-! ## The steps -/

/-- What the steps of the code do, one constructor for each. -/
inductive Change (numItems : Nat) (id : Fin p → Int) (s : Data) :
    Thread p c → Loc → Loc → Data → Notify Cond → Prop where
  | forTest {k : Fin p} {i : Nat} :
      Change numItems id s (.producer k) (.forTest i)
        (if i < numItems then .produce i else .doneProducing) s .none
  | add {k : Fin p} {i : Nat} (hc : s.bb.count ≠ bufferSize)
      (hh : s.bb.head < s.bb.buffer.length) :
      Change numItems id s (.producer k) (.produce i) (.forTest (i + 1))
        (s.add (item (id k) i)) (.signal .notEmpty)
  | remove {k : Fin c} {consumed : Nat} {item : Int} (hc : s.bb.count ≠ 0)
      (hi : s.bb.buffer[s.bb.tail]? = some item) :
      Change numItems id s (.consumer k) (.consume consumed) (.exitTest (consumed + 1))
        (s.remove item) (.signal .notFull)
  | exitTest {k : Fin c} {consumed : Nat} :
      Change numItems id s (.consumer k) (.exitTest consumed)
        (if numItems ≤ consumed then .doneConsuming else .consume consumed) s .none

theorem plain_change {i : Thread p c} {l l' : Loc} {x : Unit} {s s' : Data}
    {f : Unit → Data → Option (Loc × Data)} (hc : code numItems id i l = .plain f)
    (hf : f x s = some (l', s')) : Change numItems id s i l l' s' .none := by
  unfold code at hc
  split at hc
  · cases hc
    cases hf
    exact .forTest
  · cases hc
  · cases hc
  · cases hc
    cases hf
    exact .exitTest
  · cases hc

theorem unlock_change {i : Thread p c} {l l' : Loc} {m : Mutex} {s s' : Data}
    {body : Data → Option (Exit Cond Loc Data)} {n : Notify Cond}
    (hc : code numItems id i l = .lock m body) (hb : body s = some (.unlock l' s' n)) :
    Change numItems id s i l l' s' n := by
  unfold code at hc
  split at hc
  · cases hc
  · cases hc
    unfold addItem at hb
    split at hb
    · cases hb
    · split at hb
      · cases hb
        exact .add (by assumption) (by assumption)
      · cases hb
  · cases hc
    unfold removeItem at hb
    split at hb
    · cases hb
    · obtain ⟨item, hi, heq⟩ := Option.map_eq_some_iff.mp hb
      cases heq
      exact .remove (by assumption) hi
  · cases hc
  · cases hc

/-- Producers wait while the buffer is full, and consumers while it is empty. -/
theorem wait_cases {i : Thread p c} {l : Loc} {m : Mutex} {s : Data}
    {body : Data → Option (Exit Cond Loc Data)} {d : Cond}
    (hc : code numItems id i l = .lock m body) (hb : body s = some (.wait d)) :
    (∃ k j, i = .producer k ∧ l = .produce j ∧ d = .notFull ∧ s.bb.count = bufferSize) ∨
      ∃ k j, i = .consumer k ∧ l = .consume j ∧ d = .notEmpty ∧ s.bb.count = 0 := by
  unfold code at hc
  split at hc
  · cases hc
  · next k j =>
    cases hc
    unfold addItem at hb
    split at hb
    · next hfull =>
      cases hb
      exact .inl ⟨k, j, rfl, rfl, rfl, hfull⟩
    · split at hb
      · cases hb
      · cases hb
  · next k j =>
    cases hc
    unfold removeItem at hb
    split at hb
    · next hempty =>
      cases hb
      exact .inr ⟨k, j, rfl, rfl, rfl, hempty⟩
    · obtain ⟨item, hi, heq⟩ := Option.map_eq_some_iff.mp hb
      cases heq
  · cases hc
  · cases hc

/-! ## The buffer is a queue -/

/-- The buffer holds `xs`, which were produced after all that was consumed. -/
structure BufferInv (s : Data) (xs : List Int) : Prop where
  ring : Ring s.bb.buffer s.bb.head s.bb.tail xs
  length : s.bb.buffer.length = bufferSize
  count : s.bb.count = xs.length
  history : s.history.produced = s.history.consumed ++ xs

theorem BufferInv.add {s : Data} {xs : List Int} (h : BufferInv s xs) {item : Int}
    (hc : s.bb.count ≠ bufferSize) : BufferInv (s.add item) (xs ++ [item]) := by
  have hlt : xs.length < s.bb.buffer.length := by
    have hfits := h.ring.fits
    rw [h.count] at hc
    rw [h.length] at hfits ⊢
    omega
  have hring := h.ring.push (x := item) hlt
  rw [h.length] at hring
  refine ⟨hring, ?_, ?_, ?_⟩
  · show (s.bb.buffer.set _ _).length = _
    rw [List.length_set, h.length]
  · show s.bb.count + 1 = _
    rw [h.count, List.length_append, List.length_singleton]
  · show s.history.produced ++ [item] = _
    rw [h.history, List.append_assoc]
    rfl

theorem BufferInv.remove {s : Data} {xs : List Int} (h : BufferInv s xs) {item : Int}
    (hc : s.bb.count ≠ 0) (hi : s.bb.buffer[s.bb.tail]? = some item) :
    ∃ ys, xs = item :: ys ∧ BufferInv (s.remove item) ys := by
  rcases xs with _ | ⟨y, ys⟩
  · exact absurd h.count hc
  obtain rfl : y = item := Option.some.inj (h.ring.first.symm.trans hi)
  have hring := h.ring.pop
  rw [h.length] at hring
  refine ⟨ys, rfl, hring, h.length, ?_, ?_⟩
  · show s.bb.count - 1 = _
    rw [h.count, List.length_cons, Nat.add_sub_cancel]
  · show s.history.produced = s.history.consumed ++ [y] ++ ys
    rw [h.history, List.append_assoc]
    rfl

/-- The buffer is the queue of some items. -/
def IsQueue (s : Data) : Prop := ∃ xs, BufferInv s xs

theorem IsQueue.change {i : Thread p c} {l l' : Loc} {s s' : Data} {n : Notify Cond}
    (h : IsQueue s) (hc : Change numItems id s i l l' s' n) : IsQueue s' := by
  obtain ⟨xs, hxs⟩ := h
  cases hc with
  | forTest => exact ⟨xs, hxs⟩
  | add hc hh => exact ⟨_, hxs.add hc⟩
  | remove hc hi =>
    obtain ⟨ys, -, hys⟩ := hxs.remove hc hi
    exact ⟨ys, hys⟩
  | exitTest => exact ⟨xs, hxs⟩

theorem isQueue_initial : IsQueue ⟨.initial, ⟨[], []⟩⟩ :=
  ⟨[], Ring.nil (by decide), rfl, rfl, rfl⟩

/-- The invariant does not depend on the places of the threads. -/
def QueueInv (_ : Thread p c → Loc) (s : Data) : Prop := IsQueue s

theorem queueInv_reach {S : BufferState p c}
    (h : Machine.Reach (step (code numItems id)) (fun _ _ => True) start S) :
    QueueInv S.loc S.data := by
  have h0 : QueueInv (start (p := p) (c := c)).loc
      (start (p := p) (c := c)).data := isQueue_initial
  refine Reach.loc_data h0 ?_ ?_ h
  · intro S i x woken f l' s' hS _ hc hf
    exact IsQueue.change hS (plain_change hc hf)
  · intro S i x woken m body l' s' n hS _ hc hb
    exact IsQueue.change hS (unlock_change hc hb)

/-- In every reachable state the buffer is within its bounds, its slots from `tail` on hold what was
produced and not consumed, in the order of production, and what was consumed was produced first. -/
theorem buffer_fifo (numItems : Nat) (id : Fin p → Int) {S : BufferState p c}
    (h : Machine.Reach (step (code numItems id)) (fun _ _ => True) start S) :
    S.data.bb.count ≤ bufferSize ∧
    S.data.bb.head = (S.data.bb.tail + S.data.bb.count) % bufferSize ∧
    (∀ i, i < S.data.bb.count →
      S.data.bb.buffer[(S.data.bb.tail + i) % bufferSize]? =
        (S.data.history.produced.drop S.data.history.consumed.length)[i]?) ∧
    S.data.history.produced.length =
      S.data.history.consumed.length + S.data.bb.count ∧
    S.data.history.consumed <+: S.data.history.produced := by
  obtain ⟨xs, hxs⟩ := queueInv_reach h
  refine ⟨?_, ?_, ?_, ?_, ?_⟩
  · rw [hxs.count, ← hxs.length]
    exact hxs.ring.fits
  · rw [hxs.count, ← hxs.length]
    exact hxs.ring.head_eq
  · intro i hi
    rw [hxs.history, List.drop_left, ← hxs.length]
    exact hxs.ring.holds i (hxs.count ▸ hi)
  · rw [hxs.history, List.length_append, hxs.count]
  · rw [hxs.history]
    exact List.prefix_append _ _

/-- One producer that adds two items and one consumer that takes the first. -/
def twoItems : List (Event (Thread 1 1) Unit) :=
  let producer : Event (Thread 1 1) Unit := .go (.producer 0) () ∅
  let consumer : Event (Thread 1 1) Unit := .go (.consumer 0) () ∅
  [producer, producer, producer, producer, producer, producer, consumer, consumer]

theorem buffer_fifo_twoItems :
    ∃ rs S, Machine.exec (step (code 2 fun _ => 3)) start twoItems = some (rs, S) ∧
      S.data.history.produced = [3000, 3001] ∧ S.data.bb.count = 1 ∧
        S.data.bb.buffer[(S.data.bb.tail + 0) % bufferSize]? = some 3001 ∧
        S.data.history.consumed <+: S.data.history.produced := by
  have hend : (Machine.exec (step (code 2 fun _ => 3)) (start (p := 1) (c := 1)) twoItems).map
      (fun p => (p.2.data.history.produced, p.2.data.history.consumed, p.2.data.bb.count)) =
        some ([3000, 3001], [3000], 1) := by decide
  obtain ⟨⟨rs, S⟩, hexec, heq⟩ := Option.map_eq_some_iff.mp hend
  obtain ⟨hprod, heq⟩ := Prod.mk.inj heq
  obtain ⟨hcons, hcount⟩ := Prod.mk.inj heq
  obtain ⟨-, -, hslots, -, hpre⟩ := buffer_fifo 2 (fun _ => 3) (.exec _ .init hexec)
  refine ⟨rs, S, hexec, hprod, hcount, ?_, hpre⟩
  rw [hslots 0 (by rw [hcount]; decide), hprod, hcons]
  rfl

/-! ## No wake-up is lost -/

/-- A consumer before its critical section attends to the items. -/
def AttendsItems (i : Thread p c) (l : Loc) : Prop := ∃ k j, i = .consumer k ∧ l = .consume j

/-- A producer before its critical section attends to the free slots. -/
def AttendsSlots (i : Thread p c) (l : Loc) : Prop := ∃ k j, i = .producer k ∧ l = .produce j

/-- The number of free slots. -/
def freeSlots (s : Data) : Nat := bufferSize - s.bb.count

theorem change_covers_items {i : Thread p c} {l l' : Loc} {s s' : Data} {n : Notify Cond}
    (h : Change numItems id s i l l' s' n) :
    Covers .notEmpty (fun s => s.bb.count) (AttendsItems i l) (AttendsItems i l') s s' n := by
  cases h with
  | forTest => exact .inr (.inl ⟨le_rfl, fun ⟨_, _, hi, _⟩ => by cases hi⟩)
  | add hc hh => exact .inr (.inr ⟨le_rfl, (fun ⟨_, _, hi, _⟩ => by cases hi), .inl rfl⟩)
  | remove hc hi => exact .inl le_rfl
  | exitTest => exact .inr (.inl ⟨le_rfl, fun ⟨_, _, _, hl⟩ => by cases hl⟩)

theorem change_covers_slots {i : Thread p c} {l l' : Loc} {s s' : Data} {n : Notify Cond}
    (h : Change numItems id s i l l' s' n) :
    Covers .notFull freeSlots (AttendsSlots i l) (AttendsSlots i l') s s' n := by
  cases h with
  | forTest => exact .inr (.inl ⟨le_rfl, fun ⟨_, _, _, hl⟩ => by cases hl⟩)
  | add hc hh =>
    refine .inl ?_
    show bufferSize - (s.bb.count + 1) ≤ bufferSize - s.bb.count - 1
    omega
  | remove hc hi =>
    refine .inr (.inr ⟨?_, (fun ⟨_, _, hi, _⟩ => by cases hi), .inl rfl⟩)
    show bufferSize - (s.bb.count - 1) ≤ bufferSize - s.bb.count + 1
    omega
  | exitTest => exact .inr (.inl ⟨le_rfl, fun ⟨_, _, hi, _⟩ => by cases hi⟩)

theorem attended_items :
    Attended (code (p := p) (c := c) numItems id) .notEmpty AttendsItems fun s => s.bb.count where
  wait := by
    intro i l m body s d hc hb
    rcases wait_cases hc hb with ⟨k, j, rfl, rfl, rfl, hfull⟩ | ⟨k, j, rfl, rfl, rfl, hempty⟩
    · refine ⟨⟨?_, fun h => by cases h⟩, fun h => by cases h⟩
      rintro ⟨_, _, hi, _⟩
      cases hi
    · exact ⟨⟨fun _ => rfl, fun _ => ⟨k, j, rfl, rfl⟩⟩, fun _ => hempty⟩
  unlock hc hb := change_covers_items (unlock_change hc hb)
  plain hc hf := change_covers_items (plain_change hc hf)

theorem attended_slots :
    Attended (code (p := p) (c := c) numItems id) .notFull AttendsSlots freeSlots where
  wait := by
    intro i l m body s d hc hb
    rcases wait_cases hc hb with ⟨k, j, rfl, rfl, rfl, hfull⟩ | ⟨k, j, rfl, rfl, rfl, hempty⟩
    · refine ⟨⟨fun _ => rfl, fun _ => ⟨k, j, rfl, rfl⟩⟩, fun _ => ?_⟩
      rw [freeSlots, hfull, Nat.sub_self]
    · refine ⟨⟨?_, fun h => by cases h⟩, fun h => by cases h⟩
      rintro ⟨_, _, hi, _⟩
      cases hi
  unlock hc hb := change_covers_slots (unlock_change hc hb)
  plain hc hf := change_covers_slots (plain_change hc hf)

/-- In no reachable state is an item left while some consumer has not returned and all such consumers
sleep without having been signalled, nor a free slot while that is so of the producers. -/
theorem no_lost_wakeup_buffer (numItems : Nat) (id : Fin p → Int) {S : BufferState p c}
    (h : Machine.Reach (step (code numItems id)) (fun _ _ => True) start S) :
    ¬ (0 < S.data.bb.count ∧ (∃ k, S.loc (.consumer k) ≠ .doneConsuming) ∧
      ∀ k, S.loc (.consumer k) ≠ .doneConsuming → (S.thread (.consumer k)).On .notEmpty) ∧
    ¬ (S.data.bb.count < bufferSize ∧ (∃ k, S.loc (.producer k) ≠ .doneProducing) ∧
      ∀ k, S.loc (.producer k) ≠ .doneProducing → (S.thread (.producer k)).On .notFull) := by
  constructor
  · rintro ⟨hpos, ⟨k, hk⟩, hall⟩
    obtain ⟨_, ⟨v, j, rfl, hv⟩, hawake⟩ := attended_items.no_lost_wakeup h hpos (hall k hk)
    refine hawake .notEmpty (hall v ?_)
    rw [hv]
    rintro ⟨⟩
  · rintro ⟨hlt, ⟨k, hk⟩, hall⟩
    have hpos : 0 < freeSlots S.data := Nat.sub_pos_of_lt hlt
    obtain ⟨_, ⟨v, j, rfl, hv⟩, hawake⟩ := attended_slots.no_lost_wakeup h hpos (hall k hk)
    refine hawake .notFull (hall v ?_)
    rw [hv]
    rintro ⟨⟩

/-- An item that is added while the consumer sleeps. -/
def addRun : List (Event (Thread 1 1) Unit) :=
  let producer : Event (Thread 1 1) Unit := .go (.producer 0) () ∅
  let consumer : Event (Thread 1 1) Unit := .go (.consumer 0) () ∅
  [consumer, consumer, producer, producer, .go (.producer 0) () {.consumer 0}]

theorem no_lost_wakeup_buffer_addRun :
    ∃ rs S, Machine.exec (step (code 2 fun _ => 3)) start addRun = some (rs, S) ∧
      S.data.bb.count = 1 ∧ ¬ (S.thread (.consumer 0)).On .notEmpty := by
  have hend : (Machine.exec (step (code 2 fun _ => 3)) (start (p := 1) (c := 1)) addRun).map
      (fun p => (p.2.data.bb.count, p.2.loc (.consumer 0))) = some (1, .consume 0) := by decide
  obtain ⟨⟨rs, S⟩, hexec, heq⟩ := Option.map_eq_some_iff.mp hend
  obtain ⟨hcount, hloc⟩ := Prod.mk.inj heq
  obtain ⟨hitems, -⟩ := no_lost_wakeup_buffer 2 (fun _ => 3) (.exec _ .init hexec)
  refine ⟨rs, S, hexec, hcount, fun hsleep => hitems ⟨by rw [hcount]; decide, ⟨0, ?_⟩, ?_⟩⟩
  · rw [hloc]
    rintro ⟨⟩
  · intro k _
    rw [Subsingleton.elim k 0]
    exact hsleep

end ProducerConsumer
