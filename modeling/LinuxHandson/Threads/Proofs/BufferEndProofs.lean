import LinuxHandson.Threads.Proofs.ProducerConsumerProofs
import Mathlib.Algebra.BigOperators.Fin
import Mathlib.Algebra.Order.BigOperators.Group.Multiset
import Mathlib.Data.Fintype.BigOperators

/-!
# How producers and consumers come to an end

With as many consumers as producers, each of which makes as many rounds: the threads never all wait for
each other, they make a bounded number of steps, and when all have returned every item has been
consumed once. Once the producers have returned no consumer waits any more.
-/

namespace ProducerConsumer

open CLib Pthread

variable {p c n numItems : Nat} {id : Fin p → Int}

/-! ## What the places say -/

/-- The items that a producer at this place has added. -/
def Loc.made (numItems : Nat) : Loc → Nat
  | .forTest i => i
  | .produce i => i
  | _ => numItems

/-- The items that a consumer at this place has removed. -/
def Loc.eaten (numItems : Nat) : Loc → Nat
  | .consume consumed => consumed
  | .exitTest consumed => consumed
  | _ => numItems

/-- The steps, without locks and waits, that a thread at this place has before it. -/
def Loc.todo (numItems : Nat) : Loc → Nat
  | .forTest i => 2 * (numItems - i) + 1
  | .produce i => 2 * (numItems - i)
  | .consume consumed => 2 * (numItems - consumed)
  | .exitTest consumed => 2 * (numItems - consumed) + 1
  | _ => 0

/-- The thread has returned. -/
def Loc.returned : Loc → Bool
  | .doneProducing => true
  | .doneConsuming => true
  | _ => false

/-- The places of a thread, within the bounds of its loop. -/
def InRange (numItems : Nat) : Thread p c → Loc → Prop
  | .producer _, .forTest i => i ≤ numItems
  | .producer _, .produce i => i < numItems
  | .producer _, .doneProducing => True
  | .consumer _, .consume consumed => consumed < numItems
  | .consumer _, .exitTest consumed => consumed ≤ numItems
  | .consumer _, .doneConsuming => True
  | _, _ => False

/-- The first `m` items of producer `k`. -/
def items (id : Fin p → Int) (k : Fin p) (m : Nat) : List Int :=
  (List.range m).map (item (id k))

theorem items_succ (k : Fin p) (m : Nat) : items id k (m + 1) = items id k m ++ [item (id k) m] := by
  rw [items, List.range_succ, List.map_append]
  rfl

/-- What was produced and consumed is what the places of the threads say. -/
structure Accounted (numItems : Nat) (id : Fin p → Int) (L : Thread p c → Loc) (s : Data) : Prop where
  range : ∀ i, InRange numItems i (L i)
  produced : (s.history.produced : Multiset Int) =
    ∑ k, (items id k ((L (.producer k)).made numItems) : Multiset Int)
  order : ∀ k, (items id k ((L (.producer k)).made numItems)).Sublist s.history.produced
  consumed : s.history.consumed.length = ∑ k, (L (.consumer k)).eaten numItems

section Accounted

variable {L : Thread p c → Loc} {s s' : Data} {l' : Loc}

theorem change_inRange {i : Thread p c} {l : Loc} {n : Notify Cond}
    (hc : Change numItems id s i l l' s' n) (h : InRange numItems i l) : InRange numItems i l' := by
  cases hc with
  | @forTest k i =>
    split
    · assumption
    · trivial
  | add hc hh => exact h
  | remove hc hi => exact h
  | @exitTest k consumed =>
    split
    · trivial
    · exact Nat.lt_of_not_ge (by assumption)

/-- The producers' part of the places. -/
theorem producers_update (k : Fin p) :
    (fun j => Function.update L (.producer k) l' (.producer j)) =
      Function.update (fun j => L (.producer j)) k l' :=
  Function.update_comp_eq_of_injective L (fun _ _ h => Thread.producer.inj h) k l'

/-- The consumers' part of the places. -/
theorem consumers_update (k : Fin c) :
    (fun j => Function.update L (.consumer k) l' (.consumer j)) =
      Function.update (fun j => L (.consumer j)) k l' :=
  Function.update_comp_eq_of_injective L (fun _ _ h => Thread.consumer.inj h) k l'

theorem producers_update_consumer (k : Fin c) (j : Fin p) :
    Function.update L (.consumer k) l' (.producer j) = L (.producer j) :=
  Function.update_of_ne (by rintro ⟨⟩) _ _

theorem consumers_update_producer (k : Fin p) (j : Fin c) :
    Function.update L (.producer k) l' (.consumer j) = L (.consumer j) :=
  Function.update_of_ne (by rintro ⟨⟩) _ _

/-- A producer goes to another place, and what was produced grows by `xs`. -/
theorem Accounted.producer (h : Accounted numItems id L s) {k : Fin p} (xs : List Int)
    (hmade : items id k (l'.made numItems) = items id k ((L (.producer k)).made numItems) ++ xs)
    (hl : InRange numItems (.producer (c := c) k) l')
    (hp : s'.history.produced = s.history.produced ++ xs)
    (hc : s'.history.consumed = s.history.consumed) :
    Accounted numItems id (Function.update L (.producer k) l') s' where
  range := (Function.forall_update_iff L (InRange numItems)).mpr ⟨hl, fun i _ => h.range i⟩
  produced := by
    have hsum := sum_update (fun k l => (items id k (Loc.made numItems l) : Multiset Int))
      (fun j => L (.producer j)) k l'
    rw [← producers_update, hmade, ← Multiset.coe_add, ← h.produced, add_comm (items id k _ : Multiset Int),
      ← add_assoc, add_left_inj] at hsum
    rw [hp, ← Multiset.coe_add, hsum]
  order := by
    intro j
    have hj : Function.update L (.producer k) l' (.producer j) =
        Function.update (fun j => L (.producer j)) k l' j := congrFun (producers_update k) j
    rw [hj, hp]
    by_cases hjk : j = k
    · subst hjk
      rw [Function.update_self, hmade]
      exact (h.order j).append (List.Sublist.refl xs)
    · rw [Function.update_of_ne hjk]
      exact (h.order j).trans (List.sublist_append_left _ _)
  consumed := by
    rw [hc, h.consumed]
    exact Finset.sum_congr rfl fun j _ => by rw [consumers_update_producer]

/-- A consumer goes to another place, and what was consumed grows by `xs`. -/
theorem Accounted.consumer (h : Accounted numItems id L s) {k : Fin c} (xs : List Int)
    (heaten : l'.eaten numItems = (L (.consumer k)).eaten numItems + xs.length)
    (hl : InRange numItems (.consumer (p := p) k) l')
    (hp : s'.history.produced = s.history.produced)
    (hc : s'.history.consumed = s.history.consumed ++ xs) :
    Accounted numItems id (Function.update L (.consumer k) l') s' where
  range := (Function.forall_update_iff L (InRange numItems)).mpr ⟨hl, fun i _ => h.range i⟩
  produced := by
    rw [hp, h.produced]
    exact Finset.sum_congr rfl fun j _ => by rw [producers_update_consumer]
  order := by
    intro j
    rw [producers_update_consumer, hp]
    exact h.order j
  consumed := by
    have hsum := sum_update (fun _ l => Loc.eaten numItems l) (fun j => L (.consumer j)) k l'
    rw [← consumers_update, heaten] at hsum
    beta_reduce at hsum
    rw [hc, List.length_append, h.consumed]
    omega

theorem Accounted.change (h : Accounted numItems id L s) {i : Thread p c} {n : Notify Cond}
    (hc : Change numItems id s i (L i) l' s' n) : Accounted numItems id (Function.update L i l') s' := by
  have hl := change_inRange hc (h.range i)
  have hi := h.range i
  generalize hloc : L i = l at hc hi
  cases hc with
  | @forTest k i =>
    refine h.producer [] ?_ hl (List.append_nil _).symm rfl
    rw [hloc, List.append_nil]
    split
    · rfl
    · have heq : i = numItems := Nat.le_antisymm hi (Nat.le_of_not_lt (by assumption))
      rw [heq]
      rfl
  | @add k i hc hh =>
    refine h.producer [item (id k) i] ?_ hl rfl rfl
    rw [hloc]
    exact items_succ k i
  | @remove k consumed item hc hi =>
    refine h.consumer [item] ?_ hl rfl rfl
    rw [hloc]
    rfl
  | @exitTest k consumed =>
    refine h.consumer [] ?_ hl rfl (List.append_nil _).symm
    rw [hloc]
    split
    · exact (Nat.le_antisymm hi (by assumption)).symm
    · rfl

theorem accounted_start (hN : 0 < numItems) :
    Accounted numItems id (firstLoc (p := p) (c := c)) ⟨.initial, ⟨[], []⟩⟩ where
  range i := by
    cases i with
    | producer k => exact Nat.zero_le _
    | consumer k => exact hN
  produced := (Finset.sum_eq_zero fun _ _ => rfl).symm
  order _ := List.nil_sublist _
  consumed := (Finset.sum_eq_zero fun _ _ => rfl).symm

end Accounted

theorem accounted_reach (hN : 0 < numItems) {S : BufferState p c}
    (h : Machine.Reach (step (code numItems id)) (fun _ _ => True) start S) :
    Accounted numItems id S.loc S.data := by
  refine Reach.loc_data (accounted_start hN) ?_ ?_ h
  · intro S i x woken f l' s' hS _ hc hf
    exact hS.change (plain_change hc hf)
  · intro S i x woken m body l' s' n hS _ hc hb
    exact hS.change (unlock_change hc hb)

/-! ## The number of steps -/

theorem change_todo {i : Thread p c} {l l' : Loc} {s s' : Data} {n : Notify Cond}
    (hc : Change numItems id s i l l' s' n) (h : InRange numItems i l) :
    l'.todo numItems < l.todo numItems := by
  cases hc with
  | forTest =>
    split
    · exact Nat.lt_succ_self _
    · exact Nat.succ_pos _
  | @add k i hc hh =>
    have hi : i < numItems := h
    show 2 * (numItems - (i + 1)) + 1 < 2 * (numItems - i)
    omega
  | @remove k consumed item hc hi =>
    have hk : consumed < numItems := h
    show 2 * (numItems - (consumed + 1)) + 1 < 2 * (numItems - consumed)
    omega
  | exitTest =>
    split
    · exact Nat.succ_pos _
    · exact Nat.lt_succ_self _

theorem code_lowers : Lowers (code (p := p) (c := c) numItems id)
    (fun L _ => ∀ i, InRange numItems i (L i)) fun L _ => ∑ i, (L i).todo numItems := by
  have hsum : ∀ {L : Thread p c → Loc} {i : Thread p c} {l' : Loc},
      l'.todo numItems < (L i).todo numItems →
      ∑ j, (Function.update L i l' j).todo numItems < ∑ j, (L j).todo numItems := by
    intro L i l' hlt
    have := sum_update (fun _ l => Loc.todo numItems l) L i l'
    omega
  constructor
  · intro L i f x s l' s' hL hc hf
    exact hsum (change_todo (plain_change hc hf) (hL i))
  · intro L i m body s l' s' n hL hc hb
    exact hsum (change_todo (unlock_change hc hb) (hL i))

/-- The threads are the producers and the consumers. -/
def threadEquiv : Thread p c ≃ Fin p ⊕ Fin c where
  toFun
    | .producer k => .inl k
    | .consumer k => .inr k
  invFun
    | .inl k => .producer k
    | .inr k => .consumer k
  left_inv i := by cases i <;> rfl
  right_inv i := by cases i <;> rfl

theorem card_thread : Fintype.card (Thread p c) = p + c := by
  rw [Fintype.card_congr threadEquiv, Fintype.card_sum, Fintype.card_fin, Fintype.card_fin]

theorem sum_thread (f : Thread p c → Nat) :
    ∑ i, f i = ∑ k, f (.producer k) + ∑ k, f (.consumer k) := by
  rw [← Equiv.sum_comp threadEquiv.symm, Fintype.sum_sum_type]
  rfl

theorem stepBound_start : stepBound (fun (L : Thread n n → Loc) (_ : Data) => ∑ i, (L i).todo numItems)
    start = (4 * n + 2) * (n * (4 * numItems + 1)) + 4 * n := by
  have htodo : ∑ i : Thread n n, ((start (p := n) (c := n)).loc i).todo numItems =
      n * (4 * numItems + 1) := by
    rw [sum_thread]
    show ∑ _ : Fin n, (2 * numItems + 1) + ∑ _ : Fin n, 2 * numItems = _
    rw [Fin.sum_const, Fin.sum_const, smul_eq_mul, smul_eq_mul, ← Nat.mul_add]
    congr 1
    omega
  have hweight : ∑ i : Thread n n, ((start (p := n) (c := n)).thread i).weight = 4 * n := by
    show ∑ _ : Thread n n, 2 = 4 * n
    rw [Finset.sum_const, Finset.card_univ, card_thread, smul_eq_mul]
    omega
  rw [stepBound, htodo, hweight, card_thread]
  congr 2
  omega

/-! ## No deadlock -/

section Reached

variable {S : BufferState p c} (h : Machine.Reach (step (code numItems id)) (fun _ _ => True) start S)
include h

theorem body_isSome {i : Thread p c} {l : Loc} {m : Mutex}
    {body : Data → Option (Exit Cond Loc Data)} (hc : code numItems id i l = .lock m body) :
    (body S.data).isSome := by
  obtain ⟨xs, hxs⟩ := queueInv_reach h
  unfold code at hc
  split at hc
  · cases hc
  · cases hc
    unfold addItem
    split
    · rfl
    · rw [if_pos hxs.ring.head_lt]
      rfl
  · cases hc
    unfold removeItem
    split
    · rfl
    · next hne =>
      cases xs with
      | nil => exact absurd hxs.count hne
      | cons x xs =>
        rw [hxs.ring.first]
        rfl
  · cases hc
  · cases hc

theorem produced_length (hN : 0 < numItems) :
    S.data.history.produced.length = ∑ k, (S.loc (.producer k)).made numItems := by
  have hcard := congrArg Multiset.card (accounted_reach hN h).produced
  rw [Multiset.coe_card, Multiset.card_sum] at hcard
  rw [hcard]
  exact Finset.sum_congr rfl fun k _ => by rw [Multiset.coe_card, items, List.length_map, List.length_range]

theorem count_eq : S.data.history.produced.length =
    S.data.history.consumed.length + S.data.bb.count := by
  obtain ⟨xs, hxs⟩ := queueInv_reach h
  rw [hxs.history, List.length_append, hxs.count]

/-- Who sleeps waits for what it attends to. -/
theorem asleep_attends {i : Thread p c} {d : Cond} {l : Loc} (hi : S.thread i = .asleep d l) :
    (d = .notEmpty ∧ AttendsItems i l) ∨ (d = .notFull ∧ AttendsSlots i l) := by
  cases d with
  | notEmpty => exact .inl ⟨rfl, (attended_items.reach h i l hi).1⟩
  | notFull => exact .inr ⟨rfl, (attended_slots.reach h i l hi).1⟩

end Reached

theorem stop_returned {i : Thread p c} {l : Loc} (hc : code numItems id i l = .stop)
    (hl : InRange numItems i l) : l.returned = true := by
  cases i with
  | producer k =>
    cases l with
    | doneProducing => rfl
    | forTest j => cases hc
    | produce j => cases hc
    | consume j => exact hl.elim
    | exitTest j => exact hl.elim
    | doneConsuming => exact hl.elim
  | consumer k =>
    cases l with
    | doneConsuming => rfl
    | consume j => cases hc
    | exitTest j => cases hc
    | forTest j => exact hl.elim
    | produce j => exact hl.elim
    | doneProducing => exact hl.elim

theorem plain_isSome {i : Thread p c} {l : Loc} {f : Unit → Data → Option (Loc × Data)}
    (hc : code numItems id i l = .plain f) (s : Data) : f () s ≠ none := by
  unfold code at hc
  split at hc
  · cases hc
    rintro ⟨⟩
  · cases hc
  · cases hc
  · cases hc
    rintro ⟨⟩
  · cases hc

theorem producer_returned {l : Loc} {k : Fin p} (hl : InRange numItems (.producer (c := c) k) l)
    (hr : l.returned = true) : l = .doneProducing := by
  cases l with
  | doneProducing => rfl
  | doneConsuming => exact hl.elim
  | forTest j => cases hr
  | produce j => cases hr
  | consume j => cases hr
  | exitTest j => cases hr

theorem eaten_of_returned {l : Loc} (hr : l.returned = true) : l.eaten numItems = numItems := by
  cases l with
  | doneProducing => rfl
  | doneConsuming => rfl
  | forTest j => cases hr
  | produce j => cases hr
  | consume j => cases hr
  | exitTest j => cases hr

theorem made_le {l : Loc} {k : Fin p} (hl : InRange numItems (.producer (c := c) k) l) :
    l.made numItems ≤ numItems := by
  cases l with
  | forTest j => exact hl
  | produce j => exact Nat.le_of_lt hl
  | doneProducing => exact Nat.le_refl _
  | consume j => exact hl.elim
  | exitTest j => exact hl.elim
  | doneConsuming => exact hl.elim

theorem eaten_le {l : Loc} {k : Fin c} (hl : InRange numItems (.consumer (p := p) k) l) :
    l.eaten numItems ≤ numItems := by
  cases l with
  | consume j => exact Nat.le_of_lt hl
  | exitTest j => exact hl
  | doneConsuming => exact Nat.le_refl _
  | forTest j => exact hl.elim
  | produce j => exact hl.elim
  | doneProducing => exact hl.elim

section Ends

variable {id : Fin n → Int} {S : BufferState n n} (hN : 0 < numItems)
  (h : Machine.Reach (step (code numItems id)) (fun _ _ => True) start S)
include hN h

theorem length_produced_le : S.data.history.produced.length ≤ n * numItems := by
  rw [produced_length h hN]
  have hle : ∑ k, (S.loc (.producer k)).made numItems ≤ ∑ _ : Fin n, numItems :=
    Finset.sum_le_sum fun k _ => made_le ((accounted_reach hN h).range (.producer k))
  rwa [Fin.sum_const, smul_eq_mul] at hle

theorem length_produced_done (hdone : ∀ k, S.loc (.producer k) = .doneProducing) :
    S.data.history.produced.length = n * numItems := by
  rw [produced_length h hN]
  have hsum : ∑ k, (S.loc (.producer k)).made numItems = ∑ _ : Fin n, numItems :=
    Finset.sum_congr rfl fun k _ => by rw [hdone k]; rfl
  rw [hsum, Fin.sum_const, smul_eq_mul]

theorem length_consumed_done (hdone : ∀ k, (S.loc (.consumer k)).returned = true) :
    S.data.history.consumed.length = n * numItems := by
  rw [(accounted_reach hN h).consumed]
  have hsum : ∑ k, (S.loc (.consumer k)).eaten numItems = ∑ _ : Fin n, numItems :=
    Finset.sum_congr rfl fun k _ => eaten_of_returned (hdone k)
  rw [hsum, Fin.sum_const, smul_eq_mul]

/-- Once the producers have returned, an item is left for every consumer that has not, so that none of
them waits. -/
theorem no_consumer_waits (hdone : ∀ k, S.loc (.producer k) = .doneProducing) (k : Fin n) :
    ¬ (S.thread (.consumer k)).On .notEmpty := by
  rintro ⟨l, hk⟩
  obtain ⟨⟨v, j, hv, rfl⟩, hle⟩ := attended_items.reach h _ l hk
  have hrange := (accounted_reach hN h).range
  have hleft : ∀ v, AttendsItems (p := n) (.consumer v) (S.loc (.consumer v)) →
      (S.loc (.consumer v)).eaten numItems < numItems := by
    rintro v ⟨w, j, -, hj⟩
    have hv := hrange (.consumer v)
    rw [hj] at hv ⊢
    exact hv
  -- the consumers that attend, and the sleeper, each still need an item
  have hcard : (attending AttendsItems S.thread).card + 1 ≤
      ∑ v, (numItems - (S.loc (.consumer v)).eaten numItems) := by
    have hnot : Thread.consumer k ∉ attending AttendsItems S.thread := fun hmem =>
      (mem_attending.mp hmem).2 .notEmpty ⟨_, hk⟩
    have hsub : insert (.consumer k) (attending AttendsItems S.thread) ⊆
        (Finset.univ.filter fun v => (S.loc (.consumer v)).eaten numItems < numItems).image
          (Thread.consumer (p := n)) := by
      intro i hi
      have hattends : AttendsItems i (S.loc i) := by
        rcases Finset.mem_insert.mp hi with rfl | hi
        · exact ⟨k, j, rfl, congrArg Status.loc hk⟩
        · exact (mem_attending.mp hi).1
      obtain ⟨v, j', rfl, hj'⟩ := hattends
      have hattends : AttendsItems (p := n) (.consumer v) (S.loc (.consumer v)) := ⟨v, j', rfl, hj'⟩
      exact Finset.mem_image_of_mem _ (Finset.mem_filter.mpr ⟨Finset.mem_univ v, hleft v hattends⟩)
    have hcard := Finset.card_le_card hsub
    rw [Finset.card_insert_of_notMem hnot] at hcard
    refine (hcard.trans Finset.card_image_le).trans ?_
    rw [Finset.card_filter]
    refine Finset.sum_le_sum fun v _ => ?_
    split
    · exact Nat.sub_pos_of_lt (by assumption)
    · exact Nat.zero_le _
  have hcount := count_eq h
  rw [length_produced_done hN h hdone, (accounted_reach hN h).consumed] at hcount
  change S.data.bb.count ≤ _ at hle
  have hsplit : ∑ v, (numItems - (S.loc (.consumer v)).eaten numItems) +
      ∑ v, (S.loc (.consumer v)).eaten numItems = n * numItems := by
    rw [← Finset.sum_add_distrib]
    have hsum : ∑ v, (numItems - (S.loc (.consumer v)).eaten numItems +
        (S.loc (.consumer v)).eaten numItems) = ∑ _ : Fin n, numItems := by
      exact Finset.sum_congr rfl fun v _ => Nat.sub_add_cancel (eaten_le (hrange (.consumer v)))
    rw [hsum, Fin.sum_const, smul_eq_mul]
  omega

/-- While some thread has not returned, some thread can go on. -/
theorem someone_goes (hleft : ∃ i, (S.loc i).returned = false) :
    ∃ i x woken, (step (code numItems id) S (.go i x woken)).isSome := by
  by_contra hstuck
  have hrange := (accounted_reach hN h).range
  -- every thread has returned or sleeps
  have hblocked : ∀ i, (S.loc i).returned = true ∨ ∃ d l, S.thread i = .asleep d l := by
    intro i
    rcases (Exclusive.reach h).go_or_blocked () (fun _ hc => body_isSome h hc) i with
      ⟨j, x, woken, -, hgo⟩ | hb
    · exact absurd ⟨j, x, woken, hgo⟩ hstuck
    · cases hb with
      | asleep hi => exact .inr ⟨_, _, hi⟩
      | @stopped l hi hc =>
        have hloc : S.loc i = l := congrArg Status.loc hi
        have hl := hrange i
        rw [hloc] at hl
        exact .inl (hloc ▸ stop_returned hc hl)
      | plain hi hc hf => exact absurd (hf ()) (plain_isSome hc S.data)
  -- so that nobody is awake and attends to anything
  have hnobody : ∀ {Attends : Thread n n → Loc → Prop},
      (∀ i l, Attends i l → l.returned = false) → attending Attends S.thread = ∅ := by
    intro Attends hA
    refine Finset.eq_empty_of_forall_notMem fun i hi => ?_
    obtain ⟨hattends, hawake⟩ := mem_attending.mp hi
    rcases hblocked i with hr | ⟨d, l, hd⟩
    · exact Bool.false_ne_true ((hA i _ hattends).symm.trans hr)
    · exact hawake d ⟨l, hd⟩
  have hitems : ∀ k l, S.thread (.consumer k) = .asleep .notEmpty l → S.data.bb.count = 0 := by
    intro k l hk
    obtain ⟨-, hle⟩ := attended_items.reach h _ l hk
    rw [hnobody (by rintro i l ⟨_, _, -, rfl⟩; rfl)] at hle
    exact Nat.le_zero.mp hle
  have hslots : ∀ k l, S.thread (.producer k) = .asleep .notFull l → bufferSize ≤ S.data.bb.count := by
    intro k l hk
    obtain ⟨-, hle⟩ := attended_slots.reach h _ l hk
    rw [hnobody (by rintro i l ⟨_, _, -, rfl⟩; rfl)] at hle
    exact Nat.le_of_sub_eq_zero (Nat.le_zero.mp hle)
  have hconsumer : ∀ k, (S.loc (.consumer k)).returned = true ∨
      ∃ l, S.thread (.consumer k) = .asleep .notEmpty l := by
    intro k
    rcases hblocked (.consumer k) with hr | ⟨d, l, hd⟩
    · exact .inl hr
    · rcases asleep_attends h hd with ⟨rfl, -⟩ | ⟨-, _, _, hi, -⟩
      · exact .inr ⟨l, hd⟩
      · cases hi
  have hproducer : ∀ k, (S.loc (.producer k)).returned = true ∨
      ∃ l, S.thread (.producer k) = .asleep .notFull l := by
    intro k
    rcases hblocked (.producer k) with hr | ⟨d, l, hd⟩
    · exact .inl hr
    · rcases asleep_attends h hd with ⟨-, _, _, hi, -⟩ | ⟨rfl, -⟩
      · cases hi
      · exact .inr ⟨l, hd⟩
  by_cases hsleep : ∃ k l, S.thread (.producer k) = .asleep .notFull l
  · -- the buffer is full, so that no consumer waits: all have returned, and more has been produced
    -- than there is to produce
    obtain ⟨k, l, hk⟩ := hsleep
    have hfull := hslots k l hk
    have hpos : bufferSize ≠ 0 := by decide
    have hdone : ∀ v, (S.loc (.consumer v)).returned = true := by
      intro v
      rcases hconsumer v with hr | ⟨l', hv⟩
      · exact hr
      · have hzero := hitems v l' hv
        omega
    have hcount := count_eq h
    have hle := length_produced_le hN h
    rw [length_consumed_done hN h hdone] at hcount
    omega
  · -- the producers have returned, so that no consumer waits
    have hdone : ∀ k, S.loc (.producer k) = .doneProducing := by
      intro k
      rcases hproducer k with hr | ⟨l, hk⟩
      · exact producer_returned (hrange (.producer k)) hr
      · exact absurd ⟨k, l, hk⟩ hsleep
    obtain ⟨i, hi⟩ := hleft
    cases i with
    | producer k =>
      rw [hdone k] at hi
      cases hi
    | consumer k =>
      rcases hconsumer k with hr | ⟨l, hk⟩
      · exact Bool.false_ne_true (hi.symm.trans hr)
      · exact no_consumer_waits hN h hdone k ⟨l, hk⟩

end Ends

/-- Every item of every producer once, and those of one producer in their order. -/
structure AllItems (numItems : Nat) (id : Fin p → Int) (xs : List Int) : Prop where
  once : (xs : Multiset Int) = ∑ k, (items id k numItems : Multiset Int)
  order : ∀ k, (items id k numItems).Sublist xs

theorem all_items {id : Fin n → Int} (hN : 0 < numItems) {S : BufferState n n}
    (h : Machine.Reach (step (code numItems id)) (fun _ _ => True) start S)
    (hdone : ∀ i, (S.loc i).returned = true) : AllItems numItems id S.data.history.consumed := by
  have hacc := accounted_reach hN h
  have hproducers : ∀ k, S.loc (.producer k) = .doneProducing := fun k =>
    producer_returned (hacc.range (.producer k)) (hdone (.producer k))
  -- as much has been consumed as was produced, so that nothing is left in the buffer
  obtain ⟨xs, hxs⟩ := queueInv_reach h
  have hlen := count_eq h
  rw [length_produced_done hN h hproducers,
    length_consumed_done hN h fun k => hdone (.consumer k)] at hlen
  have hnil : xs = [] := List.eq_nil_of_length_eq_zero (by rw [← hxs.count]; omega)
  have hsame : S.data.history.consumed = S.data.history.produced := by
    rw [hxs.history, hnil, List.append_nil]
  have hmade : ∀ k, (S.loc (.producer k)).made numItems = numItems := fun k => by
    rw [hproducers k]
    rfl
  rw [hsame]
  constructor
  · rw [hacc.produced]
    exact Finset.sum_congr rfl fun k _ => by rw [hmade k]
  · intro k
    have horder := hacc.order k
    rwa [hmade k] at horder

/-- `n` producers and `n` consumers, in any order of their critical sections: a run has at most so many
steps, and three more for each wake-up without a signal; while a thread has not returned, some thread can
go on; once the producers have returned no consumer waits; and when all have returned, every item has been
consumed once. -/
theorem buffer_drains (hN : 0 < numItems) (id : Fin n → Int) {es : List (Event (Thread n n) Unit)}
    {rs : List Unit} {S : BufferState n n}
    (hexec : Machine.exec (step (code numItems id)) start es = some (rs, S)) :
    es.length ≤ (4 * n + 2) * (n * (4 * numItems + 1)) + 4 * n + (es.map Event.cost).sum ∧
    ((∃ i, (S.loc i).returned = false) →
      ∃ i x woken, (step (code numItems id) S (.go i x woken)).isSome) ∧
    ((∀ k, S.loc (.producer k) = .doneProducing) →
      ∀ k, ¬ (S.thread (.consumer k)).On .notEmpty) ∧
    ((∀ i, (S.loc i).returned = true) → AllItems numItems id S.data.history.consumed) := by
  have h := Machine.Reach.exec es .init hexec
  refine ⟨?_, someone_goes hN h, no_consumer_waits hN h, all_items hN h⟩
  rw [← stepBound_start]
  exact code_lowers.length_le (fun S hS => (accounted_reach hN hS).range) (Machine.legal_true es _) hexec

/-- Two producers of one item each, and two consumers. One consumer waits for an item when the other
takes the first, and takes the second. -/
def crossRun : List (Event (Thread 2 2) Unit) :=
  let p (i : Nat) (hi : i < 2) : Thread 2 2 := .producer ⟨i, hi⟩
  let c (i : Nat) (hi : i < 2) : Thread 2 2 := .consumer ⟨i, hi⟩
  let p₀ : Event (Thread 2 2) Unit := .go (p 0 (by decide)) () ∅
  let p₁ : Event (Thread 2 2) Unit := .go (p 1 (by decide)) () ∅
  let c₀ : Event (Thread 2 2) Unit := .go (c 0 (by decide)) () ∅
  let c₁ : Event (Thread 2 2) Unit := .go (c 1 (by decide)) () ∅
  [c₀, c₀, p₀, p₀, p₁, .go (p 0 (by decide)) () {c 0 (by decide)}, p₁, p₁, c₁, c₁, c₀, p₀, c₀, c₁, p₁, c₀]

theorem buffer_drains_crossRun :
    ∃ rs S, Machine.exec (step (code 1 fun k => k.val)) start crossRun = some (rs, S) ∧
      crossRun.length ≤ (4 * 2 + 2) * (2 * (4 * 1 + 1)) + 4 * 2 + (crossRun.map Event.cost).sum ∧
      S.data.history.consumed = [0, 1000] ∧
      AllItems 1 (fun k : Fin 2 => k.val) S.data.history.consumed := by
  have hend : (Machine.exec (step (code 1 fun k => k.val)) (start (p := 2) (c := 2)) crossRun).map
      (fun p => (decide (∀ i, (p.2.loc i).returned = true), p.2.data.history.consumed)) =
        some (true, [0, 1000]) := by decide +kernel
  obtain ⟨⟨rs, S⟩, hexec, heq⟩ := Option.map_eq_some_iff.mp hend
  obtain ⟨hdone, hconsumed⟩ := Prod.mk.inj heq
  obtain ⟨hlen, -, -, hall⟩ := buffer_drains (by decide) (fun k => k.val) hexec
  exact ⟨rs, S, hexec, hlen, hconsumed, hall (of_decide_eq_true hdone)⟩

end ProducerConsumer
