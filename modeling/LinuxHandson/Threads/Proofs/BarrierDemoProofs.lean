import LinuxHandson.Threads.BarrierDemo

/-!
# What the reader and the consumer can see

The store of `flag` carries the store of `message`, and the reader has come to what it carries when it
reads `message`. The consumer finds the result that was there before the completion.
-/

namespace BarrierDemo

open Kthread WeakMemory

variable {s s' : Data} {S : Pair.State ReaderLoc WriterLoc Data}

/-- The stores of the two variables: behind the initial values there are only those of the writer. -/
structure Stores (s : Data) : Prop where
  nonempty : ∀ x, 0 < (s.mem x).length
  message : ∀ (i : Nat) a, 1 ≤ i → (s.mem .message)[i]? = some a → a.value = 42
  flag : ∀ (i : Nat) a, (s.mem .flag)[i]? = some a → (a.value = 1 ↔ 1 ≤ i)
  carries : Carries s.mem .flag 1 .message 1

/-- The writer has not written `flag` yet. -/
structure Before (s : Data) : Prop where
  written : s.writer.written .flag = 0
  published : s.writer.published .flag = 0

/-- What the writer has done at its places. -/
def Wrote (s : Data) : Place WriterLoc → Prop
  | .running .barrier => Before s ∧ 1 ≤ s.writer.written .message
  | .running .setFlag => 1 ≤ s.writer.published .message
  | .running .idle => True
  | .returned => True
  | _ => Before s

/-- What the reader has come to, and printed, at its places. -/
def Read (s : Data) : Place ReaderLoc → Prop
  | .running (.loopTest loops) => loops ≤ maxLoops ∧ s.printed = []
  | .running (.loopBarrier loops) => loops < maxLoops ∧ s.printed = []
  | .running .barrier => 1 ≤ s.reader.seen .flag ∧ s.printed = []
  | .running .readFlag =>
    (1 ≤ s.reader.seen .flag ∧ 1 ≤ s.reader.seen .message) ∧ s.printed = []
  | .running (.readMessage flag) => (flag = 1 ∧ 1 ≤ s.reader.seen .message) ∧ s.printed = []
  | .running .idle => s.printed = [] ∨ s.printed = [(1, 42)]
  | .returned => s.printed = [] ∨ s.printed = [(1, 42)]
  | _ => s.printed = []

/-- What the stores carry, and where the two threads are. -/
structure Inv (p : Place ReaderLoc) (q : Place WriterLoc) (s : Data) : Prop where
  stores : Stores s
  knows : s.reader.Knows .flag 1 .message 1
  wrote : Wrote s q
  read : Read s p

theorem Read.printed {p : Place ReaderLoc} (h : Read s p) : s.printed = [] ∨ s.printed = [(1, 42)] := by
  cases p with
  | absent => exact .inl h
  | created => exact .inl h
  | skipped => exact .inl h
  | returned => exact h
  | running l =>
    cases l with
    | loopTest => exact .inl h.2
    | loopBarrier => exact .inl h.2
    | check => exact .inl h
    | barrier => exact .inl h.2
    | readFlag => exact .inl h.2
    | readMessage => exact .inl h.2
    | idle => exact h

theorem initial_getElem? {x : Var} {i : Nat} {a : Store Var Int}
    (h : (Data.initial.mem x)[i]? = some a) : i = 0 ∧ a = ⟨0, fun _ => 0⟩ := by
  obtain ⟨hi, rfl⟩ := List.getElem?_eq_some_iff.mp h
  have hlen : (Data.initial.mem x).length = 1 := rfl
  obtain rfl : i = 0 := by omega
  exact ⟨rfl, rfl⟩

theorem stores_initial : Stores .initial where
  nonempty _ := Nat.one_pos
  message := by
    intro i a hi ha
    have h0 := (initial_getElem? ha).1
    omega
  flag := by
    intro i a ha
    obtain ⟨rfl, rfl⟩ := initial_getElem? ha
    decide
  carries := carries_initial Nat.one_pos

theorem inv_initial : Inv .absent .absent .initial where
  stores := stores_initial
  knows := Cpu.knows_initial Nat.one_pos
  wrote := ⟨rfl, rfl⟩
  read := rfl

/-! ## The writer -/

/-- A store of the writer. -/
theorem Stores.store (h : Stores s) (x : Var) (v : Int) {c : Cpu Var}
    (hmsg : x = .message → v = 42) (hflag : x = .flag → v = 1 ∧ 1 ≤ s.writer.published .message)
    (hpub : 1 ≤ s.writer.published .flag → 1 ≤ s.writer.published .message) :
    Stores { s with mem := (s.writer.store s.mem x v).2, writer := c } where
  nonempty y := by
    show 0 < ((s.writer.store s.mem x v).2 y).length
    by_cases hy : y = x
    · rw [hy, Cpu.store_same, List.length_append]
      exact Nat.add_pos_right _ Nat.one_pos
    · rw [Cpu.store_ne hy]
      exact h.nonempty y
  message := by
    intro i a hi ha
    replace ha : ((s.writer.store s.mem x v).2 .message)[i]? = some a := ha
    by_cases hx : Var.message = x
    · rw [← hx, Cpu.store_same, List.getElem?_append] at ha
      split at ha
      · exact h.message i a hi ha
      · rw [List.mem_singleton.mp (List.mem_of_getElem? ha)]
        exact hmsg hx.symm
    · rw [Cpu.store_ne hx] at ha
      exact h.message i a hi ha
  flag := by
    intro i a ha
    replace ha : ((s.writer.store s.mem x v).2 .flag)[i]? = some a := ha
    have hpos := h.nonempty .flag
    by_cases hx : Var.flag = x
    · rw [← hx, Cpu.store_same, List.getElem?_append] at ha
      split at ha
      · exact h.flag i a ha
      · rw [List.mem_singleton.mp (List.mem_of_getElem? ha)]
        exact iff_of_true (hflag hx.symm).1 (by omega)
    · rw [Cpu.store_ne hx] at ha
      exact h.flag i a ha
  carries := h.carries.store (fun hx => (hflag hx).2) hpub

theorem Before.published_le {n : Nat} (h : Before s) (hle : 1 ≤ s.writer.published .flag) :
    1 ≤ n := by
  rw [h.published] at hle
  exact absurd hle (Nat.not_succ_le_zero 0)

/-- A step of the writer does not move the reader. -/
theorem Inv.writer {p : Place ReaderLoc} {t t' : Thread WriterLoc} (h : Inv p t.place s)
    (hm : Moves .setMessage writerFn t s t' s') : Inv p t'.place s' := by
  have hwrote := h.wrote
  cases hm with
  | skip ht _ =>
    rw [ht] at hwrote
    exact ⟨h.stores, h.knows, hwrote, h.read⟩
  | enter ht _ =>
    rw [ht] at hwrote
    exact ⟨h.stores, h.knows, hwrote, h.read⟩
  | @body l next s' ht hb =>
    rw [ht] at hwrote
    cases l with
    | setMessage =>
      cases hb
      refine ⟨h.stores.store .message 42 (fun _ => rfl) nofun hwrote.published_le, h.knows, ?_, h.read⟩
      refine ⟨⟨?_, hwrote.published⟩, ?_⟩
      · show Function.update s.writer.written .message (s.mem .message).length .flag = 0
        rw [Function.update_of_ne (by decide)]
        exact hwrote.written
      · show 1 ≤ Function.update s.writer.written .message (s.mem .message).length .message
        rw [Function.update_self]
        exact h.stores.nonempty .message
    | barrier =>
      cases hb
      exact ⟨⟨h.stores.nonempty, h.stores.message, h.stores.flag, h.stores.carries⟩, h.knows,
        Nat.le_trans hwrote.2 (s.writer.written_le_wmb .message), h.read⟩
    | setFlag =>
      cases hb
      exact ⟨h.stores.store .flag 1 nofun (fun _ => ⟨rfl, hwrote⟩) (fun _ => hwrote), h.knows, trivial,
        h.read⟩
    | idle =>
      cases hb
      refine ⟨h.stores, h.knows, ?_, h.read⟩
      cases t.shouldStop with
      | false => trivial
      | true => trivial

/-! ## The reader -/

/-- A step of the reader leaves the stores and the writer. -/
theorem Inv.reads {p p' : Place ReaderLoc} {q : Place WriterLoc} {c : Cpu Var} {lines : List (Int × Int)}
    (h : Inv p q s) (hknows : c.Knows .flag 1 .message 1)
    (hread : Read { s with reader := c, printed := lines } p') :
    Inv p' q { s with reader := c, printed := lines } where
  stores := ⟨h.stores.nonempty, h.stores.message, h.stores.flag, h.stores.carries⟩
  knows := hknows
  wrote := by
    have hw := h.wrote
    cases q with
    | absent => exact ⟨hw.1, hw.2⟩
    | created => exact ⟨hw.1, hw.2⟩
    | skipped => exact ⟨hw.1, hw.2⟩
    | returned => trivial
    | running l =>
      cases l with
      | setMessage => exact ⟨hw.1, hw.2⟩
      | barrier => exact ⟨⟨hw.1.1, hw.1.2⟩, hw.2⟩
      | setFlag => exact hw
      | idle => trivial
  read := hread

/-- What a load of `flag` tells. -/
theorem Stores.loadFlag (h : Stores s) {c : Cpu Var} {t : Nat} {v : Int}
    (hl : s.reader.load s.mem .flag t = some (v, c)) :
    (v = 1 ↔ 1 ≤ c.seen .flag) ∧ (1 ≤ s.reader.seen .flag → v = 1) := by
  obtain ⟨a, ha, rfl, hle, hseen, -⟩ := Cpu.load_some hl
  have hiff := h.flag t a ha
  rw [hseen, Function.update_self]
  exact ⟨hiff, fun h1 => hiff.mpr (Nat.le_trans h1 hle)⟩

/-- What a load of `message` returns to a processor that has come to the store of the writer. -/
theorem Stores.loadMessage (h : Stores s) {c : Cpu Var} {t : Nat} {v : Int}
    (hl : s.reader.load s.mem .message t = some (v, c)) (hseen : 1 ≤ s.reader.seen .message) :
    v = 42 := by
  obtain ⟨a, ha, rfl, hle, -, -⟩ := Cpu.load_some hl
  exact h.message t a (Nat.le_trans hseen hle) ha

theorem Inv.reader {t t' : Thread ReaderLoc} {q : Place WriterLoc} {x : Nat} (h : Inv t.place q s)
    (hm : Moves (.loopTest 0) (readerFn x) t s t' s') : Inv t'.place q s' := by
  have hread := h.read
  cases hm with
  | skip ht _ =>
    rw [ht] at hread
    exact ⟨h.stores, h.knows, h.wrote, hread⟩
  | enter ht _ =>
    rw [ht] at hread
    exact ⟨h.stores, h.knows, h.wrote, Nat.zero_le _, hread⟩
  | @body l next s' ht hb =>
    rw [ht] at hread
    cases l with
    | loopTest loops =>
      obtain ⟨⟨v, c⟩, hl, heq⟩ := Option.map_eq_some_iff.mp hb
      cases heq
      refine h.reads (h.knows.load h.stores.carries hl) ?_
      by_cases hgo : v = 0 ∧ loops < maxLoops
      · simp only [if_pos hgo]
        exact ⟨hgo.2, hread.2⟩
      · simp only [if_neg hgo]
        exact hread.2
    | loopBarrier loops =>
      cases hb
      exact h.reads h.knows.rmb ⟨hread.1, hread.2⟩
    | check =>
      obtain ⟨⟨v, c⟩, hl, heq⟩ := Option.map_eq_some_iff.mp hb
      cases heq
      refine h.reads (h.knows.load h.stores.carries hl) ?_
      by_cases hv : v = 1
      · simp only [if_pos hv]
        exact ⟨(h.stores.loadFlag hl).1.mp hv, hread⟩
      · simp only [if_neg hv]
        exact .inl hread
    | barrier =>
      cases hb
      refine h.reads h.knows.rmb ⟨⟨?_, h.knows.seen hread.1⟩, hread.2⟩
      exact Nat.le_trans hread.1 (s.reader.seen_le_rmb .flag)
    | readFlag =>
      obtain ⟨⟨v, c⟩, hl, heq⟩ := Option.map_eq_some_iff.mp hb
      cases heq
      refine h.reads (h.knows.load h.stores.carries hl) ⟨⟨?_, ?_⟩, hread.2⟩
      · exact (h.stores.loadFlag hl).2 hread.1.1
      · exact Nat.le_trans hread.1.2 (Cpu.seen_le_load hl .message)
    | readMessage flag =>
      obtain ⟨⟨v, c⟩, hl, heq⟩ := Option.map_eq_some_iff.mp hb
      cases heq
      refine h.reads (h.knows.load h.stores.carries hl) (.inr ?_)
      rw [hread.2, hread.1.1, h.stores.loadMessage hl hread.1.2]
      rfl
    | idle =>
      cases hb
      refine ⟨h.stores, h.knows, h.wrote, ?_⟩
      cases t.shouldStop with
      | false => exact hread
      | true => exact hread

theorem keeps : Pair.Keeps code Inv where
  create₁ _ _ h := ⟨h.stores, h.knows, h.wrote, h.read⟩
  create₂ _ _ h := ⟨h.stores, h.knows, h.wrote, h.read⟩
  thread₁ _ _ _ _ _ _ h hm := h.reader hm
  thread₂ _ _ _ _ _ _ h hm := h.writer hm

/-- However late the stores of the writer become visible, and whatever loads return old values: the
reader prints at most one result, with `flag` 1 and `message` 42; it goes round its loop at most 50
times; and when the init function has failed or the exit function has returned, no thread is left. -/
theorem reader_prints (h : Machine.Reach step (fun _ _ => True) start S) :
    (S.data.printed = [] ∨ S.data.printed = [(1, 42)]) ∧
    (∀ loops, S.thread₁.place = .running (.loopTest loops) → loops ≤ maxLoops) ∧
    (S.loc = .gone → Pair.Over S.thread₁ ∧ Pair.Over S.thread₂) := by
  have hinv : Inv S.thread₁.place S.thread₂.place S.data := keeps.reach inv_initial h
  refine ⟨hinv.read.printed, fun loops hloc => ?_, (Pair.Reach.order h).gone⟩
  have hread := hinv.read
  rw [hloc] at hread
  exact hread.1

/-- The reader waits once, and then sees the store of `flag` before it sees that of `message`. -/
def waitsOnce : List (Pair.Event Nat) :=
  [.module false, .module false, .thread₁ 0, .thread₁ 0, .thread₂ 0, .thread₂ 0, .thread₂ 0, .thread₂ 0,
    .thread₁ 0, .thread₁ 1, .thread₁ 1, .thread₁ 0, .thread₁ 1, .thread₁ 1]

theorem reader_prints_waitsOnce : ∃ outs S, Machine.exec step start waitsOnce = some (outs, S) ∧
    S.data.printed = [(1, 42)] ∧
    (S.data.printed = [] ∨ S.data.printed = [(1, 42)]) ∧
    (∀ loops, S.thread₁.place = .running (.loopTest loops) → loops ≤ maxLoops) ∧
    (S.loc = .gone → Pair.Over S.thread₁ ∧ Pair.Over S.thread₂) := by
  refine ⟨_, _, rfl, rfl, ?_⟩
  exact reader_prints (Machine.Reach.exec waitsOnce .init rfl)

end BarrierDemo

namespace CompletionDemo

open Kthread

variable {s s' : Data} {S : Pair.State ConsumerLoc ProducerLoc Data}

/-- The producer has written the result. -/
def Written : Place ProducerLoc → Prop
  | .running .complete => True
  | .running .idle => True
  | .returned => True
  | _ => False

/-- The producer has completed. -/
def Completed : Place ProducerLoc → Prop
  | .running .idle => True
  | .returned => True
  | _ => False

/-- What the consumer has printed at its places. -/
def Printed (s : Data) : Place ConsumerLoc → Prop
  | .running .idle => s.lines = [.timedOut] ∨ s.lines = [.got 42]
  | .returned => s.lines = [.timedOut] ∨ s.lines = [.got 42]
  | _ => s.lines = []

/-- What is there for the consumer, by the place of the producer. -/
structure Inv (p : Place ConsumerLoc) (q : Place ProducerLoc) (s : Data) : Prop where
  result : Written q → s.sharedResult = 42
  /-- Before the completion there is nothing for the consumer. -/
  notYet : ¬ Completed q → s.done = 0 ∧ p ≠ .running .report ∧ .got 42 ∉ s.lines
  done : s.done ≤ 1
  printed : Printed s p

theorem inv_initial : Inv .absent .absent .initial where
  result := nofun
  notYet _ := ⟨rfl, nofun, List.not_mem_nil⟩
  done := Nat.zero_le 1
  printed := rfl

theorem Completed.written {q : Place ProducerLoc} (h : Completed q) : Written q := by
  cases q with
  | returned => trivial
  | running l =>
    cases l with
    | idle => trivial
    | setResult => cases h
    | complete => cases h
  | _ => cases h

theorem Printed.lines {p : Place ConsumerLoc} (h : Printed s p) :
    s.lines = [] ∨ s.lines = [.timedOut] ∨ s.lines = [.got 42] := by
  cases p with
  | returned => exact .inr h
  | running l =>
    cases l with
    | idle => exact .inr h
    | waiting => exact .inl h
    | report => exact .inl h
  | _ => exact .inl h

theorem Inv.producer {p : Place ConsumerLoc} {t t' : Thread ProducerLoc} (h : Inv p t.place s)
    (hm : Moves .setResult producerFn t s t' s') : Inv p t'.place s' := by
  obtain ⟨hresult, hnot, hdone, hprinted⟩ := h
  cases hm with
  | skip ht _ =>
    rw [ht] at hnot
    exact ⟨nofun, fun _ => hnot id, hdone, hprinted⟩
  | enter ht _ =>
    rw [ht] at hnot
    exact ⟨nofun, fun _ => hnot id, hdone, hprinted⟩
  | @body l next s' ht hb =>
    rw [ht] at hnot hresult
    cases l with
    | setResult =>
      cases hb
      exact ⟨fun _ => rfl, fun _ => hnot id, hdone, hprinted⟩
    | complete =>
      cases hb
      refine ⟨fun _ => hresult trivial, fun hc => absurd trivial hc, ?_, hprinted⟩
      show s.done + 1 ≤ 1
      rw [(hnot id).1]
    | idle =>
      cases hb
      cases t.shouldStop with
      | false => exact ⟨hresult, hnot, hdone, hprinted⟩
      | true => exact ⟨hresult, hnot, hdone, hprinted⟩

theorem Inv.consumer {t t' : Thread ConsumerLoc} {q : Place ProducerLoc} {x : Bool}
    (h : Inv t.place q s) (hm : Moves .waiting (consumerFn x) t s t' s') : Inv t'.place q s' := by
  obtain ⟨hresult, hnot, hdone, hprinted⟩ := h
  cases hm with
  | skip ht _ =>
    rw [ht] at hprinted
    exact ⟨hresult, fun hc => ⟨(hnot hc).1, nofun, (hnot hc).2.2⟩, hdone, hprinted⟩
  | enter ht _ =>
    rw [ht] at hprinted
    exact ⟨hresult, fun hc => ⟨(hnot hc).1, nofun, (hnot hc).2.2⟩, hdone, hprinted⟩
  | @body l next s' ht hb =>
    rw [ht] at hprinted hnot
    cases l with
    | waiting =>
      simp only [consumerFn] at hb
      split at hb
      · next hpos =>
        cases hb
        have hc : Completed q := by
          by_contra hc
          rw [(hnot hc).1] at hpos
          exact absurd hpos (Nat.lt_irrefl 0)
        exact ⟨hresult, fun hn => absurd hc hn, Nat.le_trans (Nat.sub_le _ _) hdone, hprinted⟩
      · split at hb
        · cases hb
          replace hprinted : s.lines = [] := hprinted
          have hlines : s.lines ++ [Line.timedOut] = [.timedOut] := by
            rw [hprinted]
            rfl
          refine ⟨hresult, fun hc => ⟨(hnot hc).1, nofun, ?_⟩, hdone, .inl hlines⟩
          show .got 42 ∉ s.lines ++ [Line.timedOut]
          rw [hlines]
          decide
        · cases hb
    | report =>
      cases hb
      have hc : Completed q := by
        by_contra hc
        exact (hnot hc).2.1 rfl
      replace hprinted : s.lines = [] := hprinted
      refine ⟨hresult, fun hn => absurd hc hn, hdone, .inr ?_⟩
      rw [hprinted, hresult hc.written]
      rfl
    | idle =>
      cases hb
      cases t.shouldStop with
      | false => exact ⟨hresult, fun hc => ⟨(hnot hc).1, nofun, (hnot hc).2.2⟩, hdone, hprinted⟩
      | true => exact ⟨hresult, fun hc => ⟨(hnot hc).1, nofun, (hnot hc).2.2⟩, hdone, hprinted⟩

theorem keeps : Pair.Keeps code Inv where
  create₁ _ _ h := ⟨h.result, fun hc => ⟨(h.notYet hc).1, nofun, (h.notYet hc).2.2⟩, h.done, h.printed⟩
  create₂ _ _ h := ⟨nofun, fun _ => h.notYet id, h.done, h.printed⟩
  thread₁ _ _ _ _ _ _ h hm := h.consumer hm
  thread₂ _ _ _ _ _ _ h hm := h.producer hm

/-- After its wait the consumer prints one line at most, and a result only if it is the one that the producer
has computed; while it reads the result the producer does not write it; and when the init function has failed
or the exit function has returned, no thread is left. -/
theorem consumer_prints (h : Machine.Reach step (fun _ _ => True) start S) :
    (S.data.lines = [] ∨ S.data.lines = [.timedOut] ∨ S.data.lines = [.got 42]) ∧
    (S.thread₁.place = .running .report → S.thread₂.place ≠ .running .setResult) ∧
    (S.loc = .gone → Pair.Over S.thread₁ ∧ Pair.Over S.thread₂) := by
  have hinv : Inv S.thread₁.place S.thread₂.place S.data := keeps.reach inv_initial h
  refine ⟨hinv.printed.lines, fun hreport hset => ?_, (Pair.Reach.order h).gone⟩
  have hnot : ¬ Completed S.thread₂.place := by
    rw [hset]
    exact id
  exact (hinv.notYet hnot).2.1 hreport

/-- The consumer is stopped before the producer has completed, and still waits for it. -/
def stoppedEarly : List (Pair.Event Bool) :=
  [.module false, .thread₁ false, .module false, .thread₂ false, .thread₂ false, .module false,
    .thread₂ false, .thread₂ false, .module false, .thread₁ false, .thread₁ false, .thread₁ false,
    .module false]

theorem consumer_prints_stoppedEarly : ∃ outs S, Machine.exec step start stoppedEarly = some (outs, S) ∧
    S.data.lines = [.got 42] ∧ S.loc = .gone ∧
    (S.data.lines = [] ∨ S.data.lines = [.timedOut] ∨ S.data.lines = [.got 42]) ∧
    (S.thread₁.place = .running .report → S.thread₂.place ≠ .running .setResult) ∧
    (S.loc = .gone → Pair.Over S.thread₁ ∧ Pair.Over S.thread₂) := by
  refine ⟨_, _, rfl, rfl, rfl, ?_⟩
  exact consumer_prints (Machine.Reach.exec stoppedEarly .init rfl)

end CompletionDemo
