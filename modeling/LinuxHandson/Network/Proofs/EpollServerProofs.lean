import LinuxHandson.Network.EpollServer

/-!
# Short writes

The server drops what a `write` does not accept, and goes on with the next chunk. So the echo is the
beginning of what was read exactly as long as nothing is accepted after a write that was short.
-/

namespace EpollServer

open CLib

variable {s s' : State} {e : Event} {r : Unit}

/-- The buffer holds the chunk that was read last. -/
structure Holds (s : State) : Prop where
  size : s.buf.length = bufSize
  chunk : ∀ n, s.loc = .writing n →
    n ≤ s.received.length ∧ s.buf.take n = s.received.drop (s.received.length - n)

theorem holds_accepted : Holds accepted := ⟨List.length_replicate, nofun⟩

theorem Holds.moved (h : Holds s) {l : Loc} {echoed : List (UInt8 × Nat)} (hl : ∀ n, l ≠ .writing n) :
    Holds { s with loc := l, echoed := echoed } :=
  ⟨h.size, fun n hn => absurd hn (hl n)⟩

theorem take_splice_zero {b f : List UInt8} : (splice b 0 f).take f.length = f := by
  rw [splice, List.take_zero, List.nil_append]
  exact List.take_left

/-- What a step does to what was read and to what was written. -/
inductive Change (s s' : State) (e : Event) : Prop where
  | quiet (hr : s'.received = s.received) (he : s'.echoed = s.echoed)
  | read (bytes : List UInt8) (hr : s'.received = s.received ++ bytes) (he : s'.echoed = s.echoed)
  | write (n k : Nat) (hloc : s.loc = .writing n) (hev : e = .write (.accepted k)) (hk : k ≤ n)
      (hr : s'.received = s.received)
      (he : s'.echoed = s.echoed ++ ((s.buf.take n).zipIdx (s.received.length - n)).take k)

theorem step_change (hs : Holds s) (h : step s e = some (r, s')) : Change s s' e ∧ Holds s' := by
  unfold step at h
  split at h
  · cases h
    exact ⟨.quiet rfl rfl, hs.moved nofun⟩
  · next result hloc =>
    obtain ⟨s1, h1, heq⟩ := Option.map_eq_some_iff.mp h
    obtain ⟨-, rfl⟩ := Prod.mk.inj heq
    cases result with
    | data bytes =>
      replace h1 : (if bytes = [] then _ else if bytes.length ≤ bufSize then _ else none) = _ := h1
      split at h1
      · cases h1
        exact ⟨.quiet rfl rfl, hs.moved nofun⟩
      · split at h1
        · next hlen =>
          cases h1
          refine ⟨.read bytes rfl rfl, ?_, ?_⟩
          · show (splice s.buf 0 bytes).length = bufSize
            rw [length_splice (by rw [hs.size]; omega)]
            exact hs.size
          · intro n hn
            cases hn
            show bytes.length ≤ (s.received ++ bytes).length ∧
              (splice s.buf 0 bytes).take bytes.length =
                (s.received ++ bytes).drop ((s.received ++ bytes).length - bytes.length)
            rw [List.length_append, Nat.add_sub_cancel, take_splice_zero]
            exact ⟨Nat.le_add_left _ _, List.drop_left.symm⟩
        · cases h1
    | wouldBlock =>
      cases h1
      exact ⟨.quiet rfl rfl, hs.moved nofun⟩
    | error =>
      cases h1
      exact ⟨.quiet rfl rfl, hs.moved nofun⟩
  · next n result hloc =>
    obtain ⟨s1, h1, heq⟩ := Option.map_eq_some_iff.mp h
    obtain ⟨-, rfl⟩ := Prod.mk.inj heq
    cases result with
    | accepted k =>
      replace h1 : (if k ≤ n then _ else none) = _ := h1
      split at h1
      · next hk =>
        cases h1
        exact ⟨.write n k hloc rfl hk rfl rfl, hs.moved nofun⟩
      · cases h1
    | error =>
      cases h1
      exact ⟨.quiet rfl rfl, hs.moved nofun⟩
  · cases h

/-- The bytes read, up to the last chunk and from there on, with their places. -/
theorem zipIdx_split (l : List UInt8) {n : Nat} (hn : n ≤ l.length) :
    l.zipIdx = (l.take (l.length - n)).zipIdx ++ (l.drop (l.length - n)).zipIdx (l.length - n) := by
  have hlen : (l.take (l.length - n)).length = l.length - n := by
    rw [List.length_take]
    omega
  have happ := @List.zipIdx_append _ (l.take (l.length - n)) (l.drop (l.length - n)) 0
  rw [List.take_append_drop, hlen, Nat.zero_add] at happ
  exact happ

/-- A write of the first bytes of the last chunk goes on where the echo stands. -/
theorem Echoes.write (hs : Echoes s) (hh : Holds s) {n k : Nat} (hloc : s.loc = .writing n)
    (hlen : 0 < k → s.echoed.length + n = s.received.length) :
    s.echoed ++ ((s.buf.take n).zipIdx (s.received.length - n)).take k <+: s.received.zipIdx := by
  obtain ⟨hn, hchunk⟩ := hh.chunk n hloc
  rcases Nat.eq_zero_or_pos k with hk | hk
  · rw [hk, List.take_zero, List.append_nil]
    exact hs
  · have hsplit := zipIdx_split s.received hn
    have hecho : s.echoed = (s.received.take (s.received.length - n)).zipIdx := by
      have htake := List.prefix_iff_eq_take.mp hs
      have hlen' := hlen hk
      have hsize : ((s.received.take (s.received.length - n)).zipIdx).length = s.echoed.length := by
        rw [List.length_zipIdx, List.length_take]
        omega
      rw [htake, hsplit, ← hsize]
      exact List.take_left
    rw [hecho, hchunk, hsplit]
    exact List.prefix_append_right_inj _ |>.mpr (List.take_prefix _ _)

theorem Echoes.step (hs : Echoes s) (hh : Holds s) (hc : CaughtUp s e) (h : step s e = some (r, s')) :
    Echoes s' ∧ Holds s' := by
  obtain ⟨hch, hh'⟩ := step_change hh h
  refine ⟨?_, hh'⟩
  cases hch with
  | quiet hr he =>
    rw [Echoes, hr, he]
    exact hs
  | read bytes hr he =>
    rw [Echoes, hr, he, List.zipIdx_append]
    exact hs.trans (List.prefix_append _ _)
  | write n k hloc hev hk hr he =>
    rw [Echoes, hr, he]
    exact hs.write hh hloc (hc n k hloc hev hk)

/-- A write that accepts a byte and keeps the echo right has found the echo complete. -/
theorem caughtUp_of_echoes (hs : Holds s) (h : ∀ r s', step s e = some (r, s') → Echoes s') :
    CaughtUp s e := by
  rintro n k hloc rfl hk hpos
  obtain ⟨hn, hchunk⟩ := hs.chunk n hloc
  have hstep : step s (.write (.accepted k)) = some ((), { s with
      loc := .reading
      echoed := s.echoed ++ ((s.buf.take n).zipIdx (s.received.length - n)).take k }) := by
    unfold step
    rw [hloc]
    show (s.write n (.accepted k)).map _ = _
    rw [State.write, if_pos hk]
    rfl
  have hecho : s.echoed ++ ((s.buf.take n).zipIdx (s.received.length - n)).take k <+:
      s.received.zipIdx := h _ _ hstep
  -- the first byte that this write adds stands at the end of the echo
  have hchunklen : (s.buf.take n).length = n := by
    rw [hchunk, List.length_drop]
    omega
  obtain ⟨a, ha⟩ : ∃ a, (s.buf.take n)[0]? = some a :=
    ⟨_, List.getElem?_eq_getElem (by omega)⟩
  have hfirst : (s.echoed ++ ((s.buf.take n).zipIdx (s.received.length - n)).take k)[s.echoed.length]? =
      some (a, s.received.length - n) := by
    rw [List.getElem?_append_right (Nat.le_refl _), Nat.sub_self, List.getElem?_take_of_lt hpos,
      List.getElem?_zipIdx, ha]
    rfl
  obtain ⟨t, ht⟩ := hecho
  have hall : s.received.zipIdx[s.echoed.length]? = some (a, s.received.length - n) := by
    rw [← ht, List.getElem?_append_left (List.getElem?_eq_some_iff.mp hfirst).1]
    exact hfirst
  rw [List.getElem?_zipIdx] at hall
  obtain ⟨b, -, hb⟩ := Option.map_eq_some_iff.mp hall
  have hplace := (Prod.mk.inj hb).2
  omega

/-- Whatever the calls of `read` and `write` do: the bytes written are always a beginning of the bytes
read exactly if no `write` accepts bytes after one that did not accept all of its own. -/
theorem echo_prefix_iff (es : List Event) :
    Machine.Always step Echoes accepted es ↔ Machine.Legal step CaughtUp accepted es := by
  refine Machine.always_iff_legal (fun s (hs : Echoes s ∧ Holds s) => hs.1) ?_ ?_ es accepted
    ⟨List.prefix_rfl, holds_accepted⟩
  · intro s e r s' hs hc hstep
    exact hs.1.step hs.2 hc hstep
  · intro s e hs hstep
    exact caughtUp_of_echoes hs.2 hstep

/-- Of three bytes one is accepted; the next byte that is read is accepted again. -/
def shortWrite : List Event :=
  [.ready, .read (.data [1, 2, 3]), .write (.accepted 1), .read (.data [4]), .write (.accepted 1)]

theorem echo_skips_bytes :
    (Machine.exec step accepted shortWrite).map
        (fun p => (p.2.received, p.2.echoed.map Prod.fst)) = some ([1, 2, 3, 4], [1, 4]) ∧
      ¬ Machine.Always step Echoes accepted shortWrite := by
  refine ⟨by decide, ?_⟩
  intro h
  have hlegal : Machine.Legal step CaughtUp accepted shortWrite :=
    Machine.Always.legal (fun _ _ _ _ hs hstep => (step_change hs hstep).2)
      (fun _ _ hs hstep => caughtUp_of_echoes hs hstep) shortWrite accepted holds_accepted h
  have hlast := ((((hlegal.2 _ _ rfl).2 _ _ rfl).2 _ _ rfl).2 _ _ rfl).1
  have hcaught := hlast 1 1 rfl rfl (Nat.le_refl 1) Nat.one_pos
  cases hcaught

end EpollServer
