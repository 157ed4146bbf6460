import LinuxHandson.Network.SelectServer

/-!
# Every client is listed, and read once

During the pass the clients behind the index are those that the pass has not looked at. The invariant
of the pass counts, for each descriptor, the reads made and the reads still to come.
-/

namespace SelectServer

open CLib

variable {serverFd : Nat} {s s' : State} {k : Kernel} {ready : Finset Nat} {calls : List Call}

/-- The array has its size, and lists the open clients. -/
structure Inv (s : State) : Prop extends Listed s where
  size : s.clients.slots.length = maxClients
  small : ∀ fd ∈ s.clients.items, fd < fdSetsize

theorem Inv.fits (h : Inv s) : s.clients.count ≤ s.clients.slots.length := by
  rw [h.size]
  exact h.num_le

theorem inv_start : Inv start where
  num_le := Nat.zero_le _
  nodup := List.nodup_nil
  mem_iff := by
    intro fd
    simp [start, Filled.items]
  size := List.length_replicate
  small := by
    intro fd hfd
    simp [start, Filled.items] at hfd

/-! ## The set for `select` -/

theorem watchClient_some {w : Finset Nat × Nat} {fd : Nat} (h : fd < fdSetsize) :
    ∃ m, watchClient w fd = some (insert fd w.1, m) ∧ w.2 ≤ m ∧ fd ≤ m := by
  refine ⟨if w.2 < fd then fd else w.2, ?_, ?_, ?_⟩
  · rw [watchClient, fdSet, if_pos h]
    rfl
  · split <;> omega
  · split <;> omega

/-- The descriptors of a list are added to the set, and `maxfd` is at least each of them. -/
theorem foldlM_watchClient (fds : List Nat) (w : Finset Nat × Nat) (h : ∀ fd ∈ fds, fd < fdSetsize)
    (hw : ∀ fd ∈ w.1, fd ≤ w.2) :
    ∃ w', fds.foldlM watchClient w = some w' ∧
      (∀ fd, fd ∈ w'.1 ↔ fd ∈ w.1 ∨ fd ∈ fds) ∧ ∀ fd ∈ w'.1, fd ≤ w'.2 := by
  induction fds generalizing w with
  | nil =>
    refine ⟨w, rfl, ?_, hw⟩
    simp
  | cons fd fds ih =>
    obtain ⟨m, hstep, hle, hfd⟩ := watchClient_some (w := w) (h fd List.mem_cons_self)
    obtain ⟨w', hfold, hmem, hmax⟩ := ih (insert fd w.1, m)
      (fun x hx => h x (List.mem_cons_of_mem _ hx)) (by
        intro x hx
        rcases Finset.mem_insert.mp hx with rfl | hx
        · exact hfd
        · exact Nat.le_trans (hw x hx) hle)
    refine ⟨w', ?_, ?_, hmax⟩
    · rw [List.foldlM_cons, hstep]
      exact hfold
    · intro x
      rw [hmem x, Finset.mem_insert, List.mem_cons]
      tauto

/-- `select` is asked for the listening socket and for each client, and looks at all of them. -/
theorem watch_some (h : Inv s) (hfd : serverFd < fdSetsize) :
    ∃ w, watch serverFd s = some w ∧
      (∀ fd, fd ∈ w.1 ↔ fd = serverFd ∨ fd ∈ s.clients.items) ∧ ∀ fd ∈ w.1, fd ≤ w.2 := by
  obtain ⟨w, hfold, hmem, hmax⟩ := foldlM_watchClient s.clients.items (insert serverFd ∅, serverFd)
    h.small (by simp)
  refine ⟨w, ?_, ?_, hmax⟩
  · rw [watch, fdSet, if_pos hfd]
    exact hfold
  · intro fd
    rw [hmem fd]
    simp

/-- A set that could be built: the listening socket's descriptor fits into it. -/
theorem lt_of_watch {w : Finset Nat × Nat} (h : watch serverFd s = some w) : serverFd < fdSetsize := by
  unfold watch fdSet at h
  split at h
  · assumption
  · cases h

/-! ## A new client -/

theorem inv_push (h : Inv s) {fd : Nat} {c : Filled Nat} (hnot : fd ∉ s.clients.items)
    (hsmall : fd < fdSetsize) (hlt : s.clients.count < maxClients)
    (hitems : c.items = s.clients.items ++ [fd]) (hsize : c.slots.length = s.clients.slots.length)
    (hcount : c.count = s.clients.count + 1) : Inv ⟨c, insert fd s.opened⟩ := by
  refine ⟨⟨?_, ?_, ?_⟩, ?_, ?_⟩
  · show c.count ≤ maxClients
    omega
  · show c.items.Nodup
    rw [hitems]
    refine List.nodup_append.mpr ⟨h.nodup, List.nodup_singleton _, ?_⟩
    intro a ha b hb
    rw [List.mem_singleton.mp hb]
    rintro rfl
    exact hnot ha
  · intro x
    show x ∈ c.items ↔ x ∈ insert fd s.opened
    rw [hitems, List.mem_append, List.mem_singleton, Finset.mem_insert, h.mem_iff x]
    exact or_comm
  · show c.slots.length = maxClients
    rw [hsize, h.size]
  · intro x hx
    replace hx : x ∈ c.items := hx
    rw [hitems] at hx
    rcases List.mem_append.mp hx with hx | hx
    · exact h.small x hx
    · rw [List.mem_singleton.mp hx]
      exact hsmall

/-- What a new client changes: nothing, or one more client, which `select` has not reported. -/
theorem acceptClient_spec (h : Inv s) (hp : Promised serverFd s k)
    (hready : ∀ fd ∈ ready, fd = serverFd ∨ fd ∈ s.clients.items) :
    ∃ calls s', acceptClient serverFd ready k s = some (calls, s') ∧ Inv s' ∧
      (∀ fd, calls.count (.read fd) = 0) ∧
      ∀ fd ∈ ready, s'.clients.items.count fd = s.clients.items.count fd := by
  unfold acceptClient
  split
  · rcases hk : k.accept with _ | fd
    · exact ⟨_, _, rfl, h, by simp, fun _ _ => rfl⟩
    · obtain ⟨hnew, hserver, hsmall⟩ := hp.1 fd (by rw [hk]; rfl)
      have hnot : fd ∉ s.clients.items := fun hin => hnew ((h.mem_iff fd).mp hin)
      dsimp only
      split
      · next hlt =>
        obtain ⟨c, hc⟩ : ∃ c, s.clients.push fd = some c :=
          ⟨_, if_pos (by rw [h.size]; exact hlt)⟩
        obtain ⟨hitems, hsize, hcount⟩ := Filled.push_items hc
        refine ⟨[.accept], ⟨c, insert fd s.opened⟩, by rw [hc]; rfl,
          inv_push h hnot hsmall hlt hitems hsize hcount, by simp, ?_⟩
        intro x hx
        show c.items.count x = s.clients.items.count x
        have hne : x ≠ fd := by
          rintro rfl
          rcases hready x hx with hs | hs
          · exact hserver hs
          · exact hnot hs
        rw [hitems, List.count_append, List.count_singleton, if_neg (by simpa using hne.symm),
          Nat.add_zero]
      · refine ⟨_, _, rfl, ⟨⟨h.num_le, h.nodup, ?_⟩, h.size, h.small⟩, by simp, fun _ _ => rfl⟩
        intro x
        show x ∈ s.clients.items ↔ x ∈ (insert fd s.opened).erase fd
        rw [h.mem_iff x, Finset.erase_insert hnew]
  · exact ⟨_, _, rfl, h, by simp, fun _ _ => rfl⟩

/-! ## The pass -/

/-- The reads of `fd` that are still to come. -/
def due (ready : Finset Nat) (p : Pass) (fd : Nat) : Nat :=
  if fd ∈ ready then (p.state.clients.items.drop p.i).count fd else 0

/-- In the pass: the reads made and those to come are `total`. -/
structure PassInv (ready : Finset Nat) (total : Nat → Nat) (p : Pass) : Prop where
  inv : Inv p.state
  le : p.i ≤ p.state.clients.count
  reads : ∀ fd, p.calls.count (.read fd) + due ready p fd = total fd

theorem drop_items {p : Pass} (hs : Inv p.state) (hi : p.i < p.state.clients.count) :
    ∃ fd, p.state.clients.slots[p.i]? = some fd ∧
      p.state.clients.items.drop p.i = fd :: p.state.clients.items.drop (p.i + 1) := by
  have hlen : p.i < p.state.clients.items.length := by
    rw [Filled.length_items hs.fits]
    exact hi
  refine ⟨p.state.clients.items[p.i], ?_, List.drop_eq_getElem_cons hlen⟩
  rw [← Filled.items_getElem? hi, List.getElem?_eq_getElem hlen]

/-- The reads to come behind the index. -/
def dueBehind (ready : Finset Nat) (p : Pass) (fd : Nat) : Nat :=
  if fd ∈ ready then (p.state.clients.items.drop (p.i + 1)).count fd else 0

/-- What is due is the client at the index, if it is reported, and what is due behind it. -/
theorem due_eq {p : Pass} {fd : Nat}
    (hdrop : p.state.clients.items.drop p.i = fd :: p.state.clients.items.drop (p.i + 1)) (x : Nat) :
    due ready p x = (if x ∈ ready ∧ fd = x then 1 else 0) + dueBehind ready p x := by
  unfold due dueBehind
  rw [hdrop, List.count_cons]
  by_cases hx : x ∈ ready
  · by_cases hfx : fd = x
    · simp [hx, hfx, Nat.add_comm]
    · simp [hx, hfx]
  · simp [hx]

/-- The call of `read` is the one that was due. -/
theorem count_read {p : Pass} {fd : Nat}
    (hdrop : p.state.clients.items.drop p.i = fd :: p.state.clients.items.drop (p.i + 1))
    (hready : fd ∈ ready) {last : Call} (hlast : ∀ y, last ≠ .read y) (x : Nat) :
    (p.calls ++ [.read fd, last]).count (.read x) + dueBehind ready p x =
      p.calls.count (.read x) + due ready p x := by
  rw [due_eq hdrop x, List.count_append, List.count_cons, List.count_singleton]
  by_cases hfx : fd = x
  · subst hfx
    simp [hready, hlast fd]
    omega
  · have hne : ¬ (Call.read fd = Call.read x) := fun he => hfx (Call.read.inj he)
    simp [hfx, hlast x]

/-- A closed client leaves the list, and no other does. -/
theorem inv_close {i fd : Nat} {c : Filled Nat} (hs : Inv s)
    (hdrop : s.clients.items.drop i = fd :: s.clients.items.drop (i + 1))
    (hsize : c.slots.length = s.clients.slots.length) (hcount : c.count = s.clients.count - 1)
    (htake : c.items.take i = s.clients.items.take i)
    (hperm : (c.items.drop i).Perm (s.clients.items.drop (i + 1))) :
    Inv ⟨c, s.opened.erase fd⟩ := by
  have hsplit : s.clients.items = s.clients.items.take i ++ fd :: s.clients.items.drop (i + 1) := by
    rw [← hdrop, List.take_append_drop]
  have hitems : s.clients.items.Perm (fd :: c.items) := by
    have hrest : (s.clients.items.take i ++ s.clients.items.drop (i + 1)).Perm c.items := by
      conv_rhs => rw [← List.take_append_drop i c.items, htake]
      exact hperm.symm.append_left _
    conv_lhs => rw [hsplit]
    exact List.perm_middle.trans (hrest.cons fd)
  have hnodup : (fd :: c.items).Nodup := hitems.nodup_iff.mp hs.nodup
  refine ⟨⟨?_, (List.nodup_cons.mp hnodup).2, ?_⟩, ?_, ?_⟩
  · show c.count ≤ maxClients
    have := hs.num_le
    omega
  · intro x
    show x ∈ c.items ↔ x ∈ s.opened.erase fd
    rw [Finset.mem_erase, ← hs.mem_iff x, hitems.mem_iff, List.mem_cons]
    constructor
    · intro hx
      refine ⟨?_, .inr hx⟩
      rintro rfl
      exact (List.nodup_cons.mp hnodup).1 hx
    · rintro ⟨hne, rfl | hx⟩
      · exact absurd rfl hne
      · exact hx
  · show c.slots.length = maxClients
    rw [hsize, hs.size]
  · intro x hx
    exact hs.small x (hitems.mem_iff.mpr (List.mem_cons_of_mem _ hx))

theorem passRound_spec {total : Nat → Nat} (p : Pass) (h : PassInv ready total p) :
    (∃ r, passRound ready k p = .done r ∧ Inv r.2 ∧ ∀ fd, r.1.count (.read fd) = total fd) ∨
    ∃ p', passRound ready k p = .again p' ∧ PassInv ready total p' ∧
      p'.state.clients.count - p'.i < p.state.clients.count - p.i := by
  obtain ⟨hs, hle, hreads⟩ := h
  unfold passRound
  split
  · next hi =>
    right
    obtain ⟨fd, hslot, hdrop⟩ := drop_items hs hi
    rw [hslot]
    dsimp only
    split
    · next hready =>
      split
      · obtain ⟨c, hc, hsize, hcount, htake, hperm⟩ := Filled.moveLast_items hs.fits hi
        rw [hc]
        refine ⟨_, rfl, ⟨inv_close hs hdrop hsize hcount htake hperm, ?_, ?_⟩, ?_⟩
        · show p.i ≤ c.count
          omega
        · intro x
          -- the clients behind the closed one, in another order
          rw [← hreads x, ← @count_read ready p fd hdrop hready (.close fd) nofun x]
          show _ + (if x ∈ ready then (c.items.drop p.i).count x else 0) = _
          rw [hperm.count_eq]
          rfl
        · show c.count - p.i < _
          omega
      · refine ⟨_, rfl, ⟨hs, hi, ?_⟩, ?_⟩
        · intro x
          rw [← hreads x]
          refine count_read hdrop hready ?_ x
          exact nofun
        · show p.state.clients.count - (p.i + 1) < _
          omega
    · next hready =>
      refine ⟨_, rfl, ⟨hs, hi, ?_⟩, ?_⟩
      · intro x
        rw [← hreads x, due_eq hdrop x, if_neg (by rintro ⟨hx, rfl⟩; exact hready hx), Nat.zero_add]
        rfl
      · show p.state.clients.count - (p.i + 1) < _
        omega
  · next hi =>
    left
    refine ⟨_, rfl, hs, ?_⟩
    intro x
    have hend : p.state.clients.items.length ≤ p.i := by
      rw [Filled.length_items hs.fits]
      omega
    rw [← hreads x, due, List.drop_of_length_le hend]
    simp

/-- The pass reads each listed client that `select` has reported. -/
theorem pass_spec (hs : Inv s) :
    ∃ r, pass ready k calls s = some r ∧ Inv r.2 ∧
      ∀ fd, r.1.count (.read fd) =
        calls.count (.read fd) + if fd ∈ ready then s.clients.items.count fd else 0 := by
  obtain ⟨r, hr, hpost⟩ := rounds_done
    (fun p : Pass => p.state.clients.count - p.i) passRound_spec
    (s.clients.count + 1) ⟨0, 0, calls, s⟩
    ⟨hs, Nat.zero_le _, fun fd => rfl⟩ (Nat.lt_succ_of_le (Nat.sub_le _ _))
  refine ⟨r, ?_, hpost⟩
  rw [pass, hr]

/-! ## Iterations and runs -/

/-- One iteration is defined, keeps the list, and reads each client that is reported once. -/
theorem step_spec (hs : Inv s) (hp : Promised serverFd s k) (hfd : serverFd < fdSetsize) :
    ∃ calls s', step serverFd s k = some (calls, s') ∧ Inv s' ∧
      ∀ ready, k.select = .ready ready → ∀ fd,
        calls.count (.read fd) = if fd ∈ s.clients.items ∧ fd ∈ ready then 1 else 0 := by
  obtain ⟨w, hw, hmem, -⟩ := watch_some hs hfd
  unfold step
  rw [hw, Option.bind_some]
  rcases hk : k.select with _ | _ | ready
  · exact ⟨[], s, rfl, hs, nofun⟩
  · exact ⟨[], s, rfl, hs, nofun⟩
  · have hready : ∀ fd ∈ ready, fd = serverFd ∨ fd ∈ s.clients.items := by
      intro fd hin
      exact (hmem fd).mp (hp.2 ready (by rw [hk]; rfl) w hw hin)
    obtain ⟨calls, s1, haccept, hs1, hnone, hsame⟩ := acceptClient_spec hs hp hready
    obtain ⟨r, hpass, hs2, hcount⟩ : ∃ r, pass ready k calls s1 = some r ∧ _ := pass_spec hs1
    refine ⟨r.1, r.2, ?_, hs2, ?_⟩
    · dsimp only
      rw [haccept]
      exact hpass
    · intro ready' heq fd
      cases heq
      rw [hcount fd, hnone fd, Nat.zero_add]
      by_cases hin : fd ∈ ready
      · rw [if_pos hin, hsame fd hin, hs.nodup.count]
        simp [hin]
      · simp [hin]

/-- An iteration that is defined has a listening socket that fits into the set. -/
theorem lt_of_step (h : step serverFd s k = some (calls, s')) : serverFd < fdSetsize := by
  unfold step at h
  obtain ⟨w, hw, -⟩ := Option.bind_eq_some_iff.mp h
  exact lt_of_watch hw

theorem inv_step (hs : Inv s) (hp : Promised serverFd s k)
    (h : step serverFd s k = some (calls, s')) : Inv s' := by
  obtain ⟨calls1, s1, hstep, hs1, -⟩ := step_spec hs hp (lt_of_step h)
  rw [hstep] at h
  cases h
  exact hs1

end SelectServer
