import LinuxHandson.Memfs.Proofs.TableProofs

/-!
# Proofs: names as keys of the table

A search compares the full path with the stored name, and the stored name is a copy of at most 255
bytes. A run is followed together with the entries that its successful `memfs_create` and
`memfs_mkdir` calls have made and that have not been removed since.
-/

namespace Memfs

open CLib

/-- The table, and for each path made and not removed since the slot its call has filled. -/
structure Tracked where
  table : Table
  live : List (CStr × Fin maxFiles)

/-- The state before the first call. -/
def Tracked.init : Tracked := ⟨Table.init, []⟩

/-- What a call that answers `r` in table `t` does to the paths made and not removed since. -/
def track (t : Table) (c : Call) (r : Reply) (live : List (CStr × Fin maxFiles)) :
    List (CStr × Fin maxFiles) :=
  match c with
  | .query _ _ => live
  | .op c =>
    if r.ret = 0 then
      match c.op.makes, freeSlot t with
      | some (p, _), some i => (p, i) :: live
      | some _, none => live
      | none, _ =>
        match c.op.removes with
        | some p => live.filter fun e => e.1 ≠ p
        | none => live
    else live

/-- One call of any handler. -/
def trackedStep : Machine.Step Tracked Call Reply := fun s c =>
  (step s.table c).map fun r => (r.1, ⟨r.2, track s.table c r.1 s.live⟩)

/-- No two used entries have the same name, and every path made and not removed since is found as
the entry its call made. -/
def KeysOk (s : Tracked) : Prop :=
  NamesUnique s.table ∧ ∀ p i, (p, i) ∈ s.live → findEntry s.table p = some i

/-- A call that makes an entry has a path of at most 255 bytes, or finds the table full. -/
def KeyFits (s : Tracked) (c : Call) : Prop :=
  ∀ o p d, c = .op o → o.op.makes = some (p, d) →
    strlen p ≤ maxNameLen ∨ freeSlot s.table = none

/-- All names fit their buffer. -/
def NamesFit (s : Tracked) : Prop := ∀ i, strlen (s.table i).name ≤ maxNameLen

theorem namesFit_init : NamesFit Tracked.init := fun _ => Nat.zero_le _

theorem keysOk_init : KeysOk Tracked.init :=
  ⟨fun i j hi => absurd hi (by simp [Tracked.init, Table.init, MemfsEntry.zero]),
    fun p i h => absurd h List.not_mem_nil⟩

theorem trackedStep_cases {s s' : Tracked} {c : Call} {r : Reply}
    (h : trackedStep s c = some (r, s')) :
    (∃ q env, c = .query q env ∧ s' = s) ∨
    (∃ o, c = .op o ∧ Effect s.table o r s'.table ∧
      s'.live = track s.table (.op o) r s.live) := by
  simp only [trackedStep, Option.map_eq_some_iff, Prod.mk.injEq] at h
  obtain ⟨⟨r', t'⟩, hs, rfl, rfl⟩ := h
  cases c with
  | query q env =>
    simp only [step, Option.some.injEq, Prod.mk.injEq] at hs
    obtain ⟨rfl, rfl⟩ := hs
    exact Or.inl ⟨q, env, rfl, rfl⟩
  | op o => exact Or.inr ⟨o, rfl, opStep_effect hs, rfl⟩

theorem track_keep {t : Table} {o : OpCall} {r : Reply} (live : List (CStr × Fin maxFiles))
    (hm : o.op.makes ≠ none → r.ret ≠ 0) (hr : o.op.removes ≠ none → r.ret ≠ 0) :
    track t (.op o) r live = live := by
  unfold track
  by_cases h0 : r.ret = 0
  · have h1 : o.op.makes = none := by
      by_contra hc
      exact hm hc h0
    have h2 : o.op.removes = none := by
      by_contra hc
      exact hr hc h0
    simp [h0, h1, h2]
  · simp [h0]

theorem track_make {t : Table} {o : OpCall} {r : Reply} {p : CStr} {d : Bool} {i : Fin maxFiles}
    (live : List (CStr × Fin maxFiles)) (hop : o.op.makes = some (p, d)) (hret : r.ret = 0)
    (hfree : freeSlot t = some i) : track t (.op o) r live = (p, i) :: live := by
  simp [track, hret, hop, hfree]

theorem track_remove {t : Table} {o : OpCall} {r : Reply} {p : CStr}
    (live : List (CStr × Fin maxFiles)) (hop : o.op.removes = some p) (hret : r.ret = 0) :
    track t (.op o) r live = live.filter fun e => e.1 ≠ p := by
  have hm : o.op.makes = none := by
    cases ho : o.op with
    | unlink q => rfl
    | rmdir q => rfl
    | _ => rw [ho] at hop; cases hop
  simp [track, hret, hop, hm]

/-- Names fit their buffers after every call, whatever the path. -/
theorem namesFit_step (s : Tracked) (c : Call) (r : Reply) (s' : Tracked) (hs : NamesFit s)
    (h : trackedStep s c = some (r, s')) : NamesFit s' := by
  rcases trackedStep_cases h with ⟨_, _, _, rfl⟩ | ⟨o, rfl, he, _⟩
  · exact hs
  · intro j
    cases he with
    | keep hk hm hr =>
      rw [(hk j).2.1]
      exact hs j
    | make p d mode i hop hret hnew hfree ht =>
      rw [ht]
      by_cases hj : j = i
      · rw [hj, Function.update_self]
        exact strlen_strncpy_le p maxNameLen
      · rw [Function.update_of_ne hj]
        exact hs j
    | remove p i hop hret hold hempty ht =>
      rw [ht, dropEntry]
      by_cases hj : j = i
      · rw [hj, Function.update_self]
        exact hs i
      · rw [Function.update_of_ne hj]
        exact hs j

/-- A search only looks at names and used flags. -/
theorem findEntry_congr {t t' : Table} (h : ∀ i, SameShape (t i) (t' i)) (p : CStr) :
    findEntry t' p = findEntry t p := by
  unfold findEntry SlotTable.first
  congr 1
  funext i
  simp only [(h i).1, (h i).2.1]

theorem NamesUnique.congr {t t' : Table} (hu : NamesUnique t) (h : ∀ i, SameShape (t i) (t' i)) :
    NamesUnique t' := by
  intro i j hi hj hij
  rw [(h i).1] at hi
  rw [(h j).1] at hj
  rw [(h i).2.1, (h j).2.1] at hij
  exact hu i j hi hj hij

/-- A call whose path fits keeps the names unique and every made path found. -/
theorem keysOk_step (s : Tracked) (c : Call) (r : Reply) (s' : Tracked) (hk : KeysOk s)
    (hfit : KeyFits s c) (h : trackedStep s c = some (r, s')) : KeysOk s' := by
  rcases trackedStep_cases h with ⟨_, _, _, rfl⟩ | ⟨o, rfl, he, hlive⟩
  · exact hk
  · obtain ⟨hu, hl⟩ := hk
    cases he with
    | keep hs hm hr =>
      rw [track_keep s.live hm hr] at hlive
      refine ⟨hu.congr hs, fun p i hp => ?_⟩
      rw [findEntry_congr hs]
      exact hl p i (hlive ▸ hp)
    | make p d mode i hop hret hnew hfree ht =>
      have hname : (newEntry o.env p d mode).name = p := by
        rcases hfit o p d rfl hop with hp | hnone
        · exact strncpy_of_le hp
        · rw [hnone] at hfree
          cases hfree
      have hunused := freeSlot_some hfree
      have hnames : NamesUnique s'.table := by
        rw [ht]
        exact hu.update fun _ j _ hju hjn => findEntry_eq_none.mp hnew j hju (hjn.trans hname)
      refine ⟨hnames, fun q j hq => ?_⟩
      rw [hlive, track_make s.live hop hret hfree] at hq
      rw [hnames.findEntry_iff, ht]
      rcases List.mem_cons.mp hq with hq | hq
      · obtain ⟨rfl, rfl⟩ := Prod.mk.inj hq
        rw [Function.update_self]
        exact ⟨rfl, hname⟩
      · obtain ⟨h1, h2⟩ := findEntry_some (hl q j hq)
        have hji : j ≠ i := by
          rintro rfl
          exact absurd (h1.symm.trans hunused) (by decide)
        rw [Function.update_of_ne hji]
        exact ⟨h1, h2⟩
    | remove p i hop hret hold hempty ht =>
      have hnames : NamesUnique s'.table := by
        rw [ht]
        exact hu.update fun hc => by cases hc
      refine ⟨hnames, fun q j hq => ?_⟩
      rw [hlive, track_remove s.live hop hret, List.mem_filter] at hq
      obtain ⟨hq, hqp⟩ := hq
      obtain ⟨h1, h2⟩ := findEntry_some (hl q j hq)
      have hji : j ≠ i := by
        rintro rfl
        have := h2.symm.trans (findEntry_some hold).2
        simp [this] at hqp
      rw [hnames.findEntry_iff, ht, dropEntry, Function.update_of_ne hji]
      exact ⟨h1, h2⟩

/-- A call that makes an entry for a path that does not fit, with a slot free, makes an entry that
the path does not find. -/
theorem keyFits_of_keysOk (s : Tracked) (c : Call) (hs : NamesFit s)
    (h : ∀ r s', trackedStep s c = some (r, s') → KeysOk s') : KeyFits s c := by
  rintro o p d rfl hop
  by_contra hc
  rw [not_or] at hc
  obtain ⟨hlong, hfree⟩ := hc
  obtain ⟨i, hi⟩ := Option.ne_none_iff_exists'.mp hfree
  have hnone : findEntry s.table p = none := by
    rw [findEntry_eq_none]
    rintro j _ rfl
    exact hlong (hs j)
  have hmake : ∃ mode, opStep s.table o =
      some (⟨0, .nothing⟩, Function.update s.table i (newEntry o.env p d mode)) := by
    obtain ⟨op, env⟩ := o
    cases op with
    | create q mode =>
      obtain ⟨rfl, rfl⟩ := Prod.mk.inj (Option.some.inj hop)
      exact ⟨mode, by simp only [opStep, memfsCreate_eq, makeEntry, hnone, hi]⟩
    | mkdir q mode =>
      obtain ⟨rfl, rfl⟩ := Prod.mk.inj (Option.some.inj hop)
      exact ⟨mode, by simp only [opStep, memfsMkdir_eq, makeEntry, hnone, hi]⟩
    | _ => cases hop
  obtain ⟨mode, hmake⟩ := hmake
  have hstep : trackedStep s (.op o) = some (⟨0, .nothing⟩,
      ⟨Function.update s.table i (newEntry o.env p d mode), (p, i) :: s.live⟩) := by
    have htrack := track_make (r := ⟨0, .nothing⟩) s.live hop rfl hi
    simp only [trackedStep, step, hmake, Option.map_some, htrack]
  have hfound := (h _ _ hstep).2 p i (List.mem_cons_self ..)
  have hname : (Function.update s.table i (newEntry o.env p d mode) i).name = p :=
    (findEntry_some hfound).2
  rw [Function.update_self] at hname
  have hlen := strlen_strncpy_le p maxNameLen
  exact hlong (by rw [← hname]; exact hlen)

/-- Names stay unique and every made path stays found in every state of a run exactly when no call
makes an entry for a path of more than 255 bytes while a slot is free. -/
theorem keysOk_always_iff (cs : List Call) :
    Machine.Always trackedStep KeysOk Tracked.init cs ↔
      Machine.Legal trackedStep KeyFits Tracked.init cs :=
  ⟨Machine.Always.legal namesFit_step keyFits_of_keysOk cs Tracked.init namesFit_init,
    Machine.Legal.always keysOk_step cs Tracked.init keysOk_init⟩

/-- A directory with a name of 200 bytes and, twice, a file with a name of 100 bytes in it: both
calls succeed, and neither entry is found. -/
theorem keysOk_long_path :
    let env : Env := ⟨0, 0, 0, true, fun _ => 0⟩
    let d : CStr := ⟨slash :: List.replicate 200 0x61, by decide +kernel⟩
    let f : CStr := ⟨d.bytes ++ slash :: List.replicate 100 0x62, by decide +kernel⟩
    let run : List Call := [.op ⟨.mkdir d 0o755, env⟩, .op ⟨.create f 0o644, env⟩,
      .op ⟨.create f 0o644, env⟩]
    (Machine.exec trackedStep Tracked.init run).map
        (fun x => (x.1, findEntry x.2.table f)) =
      some ([⟨0, .nothing⟩, ⟨0, .nothing⟩, ⟨0, .nothing⟩], none) ∧
      ¬ Machine.Always trackedStep KeysOk Tracked.init run := by
  intro env d f run
  have hlive : ∀ s, KeysOk s → ∀ e ∈ s.live, findEntry s.table e.1 = some e.2 :=
    fun s hs e he => hs.2 e.1 e.2 he
  refine ⟨by decide +kernel, fun h => absurd (Machine.Always.mono hlive run _ h) ?_⟩
  decide +kernel

end Memfs
