import LinuxHandson.Memfs.Paths
import LinuxHandson.Memfs.Proofs.TableProofs

/-!
# Proofs: the directory tree in the flat table

As long as entries are only made in existing directories, the parent of every entry is there.
Then the test for direct children in `memfs_readdir` and the test for any descendant in
`memfs_rmdir` agree on which directories are empty.
-/

namespace Memfs

open CLib

/-- A directory of the filesystem: `"/"` or the name of a used directory entry. -/
def IsDirectory (t : Table) (d : CStr) : Prop :=
  d = root ∨ ∃ j, (t j).used = true ∧ (t j).isDir = true ∧ (t j).name = d

/-- What the kernel guarantees when it makes an entry: a normalised path of at most 255 bytes whose
parent is a directory. -/
def MakesInDirectory (t : Table) (c : Call) : Prop :=
  ∀ o p d, c = .op o → o.op.makes = some (p, d) →
    Normalised p ∧ strlen p ≤ maxNameLen ∧ IsDirectory t (parent p)

/-- The names are the paths of a tree of directories. -/
structure TreeInv (t : Table) : Prop where
  names : NamesUnique t
  normalised : ∀ i, (t i).used = true → Normalised (t i).name
  parents : ∀ i, (t i).used = true → IsDirectory t (parent (t i).name)

theorem treeInv_init : TreeInv Table.init where
  names := fun i j hi => absurd hi (by simp [Table.init, MemfsEntry.zero])
  normalised := fun i hi => absurd hi (by simp [Table.init, MemfsEntry.zero])
  parents := fun i hi => absurd hi (by simp [Table.init, MemfsEntry.zero])

/-! ## The invariant -/

theorem treeInv_keep {t t' : Table} (h : TreeInv t) (hs : ∀ i, SameShape (t i) (t' i)) :
    TreeInv t' := by
  refine ⟨fun i j hi hj hij => ?_, fun i hi => ?_, fun i hi => ?_⟩
  · rw [(hs i).1] at hi
    rw [(hs j).1] at hj
    rw [(hs i).2.1, (hs j).2.1] at hij
    exact h.names i j hi hj hij
  · rw [(hs i).1] at hi
    rw [(hs i).2.1]
    exact h.normalised i hi
  · rw [(hs i).1] at hi
    rw [(hs i).2.1]
    rcases h.parents i hi with hr | ⟨j, hj, hd, hn⟩
    · exact Or.inl hr
    · exact Or.inr ⟨j, (hs j).1.trans hj, (hs j).2.2.trans hd, (hs j).2.1.trans hn⟩

theorem treeInv_make {t : Table} (h : TreeInv t) {p : CStr} {i : Fin maxFiles} {e : MemfsEntry}
    (hnew : findEntry t p = none) (hfree : freeSlot t = some i)
    (hname : e.name = p) (hnorm : Normalised p) (hpar : IsDirectory t (parent p)) :
    TreeInv (Function.update t i e) := by
  have hunused := freeSlot_some hfree
  -- the directories are still there: their slots are used, slot `i` was free
  have hdirs : ∀ d, IsDirectory t d → IsDirectory (Function.update t i e) d := by
    rintro d (hr | ⟨j, hj, hd, hn⟩)
    · exact Or.inl hr
    · have hji : j ≠ i := by
        rintro rfl
        exact absurd (hj.symm.trans hunused) (by decide)
      exact Or.inr ⟨j, by rw [Function.update_of_ne hji]; exact ⟨hj, hd, hn⟩⟩
  refine ⟨?_, fun j hj => ?_, fun j hj => ?_⟩
  · exact h.names.update fun _ j _ hju hjn => findEntry_eq_none.mp hnew j hju (hjn.trans hname)
  · by_cases hji : j = i
    · subst hji
      rw [Function.update_self, hname]
      exact hnorm
    · rw [Function.update_of_ne hji] at hj ⊢
      exact h.normalised j hj
  · by_cases hji : j = i
    · subst hji
      rw [Function.update_self, hname]
      exact hdirs _ hpar
    · rw [Function.update_of_ne hji] at hj ⊢
      exact hdirs _ (h.parents j hj)

theorem treeInv_remove {t : Table} (h : TreeInv t) {p : CStr} {i : Fin maxFiles}
    (hold : findEntry t p = some i)
    (hempty : (t i).isDir = true → ∀ j, rmdirBlocks t p i j = false) : TreeInv (dropEntry t i) := by
  have hne : ∀ j, (dropEntry t i j).used = true → j ≠ i := by
    rintro j hj rfl
    rw [dropEntry, Function.update_self] at hj
    cases hj
  have hother : ∀ j, j ≠ i → dropEntry t i j = t j := fun j hj => Function.update_of_ne hj _ _
  refine ⟨h.names.update fun hc => by (cases hc), fun j hj => ?_, fun j hj => ?_⟩
  · have hji := hne j hj
    rw [hother j hji] at hj ⊢
    exact h.normalised j hj
  · have hji := hne j hj
    rw [hother j hji] at hj ⊢
    rcases h.parents j hj with hr | ⟨k, hk, hd, hn⟩
    · exact Or.inl hr
    · refine Or.inr ⟨k, ?_⟩
      -- the removed entry is not the parent: it is a file, or a directory nothing lies below
      have hki : k ≠ i := by
        rintro rfl
        obtain ⟨he, -, -⟩ := (h.normalised j hj).isEntry
        have hpn : parent (t j).name = p := hn.symm.trans (findEntry_some hold).2
        have hpr : p ≠ root := by
          rw [← (findEntry_some hold).2]
          exact (h.normalised k hk).ne_root
        have hpre : p.bytes ++ [slash] <+: (t j).name.bytes := by
          have h1 := he.1
          rw [hpn, stem, if_neg hpr] at h1
          exact ⟨(base (t j).name).bytes, by rw [h1, List.append_assoc]; rfl⟩
        have := hempty hd j
        rw [rmdirBlocks_iff.mpr ⟨hj, hji, hpre⟩] at this
        cases this
      rw [hother k hki]
      exact ⟨hk, hd, hn⟩

/-- Every call keeps the tree, if it only makes entries in directories. -/
theorem treeInv_step (t : Table) (c : Call) (r : Reply) (t' : Table) (h : TreeInv t)
    (hg : MakesInDirectory t c) (hs : step t c = some (r, t')) : TreeInv t' := by
  cases c with
  | query q env =>
    simp only [step, Option.some.injEq, Prod.mk.injEq] at hs
    obtain ⟨-, rfl⟩ := hs
    exact h
  | op o =>
    cases opStep_effect hs with
    | keep hk hm hr => exact treeInv_keep h hk
    | make p d mode i hop hret hnew hfree ht =>
      obtain ⟨hnorm, hlen, hpar⟩ := hg o p d rfl hop
      rw [ht]
      exact treeInv_make h hnew hfree (strncpy_of_le hlen) hnorm hpar
    | remove p i hop hret hold hempty ht =>
      rw [ht]
      exact treeInv_remove h hold hempty

/-! ## Listing and removing directories -/

/-- `memfs_readdir` emits a used entry from the directory it is an entry of, under its base. -/
theorem readdirEmit_iff {d : CStr} {e : MemfsEntry} (hu : e.used = true) {n : CStr} :
    readdirEmit d e = some n ↔ IsEntry d n.bytes e.name := by
  have hslash : slash ≠ 0 := by decide
  have hsplit : ∀ (q : List UInt8) (k : Nat), q.length = k →
      ((q ++ [slash] <+: e.name.bytes ∧ slash ∉ (e.name.offset (k + 1)).bytes ∧
        e.name.offset (k + 1) = n) ↔
        (e.name.bytes = q ++ slash :: n.bytes ∧ slash ∉ n.bytes)) := by
    rintro q k rfl
    constructor
    · rintro ⟨⟨r, hr⟩, hns, hn⟩
      have hoff : (e.name.offset (q.length + 1)).bytes = r := by
        rw [CStr.offset_bytes, ← hr, List.drop_left' (by simp)]
      rw [← hn]
      refine ⟨?_, hns⟩
      rw [hoff, ← hr, List.append_assoc]
      rfl
    · rintro ⟨he, hns⟩
      have hoff : e.name.offset (q.length + 1) = n := by
        apply CStr.ext_bytes
        rw [CStr.offset_bytes, he]
        have : q ++ slash :: n.bytes = (q ++ [slash]) ++ n.bytes := by simp
        rw [this, List.drop_left' (by simp)]
      refine ⟨⟨n.bytes, by rw [he]; simp⟩, ?_, hoff⟩
      rw [hoff]
      exact hns
  unfold readdirEmit IsEntry
  rw [if_neg (by simp [hu])]
  by_cases hr : d = root
  · rw [if_pos (strcmp_eq_zero.mpr hr), hr, stem_root]
    have hfirst : e.name.charAt 0 = slash ↔ [] ++ [slash] <+: e.name.bytes := by
      have := strncmp_charAt_iff (s := e.name) (t := ⟨[], List.not_mem_nil⟩) hslash
      rw [← this]
      simp [strlen, strncmp, cmpBytes]
    rw [Option.ite_none_right_eq_some, Option.some.injEq, ← hsplit [] 0 rfl, hfirst,
      strchr_eq_none, and_assoc]
  · rw [if_neg (fun h => hr (strcmp_eq_zero.mp h)), stem, if_neg hr, ← hsplit d.bytes (strlen d) rfl,
      Option.ite_none_right_eq_some, Option.some.injEq, ← and_assoc, ← and_assoc,
      strncmp_charAt_iff hslash, strchr_eq_none, and_assoc]

section Tree

variable {t : Table} (h : TreeInv t)
include h

theorem TreeInv.directory_ne_nil {d : CStr} (hd : IsDirectory t d) : d.bytes ≠ [] := by
  rcases hd with rfl | ⟨j, hj, -, rfl⟩
  · decide
  · exact (h.normalised j hj).ne_nil

/-- A used entry is emitted from its parent only, under its base. -/
theorem TreeInv.readdirEmit_eq {i : Fin maxFiles} (hi : (t i).used = true) {d : CStr}
    (hd : IsDirectory t d) :
    readdirEmit d (t i) = if d = parent (t i).name then some (base (t i).name) else none := by
  obtain ⟨he, -, -⟩ := (h.normalised i hi).isEntry
  by_cases hp : d = parent (t i).name
  · rw [if_pos hp, hp]
    exact (readdirEmit_iff hi).mpr he
  · rw [if_neg hp]
    by_contra hc
    obtain ⟨n, hn⟩ := Option.ne_none_iff_exists'.mp hc
    have hen := (readdirEmit_iff hi).mp hn
    exact hp (hen.parent_eq (h.directory_ne_nil hd)).symm

/-- The names listed for a directory are the bases of the entries it is the parent of. -/
theorem TreeInv.mem_readdir_iff {d n : CStr} (hd : IsDirectory t d) :
    n ∈ (memfsReaddir t d).2 ↔
      n = dot ∨ n = dotdot ∨ ∃ i, (t i).used = true ∧ parent (t i).name = d ∧ base (t i).name = n := by
  simp only [memfsReaddir, List.mem_cons, List.mem_filterMap, List.mem_finRange, true_and]
  constructor
  · rintro (hn | hn | ⟨i, hn⟩)
    · exact Or.inl hn
    · exact Or.inr (Or.inl hn)
    · have hu : (t i).used = true := by
        cases hu : (t i).used with
        | true => rfl
        | false => simp [readdirEmit, hu] at hn
      rw [h.readdirEmit_eq hu hd] at hn
      split at hn
      · next hp => exact Or.inr (Or.inr ⟨i, hu, hp.symm, Option.some.inj hn⟩)
      · cases hn
  · rintro (hn | hn | ⟨i, hu, hp, hb⟩)
    · exact Or.inl hn
    · exact Or.inr (Or.inl hn)
    · refine Or.inr (Or.inr ⟨i, ?_⟩)
      rw [h.readdirEmit_eq hu hd, if_pos hp.symm, hb]

/-- The names listed for a directory are pairwise different. -/
theorem TreeInv.readdir_nodup (d : CStr) : (memfsReaddir t d).2.Nodup := by
  have hused : ∀ i n, readdirEmit d (t i) = some n → (t i).used = true := by
    intro i n hn
    cases hu : (t i).used with
    | true => rfl
    | false => simp [readdirEmit, hu] at hn
  have hdots : ∀ i n, readdirEmit d (t i) = some n → n ≠ dot ∧ n ≠ dotdot := by
    intro i n hn
    have hu := hused i n hn
    have hb := ((readdirEmit_iff hu).mp hn).base_eq
    obtain ⟨-, hc, -⟩ := (h.normalised i hu).isEntry
    rw [hb] at hc
    exact ⟨fun he => hc.2.2.1 (congrArg CStr.bytes he), fun he => hc.2.2.2 (congrArg CStr.bytes he)⟩
  have hrest : ((List.finRange maxFiles).filterMap fun i => readdirEmit d (t i)).Nodup := by
    refine List.Nodup.filterMap ?_ (List.nodup_finRange maxFiles)
    intro i j n hi hj
    have hui := hused i n hi
    have huj := hused j n hj
    have h1 := ((readdirEmit_iff hui).mp hi).1
    have h2 := ((readdirEmit_iff huj).mp hj).1
    exact h.names i j hui huj (CStr.ext_bytes (h1.trans h2.symm))
  have hnot : ∀ n, n ∈ ((List.finRange maxFiles).filterMap fun i => readdirEmit d (t i)) →
      n ≠ dot ∧ n ≠ dotdot := by
    intro n hn
    obtain ⟨i, -, hi⟩ := List.mem_filterMap.mp hn
    exact hdots i n hi
  simp only [memfsReaddir, List.nodup_cons, List.mem_cons, not_or]
  exact ⟨⟨by decide, fun hm => (hnot _ hm).1 rfl⟩, fun hm => (hnot _ hm).2 rfl, hrest⟩

/-- If some entry lies below a directory entry, some entry lies directly in it. -/
theorem TreeInv.exists_child {i : Fin maxFiles} (hi : (t i).used = true) :
    ∀ (n : Nat) (j : Fin maxFiles), (t j).used = true → strlen (t j).name = n →
      (t i).name.bytes ++ [slash] <+: (t j).name.bytes →
      ∃ k, (t k).used = true ∧ parent (t k).name = (t i).name := by
  intro n
  induction n using Nat.strong_induction_on with
  | _ n ih =>
    intro j hj hn hpre
    by_cases hp : parent (t j).name = (t i).name
    · exact ⟨j, hj, hp⟩
    · -- otherwise the parent lies below it too, and its path is shorter
      obtain ⟨he, hc, -⟩ := (h.normalised j hj).isEntry
      have hne := (h.normalised i hi).ne_nil
      rw [he.1] at hpre
      rcases prefix_split he.2 hpre with hd | hd
      · have hr : parent (t j).name ≠ root := by
          intro hr
          rw [hr, stem_root] at hd
          exact hne hd
        rw [stem, if_neg hr] at hd
        exact absurd (CStr.ext_bytes hd.symm) hp
      · have hr : parent (t j).name ≠ root := by
          intro hr
          rw [hr, stem_root] at hd
          simp at hd
        have hs : stem (parent (t j).name) = (parent (t j).name).bytes := if_neg hr
        rw [hs] at hd
        rcases h.parents j hj with hr' | ⟨k, hk, -, hkn⟩
        · exact absurd hr' hr
        · refine ih (strlen (t k).name) ?_ k hk rfl (by rw [hkn]; exact hd)
          rw [← hn, hkn, strlen, strlen, he.1, hs, List.length_append, List.length_cons]
          omega

/-- `memfs_rmdir` succeeds on a directory entry exactly when `memfs_readdir` lists only the dots. -/
theorem TreeInv.rmdir_iff {d : CStr} {i : Fin maxFiles} (hf : findEntry t d = some i)
    (hdir : (t i).isDir = true) :
    (memfsRmdir t d).1 = 0 ↔ ∀ n ∈ (memfsReaddir t d).2, n = dot ∨ n = dotdot := by
  obtain ⟨hu, hname⟩ := findEntry_some hf
  have hd : IsDirectory t d := Or.inr ⟨i, hu, hdir, hname⟩
  constructor
  · intro h0 n hn
    rcases (h.mem_readdir_iff hd).mp hn with hn | hn | ⟨j, hj, hp, -⟩
    · exact Or.inl hn
    · exact Or.inr hn
    · -- an entry whose parent is `d` would have blocked the removal
      obtain ⟨he, -, -⟩ := (h.normalised j hj).isEntry
      have hdr : d ≠ root := by
        rw [← hname]
        exact (h.normalised i hu).ne_root
      have hpre : d.bytes ++ [slash] <+: (t j).name.bytes := by
        have h1 := he.1
        rw [hp, stem, if_neg hdr] at h1
        exact ⟨(base (t j).name).bytes, by rw [h1, List.append_assoc]; rfl⟩
      have hji : j ≠ i := by
        rintro rfl
        have hl := hpre.length_le
        rw [hname, List.length_append, List.length_singleton] at hl
        omega
      rw [memfsRmdir_blocked hf hdir (rmdirBlocks_iff.mpr ⟨hj, hji, hpre⟩)] at h0
      exact absurd h0 ENOTEMPTY_ne
  · intro hdots
    have hno : ∀ j, rmdirBlocks t d i j = false := by
      intro j
      by_contra hb
      obtain ⟨hj, -, hpre⟩ := rmdirBlocks_iff.mp (Bool.eq_true_of_not_eq_false hb)
      rw [← hname] at hpre
      obtain ⟨k, hk, hp⟩ := h.exists_child hu _ j hj rfl hpre
      have hmem := (h.mem_readdir_iff hd).mpr (Or.inr (Or.inr ⟨k, hk, hp.trans hname, rfl⟩))
      obtain ⟨-, hc, -⟩ := (h.normalised k hk).isEntry
      rcases hdots _ hmem with hn | hn
      · exact hc.2.2.1 (congrArg CStr.bytes hn)
      · exact hc.2.2.2 (congrArg CStr.bytes hn)
    rw [memfsRmdir_empty hf hdir hno]

end Tree

/-- In every state that a run reaches whose `memfs_create` and `memfs_mkdir` calls name normalised
paths in existing directories: the parent of every entry is a directory; the entry is emitted by
`memfs_readdir` of that directory only, under its base, and once; and `memfs_rmdir` succeeds on a
directory entry exactly when `memfs_readdir` lists nothing in it. -/
theorem memfs_tree (t : Table) (hr : Machine.Reach step MakesInDirectory Table.init t) :
    (∀ i, (t i).used = true →
      IsDirectory t (parent (t i).name) ∧
      (∀ d, IsDirectory t d → readdirEmit d (t i) =
        if d = parent (t i).name then some (base (t i).name) else none) ∧
      (memfsReaddir t (parent (t i).name)).2.count (base (t i).name) = 1) ∧
    (∀ d i, findEntry t d = some i → (t i).isDir = true →
      ((memfsRmdir t d).1 = 0 ↔ ∀ n ∈ (memfsReaddir t d).2, n = dot ∨ n = dotdot)) := by
  have h : TreeInv t := hr.invariant treeInv_init treeInv_step
  refine ⟨fun i hi => ⟨h.parents i hi, fun d hd => h.readdirEmit_eq hi hd, ?_⟩,
    fun d i hf hd => h.rmdir_iff hf hd⟩
  refine List.count_eq_one_of_mem (h.readdir_nodup _) ?_
  exact (h.mem_readdir_iff (h.parents i hi)).mpr (Or.inr (Or.inr ⟨i, hi, rfl, rfl⟩))

/-- With the directory `/a`, the file `/a/b` in it and the file `/ab` beside it, `/a` is not empty. -/
theorem memfs_tree_run :
    let env : Env := ⟨0, 0, 0, true, fun _ => 0⟩
    let a : CStr := ⟨[slash, 0x61], by decide⟩
    let b : CStr := ⟨[slash, 0x61, slash, 0x62], by decide⟩
    let ab : CStr := ⟨[slash, 0x61, 0x62], by decide⟩
    let t := (memfsCreate env (memfsCreate env (memfsMkdir env Table.init a 0).2 ab 0).2 b 0).2
    ((memfsRmdir t a).1 = 0 ↔ ∀ n ∈ (memfsReaddir t a).2, n = dot ∨ n = dotdot) ∧
      (memfsRmdir t a).1 = -ENOTEMPTY := by
  intro env a b ab t
  have hreach : Machine.Reach step MakesInDirectory Table.init t := by
    refine .next (c := .op ⟨.create b 0, env⟩) (.next (c := .op ⟨.create ab 0, env⟩)
      (.next (c := .op ⟨.mkdir a 0, env⟩) .init ?_ rfl) ?_ rfl) ?_ rfl
    · rintro o p d ⟨⟩ ⟨⟩
      exact ⟨⟨[[0x61]], by simp, by decide, rfl⟩, by decide, Or.inl (by decide)⟩
    · rintro o p d ⟨⟩ ⟨⟩
      exact ⟨⟨[[0x61, 0x62]], by simp, by decide, rfl⟩, by decide, Or.inl (by decide)⟩
    · rintro o p d ⟨⟩ ⟨⟩
      exact ⟨⟨[[0x61], [0x62]], by simp, by decide, rfl⟩, by decide,
        Or.inr ⟨⟨0, by decide⟩, by decide +kernel⟩⟩
  exact ⟨(memfs_tree t hreach).2 a ⟨0, by decide⟩ (by decide +kernel) (by decide +kernel),
    by decide +kernel⟩

end Memfs
