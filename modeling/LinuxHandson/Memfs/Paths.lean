import Mathlib.Data.List.DropRight
import LinuxHandson.Memfs.Memfs

/-!
# Paths

The paths the kernel hands to a FUSE filesystem, and the directory and the last component of one.
-/

namespace Memfs

open CLib

/-- A component of a path: not empty, no slash, neither `"."` nor `".."`. -/
def Component (c : List UInt8) : Prop :=
  c ≠ [] ∧ slash ∉ c ∧ c ≠ dot.bytes ∧ c ≠ dotdot.bytes
deriving Decidable

/-- A normalised path other than `"/"`: components, each after one slash. -/
def Normalised (p : CStr) : Prop :=
  ∃ cs : List (List UInt8), cs ≠ [] ∧ (∀ c ∈ cs, Component c) ∧
    p.bytes = cs.flatMap fun c => slash :: c

/-- The last component of a path. -/
def base (p : CStr) : CStr where
  bytes := p.bytes.rtakeWhile (· != slash)
  nulFree := fun h => p.nulFree ((List.rtakeWhile_suffix _ _).subset h)

/-- What stands before the slash of the last component; `"/"` if nothing does. -/
def parent (p : CStr) : CStr :=
  if (p.bytes.rdropWhile (· != slash)).dropLast = [] then root
  else
    { bytes := (p.bytes.rdropWhile (· != slash)).dropLast
      nulFree := fun h => p.nulFree ((List.rdropWhile_prefix _ _).subset (List.mem_of_mem_dropLast h)) }

/-- What stands before the slash of a child of directory `d`. -/
def stem (d : CStr) : List UInt8 := if d = root then [] else d.bytes

/-- `p` is the path of the entry `b` of directory `d`. -/
def IsEntry (d : CStr) (b : List UInt8) (p : CStr) : Prop :=
  p.bytes = stem d ++ slash :: b ∧ slash ∉ b

theorem rdropWhile_eq {q b : List UInt8} (hb : slash ∉ b) :
    (q ++ slash :: b).rdropWhile (· != slash) = q ++ [slash] := by
  induction b using List.reverseRecOn with
  | nil => exact List.rdropWhile_concat_neg _ _ _ (by simp)
  | append_singleton b c ih =>
    rw [List.mem_append, not_or, List.mem_singleton] at hb
    have hc : (c != slash) = true := by simpa using Ne.symm hb.2
    have := List.rdropWhile_concat_pos (· != slash) (q ++ slash :: b) c hc
    rw [List.append_assoc, List.cons_append] at this
    rw [this, ih hb.1]

theorem rtakeWhile_eq {q b : List UInt8} (hb : slash ∉ b) :
    (q ++ slash :: b).rtakeWhile (· != slash) = b := by
  induction b using List.reverseRecOn with
  | nil => exact List.rtakeWhile_concat_neg _ _ _ (by simp)
  | append_singleton b c ih =>
    rw [List.mem_append, not_or, List.mem_singleton] at hb
    have hc : (c != slash) = true := by simpa using Ne.symm hb.2
    have := List.rtakeWhile_concat_pos (· != slash) (q ++ slash :: b) c hc
    rw [List.append_assoc, List.cons_append] at this
    rw [this, ih hb.1]

theorem stem_root : stem root = [] := if_pos rfl

/-- A prefix that ends in a slash reaches the last slash of a path or ends before it. -/
theorem prefix_split {d q b : List UInt8} (hb : slash ∉ b)
    (h : d ++ [slash] <+: q ++ slash :: b) : d = q ∨ d ++ [slash] <+: q := by
  obtain ⟨r, hr⟩ := h
  rw [List.append_assoc] at hr
  rcases List.append_eq_append_iff.mp hr with ⟨a, hq, ha⟩ | ⟨a, hd, ha⟩
  · cases a with
    | nil => exact Or.inl (by simpa using hq.symm)
    | cons x a =>
      have hx : slash = x := (List.cons.inj ha).1
      exact Or.inr ⟨a, by rw [hq, ← hx, List.append_assoc]; rfl⟩
  · cases a with
    | nil => exact Or.inl (by simpa using hd)
    | cons x a =>
      have hx : b = a ++ ([slash] ++ r) := (List.cons.inj ha).2
      exact absurd (by rw [hx]; simp) hb

/-- The base of the entry `b` of `d` is `b`, and its parent has the stem of `d`. -/
theorem IsEntry.base_eq {d p : CStr} {b : List UInt8} (h : IsEntry d b p) : (base p).bytes = b := by
  show p.bytes.rtakeWhile _ = b
  rw [h.1, rtakeWhile_eq h.2]

theorem IsEntry.parent_eq {d p : CStr} {b : List UInt8} (h : IsEntry d b p) (hd : d.bytes ≠ []) :
    parent p = d := by
  have hdrop : (p.bytes.rdropWhile (· != slash)).dropLast = stem d := by
    rw [h.1, rdropWhile_eq h.2, List.dropLast_concat]
  unfold parent
  by_cases hr : d = root
  · rw [if_pos (by rw [hdrop, hr, stem_root]), hr]
  · have hs : stem d = d.bytes := if_neg hr
    rw [if_neg (by rw [hdrop, hs]; exact hd)]
    exact CStr.ext_bytes (hdrop.trans hs)

/-- A normalised path is an entry of its parent, under its base, which is a component; the parent
is `"/"` or normalised itself. -/
theorem Normalised.isEntry {p : CStr} (h : Normalised p) :
    IsEntry (parent p) (base p).bytes p ∧ Component (base p).bytes ∧
      (parent p = root ∨ Normalised (parent p)) := by
  obtain ⟨cs, hne, hc, hp⟩ := h
  obtain ⟨cs', c, rfl⟩ := List.eq_nil_or_concat cs |>.resolve_left hne
  have hcomp : Component c := hc c (by simp)
  rw [List.concat_eq_append, List.flatMap_append, List.flatMap_singleton] at hp
  have hb : (base p).bytes = c := by
    show p.bytes.rtakeWhile _ = c
    rw [hp, rtakeWhile_eq hcomp.2.1]
  have hdrop : (p.bytes.rdropWhile (· != slash)).dropLast = cs'.flatMap fun c => slash :: c := by
    rw [hp, rdropWhile_eq hcomp.2.1, List.dropLast_concat]
  rw [hb]
  by_cases hcs : cs' = []
  · have hpar : parent p = root := if_pos (by rw [hdrop, hcs]; rfl)
    refine ⟨⟨?_, hcomp.2.1⟩, hcomp, Or.inl hpar⟩
    rw [hpar, stem_root, hp, hcs]
    rfl
  · obtain ⟨c1, cs1, rfl⟩ := List.exists_cons_of_ne_nil hcs
    have hc1 : Component c1 := hc c1 (by simp)
    have hnil : ((c1 :: cs1).flatMap fun c => slash :: c) ≠ [] := by simp
    have hpar : (parent p).bytes = (c1 :: cs1).flatMap fun c => slash :: c := by
      unfold parent
      rw [if_neg (by rw [hdrop]; exact hnil)]
      exact hdrop
    have hroot : parent p ≠ root := by
      intro hr
      rw [hr] at hpar
      have h2 : [slash] = slash :: (c1 ++ cs1.flatMap fun c => slash :: c) := hpar
      have h3 := List.append_eq_nil_iff.mp (List.cons.inj h2).2.symm
      exact hc1.1 h3.1
    refine ⟨⟨?_, hcomp.2.1⟩, hcomp, Or.inr ⟨c1 :: cs1, by simp, ?_, hpar⟩⟩
    · rw [stem, if_neg hroot, hpar, hp]
    · intro x hx
      rw [List.concat_eq_append] at hc
      exact hc x (List.mem_append_left _ hx)

theorem Normalised.ne_nil {p : CStr} (h : Normalised p) : p.bytes ≠ [] := by
  obtain ⟨cs, hne, -, hp⟩ := h
  obtain ⟨c, cs', rfl⟩ := List.exists_cons_of_ne_nil hne
  rw [hp]
  simp

theorem Normalised.ne_root {p : CStr} (h : Normalised p) : p ≠ root := by
  obtain ⟨⟨he, hs⟩, hc, -⟩ := h.isEntry
  rintro rfl
  have h1 : [slash] = stem (parent root) ++ slash :: (base root).bytes := he
  have hlen := congrArg List.length h1
  simp only [List.length_append, List.length_cons, List.length_nil] at hlen
  exact hc.1 (List.eq_nil_of_length_eq_zero (by omega))

end Memfs
