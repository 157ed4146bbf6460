import LinuxHandson.Drivers.SeqfileDemo

/-!
# A traversal in sessions

`my_seq_start` and `my_seq_next` give the element at a position for every position, and agree on the end.
So the elements are shown once each and in order, wherever the sessions are cut.
-/

namespace SeqfileDemo

open CLib

variable {data : DataArray}

/-- The pointers to the elements, in order. -/
def pointers (data : DataArray) : List Nat := List.range data.length

/-- What `my_seq_start` and `my_seq_next` both do with a position. -/
theorem pointers_getElem? (data : DataArray) (pos : Nat) :
    (if data.length ≤ pos then (none, pos) else (some pos, pos)) = ((pointers data)[pos]?, pos) := by
  split
  · next h => rw [pointers, List.getElem?_eq_none (by rwa [List.length_range])]
  · next h => rw [pointers, List.getElem?_range (Nat.not_le.mp h)]

theorem mySeqOps_enumerates (data : DataArray) : (mySeqOps data).Enumerates (pointers data) where
  start := pointers_getElem? data
  next := fun _ pos _ => pointers_getElem? data (pos + 1)

theorem map_show (data : DataArray) :
    (pointers data).map (mySeqShow data) = data.map fun item => some item.line := by
  refine List.ext_getElem? fun i => ?_
  rw [List.getElem?_map, List.getElem?_map, pointers]
  rcases Nat.lt_or_ge i data.length with hlt | hge
  · rw [List.getElem?_range hlt, Option.map_some, mySeqShow, List.getElem?_eq_getElem hlt]
    rfl
  · rw [List.getElem?_eq_none (by rwa [List.length_range]), List.getElem?_eq_none hge]
    rfl

theorem sessions_eq (data : DataArray) (ks : List Nat) {pos : Nat} (hpos : pos ≤ data.length) :
    (mySeqOps data).sessions ks pos =
      (((pointers data).drop pos).take ks.sum, min (pos + ks.sum) data.length) := by
  have hlen : (pointers data).length = data.length := List.length_range
  have hsessions := (mySeqOps_enumerates data).sessions ks
    (show pos ≤ (pointers data).length by rwa [hlen])
  rwa [hlen] at hsessions

/-- Sessions that each have room for a record go through the whole array, in as many as it has
elements. -/
theorem shown_all (data : DataArray) {ks : List Nat} (hk : ∀ k ∈ ks, 1 ≤ k)
    (hlen : data.length ≤ ks.length) : ((mySeqOps data).sessions ks 0).1 = pointers data := by
  have hsum := List.length_le_sum_of_one_le ks hk
  rw [sessions_eq data ks (Nat.zero_le _), List.drop_zero]
  refine List.take_of_length_le ?_
  rw [pointers, List.length_range]
  omega

/-- However the file is read in sessions, these show the elements of the array in order, each once, as
many as they have room for; and when they have room for all, `my_seq_start` finds the end, and further
sessions show nothing. -/
theorem seqfile_traverses (data : DataArray) (ks : List Nat) :
    ((mySeqOps data).sessions ks 0).1 = (pointers data).take ks.sum ∧
      ((mySeqOps data).sessions ks 0).1.map (mySeqShow data) =
        (data.take ks.sum).map (fun item => some item.line) ∧
      (data.length ≤ ks.sum → ((mySeqOps data).sessions ks 0).1 = pointers data ∧
        mySeqStart data ((mySeqOps data).sessions ks 0).2 = (none, data.length) ∧
        ∀ more : List Nat, (mySeqOps data).sessions more ((mySeqOps data).sessions ks 0).2 =
          ([], data.length)) := by
  rw [sessions_eq data ks (Nat.zero_le _), List.drop_zero, Nat.zero_add]
  refine ⟨rfl, ?_, fun hall => ?_⟩
  · rw [List.map_take, map_show, List.map_take]
  · have hlen : (pointers data).length = data.length := List.length_range
    rw [Nat.min_eq_right hall]
    refine ⟨List.take_of_length_le (by rwa [hlen]), if_pos (Nat.le_refl _), fun more => ?_⟩
    rw [sessions_eq data more (Nat.le_refl _), List.drop_of_length_le (Nat.le_of_eq hlen), List.take_nil,
      Nat.min_eq_right (Nat.le_add_right _ _)]

/-- Five items, as the module makes them, in three sessions. -/
example : ((mySeqOps (seqfileDemoInit 5 fun _ => 0)).sessions [2, 1, 4] 0).1 = [0, 1, 2, 3, 4] := by
  decide

end SeqfileDemo
