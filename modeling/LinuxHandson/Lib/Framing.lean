import LinuxHandson.Lib.CString

/-!
# Strings in a stream of bytes

Strings are written to a stream one after the other. The reader reports what it takes from the stream
as strings of its own. Beside the bytes stand the strings written and those reported: the stream holds
the bytes of the ones that are written and not yet reported.
-/

namespace CLib

variable {α : Type} {written reported : List CStr} {chunk : List UInt8}

/-- What is written and not yet reported. -/
def unreported (written reported : List α) : List α := written.drop reported.length

/-- The bytes of strings, one after the other. -/
def stream (msgs : List CStr) : List UInt8 := msgs.flatMap CStr.bytes

theorem stream_append (a b : List CStr) : stream (a ++ b) = stream a ++ stream b :=
  List.flatMap_append

theorem stream_singleton (m : CStr) : stream [m] = m.bytes := by
  simp [stream]

theorem nul_not_mem_stream (msgs : List CStr) : 0 ∉ stream msgs := by
  intro h
  obtain ⟨m, -, hm⟩ := List.mem_flatMap.mp h
  exact m.nulFree hm

theorem unreported_append {w r : List α} (h : r <+: w) (msgs : List α) :
    unreported (w ++ msgs) r = unreported w r ++ msgs :=
  List.drop_append_of_le_length h.length_le

theorem unreported_report (w r : List α) (m : α) :
    unreported w (r ++ [m]) = (unreported w r).tail := by
  rw [unreported, unreported, List.tail_drop, List.length_append, List.length_singleton]

/-- Nothing is left unreported. -/
theorem unreported_eq_nil_iff {w r : List α} (h : r <+: w) : unreported w r = [] ↔ r = w := by
  rw [unreported, List.drop_eq_nil_iff]
  exact ⟨h.eq_of_length_le, fun he => by rw [he]⟩

/-- One more report keeps the reports in order if it is the next thing written. -/
theorem report_inOrder_iff {w r : List α} {m : α} (h : r <+: w) :
    r ++ [m] <+: w ↔ (unreported w r).head? = some m := by
  obtain ⟨t, rfl⟩ := h
  rw [unreported, List.drop_left, List.prefix_append_right_inj]
  cases t with
  | nil => simp
  | cons a t => simp [List.cons_prefix_cons, eq_comm]

/-- The chunk that a reader takes from the stream is the next string written exactly if it is as long
as this string. -/
theorem chunk_inOrder_iff (h : reported <+: written)
    (hc : chunk <+: stream (unreported written reported)) :
    reported ++ [CStr.ofBuf chunk] <+: written ↔
      (unreported written reported).head?.map strlen = some chunk.length := by
  have hnul : 0 ∉ chunk := fun h0 => nul_not_mem_stream _ (hc.subset h0)
  rw [report_inOrder_iff h]
  rcases hu : unreported written reported with _ | ⟨m, rest⟩
  · exact ⟨nofun, nofun⟩
  · rw [hu] at hc
    constructor
    · intro hm
      cases hm
      rw [List.head?_cons, Option.map_some, strlen, CStr.ofBuf_of_nulFree hnul]
    · intro hm
      have hlen : chunk.length = m.bytes.length := (Option.some.inj hm).symm
      have hm' : m.bytes <+: stream (m :: rest) := by
        rw [stream, List.flatMap_cons]
        exact List.prefix_append _ _
      have heq : chunk = m.bytes := by
        rw [List.prefix_iff_eq_take.mp hc, List.prefix_iff_eq_take.mp hm', hlen]
      rw [heq, CStr.ofBuf_bytes]
      rfl

/-- The stream behind a chunk that is the next string. -/
theorem stream_drop_chunk {n : Nat}
    (h : (unreported written reported).head?.map strlen = some n) :
    (stream (unreported written reported)).drop n = stream (unreported written reported).tail := by
  rcases hu : unreported written reported with _ | ⟨m, rest⟩
  · rw [hu] at h
    cases h
  · rw [hu] at h
    cases h
    rw [stream, List.flatMap_cons, strlen, List.drop_left]
    rfl

end CLib
