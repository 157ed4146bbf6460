import LinuxHandson.Network.HttpServer

/-!
# Requests in pieces

A first chunk gives the answer of the whole request if the method and the path are complete in it, which
the server takes for granted once there is anything in the place of the version.
-/

namespace HttpServer

open CLib

variable {s : List UInt8} {k p : Nat} {chunks : List (List UInt8)}

/-! ## The first line -/

/-- Without a third field there is no answer to any part of the request. -/
theorem scanRequest_none (h : versionAt s = none) (k : Nat) : scanRequest (s.take k) = none := by
  have hnone := scanFields_take_none (n := 15) (by decide) h k
  rw [List.cons_append, List.cons_append, List.nil_append] at hnone
  rw [scanRequest, hnone]

/-- A part of the request that has a byte of the third field gives the method and the path of the whole,
and no other part gives any. -/
theorem scanRequest_some (h : versionAt s = some p) :
    p < s.length ∧ ∃ method path : CStr, ∀ k, (k ≤ p → scanRequest (s.take k) = none) ∧
      (p < k → ∃ version, scanRequest (s.take k) = some ⟨method, path, version⟩) := by
  obtain ⟨hlt, ws, hlen, hcut⟩ := scanFields_take_some (n := 15) (by decide) h
  match ws, hlen with
  | [m, q], _ =>
    refine ⟨hlt, .ofBuf m, .ofBuf q, fun k => ⟨fun hk => ?_, fun hk => ?_⟩⟩
    · have hnone := (hcut k).1 hk
      rw [List.cons_append, List.cons_append, List.nil_append] at hnone
      rw [scanRequest, hnone]
    · obtain ⟨v, hv⟩ := (hcut k).2 hk
      rw [List.cons_append, List.cons_append, List.nil_append] at hv
      exact ⟨.ofBuf v, by rw [scanRequest, hv]; rfl⟩

/-- The answer to a part of a request is the answer to the whole exactly if the part reaches beyond the
first byte of the third field. -/
theorem route_take_iff (s : List UInt8) (k : Nat) :
    (scanRequest (s.take k)).map route = (scanRequest s).map route ↔
      ∀ p, versionAt s = some p → p < k := by
  cases h : versionAt s with
  | none =>
    have hwhole := scanRequest_none h s.length
    rw [List.take_length] at hwhole
    rw [scanRequest_none h k, hwhole]
    exact iff_of_true rfl fun p hp => by cases hp
  | some p =>
    obtain ⟨hlt, method, path, hcut⟩ := scanRequest_some h
    obtain ⟨version, hwhole⟩ := (hcut s.length).2 hlt
    rw [List.take_length] at hwhole
    rw [hwhole]
    rcases Nat.lt_or_ge p k with hbehind | hbefore
    · obtain ⟨version', hpart⟩ := (hcut k).2 hbehind
      rw [hpart]
      refine iff_of_true rfl fun q hq => ?_
      rwa [← Option.some.inj hq]
    · rw [(hcut k).1 hbefore]
      refine iff_of_false (fun heq => by cases heq) fun hall => ?_
      exact absurd (hall p rfl) (Nat.not_lt.mpr hbefore)

/-! ## The chunks -/

theorem ofBuf_take (b : List UInt8) (k : Nat) :
    (CStr.ofBuf (b.take k)).bytes = (CStr.ofBuf b).bytes.take k :=
  List.take_takeWhile.symm

theorem scanRequest_nil : scanRequest [] = none := by decide

theorem answer_eq (chunks : List (List UInt8)) :
    answer chunks = (scanRequest (CStr.ofBuf (readRequest chunks)).bytes).map route := by
  unfold answer
  simp only [CStr.ofBuf_append_zero]
  split
  · next hzero =>
    rw [List.eq_nil_of_length_eq_zero hzero]
    show none = Option.map route (scanRequest [])
    rw [scanRequest_nil, Option.map_none]
  · rfl

theorem readRequest_eq (h : chunks.flatten.length ≤ requestSize - 1) :
    readRequest chunks = chunks.flatten.take (chunks.headD []).length := by
  cases chunks with
  | nil => rfl
  | cons c cs =>
    rw [List.flatten_cons, List.length_append] at h
    rw [List.flatten_cons, List.headD_cons, List.take_left, readRequest, List.headD_cons]
    exact List.take_of_length_le (by omega)

theorem writes_ne_nil (e : Env) (a : Answer) : a.writes e ≠ [] := by
  cases a with
  | ok page => exact List.cons_ne_nil _ _
  | notFound => exact List.cons_ne_nil _ _
  | methodNotAllowed => exact List.cons_ne_nil _ _

/-- Nothing is written exactly where the first line has no three fields. -/
theorem handleRequest_eq_nil_iff (e : Env) (chunks : List (List UInt8)) :
    handleRequest e chunks = [] ↔ scanRequest (CStr.ofBuf (readRequest chunks)).bytes = none := by
  rw [handleRequest, answer_eq]
  cases hscan : scanRequest (CStr.ofBuf (readRequest chunks)).bytes with
  | none => exact iff_of_true rfl rfl
  | some line => exact iff_of_false (writes_ne_nil e (route line)) (Option.some_ne_none line)

/-- The server answers a request that comes in chunks as it answers it in one piece if and only if the
first chunk reaches beyond the first byte of the version, or the request has no three fields. -/
theorem http_answer_iff (chunks : List (List UInt8))
    (h : chunks.flatten.length ≤ requestSize - 1) :
    answer chunks = answer [chunks.flatten] ↔ FirstLineRead chunks := by
  have hwhole : readRequest [chunks.flatten] = chunks.flatten := by
    rw [readRequest, List.headD_cons, List.take_of_length_le h]
  rw [answer_eq, answer_eq, hwhole, readRequest_eq h, ofBuf_take]
  exact route_take_iff _ _

/-- `GET / HTTP/1.0` and the end of the header. -/
def getRoot : List UInt8 := CStr.ascii "GET / HTTP/1.0\r\n\r\n".toList

/-- A request that is cut within the version. -/
theorem http_answer_cut_version :
    answer [getRoot.take 8, getRoot.drop 8] = answer [getRoot] :=
  (http_answer_iff [getRoot.take 8, getRoot.drop 8] (by decide)).mpr fun p hp => by
    have hat : versionAt (CStr.ofBuf [getRoot.take 8, getRoot.drop 8].flatten).bytes = some 6 := by decide
    rw [hat] at hp
    rw [← Option.some.inj hp]
    decide

/-- A request that is cut behind the path gets no answer. -/
theorem http_cut_unanswered : answer [getRoot.take 6, getRoot.drop 6] = none ∧
    answer [getRoot] = some (.ok .index) := by
  decide

end HttpServer
