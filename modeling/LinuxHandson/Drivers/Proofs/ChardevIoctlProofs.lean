import LinuxHandson.Drivers.ChardevIoctl

/-!
# No stale bytes of the character device

User space sees of the device only `buf_len` and the bytes of `device_buf` up to it. What a successful
write, `IOCTL_SET_MSG` or `IOCTL_RESET` leaves there does not depend on what was there before, so that
two runs that made the same calls since then cannot be told apart.
-/

namespace ChardevIoctl

open CLib

/-- The buffer has its size and the length is within it. -/
structure DevInv (d : Dev) : Prop where
  length : d.deviceBuf.length = bufSize
  nonneg : 0 ≤ d.bufLen
  le : d.bufLen ≤ bufSize - 1

/-- What user space can see of the device. -/
def Dev.view (d : Dev) : Dev where
  deviceBuf := d.deviceBuf.take (d.bufLen.toNat + 1)
  bufLen := d.bufLen
  ioctlCount := 0

/-- The calls that hand the message or its length to user space. -/
def Call.Observes : Call → Prop
  | .read _ _ _ => True
  | .write _ _ _ => False
  | .ioctl cmd _ _ => cmd = ioctlGetMsg ∨ cmd = ioctlGetLen

/-- The calls that hand bytes of the message to user space. -/
def Call.Hands : Call → Prop
  | .read _ _ _ => True
  | .write _ _ _ => False
  | .ioctl cmd _ _ => cmd = ioctlGetMsg

/-- The calls that store a message. -/
def Call.Stores : Call → Prop
  | .read _ _ _ => False
  | .write _ _ _ => True
  | .ioctl cmd _ _ => cmd = ioctlReset ∨ cmd = ioctlSetMsg

/-- The same call at another file offset. -/
def Call.withOff (off : Int) : Call → Call
  | .read count _ room => .read count off room
  | .write src count _ => .write src count off
  | .ioctl cmd src room => .ioctl cmd src room

theorem cInt_count {count : Nat} (h : count ≤ maxRwCount) : cInt count = count := by
  have hmax : maxRwCount = 0x7FFFF000 := rfl
  exact cInt_of_lt (by omega) (by omega)

/-! ## What the calls do -/

variable {d e d' e' : Dev} {count : Nat} {off : Int} {room : Nat} {src : UserSrc}

theorem devInv_initial : DevInv .initial :=
  ⟨List.length_replicate, Int.le_refl 0, show (0 : Int) ≤ bufSize - 1 by decide⟩

theorem readLen_range (h : DevInv d) (hc : count ≤ maxRwCount) (h0 : 0 ≤ off) (hlt : off < d.bufLen) :
    0 ≤ readLen d count off ∧ off + readLen d count off ≤ d.bufLen := by
  have hle := h.le
  have hsize : bufSize = 4096 := rfl
  rw [readLen, cInt_count hc, cInt_of_lt (by omega) (by omega)]
  omega

theorem devRead_ok (h : DevInv d) (hc : count ≤ maxRwCount) (h0 : 0 ≤ off) (room : Nat) :
    ∃ r, devRead d count off room = some (r, d) := by
  unfold devRead
  by_cases hoff : d.bufLen ≤ off
  · rw [if_pos hoff]
    exact ⟨_, rfl⟩
  · have hr := readLen_range h hc h0 (by omega)
    have hlen := h.length
    have hle := h.le
    rw [if_neg hoff, copyToUser, if_pos ⟨h0, hr.1, by omega⟩]
    exact ⟨_, rfl⟩

theorem devRead_view (h : DevInv d) (hc : count ≤ maxRwCount) (h0 : 0 ≤ off) :
    (devRead d count off room).map Prod.fst = (devRead d.view count off room).map Prod.fst := by
  have hlen := h.length
  have hle := h.le
  unfold devRead
  by_cases hoff : d.bufLen ≤ off
  · rw [if_pos hoff, if_pos (show d.view.bufLen ≤ off from hoff)]
    rfl
  · have hr := readLen_range h hc h0 (by omega)
    rw [if_neg hoff, if_neg (show ¬ d.view.bufLen ≤ off from hoff), copyToUser_take
      (m := d.bufLen.toNat + 1) (by omega) (by omega), Option.map_map, Option.map_map]
    rfl

theorem writeLen_eq (hc : count ≤ maxRwCount) : writeLen count = (min count (bufSize - 1) : Nat) := by
  have hsize : bufSize = 4096 := rfl
  rw [writeLen, cInt_count hc, cInt_of_lt (by omega) (by omega)]
  omega

theorem min_lt_bufSize (count : Nat) : min count (bufSize - 1) < bufSize := by
  have hsize : bufSize = 4096 := rfl
  omega

/-- What `dev_write` does: it stores what it can read, and its length only if that was all. -/
theorem devWrite_eq (h : DevInv d) (src : UserSrc) (off : Int) {n : Nat} (hn : writeLen count = n)
    (hlt : n < bufSize) :
    devWrite d src count off =
      if n ≤ src.bytes.length then
        some (⟨n, [], off⟩,
          { d with deviceBuf := (splice d.deviceBuf 0 (src.bytes.take n)).set n 0, bufLen := n })
      else
        some (⟨-EFAULT, [], off⟩, { d with deviceBuf := splice d.deviceBuf 0 (src.fetched n) }) := by
  have hlen := h.length
  rw [devWrite, hn, copyFromUser_eq src (by omega), Option.bind_some]
  by_cases hle : n ≤ src.bytes.length
  · have hin : (n : Int) < (splice d.deviceBuf 0 (src.bytes.take n)).length := by
      rw [length_splice (by rw [List.length_take]; omega)]
      omega
    rw [if_neg (by simp [hle]), if_pos hle, src.fetched_of_le hle, if_pos hin, Int.toNat_natCast]
  · rw [if_pos (decide_eq_false hle), if_neg hle]

/-- What `IOCTL_SET_MSG` stores. -/
def message (src : UserSrc) : List UInt8 := src.bytes.take (bufSize - 1) ++ [0]

/-- What `IOCTL_SET_MSG` does: a message of full length replaces the whole buffer. -/
theorem setMsg_eq (h : DevInv d) :
    setMsg d src =
      if bufSize - 1 ≤ src.bytes.length then
        some (⟨0, [], 0⟩,
          { d with deviceBuf := message src, bufLen := cInt (strlen (.ofBuf (message src))) })
      else some (⟨-EFAULT, [], 0⟩,
        { d with deviceBuf := splice d.deviceBuf 0 (src.fetched (bufSize - 1)) }) := by
  have hsize : bufSize = 4096 := rfl
  have hlen := h.length
  have hcast : ((bufSize : Int) - 1) = (bufSize - 1 : Nat) := rfl
  rw [setMsg, hcast, copyFromUser_eq src (by omega), Option.bind_some]
  by_cases hle : bufSize - 1 ≤ src.bytes.length
  · have htake : (src.bytes.take (bufSize - 1)).length = bufSize - 1 := by
      rw [List.length_take, Nat.min_eq_left hle]
    have hmsg : (splice d.deviceBuf 0 (src.bytes.take (bufSize - 1))).set (bufSize - 1) 0 =
        message src := by
      have htake' := take_set_splice (b := d.deviceBuf) (v := 0)
        (f := src.bytes.take (bufSize - 1)) (by omega)
      rw [htake, List.take_of_length_le] at htake'
      · exact htake'
      · rw [List.length_set, length_splice (by omega)]
        omega
    have hnul : 0 ∈ message src := List.mem_append_right _ (List.mem_singleton_self 0)
    rw [if_neg (by simp [hle]), if_pos hle, src.fetched_of_le hle, hmsg, strlenIn, if_pos hnul,
      Option.map_some]
  · rw [if_pos (decide_eq_false hle), if_neg hle]

theorem getMsg_ok (h : DevInv d) (room : Nat) : ∃ r, getMsg d room = some (r, d) := by
  have hlen := h.length
  have hle := h.le
  have hpos := h.nonneg
  rw [getMsg, copyToUser, if_pos ⟨Int.le_refl 0, by omega, by omega⟩]
  exact ⟨_, rfl⟩

theorem getMsg_view (h : DevInv d) :
    (getMsg d room).map Prod.fst = (getMsg d.view room).map Prod.fst := by
  have hlen := h.length
  have hle := h.le
  have hpos := h.nonneg
  rw [getMsg, getMsg, copyToUser_take (m := d.bufLen.toNat + 1) (by omega) (by omega),
    Option.map_map, Option.map_map]
  rfl

theorem getInt_ok (d : Dev) (x : Int) (room : Nat) : ∃ r, getInt d x room = some (r, d) := by
  have hlen : (intBytes x).length = 4 := length_leBytes 4 _
  rw [getInt, copyToUser, if_pos ⟨by decide, by decide, by rw [hlen]; decide⟩]
  exact ⟨_, rfl⟩

theorem DevInv.counted (h : DevInv d) : DevInv d.counted := ⟨h.length, h.nonneg, h.le⟩

/-! ## The length stays in bounds -/

theorem devInv_write {n : Nat} (hlt : n < bufSize) {b : List UInt8}
    (hb : b.length = bufSize) : DevInv { d with deviceBuf := b, bufLen := n } :=
  ⟨hb, Int.natCast_nonneg n, show (n : Int) ≤ bufSize - 1 by omega⟩

theorem devInv_buf (h : DevInv d) {n : Nat} (hlt : n < bufSize) :
    DevInv { d with deviceBuf := splice d.deviceBuf 0 (src.fetched n) } := by
  have hlen := h.length
  have hfetched := src.length_fetched n
  refine ⟨?_, h.nonneg, h.le⟩
  rw [length_splice (by omega)]
  exact hlen

theorem length_message (h : bufSize - 1 ≤ src.bytes.length) : (message src).length = bufSize := by
  rw [message, List.length_append, List.length_take, Nat.min_eq_left h]
  rfl

/-- The NUL at the end bounds the length of the message. -/
theorem strlen_message (h : bufSize - 1 ≤ src.bytes.length) :
    strlen (.ofBuf (message src)) < bufSize := by
  have hle := List.IsPrefix.length_le (List.takeWhile_prefix (l := message src) (· != 0))
  rw [length_message h] at hle
  refine Nat.lt_of_le_of_ne hle ?_
  intro heq
  have hall : (message src).takeWhile (· != 0) = message src :=
    (List.takeWhile_prefix _).eq_of_length (heq.trans (length_message h).symm)
  have hmem : (0 : UInt8) ∈ (message src).takeWhile (· != 0) := by
    rw [hall]
    exact List.mem_append_right _ (List.mem_singleton_self 0)
  exact (CStr.ofBuf (message src)).nulFree hmem

/-- No call has undefined behaviour, and every call keeps the bounds. -/
theorem step_ok (h : DevInv d) {c : Call} (hc : c.Valid) :
    ∃ r d', step d c = some (r, d') ∧ DevInv d' := by
  have hsize : bufSize = 4096 := rfl
  cases c with
  | read count off room =>
    obtain ⟨r, hr⟩ := devRead_ok h hc.1 hc.2 room
    exact ⟨r, d, hr, h⟩
  | write src count off =>
    have hlt := min_lt_bufSize count
    have hlen := h.length
    rw [show step d (.write src count off) = devWrite d src count off from rfl,
      devWrite_eq h _ _ (writeLen_eq hc.1) hlt]
    split
    · refine ⟨_, _, rfl, devInv_write hlt ?_⟩
      rw [List.length_set, length_splice (by rw [List.length_take]; omega)]
      exact hlen
    · exact ⟨_, _, rfl, devInv_buf h hlt⟩
  | ioctl cmd src room =>
    have h := h.counted
    show ∃ r d', dispatch d.counted cmd src room = some (r, d') ∧ DevInv d'
    unfold dispatch
    split
    · exact ⟨_, _, rfl, List.length_replicate, Int.le_refl 0, show (0 : Int) ≤ bufSize - 1 by omega⟩
    · split
      · rw [setMsg_eq h]
        split
        · next hle =>
          have hlt := strlen_message hle
          rw [cInt_of_lt (by omega) (by omega)]
          exact ⟨_, _, rfl, devInv_write hlt (length_message hle)⟩
        · exact ⟨_, _, rfl, devInv_buf h (by omega)⟩
      · split
        · obtain ⟨r, hr⟩ := getMsg_ok h room
          exact ⟨r, _, hr, h⟩
        · split
          · obtain ⟨r, hr⟩ := getInt_ok d.counted d.counted.bufLen room
            exact ⟨r, _, hr, h⟩
          · split
            · obtain ⟨r, hr⟩ := getInt_ok d.counted d.counted.ioctlCount room
              exact ⟨r, _, hr, h⟩
            · exact ⟨_, _, rfl, h⟩

theorem devInv_reach (h : Machine.Reach step (fun _ c => c.Valid) .initial d) : DevInv d := by
  refine h.invariant_of_total devInv_initial ?_
  intro s c hs hc
  exact step_ok hs hc

/-! ## What user space sees -/

/-- A call that observes the message depends on the view only. -/
theorem step_view (h : DevInv d) {c : Call} (hc : c.Valid) (hobs : c.Observes) :
    (step d c).map Prod.fst = (step d.view c).map Prod.fst := by
  cases c with
  | read count off room => exact devRead_view h hc.1 hc.2
  | write src count off => exact hobs.elim
  | ioctl cmd src room =>
    rcases hobs with rfl | rfl
    · show (getMsg d.counted room).map Prod.fst = (getMsg d.view.counted room).map Prod.fst
      rw [getMsg_view h.counted, getMsg, getMsg, Option.map_map, Option.map_map]
      rfl
    · show (getInt d.counted d.bufLen room).map Prod.fst =
        (getInt d.view.counted d.bufLen room).map Prod.fst
      rw [getInt, getInt, Option.map_map, Option.map_map]
      rfl

/-- What is handed to user space is a part of the buffer up to the length. -/
theorem handed_infix (h : DevInv d) {c : Call} (hc : c.Valid) (hh : c.Hands) {r : Reply}
    (hs : step d c = some (r, d')) : r.handed <:+: d.deviceBuf.take (d.bufLen.toNat + 1) := by
  have hobs : c.Observes := by
    cases c with
    | read count off room => trivial
    | write src count off => exact hh.elim
    | ioctl cmd src room => exact .inl hh
  have hview := step_view h hc hobs
  rw [hs, Option.map_some] at hview
  obtain ⟨⟨r', d''⟩, hs', rfl⟩ := Option.map_eq_some_iff.mp hview.symm
  show r'.handed <:+: d.view.deviceBuf
  cases c with
  | read count off room =>
    simp only [step, devRead] at hs'
    split at hs'
    · cases hs'
      exact List.nil_infix
    · obtain ⟨⟨b, bytes⟩, hcopy, heq⟩ := Option.map_eq_some_iff.mp hs'
      have hr : r'.handed = bytes := by
        obtain ⟨rfl, -⟩ := Prod.mk.inj heq
        cases b <;> rfl
      rw [hr]
      exact copyToUser_infix hcopy
  | write src count off => exact hh.elim
  | ioctl cmd src room =>
    obtain rfl : cmd = ioctlGetMsg := hh
    obtain ⟨⟨b, bytes⟩, hcopy, heq⟩ :=
      Option.map_eq_some_iff.mp (show getMsg d.view.counted room = some (r', d'') from hs')
    obtain ⟨rfl, -⟩ := Prod.mk.inj heq
    exact copyToUser_infix hcopy

/-! ## Two runs -/

/-- What a write of the whole message leaves to be seen. -/
theorem view_written (h : DevInv d) {n : Nat} (hlt : n < bufSize) (hle : n ≤ src.bytes.length) :
    Dev.view { d with deviceBuf := (splice d.deviceBuf 0 (src.bytes.take n)).set n 0, bufLen := n } =
      ⟨src.bytes.take n ++ [0], n, 0⟩ := by
  have hlen := h.length
  have htake : (src.bytes.take n).length = n := by rw [List.length_take, Nat.min_eq_left hle]
  have hset := take_set_splice (b := d.deviceBuf) (f := src.bytes.take n) (v := 0) (by omega)
  rw [htake] at hset
  rw [Dev.view, Int.toNat_natCast, hset]

/-- A copy that faults leaves devices with equal views with equal views. -/
theorem view_spliced (f : List UInt8) (hv : d.view = e.view) :
    Dev.view { d with deviceBuf := splice d.deviceBuf 0 f } =
      Dev.view { e with deviceBuf := splice e.deviceBuf 0 f } := by
  obtain ⟨hbuf, hlen, -⟩ := Dev.mk.inj hv
  simp only [Dev.view, Dev.mk.injEq, and_true]
  refine ⟨?_, hlen⟩
  rw [hlen] at hbuf ⊢
  exact take_splice_congr hbuf

theorem dispatch_keeps {cmd : Nat} (hno : cmd ≠ ioctlReset ∧ cmd ≠ ioctlSetMsg) {r : Reply}
    (hs : dispatch d cmd src room = some (r, d')) : d' = d := by
  unfold dispatch at hs
  rw [if_neg hno.1, if_neg hno.2] at hs
  have hint : ∀ x, getInt d x room = some (r, d') → d' = d := by
    intro x hx
    obtain ⟨p, -, heq⟩ := Option.map_eq_some_iff.mp hx
    exact (Prod.mk.inj heq).2.symm
  split at hs
  · obtain ⟨p, -, heq⟩ := Option.map_eq_some_iff.mp hs
    exact (Prod.mk.inj heq).2.symm
  · split at hs
    · exact hint _ hs
    · split at hs
      · exact hint _ hs
      · cases hs
        rfl

theorem devRead_keeps {r : Reply} (hs : devRead d count off room = some (r, d')) : d' = d := by
  unfold devRead at hs
  split at hs
  · cases hs
    rfl
  · obtain ⟨p, -, heq⟩ := Option.map_eq_some_iff.mp hs
    exact (Prod.mk.inj heq).2.symm

/-- The file offset of a call. -/
def Call.fileOff : Call → Int
  | .read _ off _ => off
  | .write _ _ off => off
  | .ioctl _ _ _ => 0

/-- What a call does to the message: nothing; or it returns `ret` and leaves `view` to be seen; or it
fails after it has stored `f`. -/
inductive Effect where
  | keep
  | store (ret : Int) (view : Dev)
  | fault (f : List UInt8)

/-- The effect of a copy of `len` bytes that leaves `view` to be seen if it does not fault. -/
@[irreducible] def storeEffect (src : UserSrc) (len : Nat) (ret : Int) (view : Dev) : Effect :=
  if len ≤ src.bytes.length then .store ret view else .fault (src.fetched len)

/-- The effect of a call, which does not depend on the device. -/
def Call.effect : Call → Effect
  | .read _ _ _ => .keep
  | .write src count _ =>
    storeEffect src (writeLen count).toNat (writeLen count)
      ⟨src.bytes.take (writeLen count).toNat ++ [0], writeLen count, 0⟩
  | .ioctl cmd src _ =>
    if cmd = ioctlReset then .store 0 (Dev.view .initial)
    else if cmd = ioctlSetMsg then
      storeEffect src (bufSize - 1) 0
        (Dev.view ⟨message src, cInt (strlen (.ofBuf (message src))), 0⟩)
    else .keep

/-- The call `c` on `d` has had this effect. -/
def Effect.Of (c : Call) (d d' : Dev) (r : Reply) : Effect → Prop
  | .keep => d'.view = d.view
  | .store ret view => r = ⟨ret, [], c.fileOff⟩ ∧ d'.view = view
  | .fault f => r.ret < 0 ∧ d'.view = Dev.view { d with deviceBuf := splice d.deviceBuf 0 f }

theorem effect_withOff (c : Call) (off : Int) : (c.withOff off).effect = c.effect := by
  cases c <;> rfl

theorem storeEffect_ne (src : UserSrc) (len : Nat) (ret : Int) (view : Dev) :
    storeEffect src len ret view ≠ .keep := by
  unfold storeEffect
  split
  · nofun
  · nofun

theorem Call.Stores.effect_ne {c : Call} (h : c.Stores) : c.effect ≠ .keep := by
  cases c with
  | read count off room => exact h.elim
  | write src count off => exact storeEffect_ne _ _ _ _
  | ioctl cmd src room =>
    rw [Call.effect]
    rcases h with rfl | rfl
    · rw [if_pos rfl]
      exact fun heq => Effect.noConfusion heq
    · rw [if_neg (by decide), if_pos rfl]
      exact storeEffect_ne _ _ _ _

theorem devWrite_effect (h : DevInv d) {n : Nat} (hn : writeLen count = n) (hlt : n < bufSize)
    {r : Reply} (hs : devWrite d src count off = some (r, d')) :
    (Call.effect (.write src count off)).Of (.write src count off) d d' r := by
  rw [devWrite_eq h _ _ hn hlt] at hs
  rw [Call.effect, hn, Int.toNat_natCast, storeEffect]
  by_cases hle : n ≤ src.bytes.length
  · rw [if_pos hle] at hs ⊢
    cases hs
    exact ⟨rfl, view_written h hlt hle⟩
  · rw [if_neg hle] at hs ⊢
    cases hs
    exact ⟨show -EFAULT < 0 by decide, rfl⟩

theorem setMsg_effect (h : DevInv d) {r : Reply} {c : Call} (hoff : c.fileOff = 0)
    (hs : setMsg d src = some (r, d')) :
    (storeEffect src (bufSize - 1) 0
      (Dev.view ⟨message src, cInt (strlen (.ofBuf (message src))), 0⟩)).Of c d d' r := by
  rw [setMsg_eq h] at hs
  rw [storeEffect]
  by_cases hle : bufSize - 1 ≤ src.bytes.length
  · rw [if_pos hle] at hs ⊢
    obtain ⟨hr, hd'⟩ := Prod.mk.inj (Option.some.inj hs)
    refine ⟨?_, (congrArg Dev.view hd').symm⟩
    rw [← hr, hoff]
  · rw [if_neg hle] at hs ⊢
    cases hs
    exact ⟨show -EFAULT < 0 by decide, rfl⟩

theorem step_effect (h : DevInv d) {c : Call} (hc : c.Valid) {r : Reply}
    (hs : step d c = some (r, d')) : c.effect.Of c d d' r := by
  cases c with
  | read count off room =>
    replace hs : devRead d count off room = some (r, d') := hs
    show d'.view = d.view
    rw [devRead_keeps hs]
  | write src count off =>
    replace hs : devWrite d src count off = some (r, d') := hs
    exact devWrite_effect h (writeLen_eq hc.1) (min_lt_bufSize count) hs
  | ioctl cmd src room =>
    replace hs : dispatch d.counted cmd src room = some (r, d') := hs
    rw [Call.effect]
    by_cases hreset : cmd = ioctlReset
    · rw [dispatch, if_pos hreset] at hs
      rw [if_pos hreset]
      obtain ⟨hr, hd'⟩ := Prod.mk.inj (Option.some.inj hs)
      exact ⟨hr.symm, (congrArg Dev.view hd').symm⟩
    · rw [if_neg hreset]
      by_cases hset : cmd = ioctlSetMsg
      · rw [dispatch, if_neg hreset, if_pos hset] at hs
        rw [if_pos hset]
        exact setMsg_effect h.counted rfl hs
      · rw [if_neg hset]
        have hkeeps := dispatch_keeps ⟨hreset, hset⟩ hs
        show d'.view = d.counted.view
        rw [hkeeps]

/-- After a call that stores a message successfully, the view does not depend on what the device held
before. -/
theorem store_view (hd : DevInv d) (he : DevInv e) {c : Call} (hc : c.Valid) (hst : c.Stores)
    {r q : Reply} (hs : step d c = some (r, d')) (ht : step e c = some (q, e')) (h0 : 0 ≤ r.ret) :
    r = q ∧ d'.view = e'.view := by
  have hs := step_effect hd hc hs
  have ht := step_effect he hc ht
  rcases heff : c.effect with _ | ⟨ret, view⟩ | f
  · exact absurd heff hst.effect_ne
  · rw [heff] at hs ht
    exact ⟨hs.1.trans ht.1.symm, hs.2.trans ht.2.symm⟩
  · rw [heff] at hs
    exact absurd hs.1 (Int.not_lt.mpr h0)

/-- The same call, perhaps at another offset, leaves devices with equal views with equal views. -/
theorem step_agree (hd : DevInv d) (he : DevInv e) (hv : d.view = e.view) {c : Call} {off : Int}
    (hc : c.Valid) (hc' : (c.withOff off).Valid) {r q : Reply} (hs : step d c = some (r, d'))
    (ht : step e (c.withOff off) = some (q, e')) : d'.view = e'.view := by
  have hs := step_effect hd hc hs
  have ht := step_effect he hc' ht
  rw [effect_withOff] at ht
  rcases heff : c.effect with _ | ⟨ret, view⟩ | f
  · rw [heff] at hs ht
    exact hs.trans (hv.trans ht.symm)
  · rw [heff] at hs ht
    exact hs.2.trans ht.2.symm
  · rw [heff] at hs ht
    rw [hs.2, ht.2]
    exact view_spliced f hv

/-- Two devices that user space cannot tell apart. -/
def Agree (d e : Dev) : Prop := DevInv d ∧ DevInv e ∧ d.view = e.view

/-- Two valid calls that are the same up to the file offset. -/
def SameCall (c b : Call) : Prop := c.Valid ∧ b.Valid ∧ ∃ off, b = c.withOff off

/-- The same observing call has the same reply. -/
def SameReply (c b : Call) (r q : Reply) : Prop := c = b → c.Observes → r = q

theorem agree_lockstep {cs bs : List Call} (hcs : List.Forall₂ SameCall cs bs) (h : Agree d e)
    {rs qs : List Reply} (hs : Machine.exec step d cs = some (rs, d'))
    (ht : Machine.exec step e bs = some (qs, e')) {i : Nat} {c b : Call} {r q : Reply}
    (hc : cs[i]? = some c) (hb : bs[i]? = some b) (hr : rs[i]? = some r) (hq : qs[i]? = some q) :
    SameReply c b r q := by
  refine Machine.exec_lockstep (R := Agree) ?_ hcs h hs ht hc hb hr hq
  rintro s t c b r q s' t' ⟨hs, ht, hv⟩ ⟨hc, hb, off, rfl⟩ hsc htb
  obtain ⟨r', s'', hs', hinv⟩ := step_ok hs hc
  obtain ⟨-, rfl⟩ := Prod.mk.inj (Option.some.inj (hs'.symm.trans hsc))
  obtain ⟨q', t'', ht', hinv'⟩ := step_ok ht hb
  obtain ⟨-, rfl⟩ := Prod.mk.inj (Option.some.inj (ht'.symm.trans htb))
  refine ⟨⟨hinv, hinv', step_agree hs ht hv hc hb hsc htb⟩, ?_⟩
  intro heq hobs
  rw [← heq] at htb
  have hview := (step_view hs hc hobs).trans ((congrArg (fun x => (step x c).map Prod.fst) hv).trans
    (step_view ht hc hobs).symm)
  rw [hsc, htb] at hview
  exact Option.some.inj hview

/-- In every reachable state the length is in bounds, no call has undefined behaviour, and what
`dev_read` and `IOCTL_GET_MSG` hand to user space is a part of the buffer up to the length. After a
successful write, `IOCTL_SET_MSG` or
`IOCTL_RESET` in two reachable states, the same calls give the same replies to all that observe the
message, whatever was stored before. -/
theorem no_stale_bytes :
    (∀ d, Machine.Reach step (fun _ c => c.Valid) .initial d →
      0 ≤ d.bufLen ∧ d.bufLen ≤ bufSize - 1 ∧ (∀ c, c.Valid → ∃ r d', step d c = some (r, d')) ∧
        ∀ c r d', c.Valid → c.Hands → step d c = some (r, d') →
          r.handed <:+: d.deviceBuf.take (d.bufLen.toNat + 1)) ∧
    ∀ d e, Machine.Reach step (fun _ c => c.Valid) .initial d →
      Machine.Reach step (fun _ c => c.Valid) .initial e →
      ∀ c r q d₁ e₁, c.Valid → c.Stores → step d c = some (r, d₁) → 0 ≤ r.ret →
        step e c = some (q, e₁) → r = q ∧
          ∀ cs bs rs qs d₂ e₂, List.Forall₂ SameCall cs bs →
            Machine.exec step d₁ cs = some (rs, d₂) → Machine.exec step e₁ bs = some (qs, e₂) →
              ∀ (i : Nat) a r q, a.Observes → cs[i]? = some a → bs[i]? = some a →
                rs[i]? = some r → qs[i]? = some q → r = q := by
  constructor
  · intro d hd
    have hinv := devInv_reach hd
    refine ⟨hinv.nonneg, hinv.le, ?_, fun c r d' hc hh hs => handed_infix hinv hc hh hs⟩
    intro c hc
    obtain ⟨r, d', hs, -⟩ := step_ok hinv hc
    exact ⟨r, d', hs⟩
  · intro d e hd he c r q d₁ e₁ hc hst hs h0 ht
    have hinvd := devInv_reach hd
    have hinve := devInv_reach he
    obtain ⟨hrq, hv⟩ := store_view hinvd hinve hc hst hs ht h0
    refine ⟨hrq, ?_⟩
    intro cs bs rs qs d₂ e₂ hsame hcs hbs i a r q hobs hca hba hr hq
    have hagree : Agree d₁ e₁ :=
      ⟨devInv_reach (hd.next hc hs), devInv_reach (he.next hc ht), hv⟩
    exact agree_lockstep hsame hagree hcs hbs hca hba hr hq rfl hobs

/-- A message of one letter. -/
def oneLetter : Call := .write ⟨[0x58], true⟩ 1 0

/-- A message of three letters. -/
def threeLetters : Call := .write ⟨[0x41, 0x42, 0x43], true⟩ 3 0

/-- After a message of one letter, a read finds the same whether or not a longer message was stored
before, of which the last letter is still in the buffer. -/
theorem no_stale_bytes_oneLetter :
    ∃ e r d₁ e₁, (∃ q, step .initial threeLetters = some (q, e)) ∧
      step .initial oneLetter = some (r, d₁) ∧ step e oneLetter = some (r, e₁) ∧ d₁.bufLen ≤ 4095 ∧
        d₁.deviceBuf.take 3 = [0x58, 0, 0] ∧ e₁.deviceBuf.take 3 = [0x58, 0, 0x43] ∧
        ∃ r d₂ q e₂, step d₁ (.read 10 0 10) = some (r, d₂) ∧ step e₁ (.read 10 0 10) = some (q, e₂) ∧
          r = q ∧ r.handed = [0x58] := by
  have hvalid : oneLetter.Valid := by decide
  have hread : (Call.read 10 0 10).Valid := by decide
  have hthree := devWrite_eq devInv_initial ⟨[0x41, 0x42, 0x43], true⟩ 0
    (show writeLen 3 = (3 : Nat) from rfl) (by decide)
  rw [if_pos (by decide)] at hthree
  have hinit : Machine.Reach step (fun _ c => c.Valid) .initial .initial := .init
  have hreach := hinit.next (c := threeLetters) (by decide) hthree
  have hlen : writeLen 1 = (1 : Nat) := rfl
  have hd₁ := devWrite_eq devInv_initial ⟨[0x58], true⟩ 0 hlen (by decide)
  have he₁ := devWrite_eq (devInv_reach hreach) ⟨[0x58], true⟩ 0 hlen (by decide)
  rw [if_pos (by decide)] at hd₁ he₁
  obtain ⟨-, hrun⟩ := no_stale_bytes.2 _ _ .init hreach oneLetter _ _ _ _ hvalid trivial hd₁
    (by decide) he₁
  obtain ⟨-, hle, htotal, -⟩ := no_stale_bytes.1 _ (.next .init hvalid hd₁)
  obtain ⟨-, -, htotal', -⟩ := no_stale_bytes.1 _ (.next hreach hvalid he₁)
  obtain ⟨r, d₂, hr⟩ := htotal _ hread
  obtain ⟨q, e₂, hq⟩ := htotal' _ hread
  refine ⟨_, _, _, _, ⟨_, hthree⟩, hd₁, he₁, hle, by decide +kernel, by decide +kernel,
    r, d₂, q, e₂, hr, hq, ?_, ?_⟩
  · refine hrun [.read 10 0 10] [.read 10 0 10] [r] [q] d₂ e₂ ?_ ?_ ?_ 0 (.read 10 0 10) r q trivial rfl
      rfl rfl rfl
    · exact .cons ⟨hread, hread, 0, rfl⟩ .nil
    · rw [Machine.exec_cons [] hr]
      rfl
    · rw [Machine.exec_cons [] hq]
      rfl
  · have hhanded : (step ⟨((splice (Dev.initial.deviceBuf) 0 [0x58]).set 1 0), 1, 0⟩
        (.read 10 0 10)).map (fun p => p.1.handed) = some [0x58] := by decide +kernel
    have heq := congrArg (Option.map fun p => p.1.handed) hr
    exact Option.some.inj (heq.symm.trans hhanded)

end ChardevIoctl
