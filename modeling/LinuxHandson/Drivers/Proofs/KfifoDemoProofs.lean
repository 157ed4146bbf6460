import LinuxHandson.Drivers.KfifoDemo

/-!
# What the queue delivers

`fifo_write` adds its value after all that can fail, but `fifo_read` removes its value before it cuts
the text to `count` and copies it. So every value is delivered whole exactly when each call that takes
a value has room for its line.
-/

namespace KfifoDemo

open CLib

variable {kstrtoint : Kstrtoint} {q q' : Fifo} {s s' : Tracked}

/-! ## What the calls do -/

/-- The results of `fifo_write`: an error, or the value added. -/
theorem fifoWrite_cases {src : UserSrc} {count : Nat} {ret : Int} (hfit : q.length ≤ fifoSize)
    (h : fifoWrite kstrtoint q src count = some (ret, q')) :
    (ret < 0 ∧ q' = q) ∨
      ∃ val, 0 ≤ ret ∧ writtenBy kstrtoint src count = [val] ∧ q' = q ++ [val] ∧
        q.length < fifoSize := by
  unfold fifoWrite at h
  split at h
  · cases h
    exact .inl ⟨by decide, rfl⟩
  · next hcount =>
    have hsize : kbufSize = 32 := rfl
    have hlen : kbuf.length = kbufSize := List.length_replicate
    rw [copyFromUser_eq src (by omega), Option.map_some] at h
    split at h
    · cases h
      exact .inl ⟨by decide, rfl⟩
    · next hok =>
      have hle : count ≤ src.bytes.length := by simpa using hok
      have htake : (src.bytes.take count).length = count := by
        rw [List.length_take, Nat.min_eq_left hle]
      have hstr : CStr.ofBuf ((splice kbuf 0 (src.fetched count)).set count 0) =
          .ofBuf (src.bytes.take count) := by
        have hset := ofBuf_set_splice (b := kbuf) (f := src.bytes.take count) (by omega)
        rw [htake] at hset
        rw [src.fetched_of_le hle]
        exact hset
      simp only [hstr] at h
      split at h
      · next ret' hparse =>
        cases h
        exact .inl ⟨ret'.2, rfl⟩
      · next val hparse =>
        split at h
        · cases h
          exact .inl ⟨by decide, rfl⟩
        · next hfull =>
          have hlt : q.length < fifoSize := Nat.lt_of_le_of_ne hfit hfull
          cases h
          refine .inr ⟨val, Int.natCast_nonneg count, ?_, ?_, hlt⟩
          · rw [writtenBy, hparse]
          · rw [kfifoPut, if_pos hlt]

theorem length_line_le (val : Int32) : (line val).length ≤ 12 := by
  rw [line, List.length_append]
  exact Nat.succ_le_succ (length_decimal_le val)

/-- `fifo_read` returns nothing, or it takes the oldest value and hands out what it can of its
line. -/
theorem fifoRead_eq (count : Nat) (off : Int) (room : Nat) :
    fifoRead q count off room =
      match q with
      | [] => some (⟨0, [], off⟩, [])
      | val :: rest =>
        if 0 < off then some (⟨0, [], off⟩, val :: rest)
        else if min (line val).length count ≤ room then
          some (⟨(min (line val).length count : Nat), (line val).take count,
            off + (min (line val).length count : Nat)⟩, rest)
        else some (⟨-EFAULT, ((line val).take count).take room, off⟩, rest) := by
  cases q with
  | nil =>
    unfold fifoRead
    split
    · rfl
    · rfl
  | cons val rest =>
    have hsize : kbufSize = 32 := rfl
    have hline := length_line_le val
    have hprint : snprintf kbufSize (line val) = line val ++ [0] := by
      rw [snprintf, List.take_of_length_le (by omega)]
    have hbuf : (line val ++ [0]).length = (line val).length + 1 := by
      rw [List.length_append, List.length_singleton]
    have htake : ((line val ++ [0]).drop 0).take (min (line val).length count) =
        (line val).take count := by
      rw [List.drop_zero, List.take_append_of_le_length (Nat.min_le_left _ _), Nat.min_comm,
        ← List.take_eq_take_min]
    have hcopy := @copyToUser_eq (line val ++ [0]) 0 (min (line val).length count) room (by omega)
    rw [htake, show ((0 : Nat) : Int) = 0 from rfl] at hcopy
    simp only [fifoRead, kfifoGet, hprint]
    split
    · rfl
    · rw [if_neg (by simp), hcopy, Option.map_some]
      by_cases hroom : min (line val).length count ≤ room
      · have hall : ((line val).take count).take room = (line val).take count := by
          refine List.take_of_length_le ?_
          rw [List.length_take, Nat.min_comm]
          exact hroom
        rw [if_pos hroom, if_pos (decide_eq_true hroom), hall]
      · rw [if_neg hroom, if_neg (by simpa using hroom)]

theorem line_ne_nil (val : Int32) : (line val).length ≠ 0 := by
  rw [line, List.length_append]
  exact Nat.succ_ne_zero _

/-- What a call does to the queue and its history. -/
inductive Change (s : Tracked) : Call → Tracked → Prop where
  /-- Nothing. -/
  | keep {c : Call} (hno : ∀ file count off room, c = .read file count off room → off ≤ 0 →
      s.fifo = []) : Change s c s
  /-- It adds a value. -/
  | put {file : Nat} {src : UserSrc} {count : Nat} (val : Int32) (hlt : s.fifo.length < fifoSize) :
      Change s (.write file src count)
        { s with fifo := s.fifo ++ [val], written := s.written ++ [val] }
  /-- It takes a value and delivers what fits of its line. -/
  | take {file count : Nat} {off : Int} {room : Nat} {val : Int32} {rest : Fifo}
      (hq : s.fifo = val :: rest) (hoff : off ≤ 0) (hcount : 0 < count)
      (hroom : min (line val).length count ≤ room) :
      Change s (.read file count off room)
        { s with fifo := rest, delivered := s.delivered ++ [(file, (line val).take count)] }
  /-- It takes a value and delivers nothing. -/
  | drop {file count : Nat} {off : Int} {room : Nat} {val : Int32} {rest : Fifo} {kept : Bool}
      (hq : s.fifo = val :: rest) (hoff : off ≤ 0)
      (hno : ¬ ((line val).length ≤ count ∧ (line val).length ≤ room)) :
      Change s (.read file count off room) { s with fifo := rest, errorsKept := kept }

theorem track_keep {c : Call} {r : Reply} (hw : ∀ file src count, c = .write file src count → r.ret < 0)
    (hr : r.ret ≤ 0) : track kstrtoint s c r s.fifo = s := by
  cases c with
  | write file src count =>
    have hneg : ¬ 0 ≤ r.ret := Int.not_le.mpr (hw file src count rfl)
    simp [track, hneg]
  | read file count off room =>
    have hpos : ¬ 0 < r.ret := Int.not_lt.mpr hr
    simp [track, hpos]

theorem track_nothing (kstrtoint : Kstrtoint) (s : Tracked) (file count : Nat) (off : Int)
    (room : Nat) : track kstrtoint s (.read file count off room) ⟨0, [], off⟩ s.fifo = s :=
  track_keep nofun (Int.le_refl 0)

theorem track_drop {file count : Nat} {off : Int} {room : Nat} {r : Reply} (hr : r.ret ≤ 0)
    (q : Fifo) :
    track kstrtoint s (.read file count off room) r q =
      { s with
        fifo := q
        errorsKept := s.errorsKept && (decide (0 ≤ r.ret) || decide (q = s.fifo)) } := by
  have hpos : ¬ 0 < r.ret := Int.not_lt.mpr hr
  simp only [track, if_neg hpos]

theorem trackedStep_change {c : Call} {r : Reply} (hfit : s.fifo.length ≤ fifoSize)
    (h : trackedStep kstrtoint s c = some (r, s')) : Change s c s' := by
  obtain ⟨⟨r', q⟩, hstep, heq⟩ := Option.map_eq_some_iff.mp h
  obtain ⟨rfl, rfl⟩ := Prod.mk.inj heq
  cases c with
  | write file src count =>
    obtain ⟨⟨ret, q'⟩, hw, heq⟩ := Option.map_eq_some_iff.mp hstep
    obtain ⟨rfl, rfl⟩ := Prod.mk.inj heq
    rcases fifoWrite_cases hfit hw with ⟨hneg, rfl⟩ | ⟨val, hpos, hval, rfl, hlt⟩
    · rw [track_keep (fun _ _ _ _ => hneg) (Int.le_of_lt hneg)]
      exact .keep nofun
    · have htrack : track kstrtoint s (.write file src count) ⟨ret, [], 0⟩ (s.fifo ++ [val]) =
          { s with fifo := s.fifo ++ [val], written := s.written ++ [val] } := by
        simp [track, hpos, hval]
      rw [htrack]
      exact .put val hlt
  | read file count off room =>
    replace hstep : fifoRead s.fifo count off room = some (r', q) := hstep
    rw [fifoRead_eq] at hstep
    split at hstep
    · next hnil =>
      cases hstep
      have hkeep := track_nothing kstrtoint s file count off room
      rw [hnil] at hkeep
      rw [hkeep]
      exact .keep fun _ _ _ _ _ _ => hnil
    · next val rest hcons =>
      split at hstep
      · next hoff =>
        cases hstep
        have hkeep := track_nothing kstrtoint s file count off room
        rw [hcons] at hkeep
        rw [hkeep]
        refine .keep ?_
        intro file' count' off' room' hc hle
        cases hc
        omega
      · next hoff =>
        have hoff : off ≤ 0 := Int.not_lt.mp hoff
        have hne := line_ne_nil val
        split at hstep
        · next hroom =>
          cases hstep
          rcases Nat.eq_zero_or_pos count with hzero | hpos
          · subst hzero
            have hno : ¬ ((line val).length ≤ 0 ∧ (line val).length ≤ room) := by omega
            rw [track_drop (by simp)]
            exact .drop hcons hoff hno
          · have hret : 0 < ((min (line val).length count : Nat) : Int) := by omega
            have htrack : track kstrtoint s (.read file count off room)
                ⟨(min (line val).length count : Nat), (line val).take count,
                  off + (min (line val).length count : Nat)⟩ q =
                { s with
                  fifo := q
                  delivered := s.delivered ++ [(file, (line val).take count)] } := by
              simp only [track, if_pos hret, decide_eq_true (Int.le_of_lt hret), Bool.true_or,
                Bool.and_true]
            rw [htrack]
            exact .take hcons hoff hpos hroom
        · next hroom =>
          cases hstep
          have hno : ¬ ((line val).length ≤ count ∧ (line val).length ≤ room) := by omega
          rw [track_drop (show -EFAULT ≤ 0 by decide)]
          exact .drop hcons hoff hno

/-! ## The history -/

/-- The values that have left the queue are the oldest, and not more texts than values have been
delivered. -/
structure HistoryInv (s : Tracked) : Prop where
  fits : s.fifo.length ≤ fifoSize
  order : s.written = s.gone ++ s.fifo
  delivered : s.delivered.length ≤ s.gone.length

theorem gone_eq {left : List Int32} (h : s.written = left ++ s.fifo) : s.gone = left := by
  rw [Tracked.gone, h, List.length_append, Nat.add_sub_cancel, List.take_left]

/-- What becomes of the values that have left the queue. -/
theorem gone_put (h : s.written = s.gone ++ s.fifo) (val : Int32) :
    Tracked.gone { s with fifo := s.fifo ++ [val], written := s.written ++ [val] } = s.gone := by
  refine gone_eq ?_
  show s.written ++ [val] = s.gone ++ (s.fifo ++ [val])
  rw [← List.append_assoc, ← h]

theorem gone_taken (h : s.written = s.gone ++ s.fifo) {val : Int32} {rest : Fifo}
    (hq : s.fifo = val :: rest) (delivered : List (Nat × List UInt8)) (kept : Bool) :
    Tracked.gone ⟨rest, s.written, delivered, kept⟩ = s.gone ++ [val] := by
  refine gone_eq ?_
  show s.written = s.gone ++ [val] ++ rest
  rw [h, hq, List.append_assoc]
  rfl

/-- What was written is still what has left the queue, followed by the queue. -/
theorem order_put (h : s.written = s.gone ++ s.fifo) (val : Int32) :
    s.written ++ [val] =
      Tracked.gone { s with fifo := s.fifo ++ [val], written := s.written ++ [val] } ++
        (s.fifo ++ [val]) := by
  rw [gone_put h, ← List.append_assoc, ← h]

theorem order_taken (h : s.written = s.gone ++ s.fifo) {val : Int32} {rest : Fifo}
    (hq : s.fifo = val :: rest) (delivered : List (Nat × List UInt8)) (kept : Bool) :
    s.written = Tracked.gone ⟨rest, s.written, delivered, kept⟩ ++ rest := by
  rw [gone_taken h hq, List.append_assoc, List.singleton_append, ← hq]
  exact h

theorem historyInv_init : HistoryInv .init := ⟨by decide, rfl, by decide⟩

theorem HistoryInv.change {c : Call} (h : HistoryInv s) (hc : Change s c s') : HistoryInv s' := by
  cases hc with
  | keep hno => exact h
  | put val hlt =>
    refine ⟨?_, order_put h.order val, ?_⟩
    · rw [List.length_append]
      exact hlt
    · rw [gone_put h.order]
      exact h.delivered
  | @take file count off room val rest hq hoff hcount hroom =>
    have hgone := gone_taken h.order hq (s.delivered ++ [(file, (line val).take count)]) s.errorsKept
    have hfits := h.fits
    have hdel := h.delivered
    rw [hq] at hfits
    refine ⟨Nat.le_of_succ_le hfits, order_taken h.order hq _ _, ?_⟩
    rw [hgone, List.length_append, List.length_append]
    exact Nat.succ_le_succ hdel
  | @drop file count off room val rest kept hq hoff hno =>
    have hgone := gone_taken h.order hq s.delivered kept
    have hfits := h.fits
    have hdel := h.delivered
    rw [hq] at hfits
    refine ⟨Nat.le_of_succ_le hfits, order_taken h.order hq _ _, ?_⟩
    rw [hgone, List.length_append]
    exact Nat.le_succ_of_le hdel

theorem historyInv_step {c : Call} {r : Reply} (h : HistoryInv s)
    (hs : trackedStep kstrtoint s c = some (r, s')) : HistoryInv s' :=
  h.change (trackedStep_change h.fits hs)

/-! ## When every value is delivered -/

/-- A step with room for the whole line keeps what was delivered right. -/
theorem Delivered.change {c : Call} (h : Delivered s) (hw : WholeLine s c) (hc : Change s c s') :
    Delivered s' := by
  cases hc with
  | keep hno => exact h
  | put val hlt =>
    refine ⟨order_put h.order val, ?_, h.errors⟩
    rw [gone_put h.order]
    exact h.whole
  | @take file count off room val rest hq hoff hcount hroom =>
    have hgone := gone_taken h.order hq (s.delivered ++ [(file, (line val).take count)]) s.errorsKept
    obtain ⟨hfit, -⟩ := hw file count off room val rest rfl hoff hq
    refine ⟨order_taken h.order hq _ _, ?_, h.errors⟩
    rw [hgone]
    show (s.delivered ++ [(file, (line val).take count)]).map Prod.snd = _
    rw [List.map_append, List.map_append, h.whole, List.map_singleton, List.map_singleton,
      List.take_of_length_le hfit]
  | @drop file count off room val rest kept hq hoff hno =>
    exact absurd (hw file count off room val rest rfl hoff hq) hno

/-- If what was delivered is right after a call, the call had room for the whole line. -/
theorem wholeLine_of_delivered {c : Call} (h : HistoryInv s) (hd : Delivered s')
    (hc : Change s c s') : WholeLine s c := by
  rintro file count off room val q rfl hoff hq
  cases hc with
  | keep hno =>
    have hnil := hno file count off room rfl hoff
    rw [hq] at hnil
    cases hnil
  | @take _ _ _ _ val' rest hq' hoff' hcount hroom =>
    rw [hq] at hq'
    obtain ⟨rfl, rfl⟩ := List.cons.inj hq'
    have hwhole := hd.whole
    rw [gone_taken h.order hq] at hwhole
    have hlast : (line val).take count = line val := by
      have hsame := congrArg List.getLast? hwhole
      simpa [List.map_append] using hsame
    have hlen := congrArg List.length hlast
    rw [List.length_take] at hlen
    exact ⟨by omega, by omega⟩
  | @drop _ _ _ _ val' rest kept hq' hoff' hno =>
    have hlen := congrArg List.length hd.whole
    rw [gone_taken h.order hq', List.length_map, List.length_map, List.length_append] at hlen
    have hdel := h.delivered
    have hone : [val'].length = 1 := rfl
    exact absurd (show s.delivered.length = _ from hlen) (by omega)

theorem step_ok (c : Call) :
    ∃ r s', trackedStep kstrtoint s c = some (r, s') := by
  have hstep : ∃ r q, step kstrtoint s.fifo c = some (r, q) := by
    cases c with
    | write file src count =>
      show ∃ r q, (fifoWrite kstrtoint s.fifo src count).map _ = some (r, q)
      unfold fifoWrite
      split
      · exact ⟨_, _, rfl⟩
      · have hlen : kbuf.length = kbufSize := List.length_replicate
        rw [copyFromUser_eq src (by omega)]
        exact ⟨_, _, rfl⟩
    | read file count off room =>
      show ∃ r q, fifoRead s.fifo count off room = some (r, q)
      rw [fifoRead_eq]
      split
      · exact ⟨_, _, rfl⟩
      · split
        · exact ⟨_, _, rfl⟩
        · split
          · exact ⟨_, _, rfl⟩
          · exact ⟨_, _, rfl⟩
  obtain ⟨r, q, hstep⟩ := hstep
  rw [trackedStep, hstep]
  exact ⟨_, _, rfl⟩

theorem delivered_init : Delivered .init := ⟨rfl, rfl, rfl⟩

/-- Over a run of calls, in every state the values that have left the queue have been delivered whole,
once and in order, and no error has changed the queue, exactly when every call that takes a value has
room for its whole line. -/
theorem fifo_delivers_iff (kstrtoint : Kstrtoint) (cs : List Call) :
    Machine.Always (trackedStep kstrtoint) Delivered Tracked.init cs ↔
      Machine.Legal (trackedStep kstrtoint) WholeLine Tracked.init cs := by
  refine Machine.always_iff_legal (fun s (h : HistoryInv s ∧ Delivered s) => h.2) ?_ ?_ cs Tracked.init
    ⟨historyInv_init, delivered_init⟩
  · rintro s c r s' ⟨h, hd⟩ hw hs
    exact ⟨historyInv_step h hs, hd.change hw (trackedStep_change h.fits hs)⟩
  · rintro s c ⟨h, -⟩ hd
    obtain ⟨r, s', hs⟩ := @step_ok kstrtoint s c
    exact wholeLine_of_delivered h (hd r s' hs) (trackedStep_change h.fits hs)

/-- A reader with room for one byte. -/
def oneByte : List Call := [.read 0 1 0 4096]

/-- It takes the 30 and is given a 3. -/
theorem fifo_oneByte :
    let kstrtoint : Kstrtoint := fun _ => .error ⟨-EINVAL, by decide⟩
    (Machine.exec (trackedStep kstrtoint) Tracked.init oneByte).map (fun x => (x.1, x.2.fifo)) =
      some ([⟨1, [0x33], 1⟩], [40, 50]) ∧
      ¬ Machine.Always (trackedStep kstrtoint) Delivered Tracked.init oneByte := by
  intro kstrtoint
  refine ⟨rfl, fun h => ?_⟩
  have hstep : trackedStep kstrtoint Tracked.init (.read 0 1 0 4096) =
      some (⟨1, [0x33], 1⟩, ⟨[40, 50], [30, 40, 50], [(0, [0x33])], true⟩) := rfl
  have hwhole : [[(0x33 : UInt8)]] = [line 30] := (h.2 _ _ hstep).whole
  exact absurd hwhole (by decide)

end KfifoDemo
