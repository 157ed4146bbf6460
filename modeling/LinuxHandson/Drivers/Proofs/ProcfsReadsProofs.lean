import LinuxHandson.Drivers.ProcfsReads
import LinuxHandson.Drivers.Proofs.MessageDevicesProofs

/-!
# Reads of the procfs files

The configuration file is read piece by piece. The generated files give out what the first read asks
for: their texts are read in full exactly by a reader whose first read asks for all of them.
-/

namespace ProcfsDemo

open CLib

variable {hz : Hz} {d : Driver} {text : List UInt8} {size : Nat}

/-! ## The variables -/

/-- The buffer holds a string, and the counters fit an `unsigned long`. -/
structure Driver.Inv (d : Driver) : Prop where
  config : d.config.Inv
  writes : d.config.writeCount < 2 ^ 64
  reads : d.readCount < 2 ^ 64

theorem configWrite_writeCount {c c' : Config} {src : UserSrc} {count : Nat} {off : Int} {r : FileReply}
    (h : configWrite c src count off = some (r, c')) :
    c'.writeCount = c.writeCount ∨ c'.writeCount = sizeT (c.writeCount + 1) := by
  unfold configWrite at h
  split at h
  · cases h
    exact Or.inl rfl
  · obtain ⟨p, -, hp⟩ := Option.map_eq_some_iff.mp h
    split at hp
    · cases hp
      exact Or.inl rfl
    · cases hp
      exact Or.inr rfl

theorem step_writeCount {c c' : Config} {call : MessageBuffer.Call} {r : FileReply}
    (h : step c call = some (r, c')) (hc : c.writeCount < 2 ^ 64) : c'.writeCount < 2 ^ 64 := by
  cases call with
  | read count off room =>
    obtain ⟨_, -, heq⟩ := Option.map_eq_some_iff.mp h
    cases heq
    exact hc
  | write src count off =>
    rcases configWrite_writeCount h with hsame | hnext
    · rwa [hsame]
    · rw [hnext]
      exact sizeT_lt _

theorem Driver.Inv.step {d' : Driver} {call : FileCall} {r : FileReply} (h : d.Inv) (hc : call.Valid)
    (hs : driverStep hz d call = some (r, d')) : d'.Inv := by
  cases call with
  | info jiffies count off room =>
    obtain ⟨_, -, heq⟩ := Option.map_eq_some_iff.mp hs
    obtain ⟨-, rfl⟩ := Prod.mk.inj heq
    split
    · exact h
    · exact ⟨h.config, h.writes, sizeT_lt (d.readCount + 1)⟩
  | stats count off room =>
    obtain ⟨_, -, heq⟩ := Option.map_eq_some_iff.mp hs
    cases heq
    exact h
  | config call =>
    obtain ⟨⟨r', c'⟩, hstep, heq⟩ := Option.map_eq_some_iff.mp hs
    cases heq
    obtain ⟨_, _, hstep', hinv⟩ := step_ok h.config hc
    rw [hstep] at hstep'
    cases hstep'
    exact ⟨hinv, step_writeCount hstep h.writes, h.reads⟩

theorem Driver.inv_initial : Driver.initial.Inv :=
  ⟨ProcfsDemo.inv_initial, show (0 : Nat) < 2 ^ 64 by decide, show (0 : Nat) < 2 ^ 64 by decide⟩

theorem Running.inv (h : Running hz d) : d.Inv :=
  Machine.Reach.invariant Driver.inv_initial (fun _ _ _ _ hs hc => hs.step hc) h

/-! ## The texts -/

theorem infoText_length (hz : Hz) (jiffies : UInt64) :
    0 < (infoText hz jiffies).length ∧ (infoText hz jiffies).length < 256 := by
  have huptime : (decimal (jiffies.toNat / hz.val : Nat)).length ≤ 20 := by
    refine length_decimal_natCast_le (by decide) ?_
    have hlt := jiffies.toNat_lt
    have hle := Nat.div_le_self jiffies.toNat hz.val
    omega
  have hrate : (decimal (hz.val : Nat)).length ≤ 5 := by
    have hlt := hz.upper
    exact length_decimal_natCast_le (by decide) (by omega)
  simp only [infoText, List.length_append, CStr.ascii, List.length_map]
  refine ⟨Nat.add_pos_right _ (by decide), ?_⟩
  have hfirst : "Driver: procfs_demo\nVersion: 1.0\nUptime: ".toList.length = 41 := by decide
  have hsecond : " seconds\nHZ: ".toList.length = 13 := by decide
  have hthird : "\n".toList.length = 1 := by decide
  omega

theorem statsText_length (h : d.Inv) : 0 < (statsText d).length ∧ (statsText d).length < 128 := by
  have hreads := length_decimal_natCast_le (k := 20) (by decide) (h.reads.trans (by decide))
  have hwrites := length_decimal_natCast_le (k := 20) (by decide) (h.writes.trans (by decide))
  simp only [statsText, List.length_append, CStr.ascii, List.length_map]
  refine ⟨Nat.add_pos_right _ (by decide), ?_⟩
  have hfirst : "Reads:  ".toList.length = 8 := by decide
  have hsecond : "\nWrites: ".toList.length = 9 := by decide
  have hthird : "\n".toList.length = 1 := by decide
  omega

/-! ## The reads -/

theorem snprintf_of_lt (h : text.length < size) : snprintf size text = text ++ [0] := by
  rw [snprintf, List.take_of_length_le (by omega)]

theorem generatedRead_servesOnce (hpos : 0 < text.length) (h : text.length < size) :
    (generatedRead size text).ServesOnce text where
  start := by
    intro c _
    have hlen : (if c < text.length then (c : Int) else text.length) =
        (min c (text.length - 0) : Nat) := by
      split <;> omega
    have hpiece := @copyToUser_piece (snprintf size text) text.length c 0 c
      (by rw [snprintf_of_lt h, List.length_append]; omega) hpos
    rw [generatedRead, if_neg (Int.lt_irrefl 0)]
    simp only [hlen]
    rw [snprintf_of_lt h, List.take_left] at hpiece
    rw [snprintf_of_lt h]
    exact hpiece
  rest := fun c off hoff => if_pos hoff

theorem infoReader_eq (m : Moment hz) : m.infoReader = generatedRead 256 m.infoText := by
  funext count off room
  rw [Moment.infoReader, infoRead, Option.map_map]
  exact congrFun Option.map_id _

/-- The text of a generated file that does not change meanwhile is returned in full, with every read
after it returning 0, exactly if the first read asks for all of it. The reads of the configuration
file return its string in full whatever they ask for. -/
theorem procfs_readsWhole_iff (moment : Nat → Moment hz) (count : Nat → Nat)
    (hc : ∀ n, 0 < count n ∧ count n ≤ maxCount) (text : List UInt8) :
    ((∀ n, (moment n).infoText = text) →
      (ReadsWhole (fun n => (moment n).infoReader) count text ↔ text.length ≤ count 0)) ∧
    ((∀ n, statsText (moment n).driver = text) →
      (ReadsWhole (fun n => statsRead (moment n).driver) count text ↔ text.length ≤ count 0)) ∧
    ((∀ n, (moment n).driver.config.text.bytes = text) →
      ReadsWhole (fun n => configRead (moment n).driver.config) count text) := by
  refine ⟨fun ht => ?_, fun ht => ?_, fun ht => ?_⟩
  · obtain ⟨hpos, hlt⟩ : 0 < text.length ∧ text.length < 256 := by
      rw [← ht 0]
      exact infoText_length hz (moment 0).jiffies
    refine readsWhole_of_servesOnce (fun n => ?_) hc hpos
    rw [infoReader_eq, ht n]
    exact generatedRead_servesOnce hpos hlt
  · obtain ⟨hpos, hlt⟩ : 0 < text.length ∧ text.length < 128 := by
      rw [← ht 0]
      exact statsText_length (moment 0).running.inv
    refine readsWhole_of_servesOnce (fun n => ?_) hc hpos
    rw [statsRead, ht n]
    exact generatedRead_servesOnce hpos hlt
  · refine readsWhole_of_serves (fun n => ?_) hc
    rw [← ht n]
    exact configRead_serves (moment n).running.inv.config

/-- 100 ticks a second. -/
def hundredHz : Hz := ⟨100, by decide, by decide⟩

/-- The module just loaded. -/
def freshMoment : Moment hundredHz := ⟨.initial, 0, .init⟩

/-- One reader of the info file asks for a page at a time, which is enough. -/
theorem procfs_readsWhole_page :
    ReadsWhole (fun _ => freshMoment.infoReader) (fun _ => 4096) freshMoment.infoText := by
  have hlt := (infoText_length hundredHz freshMoment.jiffies).2
  refine (((procfs_readsWhole_iff (fun _ => freshMoment) (fun _ => 4096)
    (fun _ => by decide) freshMoment.infoText).1 fun _ => rfl).mpr ?_)
  exact (Nat.le_of_lt hlt).trans (by decide)

/-- A reader that asks for one byte at a time gets the `D` of the info file and no more, while it gets
the whole of the configuration file. -/
theorem infoRead_bytewise_ends_early :
    ¬ ReadsWhole (fun _ => freshMoment.infoReader) (fun _ => 1) freshMoment.infoText ∧
      ReadsWhole (fun _ => configRead freshMoment.driver.config) (fun _ => 1)
        freshMoment.driver.config.text.bytes := by
  obtain ⟨hpos, hlt⟩ := infoText_length hundredHz freshMoment.jiffies
  have hone : ∀ _ : Nat, 0 < 1 ∧ 1 ≤ maxCount := fun _ => by decide
  constructor
  · rw [infoReader_eq]
    intro h
    have hle := (readsWhole_of_servesOnce (fun _ => generatedRead_servesOnce hpos hlt) hone hpos).mp h
    exact absurd hle (by decide)
  · exact readsWhole_of_serves (fun _ => configRead_serves freshMoment.running.inv.config) hone

end ProcfsDemo
