import LinuxHandson.Users.PrivDrop

/-!
# What is left of root

With `CAP_SETUID` all three user IDs are set and the capabilities go. Without it only the effective ID is
set, and the probe is what tells whether root is left in the real or the saved one.
-/

namespace PrivDrop

open CLib Creds

variable {c c₁ c₂ : Creds} {pw : User} {fails : Failures}

/-! ## The groups -/

/-- The credentials when the groups are set. -/
def prepared (pw : User) (c : Creds) : Creds :=
  { c with groups := pw.groups, rgid := pw.pwGid, egid := pw.pwGid, sgid := pw.pwGid }

/-- `initgroups` and `setgid` succeed together, and only with `CAP_SETGID`. -/
theorem eq_prepared (hg : c.setgroups fails.initgroups pw.groups = some c₁)
    (hs : c₁.setgid fails.setgid pw.pwGid = some c₂) :
    fails.initgroups = false ∧ fails.setgid = false ∧ .setgid ∈ c.effective ∧
      pw.pwGid ≠ invalidId ∧ c₂ = prepared pw c := by
  obtain ⟨hinit, hcap, rfl⟩ := setgroups_cases hg
  obtain ⟨hgid, hvalid, ⟨-, rfl⟩ | ⟨hnocap, -⟩⟩ := setgid_cases hs
  · exact ⟨hinit, hgid, hcap, hvalid, rfl⟩
  · exact absurd hcap hnocap

/-- With `CAP_SETGID` they fail only for a reason of their own. -/
theorem groups_succeed (hinit : fails.initgroups = false) (hgid : fails.setgid = false)
    (hvalid : pw.pwGid ≠ invalidId) (hcap : .setgid ∈ c.effective) :
    c.setgroups fails.initgroups pw.groups = some { c with groups := pw.groups } ∧
      Creds.setgid { c with groups := pw.groups } fails.setgid pw.pwGid = some (prepared pw c) := by
  constructor
  · unfold Creds.setgroups
    rw [hinit, if_neg Bool.false_ne_true, if_pos hcap]
  · unfold Creds.setgid
    rw [hgid, if_neg (by simp [hvalid]), if_pos hcap]
    rfl

/-! ## The user -/

theorem Dropped.of_rootless (hc : c₂.Rootless)
    (hgids : c₂.rgid = pw.pwGid ∧ c₂.egid = pw.pwGid ∧ c₂.sgid = pw.pwGid)
    (hgroups : c₂.groups = pw.groups) (heuid : c₂.euid = pw.pwUid) : Dropped pw c₂ :=
  ⟨hgids, hgroups, ⟨hc.ruid, hc.euid, hc.suid⟩, heuid, hc.noReturn⟩

/-- A probe that is not made to fail succeeds where the real or the saved ID is root. -/
theorem probe_succeeds (h : c.ruid = 0 ∨ c.suid = 0) : ∃ c', c.setuid false 0 = some c' := by
  have hok : ¬ (false = true ∨ (0 : Id) = invalidId) := by decide
  unfold Creds.setuid
  rw [if_neg hok]
  split
  · exact ⟨_, rfl⟩
  · rw [if_pos (h.imp Eq.symm Eq.symm)]
    exact ⟨_, rfl⟩

theorem dropUid_rootless (h : c.setuid fails.setuid pw.pwUid = some c₁) (hc : c₁.Rootless) :
    dropUid pw fails c = (0, c₁) := by
  unfold dropUid
  rw [h]
  simp only [hc.setuid_zero]

/-- With one ID left that is root, the function fails unless the probe fails. -/
theorem dropUid_root (h : c.setuid fails.setuid pw.pwUid = some c₁)
    (hroot : c₁.ruid = 0 ∨ c₁.suid = 0) :
    fails.probe = true ∧ dropUid pw fails c = (0, c₁) ∨
      fails.probe = false ∧ (dropUid pw fails c).1 = -1 := by
  unfold dropUid
  rw [h]
  cases hp : fails.probe with
  | true =>
    have hnone : c₁.setuid true 0 = none := by
      unfold Creds.setuid
      exact if_pos (Or.inl rfl)
    simp [hnone]
  | false =>
    obtain ⟨c', hc'⟩ := probe_succeeds hroot
    simp [hc']

/-- What `setuid` makes of a process whose effective ID is root: nothing of root is left, or it had no
`CAP_SETUID` and the user's ID beside root. -/
theorem setuid_left (h0 : c.euid = 0) (hu : pw.pwUid ≠ 0)
    (h : (prepared pw c).setuid fails.setuid pw.pwUid = some c₁) :
    fails.setuid = false ∧ pw.pwUid ≠ invalidId ∧ c₁.euid = pw.pwUid ∧
      (c₁.rgid = pw.pwGid ∧ c₁.egid = pw.pwGid ∧ c₁.sgid = pw.pwGid) ∧ c₁.groups = pw.groups ∧
      (c₁.Rootless ∧ (.setuid ∈ c.effective ∨ c.ruid ≠ 0 ∧ c.suid ≠ 0) ∨
        .setuid ∉ c.effective ∧ c₁.ruid = c.ruid ∧ c₁.suid = c.suid ∧
          (pw.pwUid = c.ruid ∧ c.suid = 0 ∨ pw.pwUid = c.suid ∧ c.ruid = 0)) := by
  obtain ⟨hok, hvalid, ⟨hcap, rfl⟩ | ⟨hcap, hid, rfl⟩⟩ := setuid_cases h
  · refine ⟨hok, hvalid, rfl, ⟨rfl, rfl, rfl⟩, rfl, Or.inl ⟨?_, Or.inl hcap⟩⟩
    exact rootless_withUids (Or.inr (Or.inl h0)) hu hu hu
  · refine ⟨hok, hvalid, rfl, ⟨rfl, rfl, rfl⟩, rfl, ?_⟩
    by_cases hroot : c.ruid ≠ 0 ∧ c.suid ≠ 0
    · left
      exact ⟨rootless_withUids (Or.inr (Or.inl h0)) hroot.1 hu hroot.2, Or.inr hroot⟩
    · right
      refine ⟨hcap, rfl, rfl, ?_⟩
      rcases hid with heq | heq
      · refine Or.inl ⟨heq, ?_⟩
        by_contra hs
        exact hroot ⟨fun hr => hu (heq.trans hr), hs⟩
      · refine Or.inr ⟨heq, ?_⟩
        by_contra hr
        exact hroot ⟨hr, fun hs => hu (heq.trans hs)⟩

/-! ## The function -/

theorem dropPrivileges_fails (h : ∀ c₁ c₂ c₃ : Creds,
    ¬ (c.setgroups fails.initgroups pw.groups = some c₁ ∧ c₁.setgid fails.setgid pw.pwGid = some c₂ ∧
      c₂.setuid fails.setuid pw.pwUid = some c₃)) : (dropPrivileges (some pw) fails c).1 = -1 := by
  unfold dropPrivileges
  simp only
  split
  · rfl
  · next c₁ h1 =>
    split
    · rfl
    · next c₂ h2 =>
      unfold dropUid
      split
      · rfl
      · next c₃ h3 => exact absurd ⟨h1, h2, h3⟩ (h c₁ c₂ c₃)

theorem dropPrivileges_eq {c₂ : Creds} (hg : c.setgroups fails.initgroups pw.groups = some c₁)
    (hs : c₁.setgid fails.setgid pw.pwGid = some c₂) :
    dropPrivileges (some pw) fails c = dropUid pw fails c₂ := by
  unfold dropPrivileges
  simp only [hg, hs]

theorem BlindProbe.calls (h : BlindProbe pw fails c) :
    c.setgroups fails.initgroups pw.groups = some { c with groups := pw.groups } ∧
      Creds.setgid { c with groups := pw.groups } fails.setgid pw.pwGid = some (prepared pw c) ∧
      (prepared pw c).setuid fails.setuid pw.pwUid =
        some ((prepared pw c).withUids c.ruid pw.pwUid c.suid) := by
  have hcap : Cap.setuid ∉ (prepared pw c).effective := h.caps.2
  have hid : pw.pwUid = (prepared pw c).ruid ∨ pw.pwUid = (prepared pw c).suid :=
    h.root.imp And.left And.left
  obtain ⟨hgroups, hgids⟩ := groups_succeed h.initgroups h.setgid h.valid.1 h.caps.1
  refine ⟨hgroups, hgids, ?_⟩
  unfold Creds.setuid
  rw [h.setuid, if_neg (by simp [h.valid.2]), if_neg hcap, if_pos hid]
  rfl

/-- For a process with the effective ID of root and a user who is not root, the success of
`drop_privileges` means that root is given up, unless the probe fails for a reason of its own after the
three calls have succeeded without `CAP_SETUID` and left root in the real or the saved ID. -/
theorem dropPrivileges_drops_iff (c : Creds) (pw : User) (fails : Failures) (h0 : c.euid = 0)
    (hu : pw.pwUid ≠ 0) :
    ((dropPrivileges (some pw) fails c).1 = 0 → Dropped pw (dropPrivileges (some pw) fails c).2) ↔
      ¬ BlindProbe pw fails c := by
  by_cases hcalls : ∃ c₁ c₂ c₃ : Creds, c.setgroups fails.initgroups pw.groups = some c₁ ∧
      c₁.setgid fails.setgid pw.pwGid = some c₂ ∧ c₂.setuid fails.setuid pw.pwUid = some c₃
  · obtain ⟨c₁, c₂, c₃, h1, h2, h3⟩ := hcalls
    rw [dropPrivileges_eq h1 h2]
    obtain ⟨hinit, hgid, hcapgid, hgvalid, rfl⟩ := eq_prepared h1 h2
    obtain ⟨hok, huvalid, heuid, hgids, hgroups, ⟨hrootless, hnone⟩ | ⟨hcap, hr, hs, hroot⟩⟩ :=
      setuid_left h0 hu h3
    · rw [dropUid_rootless h3 hrootless]
      refine iff_of_true (fun _ => .of_rootless hrootless hgids hgroups heuid) fun hb => ?_
      rcases hnone with hcap | ⟨hr, hs⟩
      · exact hb.caps.2 hcap
      · rcases hb.root with ⟨-, h⟩ | ⟨-, h⟩
        · exact hs h
        · exact hr h
    · have hleft : c₃.ruid = 0 ∨ c₃.suid = 0 := by
        rw [hr, hs]
        exact hroot.symm.imp And.right And.right
      rcases dropUid_root h3 hleft with ⟨hprobe, heq⟩ | ⟨hprobe, hret⟩
      · rw [heq]
        refine iff_of_false (fun himp => ?_) fun hb => ?_
        · have huids := (himp rfl).uids
          exact hleft.elim huids.1 huids.2.2
        · exact hb ⟨hinit, hgid, hok, ⟨hgvalid, huvalid⟩, ⟨hcapgid, hcap⟩, hroot, hprobe⟩
      · rw [hret]
        refine iff_of_true (fun h => absurd h (by decide)) fun hb => ?_
        rw [hb.probe] at hprobe
        cases hprobe
  · have hfails : (dropPrivileges (some pw) fails c).1 = -1 :=
      dropPrivileges_fails fun c₁ c₂ c₃ h => hcalls ⟨c₁, c₂, c₃, h⟩
    rw [hfails]
    refine iff_of_true (fun h => absurd h (by decide)) fun hb => ?_
    exact hcalls ⟨_, _, _, hb.calls⟩

/-- `nobody` -/
def nobody : User := ⟨65534, 65534, [65534]⟩

/-- The calls fail by the rules only. -/
def noFailures : Failures := ⟨false, false, false, false⟩

/-- A process of root with all capabilities. -/
def rootCreds : Creds := ⟨0, 0, 0, 0, 0, 0, [0], {.setuid, .setgid}, {.setuid, .setgid}, by decide⟩

theorem dropPrivileges_drops_root : Dropped nobody (dropPrivileges (some nobody) noFailures rootCreds).2 :=
  (dropPrivileges_drops_iff rootCreds nobody noFailures rfl (by decide)).mpr
    (fun h => by cases h.probe) (by decide)

/-- A process that `nobody` started from a program of root, without `CAP_SETUID`. -/
def setuidProgram : Creds := ⟨65534, 0, 0, 65534, 0, 0, [65534], {.setgid}, {.setgid}, by decide⟩

/-- The probe fails for want of memory. -/
def probeFails : Failures := ⟨false, false, false, true⟩

/-- The function returns 0 with root left in the saved ID, and `setuid(0)` succeeds after it. -/
theorem setuidProgram_not_dropped :
    (dropPrivileges (some nobody) probeFails setuidProgram).1 = 0 ∧
      (dropPrivileges (some nobody) probeFails setuidProgram).2.suid = 0 ∧
      ((dropPrivileges (some nobody) probeFails setuidProgram).2.setuid false 0).isSome ∧
      ¬ Dropped nobody (dropPrivileges (some nobody) probeFails setuidProgram).2 := by
  have hsuid : (dropPrivileges (some nobody) probeFails setuidProgram).2.suid = 0 := by decide
  exact ⟨by decide, hsuid, by decide, fun h => h.uids.2.2 hsuid⟩

/-! ## The program -/

/-- With both capabilities nothing but a failure of its own keeps a call from succeeding, and `main` ends
well with root given up, whatever the probe fails for. -/
theorem main_drops (h0 : c.euid = 0) (hcaps : .setgid ∈ c.effective ∧ .setuid ∈ c.effective)
    (hvalid : pw.pwGid ≠ invalidId ∧ pw.pwUid ≠ invalidId) (hu : pw.pwUid ≠ 0)
    (hfails : fails.initgroups = false ∧ fails.setgid = false ∧ fails.setuid = false) :
    (main (some pw) fails c).1 = 0 ∧ Dropped pw (main (some pw) fails c).2 := by
  obtain ⟨hinit, hgid, hok⟩ := hfails
  have hcap : Cap.setuid ∈ (prepared pw c).effective := hcaps.2
  obtain ⟨h1, h2⟩ := groups_succeed hinit hgid hvalid.1 hcaps.1
  have h3 : (prepared pw c).setuid fails.setuid pw.pwUid =
      some ((prepared pw c).withUids pw.pwUid pw.pwUid pw.pwUid) := by
    unfold Creds.setuid
    rw [hok, if_neg (by simp [hvalid.2]), if_pos hcap]
  have hrootless : ((prepared pw c).withUids pw.pwUid pw.pwUid pw.pwUid).Rootless :=
    rootless_withUids (Or.inr (Or.inl h0)) hu hu hu
  have hdrop := (dropPrivileges_eq h1 h2).trans (dropUid_rootless h3 hrootless)
  unfold main
  rw [if_neg (by simp [h0]), hdrop]
  exact ⟨rfl, .of_rootless hrootless ⟨rfl, rfl, rfl⟩ rfl rfl⟩

end PrivDrop
