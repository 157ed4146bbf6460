import Mathlib.Data.Finset.Basic

/-!
# Credentials of a process

The calls that change the user and group IDs of a process, by the rules of Linux without securebits.
A process with `CAP_SETUID` sets all its user IDs to any value; without it, it can only exchange those
that it has. The capabilities go when the last user ID that was root is given up.
-/

namespace CLib

/-- `uid_t` and `gid_t` -/
abbrev Id := UInt32

/-- `(uid_t) -1` -/
def invalidId : Id := 0xFFFFFFFF

/-- The capabilities that these calls look at. -/
inductive Cap where
  /-- `CAP_SETUID` -/
  | setuid
  /-- `CAP_SETGID` -/
  | setgid
deriving DecidableEq

/-- The credentials, as far as these calls read and change them. -/
structure Creds where
  ruid : Id
  euid : Id
  suid : Id
  rgid : Id
  egid : Id
  sgid : Id
  groups : List Id
  permitted : Finset Cap
  effective : Finset Cap
  effective_sub : effective ⊆ permitted
deriving DecidableEq

namespace Creds

/-- One of the user IDs is that of root. -/
def HasRoot (ruid euid suid : Id) : Prop := ruid = 0 ∨ euid = 0 ∨ suid = 0

instance (r e s : Id) : Decidable (HasRoot r e s) := inferInstanceAs (Decidable (_ ∨ _))

/-- The permitted set after a change of the user IDs. -/
def permittedAfter (c : Creds) (r e s : Id) : Finset Cap :=
  if HasRoot c.ruid c.euid c.suid ∧ ¬ HasRoot r e s then ∅ else c.permitted

/-- The effective set after it. -/
def effectiveAfter (c : Creds) (r e s : Id) : Finset Cap :=
  if HasRoot c.ruid c.euid c.suid ∧ ¬ HasRoot r e s then ∅
  else if c.euid = 0 ∧ e ≠ 0 then ∅
  else if c.euid ≠ 0 ∧ e = 0 then c.permitted
  else c.effective

theorem effectiveAfter_sub (c : Creds) (r e s : Id) :
    c.effectiveAfter r e s ⊆ c.permittedAfter r e s := by
  unfold effectiveAfter permittedAfter
  split
  · exact Finset.empty_subset _
  · split
    · exact Finset.empty_subset _
    · split
      · exact Finset.Subset.refl _
      · exact c.effective_sub

/-- New user IDs, and the capabilities that go with them. -/
def withUids (c : Creds) (r e s : Id) : Creds :=
  { c with
    ruid := r
    euid := e
    suid := s
    permitted := c.permittedAfter r e s
    effective := c.effectiveAfter r e s
    effective_sub := c.effectiveAfter_sub r e s }

/-- `setuid(uid)`, which may also fail for another reason than the rules. -/
def setuid (c : Creds) (fails : Bool) (uid : Id) : Option Creds :=
  if fails = true ∨ uid = invalidId then none
  else if .setuid ∈ c.effective then some (c.withUids uid uid uid)
  else if uid = c.ruid ∨ uid = c.suid then some (c.withUids c.ruid uid c.suid)
  else none

/-- `setgid(gid)` -/
def setgid (c : Creds) (fails : Bool) (gid : Id) : Option Creds :=
  if fails = true ∨ gid = invalidId then none
  else if .setgid ∈ c.effective then some { c with rgid := gid, egid := gid, sgid := gid }
  else if gid = c.rgid ∨ gid = c.sgid then some { c with egid := gid }
  else none

/-- `setgroups`, as `initgroups` calls it with the groups of a user. -/
def setgroups (c : Creds) (fails : Bool) (groups : List Id) : Option Creds :=
  if fails = true then none
  else if .setgid ∈ c.effective then some { c with groups := groups }
  else none

/-- One of the user IDs of the process. -/
def Own (c : Creds) (id : Id) : Prop := id = c.ruid ∨ id = c.euid ∨ id = c.suid

instance (c : Creds) (id : Id) : Decidable (c.Own id) := inferInstanceAs (Decidable (_ ∨ _))

/-- A condition on an ID that may be given, decided on that ID. -/
local instance (o : Option Id) (P : Id → Prop) [DecidablePred P] : Decidable (∀ id ∈ o, P id) :=
  Option.decidableForallMem o

/-- `setresuid`, where `none` leaves an ID as it is. -/
def setresuid (c : Creds) (r e s : Option Id) : Option Creds :=
  if .setuid ∈ c.effective ∨ (∀ id ∈ r, c.Own id) ∧ (∀ id ∈ e, c.Own id) ∧ ∀ id ∈ s, c.Own id then
    some (c.withUids (r.getD c.ruid) (e.getD c.euid) (s.getD c.suid))
  else none

/-- `setreuid`: the saved ID follows a change of the others. -/
def setreuid (c : Creds) (r e : Option Id) : Option Creds :=
  if .setuid ∈ c.effective ∨ (∀ id ∈ r, id = c.ruid ∨ id = c.euid) ∧
      ∀ id ∈ e, c.Own id then
    some (c.withUids (r.getD c.ruid) (e.getD c.euid)
      (if r.isSome ∨ e.getD c.ruid ≠ c.ruid then e.getD c.euid else c.suid))
  else none

/-- `capset`, which takes capabilities away from the permitted set and changes the effective set within
it. -/
def capset (c : Creds) (permitted effective : Finset Cap) : Option Creds :=
  if h : permitted ⊆ c.permitted ∧ effective ⊆ permitted then
    some { c with permitted := permitted, effective := effective, effective_sub := h.2 }
  else none

/-- A call that changes the credentials. -/
inductive Call where
  | setuid (uid : Id)
  | setreuid (r e : Option Id)
  | setresuid (r e s : Option Id)
  | setgid (gid : Id)
  | setgroups (groups : List Id)
  | capset (permitted effective : Finset Cap)

/-- The credentials after a call, which changes nothing if it fails. -/
def after (c : Creds) (call : Call) : Creds :=
  (match call with
    | .setuid uid => c.setuid false uid
    | .setreuid r e => c.setreuid r e
    | .setresuid r e s => c.setresuid r e s
    | .setgid gid => c.setgid false gid
    | .setgroups groups => c.setgroups false groups
    | .capset permitted effective => c.capset permitted effective).getD c

/-- No calls lead to credentials with which `setuid(0)` succeeds. -/
def NoReturn (c : Creds) : Prop := ∀ calls : List Call, (calls.foldl after c).setuid false 0 = none

variable {c c' : Creds} {fails : Bool} {r e s : Id}

/-! ## What a call can do -/

/-- The two ways in which a change of one ID comes about. -/
theorem change_cases {p q r : Prop} [Decidable p] [Decidable q] [Decidable r] {byCap byOwn : Creds}
    (h : (if p then none else if q then some byCap else if r then some byOwn else none) = some c') :
    ¬ p ∧ (q ∧ c' = byCap ∨ ¬ q ∧ r ∧ c' = byOwn) := by
  split at h
  · cases h
  · next hok =>
    refine ⟨hok, ?_⟩
    split at h
    · next hcap => exact Or.inl ⟨hcap, (Option.some.inj h).symm⟩
    · next hcap =>
      split at h
      · next hown => exact Or.inr ⟨hcap, hown, (Option.some.inj h).symm⟩
      · cases h

theorem setuid_cases {uid : Id} (h : c.setuid fails uid = some c') :
    fails = false ∧ uid ≠ invalidId ∧ (.setuid ∈ c.effective ∧ c' = c.withUids uid uid uid ∨
      .setuid ∉ c.effective ∧ (uid = c.ruid ∨ uid = c.suid) ∧ c' = c.withUids c.ruid uid c.suid) := by
  obtain ⟨hok, hcases⟩ := change_cases h
  rw [not_or, Bool.not_eq_true] at hok
  exact ⟨hok.1, hok.2, hcases⟩

theorem setgid_cases {gid : Id} (h : c.setgid fails gid = some c') :
    fails = false ∧ gid ≠ invalidId ∧
      (.setgid ∈ c.effective ∧ c' = { c with rgid := gid, egid := gid, sgid := gid } ∨
        .setgid ∉ c.effective ∧ (gid = c.rgid ∨ gid = c.sgid) ∧ c' = { c with egid := gid }) := by
  obtain ⟨hok, hcases⟩ := change_cases h
  rw [not_or, Bool.not_eq_true] at hok
  exact ⟨hok.1, hok.2, hcases⟩

theorem setgroups_cases {groups : List Id} (h : c.setgroups fails groups = some c') :
    fails = false ∧ .setgid ∈ c.effective ∧ c' = { c with groups := groups } := by
  unfold setgroups at h
  split at h
  · cases h
  · next hok =>
    split at h
    · next hcap => exact ⟨Bool.not_eq_true _ ▸ hok, hcap, (Option.some.inj h).symm⟩
    · cases h

/-! ## Root given up -/

/-- No user ID is root, and the process cannot get `CAP_SETUID`. -/
structure Rootless (c : Creds) : Prop where
  ruid : c.ruid ≠ 0
  euid : c.euid ≠ 0
  suid : c.suid ≠ 0
  cap : .setuid ∉ c.permitted

section Rootless

variable (h : c.Rootless)

include h

theorem Rootless.effective : .setuid ∉ c.effective := fun hmem => h.cap (c.effective_sub hmem)

/-- The IDs of the process are not root. -/
theorem Rootless.own {id : Id} (hid : c.Own id) : id ≠ 0 := by
  rcases hid with rfl | rfl | rfl
  · exact h.ruid
  · exact h.euid
  · exact h.suid

/-- Among user IDs that are not root, nothing comes into the permitted set. -/
theorem Rootless.withUids (hr : r ≠ 0) (he : e ≠ 0) (hs : s ≠ 0) : (c.withUids r e s).Rootless where
  ruid := hr
  euid := he
  suid := hs
  cap := by
    unfold Creds.withUids permittedAfter
    simp only
    split
    · exact Finset.notMem_empty _
    · exact h.cap

theorem Rootless.setuid {uid : Id} (hs : c.setuid fails uid = some c') : c'.Rootless := by
  obtain ⟨-, -, ⟨hcap, -⟩ | ⟨-, hid, rfl⟩⟩ := setuid_cases hs
  · exact absurd hcap h.effective
  · exact h.withUids h.ruid (h.own (hid.imp id Or.inr)) h.suid

theorem Rootless.setuid_zero (fails : Bool) : c.setuid fails 0 = none := by
  rw [Option.eq_none_iff_forall_ne_some]
  intro c' hs
  obtain ⟨-, -, ⟨hcap, -⟩ | ⟨-, hid, -⟩⟩ := setuid_cases hs
  · exact h.effective hcap
  · exact h.own (hid.imp id Or.inr) rfl

/-- An ID of the process, or one that it has already. -/
theorem Rootless.getD {o : Option Id} {id : Id} (ho : ∀ id ∈ o, c.Own id) (hid : id ≠ 0) :
    o.getD id ≠ 0 := by
  cases o with
  | none => exact hid
  | some _ => exact h.own (ho _ rfl)

theorem Rootless.setresuid {r e s : Option Id} (hs : c.setresuid r e s = some c') : c'.Rootless := by
  unfold Creds.setresuid at hs
  split at hs
  · next hor =>
    obtain rfl := Option.some.inj hs
    obtain ⟨hr, he, hsu⟩ := hor.resolve_left h.effective
    exact h.withUids (h.getD hr h.ruid) (h.getD he h.euid) (h.getD hsu h.suid)
  · cases hs

theorem Rootless.setreuid {r e : Option Id} (hs : c.setreuid r e = some c') : c'.Rootless := by
  unfold Creds.setreuid at hs
  split at hs
  · next hor =>
    obtain rfl := Option.some.inj hs
    obtain ⟨hr, he⟩ := hor.resolve_left h.effective
    have hreal : ∀ id ∈ r, c.Own id := fun id hid => (hr id hid).imp_right Or.inl
    refine h.withUids (h.getD hreal h.ruid) (h.getD he h.euid) ?_
    split
    · exact h.getD he h.euid
    · exact h.suid
  · cases hs

theorem Rootless.setgid {gid : Id} (hs : c.setgid fails gid = some c') : c'.Rootless := by
  obtain ⟨-, -, ⟨-, rfl⟩ | ⟨-, -, rfl⟩⟩ := setgid_cases hs
  · exact ⟨h.ruid, h.euid, h.suid, h.cap⟩
  · exact ⟨h.ruid, h.euid, h.suid, h.cap⟩

theorem Rootless.setgroups {groups : List Id} (hs : c.setgroups fails groups = some c') :
    c'.Rootless := by
  obtain ⟨-, -, rfl⟩ := setgroups_cases hs
  exact ⟨h.ruid, h.euid, h.suid, h.cap⟩

theorem Rootless.capset {permitted effective : Finset Cap}
    (hs : c.capset permitted effective = some c') : c'.Rootless := by
  unfold Creds.capset at hs
  split at hs
  · next hsub =>
    obtain rfl := Option.some.inj hs
    exact ⟨h.ruid, h.euid, h.suid, fun hmem => h.cap (hsub.1 hmem)⟩
  · cases hs

theorem Rootless.after (call : Call) : (c.after call).Rootless := by
  have hcall : ∀ o : Option Creds, (∀ c' ∈ o, c'.Rootless) → (o.getD c).Rootless := by
    intro o ho
    cases o with
    | none => exact h
    | some c' => exact ho c' rfl
  refine hcall _ fun c' hs => ?_
  cases call with
  | setuid uid => exact h.setuid hs
  | setreuid r e => exact h.setreuid hs
  | setresuid r e s => exact h.setresuid hs
  | setgid gid => exact h.setgid hs
  | setgroups groups => exact h.setgroups hs
  | capset permitted effective => exact h.capset hs

end Rootless

theorem Rootless.noReturn (h : c.Rootless) : c.NoReturn := by
  intro calls
  induction calls generalizing c with
  | nil => exact h.setuid_zero false
  | cons call calls ih => exact ih (h.after call)

/-- When the last user ID that was root is given up, the capabilities go. -/
theorem rootless_withUids (hroot : HasRoot c.ruid c.euid c.suid) (hr : r ≠ 0) (he : e ≠ 0)
    (hs : s ≠ 0) : (c.withUids r e s).Rootless where
  ruid := hr
  euid := he
  suid := hs
  cap := by
    have hnone : ¬ HasRoot r e s := by
      rintro (h | h | h)
      · exact hr h
      · exact he h
      · exact hs h
    unfold withUids permittedAfter
    simp only
    rw [if_pos ⟨hroot, hnone⟩]
    exact Finset.notMem_empty _

end Creds

end CLib
