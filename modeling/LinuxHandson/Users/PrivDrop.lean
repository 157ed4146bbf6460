import LinuxHandson.Lib.Credentials

/-!
# Dropping privileges

`drop_privileges` gives up root for a user in three calls, and probes with a fourth whether root can be
taken back. Each call may fail by the rules, or for a reason of its own.
-/

namespace PrivDrop

open CLib

/-- What `getpwnam` finds, and the groups that `initgroups` sets for the user. -/
structure User where
  pwUid : Id
  pwGid : Id
  groups : List Id

/-- The calls that fail for another reason than the rules. -/
structure Failures where
  initgroups : Bool
  setgid : Bool
  setuid : Bool
  /-- The second `setuid`, which probes. -/
  probe : Bool

/-- Steps 3 and 4 of `drop_privileges`: the user ID is set, and the probe must not get root back. -/
def dropUid (pw : User) (fails : Failures) (c : Creds) : Int × Creds :=
  match c.setuid fails.setuid pw.pwUid with
  | none => (-1, c)
  | some c =>
    match c.setuid fails.probe 0 with
    | some c => (-1, c)
    | none => (0, c)

/-- `drop_privileges`: what it returns, and the credentials after it. -/
def dropPrivileges (pw : Option User) (fails : Failures) (c : Creds) : Int × Creds :=
  match pw with
  | none => (-1, c)
  | some pw =>
    match c.setgroups fails.initgroups pw.groups with
    | none => (-1, c)
    | some c =>
      match c.setgid fails.setgid pw.pwGid with
      | none => (-1, c)
      | some c => dropUid pw fails c

/-- `main` from the check for root on: what it returns, and the credentials after it. -/
def main (pw : Option User) (fails : Failures) (c : Creds) : Int × Creds :=
  if c.euid ≠ 0 then (0, c)
  else if (dropPrivileges pw fails c).1 < 0 then (1, (dropPrivileges pw fails c).2)
  else (0, (dropPrivileges pw fails c).2)

/-- The process has the IDs and groups of the user, and no way back to root. -/
structure Dropped (pw : User) (c : Creds) : Prop where
  gids : c.rgid = pw.pwGid ∧ c.egid = pw.pwGid ∧ c.sgid = pw.pwGid
  groups : c.groups = pw.groups
  uids : c.ruid ≠ 0 ∧ c.euid ≠ 0 ∧ c.suid ≠ 0
  euid : c.euid = pw.pwUid
  noReturn : c.NoReturn

/-- The three calls succeed without `CAP_SETUID`, so that the user ID is set beside one that is still
root, and the probe fails although it could succeed. -/
structure BlindProbe (pw : User) (fails : Failures) (c : Creds) : Prop where
  initgroups : fails.initgroups = false
  setgid : fails.setgid = false
  setuid : fails.setuid = false
  valid : pw.pwGid ≠ invalidId ∧ pw.pwUid ≠ invalidId
  caps : .setgid ∈ c.effective ∧ .setuid ∉ c.effective
  root : pw.pwUid = c.ruid ∧ c.suid = 0 ∨ pw.pwUid = c.suid ∧ c.ruid = 0
  probe : fails.probe = true

end PrivDrop
