import LinuxHandson.Fat16.Proofs.LookupProofs

/-!
# Concurrent requests

All handlers use one `FILE` and one `strtok` pointer. Alone, a request has the same reply from every
state of these, since it seeks before it reads. At the same time, requests reply as they do alone
while no call of one comes between a call of another and the call that relies on it.
-/

namespace Fat16

open CLib

variable {img : Image} {v : Volume}

/-! ## A request alone -/

/-- A read right after a seek does not depend on the state. -/
theorem startFree_seek_read {α : Type} {off size n : Nat} {f : List UInt8 → StdioProg α}
    (hf : ∀ b, Prog.StartFree (stdio img) (f b)) :
    Prog.StartFree (stdio img) (do fseek off; f (← fread size n)) := by
  intro s t
  rw [Prog.run_bind_of_eq (run_fseek img s off), Prog.run_bind_of_eq (run_fread img _ size n),
    Prog.run_bind_of_eq (run_fseek img t off), Prog.run_bind_of_eq (run_fread img _ size n)]
  exact hf _ _ _

theorem fatNextCluster_startFree (c : UInt16) :
    Prog.StartFree (stdio img) (fatNextCluster v c) := by
  refine startFree_seek_read fun b => ?_
  split
  · exact Prog.startFree_ret _
  · exact Prog.startFree_ret _

theorem skipClusters_startFree (n : Nat) :
    ∀ c, Prog.StartFree (stdio img) (skipClusters v n c) := by
  induction n with
  | zero => intro c; exact Prog.startFree_ret c
  | succ n ih =>
    intro c
    rw [skipClusters]
    split
    · exact (fatNextCluster_startFree c).bind ih
    · exact Prog.startFree_ret c

theorem readChain_startFree (size fuel : Nat) :
    ∀ c intra buf, Prog.StartFree (stdio img) (readChain v size fuel c intra buf) := by
  induction fuel with
  | zero => intro c intra buf; exact Prog.startFree_stuck
  | succ fuel ih =>
    intro c intra buf
    rw [readChain]
    split
    · exact startFree_seek_read fun b => (fatNextCluster_startFree c).bind fun c' => ih c' 0 _
    · exact Prog.startFree_ret buf

/-- The loop of `find_entry` seeks before it reads, and uses of the state only the kept pointer. -/
theorem walk_pos_free (fuel : Nat) (off : UInt32) (n : Nat) (c save : CStr) (p q : Nat) :
    (walk v fuel off n c).run (stdio img) ⟨p, save⟩ =
      (walk v fuel off n c).run (stdio img) ⟨q, save⟩ := by
  cases fuel with
  | zero => rfl
  | succ fuel => rfl

theorem findEntry_startFree (fuel : Nat) (path : CStr) :
    Prog.StartFree (stdio img) (findEntry v fuel path) := by
  rw [findEntry]
  split
  · exact Prog.startFree_ret _
  · split
    · exact Prog.startFree_stuck
    · intro s t
      rw [Prog.run_bind_of_eq (run_strtok_some img s _ slash),
        Prog.run_bind_of_eq (run_strtok_some img t _ slash)]
      split
      · rfl
      · exact congrArg _ (walk_pos_free _ _ _ _ _ _ _)

theorem listing_startFree (off n : Nat) :
    Prog.StartFree (stdio img) (do
      fseek off
      return (0, dot :: dotdot :: (← listDir n)) : StdioProg (Int × List CStr)) := by
  intro s t
  obtain ⟨p, hs⟩ := listDir_run img n { s with pos := off }
  obtain ⟨q, ht⟩ := listDir_run img n { t with pos := off }
  rw [Prog.run_bind_of_eq (run_fseek img s off), Prog.run_bind_of_eq hs,
    Prog.run_bind_of_eq (run_fseek img t off), Prog.run_bind_of_eq ht]
  rfl

/-- What looks an entry up and goes on with the outcome. -/
theorem findEntry_bind_startFree {β : Type} {fuel : Nat} {path : CStr}
    {K : Except Int DirEntry → StdioProg β}
    (herr : ∀ ret, Prog.StartFree (stdio img) (K (.error ret)))
    (hok : ∀ e, Prog.StartFree (stdio img) (K (.ok e))) :
    Prog.StartFree (stdio img) (findEntry v fuel path >>= K) := by
  refine (findEntry_startFree fuel path).bind fun r => ?_
  cases r with
  | error ret => exact herr ret
  | ok e => exact hok e

/-- The reply to a request alone is the same from every state. -/
theorem fusefatOps_startFree (uid gid fuel : Nat) (req : Request) :
    Prog.StartFree (stdio img) (fusefatOps v uid gid fuel req) := by
  cases req with
  | getattr path =>
    refine Prog.StartFree.bind ?_ fun _ => Prog.startFree_ret _
    refine findEntry_bind_startFree (fun ret => Prog.startFree_ret _) fun e => ?_
    simp only
    split
    · exact Prog.startFree_ret _
    · exact Prog.startFree_ret _
  | readdir path =>
    refine Prog.StartFree.bind ?_ fun _ => Prog.startFree_ret _
    exact findEntry_bind_startFree (fun ret => Prog.startFree_ret _) fun e => listing_startFree _ _
  | read path size offset =>
    refine Prog.StartFree.bind ?_ fun _ => Prog.startFree_ret _
    refine findEntry_bind_startFree (fun ret => Prog.startFree_ret _) fun e => ?_
    simp only
    split
    · exact Prog.startFree_ret _
    · split
      · exact Prog.startFree_ret _
      · split
        · exact Prog.startFree_stuck
        · exact (skipClusters_startFree _ _).bind fun c =>
            (readChain_startFree _ _ _ _ _).bind fun buf => Prog.startFree_ret _
  | «open» path =>
    refine Prog.StartFree.bind ?_ fun _ => Prog.startFree_ret _
    exact findEntry_bind_startFree (fun ret => Prog.startFree_ret _) fun e => Prog.startFree_ret _

/-! ## Requests at the same time -/

section Pool

variable {ι : Type}

/-- Requests at the same time, over the library's state. Each has a state of its own beside it, in
which its calls are the only ones. -/
abbrev Requests (ι : Type) := Prog.Pool LibCall LibCall.Res (SharedStdio ι) Stdio ι Reply

/-- Requests that start together, each in its own thread. The pointer that `strtok` keeps belongs to
none of them yet. -/
def requestPool (v : Volume) (uid gid fuel : Nat) (req : ι → Request) (s₀ : Stdio) :
    Requests ι :=
  Prog.Pool.start (fun i => fusefatOps v uid gid fuel (req i)) { s₀ with owner := none } s₀

/-- A call of request `i` finds the file position where the calls of the request itself have left
it, and the pointer of `strtok` in the copy of the path that the request itself has made, if it
relies on it. -/
def Unmoved (P : Requests ι) (i : ι) : Prop := Prog.Pool.Undisturbed SameFor P i

/-- The next call of the requests. -/
abbrev requestStep [DecidableEq ι] (img : Image) : Machine.Step (Requests ι) ι Unit :=
  Prog.Pool.step (sharedStdio img) (stdio img)

/-- Along every run in which no `fread` finds the position moved, and no `strtok(NULL)` the pointer,
every request that has ended replied what it replies alone, from whatever state. -/
theorem requests_reply_as_alone [DecidableEq ι] (img : Image) (v : Volume) (uid gid fuel : Nat)
    (req : ι → Request) (s₀ : Stdio) (is : List ι)
    (hl : Machine.Legal (requestStep img) Unmoved (requestPool v uid gid fuel req s₀) is) :
    Machine.Always (requestStep img)
      (fun P => ∀ i r, P.thread i = .ret r →
        ∀ s, ((fusefatOps v uid gid fuel (req i)).run (stdio img) s).map Prod.fst = some r)
      (requestPool v uid gid fuel req s₀) is := by
  have halone := Prog.Pool.ends_as_alone (sharedStdio_sameFor img) _ _ s₀ is hl
  refine Machine.Always.mono ?_ is _ halone
  intro P hP i r hi s
  rw [fusefatOps_startFree uid gid fuel (req i) s s₀]
  exact hP i r hi

end Pool

instance (P : Requests (Fin 2)) (i : Fin 2) : Decidable (Unmoved P i) :=
  inferInstanceAs (Decidable (Prog.Pool.Undisturbed SameFor P i))

/-- Two requests for the attributes of `/D`, one after the other. -/
theorem requests_reply_as_alone_twoClusters :
    let req : Fin 2 → Request := fun _ => .getattr ⟨[slash, 0x44], by decide⟩
    let is : List (Fin 2) := [0, 0, 0, 0, 1, 1, 1, 1]
    Machine.Always (requestStep twoClusters)
      (fun P => ∀ i r, P.thread i = .ret r → ∀ s,
        ((fusefatOps twoClustersVolume 0 0 511 (req i)).run (stdio twoClusters) s).map Prod.fst =
          some r)
      (requestPool twoClustersVolume 0 0 511 req ⟨0, rootPath⟩) is := by
  intro req is
  exact requests_reply_as_alone twoClusters twoClustersVolume 0 0 511 req ⟨0, rootPath⟩ is
    (by decide +kernel)

/-- The same path twice, and the second `strtok` comes before the first `strtok(NULL)`: the two
strings read the same, but the kept pointer is in that of the other request. -/
example :
    let req : Fin 2 → Request := fun _ => .getattr ⟨[slash, 0x44], by decide⟩
    let P := requestPool twoClustersVolume 0 0 511 req ⟨0, rootPath⟩
    Machine.Legal (requestStep twoClusters) Unmoved P [0, 1] ∧
      ¬ Machine.Legal (requestStep twoClusters) Unmoved P [0, 1, 0] := by
  decide +kernel

/-- The same two requests. The second seeks and reads between the `fseek` of the first and its
`fread`, which then starts at the second slot: the first fails with `-ENOENT` where alone it
succeeds. -/
theorem requests_interleaved_differ :
    let req : Fin 2 → Request := fun _ => .getattr ⟨[slash, 0x44], by decide⟩
    let is : List (Fin 2) := [0, 0, 0, 1, 1, 1, 1, 0, 0]
    let s₀ : Stdio := ⟨0, rootPath⟩
    ((Machine.exec (requestStep twoClusters)
        (requestPool twoClustersVolume 0 0 511 req s₀) is).map
        fun x => ((x.2.thread 0).value?, (x.2.thread 1).value?)) =
      some (some (.attr (-ENOENT) none), some (.attr 0 (some ⟨sIfdir ||| 0o755, 2, 0, 0, 0⟩))) ∧
    ∀ s, ((fusefatOps twoClustersVolume 0 0 511 (req 0)).run (stdio twoClusters) s).map Prod.fst =
      some (.attr 0 (some ⟨sIfdir ||| 0o755, 2, 0, 0, 0⟩)) := by
  intro req is s₀
  refine ⟨by decide +kernel, fun s => ?_⟩
  rw [fusefatOps_startFree 0 0 511 (req 0) s s₀]
  decide +kernel

end Fat16
