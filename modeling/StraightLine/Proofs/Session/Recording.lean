import StraightLine.Proofs.Session.Surroundings

/-!
# Recording — what a session has written

Whether a file was written cannot be told from the state that a session leaves,
which another write may have changed since. A platform that keeps a record of
its writes behaves as the one it records: every session on it goes as it does
there (`run_recorded`). What a session has written is what that record then
holds.
-/

namespace StraightLine

variable {σ S α : Type}

/-- Files that were written, in order. -/
abbrev WriteRecord := List (RawPath × Bytes)

/-- Does something beside the record. -/
def besideRecord (x : StateM σ α) : StateM (σ × WriteRecord) α := fun u =>
  ((x u.1).1, (x u.1).2, u.2)

/-- **The same platform with a record**: every write that succeeds is taken into
it. -/
def Platform.recorded (p : Platform (StateM σ)) : Platform (StateM (σ × WriteRecord)) where
  workingDirectory := ExceptT.mk (besideRecord p.workingDirectory.run)
  valueOf? name := besideRecord (p.valueOf? name)
  exists? path := besideRecord (p.exists? path)
  read path := ExceptT.mk (besideRecord (p.read path).run)
  makeDirectories path := ExceptT.mk (besideRecord (p.makeDirectories path).run)
  write path bytes := ExceptT.mk fun u =>
    match Action.run (p.write path bytes) u.1 with
    | (.ok (), s) => (.ok (), s, u.2 ++ [(path, bytes)])
    | (.error f, s) => (.error f, s, u.2)
  log record := besideRecord (p.log record)

/-- **An action beside a record** goes as the action alone. -/
def Likeness.following : Likeness (StateM (σ × WriteRecord)) (StateM σ) where
  Alike x y := ∀ u, y u.1 = ((x u).1, (x u).2.1)
  pure _ _ := rfl
  bind {_ _ x y k l} hx hk u := by
    have hrun : (y >>= l) u.1 = l (y u.1).1 (y u.1).2 := rfl
    rw [hrun, hx u]
    exact hk (x u).1 (x u).2

/-- The record changes nothing. -/
theorem Platform.recorded_alike (p : Platform (StateM σ)) :
    Likeness.following.Platforms p.recorded p where
  workingDirectory _ := rfl
  valueOf? _ _ := rfl
  exists? _ _ := rfl
  read _ _ := rfl
  log _ _ := rfl
  makeDirectories _ _ := rfl
  write path bytes u := by
    change Action.run (p.write path bytes) u.1 = _
    simp only [Platform.recorded, ExceptT.run_mk]
    rcases Action.run (p.write path bytes) u.1 with ⟨f | ⟨⟩, s⟩
    · rfl
    · rfl

open StraightLine.Action

/-! ## What a record takes in -/

section Adds

variable {storage : σ → S} {view : S → Surroundings} {record : S → WriteRecord}
  {x : ExceptT Fault (StateM σ) Unit} {entry : RawPath × Bytes}

/-- **An action that is recorded**: there is one more entry behind it when it
succeeds, and none when it fails. -/
def Adds (storage : σ → S) (record : S → WriteRecord) (x : ExceptT Fault (StateM σ) Unit)
    (entry : RawPath × Bytes) : Prop :=
  ∀ s, record (storage (Action.run x s).2) = record (storage s) ++
    match (Action.run x s).1 with
    | .ok _ => [entry]
    | .error _ => []

/-- What is not recorded may come before it. -/
theorem Adds.behind {y : ExceptT Fault (StateM σ) α}
    (hy : ∀ s, record (storage (Action.run y s).2) = record (storage s))
    (hx : Adds storage record x entry) : Adds storage record (y >>= fun _ => x) entry := by
  intro s
  have hkeeps := hy s
  rcases hrun : Action.run y s with ⟨f | a, s'⟩
  · rw [hrun] at hkeeps
    rw [run_bind_error hrun, hkeeps]
    exact (List.append_nil _).symm
  · rw [hrun] at hkeeps
    rw [run_bind_ok hrun, ← hkeeps]
    exact hx s'

/-- **A platform whose storage has a record** of what was written. -/
structure Platform.Records (p : Platform (StateM σ)) (storage : σ → S) (record : S → WriteRecord) :
    Prop where
  write : ∀ path bytes, Adds storage record (p.write path bytes) (path, bytes)
  makeDirectories : ∀ path s,
    record (storage (Action.run (p.makeDirectories path) s).2) = record (storage s)

namespace Platform

variable {p : Platform (StateM σ)}

/-- The record is part of what is stored. -/
theorem recorded_records (p : Platform (StateM σ)) (storage : σ → S) :
    p.recorded.Records (fun u => (storage u.1, u.2)) Prod.snd where
  write path bytes u := by
    have hrun : Action.run (p.recorded.write path bytes) u =
        match Action.run (p.write path bytes) u.1 with
        | (.ok (), s) => (.ok (), s, u.2 ++ [(path, bytes)])
        | (.error f, s) => (.error f, s, u.2) := rfl
    rw [hrun]
    rcases Action.run (p.write path bytes) u.1 with ⟨f | ⟨⟩, s⟩
    · exact (List.append_nil u.2).symm
    · rfl
  makeDirectories _ _ := rfl

/-- And it is not seen. -/
theorem Over.recorded (hp : p.Over storage view) :
    p.recorded.Over (fun u => (storage u.1, u.2)) fun d => view d.1 where
  workingDirectory u :=
    ⟨(hp.workingDirectory u.1).1, congrArg (·, u.2) (hp.workingDirectory u.1).2⟩
  valueOf? name u := ⟨(hp.valueOf? name u.1).1, congrArg (·, u.2) (hp.valueOf? name u.1).2⟩
  exists? path u := ⟨(hp.exists? path u.1).1, congrArg (·, u.2) (hp.exists? path u.1).2⟩
  read path u := ⟨(hp.read path u.1).1, congrArg (·, u.2) (hp.read path u.1).2⟩
  log r u := ⟨rfl, congrArg (·, u.2) (hp.log r u.1).2⟩

theorem Records.showing (hr : p.Records storage record) (f : LogFilter) :
    (p.showing f).Records storage record := ⟨hr.write, hr.makeDirectories⟩

/-- **What is written below a directory** is recorded under its full path; the
directories that are made for it are not. -/
theorem Records.host (hr : p.Records storage record) (hp : p.Over storage view)
    (root : RawPath) (path : Path) (bytes : Bytes) :
    Adds storage record ((p.host root).write path bytes) (Path.below root path, bytes) := by
  have hwrite (r : LogRecord) : Adds storage record
      (liftM (p.log r) >>= fun _ => p.write (Path.below root path) bytes)
      (Path.below root path, bytes) :=
    (hr.write _ bytes).behind fun s => congrArg record (hp.log r s).2
  simp only [Platform.host, writeBelow]
  cases Path.parent? (Path.below root path) with
  | none => exact hwrite _
  | some parent => exact (hwrite _).behind (hr.makeDirectories parent)

end Platform

end Adds

/-! ## Sessions -/

namespace Session

/-- What a session has written, in order. -/
def written (p : Platform (StateM σ)) (words : List Text) (s : σ) : WriteRecord :=
  (run p.recorded words (s, [])).2.2

/-- **A session is not changed by a record of it.** -/
theorem run_recorded (p : Platform (StateM σ)) (words : List Text) (s : σ) :
    run p words s = ((run p.recorded words (s, [])).1, (run p.recorded words (s, [])).2.1) :=
  p.recorded_alike.run words (s, [])

end Session

end StraightLine
