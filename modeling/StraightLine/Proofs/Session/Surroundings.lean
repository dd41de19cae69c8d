import StraightLine.Proofs.Build.Action
import StraightLine.Proofs.Session.Likeness

/-!
# Surroundings — what a run can see of the place it is in

What a run can see of the place it is in are its working directory, variables, and
what is there under a path. Surroundings are a platform of their own, on which nothing ever happens:
its actions read them and no more. A platform has surroundings (`Platform.Over`)
when looking at it is like looking at them. Settings are resolved by looking
alone, so they are up to the surroundings, whatever is told on the way
(`resolve_quiet`).
-/

namespace StraightLine

variable {σ S α : Type}

/-- What can be seen of the place a run is in. -/
structure Surroundings where
  workingDirectory : Except Fault RawPath
  valueOf? : Text → Option Text
  exists? : RawPath → Bool
  content : RawPath → Except Fault Bytes

namespace Surroundings

/-- Surroundings as a platform on which nothing happens. -/
def platform : Platform (ReaderM Surroundings) where
  workingDirectory := ExceptT.mk fun v => v.workingDirectory
  valueOf? name := fun v => v.valueOf? name
  exists? path := fun v => v.exists? path
  read path := ExceptT.mk fun v => v.content path
  makeDirectories _ := pure ()
  write _ _ := pure ()
  log _ := pure ()

/-- The settings that a command line gives there. -/
def settings (v : Surroundings) (c : CommandLine) : Except Fault Settings :=
  (Settings.resolve platform c).run v

/-- The files below a directory. -/
def below (v : Surroundings) (root : RawPath) (path : Path) : Except Fault Bytes :=
  v.content (Path.below root path)

end Surroundings

/-- **Looking is like reading the surroundings**: what an action answers is what
is read there, and the storage, which the surroundings are up to, stays as it
is. -/
def Likeness.sight (storage : σ → S) (view : S → Surroundings) :
    Likeness (StateM σ) (ReaderM Surroundings) where
  Alike x y := ∀ s, (x s).1 = y (view (storage s)) ∧ storage (x s).2 = storage s
  pure _ _ := ⟨rfl, rfl⟩
  bind {_ _ x y k l} hx hk s := by
    obtain ⟨hanswer, hkeeps⟩ := hx s
    obtain ⟨hanswer', hkeeps'⟩ := hk (x s).1 (x s).2
    rw [hkeeps] at hanswer' hkeeps'
    exact ⟨hanswer'.trans (congrArg (l · (view (storage s))) hanswer), hkeeps'⟩

/-- **A platform with surroundings**: what it answers is up to its storage, which
nothing but writing changes. -/
abbrev Platform.Over (p : Platform (StateM σ)) (storage : σ → S) (view : S → Surroundings) : Prop :=
  (Likeness.sight storage view).Looking p Surroundings.platform

/-- What is seen of variables and files. -/
def Machine.view (d : Environment × FileSystem) : Surroundings where
  workingDirectory := .ok (FileSystem.pathOf d.2.workingDirectory)
  valueOf? := d.1.value?
  exists? := d.2.exists?
  content path := Machine.orFault (d.2.read path)

/-- A machine: its variables and its files. -/
theorem Machine.platform_over :
    Machine.platform.Over (fun s => (s.environment, s.files)) Machine.view where
  workingDirectory _ := ⟨rfl, rfl⟩
  valueOf? _ _ := ⟨rfl, rfl⟩
  exists? _ _ := ⟨rfl, rfl⟩
  read _ _ := ⟨rfl, rfl⟩
  log _ _ := ⟨rfl, rfl⟩

open StraightLine.Action

variable {p : Platform (StateM σ)} {storage : σ → S} {view : S → Surroundings}

/-- What is like reading is quiet. -/
theorem Likeness.quiet {x : ExceptT Fault (StateM σ) α} {y : ExceptT Fault (ReaderM Surroundings) α}
    (h : (Likeness.sight storage view).fallible.Alike x y) :
    Quiet storage x fun d => y.run (view d) :=
  ⟨fun s => (h s).1, fun s => (h s).2⟩

namespace Platform.Over

variable (hp : p.Over storage view)

include hp

/-- The same platform when only some records are shown. -/
theorem showing (f : LogFilter) : (p.showing f).Over storage view := by
  refine ⟨hp.workingDirectory, hp.valueOf?, hp.exists?, hp.read, fun record => ?_⟩
  simp only [Platform.showing]
  split
  · exact hp.log record
  · exact (Likeness.sight storage view).pure ()

/-- The files below a directory. -/
theorem host_over (root : RawPath) :
    (p.host root).Over storage fun d => (view d).below root where
  read _ := (Quiet.lift fun s => (hp.log _ s).2).before (Likeness.quiet (hp.read _))
  log record s := (hp.log record s).2

/-- **Settings are up to the surroundings.** -/
theorem resolve_quiet (c : CommandLine) :
    Quiet storage (Settings.resolve p c) fun d => (view d).settings c :=
  Likeness.quiet (Likeness.Looking.resolve hp c)

end Platform.Over

end StraightLine
