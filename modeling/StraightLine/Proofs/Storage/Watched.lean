import StraightLine.Proofs.Build.Action

/-!
# Watched machines — which files a run asks for

What a run asks a machine for can be told from its records only as far as it
tells it. A watched machine keeps the paths that it was asked to read, and is a
machine in all else. Both are platforms on a machine (`Platform.On`), so a run
is computed once for the two of them.
-/

namespace StraightLine

variable {σ α β : Type}

namespace Action

/-- What cannot fail comes first. -/
theorem run_lift_bind (l : StateM σ α) (k : α → ExceptT Fault (StateM σ) β) (s : σ) :
    run (liftM l >>= k) s = run (k (l s).1) (l s).2 := by
  rw [run_bind]
  rfl

end Action

/-- **A platform on a machine**: its answers are those of the machine. A state
may tell more than the machine has in it, when something is told and when a file
is asked for. -/
structure Platform.On (p : Platform (StateM σ)) (machine : σ → Machine)
    (told : LogRecord → σ → σ) (asked : RawPath → σ → σ) : Prop where
  valueOf? : ∀ n s, p.valueOf? n s = ((machine s).environment.value? n, s)
  exists? : ∀ q s, p.exists? q s = ((machine s).files.exists? q, s)
  read : ∀ q s, Action.run (p.read q) s = ((machine s).read q, asked q s)
  log : ∀ r s, p.log r s = ((), told r s)
  machine_told : ∀ r s, machine (told r s) = (machine s).tell r
  machine_asked : ∀ q s, machine (asked q s) = machine s

theorem Machine.platform_on : Machine.platform.On id tell fun _ s => s where
  valueOf? _ _ := rfl
  exists? _ _ := rfl
  read _ _ := rfl
  log _ _ := rfl
  machine_told _ _ := rfl
  machine_asked _ _ := rfl

/-- A machine, and the paths that it was asked to read, in order. -/
structure Watched where
  machine : Machine
  asked : List RawPath

namespace Watched

/-- What is not read from a machine is not watched. -/
def unwatched (l : StateM Machine α) : StateM Watched α := fun w =>
  ((l w.machine).1, { w with machine := (l w.machine).2 })

/-- Takes a record into the log. -/
def tell (r : LogRecord) (w : Watched) : Watched := { w with machine := w.machine.tell r }

/-- Is asked for a file. -/
def ask (p : RawPath) (w : Watched) : Watched := { w with asked := w.asked ++ [p] }

/-- A watched machine as a platform. -/
def platform : Platform (StateM Watched) where
  workingDirectory := ExceptT.mk (unwatched Machine.platform.workingDirectory.run)
  valueOf? n := unwatched (Machine.platform.valueOf? n)
  exists? p := unwatched (Machine.platform.exists? p)
  read p := ExceptT.mk fun w => (w.machine.read p, w.ask p)
  makeDirectories p := ExceptT.mk (unwatched (Machine.platform.makeDirectories p).run)
  write p bytes := ExceptT.mk (unwatched (Machine.platform.write p bytes).run)
  log r := unwatched (Machine.platform.log r)

theorem platform_on : platform.On machine tell ask where
  valueOf? _ _ := rfl
  exists? _ _ := rfl
  read _ _ := rfl
  log _ _ := rfl
  machine_told _ _ := rfl
  machine_asked _ _ := rfl

end Watched

/-- The values that a machine has for some names. -/
def Machine.values (s : Machine) (names : List Text) : Environment :=
  names.filterMap fun n => (s.environment.value? n).map (n, ·)

theorem Platform.On.values {p : Platform (StateM σ)} {machine : σ → Machine}
    {told : LogRecord → σ → σ} {asked : RawPath → σ → σ} (hp : p.On machine told asked)
    (names : List Text) (s : σ) : p.values names s = ((machine s).values names, s) := by
  induction names with
  | nil => rfl
  | cons n names ih =>
    simp only [Platform.values, bind, StateT.bind, hp.valueOf?]
    rw [Machine.values]
    rcases hv : (machine s).environment.value? n with - | v
    · rw [List.filterMap_cons_none (by rw [hv]; rfl)]
      exact ih
    · rw [List.filterMap_cons_some (by rw [hv]; rfl)]
      simp only [StateT.bind, ih]
      rfl

/-! ## Sources -/

namespace Watched

/-- A source is asked for once, whether it can be read or not. -/
theorem asked_loadSource (root : RawPath) (path : Path) (w : Watched) :
    (Action.run (Build.loadSource (platform.host root) path) w).2.asked =
      w.asked ++ [Path.below root path] := by
  obtain ⟨r, hread⟩ : ∃ r : LogRecord, ∀ w : Watched,
      Action.run (((platform.host root).read path).adapt (Fault.inSource path)) w =
        ((w.machine.read (Path.below root path)).mapError (Fault.inSource path),
          (w.tell r).ask (Path.below root path)) := ⟨_, fun _ => rfl⟩
  have hlog (r : LogRecord) : ((platform.host root).log r w).2 = w.tell r := rfl
  rw [Build.loadSource, Action.run_lift_bind, Action.run_bind, hlog, hread]
  rcases Machine.read _ (Path.below root path) with f | bytes
  · rfl
  · have hbytes : (Except.ok bytes : Except Fault Bytes).mapError (Fault.inSource path) =
        .ok bytes := rfl
    simp only [hbytes]
    rcases Utf8.decode bytes with e | contents
    · rfl
    · rfl

theorem asked_of_loadAll {root : RawPath} {sources : List Path} {w w' : Watched}
    {loaded : List SourceFile}
    (h : Action.run (Build.loadAll (platform.host root) sources) w = (.ok loaded, w')) :
    w'.asked = w.asked ++ sources.map (Path.below root) := by
  induction sources generalizing w loaded with
  | nil =>
    obtain ⟨-, rfl⟩ := Prod.mk.inj h
    exact (List.append_nil _).symm
  | cons path sources ih =>
    have hfirst := asked_loadSource root path w
    rw [Build.loadAll, Action.run_bind] at h
    rcases hsource : Action.run (Build.loadSource (platform.host root) path) w with ⟨f | source, w₁⟩
    · rw [hsource] at h
      cases h
    · rw [hsource] at h hfirst
      simp only at h hfirst
      rw [Action.run_bind] at h
      rcases hrest : Action.run (Build.loadAll (platform.host root) sources) w₁ with ⟨f | rest, w₂⟩
      · rw [hrest] at h
        cases h
      · rw [hrest] at h
        obtain ⟨-, rfl⟩ := Prod.mk.inj h
        rw [ih hrest, hfirst, List.map_cons, List.append_assoc]
        rfl

/-- **The sources of a build are the files asked for**, in their order, when all
of them can be read. -/
theorem asked_of_load {root : RawPath} {sources : List Path} {w w' : Watched}
    {loaded : List SourceFile}
    (h : Action.run (Build.load (platform.host root) sources) w = (.ok loaded, w')) :
    w'.asked = w.asked ++ sources.map (Path.below root) := by
  cases sources with
  | nil => cases h
  | cons path sources => exact asked_of_loadAll h

end Watched

end StraightLine
