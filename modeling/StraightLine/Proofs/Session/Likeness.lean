import StraightLine.Session.Basic

/-!
# Likeness — one program in two monads

Everything a session does is written for any monad, so what it does in two of
them differs only as far as the two platforms do. A likeness relates the actions
of two monads: what does nothing is alike in both, and so are actions in
sequence. On platforms that are alike to look at, the same settings are resolved
(`resolve`, `settingsFor`); on platforms that are alike in writing too, whole
sessions are alike (`run`).

There is a lemma for each function on the way, and its proof follows the
function.
-/

namespace StraightLine

/-- **A likeness of two monads**: a relation that sequences of actions keep. -/
structure Likeness (m n : Type → Type) [Monad m] [Monad n] where
  Alike : {α : Type} → m α → n α → Prop
  pure : ∀ {α : Type} (a : α), Alike (pure a) (pure a)
  bind : ∀ {α β : Type} {x : m α} {y : n α} {k : α → m β} {l : α → n β},
    Alike x y → (∀ a, Alike (k a) (l a)) → Alike (x >>= k) (y >>= l)

namespace Likeness

variable {m n : Type → Type} [Monad m] [Monad n] {L : Likeness m n} {α β : Type}
  {x : m α} {y : n α}

/-! ## Actions that can fail -/

/-- Actions that can fail are alike as those that answer how they went. -/
def fallible (L : Likeness m n) : Likeness (ExceptT Fault m) (ExceptT Fault n) where
  Alike x y := L.Alike x.run y.run
  pure a := L.pure (Except.ok a)
  bind hx hk := L.bind hx fun r => by
    cases r with
    | error f => exact L.pure (Except.error f)
    | ok a => exact hk a

theorem throw (f : Fault) :
    L.fallible.Alike (throw f : ExceptT Fault m α) (throw f : ExceptT Fault n α) :=
  L.pure (Except.error f)

theorem run {x : ExceptT Fault m α} {y : ExceptT Fault n α} (h : L.fallible.Alike x y) :
    L.Alike x.run y.run := h

section Lawful

variable [LawfulMonad m] [LawfulMonad n]

theorem map (h : L.Alike x y) (f : α → β) : L.Alike (f <$> x) (f <$> y) := by
  rw [map_eq_pure_bind, map_eq_pure_bind]
  exact L.bind h fun a => L.pure (f a)

theorem lift (h : L.Alike x y) :
    L.fallible.Alike (liftM x : ExceptT Fault m α) (liftM y : ExceptT Fault n α) :=
  map h Except.ok

theorem adapt {x : ExceptT Fault m α} {y : ExceptT Fault n α} (h : L.fallible.Alike x y)
    (g : Fault → Fault) : L.fallible.Alike (x.adapt g) (y.adapt g) :=
  map (run h) (Except.mapError g)

end Lawful

/-! ## Settings -/

/-- **Platforms that are alike to look at.** -/
structure Looking (L : Likeness m n) (p : Platform m) (q : Platform n) : Prop where
  workingDirectory : L.fallible.Alike p.workingDirectory q.workingDirectory
  valueOf? : ∀ name, L.Alike (p.valueOf? name) (q.valueOf? name)
  exists? : ∀ path, L.Alike (p.exists? path) (q.exists? path)
  read : ∀ path, L.fallible.Alike (p.read path) (q.read path)
  log : ∀ record, L.Alike (p.log record) (q.log record)

namespace Looking

variable {p : Platform m} {q : Platform n} (h : L.Looking p q)

include h

theorem values (names : List Text) : L.Alike (p.values names) (q.values names) := by
  induction names with
  | nil => exact L.pure []
  | cons name names ih =>
    refine L.bind (h.valueOf? name) fun value => ?_
    cases value with
    | none => exact ih
    | some value => exact L.bind ih fun env => L.pure ((name, value) :: env)

theorem readText (file : RawPath) : L.fallible.Alike (p.readText file) (q.readText file) := by
  refine L.fallible.bind (h.read file) fun bytes => ?_
  cases Utf8.decode bytes with
  | error e => exact throw _
  | ok t => exact L.fallible.pure t

theorem manifestPath? (cwd : RawPath) (c : CommandLine) :
    L.Alike (Settings.manifestPath? p cwd c) (Settings.manifestPath? q cwd c) := by
  unfold Settings.manifestPath?
  rcases c.manifest with - | path
  · rcases c.sources with - | ⟨source, sources⟩
    · exact L.bind (h.exists? _) fun there => L.pure _
    · exact L.pure none
  · exact L.pure (some (Utf8.encode path))

/-- They stay alike when only some records are shown. -/
theorem showing (f : LogFilter) : L.Looking (p.showing f) (q.showing f) where
  workingDirectory := h.workingDirectory
  valueOf? := h.valueOf?
  exists? := h.exists?
  read := h.read
  log record := by
    simp only [Platform.showing]
    split
    · exact h.log record
    · exact L.pure ()

variable [LawfulMonad m] [LawfulMonad n]

theorem readManifest (cwd path : RawPath) :
    L.fallible.Alike (Settings.readManifest p cwd path) (Settings.readManifest q cwd path) := by
  refine L.fallible.bind (lift (h.log _)) fun _ => ?_
  refine L.fallible.bind (h.readText _) fun t => ?_
  refine L.fallible.bind (lift (h.values _)) fun env => ?_
  cases Manifest.ofText? env t with
  | error e => exact throw e
  | ok manifest =>
    cases hcheck : manifest.check with
    | error e => simpa only [hcheck] using throw e
    | ok _ => simpa only [hcheck] using L.fallible.pure manifest

theorem start (cwd : RawPath) (c : CommandLine) :
    L.fallible.Alike (Settings.start p cwd c) (Settings.start q cwd c) := by
  refine L.fallible.bind (lift (h.manifestPath? cwd c)) fun path => ?_
  cases path with
  | none => exact L.fallible.pure _
  | some path =>
    refine L.fallible.bind (h.readManifest cwd path) fun manifest => ?_
    cases Settings.ofManifest manifest (Settings.manifestRoot cwd path) with
    | error e => exact throw e
    | ok settings => exact L.fallible.pure settings

theorem resolveFrom (cwd : RawPath) (c : CommandLine) :
    L.fallible.Alike (Settings.resolveFrom p cwd c) (Settings.resolveFrom q cwd c) := by
  refine L.fallible.bind (h.start cwd c) fun base => ?_
  cases base.override cwd c with
  | error e => exact throw e
  | ok settings => exact L.fallible.pure settings

/-- **Settings** are resolved alike. -/
theorem resolve (c : CommandLine) :
    L.fallible.Alike (Settings.resolve p c) (Settings.resolve q c) :=
  L.fallible.bind h.workingDirectory fun cwd => h.resolveFrom cwd c

/-- And checked alike. -/
theorem settingsFor (c : CommandLine) :
    L.fallible.Alike (Session.settingsFor p c) (Session.settingsFor q c) := by
  refine L.fallible.bind (h.resolve c) fun settings => ?_
  cases settings.check with
  | error e => exact throw e
  | ok _ => exact L.fallible.pure settings

end Looking

/-! ## Builds -/

/-- **Hosts that are alike.** -/
structure Hosts (L : Likeness m n) (h : Host m) (k : Host n) : Prop where
  read : ∀ path, L.fallible.Alike (h.read path) (k.read path)
  write : ∀ path bytes, L.fallible.Alike (h.write path bytes) (k.write path bytes)
  log : ∀ record, L.Alike (h.log record) (k.log record)

namespace Hosts

variable [LawfulMonad m] [LawfulMonad n] {h : Host m} {k : Host n} (hh : L.Hosts h k)

include hh

theorem loadSource (path : Path) :
    L.fallible.Alike (Build.loadSource h path) (Build.loadSource k path) := by
  refine L.fallible.bind (lift (hh.log _)) fun _ => ?_
  refine L.fallible.bind (adapt (hh.read path) _) fun bytes => ?_
  cases Utf8.decode bytes with
  | error e => exact throw _
  | ok t => exact L.fallible.pure _

theorem loadAll (paths : List Path) :
    L.fallible.Alike (Build.loadAll h paths) (Build.loadAll k paths) := by
  induction paths with
  | nil => exact L.fallible.pure []
  | cons path paths ih =>
    refine L.fallible.bind (hh.loadSource path) fun source => ?_
    exact L.fallible.bind ih fun sources => L.fallible.pure (source :: sources)

theorem load (paths : List Path) :
    L.fallible.Alike (Build.load h paths) (Build.load k paths) := by
  cases paths with
  | nil => exact throw _
  | cons path paths => exact hh.loadAll (path :: paths)

theorem logAll (records : List LogRecord) :
    L.fallible.Alike
      (forIn records PUnit.unit fun r _ => do
        h.log r
        return ForInStep.yield PUnit.unit : ExceptT Fault m PUnit)
      (forIn records PUnit.unit fun r _ => do
        k.log r
        return ForInStep.yield PUnit.unit : ExceptT Fault n PUnit) := by
  induction records with
  | nil => exact L.fallible.pure _
  | cons r records ih =>
    rw [List.forIn_cons, List.forIn_cons]
    have hstep : L.fallible.Alike
        (do h.log r; return ForInStep.yield PUnit.unit : ExceptT Fault m (ForInStep PUnit))
        (do k.log r; return ForInStep.yield PUnit.unit : ExceptT Fault n (ForInStep PUnit)) :=
      L.fallible.bind (lift (hh.log r)) fun _ => L.fallible.pure _
    refine L.fallible.bind hstep fun step => ?_
    cases step with
    | done _ => exact L.fallible.pure _
    | yield _ => exact ih

theorem compileSource (s : SourceFile) :
    L.fallible.Alike (Build.compileSource h s) (Build.compileSource k s) := by
  refine L.fallible.bind (hh.logAll s.compileLog) fun _ => ?_
  cases s.compile with
  | error e => exact throw _
  | ok u => exact L.fallible.bind (lift (hh.log _)) fun _ => L.fallible.pure u

theorem compile (sources : List SourceFile) :
    L.fallible.Alike (Build.compile h sources) (Build.compile k sources) := by
  refine L.fallible.bind (lift (hh.log _)) fun _ => ?_
  induction sources with
  | nil => exact L.fallible.pure []
  | cons s sources ih =>
    refine L.fallible.bind (hh.compileSource s) fun u => ?_
    exact L.fallible.bind ih fun units => L.fallible.pure (u :: units)

theorem writeAll (files : List (Path × Bytes)) :
    L.fallible.Alike (Build.writeAll h files) (Build.writeAll k files) := by
  induction files with
  | nil => exact L.fallible.pure ()
  | cons file files ih =>
    refine L.fallible.bind (lift (hh.log _)) fun _ => ?_
    exact L.fallible.bind (hh.write _ _) fun _ => ih

theorem emit (r : BuildRequest) (units : List CompiledUnit) :
    L.fallible.Alike (Build.emit h r units) (Build.emit k r units) := by
  unfold Build.emit
  cases Build.repeated? [] (units.map fun u => sourceStem u.path) with
  | some stem => exact throw _
  | none => exact L.fallible.bind (hh.writeAll _) fun _ => L.fallible.pure r.output

/-- **Builds** are alike. -/
theorem build (monitor : PhaseMonitor) (r : BuildRequest) :
    L.Alike (Build.run h monitor r) (Build.run k monitor r) := by
  refine L.bind (hh.log _) fun _ => L.bind (hh.load r.sources) fun loaded => ?_
  cases loaded with
  | error e => exact L.pure _
  | ok sources =>
    refine L.bind (hh.log _) fun _ => L.bind (hh.compile sources) fun compiled => ?_
    cases compiled with
    | error e => exact L.pure _
    | ok units =>
      refine L.bind (hh.log _) fun _ => L.bind (hh.emit r units) fun emitted => ?_
      cases emitted with
      | error e => exact L.pure _
      | ok output => exact L.bind (hh.log _) fun _ => L.pure _

end Hosts

/-! ## Sessions -/

/-- **Platforms that are alike in all that is asked of them.** -/
structure Platforms (L : Likeness m n) (p : Platform m) (q : Platform n) : Prop
    extends L.Looking p q where
  makeDirectories : ∀ path, L.fallible.Alike (p.makeDirectories path) (q.makeDirectories path)
  write : ∀ path bytes, L.fallible.Alike (p.write path bytes) (q.write path bytes)

namespace Platforms

variable {p : Platform m} {q : Platform n} (h : L.Platforms p q)

include h

theorem showing (f : LogFilter) : L.Platforms (p.showing f) (q.showing f) where
  toLooking := h.toLooking.showing f
  makeDirectories := h.makeDirectories
  write := h.write

theorem refuse (e : Fault) : L.Alike (Session.refuse p e) (Session.refuse q e) :=
  L.bind (h.log _) fun _ => L.bind (h.log _) fun _ => L.pure _

theorem fail (e : Fault) : L.Alike (Session.fail p e) (Session.fail q e) :=
  L.bind (h.log _) fun _ => L.bind (h.log _) fun _ => L.pure _

theorem succeed (output : Path) : L.Alike (Session.succeed p output) (Session.succeed q output) :=
  L.bind (h.log _) fun _ => L.pure _

variable [LawfulMonad m] [LawfulMonad n]

/-- The files below a directory are alike. -/
theorem host (root : RawPath) : L.Hosts (p.host root) (q.host root) where
  read path := L.fallible.bind (lift (h.log _)) fun _ => h.read _
  write path bytes := by
    simp only [Platform.host, Platform.writeBelow]
    cases Path.parent? (Path.below root path) with
    | none => exact L.fallible.bind (lift (h.log _)) fun _ => h.write _ _
    | some parent =>
      refine L.fallible.bind (h.makeDirectories parent) fun _ => ?_
      exact L.fallible.bind (lift (h.log _)) fun _ => h.write _ _
  log := h.log

theorem build (s : Settings) : L.Alike (Session.build p s) (Session.build q s) := by
  unfold Session.build
  split
  -- monitoring is told about first, the rest is the same
  case' isTrue => refine L.bind (h.log _) fun _ => ?_
  all_goals
    refine L.bind ((h.host s.root).build _ _) fun r => ?_
    obtain ⟨e | output, monitor⟩ := r
    · exact h.fail e
    · exact h.succeed output

theorem runCommand (c : CommandLine) :
    L.Alike (Session.runCommand p c) (Session.runCommand q c) := by
  refine L.bind (h.log _) fun _ => L.bind (h.settingsFor c) fun r => ?_
  cases r with
  | error e => exact h.refuse e
  | ok s =>
    simp only
    split
    · exact L.pure _
    · exact h.build s

/-- **Sessions** are alike. -/
theorem run (words : List Text) : L.Alike (Session.run p words) (Session.run q words) := by
  unfold Session.run
  cases CommandLine.ofWords? words with
  | error e => exact L.pure _
  | ok c => exact L.bind (h.valueOf? _) fun value => (h.showing _).runCommand c

end Platforms

end Likeness

end StraightLine
