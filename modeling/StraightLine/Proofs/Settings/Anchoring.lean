import StraightLine.CommandLine.Reader
import StraightLine.Proofs.Path.Bytes
import StraightLine.Proofs.Storage.Lookup
import StraightLine.Proofs.Storage.Watched
import StraightLine.Settings.Resolution

/-!
# Anchoring — where the paths of a build start

Relative paths come from two places: those of a command line start at the
working directory, those of a manifest at the directory that the manifest is in.
A build joins them all to one root. That this changes nothing rests on two
facts. What the command line says has been joined before, and an absolute path
stays as it is wherever it is joined (`below_relativeTo`). And the root is the
directory of the manifest, however the way to it is written, since its file is at
the end of a name (`parts_manifestRoot`).

What the command line says has been joined as a text, though. So it starts at what
the working directory is shown as (`commandRoot`), which is the working directory
itself if its bytes stand for a text (`commandRoot_eq_iff`), and another directory
if they do not (`parts_below_commandRoot_iff`).

`run_resolveFrom` computes a run for every platform on a machine, so what is told
of a watched one holds of all. **`paths_anchored`** puts it together, and
**`replaced_directory_asked`** has a source that is looked for where it is not.
-/

namespace StraightLine

open StraightLine.Path

/-- The text in a file of a machine. -/
def Machine.textOf (s : Machine) (file : RawPath) : Except Fault Text :=
  (s.read file).bind fun bytes =>
    match Utf8.decode bytes with
    | .ok t => .ok t
    | .error _ => .error (.file "stream did not contain valid UTF-8")

/-- The manifest in a file of a machine. -/
def Manifest.inFile (s : Machine) (file : RawPath) : Except Fault Manifest :=
  (s.textOf file).bind fun t =>
    (Manifest.ofText? (s.values (Environment.namesIn t)) t).bind fun m => m.check.map fun () => m

namespace Settings

variable {σ : Type} {p : Platform (StateM σ)} {machine : σ → Machine} {told : LogRecord → σ → σ}
  {asked : RawPath → σ → σ} {cwd path : RawPath} {c : CommandLine} {s : Machine}
  {settings : Settings}

/-! ## A run of the resolution -/

theorem run_readText (hp : p.On machine told asked) (file : RawPath) (s : σ) :
    Action.run (p.readText file) s = ((machine s).textOf file, asked file s) := by
  rw [Platform.readText, Action.run_bind, hp.read, Machine.textOf]
  rcases (machine s).read file with f | bytes
  · rfl
  · simp only [Except.bind]
    rcases Utf8.decode bytes with e | t
    · rfl
    · rfl

/-- What is told about a manifest before it is read. -/
def loading (path : RawPath) : LogRecord :=
  ⟨.debug, .settings, s!"Loading manifest {String.ofList (Utf8.lossy path)}"⟩

/-- **A manifest is read from its file**, and from no other. -/
theorem run_readManifest (hp : p.On machine told asked) (cwd path : RawPath) (s : σ) :
    Action.run (readManifest p cwd path) s =
      (Manifest.inFile (machine s) (join cwd path),
        asked (join cwd path) (told (loading path) s)) := by
  have hmachine (file : RawPath) : machine (asked file (told (loading path) s)) =
      (machine s).tell (loading path) := by rw [hp.machine_asked, hp.machine_told]
  have htext : (machine (told (loading path) s)).textOf (join cwd path) =
      (machine s).textOf (join cwd path) := by rw [hp.machine_told]; rfl
  rw [readManifest, Action.run_lift_bind, hp.log, Action.run_bind, ← loading, run_readText hp,
    htext, Manifest.inFile]
  rcases (machine s).textOf (join cwd path) with f | t
  · rfl
  · simp only [Except.bind]
    have hvalues (r : LogRecord) (names : List Text) :
        ((machine s).tell r).values names = (machine s).values names := rfl
    rw [Action.run_lift_bind, hp.values, hmachine, hvalues]
    rcases Manifest.ofText? ((machine s).values (Environment.namesIn t)) t with f | m
    · rfl
    · simp only
      rcases m.check with f | -
      · rfl
      · rfl

/-- The manifest that a command line asks for, as it is written. -/
def chosen? (files : FileSystem) (cwd : RawPath) (c : CommandLine) : Option RawPath :=
  match c.manifest, c.sources with
  | some path, _ => some (Utf8.encode path)
  | none, [] =>
    if files.exists? (below cwd manifestName) then some (below cwd manifestName) else none
  | none, _ => none

theorem run_manifestPath? (hp : p.On machine told asked) (cwd : RawPath) (c : CommandLine) (s : σ) :
    manifestPath? p cwd c s = (chosen? (machine s).files cwd c, s) := by
  rw [manifestPath?, chosen?]
  rcases c.manifest with - | path
  · rcases c.sources with - | ⟨source, sources⟩
    · simp only [bind, StateT.bind, hp.exists?]
      rfl
    · rfl
  · rfl

/-- The settings that the manifest of a machine gives, if one is chosen. -/
def ofMachine (s : Machine) (cwd : RawPath) (c : CommandLine) : Except Fault Settings :=
  match chosen? s.files cwd c with
  | none => .ok (ofSources cwd [])
  | some path =>
    (Manifest.inFile s (join cwd path)).bind fun m => ofManifest m (manifestRoot cwd path)

/-- The state behind them: the manifest is told about, and asked for. -/
def afterManifest (told : LogRecord → σ → σ) (asked : RawPath → σ → σ) (cwd : RawPath) :
    Option RawPath → σ → σ
  | none, s => s
  | some path, s => asked (join cwd path) (told (loading path) s)

theorem run_start (hp : p.On machine told asked) (cwd : RawPath) (c : CommandLine) (s : σ) :
    Action.run (start p cwd c) s =
      (ofMachine (machine s) cwd c,
        afterManifest told asked cwd (chosen? (machine s).files cwd c) s) := by
  rw [start, ofMachine, Action.run_lift_bind, run_manifestPath? hp]
  rcases chosen? (machine s).files cwd c with - | path
  · rfl
  · simp only
    rw [Action.run_bind, run_readManifest hp]
    rcases Manifest.inFile (machine s) (join cwd path) with f | m
    · rfl
    · simp only [Except.bind]
      rcases ofManifest m (manifestRoot cwd path) with f | settings
      · rfl
      · rfl

/-- **What a resolution answers**, and which file it asks for. -/
theorem run_resolveFrom (hp : p.On machine told asked) (cwd : RawPath) (c : CommandLine) (s : σ) :
    Action.run (resolveFrom p cwd c) s =
      ((ofMachine (machine s) cwd c).bind fun settings => settings.override cwd c,
        afterManifest told asked cwd (chosen? (machine s).files cwd c) s) := by
  rw [resolveFrom, Action.run_bind, run_start hp]
  rcases ofMachine (machine s) cwd c with f | settings
  · rfl
  · simp only [Except.bind]
    rcases settings.override cwd c with f | settings
    · rfl
    · rfl

/-! ## The manifest -/

/-- The file a manifest is in, when there is one. -/
def manifestFile (cwd : RawPath) (c : CommandLine) : RawPath :=
  below cwd (c.manifest.getD manifestName)

/-- Whether a manifest is asked for. -/
def WantsManifest (files : FileSystem) (cwd : RawPath) (c : CommandLine) : Prop :=
  c.manifest.isSome = true ∨ c.sources = [] ∧ files.exists? (below cwd manifestName) = true

/-- **A manifest is chosen just when it is asked for**, and it is in its file. -/
theorem chosen?_cases (hcwd : isAbsolute cwd = true) (files : FileSystem) :
    (∃ path, chosen? files cwd c = some path ∧ WantsManifest files cwd c ∧
      join cwd path = manifestFile cwd c) ∨
    chosen? files cwd c = none ∧ ¬ WantsManifest files cwd c := by
  rw [chosen?, manifestFile, WantsManifest]
  rcases c.manifest with - | path
  · rcases c.sources with - | ⟨source, sources⟩
    · by_cases hthere : files.exists? (below cwd manifestName) = true
      · refine .inl ⟨below cwd manifestName, if_pos hthere, .inr ⟨rfl, hthere⟩, ?_⟩
        exact join_of_isAbsolute (isAbsolute_below hcwd _) cwd
      · exact .inr ⟨if_neg hthere, by simpa using hthere⟩
    · exact .inr ⟨rfl, by simp⟩
  · exact .inl ⟨Utf8.encode path, rfl, .inl rfl, rfl⟩

/-- **The root of a manifest** is the directory that its file is in. -/
theorem parts_manifestRoot (hcwd : isAbsolute cwd = true) {bytes : Bytes}
    (hread : s.files.read (join cwd path) = .ok bytes) :
    ∃ dir, parent? (join cwd path) = some dir ∧ isAbsolute dir = true ∧
      isAbsolute (manifestRoot cwd path) = true ∧ parts (manifestRoot cwd path) = parts dir := by
  have hfile : isAbsolute (join cwd path) = true := isAbsolute_join hcwd path
  obtain ⟨ss, n, hss, hn⟩ := FileSystem.exists_name_of_read hfile hread
  obtain ⟨dir, hdir, habs, hadded⟩ := exists_parent hss hn
  rw [hfile] at habs
  refine ⟨dir, hdir, habs, ?_⟩
  by_cases hpath : isAbsolute path = true
  · -- an absolute manifest does not look at the working directory
    rw [join_of_isAbsolute hpath] at hdir
    obtain ⟨c, parent, rfl⟩ := List.exists_cons_of_ne_nil (ne_nil_of_isAbsolute habs)
    have hroot : manifestRoot cwd path = c :: parent := by
      rw [manifestRoot, hdir]
      exact join_of_isAbsolute habs cwd
    rw [hroot]
    exact ⟨habs, rfl⟩
  · rw [Bool.not_eq_true] at hpath
    obtain ⟨front, hfront, hcwdparts⟩ := segments_join (ne_nil_of_isAbsolute hcwd) hpath
    -- the name is the last segment of the manifest as it is written
    obtain ⟨rest, hrest⟩ : ∃ rest, segments path = rest ++ [n] := by
      have hlast := (List.dropLast_concat_getLast (segments_ne_nil path)).symm
      rw [hss, hlast, ← List.append_assoc] at hfront
      exact ⟨_, (List.append_inj_right' hfront rfl) ▸ hlast⟩
    obtain ⟨q, hq, hqabs, hqadded⟩ := exists_parent hrest hn
    rw [hfront, hrest, ← List.append_assoc] at hss
    obtain rfl := List.append_inj_left' hss rfl
    rw [List.filterMap_append, hcwdparts, ← hqadded] at hadded
    rw [parts_of_isAbsolute habs, hadded, ← List.cons_append, ← parts_of_isAbsolute hcwd,
      manifestRoot, hq]
    rcases q with - | ⟨c, parent⟩
    · exact ⟨hcwd, (List.append_nil _).symm⟩
    · rw [hpath] at hqabs
      exact ⟨isAbsolute_join hcwd _, parts_join_of_isAbsolute hcwd hqabs⟩

/-! ## What the command line says -/

/-- Where relative paths of a command line start. -/
def commandRoot (cwd : RawPath) : RawPath := Utf8.encode (Utf8.lossy cwd)

/-- **That is the working directory** just when its bytes stand for a text. -/
theorem commandRoot_eq_iff : commandRoot cwd = cwd ↔ ∃ t, cwd = Utf8.encode t := by
  constructor
  · intro h
    exact ⟨Utf8.lossy cwd, h.symm⟩
  · rintro ⟨t, rfl⟩
    rw [commandRoot, Utf8.lossy_encode]

theorem isAbsolute_commandRoot (hcwd : isAbsolute cwd = true) :
    isAbsolute (commandRoot cwd) = true := by
  rw [commandRoot, isAbsolute_encode]
  exact isAbsolute_lossy hcwd

/-- **A relative path tells them apart**, by the parts it goes through. -/
theorem parts_below_commandRoot_iff (hcwd : isAbsolute cwd = true) {p : Path}
    (hp : isAbsolute p = false) :
    parts (below (commandRoot cwd) p) = parts (below cwd p) ↔ commandRoot cwd = cwd := by
  rw [← isAbsolute_encode] at hp
  rw [below, below, parts_join_of_isAbsolute (isAbsolute_commandRoot hcwd) hp,
    parts_join_of_isAbsolute hcwd hp, List.append_cancel_right_eq]
  exact parts_encode_lossy_iff hcwd

/-- A path of a command line is joined as a text. -/
theorem relativeTo_eq_join (cwd : RawPath) (p : Path) :
    relativeTo cwd p = join (Utf8.lossy cwd) p := by
  rw [relativeTo]
  split
  · rename_i habs
    exact (join_of_isAbsolute habs _).symm
  · rename_i hrel
    exact lossy_below (Bool.not_eq_true _ ▸ hrel) cwd

/-- **And stays what it is** wherever it is joined again. -/
theorem below_relativeTo (hcwd : isAbsolute cwd = true) (root : RawPath) (p : Path) :
    below root (relativeTo cwd p) = below (commandRoot cwd) p := by
  have hjoined : Utf8.encode (relativeTo cwd p) = below (commandRoot cwd) p := by
    rw [relativeTo_eq_join, encode_join]
    rfl
  rw [below, hjoined]
  exact join_of_isAbsolute (isAbsolute_below (isAbsolute_commandRoot hcwd) p) root

theorem override_eq_ok {base : Settings} (h : base.override cwd c = .ok settings) :
    base.wantedKinds c = .ok settings.kinds ∧ settings.root = base.root ∧
      settings.sources =
        (if c.sources = [] then base.sources else c.sources.map (relativeTo cwd)) ∧
      settings.output = (match c.output with
        | some o => relativeTo cwd o
        | none => base.output) ∧
      settings.monitor = (c.monitor || base.monitor) := by
  rw [override] at h
  rcases hkinds : base.wantedKinds c with f | kinds
  · rw [hkinds] at h
    cases h
  · rw [hkinds] at h
    obtain rfl := Except.ok.inj h
    exact ⟨rfl, rfl, rfl, rfl, rfl⟩

section Override

variable {base : Settings} {dir : RawPath} (hcwd : isAbsolute cwd = true)
  (hroot : isAbsolute base.root = true) (hdir : isAbsolute dir = true)
  (hparts : parts base.root = parts dir) (h : base.override cwd c = .ok settings)

include hcwd hroot hdir hparts h

/-- **Sources on the command line start where it starts**, and all others where
the settings start. -/
theorem parts_sources :
    (settings.sources.map (below settings.root)).map parts =
      ((if c.sources = [] then base.sources.map (below dir)
        else c.sources.map (below (commandRoot cwd))).map parts) := by
  obtain ⟨-, heq, hsources, -, -⟩ := override_eq_ok h
  rw [heq, hsources]
  split
  · rw [List.map_map, List.map_map]
    exact List.map_congr_left fun source _ => parts_join_congr hroot hdir hparts _
  · rw [List.map_map, List.map_map, List.map_map]
    refine List.map_congr_left fun source _ => ?_
    exact congrArg parts (below_relativeTo hcwd base.root source)

/-- **And so does the output.** -/
theorem parts_output :
    parts (below settings.root settings.output) =
      parts (match c.output with
        | some o => below (commandRoot cwd) o
        | none => below dir base.output) := by
  obtain ⟨-, heq, -, houtput, -⟩ := override_eq_ok h
  rw [heq, houtput]
  rcases c.output with - | o
  · exact parts_join_congr hroot hdir hparts _
  · exact congrArg parts (below_relativeTo hcwd base.root o)

end Override

/-! ## Where paths start -/

/-- The files that are read: those of the command line below where it starts, or
else those of the manifest. -/
def sourceFiles (start : RawPath) (c : CommandLine) (found : Option (RawPath × Manifest)) :
    List RawPath :=
  if c.sources = [] then
    match found with
    | some (dir, m) => m.build.sources.map (below dir)
    | none => []
  else c.sources.map (below start)

/-- The directory of the artifacts. -/
def outputDirectory (start cwd : RawPath) (c : CommandLine)
    (found : Option (RawPath × Manifest)) : RawPath :=
  match c.output with
  | some o => below start o
  | none =>
    match found with
    | some (dir, m) => below dir (m.build.output.getD "./build".toList)
    | none => below cwd "./build".toList

/-- The artifacts that are asked for. -/
def kindsAsked (c : CommandLine) (found : Option (RawPath × Manifest)) :
    Except Fault (List ArtifactKind) :=
  if c.kinds = [] then
    match found with
    | some (_, m) => m.kinds
    | none => .ok [.code]
  else Check.kinds "--emit" c.kinds

/-- **Settings that are anchored**: relative paths of the command line start at
`start`, those of a manifest at the directory that it is in, and without one at the
working directory. -/
structure Anchored (start cwd : RawPath) (c : CommandLine)
    (found : Option (RawPath × Manifest)) (settings : Settings) : Prop where
  sources : (settings.sources.map (below settings.root)).map parts =
    (sourceFiles start c found).map parts
  output : parts (below settings.root settings.output) =
    parts (outputDirectory start cwd c found)
  kinds : kindsAsked c found = .ok settings.kinds
  monitor : settings.monitor = (c.monitor || found.any fun f => f.2.isMonitored)

/-- Without a manifest. -/
theorem anchored_none (hcwd : isAbsolute cwd = true)
    (h : (ofSources cwd []).override cwd c = .ok settings) :
    Anchored (commandRoot cwd) cwd c none settings where
  sources := parts_sources hcwd hcwd hcwd rfl h
  output := parts_output hcwd hcwd hcwd rfl h
  kinds := by
    rw [← (override_eq_ok h).1]
    unfold wantedKinds kindsAsked
    rcases c.kinds with - | ⟨name, names⟩
    · rfl
    · rfl
  monitor := (override_eq_ok h).2.2.2.2

/-- With one. -/
theorem anchored_some {base : Settings} {m : Manifest} {root dir : RawPath}
    (hcwd : isAbsolute cwd = true) (hroot : isAbsolute root = true)
    (hdir : isAbsolute dir = true) (hparts : parts root = parts dir)
    (hbase : ofManifest m root = .ok base) (h : base.override cwd c = .ok settings) :
    Anchored (commandRoot cwd) cwd c (some (dir, m)) settings := by
  obtain ⟨kinds, hkinds, rfl⟩ : ∃ kinds, m.kinds = .ok kinds ∧
      base = ⟨root, m.build.sources, m.output, kinds, m.isMonitored⟩ := by
    rw [ofManifest] at hbase
    rcases hk : m.kinds with f | kinds
    · rw [hk] at hbase
      cases hbase
    · rw [hk] at hbase
      exact ⟨kinds, rfl, (Except.ok.inj hbase).symm⟩
  refine ⟨parts_sources hcwd hroot hdir hparts h, parts_output hcwd hroot hdir hparts h, ?_,
    (override_eq_ok h).2.2.2.2⟩
  rw [← (override_eq_ok h).1]
  unfold wantedKinds kindsAsked
  rcases c.kinds with - | ⟨name, names⟩
  · exact hkinds
  · rfl

/-- A manifest is read from a file. -/
theorem exists_bytes {file : RawPath} {m : Manifest} (h : Manifest.inFile s file = .ok m) :
    ∃ bytes, s.files.read file = .ok bytes := by
  rw [Manifest.inFile, Machine.textOf, Machine.read] at h
  rcases hread : s.files.read file with e | bytes
  · rw [hread] at h
    cases h
  · exact ⟨bytes, rfl⟩

/-- **Settings come from the manifest that is asked for**, or from none. -/
theorem exists_anchored (hcwd : isAbsolute cwd = true) {base : Settings}
    (hbase : ofMachine s cwd c = .ok base) (h : base.override cwd c = .ok settings) :
    ∃ found : Option (RawPath × Manifest), Anchored (commandRoot cwd) cwd c found settings ∧
      (∀ dir m, found = some (dir, m) → parent? (manifestFile cwd c) = some dir ∧
        Manifest.inFile s (manifestFile cwd c) = .ok m) ∧
      (found.isSome = true ↔ WantsManifest s.files cwd c) ∧
      (afterManifest Watched.tell Watched.ask cwd (chosen? s.files cwd c) ⟨s, []⟩).asked =
        found.toList.map fun _ => manifestFile cwd c := by
  rw [ofMachine] at hbase
  rcases chosen?_cases (c := c) hcwd s.files with ⟨path, hpath, hwants, hfile⟩ | ⟨hnone, hwants⟩
  · rw [hpath] at hbase ⊢
    simp only at hbase
    rcases hm : Manifest.inFile s (join cwd path) with f | m
    · rw [hm] at hbase
      cases hbase
    · rw [hm] at hbase
      obtain ⟨bytes, hbytes⟩ := exists_bytes hm
      obtain ⟨dir, hparent, hdir, hroot, hparts⟩ := parts_manifestRoot hcwd hbytes
      rw [hfile] at hparent hm
      refine ⟨some (dir, m), anchored_some hcwd hroot hdir hparts hbase h, ?_, by simp [hwants], ?_⟩
      · rintro dir' m' heq
        obtain ⟨rfl, rfl⟩ := Prod.mk.inj (Option.some.inj heq)
        exact ⟨hparent, hm⟩
      · rw [← hfile]
        rfl
  · rw [hnone] at hbase ⊢
    obtain rfl := Except.ok.inj hbase
    exact ⟨none, anchored_none hcwd h, by simp, by simp [hwants], rfl⟩

/-- **Every path starts where it was written**, except for bytes that are replaced.
When the settings of a command line can be resolved, its paths start at what the
working directory is shown as. That is the working directory if its bytes stand for
a text, and no relative path leads to the same place if they do not. Those of a
manifest start at the directory of the manifest. A manifest is found, and is the one
file asked for, just when the command line names it, or names no sources and there
is one in the working directory; and the files that a build then asks for are the
sources. -/
theorem paths_anchored (hcwd : isAbsolute cwd = true)
    (h : (Action.run (resolveFrom Machine.platform cwd c) s).1 = .ok settings) :
    (commandRoot cwd = cwd ↔ ∃ t, cwd = Utf8.encode t) ∧
    (∀ p : Path, isAbsolute p = false →
      (parts (below (commandRoot cwd) p) = parts (below cwd p) ↔ commandRoot cwd = cwd)) ∧
    ∃ found : Option (RawPath × Manifest), Anchored (commandRoot cwd) cwd c found settings ∧
      (∀ dir m, found = some (dir, m) → parent? (manifestFile cwd c) = some dir ∧
        Manifest.inFile s (manifestFile cwd c) = .ok m) ∧
      (found.isSome = true ↔ c.manifest.isSome = true ∨
        c.sources = [] ∧ s.files.exists? (below cwd manifestName) = true) ∧
      (∃ w, Action.run (resolveFrom Watched.platform cwd c) ⟨s, []⟩ = (.ok settings, w) ∧
        w.asked = found.toList.map fun _ => manifestFile cwd c) ∧
      ∀ w w' loaded, Action.run
        (Build.load (Watched.platform.host settings.root) settings.sources) w = (.ok loaded, w') →
          w'.asked = w.asked ++ settings.sources.map (below settings.root) := by
  rw [run_resolveFrom Machine.platform_on] at h
  obtain ⟨base, hbase, hover⟩ : ∃ base, ofMachine s cwd c = .ok base ∧
      base.override cwd c = .ok settings := by
    rcases hbase : ofMachine s cwd c with f | base
    · rw [id_eq, hbase] at h
      cases h
    · rw [id_eq, hbase] at h
      exact ⟨base, rfl, h⟩
  obtain ⟨found, hanchored, hmanifest, hwants, hasked⟩ := exists_anchored hcwd hbase hover
  have hwatched := run_resolveFrom Watched.platform_on cwd c ⟨s, []⟩
  simp only [hbase, Except.bind, hover] at hwatched
  exact ⟨commandRoot_eq_iff, fun _ => parts_below_commandRoot_iff hcwd, found, hanchored,
    hmanifest, hwants, ⟨_, hwatched, hasked⟩, fun _ _ _ => Watched.asked_of_load⟩

/-- A manifest that is reached through two dots, with an output on the command
line. -/
theorem paths_anchored_through_dots :
    let cwd := Utf8.encode "/work".toList
    let text := "[project]\nname='a'\nversion='1'\n[build]\nsources=['./a.osta']\n".toList
    let s := Machine.ofFiles [] (.ofFiles [Utf8.encode "work".toList]
      [(Utf8.encode "conf/p.toml".toList, Utf8.encode text)])
    let c := { CommandLine.empty with
      manifest := some "conf/../conf/p.toml".toList, output := some "../out".toList }
    let settings : Settings := ⟨Utf8.encode "/work/conf/../conf".toList, ["./a.osta".toList],
      "/work/../out".toList, [.code], false⟩
    isAbsolute cwd = true ∧
      (Action.run (resolveFrom Machine.platform cwd c) s).1 = .ok settings ∧
      ∃ found, Anchored cwd cwd c found settings ∧ found.isSome = true := by
  intro cwd text s c settings
  have hcwd : isAbsolute cwd = true := by decide
  have hresolve : (Action.run (resolveFrom Machine.platform cwd c) s).1 = .ok settings := by
    decide +kernel
  obtain ⟨hroot, -, found, hanchored, -, hwants, -⟩ := paths_anchored hcwd hresolve
  rw [hroot.mpr ⟨"/work".toList, rfl⟩] at hanchored
  exact ⟨hcwd, hresolve, found, hanchored, hwants.mpr (.inl rfl)⟩

/-- **Another directory is asked** where the working directory has a byte that is no
text: the source in it is not read, and the output goes elsewhere too. -/
theorem replaced_directory_asked :
    let cwd : RawPath := Utf8.encode "/tmp/".toList ++ [0xFF]
    let c := { CommandLine.empty with
      sources := ["a.osta".toList], output := some "out".toList }
    let s := Machine.ofFiles [] (.ofFiles [Utf8.encode "tmp".toList, [0xFF]]
      [(Utf8.encode "a.osta".toList, Utf8.encode "x = 1;".toList)])
    let settings : Settings :=
      ⟨cwd, ["/tmp/\uFFFD/a.osta".toList], "/tmp/\uFFFD/out".toList, [.code], false⟩
    CommandLine.ofWords? ["a.osta".toList, "-o".toList, "out".toList] = .ok c ∧
      isAbsolute cwd = true ∧
      (Action.run (resolve Machine.platform c) s).1 = .ok settings ∧
      (Action.run (resolveFrom Machine.platform cwd c) s).1 = .ok settings ∧
      settings.check = .ok () ∧
      (∀ found, ¬ Anchored cwd cwd c found settings) ∧
      s.read (below cwd "a.osta".toList) = .ok (Utf8.encode "x = 1;".toList) ∧
      s.read (below settings.root "/tmp/\uFFFD/a.osta".toList) =
        .error (.file "No such file or directory (os error 2)") := by
  intro cwd c s settings
  have hwords : CommandLine.ofWords? ["a.osta".toList, "-o".toList, "out".toList] = .ok c := by
    decide +kernel
  have hresolve : (Action.run (resolve Machine.platform c) s).1 = .ok settings := by
    decide +kernel
  have hcheck : settings.check = .ok () := by decide +kernel
  have hthere : s.read (below cwd "a.osta".toList) = .ok (Utf8.encode "x = 1;".toList) := by
    decide +kernel
  have hmissing : s.read (below settings.root "/tmp/\uFFFD/a.osta".toList) =
      .error (.file "No such file or directory (os error 2)") := by
    decide +kernel
  refine ⟨hwords, by decide, hresolve, hresolve, hcheck, fun found hanchored => ?_, hthere,
    hmissing⟩
  have houtput : parts (below cwd "/tmp/\uFFFD/out".toList) = parts (below cwd "out".toList) :=
    hanchored.output
  exact absurd houtput (by decide +kernel)

end Settings

end StraightLine
