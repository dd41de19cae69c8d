import StraightLine.Proofs.Build.Artifacts
import StraightLine.Proofs.Path.Bytes
import StraightLine.Proofs.Session.Recording
import StraightLine.Proofs.Settings.Verdicts

/-!
# Writing — the files of a build, one by one

A build that has come to its artifacts writes them in order. Either all are in
the record behind it, or one of them could not be written, and only those in
front of it are there (`run_adds`). That one is then missing: the names of
artifacts tell their stems and kinds, which are there once each, so no file is
written twice (`nodup_artifacts`).
-/

namespace StraightLine

open StraightLine.Action StraightLine.Path

variable {σ S : Type}

namespace Build

variable {h : Host (StateM σ)} {storage : σ → S} {content : S → Path → Except Fault Bytes}
  {record : S → WriteRecord} {root : RawPath} {m : PhaseMonitor} {r : BuildRequest} {s : σ}
  {units : List CompiledUnit}

/-! ## Writing in order -/

/-- A file below a directory, under its full path. -/
def placed (root : RawPath) (file : Path × Bytes) : RawPath × Bytes := (below root file.1, file.2)

/-- **Files that are not all written** from a state on: one after another goes
through, with something told before each, up to one that fails. -/
inductive Stops (h : Host (StateM σ)) (root : RawPath) :
    σ → List (Path × Bytes) → WriteRecord → Fault → Prop
  | here {file : Path × Bytes} {files : List (Path × Bytes)} {r : LogRecord} {s : σ} {f : Fault}
      (hf : (Action.run (h.write file.1 file.2) (h.log r s).2).1 = .error f) :
      Stops h root s (file :: files) [] f
  | later {file : Path × Bytes} {files : List (Path × Bytes)} {front : WriteRecord}
      {r : LogRecord} {s s' : σ} {f : Fault}
      (hw : Action.run (h.write file.1 file.2) (h.log r s).2 = (.ok (), s'))
      (hf : Stops h root s' files front f) :
      Stops h root s (file :: files) (placed root file :: front) f

/-- **The file that fails is missing** if no file is there twice. -/
theorem Stops.exists_missing {files : List (Path × Bytes)} {front : WriteRecord} {f : Fault}
    (hf : Stops h root s files front f) (hnodup : (files.map (placed root)).Nodup) :
    ∃ file ∈ files, placed root file ∉ front := by
  induction hf with
  | here hf => exact ⟨_, List.mem_cons_self, List.not_mem_nil⟩
  | @later file files front r s s' f hw hf ih =>
    obtain ⟨hfirst, hrest⟩ := List.nodup_cons.mp hnodup
    obtain ⟨missing, hmem, hnot⟩ := ih hrest
    refine ⟨missing, List.mem_cons_of_mem _ hmem, ?_⟩
    rw [List.mem_cons, not_or]
    exact ⟨fun heq => hfirst (heq ▸ List.mem_map_of_mem hmem), hnot⟩

/-- What fails beside a record fails without it. -/
theorem Stops.of_following {h' : Host (StateM (σ × WriteRecord))}
    (hh : Likeness.following.Hosts h' h) {u : σ × WriteRecord} {files : List (Path × Bytes)}
    {front : WriteRecord} {f : Fault} (hf : Stops h' root u files front f) :
    Stops h root u.1 files front f := by
  have hwrite (path : Path) (bytes : Bytes) (u : σ × WriteRecord) :
      Action.run (h.write path bytes) u.1 = ((Action.run (h'.write path bytes) u).1,
        (Action.run (h'.write path bytes) u).2.1) := hh.write path bytes u
  have hlog (r : LogRecord) (u : σ × WriteRecord) : (h.log r u.1).2 = (h'.log r u).2.1 :=
    congrArg Prod.snd (hh.log r u)
  induction hf with
  | @here file files r u f hf =>
    refine .here (r := r) ?_
    rw [hlog, hwrite]
    exact hf
  | @later file files front r u u' f hw _ ih =>
    refine .later (r := r) ?_ ih
    rw [hlog, hwrite, hw]

section Records

variable (hh : h.Over storage content)
  (hw : ∀ path bytes, Adds storage record (h.write path bytes) (below root path, bytes))

include hh hw

/-- **Files are written up to the first that cannot be.** -/
theorem writeAll_adds (files : List (Path × Bytes)) (s : σ) :
    ((Action.run (writeAll h files) s).1 = .ok () ∧
        record (storage (Action.run (writeAll h files) s).2) =
          record (storage s) ++ files.map (placed root)) ∨
      ∃ f front, (Action.run (writeAll h files) s).1 = .error f ∧
        record (storage (Action.run (writeAll h files) s).2) = record (storage s) ++ front ∧
        Stops h root s files front f := by
  induction files generalizing s with
  | nil => exact .inl ⟨rfl, (List.append_nil _).symm⟩
  | cons file files ih =>
    obtain ⟨path, bytes⟩ := file
    obtain ⟨r, hrun⟩ : ∃ r, Action.run (writeAll h ((path, bytes) :: files)) s =
        Action.run (h.write path bytes >>= fun _ => writeAll h files) (h.log r s).2 := ⟨_, rfl⟩
    have hadds := hw path bytes (h.log r s).2
    rw [hh.log] at hadds
    rw [hrun]
    rcases hwrite : Action.run (h.write path bytes) (h.log r s).2 with ⟨f | ⟨⟩, s'⟩
    · rw [hwrite] at hadds
      rw [run_bind_error hwrite]
      exact .inr ⟨f, [], rfl, hadds, .here (congrArg Prod.fst hwrite)⟩
    · rw [hwrite] at hadds
      rw [run_bind_ok hwrite]
      rcases ih s' with ⟨hok, hall⟩ | ⟨f, front, herror, hfront, hstops⟩
      · refine .inl ⟨hok, ?_⟩
        rw [hall, hadds, List.append_assoc]
        rfl
      · refine .inr ⟨f, placed root (path, bytes) :: front, herror, ?_, .later hwrite hstops⟩
        rw [hfront, hadds, List.append_assoc]
        rfl

/-- **What a build has written** when it comes to its artifacts. -/
theorem run_adds (hp : prepared (content (storage s)) r.sources = .ok units) :
    (answer h m r s = .ok r.output ∧ record (storage (after h m r s)) =
        record (storage s) ++ (artifacts r.output r.kinds units).map (placed root)) ∨
      ∃ f front s', answer h m r s = .error f ∧
        record (storage (after h m r s)) = record (storage s) ++ front ∧
        storage s' = storage s ∧ Stops h root s' (artifacts r.output r.kinds units) front f := by
  obtain ⟨s', hs', hanswer, hafter⟩ := run_writes (m := m) hh hp
  rw [hanswer, hafter, ← hs']
  rcases writeAll_adds hh hw (artifacts r.output r.kinds units) s' with
    ⟨hok, hall⟩ | ⟨f, front, herror, hfront, hstops⟩
  · rw [hok]
    exact .inl ⟨rfl, hall⟩
  · rw [herror]
    exact .inr ⟨f, front, s', rfl, hfront, rfl, hstops⟩

end Records

/-! ## No file twice -/

variable {output : Path} {kinds : List ArtifactKind}

theorem mem_artifacts {u : CompiledUnit} {k : ArtifactKind} (hu : u ∈ units) (hk : k ∈ kinds) :
    (artifactPath output u k, Utf8.encode (u.artifact k)) ∈ artifacts output kinds units :=
  List.mem_flatMap.mpr ⟨u, hu, List.mem_map_of_mem hk⟩

/-- What is prepared are the units of sources that can be built. -/
theorem ready_of_prepared {files : Path → Except Fault Bytes} {sources : List Path}
    (h : prepared files sources = .ok units) :
    Ready files sources ∧ List.Forall₂ (Compiles files) sources units := by
  rcases prepared_cases files sources with ⟨units', h', hready, hunits⟩ | ⟨f, h', -⟩
  · obtain rfl := Except.ok.inj (h.symm.trans h')
    exact ⟨hready, hunits⟩
  · cases h.symm.trans h'

/-- They are known by the paths of their sources. -/
theorem paths_eq {files : Path → Except Fault Bytes} {sources : List Path}
    (h : List.Forall₂ (Compiles files) sources units) : units.map CompiledUnit.path = sources := by
  induction h with
  | nil => rfl
  | cons hu _ ih => rw [List.map_cons, hu.path_eq, ih]

/-- Sources have one list of units. -/
theorem units_unique {files : Path → Except Fault Bytes} {sources : List Path}
    {units' : List CompiledUnit} (h : List.Forall₂ (Compiles files) sources units)
    (h' : List.Forall₂ (Compiles files) sources units') : units = units' :=
  Except.ok.inj ((forall₂_compiles_iff.mpr h).symm.trans (forall₂_compiles_iff.mpr h'))

/-- The files of some units are named by each stem with each kind. -/
theorem names_artifacts (hext : ∀ u ∈ units, extension? u.path = some sourceExtension) :
    ((artifacts output kinds units).map (placed root)).map (fun file => fileName? file.1) =
      ((units.map fun u => sourceStem u.path).product kinds).map
        fun x => some (Utf8.encode (artifactName x.1 x.2)) := by
  induction units with
  | nil => rfl
  | cons u units ih =>
    obtain ⟨hu, hunits⟩ := List.forall_mem_cons.mp hext
    have hname (k : ArtifactKind) : fileName? (below root (artifactPath output u k)) =
        some (Utf8.encode (artifactName (sourceStem u.path) k)) := by
      have hartifact : IsName (artifactName (sourceStem u.path) k) :=
        isName_artifactName (not_mem_sourceStem hu)
      rw [below, artifactPath, encode_join, below, join_join]
      exact fileName?_join hartifact.encode _
    rw [artifacts, List.flatMap_cons, List.map_append, List.map_append, ← artifacts, ih hunits,
      List.map_cons, List.product, List.product, List.flatMap_cons, List.map_append]
    congr 1
    rw [List.map_map, List.map_map, List.map_map]
    exact List.map_congr_left fun k _ => hname k

/-- **No file is written twice.** -/
theorem nodup_artifacts (hext : ∀ u ∈ units, extension? u.path = some sourceExtension)
    (hstems : (units.map fun u => sourceStem u.path).Nodup) (hkinds : kinds.Nodup) :
    ((artifacts output kinds units).map (placed root)).Nodup := by
  refine List.Nodup.of_map (fun file => fileName? file.1) ?_
  rw [names_artifacts hext]
  refine (hstems.product hkinds).map fun x y hxy => ?_
  obtain ⟨hstem, hkind⟩ := artifactName_inj (Utf8.encode_injective (Option.some.inj hxy))
  exact Prod.ext hstem hkind

end Build

/-! ## Kinds -/

namespace Check

theorem nodup_addKind {kinds : List ArtifactKind} (h : kinds.Nodup) (k : ArtifactKind) :
    (addKind kinds k).Nodup := by
  rw [addKind]
  split
  · exact h
  · rename_i hk
    rw [List.contains_iff_mem] at hk
    exact List.nodup_append.mpr ⟨h, List.nodup_singleton k, fun a ha b hb => by
      rw [List.mem_singleton.mp hb]
      exact fun heq => hk (heq ▸ ha)⟩

theorem nodup_kindsFrom {field : String} {before kinds : List ArtifactKind} {names : List Text}
    (hbefore : before.Nodup) (h : kindsFrom field before names = .ok kinds) : kinds.Nodup := by
  induction names generalizing before with
  | nil => exact Except.ok.inj h ▸ hbefore
  | cons name names ih =>
    rw [kindsFrom] at h
    split at h
    · exact ih (nodup_addKind hbefore _) h
    · cases h

/-- **Each kind is there once**, however often it is asked for. -/
theorem nodup_kinds {field : String} {names : List Text} {kinds : List ArtifactKind}
    (h : Check.kinds field names = .ok kinds) : kinds.Nodup :=
  nodup_kindsFrom List.nodup_nil h

end Check

namespace Settings

variable {p : Platform (StateM σ)} {cwd : RawPath} {c : CommandLine} {s s' : σ}
  {settings : Settings}

/-- So it is with a manifest, and without one. -/
theorem nodup_start (h : Action.run (start p cwd c) s = (.ok settings, s')) :
    settings.kinds.Nodup := by
  rw [start, run_lift_bind] at h
  rcases hpath : (manifestPath? p cwd c s).1 with - | path
  · rw [hpath] at h
    obtain rfl : ofSources cwd [] = settings := Except.ok.inj (Prod.mk.inj h).1
    exact List.nodup_singleton _
  rw [hpath, run_bind] at h
  rcases hread : Action.run (readManifest p cwd path) (manifestPath? p cwd c s).2 with ⟨f | m, s₁⟩
  · rw [hread] at h
    cases h
  simp only [hread, ofManifest] at h
  rcases hkinds : m.kinds with f | kinds
  · rw [hkinds] at h
    cases h
  · rw [hkinds] at h
    obtain rfl := Except.ok.inj (Prod.mk.inj h).1
    unfold Manifest.kinds at hkinds
    split at hkinds
    · exact Check.nodup_kinds hkinds
    · obtain rfl := Except.ok.inj hkinds
      exact List.nodup_singleton _

theorem nodup_resolveFrom (h : (Action.run (resolveFrom p cwd c) s).1 = .ok settings) :
    settings.kinds.Nodup := by
  obtain ⟨base, s', hstart, hover⟩ := exists_start h
  have hkinds := (override_eq_ok hover).1
  unfold wantedKinds at hkinds
  split at hkinds
  · exact Except.ok.inj hkinds ▸ nodup_start hstart
  · exact Check.nodup_kinds hkinds

/-- **The kinds of settings differ.** -/
theorem nodup_resolve (h : (Action.run (resolve p c) s).1 = .ok settings) :
    settings.kinds.Nodup := by
  rw [resolve] at h
  rcases hcwd : Action.run p.workingDirectory s with ⟨f | cwd, s'⟩
  · rw [run_bind_error hcwd] at h
    cases h
  · rw [run_bind_ok hcwd] at h
    exact nodup_resolveFrom h

end Settings

end StraightLine
