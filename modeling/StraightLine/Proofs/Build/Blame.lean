import StraightLine.Proofs.Build.Action
import StraightLine.Proofs.Build.First
import StraightLine.Proofs.Build.FrontEnd

/-!
# Blame — which fault ends a build, and what it leaves

A build writes nothing before it has loaded and compiled all its sources and
has seen that their stems differ. Up to that point its phases are quiet
(`load_quiet`, `compile_quiet`), so their outcome is up to the storage alone:
`prepared` is what they come to.

`Blames` says in terms of the sources which fault that is, the first source in
its order deciding in every phase, and `Ready` says when there is none. The
build is then tied to both (`run_ready_or_blames`).
-/

namespace StraightLine

namespace Build

open StraightLine.Action

variable {σ S α β : Type} {h : Host (StateM σ)} {storage : σ → S}
  {content : S → Path → Except Fault Bytes} {files : Path → Except Fault Bytes}
  {sources : List Path} {f : Fault}

/-! ## Sources -/

/-- A source is there and is a text. -/
def Loads (files : Path → Except Fault Bytes) (p : Path) (t : Text) : Prop :=
  ∃ bytes, files p = .ok bytes ∧ Utf8.decode bytes = .ok t

/-- **Why a source cannot be loaded**: it cannot be read, or is no text. -/
inductive Unloadable (files : Path → Except Fault Bytes) (p : Path) : Fault → Prop
  | unread {cause : Fault} (h : files p = .error cause) : Unloadable files p cause
  | undecoded {bytes : Bytes} {e : Utf8Error} (h : files p = .ok bytes)
      (he : Utf8.decode bytes = .error e) : Unloadable files p (.file e.message)

/-- A source can be loaded and compiled. -/
def Compiles (files : Path → Except Fault Bytes) (p : Path) (u : CompiledUnit) : Prop :=
  ∃ t, Loads files p t ∧ SourceFile.compile ⟨p, t⟩ = .ok u

/-- **The fault of some sources**: that there is none, the first that cannot be
loaded, the first that cannot be compiled, or the first stem that occurs
again, each only when there is none before it. -/
inductive Blames (files : Path → Except Fault Bytes) (sources : List Path) : Fault → Prop
  | nothing (h : sources = []) : Blames files sources (.missing "sources")
  | unloadable {before after : List Path} {p : Path} {cause : Fault}
      (h : sources = before ++ p :: after) (hbefore : ∀ q ∈ before, ∃ t, Loads files q t)
      (hp : Unloadable files p cause) : Blames files sources (.inSource p cause)
  | uncompilable {before after : List Path} {p : Path} {t : Text} {cause : Fault}
      (hall : ∀ q ∈ sources, ∃ t, Loads files q t) (h : sources = before ++ p :: after)
      (hbefore : ∀ q ∈ before, ∃ u, Compiles files q u) (ht : Loads files p t)
      (hp : SourceFile.compile ⟨p, t⟩ = .error cause) : Blames files sources (.inSource p cause)
  | repeated {before after : List Path} {p : Path}
      (hall : ∀ q ∈ sources, ∃ u, Compiles files q u) (h : sources = before ++ p :: after)
      (hbefore : (before.map sourceStem).Nodup) (hp : sourceStem p ∈ before.map sourceStem) :
      Blames files sources (.setting "sources"
        (s!"More than one source is named '{String.ofList (sourceStem p)}'; " ++
          "their artifacts would overwrite each other"))

/-- **Sources that can be built**: there is one, all compile, and their stems
differ. -/
structure Ready (files : Path → Except Fault Bytes) (sources : List Path) : Prop where
  nonempty : sources ≠ []
  compiles : ∀ p ∈ sources, ∃ u, Compiles files p u
  distinct : (sources.map sourceStem).Nodup

/-! ## What the phases come to -/

/-- What loading a source comes to. -/
def loaded (files : Path → Except Fault Bytes) (p : Path) : Except Fault SourceFile := do
  let bytes ← (files p).mapError (Fault.inSource p)
  match Utf8.decode bytes with
  | .error e => .error (.inSource p (.file e.message))
  | .ok t => .ok ⟨p, t⟩

/-- What compiling a source comes to. -/
def compiled (s : SourceFile) : Except Fault CompiledUnit :=
  s.compile.mapError (Fault.inSource s.path)

theorem loaded_eq_ok_iff {p : Path} {s : SourceFile} :
    loaded files p = .ok s ↔ s.path = p ∧ Loads files p s.contents := by
  obtain ⟨path, contents⟩ := s
  unfold loaded Loads
  rcases files p with e | bytes
  · exact ⟨by rintro ⟨⟩, by rintro ⟨-, _, ⟨⟩, -⟩⟩
  · rcases hd : Utf8.decode bytes with e | t
    · refine ⟨fun h => ?_, ?_⟩
      · simp [Except.mapError, bind, Except.bind, hd] at h
      · rintro ⟨-, _, ⟨⟩, ht⟩
        cases hd.symm.trans ht
    · simp only [Except.mapError, bind, Except.bind, hd, Except.ok.injEq, SourceFile.mk.injEq]
      constructor
      · rintro ⟨rfl, rfl⟩
        exact ⟨rfl, bytes, rfl, hd⟩
      · rintro ⟨rfl, _, rfl, ht⟩
        exact ⟨rfl, Except.ok.inj (hd.symm.trans ht)⟩

theorem loaded_eq_error_iff {p : Path} :
    loaded files p = .error f ↔ ∃ cause, f = .inSource p cause ∧ Unloadable files p cause := by
  unfold loaded
  rcases hread : files p with e | bytes
  · constructor
    · rintro ⟨⟩
      exact ⟨e, rfl, .unread hread⟩
    · rintro ⟨_, rfl, h | ⟨h, -⟩⟩
      · rw [Except.error.inj (hread.symm.trans h)]
        rfl
      · cases hread.symm.trans h
  · rcases hd : Utf8.decode bytes with e | t
    · simp only [Except.mapError, bind, Except.bind, hd, Except.error.injEq]
      constructor
      · rintro rfl
        exact ⟨_, rfl, .undecoded hread hd⟩
      · rintro ⟨_, rfl, h | ⟨h, he⟩⟩
        · cases hread.symm.trans h
        · obtain rfl := Except.ok.inj (hread.symm.trans h)
          rw [Except.error.inj (hd.symm.trans he)]
    · simp only [Except.mapError, bind, Except.bind, hd]
      constructor
      · rintro ⟨⟩
      · rintro ⟨_, -, h | ⟨h, he⟩⟩
        · cases hread.symm.trans h
        · obtain rfl := Except.ok.inj (hread.symm.trans h)
          cases hd.symm.trans he

theorem compiled_eq_ok_iff {s : SourceFile} {u : CompiledUnit} :
    compiled s = .ok u ↔ s.compile = .ok u := by
  unfold compiled
  rcases s.compile with e | v
  · exact ⟨(nomatch ·), (nomatch ·)⟩
  · exact Iff.rfl

theorem compiled_eq_error_iff {s : SourceFile} :
    compiled s = .error f ↔ ∃ cause, f = .inSource s.path cause ∧ s.compile = .error cause := by
  unfold compiled
  rcases s.compile with e | v
  · constructor
    · rintro ⟨⟩
      exact ⟨e, rfl, rfl⟩
    · rintro ⟨_, rfl, ⟨⟩⟩
      rfl
  · exact ⟨(nomatch ·), fun ⟨_, _, h⟩ => nomatch h⟩

/-- A source that is loaded and compiles. -/
theorem compiles_iff {p : Path} {u : CompiledUnit} :
    Compiles files p u ↔ (loaded files p >>= compiled) = .ok u := by
  constructor
  · rintro ⟨t, ht, hu⟩
    rw [(loaded_eq_ok_iff (s := ⟨p, t⟩)).mpr ⟨rfl, ht⟩]
    exact compiled_eq_ok_iff.mpr hu
  · intro hu
    rcases hload : loaded files p with e | ⟨path, t⟩
    · rw [hload] at hu
      cases hu
    · rw [hload] at hu
      obtain ⟨rfl, ht⟩ := loaded_eq_ok_iff.mp hload
      exact ⟨t, ht, compiled_eq_ok_iff.mp hu⟩

theorem Compiles.path_eq {p : Path} {u : CompiledUnit} (h : Compiles files p u) : u.path = p := by
  obtain ⟨t, -, hu⟩ := h
  obtain ⟨tree, -, -, -, hunit⟩ := SourceFile.compile_eq_ok_iff.mp hu
  rw [hunit]

theorem stems_eq {units : List CompiledUnit} (h : List.Forall₂ (Compiles files) sources units) :
    (units.map fun u => sourceStem u.path) = sources.map sourceStem := by
  induction h with
  | nil => rfl
  | cons hu _ ih => rw [List.map_cons, List.map_cons, hu.path_eq, ih]

/-- What loading the sources of a build comes to. -/
def loadedAll (files : Path → Except Fault Bytes) (sources : List Path) :
    Except Fault (List SourceFile) :=
  if sources = [] then .error (.missing "sources") else sources.mapM (loaded files)

/-- The stems of units that may be written next to each other. -/
def checked (units : List CompiledUnit) : Except Fault (List CompiledUnit) :=
  match repeated? [] (units.map fun u => sourceStem u.path) with
  | some stem =>
    .error (.setting "sources"
      (s!"More than one source is named '{String.ofList stem}'; " ++
        "their artifacts would overwrite each other"))
  | none => .ok units

/-- **What a build comes to before it writes.** -/
def prepared (files : Path → Except Fault Bytes) (sources : List Path) :
    Except Fault (List CompiledUnit) := do
  let loaded ← loadedAll files sources
  let units ← loaded.mapM compiled
  checked units

theorem prepared_eq : prepared files sources =
    (loadedAll files sources >>= fun ss => ss.mapM compiled) >>= checked := by
  unfold prepared
  rcases loadedAll files sources with e | ss
  · rfl
  · rfl

theorem prepared_of_error (hne : sources ≠ []) (h : sources.mapM (loaded files) = .error f) :
    prepared files sources = .error f := by
  rw [prepared, loadedAll, if_neg hne, h]
  rfl

/-- Behind the loading each source is compiled as it was loaded. -/
theorem prepared_of_ok {ss : List SourceFile} (hne : sources ≠ [])
    (h : sources.mapM (loaded files) = .ok ss) :
    prepared files sources = (sources.mapM fun p => loaded files p >>= compiled) >>= checked := by
  rw [prepared, loadedAll, if_neg hne, ← mapM_of_mapM_ok h, h]
  rfl

/-- The stems are those of the sources. -/
theorem checked_eq {units : List CompiledUnit} (h : List.Forall₂ (Compiles files) sources units) :
    checked units =
      match repeated? [] (sources.map sourceStem) with
      | some stem =>
        .error (.setting "sources"
          (s!"More than one source is named '{String.ofList stem}'; " ++
            "their artifacts would overwrite each other"))
      | none => .ok units := by
  rw [checked, stems_eq h]

theorem forall₂_compiles_iff {units : List CompiledUnit} :
    (sources.mapM fun p => loaded files p >>= compiled) = .ok units ↔
      List.Forall₂ (Compiles files) sources units := by
  rw [mapM_eq_ok_iff]
  constructor
  · exact fun h => h.imp fun _ _ => compiles_iff.mpr
  · exact fun h => h.imp fun _ _ => compiles_iff.mp

/-- **Sources are ready or to blame**, and the build comes to that. -/
theorem prepared_cases (files : Path → Except Fault Bytes) (sources : List Path) :
    (∃ units, prepared files sources = .ok units ∧ Ready files sources ∧
        List.Forall₂ (Compiles files) sources units) ∨
      ∃ f, prepared files sources = .error f ∧ Blames files sources f := by
  by_cases hne : sources = []
  · subst hne
    exact .inr ⟨_, rfl, .nothing rfl⟩
  rcases hload : sources.mapM (loaded files) with e | ss
  · obtain ⟨before, p, after, hsplit, hbefore, hp⟩ := mapM_eq_error_iff.mp hload
    obtain ⟨cause, rfl, hcause⟩ := loaded_eq_error_iff.mp hp
    refine .inr ⟨_, prepared_of_error hne hload, .unloadable hsplit (fun q hq => ?_) hcause⟩
    obtain ⟨s, hs⟩ := hbefore q hq
    exact ⟨_, (loaded_eq_ok_iff.mp hs).2⟩
  have hprepared := prepared_of_ok hne hload
  rcases hcompile : (sources.mapM fun p => loaded files p >>= compiled) with e | units
  · rw [hcompile] at hprepared
    obtain ⟨before, p, after, hsplit, hbefore, hp⟩ := mapM_eq_error_iff.mp hcompile
    have hall := exists_ok_of_mapM_ok hload
    obtain ⟨⟨path, t⟩, hs⟩ := hall p (by simp [hsplit])
    obtain ⟨rfl, ht⟩ := loaded_eq_ok_iff.mp hs
    rw [hs] at hp
    obtain ⟨cause, rfl, hcause⟩ := compiled_eq_error_iff.mp hp
    refine .inr ⟨_, hprepared, .uncompilable (fun q hq => ?_) hsplit (fun q hq => ?_) ht hcause⟩
    · obtain ⟨s, hs⟩ := hall q hq
      exact ⟨_, (loaded_eq_ok_iff.mp hs).2⟩
    · obtain ⟨u, hu⟩ := hbefore q hq
      exact ⟨u, compiles_iff.mpr hu⟩
  have hunits := forall₂_compiles_iff.mp hcompile
  have hall : ∀ q ∈ sources, ∃ u, Compiles files q u := fun q hq => by
    obtain ⟨u, hu⟩ := exists_ok_of_mapM_ok hcompile q hq
    exact ⟨u, compiles_iff.mpr hu⟩
  rw [hcompile] at hprepared
  replace hprepared : prepared files sources = checked units := hprepared
  rw [checked_eq hunits] at hprepared
  rcases hstem : repeated? [] (sources.map sourceStem) with - | stem
  · rw [hstem] at hprepared
    exact .inl ⟨units, hprepared, ⟨hne, hall, repeated?_eq_none_iff.mp hstem⟩, hunits⟩
  · rw [hstem] at hprepared
    obtain ⟨front, back, hsplit, hnone, hmem⟩ := repeated?_eq_some_iff.mp hstem
    obtain ⟨before, rest, rfl, rfl, hrest⟩ := List.map_eq_append_iff.mp hsplit
    obtain ⟨p, after, rfl, rfl, -⟩ := List.map_eq_cons_iff.mp hrest
    exact .inr ⟨_, hprepared, .repeated hall rfl (repeated?_eq_none_iff.mp hnone)
      (hmem.resolve_right List.not_mem_nil)⟩

theorem exists_loaded (h : ∀ q ∈ sources, ∃ t, Loads files q t) :
    ∀ q ∈ sources, ∃ s, loaded files q = .ok s := fun q hq => by
  obtain ⟨t, ht⟩ := h q hq
  exact ⟨⟨q, t⟩, loaded_eq_ok_iff.mpr ⟨rfl, ht⟩⟩

theorem exists_compiled (h : ∀ q ∈ sources, ∃ u, Compiles files q u) :
    ∀ q ∈ sources, ∃ u, (loaded files q >>= compiled) = .ok u := fun q hq => by
  obtain ⟨u, hu⟩ := h q hq
  exact ⟨u, compiles_iff.mp hu⟩

/-- Where all sources compile, only their stems can be at fault. -/
theorem prepared_of_compiles (hne : sources ≠ [])
    (hall : ∀ q ∈ sources, ∃ u, Compiles files q u) :
    ∃ units, List.Forall₂ (Compiles files) sources units ∧
      prepared files sources = checked units := by
  have hloads : ∀ q ∈ sources, ∃ t, Loads files q t := fun q hq => by
    obtain ⟨u, t, ht, -⟩ := hall q hq
    exact ⟨t, ht⟩
  obtain ⟨ss, hss⟩ := exists_mapM_ok (exists_loaded hloads)
  obtain ⟨units, hunits⟩ := exists_mapM_ok (exists_compiled hall)
  refine ⟨units, forall₂_compiles_iff.mp hunits, ?_⟩
  rw [prepared_of_ok hne hss, hunits]
  rfl

/-- **A fault that sources are blamed with** is what the build comes to. -/
theorem prepared_of_blames (h : Blames files sources f) : prepared files sources = .error f := by
  cases h with
  | nothing h =>
    subst h
    rfl
  | unloadable h hbefore hp =>
    refine prepared_of_error (by simp [h])
      (mapM_eq_error_iff.mpr ⟨_, _, _, h, exists_loaded hbefore, ?_⟩)
    exact loaded_eq_error_iff.mpr ⟨_, rfl, hp⟩
  | @uncompilable before after p t cause hall h hbefore ht hp =>
    obtain ⟨ss, hss⟩ := exists_mapM_ok (exists_loaded hall)
    have hfail : (loaded files p >>= compiled) = .error (.inSource p cause) := by
      rw [(loaded_eq_ok_iff (s := ⟨p, t⟩)).mpr ⟨rfl, ht⟩]
      exact compiled_eq_error_iff.mpr ⟨cause, rfl, hp⟩
    rw [prepared_of_ok (by simp [h]) hss,
      mapM_eq_error_iff.mpr ⟨before, p, after, h, exists_compiled hbefore, hfail⟩]
    rfl
  | @repeated before after p hall h hbefore hp =>
    obtain ⟨units, hunits, hprepared⟩ := prepared_of_compiles (by simp [h]) hall
    have hstem : repeated? [] (sources.map sourceStem) = some (sourceStem p) := by
      refine repeated?_eq_some_iff.mpr ⟨before.map sourceStem, after.map sourceStem, ?_,
        repeated?_eq_none_iff.mpr hbefore, .inl hp⟩
      rw [h, List.map_append, List.map_cons]
    rw [hprepared, checked_eq hunits, hstem]

/-- Ready sources are not to blame. -/
theorem Ready.not_blames (h : Ready files sources) : ¬ Blames files sources f := by
  intro hblames
  obtain ⟨units, hunits, hprepared⟩ := prepared_of_compiles h.nonempty h.compiles
  rw [checked_eq hunits, repeated?_eq_none_iff.mpr h.distinct] at hprepared
  cases hprepared.symm.trans (prepared_of_blames hblames)

/-! ## Phases -/

variable (hh : h.Over storage content)

include hh

theorem loadSource_quiet (p : Path) :
    Quiet storage (loadSource h p) fun d => loaded (content d) p := by
  refine (Quiet.lift (hh.log _)).before (((hh.read p).adapt _).bind fun bytes => ?_)
  rcases Utf8.decode bytes with e | t
  · exact .throw _
  · exact .pure _

theorem loadAll_quiet (ps : List Path) :
    Quiet storage (loadAll h ps) fun d => ps.mapM (loaded (content d)) := by
  induction ps with
  | nil => exact .pure _
  | cons p ps ih =>
    refine ((loadSource_quiet hh p).bind fun s => ih.bind fun ss => .pure (s :: ss)).congr
      fun d => ?_
    rw [List.mapM_cons]
    rfl

/-- **Loading** only looks. -/
theorem load_quiet (ps : List Path) :
    Quiet storage (load h ps) fun d => loadedAll (content d) ps := by
  cases ps with
  | nil => exact .throw _
  | cons p ps => exact loadAll_quiet hh (p :: ps)

theorem logAll_quiet (records : List LogRecord) :
    Quiet storage (forIn records PUnit.unit fun r _ => do
      h.log r
      pure (ForInStep.yield PUnit.unit)) fun _ => .ok PUnit.unit := by
  induction records with
  | nil => exact .pure _
  | cons r records ih =>
    rw [List.forIn_cons]
    have hstep : Quiet storage (do h.log r; pure (ForInStep.yield PUnit.unit)) fun _ =>
        .ok (ForInStep.yield PUnit.unit) :=
      (Quiet.lift (hh.log r)).before (.pure _)
    exact hstep.before ih

theorem compileSource_quiet (s : SourceFile) :
    Quiet storage (compileSource h s) fun _ => compiled s := by
  refine (logAll_quiet hh s.compileLog).before ?_
  rw [compiled]
  rcases s.compile with e | u
  · exact .throw _
  · exact (Quiet.lift (hh.log _)).before (.pure u)

/-- **Compiling** only tells. -/
theorem compile_quiet (ss : List SourceFile) :
    Quiet storage (compile h ss) fun _ => ss.mapM compiled := by
  refine (Quiet.lift (hh.log _)).before ?_
  induction ss with
  | nil => exact .pure _
  | cons s ss ih =>
    refine ((compileSource_quiet hh s).bind fun u => ih.bind fun us => .pure (u :: us)).congr
      fun d => ?_
    rw [List.mapM_cons]
    rfl

omit hh

/-! ## Writing -/

variable {write : Path → Bytes → ExceptT Fault (StateM σ) Unit} {r : BuildRequest}
  {units : List CompiledUnit} {m : PhaseMonitor} {s : σ}

theorem load_write (ps : List Path) : load { h with write := write } ps = load h ps := by
  have hall : ∀ ps, loadAll { h with write := write } ps = loadAll h ps := by
    intro ps
    induction ps with
    | nil => rfl
    | cons p ps ih =>
      rw [loadAll, ih]
      rfl
  cases ps with
  | nil => rfl
  | cons p ps => exact hall (p :: ps)

theorem compile_write (ss : List SourceFile) :
    compile { h with write := write } ss = compile h ss := by
  have hall : ∀ ss, compileAll { h with write := write } ss = compileAll h ss := by
    intro ss
    induction ss with
    | nil => rfl
    | cons s ss ih =>
      rw [compileAll, ih]
      rfl
  rw [compile, hall]
  rfl

/-- Nothing is written where a stem occurs again. -/
theorem emit_of_checked_error (hc : checked units = .error f) : emit h r units = throw f := by
  rcases hrep : repeated? [] (units.map fun u => sourceStem u.path) with - | stem
  · rw [checked, hrep] at hc
    cases hc
  · rw [checked, hrep] at hc
    rw [emit, hrep, ← Except.error.inj hc]

theorem emit_of_checked_ok {us : List CompiledUnit} (hc : checked units = .ok us) :
    emit h r units = (do
      writeAll h (artifacts r.output r.kinds units)
      return r.output) := by
  rcases hrep : repeated? [] (units.map fun u => sourceStem u.path) with - | stem
  · rw [emit, hrep]
  · rw [checked, hrep] at hc
    cases hc

theorem eq_of_checked {us : List CompiledUnit} (hc : checked units = .ok us) : us = units := by
  unfold checked at hc
  split at hc
  · cases hc
  · exact (Except.ok.inj hc).symm

/-- **A write that fails**: those in front of it have gone through from a state
on, with something told before each. -/
inductive WriteFails (h : Host (StateM σ)) : List (Path × Bytes) → σ → Fault → Prop
  | here {path : Path} {bytes : Bytes} {fs : List (Path × Bytes)} {record : LogRecord} {s : σ}
      {f : Fault} (hw : (Action.run (h.write path bytes) (h.log record s).2).1 = .error f) :
      WriteFails h ((path, bytes) :: fs) s f
  | later {path : Path} {bytes : Bytes} {fs : List (Path × Bytes)} {record : LogRecord}
      {s s' : σ} {f : Fault}
      (hw : Action.run (h.write path bytes) (h.log record s).2 = (.ok (), s'))
      (hf : WriteFails h fs s' f) : WriteFails h ((path, bytes) :: fs) s f

/-- **Files are written** up to the first write that fails: nothing else can
fail in between. -/
theorem writeAll_cases (h : Host (StateM σ)) (fs : List (Path × Bytes)) (s : σ) :
    (Action.run (writeAll h fs) s).1 = .ok () ∨
      ∃ f, WriteFails h fs s f ∧ (Action.run (writeAll h fs) s).1 = .error f := by
  induction fs generalizing s with
  | nil => exact .inl rfl
  | cons file fs ih =>
    obtain ⟨path, bytes⟩ := file
    obtain ⟨record, hrecord⟩ : ∃ record, Action.run (writeAll h ((path, bytes) :: fs)) s =
        Action.run (h.write path bytes >>= fun _ => writeAll h fs) (h.log record s).2 :=
      ⟨_, rfl⟩
    rw [hrecord]
    rcases hwrite : Action.run (h.write path bytes) (h.log record s).2 with ⟨f | _, s'⟩
    · rw [run_bind_error hwrite]
      exact .inr ⟨f, .here (congrArg Prod.fst hwrite), rfl⟩
    · rw [run_bind_ok hwrite]
      refine (ih s').imp_right ?_
      rintro ⟨f, hf, hanswer⟩
      exact ⟨f, .later hwrite hf, hanswer⟩

/-! ## Whole builds -/

/-- What a build answers. -/
def answer (h : Host (StateM σ)) (m : PhaseMonitor) (r : BuildRequest) (s : σ) :
    Except Fault Path :=
  (StateT.run (Build.run h m r) s).1.1

/-- The state that a build leaves. -/
def after (h : Host (StateM σ)) (m : PhaseMonitor) (r : BuildRequest) (s : σ) : σ :=
  (StateT.run (Build.run h m r) s).2

theorem run_phase (x : ExceptT Fault (StateM σ) α) (k : Except Fault α → StateM σ β) (s : σ) :
    StateT.run (ExceptT.run x >>= k) s =
      StateT.run (k (Action.run x s).1) (Action.run x s).2 := rfl

theorem run_tell (l : StateM σ Unit) (k : Unit → StateM σ β) (s : σ) :
    StateT.run (l >>= k) s = StateT.run (k ()) (l s).2 := rfl

/-- What a build does with what its last phase comes to. -/
def closing (h : Host (StateM σ)) (m : PhaseMonitor) (message : Path → String) :
    Except Fault Path → StateM σ (Except Fault Path × PhaseMonitor)
  | .error e => return (.error e, m)
  | .ok output => do
    tell h (message output)
    return (.ok output, m.finish "emit")

theorem closing_answer (h : Host (StateM σ)) (message : Path → String) (x : Except Fault Path)
    (s : σ) : (StateT.run (closing h m message x) s).1.1 = x := by
  cases x with
  | error e => rfl
  | ok output => rfl

/-- **The first two phases** fail as the sources have it, or leave the last one
to be done. -/
theorem run_front (hh : h.Over storage content) (m : PhaseMonitor) (r : BuildRequest) (s : σ) :
    ∃ s', storage s' = storage s ∧
      match (loadedAll (content (storage s)) r.sources >>= fun ss => ss.mapM compiled) with
      | .error f => ∃ m', ∀ write,
          StateT.run (Build.run { h with write := write } m r) s = ((.error f, m'), s')
      | .ok units => ∃ m' message, ∀ write,
          StateT.run (Build.run { h with write := write } m r) s =
            StateT.run (ExceptT.run (emit { h with write := write } r units) >>=
              closing h m' message) s' := by
  have htell : ∀ message s, storage (tell h message s).2 = storage s := fun _ => hh.log _
  have htell' : ∀ write message, tell { h with write := write } message = tell h message :=
    fun _ _ => rfl
  simp only [Build.run, run_tell, run_phase, load_write, compile_write, htell']
  -- what is told leads from state to state, but not to another storage
  generalize hs₁ : (tell h _ s).2 = s₁
  replace hs₁ : storage s₁ = storage s := hs₁ ▸ htell _ s
  have hload := (load_quiet hh r.sources).answers s₁
  have hs₂ := ((load_quiet hh r.sources).keeps s₁).trans hs₁
  generalize (Action.run (load h r.sources) s₁).2 = s₂ at hs₂ ⊢
  rw [hload, hs₁]
  rcases loadedAll (content (storage s)) r.sources with e | ss
  · exact ⟨s₂, hs₂, m, fun _ => rfl⟩
  simp only [run_tell, run_phase]
  generalize hs₃ : (tell h _ s₂).2 = s₃
  replace hs₃ : storage s₃ = storage s := (hs₃ ▸ htell _ s₂).trans hs₂
  have hcompile := (compile_quiet hh ss).answers s₃
  have hs₄ := ((compile_quiet hh ss).keeps s₃).trans hs₃
  generalize (Action.run (compile h ss) s₃).2 = s₄ at hs₄ ⊢
  rw [hcompile]
  change ∃ s', storage s' = storage s ∧ match ss.mapM compiled with
    | .error f => _
    | .ok units => _
  rcases ss.mapM compiled with e | units
  · exact ⟨s₄, hs₄, m.finish "load", fun _ => rfl⟩
  exact ⟨(tell h _ s₄).2, (htell _ s₄).trans hs₄, _, _, fun write => rfl⟩

/-- **A build that comes to a fault** before it writes ends with it and leaves
the storage as it was, whatever writing would have done. -/
theorem run_of_prepared_error (hh : h.Over storage content)
    (hp : prepared (content (storage s)) r.sources = .error f) :
    answer h m r s = .error f ∧ storage (after h m r s) = storage s ∧
      ∀ write, StateT.run (Build.run { h with write := write } m r) s =
        StateT.run (Build.run h m r) s := by
  suffices hrun : ∃ m' s', storage s' = storage s ∧
      ∀ write, StateT.run (Build.run { h with write := write } m r) s = ((.error f, m'), s') by
    obtain ⟨m', s', hs', hrun⟩ := hrun
    have hrun' := hrun h.write
    exact ⟨congrArg (·.1.1) hrun', (congrArg (storage ·.2) hrun').trans hs',
      fun write => (hrun write).trans hrun'.symm⟩
  obtain ⟨s', hs', hfront⟩ := run_front hh m r s
  rw [prepared_eq] at hp
  rcases hcomes : loadedAll (content (storage s)) r.sources >>= fun ss => ss.mapM compiled with
    e | units
  · rw [hcomes] at hfront hp
    obtain ⟨m', hrun⟩ := hfront
    obtain rfl := Except.error.inj hp
    exact ⟨m', s', hs', hrun⟩
  · rw [hcomes] at hfront hp
    obtain ⟨m', message, hrun⟩ := hfront
    refine ⟨m', s', hs', fun write => ?_⟩
    rw [hrun, emit_of_checked_error hp]
    rfl

/-- Behind the last phase something is told. -/
theorem closing_keeps (hh : h.Over storage content) (message : Path → String)
    (x : Except Fault Path) (s : σ) :
    storage (StateT.run (closing h m message x) s).2 = storage s := by
  cases x with
  | error f => rfl
  | ok output => exact hh.log _ s

/-- **A build that does not** comes to its writes, and they are all that changes the
storage. -/
theorem run_writes (hh : h.Over storage content)
    (hp : prepared (content (storage s)) r.sources = .ok units) :
    ∃ s', storage s' = storage s ∧
      answer h m r s = ((Action.run (writeAll h (artifacts r.output r.kinds units)) s').1.map
        fun _ => r.output) ∧
      storage (after h m r s) =
        storage (Action.run (writeAll h (artifacts r.output r.kinds units)) s').2 := by
  obtain ⟨s', hs', hfront⟩ := run_front hh m r s
  rw [prepared_eq] at hp
  rcases hcomes : loadedAll (content (storage s)) r.sources >>= fun ss => ss.mapM compiled with
    e | us
  · rw [hcomes] at hp
    cases hp
  rw [hcomes] at hfront hp
  obtain ⟨m', message, hrun⟩ := hfront
  replace hp : checked us = .ok units := hp
  obtain rfl := eq_of_checked hp
  -- the last phase answers what its writes answer
  replace hrun := hrun h.write
  rw [emit_of_checked_ok hp, run_phase] at hrun
  refine ⟨s', hs', ?_, ?_⟩
  · rw [answer, hrun, closing_answer]
    exact run_map _ _ s'
  · rw [after, hrun, closing_keeps hh]
    rw [run_bind]
    rcases Action.run (writeAll h (artifacts r.output r.kinds units)) s' with ⟨f | ⟨⟩, s''⟩
    · rfl
    · rfl

/-- It ends with a fault only if that is what a write answers. -/
theorem run_of_prepared_ok (hh : h.Over storage content)
    (hp : prepared (content (storage s)) r.sources = .ok units) :
    answer h m r s = .ok r.output ∨
      ∃ f s', storage s' = storage s ∧
        WriteFails h (artifacts r.output r.kinds units) s' f ∧ answer h m r s = .error f := by
  obtain ⟨s', hs', hanswer, -⟩ := run_writes (m := m) hh hp
  rw [hanswer]
  refine (writeAll_cases h (artifacts r.output r.kinds units) s').imp (fun hok => ?_) ?_
  · rw [hok]
    rfl
  · rintro ⟨f, hf, hwritten⟩
    exact ⟨f, s', hs', hf, by rw [hwritten]; rfl⟩

/-- **A failing build writes nothing and blames the right file.** Either the
sources are ready, and the build succeeds, or fails because a write of one of
their artifacts does; or they are to blame for one fault, which the build ends
with. It then leaves the storage as it was, and does not depend on what a
write would do. -/
theorem run_ready_or_blames (hh : h.Over storage content) (m : PhaseMonitor) (r : BuildRequest)
    (s : σ) :
    (Ready (content (storage s)) r.sources ∧
        (answer h m r s = .ok r.output ∨
          ∃ f units s', answer h m r s = .error f ∧
            List.Forall₂ (Compiles (content (storage s))) r.sources units ∧
            storage s' = storage s ∧ WriteFails h (artifacts r.output r.kinds units) s' f)) ∨
      (¬ Ready (content (storage s)) r.sources ∧
        ∃ f, Blames (content (storage s)) r.sources f ∧
          (∀ g, Blames (content (storage s)) r.sources g → g = f) ∧
          answer h m r s = .error f ∧ storage (after h m r s) = storage s ∧
          ∀ write, StateT.run (Build.run { h with write := write } m r) s =
            StateT.run (Build.run h m r) s) := by
  rcases prepared_cases (content (storage s)) r.sources with
    ⟨units, hp, hready, hunits⟩ | ⟨f, hp, hblames⟩
  · refine .inl ⟨hready, (run_of_prepared_ok hh hp).imp_right ?_⟩
    rintro ⟨f, s', hs', hfails, hanswer⟩
    exact ⟨f, units, s', hanswer, hunits, hs', hfails⟩
  · refine .inr ⟨fun hready => hready.not_blames hblames, f, hblames, fun g hg => ?_,
      run_of_prepared_error hh hp⟩
    exact Except.error.inj ((prepared_of_blames hg).symm.trans hp)

/-- A source that cannot be read is blamed before one in front of it that
cannot be compiled. -/
theorem run_ready_or_blames_missing :
    answer Memory.host (.start false)
        ⟨["bad.osta".toList, "gone.osta".toList], "out".toList, [.code]⟩
        (.ofFiles [("bad.osta".toList, Utf8.encode "x = ;".toList)] none) =
      .error (.inSource "gone.osta".toList (.file "File not found: gone.osta")) ∧
    after Memory.host (.start false)
        ⟨["bad.osta".toList, "gone.osta".toList], "out".toList, [.code]⟩
        (.ofFiles [("bad.osta".toList, Utf8.encode "x = ;".toList)] none) =
      .ofFiles [("bad.osta".toList, Utf8.encode "x = ;".toList)] none := by
  have hblames :
      Blames (Memory.read (.ofFiles [("bad.osta".toList, Utf8.encode "x = ;".toList)] none))
        ["bad.osta".toList, "gone.osta".toList]
        (.inSource "gone.osta".toList (.file "File not found: gone.osta")) := by
    have hsplit : ["bad.osta".toList, "gone.osta".toList] =
        ["bad.osta".toList] ++ "gone.osta".toList :: [] := rfl
    refine .unloadable hsplit (fun q hq => ?_) (.unread (by decide +kernel))
    obtain rfl := List.mem_singleton.mp hq
    exact ⟨"x = ;".toList, _, rfl, by decide +kernel⟩
  rcases run_ready_or_blames Memory.host_over (.start false)
      ⟨["bad.osta".toList, "gone.osta".toList], "out".toList, [.code]⟩
      (.ofFiles [("bad.osta".toList, Utf8.encode "x = ;".toList)] none) with
    ⟨hready, -⟩ | ⟨-, f, -, hunique, hanswer, hafter, -⟩
  · exact absurd hblames hready.not_blames
  · rw [hanswer, hunique _ hblames]
    exact ⟨rfl, hafter⟩

end Build

end StraightLine
