import StraightLine.Proofs.Session.Writing

/-!
# Statuses — what the end of a session tells

A session can go in six ways (`Goes`), which follow its phases: its settings
cannot be resolved, as where the working directory cannot be told, or are
refused, it is a dry run, sources are to blame, all is written, or a write stops
it. Each way has its status, and no fault has that of success, however many
sources are named around its cause (`exitCode_eq`, `exitCode_pos`).

**`status_tells`** says it the other way round. The status is 0 just when the
session did what it was asked for, and otherwise it is that of the innermost
cause of a fault for which there is a reason. What was written is read off the
record of the session; a session stopped by a write has not done what it was
asked for, since the file that stopped it is written at no other time.
-/

namespace StraightLine

open StraightLine.Action StraightLine.Path

variable {σ S : Type}

/-! ## Faults -/

/-- The status for the faults of a category. -/
def Category.status : Category → Nat
  | config => 1
  | syntactic => 1
  | io => 2
  | internal => 3

namespace Fault

/-- The cause inside all the sources that are named around it. -/
def innermost : Fault → Fault
  | inSource _ cause => cause.innermost
  | f => f

theorem category_innermost (f : Fault) : f.innermost.category = f.category := by
  induction f with
  | inSource path cause ih => exact ih
  | _ => rfl

/-- **The status of a fault** is that of its innermost cause. -/
theorem exitCode_eq (f : Fault) : f.exitCode = f.innermost.category.status := by
  rw [category_innermost, exitCode, severity]
  cases f.category <;> rfl

/-- No fault has the status of success. -/
theorem exitCode_pos (f : Fault) : 0 < f.exitCode := by
  rw [exitCode, severity]
  cases f.category <;> decide

end Fault

namespace Session

variable {p : Platform (StateM σ)} {storage : σ → S} {view : S → Surroundings}
  {record : S → WriteRecord} {c : CommandLine} {words : List Text}
  {settings : Settings} {f : Fault} {s : σ}

/-! ## How sessions go -/

/-- **How a session goes** that starts with a storage: the status it ends with,
and the storage it leaves. -/
inductive Goes (p : Platform (StateM σ)) (storage : σ → S) (record : S → WriteRecord)
    (v : Surroundings) (c : CommandLine) (d : S) : Nat → S → Prop
  | unresolved {f : Fault} (hf : v.settings c = .error f) :
      Goes p storage record v c d (max f.exitCode 1) d
  | refused {settings : Settings} {f : Fault} (h : v.settings c = .ok settings)
      (hf : settings.check = .error f) : Goes p storage record v c d (max f.exitCode 1) d
  | dry {settings : Settings} (h : v.settings c = .ok settings)
      (hcheck : settings.check = .ok ()) (hdry : c.dryRun = true) :
      Goes p storage record v c d 0 d
  | blamed {settings : Settings} {f : Fault} (h : v.settings c = .ok settings)
      (hcheck : settings.check = .ok ()) (hdry : c.dryRun = false)
      (hf : Build.prepared (v.below settings.root) settings.sources = .error f) :
      Goes p storage record v c d f.exitCode d
  | done {settings : Settings} {units : List CompiledUnit} {d' : S}
      (h : v.settings c = .ok settings) (hcheck : settings.check = .ok ())
      (hdry : c.dryRun = false)
      (hunits : Build.prepared (v.below settings.root) settings.sources = .ok units)
      (hd : record d' = record d ++
        (Build.artifacts settings.output settings.kinds units).map (Build.placed settings.root)) :
      Goes p storage record v c d 0 d'
  | stopped {settings : Settings} {units : List CompiledUnit} {front : WriteRecord} {f : Fault}
      {s' : σ} {d' : S} (h : v.settings c = .ok settings) (hcheck : settings.check = .ok ())
      (hdry : c.dryRun = false)
      (hunits : Build.prepared (v.below settings.root) settings.sources = .ok units)
      (hs' : storage s' = d) (hf : Build.Stops (p.host settings.root) settings.root s'
        (Build.artifacts settings.output settings.kinds units) front f)
      (hd : record d' = record d ++ front) : Goes p storage record v c d f.exitCode d'

section Goes

variable (hp : p.Over storage view)

include hp

/-- Settings are checked where they are. -/
theorem settingsFor_quiet (c : CommandLine) :
    Quiet storage (settingsFor p c) fun d =>
      (view d).settings c >>= fun settings => settings.check.map fun _ => settings := by
  refine (hp.resolve_quiet c).bind fun settings => ?_
  rcases settings.check with f | -
  · exact .throw f
  · exact .pure settings

theorem refuse_keeps (f : Fault) (s : σ) : storage (refuse p f s).2 = storage s :=
  (hp.log _ _).2.trans (hp.log _ s).2

/-- Monitoring is told about and changes nothing. -/
theorem build_eq (settings : Settings) (s : σ) : ∃ s', storage s' = storage s ∧
    build p settings s =
      (do
        match ← Build.run (p.host settings.root) (.start settings.monitor) settings.request with
        | (.ok output, _) => succeed p output
        | (.error f, _) => fail p f : StateM σ Outcome) s' := by
  unfold build
  split
  · exact ⟨_, (hp.log _ s).2, rfl⟩
  · exact ⟨s, rfl, rfl⟩

/-- A session that has built only tells how it went. -/
theorem build_status (settings : Settings) (s : σ) : ∃ s', storage s' = storage s ∧
    (build p settings s).1.status =
      (match Build.answer (p.host settings.root) (.start settings.monitor) settings.request s' with
      | .ok _ => 0
      | .error f => f.exitCode) ∧
    storage (build p settings s).2 = storage
      (Build.after (p.host settings.root) (.start settings.monitor) settings.request s') := by
  obtain ⟨s', hs', hbuild⟩ := build_eq hp settings s
  refine ⟨s', hs', ?_⟩
  simp only [hbuild, bind, StateT.bind, Build.answer, Build.after, StateT.run]
  rcases Build.run (p.host settings.root) (.start settings.monitor) settings.request s' with
    ⟨⟨f | output, m⟩, s''⟩
  · exact ⟨rfl, (hp.log _ _).2.trans (hp.log _ s'').2⟩
  · exact ⟨rfl, (hp.log _ s'').2⟩

/-- How a session goes on whose settings are right and that is no dry run. -/
theorem build_goes (hr : p.Records storage record)
    (h : (view (storage s)).settings c = .ok settings) (hcheck : settings.check = .ok ())
    (hdry : c.dryRun = false) :
    Goes p storage record (view (storage s)) c (storage s) (build p settings s).1.status
      (storage (build p settings s).2) := by
  obtain ⟨s', hs', hstatus, hafter⟩ := build_status hp settings s
  rw [← hs'] at h ⊢
  rw [hstatus, hafter]
  have hhost := hp.host_over settings.root
  rcases hprepared : Build.prepared ((view (storage s')).below settings.root) settings.sources with
    f | units
  · obtain ⟨hanswer, hkeeps, -⟩ := Build.run_of_prepared_error (m := .start settings.monitor)
      (r := settings.request) hhost hprepared
    rw [hanswer, hkeeps]
    exact .blamed h hcheck hdry hprepared
  · rcases Build.run_adds (m := .start settings.monitor) (r := settings.request) hhost
      (hr.host hp settings.root) hprepared with
      ⟨hanswer, hall⟩ | ⟨f, front, s'', hanswer, hfront, hs'', hstops⟩
    · rw [hanswer]
      exact .done h hcheck hdry hprepared hall
    · rw [hanswer]
      exact .stopped h hcheck hdry hprepared hs'' hstops hfront

/-- What is told first changes nothing either. -/
theorem runCommand_eq (c : CommandLine) (s : σ) :
    ∃ (s' : σ) (shown : Settings → String), storage s' = storage s ∧
      runCommand p c s =
        (match (Action.run (settingsFor p c) s').1 with
        | .error f => refuse p f
        | .ok settings => if c.dryRun then return ⟨0, shown settings, ""⟩ else build p settings)
        (Action.run (settingsFor p c) s').2 :=
  ⟨_, _, (hp.log _ s).2, rfl⟩

/-- **How a session goes.** -/
theorem runCommand_goes (hr : p.Records storage record) (c : CommandLine) (s : σ) :
    Goes p storage record (view (storage s)) c (storage s) (runCommand p c s).1.status
      (storage (runCommand p c s).2) := by
  obtain ⟨s', shown, hs', hrun⟩ := runCommand_eq hp c s
  have hquiet := settingsFor_quiet hp c
  have hkeeps := (hquiet.keeps s').trans hs'
  rw [hrun, hquiet.answers, hs']
  generalize (Action.run (settingsFor p c) s').2 = s'' at hkeeps ⊢
  rw [← hkeeps]
  -- what is left to do is up to the settings and their check
  rcases h : (view (storage s'')).settings c with f | settings
  · simp only [bind, Except.bind, refuse_keeps hp]
    exact .unresolved h
  rcases hcheck : settings.check with f | ⟨⟩
  · simp only [bind, Except.bind, hcheck, Except.map, refuse_keeps hp]
    exact .refused h hcheck
  simp only [bind, Except.bind, hcheck, Except.map]
  by_cases hdry : c.dryRun = true
  · rw [if_pos hdry]
    exact .dry h hcheck hdry
  · rw [if_neg hdry]
    exact build_goes hp hr h hcheck (Bool.not_eq_true _ ▸ hdry)

end Goes

/-! ## What a status tells -/

/-- **A session that did what it was asked for**: its settings are right, and
unless it is a dry run the artifacts of all sources are among the files that were
written. -/
inductive Succeeds (p : Platform (StateM σ)) (v : Surroundings) (c : CommandLine)
    (s : σ) (written : WriteRecord) : Prop
  | dry {settings : Settings} (h : (Action.run (Settings.resolve p c) s).1 = .ok settings)
      (hcheck : settings.check = .ok ()) (hdry : c.dryRun = true) : Succeeds p v c s written
  | built {settings : Settings} {units : List CompiledUnit}
      (h : (Action.run (Settings.resolve p c) s).1 = .ok settings)
      (hcheck : settings.check = .ok ())
      (hunits : List.Forall₂ (Build.Compiles (v.below settings.root)) settings.sources units)
      (hwritten : ∀ u ∈ units, ∀ k ∈ settings.kinds,
        (below settings.root (Build.artifactPath settings.output u k), Utf8.encode (u.artifact k)) ∈
          written) : Succeeds p v c s written

/-- **Why a session fails**: its settings are wrong, or sources are to blame, or
it writes its artifacts in order up to one that fails. -/
inductive Fails (p : Platform (StateM σ)) (storage : σ → S) (v : Surroundings)
    (c : CommandLine) (s : σ) (written : WriteRecord) (f : Fault) : Prop
  | unresolved (hf : (Action.run (Settings.resolve p c) s).1 = .error f) :
      Fails p storage v c s written f
  | refused {settings : Settings} (h : (Action.run (Settings.resolve p c) s).1 = .ok settings)
      (hf : settings.check = .error f) : Fails p storage v c s written f
  | blamed {settings : Settings} (h : (Action.run (Settings.resolve p c) s).1 = .ok settings)
      (hcheck : settings.check = .ok ()) (hdry : c.dryRun = false)
      (hf : Build.Blames (v.below settings.root) settings.sources f) :
      Fails p storage v c s written f
  | stopped {settings : Settings} {units : List CompiledUnit} {filter : LogFilter} {s' : σ}
      (h : (Action.run (Settings.resolve p c) s).1 = .ok settings)
      (hcheck : settings.check = .ok ()) (hdry : c.dryRun = false)
      (hunits : List.Forall₂ (Build.Compiles (v.below settings.root)) settings.sources units)
      (hs' : storage s' = storage s)
      (hf : Build.Stops ((p.showing filter).host settings.root) settings.root s'
        (Build.artifacts settings.output settings.kinds units) written f) :
      Fails p storage v c s written f

/-- A session goes as it does with a record, which is empty before it. -/
theorem run_goes (hp : p.Over storage view) (hc : CommandLine.ofWords? words = .ok c)
    (s : σ) : ∃ filter, Goes (p.recorded.showing filter) (fun u => (storage u.1, u.2)) Prod.snd
      (view (storage s)) c (storage s, []) (run p words s).1.status
      (storage (run p words s).2, written p words s) := by
  obtain ⟨filter, u, hu, hrun⟩ : ∃ filter u, (storage u.1, u.2) = (storage s, []) ∧
      run p.recorded words (s, []) = runCommand (p.recorded.showing filter) c u := by
    rw [run, hc]
    exact ⟨_, _, (hp.recorded.valueOf? filterVariable (s, [])).2, rfl⟩
  have hgoes := runCommand_goes (hp.recorded.showing filter)
    ((p.recorded_records storage).showing filter) c u
  refine ⟨filter, ?_⟩
  rw [run_recorded, written, hrun]
  rw [hu] at hgoes
  exact hgoes

section Cases

variable {v : Surroundings} {written : WriteRecord} {units : List CompiledUnit}

/-- What succeeds has settings that are right. -/
theorem Succeeds.settled (hs : Succeeds p v c s written) : ∃ settings,
    (Action.run (Settings.resolve p c) s).1 = .ok settings ∧ settings.check = .ok () := by
  cases hs with
  | dry h hcheck _ => exact ⟨_, h, hcheck⟩
  | built h hcheck _ _ => exact ⟨_, h, hcheck⟩

/-- And if it is no dry run, it has written its artifacts. -/
theorem Succeeds.exists_units (hs : Succeeds p v c s written) (hdry : c.dryRun = false)
    (h : (Action.run (Settings.resolve p c) s).1 = .ok settings) : ∃ units,
    List.Forall₂ (Build.Compiles (v.below settings.root)) settings.sources units ∧
      ∀ u ∈ units, ∀ k ∈ settings.kinds,
        (below settings.root (Build.artifactPath settings.output u k),
          Utf8.encode (u.artifact k)) ∈ written := by
  cases hs with
  | dry _ _ hdry' => cases hdry.symm.trans hdry'
  | built h' _ hunits hwritten =>
    obtain rfl := Except.ok.inj (h.symm.trans h')
    exact ⟨_, hunits, hwritten⟩

/-- Settings that pass their check ask for an artifact. -/
theorem exists_artifact (hcheck : settings.check = .ok ())
    (hunits : List.Forall₂ (Build.Compiles (v.below settings.root)) settings.sources units) :
    ∃ u ∈ units, ∃ k, k ∈ settings.kinds := by
  obtain ⟨hsources, -, hkinds⟩ := Settings.check_eq_ok_iff.mp hcheck
  obtain ⟨k, hk⟩ := List.exists_mem_of_ne_nil _ hkinds
  have hne := (Check.sources_eq_ok_iff.mp hsources).1
  rw [← Build.paths_eq hunits] at hne
  obtain ⟨u, hu⟩ := List.exists_mem_of_ne_nil _ (mt List.map_eq_nil_iff.mpr hne)
  exact ⟨u, hu, k, hk⟩

/-- **A build that stops** leaves an artifact out. -/
theorem exists_missing {h : Host (StateM σ)} {files : Path → Except Fault Bytes}
    (hcheck : settings.check = .ok ()) (hkinds : settings.kinds.Nodup)
    (hprepared : Build.prepared files settings.sources = .ok units)
    (hf : Build.Stops h settings.root s
      (Build.artifacts settings.output settings.kinds units) written f) :
    ∃ u ∈ units, ∃ k ∈ settings.kinds,
      (below settings.root (Build.artifactPath settings.output u k), Utf8.encode (u.artifact k)) ∉
        written := by
  obtain ⟨hready, hunits⟩ := Build.ready_of_prepared hprepared
  have hext : ∀ u ∈ units, extension? u.path = some sourceExtension := fun u hu => by
    refine Build.extension?_of_sources (Settings.check_eq_ok_iff.mp hcheck).1 u.path ?_
    exact Build.paths_eq hunits ▸ List.mem_map_of_mem hu
  have hstems : (units.map fun u => sourceStem u.path).Nodup := by
    rw [Build.stems_eq hunits]
    exact hready.distinct
  obtain ⟨file, hmem, hmissing⟩ := hf.exists_missing (Build.nodup_artifacts hext hstems hkinds)
  obtain ⟨u, hu, hmem⟩ := List.mem_flatMap.mp hmem
  obtain ⟨k, hk, rfl⟩ := List.mem_map.mp hmem
  exact ⟨u, hu, k, hk, hmissing⟩

/-- **A session succeeds with the status 0**, or it fails with that of a fault, and
has not done what it was asked for. -/
theorem Goes.succeeds_or_fails {filter : LogFilter} {d : S} {status : Nat}
    (hgoes : Goes (p.recorded.showing filter) (fun u => (storage u.1, u.2)) Prod.snd v c
      (storage s, []) status (d, written))
    (hsettings : (Action.run (Settings.resolve p c) s).1 = v.settings c) :
    status = 0 ∧ Succeeds p v c s written ∨
      ∃ f : Fault, status = f.exitCode ∧ ¬ Succeeds p v c s written ∧
        Fails p storage v c s written f := by
  have hmax (f : Fault) : max f.exitCode 1 = f.exitCode := Nat.max_eq_left f.exitCode_pos
  generalize hd : (d, written) = d' at hgoes
  cases hgoes with
  | @unresolved f hf =>
    refine .inr ⟨f, hmax f, fun hs => ?_, .unresolved (hsettings.trans hf)⟩
    obtain ⟨settings, h, -⟩ := hs.settled
    cases (hsettings.trans hf).symm.trans h
  | @refused settings f h hf =>
    refine .inr ⟨f, hmax f, fun hs => ?_, .refused (hsettings.trans h) hf⟩
    obtain ⟨settings', h', hcheck⟩ := hs.settled
    obtain rfl := Except.ok.inj ((hsettings.trans h).symm.trans h')
    cases hf.symm.trans hcheck
  | dry h hcheck hdry => exact .inl ⟨rfl, .dry (hsettings.trans h) hcheck hdry⟩
  | @blamed settings f h hcheck hdry hf =>
    refine .inr ⟨f, rfl, fun hs => ?_, .blamed (hsettings.trans h) hcheck hdry ?_⟩
    · obtain ⟨units, hunits, hwritten⟩ := hs.exists_units hdry (hsettings.trans h)
      obtain ⟨u, hu, k, hk⟩ := exists_artifact hcheck hunits
      rw [(Prod.mk.inj hd).2] at hwritten
      exact List.not_mem_nil (hwritten u hu k hk)
    · rcases Build.prepared_cases (v.below settings.root) settings.sources with
        ⟨units, hprepared, -⟩ | ⟨g, hprepared, hg⟩
      · cases hf.symm.trans hprepared
      · exact Except.error.inj (hf.symm.trans hprepared) ▸ hg
  | @done settings units _ h hcheck hdry hunits hall =>
    rw [← hd, List.nil_append] at hall
    replace hall : written = _ := hall
    refine .inl ⟨rfl, .built (hsettings.trans h) hcheck (Build.ready_of_prepared hunits).2 ?_⟩
    intro u hu k hk
    rw [hall]
    exact List.mem_map_of_mem (Build.mem_artifacts hu hk)
  | @stopped settings units front f u _ h hcheck hdry hunits hu hf hfront =>
    rw [← hd, List.nil_append] at hfront
    obtain rfl : written = front := hfront
    have hresolved := hsettings.trans h
    have hcompiles := (Build.ready_of_prepared hunits).2
    have hkinds := Settings.nodup_resolve hresolved
    refine .inr ⟨f, rfl, fun hs => ?_, .stopped hresolved hcheck hdry hcompiles
      (Prod.mk.inj hu).1 (hf.of_following ((p.recorded_alike.showing filter).host settings.root))⟩
    obtain ⟨u, hu, k, hk, hmissing⟩ := exists_missing hcheck hkinds hunits hf
    obtain ⟨units', hunits', hwritten⟩ := hs.exists_units hdry hresolved
    obtain rfl := Build.units_unique hcompiles hunits'
    exact hmissing (hwritten u hu k hk)

/-- A dry run leaves the storage as it is, whether its settings are right or not. -/
theorem Goes.eq_of_dry {d d' : S} {status : Nat}
    (hgoes : Goes p storage record v c d status d') (hdry : c.dryRun = true) : d' = d := by
  cases hgoes with
  | unresolved _ => rfl
  | refused _ _ => rfl
  | dry _ _ _ => rfl
  | blamed _ _ hbuild _ => rfl
  | done _ _ hbuild _ _ => cases hbuild.symm.trans hdry
  | stopped _ _ hbuild _ _ _ _ => cases hbuild.symm.trans hdry

end Cases

/-- **The status of a session tells how it went.** On any platform with surroundings
and for any command line that asks for a run, it is 0 just when the session did
what it was asked for. A dry run writes nothing. Any other status is that of the
innermost cause of a fault which the session had a reason to end with. -/
theorem status_tells (hp : p.Over storage view) (hc : CommandLine.ofWords? words = .ok c)
    (s : σ) :
    ((run p words s).1.status = 0 ↔
        Succeeds p (view (storage s)) c s (written p words s)) ∧
      (c.dryRun = true →
        written p words s = [] ∧ storage (run p words s).2 = storage s) ∧
      ((run p words s).1.status ≠ 0 →
        ∃ f, Fails p storage (view (storage s)) c s (written p words s) f ∧
          (run p words s).1.status = f.innermost.category.status) := by
  obtain ⟨filter, hgoes⟩ := run_goes hp hc s
  have hends := hgoes.succeeds_or_fails ((hp.resolve_quiet c).answers s)
  refine ⟨?_, fun hdry => ?_, ?_⟩
  · constructor
    · intro hstatus
      rcases hends with ⟨-, hs⟩ | ⟨f, hf, -⟩
      · exact hs
      · exact absurd (hf.symm.trans hstatus) f.exitCode_pos.ne'
    · intro hs
      rcases hends with ⟨hstatus, -⟩ | ⟨f, -, hnot, -⟩
      · exact hstatus
      · exact absurd hs hnot
  · obtain ⟨hstorage, hwritten⟩ := Prod.mk.inj (hgoes.eq_of_dry hdry)
    exact ⟨hwritten, hstorage⟩
  · intro hstatus
    rcases hends with ⟨hzero, -⟩ | ⟨f, hf, -, hfails⟩
    · exact absurd hzero hstatus
    · exact ⟨f, hfails, hf.trans f.exitCode_eq⟩

/-- A directory stands where the second of two artifacts has to go. -/
theorem status_tells_unwritable :
    let words := ["a.osta".toList, "b.osta".toList]
    let c := { CommandLine.empty with sources := words }
    let s := Machine.ofFiles [] (.ofFiles [Utf8.encode "work".toList]
      [(Utf8.encode "a.osta".toList, Utf8.encode "x = 1;".toList),
        (Utf8.encode "b.osta".toList, Utf8.encode "y = 2;".toList),
        (Utf8.encode "build/b.il/".toList, [])])
    let written := [(Utf8.encode "/work/./build/a.il".toList,
      Utf8.encode "push.i64 1\nstore x\n".toList)]
    CommandLine.ofWords? words = .ok c ∧
      (run Machine.platform words s).1.status = 2 ∧
      Session.written Machine.platform words s = written ∧
      ∃ f, Fails Machine.platform (fun s => (s.environment, s.files))
        (Machine.view (s.environment, s.files)) c s written f ∧
        f.innermost.category = .io := by
  intro words c s written
  have hc : CommandLine.ofWords? words = .ok c := by decide +kernel
  have hstatus : (run Machine.platform words s).1.status = 2 := by decide +kernel
  have hwritten : Session.written Machine.platform words s = written := by
    decide +kernel
  obtain ⟨-, -, htells⟩ := status_tells Machine.platform_over hc s
  obtain ⟨f, hfails, hf⟩ := htells (by rw [hstatus]; decide)
  rw [hwritten] at hfails
  rw [hstatus] at hf
  refine ⟨hc, hstatus, hwritten, f, hfails, ?_⟩
  revert hf
  cases f.innermost.category <;> decide

end Session

end StraightLine
