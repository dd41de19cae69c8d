import Mathlib.Data.List.Basic
import StraightLine.CommandLine.Reader
import StraightLine.Proofs.Settings.Anchoring

/-!
# Verdicts — what checks say of paths that have been joined

Settings are checked after the paths of the command line have been joined to the
working directory. The check of a joined path decides as that of the path itself
would, unless the path is written of nothing but idle segments: then it is the
working directory that is checked in its place (`extension_join_iff`,
`path_join_iff`). So an empty output goes through, and so does a source that
stays in a working directory that is shown with the extension of sources, though
neither would as it is written. **`accepted_as_written`** says that there is no
other such path.
-/

namespace StraightLine

namespace Path

open PathChar

variable {base p q : Path}

/-- **A path that stays** where it begins: empty segments and single dots alone,
behind no slash. -/
def Stays (p : Path) : Prop := isAbsolute p = false ∧ added p = []

instance (p : Path) : Decidable p.Stays := inferInstanceAs (Decidable (_ ∧ _))

/-- A relative path goes through what it adds, perhaps from a dot on. -/
theorem parts_of_relative (hp : isAbsolute p = false) :
    parts p = (if startsHere p then [.here] else []) ++ added p := by
  rw [parts, opening, hp, if_neg Bool.false_ne_true, Bool.false_or]
  by_cases hhere : startsHere p = true
  · rw [if_pos hhere, if_pos hhere]
    congr 1
    obtain ⟨c, t, rfl⟩ : ∃ c t, p = c :: t := by
      cases p with
      | nil => cases hhere
      | cons c t => exact ⟨c, t, rfl⟩
    rw [startsHere_cons, Bool.and_eq_true, decide_eq_true_eq] at hhere
    obtain ⟨rfl, hhead⟩ := hhere
    cases t with
    | nil => rw [added_dot]; rfl
    | cons d t =>
      obtain rfl : d = slash := by simpa using hhead
      rw [added, segments_dot_slash, List.filterMap_cons_none partOf?_dot]
      rfl
  · rw [if_neg hhere, if_neg hhere]
    rfl

theorem fileName?_of_stays (h : p.Stays) : fileName? p = none := by
  obtain ⟨hrel, hadded⟩ := h
  rw [fileName?, parts_of_relative hrel, hadded, List.append_nil]
  split
  · rename_i hlast
    split at hlast
    · cases hlast
    · cases hlast
  · rfl

/-- **The name at the end of a joined path** is that of the path, if it goes
anywhere. -/
theorem fileName?_join_relative (hbase : isAbsolute base = true) (hp : isAbsolute p = false) :
    fileName? (join base p) = if added p = [] then fileName? base else fileName? p := by
  have hjoin := parts_join_of_isAbsolute hbase hp
  split
  · rename_i hadded
    rw [hadded, List.append_nil] at hjoin
    exact fileName?_congr hjoin
  · rename_i hadded
    rw [fileName?, fileName?, hjoin, parts_of_relative hp, List.getLast?_append_of_ne_nil _ hadded,
      List.getLast?_append_of_ne_nil _ hadded]

theorem not_stays_of_isAbsolute (h : isAbsolute p = true) : ¬ p.Stays := fun hstays =>
  Bool.false_ne_true (hstays.1.symm.trans h)

/-- **So is its extension.** -/
theorem extension?_join (hbase : isAbsolute base = true) (p : Path) :
    extension? (join base p) = if p.Stays then extension? base else extension? p := by
  by_cases habs : isAbsolute p = true
  · rw [join_of_isAbsolute habs, if_neg (not_stays_of_isAbsolute habs)]
  · rw [Bool.not_eq_true] at habs
    rw [extension?, fileName?_join_relative hbase habs]
    by_cases hadded : added p = []
    · rw [if_pos hadded, if_pos ⟨habs, hadded⟩, extension?]
    · rw [if_neg hadded, if_neg fun h => hadded h.2, extension?]

/-- A joined path has the characters of both, and slashes. -/
theorem mem_of_mem_join {c : Char} (h : c ∈ p) (base : Path) : c ∈ join base p := by
  rw [join]
  split
  · exact h
  · split
    · exact List.mem_append_right base h
    · exact List.mem_append_right base (List.mem_cons_of_mem slash h)

theorem mem_or_mem_of_mem_join {c : Char} (hc : c ≠ slash) (h : c ∈ join base p) :
    c ∈ base ∨ c ∈ p := by
  rw [join] at h
  split at h
  · exact .inr h
  · split at h
    · exact List.mem_append.mp h
    · exact (List.mem_append.mp h).imp_right fun h => List.mem_of_ne_of_mem hc h

end Path

namespace Check

open StraightLine.Path

variable {field field' : String} {allowed : List Text} {files : List Path} {base p : Path}

/-! ## What checks accept -/

theorem path_eq_ok_iff : path field p = .ok () ↔ p ≠ [] ∧ '\x00' ∉ p := by
  unfold path
  split
  · rename_i hp
    exact ⟨(nomatch ·), fun h => absurd hp h.1⟩
  · rename_i hp
    split
    · rename_i hnul
      exact ⟨(nomatch ·), fun h => absurd (List.contains_iff_mem.mp hnul) h.2⟩
    · rename_i hnul
      exact ⟨fun _ => ⟨hp, fun hmem => hnul (List.contains_iff_mem.mpr hmem)⟩, fun _ => rfl⟩

theorem extension_eq_ok_iff : extension field allowed p = .ok () ↔
    (p ≠ [] ∧ '\x00' ∉ p) ∧ ∃ e ∈ allowed, extension? p = some e := by
  rw [← @path_eq_ok_iff field]
  unfold extension
  rcases path field p with f | -
  · exact ⟨(nomatch ·), fun h => nomatch h.1⟩
  · rcases extension? p with - | e
    · exact ⟨(nomatch ·), fun ⟨_, _, _, h⟩ => nomatch h⟩
    · simp only
      split
      · rename_i hmem
        exact ⟨fun _ => ⟨trivial, e, List.contains_iff_mem.mp hmem, rfl⟩, fun _ => rfl⟩
      · rename_i hmem
        constructor
        · rintro ⟨⟩
        · rintro ⟨-, _, hallowed, ⟨⟩⟩
          exact absurd (List.contains_iff_mem.mpr hallowed) hmem

theorem extensions_eq_ok_iff :
    extensions field allowed files = .ok () ↔ ∀ p ∈ files, extension field allowed p = .ok () := by
  induction files with
  | nil => exact ⟨fun _ p hp => absurd hp List.not_mem_nil, fun _ => rfl⟩
  | cons q files ih =>
    rw [List.forall_mem_cons, ← ih, extensions]
    rcases extension field allowed q with f | -
    · exact ⟨(nomatch ·), fun h => nomatch h.1⟩
    · exact ⟨fun h => ⟨rfl, h⟩, fun h => h.2⟩

theorem sources_eq_ok_iff : sources field files = .ok () ↔
    files ≠ [] ∧ ∀ p ∈ files, extension field [sourceExtension] p = .ok () := by
  cases files with
  | nil => exact ⟨(nomatch ·), fun h => absurd rfl h.1⟩
  | cons p files =>
    change extensions field [sourceExtension] (p :: files) = .ok () ↔ _
    rw [extensions_eq_ok_iff]
    exact ⟨fun h => ⟨List.cons_ne_nil p files, h⟩, fun h => h.2⟩

/-! ## Joined paths -/

theorem nul_not_mem_join_iff (hbase : '\x00' ∉ base) : '\x00' ∉ join base p ↔ '\x00' ∉ p :=
  not_congr ⟨fun h => (mem_or_mem_of_mem_join (by decide) h).resolve_left hbase,
    fun h => mem_of_mem_join h base⟩

theorem join_ne_nil (hbase : isAbsolute base = true) (p : Path) : join base p ≠ [] :=
  ne_nil_of_isAbsolute (isAbsolute_join hbase p)

/-- **A joined path is accepted** when the path is, or is empty. -/
theorem path_join_iff (hbase : isAbsolute base = true) (hnul : '\x00' ∉ base) :
    path field (join base p) = .ok () ↔ path field' p = .ok () ∨ p = [] := by
  rw [path_eq_ok_iff, path_eq_ok_iff, nul_not_mem_join_iff hnul,
    and_iff_right (join_ne_nil hbase p)]
  constructor
  · intro h
    by_cases hp : p = []
    · exact .inr hp
    · exact .inl ⟨hp, h⟩
  · rintro (⟨-, h⟩ | rfl)
    · exact h
    · exact List.not_mem_nil

/-- An idle segment has no null byte. -/
theorem nul_not_mem_of_stays (h : p.Stays) : '\x00' ∉ p := by
  intro hnul
  obtain ⟨segment, hsegment, hmem⟩ : ∃ segment ∈ segments p, '\x00' ∈ segment :=
    Text.exists_mem_cutAt (by decide) hnul
  have hpart : partOf? segment = none := List.filterMap_eq_nil_iff.mp h.2 segment hsegment
  have hidle : isIdle segment = true := by
    by_contra hidle
    rw [partOf?, if_neg hidle] at hpart
    split at hpart
    · cases hpart
    · cases hpart
  rw [isIdle, decide_eq_true_eq] at hidle
  rcases hidle with rfl | rfl
  · cases hmem
  · exact absurd hmem (by decide)

/-- **A joined file is accepted** when the file is, or when it stays where it
begins and the directory is accepted in its place. -/
theorem extension_join_iff (hbase : isAbsolute base = true) (hnul : '\x00' ∉ base) :
    extension field allowed (join base p) = .ok () ↔
      extension field' allowed p = .ok () ∨ p.Stays ∧ ∃ e ∈ allowed, extension? base = some e := by
  rw [extension_eq_ok_iff, extension_eq_ok_iff, nul_not_mem_join_iff hnul, extension?_join hbase,
    and_iff_right (join_ne_nil hbase p)]
  by_cases hstays : p.Stays
  · rw [if_pos hstays, and_iff_right hstays, and_iff_right (nul_not_mem_of_stays hstays),
      iff_or_self]
    rintro ⟨-, e, -, he⟩
    rw [extension?, fileName?_of_stays hstays] at he
    cases he
  · have hp : p ≠ [] := by
      rintro rfl
      exact hstays ⟨rfl, rfl⟩
    rw [if_neg hstays, and_iff_right hp]
    exact ⟨.inl, fun h => h.resolve_right fun h => hstays h.1⟩

end Check

namespace Settings

open StraightLine.Path

variable {σ : Type} {p : Platform (StateM σ)} {cwd : RawPath} {c : CommandLine} {s : σ}
  {settings : Settings}

theorem check_eq_ok_iff : settings.check = .ok () ↔
    Check.sources "sources" settings.sources = .ok () ∧
      Check.path "output_path" settings.output = .ok () ∧ settings.kinds ≠ [] := by
  unfold check
  rcases Check.sources "sources" settings.sources with f | -
  · exact ⟨(nomatch ·), fun h => nomatch h.1⟩
  · rcases Check.path "output_path" settings.output with f | -
    · exact ⟨(nomatch ·), fun h => nomatch h.2.1⟩
    · by_cases hkinds : settings.kinds = []
      · simp [hkinds, bind, Except.bind]
      · simp [hkinds, bind, Except.bind]

/-- Settings that are resolved have heard the command line last. -/
theorem exists_start (h : (Action.run (resolveFrom p cwd c) s).1 = .ok settings) :
    ∃ (base : Settings) (s' : σ), Action.run (start p cwd c) s = (.ok base, s') ∧
      base.override cwd c = .ok settings := by
  rw [resolveFrom, Action.run_bind] at h
  rcases hstart : Action.run (start p cwd c) s with ⟨f | base, s'⟩
  · rw [hstart] at h
    cases h
  · refine ⟨base, s', rfl, ?_⟩
    rw [hstart] at h
    rcases hover : base.override cwd c with f | settings'
    · simp only [hover] at h
      cases h
    · simp only [hover] at h
      exact h

/-- A null byte is shown as one, and nothing else is. -/
theorem nul_not_mem_lossy (h : 0 ∉ cwd) : '\x00' ∉ Utf8.lossy cwd := by
  intro hmem
  obtain ⟨b, hb, hzero⟩ := Utf8.exists_mem_of_mem_lossy hmem (by decide)
  have hnul : b = 0 := UInt8.toNat_inj.mp hzero
  exact h (hnul ▸ hb)

/-- **Paths are accepted as they are written**, but for two. When the settings of a
command line can be resolved and pass their check, each of its sources passes
the check of sources as it stands on the command line, unless it stays where it
begins and the working directory is shown with the extension of sources; and its
output passes the check of outputs, unless it is empty. -/
theorem accepted_as_written (hcwd : isAbsolute cwd = true) (hnul : 0 ∉ cwd)
    (h : (Action.run (resolveFrom p cwd c) s).1 = .ok settings) (hcheck : settings.check = .ok ()) :
    (∀ source ∈ c.sources, Check.extension "sources" [sourceExtension] source = .ok () ∨
        source.Stays ∧ extension? (Utf8.lossy cwd) = some sourceExtension) ∧
      ∀ output, c.output = some output →
        Check.path "output_path" output = .ok () ∨ output = [] := by
  obtain ⟨base, -, -, hover⟩ := exists_start h
  obtain ⟨-, -, hsources, houtput, -⟩ := override_eq_ok hover
  obtain ⟨hsourcesok, houtputok, -⟩ := check_eq_ok_iff.mp hcheck
  have habs : isAbsolute (Utf8.lossy cwd) = true := isAbsolute_lossy hcwd
  have hshown : '\x00' ∉ Utf8.lossy cwd := nul_not_mem_lossy hnul
  constructor
  · intro source hsource
    have hjoined : relativeTo cwd source ∈ settings.sources := by
      rw [hsources, if_neg (List.ne_nil_of_mem hsource)]
      exact List.mem_map_of_mem hsource
    have haccepted := (Check.sources_eq_ok_iff.mp hsourcesok).2 _ hjoined
    rw [relativeTo_eq_join] at haccepted
    refine ((Check.extension_join_iff habs hshown).mp haccepted).imp_right ?_
    rintro ⟨hstays, e, he, hext⟩
    exact ⟨hstays, List.mem_singleton.mp he ▸ hext⟩
  · intro output hwritten
    rw [hwritten] at houtput
    simp only [relativeTo_eq_join] at houtput
    rw [houtput] at houtputok
    exact (Check.path_join_iff habs hshown).mp houtputok

/-- In a directory with the extension of sources: a source that stays there, one
that leads through another directory, and an empty output. -/
theorem accepted_as_written_extended_directory :
    let cwd := Utf8.encode "/work/x.osta".toList
    let c := { CommandLine.empty with
      sources := ["./".toList, "sub/../b.osta".toList], output := some [] }
    let s := Machine.ofFiles []
      (.ofFiles [Utf8.encode "work".toList, Utf8.encode "x.osta".toList] [])
    let settings : Settings :=
      ⟨cwd, ["/work/x.osta/./".toList, "/work/x.osta/sub/../b.osta".toList],
        "/work/x.osta/".toList, [.code], false⟩
    (isAbsolute cwd = true ∧ 0 ∉ cwd) ∧
      (Action.run (resolveFrom Machine.platform cwd c) s).1 = .ok settings ∧
      settings.check = .ok () ∧
      Check.extension "sources" [sourceExtension] "sub/../b.osta".toList = .ok () := by
  intro cwd c s settings
  have hcwd : isAbsolute cwd = true ∧ 0 ∉ cwd := by decide
  have hresolve : (Action.run (resolveFrom Machine.platform cwd c) s).1 = .ok settings := by
    decide +kernel
  have hcheck : settings.check = .ok () := by decide +kernel
  obtain ⟨hsources, -⟩ := accepted_as_written hcwd.1 hcwd.2 hresolve hcheck
  have hsource := hsources "sub/../b.osta".toList (List.mem_cons_of_mem _ List.mem_cons_self)
  exact ⟨hcwd, hresolve, hcheck, hsource.resolve_right (by decide)⟩

/-- **An empty output is accepted** once it has been joined to the working
directory, though no check would accept it as it is written. -/
theorem empty_output_accepted :
    let cwd := Utf8.encode "/work".toList
    let c := { CommandLine.empty with sources := ["a.osta".toList], output := some [] }
    let s := Machine.ofFiles [] (.ofFiles [Utf8.encode "work".toList] [])
    let settings : Settings :=
      ⟨cwd, ["/work/a.osta".toList], "/work/".toList, [.code], false⟩
    CommandLine.ofWords? ["a.osta".toList, "--output=".toList] = .ok c ∧
      (isAbsolute cwd = true ∧ 0 ∉ cwd) ∧
      (Action.run (resolveFrom Machine.platform cwd c) s).1 = .ok settings ∧
      settings.check = .ok () ∧ c.output = some [] ∧ Check.path "output_path" [] ≠ .ok () := by
  decide +kernel

end Settings

end StraightLine
