import Mathlib.Data.List.Nodup
import StraightLine.Proofs.Build.Blame
import StraightLine.Proofs.Path.Parts
import StraightLine.Settings.Checks

/-!
# Artifacts — files that do not get in each other's way

An artifact is written under the stem of its source and an extension of its
kind. No extension of a kind, nor that of sources, ends another one from a dot
on, so the name of an artifact tells its stem and its kind
(`artifactName_inj`), and is the name of no source. As the stems of a build
differ, so do the paths of its artifacts.

In a storage that behaves as a map each of these paths then holds what was
written there, and nothing else has changed (`emit_keeps_apart`).
-/

namespace StraightLine

/-- **A host that stores files as a map does.** A file is known by its key, and
paths to one file that end in names end in the same one, as they do where
paths are compared part by part. -/
structure Host.Stores {σ κ : Type} (h : Host (StateM σ)) (key : Path → κ)
    (content : σ → κ → Option Bytes) : Prop where
  written : ∀ {p bytes s s'}, Action.run (h.write p bytes) s = (.ok (), s') →
    content s' (key p) = some bytes
  others : ∀ {p bytes s s'}, Action.run (h.write p bytes) s = (.ok (), s') →
    ∀ x, x ≠ key p → content s' x = content s x
  log : ∀ r s, content (h.log r s).2 = content s
  apart : ∀ {p q n n'}, Path.fileName? p = some n → Path.fileName? q = some n' →
    key p = key q → n = n'

/-- What a memory has written, the state is that with the file in front. -/
theorem Memory.eq_of_write {s s' : Memory} {p : Path} {bytes : Bytes}
    (h : Action.run (Memory.host.write p bytes) s = (.ok (), s')) :
    s' = { s with written := (p, bytes) :: s.written } := by
  change s.write p bytes = _ at h
  unfold Memory.write at h
  split at h
  · cases (Prod.mk.inj h).1
  · exact (Prod.mk.inj h).2.symm

/-- **Files that are only held**, those written in front of those given. -/
theorem Memory.host_stores :
    Memory.host.Stores id fun s p => (s.written ++ s.files).lookup p where
  written hrun := by
    rw [Memory.eq_of_write hrun]
    exact List.lookup_cons_self
  others {p bytes s s'} hrun x hx := by
    have hne : (x == p) = false := beq_eq_false_iff_ne.mpr hx
    rw [Memory.eq_of_write hrun, List.cons_append, List.lookup_cons, hne]
  log _ _ := rfl
  apart hp hq h := by
    obtain rfl : _ = _ := h
    exact Option.some.inj (hp.symm.trans hq)

namespace Build

open StraightLine.Action StraightLine.Path

variable {σ κ : Type} {h : Host (StateM σ)} {key : Path → κ} {content : σ → κ → Option Bytes}
  {stem stem' : Text} {k k' : ArtifactKind} {p : Path} {field : String}

/-! ## Names of artifacts -/

/-- No extension of a kind ends another. -/
theorem eq_of_suffix (h : '.' :: k.extension.toList <:+ '.' :: k'.extension.toList) : k = k' := by
  revert h
  cases k <;> cases k' <;> decide

/-- Nor does it end that of sources, or the other way round. -/
theorem not_suffix_source (k : ArtifactKind) :
    ¬ '.' :: k.extension.toList <:+ '.' :: sourceExtension ∧
      ¬ '.' :: sourceExtension <:+ '.' :: k.extension.toList := by
  cases k <;> decide

/-- Of two endings of one text one ends the other. -/
theorem suffix_or_suffix {s s' e e' : Text} (h : s ++ '.' :: e = s' ++ '.' :: e') :
    '.' :: e <:+ '.' :: e' ∨ '.' :: e' <:+ '.' :: e :=
  List.suffix_or_suffix_of_suffix (List.suffix_append s _) (h ▸ List.suffix_append s' _)

/-- **The name of an artifact tells its stem and its kind.** -/
theorem artifactName_inj (h : artifactName stem k = artifactName stem' k') :
    stem = stem' ∧ k = k' := by
  have hk : k = k' := (suffix_or_suffix h).elim eq_of_suffix fun h => (eq_of_suffix h).symm
  subst hk
  exact ⟨List.append_cancel_right h, rfl⟩

/-- And is the name of no source. -/
theorem artifactName_ne_source : artifactName stem k ≠ stem' ++ '.' :: sourceExtension := fun h =>
  (suffix_or_suffix h).elim (not_suffix_source k).1 (not_suffix_source k).2

theorem isName_artifactName (hs : '/' ∉ stem) : IsName (artifactName stem k) := by
  have hext : '/' ∉ k.extension.toList ∧ 2 ≤ k.extension.toList.length := by
    cases k <;> decide
  refine isName_of_length ?_ ?_
  · rw [artifactName, List.mem_append, List.mem_cons]
    rintro (h | h | h)
    · exact hs h
    · exact absurd h (by decide)
    · exact hext.1 h
  · rw [artifactName, List.length_append, List.length_cons]
    omega

/-! ## Names of sources -/

theorem extension?_of_extension (h : Check.extension field [sourceExtension] p = .ok ()) :
    extension? p = some sourceExtension := by
  unfold Check.extension at h
  split at h
  · cases h
  · split at h
    · cases h
    · rename_i e he
      split at h
      · rename_i hmem
        rw [he, List.mem_singleton.mp (List.contains_iff_mem.mp hmem)]
      · cases h

/-- Sources that pass their check have their extension. -/
theorem extension?_of_sources {ps : List Path} (h : Check.sources field ps = .ok ()) :
    ∀ p ∈ ps, extension? p = some sourceExtension := by
  have hall : ∀ ps, Check.extensions field [sourceExtension] ps = .ok () →
      ∀ p ∈ ps, extension? p = some sourceExtension := by
    intro ps
    induction ps with
    | nil => exact fun _ p hp => absurd hp List.not_mem_nil
    | cons q ps ih =>
      intro h
      rw [Check.extensions] at h
      split at h
      · cases h
      · rename_i hq
        exact List.forall_mem_cons.mpr ⟨extension?_of_extension hq, ih h⟩
  cases ps with
  | nil => cases h
  | cons q ps => exact hall (q :: ps) h

/-- **A source is named by its stem.** -/
theorem fileName?_source (h : extension? p = some sourceExtension) :
    fileName? p = some (sourceStem p ++ '.' :: sourceExtension) := by
  obtain ⟨stem, hstem, hname⟩ := exists_stem_of_extension? h
  rw [sourceStem, hstem, Option.getD_some, hname]
  rfl

theorem not_mem_sourceStem (h : extension? p = some sourceExtension) : '/' ∉ sourceStem p :=
  fun hmem => (isName_of_fileName? (fileName?_source h)).noSlash (List.mem_append_left _ hmem)

/-! ## Writing -/

/-- **Files written to a storage** are there afterwards, if no two of them are
one file with different contents, and nothing else has changed. -/
theorem writeAll_stores (hh : h.Stores key content) {fs : List (Path × Bytes)} {s s' : σ}
    (hrun : Action.run (writeAll h fs) s = (.ok (), s'))
    (hone : ∀ f ∈ fs, ∀ g ∈ fs, key f.1 = key g.1 → f.2 = g.2) :
    (∀ f ∈ fs, content s' (key f.1) = some f.2) ∧
      ∀ x, (∀ f ∈ fs, x ≠ key f.1) → content s' x = content s x := by
  induction fs generalizing s with
  | nil =>
    obtain rfl := (Prod.mk.inj hrun).2
    exact ⟨fun f hf => absurd hf List.not_mem_nil, fun _ _ => rfl⟩
  | cons file fs ih =>
    obtain ⟨path, bytes⟩ := file
    obtain ⟨s₁, hs₁, hrun'⟩ : ∃ s₁, content s₁ = content s ∧
        Action.run (h.write path bytes >>= fun _ => writeAll h fs) s₁ = (.ok (), s') :=
      ⟨_, hh.log _ s, hrun⟩
    rcases hwrite : Action.run (h.write path bytes) s₁ with ⟨f | _, s₂⟩
    · rw [run_bind_error hwrite] at hrun'
      cases (Prod.mk.inj hrun').1
    rw [run_bind_ok hwrite] at hrun'
    obtain ⟨hhead, htail⟩ := List.forall_mem_cons.mp hone
    obtain ⟨hwritten, hothers⟩ := ih hrun' fun f hf g hg =>
      (List.forall_mem_cons.mp (htail f hf)).2 g hg
    constructor
    · refine List.forall_mem_cons.mpr ⟨?_, hwritten⟩
      -- the file is written again later with the same bytes, or not at all
      by_cases hagain : ∃ g ∈ fs, key path = key g.1
      · obtain ⟨g, hg, hkey⟩ := hagain
        rw [hkey, hwritten g hg, hhead g (List.mem_cons_of_mem _ hg) hkey]
      · rw [hothers _ fun g hg hkey => hagain ⟨g, hg, hkey⟩]
        exact hh.written hwrite
    · intro x hx
      obtain ⟨hpath, hx⟩ := List.forall_mem_cons.mp hx
      rw [hothers x hx, hh.others hwrite x hpath, hs₁]

/-- A build that emits has stems that differ, and has written its
artifacts. -/
theorem emit_eq_ok {r : BuildRequest} {units : List CompiledUnit} {out : Path} {s s' : σ}
    (hrun : Action.run (emit h r units) s = (.ok out, s')) :
    out = r.output ∧ (units.map fun u => sourceStem u.path).Nodup ∧
      Action.run (writeAll h (artifacts r.output r.kinds units)) s = (.ok (), s') := by
  rcases hc : checked units with f | us
  · rw [emit_of_checked_error hc] at hrun
    cases (Prod.mk.inj hrun).1
  rw [emit_of_checked_ok hc] at hrun
  have hnodup : (units.map fun u => sourceStem u.path).Nodup := by
    unfold checked at hc
    split at hc
    · cases hc
    · rename_i hnone
      exact repeated?_eq_none_iff.mp hnone
  rcases hwrite : Action.run (writeAll h (artifacts r.output r.kinds units)) s with ⟨f | _, s₁⟩
  · rw [run_bind_error hwrite] at hrun
    cases (Prod.mk.inj hrun).1
  · rw [run_bind_ok hwrite] at hrun
    obtain ⟨hout, rfl⟩ := Prod.mk.inj hrun
    exact ⟨(Except.ok.inj hout).symm, hnodup, rfl⟩

/-! ## Paths of artifacts -/

variable {r : BuildRequest} {units : List CompiledUnit} {u v : CompiledUnit} {output : Path}

/-- **An artifact stands right in the output directory.** -/
theorem parts_artifactPath (hu : extension? u.path = some sourceExtension) (output : Path)
    (k : ArtifactKind) :
    parts (artifactPath output u k) =
      parts output ++ [.name (artifactName (sourceStem u.path) k)] :=
  parts_join (isName_artifactName (not_mem_sourceStem hu)) output

theorem fileName?_artifactPath (hu : extension? u.path = some sourceExtension) (output : Path)
    (k : ArtifactKind) :
    fileName? (artifactPath output u k) = some (artifactName (sourceStem u.path) k) :=
  fileName?_join (isName_artifactName (not_mem_sourceStem hu)) output

/-- **No artifact overwrites another artifact or a source.** When the sources
of some units have passed their check and emitting the units succeeds, the
paths of their artifacts differ, stand right in the output directory and are
none of the sources. Each then holds the artifact of its own unit and kind,
the sources are as they were, and so is every other file. -/
theorem emit_keeps_apart (hh : h.Stores key content)
    (hsources : Check.sources field (units.map CompiledUnit.path) = .ok ()) {out : Path} {s s' : σ}
    (hrun : Action.run (emit h r units) s = (.ok out, s')) :
    (∀ (i j : Nat) u v k l, units[i]? = some u → units[j]? = some v → (i, k) ≠ (j, l) →
        parts (artifactPath r.output u k) ≠ parts (artifactPath r.output v l)) ∧
      (∀ u ∈ units, ∀ k, ∃ n,
        parts (artifactPath r.output u k) = parts r.output ++ [.name n]) ∧
      (∀ u ∈ units, ∀ v ∈ units, ∀ k, parts (artifactPath r.output u k) ≠ parts v.path) ∧
      (∀ u ∈ units, ∀ k ∈ r.kinds,
        content s' (key (artifactPath r.output u k)) = some (Utf8.encode (u.artifact k))) ∧
      (∀ v ∈ units, content s' (key v.path) = content s (key v.path)) ∧
      ∀ x, (∀ u ∈ units, ∀ k ∈ r.kinds, x ≠ key (artifactPath r.output u k)) →
        content s' x = content s x := by
  have hext : ∀ u ∈ units, extension? u.path = some sourceExtension := fun u hu =>
    extension?_of_sources hsources u.path (List.mem_map_of_mem hu)
  obtain ⟨-, hnodup, hwrite⟩ := emit_eq_ok hrun
  have hname : ∀ {u v k l}, u ∈ units → v ∈ units →
      artifactName (sourceStem u.path) k = artifactName (sourceStem v.path) l → u = v ∧ k = l := by
    intro u v k l hu hv h
    obtain ⟨hstem, hk⟩ := artifactName_inj h
    exact ⟨List.inj_on_of_nodup_map hnodup hu hv hstem, hk⟩
  -- the file of an artifact tells its unit and its kind
  have hone : ∀ f ∈ artifacts r.output r.kinds units, ∀ g ∈ artifacts r.output r.kinds units,
      key f.1 = key g.1 → f.2 = g.2 := by
    intro f hf g hg hkey
    obtain ⟨u, hu, hf⟩ := List.mem_flatMap.mp hf
    obtain ⟨k, -, rfl⟩ := List.mem_map.mp hf
    obtain ⟨v, hv, hg⟩ := List.mem_flatMap.mp hg
    obtain ⟨l, -, rfl⟩ := List.mem_map.mp hg
    obtain ⟨rfl, rfl⟩ := hname hu hv (hh.apart (fileName?_artifactPath (hext u hu) _ k)
      (fileName?_artifactPath (hext v hv) _ l) hkey)
    rfl
  obtain ⟨hwritten, hothers⟩ := writeAll_stores hh hwrite hone
  have hothers' : ∀ x, (∀ u ∈ units, ∀ k ∈ r.kinds, x ≠ key (artifactPath r.output u k)) →
      content s' x = content s x := by
    refine fun x hx => hothers x fun f hf => ?_
    obtain ⟨u, hu, hf⟩ := List.mem_flatMap.mp hf
    obtain ⟨k, hk, rfl⟩ := List.mem_map.mp hf
    exact hx u hu k hk
  refine ⟨?_, fun u hu k => ⟨_, parts_artifactPath (hext u hu) _ k⟩, ?_, ?_, ?_, hothers'⟩
  · intro i j u v k l hi hj hne hparts
    have hu := List.mem_of_getElem? hi
    have hv := List.mem_of_getElem? hj
    rw [parts_artifactPath (hext u hu), parts_artifactPath (hext v hv)] at hparts
    obtain ⟨hname, -⟩ := List.cons.inj (List.append_cancel_left hparts)
    obtain ⟨hstem, rfl⟩ := artifactName_inj (PathPart.name.inj hname)
    have hij : (units.map fun u => sourceStem u.path)[i]? =
        (units.map fun u => sourceStem u.path)[j]? := by
      rw [List.getElem?_map, List.getElem?_map, hi, hj, Option.map_some, Option.map_some, hstem]
    obtain ⟨hlt, -⟩ := List.getElem?_eq_some_iff.mp hi
    have hlt : i < (units.map fun u => sourceStem u.path).length := by rwa [List.length_map]
    exact hne (congrArg (·, k) ((List.getElem?_inj hlt hnodup).mp hij))
  · intro u hu v hv k hparts
    have hname := fileName?_congr hparts
    rw [fileName?_artifactPath (hext u hu), fileName?_source (hext v hv)] at hname
    exact artifactName_ne_source (Option.some.inj hname)
  · intro u hu k hk
    exact hwritten (artifactPath r.output u k, Utf8.encode (u.artifact k))
      (List.mem_flatMap.mpr ⟨u, hu, List.mem_map_of_mem hk⟩)
  · refine fun v hv => hothers' _ fun u hu k _ hkey => ?_
    exact artifactName_ne_source (hh.apart (fileName?_artifactPath (hext u hu) _ k)
      (fileName?_source (hext v hv)) hkey.symm)

/-- A stem that ends like the name of an artifact. -/
theorem emit_keeps_apart_dots : ∃ s',
    Action.run (emit Memory.host ⟨[], "out".toList, [.tokens, .code]⟩
        [⟨"a.osta".toList, [], [], ⟨[]⟩, []⟩, ⟨"src/a.tokens.osta".toList, [], [], ⟨[]⟩, []⟩])
      (.ofFiles [] none) = (.ok "out".toList, s') ∧
    (s'.written ++ s'.files).lookup "out/a.tokens.json".toList =
      some (Utf8.encode "[]".toList) := by
  refine ⟨_, rfl, ?_⟩
  have hsources : Check.sources "sources"
      (([⟨"a.osta".toList, [], [], ⟨[]⟩, []⟩, ⟨"src/a.tokens.osta".toList, [], [], ⟨[]⟩, []⟩] :
        List CompiledUnit).map CompiledUnit.path) = .ok () := by decide +kernel
  obtain ⟨-, -, -, hwritten, -⟩ := emit_keeps_apart Memory.host_stores hsources
    (r := ⟨[], "out".toList, [.tokens, .code]⟩) (s := .ofFiles [] none) rfl
  exact hwritten _ List.mem_cons_self .tokens List.mem_cons_self

end Build

end StraightLine
