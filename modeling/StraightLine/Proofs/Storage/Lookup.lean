import Mathlib.Tactic.ByContra
import StraightLine.Proofs.Path.Parts
import StraightLine.Storage.FileSystem

/-!
# Lookup — what the way to a file tells about its path

On the way to an entry there are directories alone (`Reached`): every segment is
looked up in one, and two dots lead back to one that was gone through before. So
the last segment of an absolute path to a file can be nothing but the name of
the file (`exists_name_of_read`).
-/

namespace StraightLine

namespace FileSystem

open PathChar

variable {fs : FileSystem} {l l' : Location} {p : RawPath} {n : Bytes} {ss : List Bytes}

/-- **A location reached from the root**: above it are directories. -/
def Reached (fs : FileSystem) (l : Location) : Prop :=
  ∀ above, above <+: l → above ≠ l → fs.at? above = some .directory

theorem reached_root : fs.Reached [] := fun _ habove hne => absurd (List.prefix_nil.mp habove) hne

/-- What going on by one segment can do. -/
theorem enter_eq_ok (h : fs.enter l n = .ok l') :
    fs.at? l = some .directory ∧ (l' = l ∨ l' = l.dropLast ∨
      l' = l ++ [n] ∧ Path.partOf? n = some (.name n)) := by
  rw [enter] at h
  split at h
  · cases h
  · cases h
  · rename_i hdir
    refine ⟨hdir, ?_⟩
    split at h
    · exact .inl (Except.ok.inj h).symm
    · rename_i hidle
      split at h
      · exact .inr (.inl (Except.ok.inj h).symm)
      · rename_i hup
        split at h
        · cases h
        · split at h
          · refine .inr (.inr ⟨(Except.ok.inj h).symm, ?_⟩)
            rw [Path.partOf?, if_neg hidle, if_neg hup]
          · cases h

theorem Reached.dropLast (h : fs.Reached l) : fs.Reached l.dropLast := by
  intro above habove hne
  refine h above (habove.trans l.dropLast_prefix) ?_
  rintro rfl
  exact hne (habove.eq_of_length_le (by simp))

/-- **Every segment keeps to directories.** -/
theorem Reached.enter (h : fs.Reached l) (he : fs.enter l n = .ok l') : fs.Reached l' := by
  obtain ⟨hdir, rfl | rfl | ⟨rfl, -⟩⟩ := enter_eq_ok he
  · exact h
  · exact h.dropLast
  · intro above habove hne
    rcases List.prefix_concat_iff.mp habove with rfl | habove
    · exact absurd rfl hne
    · by_cases hl : above = l
      · exact hl ▸ hdir
      · exact h above habove hl

theorem Reached.walk (h : fs.Reached l) (hw : fs.walk l ss = .ok l') : fs.Reached l' := by
  induction ss generalizing l with
  | nil =>
    obtain rfl := Except.ok.inj hw
    exact h
  | cons s ss ih =>
    rw [FileSystem.walk] at hw
    split at hw
    · cases hw
    · rename_i next hnext
      exact ih (h.enter hnext) hw

theorem exists_enter_of_walk (h : fs.walk l (ss ++ [n]) = .ok l') :
    ∃ last, fs.walk l ss = .ok last ∧ fs.enter last n = .ok l' := by
  induction ss generalizing l with
  | nil =>
    rw [List.nil_append, walk] at h
    split at h
    · cases h
    · rename_i next hnext
      exact ⟨l, rfl, hnext.trans h⟩
  | cons s ss ih =>
    rw [List.cons_append, walk] at h
    rw [walk]
    split at h
    · cases h
    · rename_i next hnext
      obtain ⟨last, hlast, henter⟩ := ih h
      exact ⟨last, hlast, henter⟩

/-- **A file is at the end of a name.** -/
theorem exists_name_of_read {bytes : Bytes} (habs : Path.isAbsolute p = true)
    (h : fs.read p = .ok bytes) :
    ∃ ss n, Path.segments p = ss ++ [n] ∧ Path.IsName n := by
  obtain ⟨l, hlocate, hfile⟩ : ∃ l, fs.locate p = .ok l ∧ fs.at? l = some (.file bytes) := by
    rw [read] at h
    split at h
    · cases h
    · rename_i l hl
      split at h
      · rename_i hfile
        obtain rfl := Except.ok.inj h
        exact ⟨l, hl, hfile⟩
      · cases h
      · cases h
  have hwalk : fs.walk [] (Path.segments p) = .ok l := by
    rw [locate, startOf, if_pos habs] at hlocate
    split at hlocate
    · cases hlocate
    · exact hlocate
  obtain ⟨ss, n, hss⟩ : ∃ ss n, Path.segments p = ss ++ [n] :=
    ⟨_, _, (List.dropLast_concat_getLast (Text.cutAt_ne_nil p)).symm⟩
  rw [hss] at hwalk
  obtain ⟨last, hlast, henter⟩ := exists_enter_of_walk hwalk
  have hslash : slash ∉ n := by
    refine Text.not_mem_of_mem_cutAt (s := p) ?_
    rw [← Path.segments, hss]
    exact List.mem_append_right _ List.mem_cons_self
  refine ⟨ss, n, hss, hslash, ?_⟩
  -- what means nothing stays in a directory, and two dots lead back to one
  have hreached : fs.Reached last := reached_root.walk hlast
  obtain ⟨hdir, rfl | rfl | ⟨-, hname⟩⟩ := enter_eq_ok henter
  · rw [hdir] at hfile
    cases hfile
  · have hup : fs.at? last.dropLast = some .directory := by
      by_cases hroot : last.dropLast = last
      · rw [hroot, hdir]
      · exact hreached _ last.dropLast_prefix hroot
    rw [hup] at hfile
    cases hfile
  · exact hname

end FileSystem

end StraightLine
