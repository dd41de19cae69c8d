import StraightLine.Proofs.Path.Parents
import StraightLine.Proofs.Text.Utf8
import StraightLine.Storage.Platform

/-!
# Paths in bytes — what a path is shown as

Paths are texts where they are written and bytes where files are found. The bytes
of a text are joined, absolute and named as the text is (`encode_join`,
`isAbsolute_encode`, `IsName.encode`), since a slash is one byte and no other
character has that byte in it.

Bytes that stand for no text are divided by the same slashes as what they are
shown as, so a path joined to them is shown behind what they are shown as
(`lossy_below`).
-/

namespace StraightLine

namespace Path

open PathChar

variable {p n : Path} {raw : RawPath}

/-! ## Slashes -/

/-- A slash divides what bytes are shown as. -/
theorem lossy_slash (front rest : RawPath) :
    Utf8.lossy (front ++ slash :: rest) = Utf8.lossy front ++ slash :: Utf8.lossy rest :=
  Utf8.lossy_append (by decide) front rest

theorem lossy_eq_nil_iff : Utf8.lossy raw = [] ↔ raw = [] := by
  constructor
  · intro h
    exact (Utf8.piecesFrom_eq_nil (List.map_eq_nil_iff.mp h)).2
  · rintro rfl
    rfl

theorem getLast?_lossy_eq_slash_iff :
    (Utf8.lossy raw).getLast? = some slash ↔ raw.getLast? = some slash := by
  constructor
  · intro h
    obtain ⟨b, hb, heq⟩ := Utf8.getLast?_of_getLast?_lossy h (by decide)
    have hslash : b = slash := UInt8.toNat_inj.mp heq
    rw [hb, hslash]
  · intro h
    obtain ⟨front, rfl⟩ := List.getLast?_eq_some_iff.mp h
    rw [lossy_slash]
    exact List.getLast?_concat

theorem isAbsolute_lossy (h : isAbsolute raw = true) : isAbsolute (Utf8.lossy raw) = true := by
  obtain ⟨c, rest, rfl⟩ := List.exists_cons_of_ne_nil (ne_nil_of_isAbsolute h)
  rw [isAbsolute_cons, decide_eq_true_eq] at h
  subst h
  have hshown : Utf8.lossy (slash :: rest) = slash :: Utf8.lossy rest := lossy_slash [] rest
  rw [hshown]
  exact (opening_slash_cons _).1

/-! ## The bytes of a path -/

theorem isAbsolute_encode (p : Path) : isAbsolute (Utf8.encode p) = isAbsolute p := by
  rw [Bool.eq_iff_iff]
  constructor
  · intro h
    have hshown := isAbsolute_lossy h
    rwa [Utf8.lossy_encode] at hshown
  · intro h
    obtain ⟨c, t, rfl⟩ := List.exists_cons_of_ne_nil (ne_nil_of_isAbsolute h)
    rw [isAbsolute_cons, decide_eq_true_eq] at h
    subst h
    exact (opening_slash_cons (Utf8.encode t)).1

/-- Where a separator is needed. -/
theorem needsSeparator_lossy_iff (raw : RawPath) :
    (Utf8.lossy raw = [] ∨ (Utf8.lossy raw).getLast? = some slash) ↔
      (raw = [] ∨ raw.getLast? = some slash) :=
  or_congr lossy_eq_nil_iff getLast?_lossy_eq_slash_iff

/-- **The bytes of a joined path** are those of the one below the other. -/
theorem encode_join (base p : Path) : Utf8.encode (join base p) = below (Utf8.encode base) p := by
  have hbase := needsSeparator_lossy_iff (Utf8.encode base)
  rw [Utf8.lossy_encode] at hbase
  simp only [below, join, isAbsolute_encode, ← hbase]
  split
  · rfl
  · split
    · exact Utf8.encode_append base p
    · exact Utf8.encode_append base (slash :: p)

/-- **A path below a directory** is shown behind what the directory is shown
as. -/
theorem lossy_below (hp : isAbsolute p = false) (raw : RawPath) :
    Utf8.lossy (below raw p) = join (Utf8.lossy raw) p := by
  simp only [below, join, isAbsolute_encode, hp, needsSeparator_lossy_iff]
  rw [if_neg Bool.false_ne_true, if_neg Bool.false_ne_true]
  split
  · rename_i hraw
    rcases hraw with rfl | hraw
    · exact Utf8.lossy_encode p
    · obtain ⟨front, rfl⟩ := List.getLast?_eq_some_iff.mp hraw
      have hfront : Utf8.lossy (front ++ [slash]) = Utf8.lossy front ++ [slash] :=
        lossy_slash front []
      rw [hfront, List.append_assoc, List.append_assoc, List.singleton_append, lossy_slash,
        Utf8.lossy_encode]
      rfl
  · rw [lossy_slash, Utf8.lossy_encode]

theorem isAbsolute_below (h : isAbsolute raw = true) (p : Path) : isAbsolute (below raw p) = true :=
  isAbsolute_join h _

/-! ## Names -/

theorem slash_notMem_encode {s : Text} (hs : slash ∉ s) : slash ∉ Utf8.encode s := by
  intro hslash
  obtain ⟨front, rest, hsplit⟩ := List.append_of_mem hslash
  have hshown : s = Utf8.lossy front ++ slash :: Utf8.lossy rest := by
    rw [← lossy_slash, ← hsplit, Utf8.lossy_encode]
  exact hs (hshown ▸ List.mem_append_right _ List.mem_cons_self)

/-- **The bytes of a name** are a name. -/
theorem IsName.encode (hn : IsName n) : IsName (Utf8.encode n) := by
  have hmeans {s : Text} (hs : partOf? s ≠ some (.name s)) : Utf8.encode n ≠ Utf8.encode s :=
    fun h => hs (Utf8.encode_injective h ▸ hn.isPart)
  have hnil : Utf8.encode n ≠ [] := hmeans (s := []) (by decide)
  have hdot : Utf8.encode n ≠ [dot] := hmeans (s := [dot]) (by decide)
  have hup : Utf8.encode n ≠ [dot, dot] := hmeans (s := [dot, dot]) (by decide)
  exact ⟨slash_notMem_encode hn.noSlash, partOf?_eq_name ⟨hnil, hdot, hup⟩⟩

/-! ## Paths that stand for a text -/

theorem encode_joined (ss : List Text) :
    Utf8.encode (joined ss) = joined (ss.map Utf8.encode) := by
  induction ss with
  | nil => rfl
  | cons s ss ih =>
    cases ss with
    | nil => rfl
    | cons r ss =>
      rw [joined, Utf8.encode_append, List.map_cons, List.map_cons, joined, ← List.map_cons, ← ih]
      rfl

/-- The bytes of a text have the bytes of its segments. -/
theorem segments_encode (p : Path) : segments (Utf8.encode p) = (segments p).map Utf8.encode := by
  have hnone : ∀ s ∈ (segments p).map Utf8.encode, slash ∉ s := by
    intro s hs
    obtain ⟨t, ht, rfl⟩ := List.mem_map.mp hs
    exact slash_notMem_encode (Text.not_mem_of_mem_cutAt ht)
  have hne : (segments p).map Utf8.encode ≠ [] := by simpa using segments_ne_nil p
  rw [← segments_joined hne hnone, ← encode_joined, joined_segments]

/-- **Bytes whose names stand for texts** stand for one, since slashes and dots
do. -/
theorem encode_lossy_of_names (h : ∀ n, .name n ∈ added raw → Utf8.encode (Utf8.lossy n) = n) :
    Utf8.encode (Utf8.lossy raw) = raw := by
  have hsegment : ∀ s ∈ segments raw, Utf8.encode (Utf8.lossy s) = s := by
    intro s hs
    by_cases hdots : s ≠ [] ∧ s ≠ [dot] ∧ s ≠ [dot, dot]
    · exact h s (List.mem_filterMap.mpr ⟨s, hs, partOf?_eq_name hdots⟩)
    · obtain rfl | rfl | rfl : s = [] ∨ s = [dot] ∨ s = [dot, dot] := by
        simpa only [not_and_or, not_not] using hdots
      all_goals rfl
  have hsame : (segments raw).map (Utf8.encode ∘ Utf8.lossy) = segments raw :=
    (List.map_congr_left hsegment).trans (List.map_id _)
  have hraw : raw = Utf8.encode (joined ((segments raw).map Utf8.lossy)) := by
    rw [encode_joined, List.map_map, hsame, joined_segments]
  rw [hraw, Utf8.lossy_encode]

/-- **What absolute bytes are shown as** goes through the same parts only when it
is the same. -/
theorem parts_encode_lossy_iff (habs : isAbsolute raw = true) :
    parts (Utf8.encode (Utf8.lossy raw)) = parts raw ↔ Utf8.encode (Utf8.lossy raw) = raw := by
  constructor
  · intro h
    have hshown : isAbsolute (Utf8.encode (Utf8.lossy raw)) = true := by
      rw [isAbsolute_encode]
      exact isAbsolute_lossy habs
    rw [parts_of_isAbsolute hshown, parts_of_isAbsolute habs] at h
    refine encode_lossy_of_names fun n hn => ?_
    rw [← (List.cons.inj h).2, added, segments_encode] at hn
    obtain ⟨s, hs, hpart⟩ := List.mem_filterMap.mp hn
    obtain ⟨t, -, rfl⟩ := List.mem_map.mp hs
    rw [← eq_of_partOf? hpart, Utf8.lossy_encode]
  · exact congrArg parts

end Path

end StraightLine
