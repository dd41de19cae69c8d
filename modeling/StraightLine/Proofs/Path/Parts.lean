import StraightLine.Path.Basic
import StraightLine.Proofs.Text.Lines

/-!
# Parts of paths — joined paths and the names they end in

What a path goes through is told segment by segment, so a slash in a path
divides its parts as it divides its text (`parts_slash`). A name put behind a
path is therefore one more part, whether the path ends in a slash, is empty or
has dots in it (`parts_join`).

A name that is cut at its last dot is its stem, the dot and its extension
(`eq_of_cutExtension`), and a path with an extension ends in such a name.
-/

namespace StraightLine

namespace Path

open PathChar

variable {α : Type} [DecidableEq α] [PathChar α] {p q n stem extension : List α}

/-! ## Names -/

/-- A segment that leads down. -/
structure IsName (n : List α) : Prop where
  noSlash : slash ∉ n
  isPart : partOf? n = some (.name n)

theorem partOf?_nil : partOf? ([] : List α) = none := by
  rw [partOf?, isIdle, if_pos (decide_eq_true (.inl rfl))]

theorem partOf?_dot : partOf? ([dot] : List α) = none := by
  rw [partOf?, isIdle, if_pos (decide_eq_true (.inr rfl))]

/-- A segment can only mean its own name. -/
theorem eq_of_partOf? {segment : List α} (h : partOf? segment = some (.name n)) : segment = n := by
  unfold partOf? at h
  split at h
  · cases h
  · split at h
    · cases h
    · exact PathPart.name.inj (Option.some.inj h)

/-- And it means that unless it is empty or has only dots. -/
theorem partOf?_eq_name (h : n ≠ [] ∧ n ≠ [dot] ∧ n ≠ [dot, dot]) :
    partOf? n = some (.name n) := by
  obtain ⟨hnil, hdot, hup⟩ := h
  have hidle : isIdle n = false := decide_eq_false (not_or.mpr ⟨hnil, hdot⟩)
  rw [partOf?, hidle, if_neg Bool.false_ne_true, if_neg hup]

/-- A segment that means a name is one. -/
theorem isName_of_partOf? {segment : List α} (hs : slash ∉ segment)
    (h : partOf? segment = some (.name n)) : IsName n := by
  obtain rfl := eq_of_partOf? h
  exact ⟨hs, h⟩

/-- What is longer than two dots is a name, but for slashes. -/
theorem isName_of_length (hs : slash ∉ n) (hn : 2 < n.length) : IsName n := by
  refine ⟨hs, partOf?_eq_name ⟨?_, ?_, ?_⟩⟩
  all_goals
    rintro rfl
    simp at hn

/-- The names in a path have no slash in them. -/
theorem isName_of_mem_parts (h : .name n ∈ parts p) : IsName n := by
  rcases List.mem_append.mp h with h | h
  · split at h
    · simp at h
    · split at h
      · simp at h
      · simp at h
  · obtain ⟨segment, hsegment, hpart⟩ := List.mem_filterMap.mp h
    exact isName_of_partOf? (Text.not_mem_of_mem_cutAt hsegment) hpart

/-! ## Joined paths -/

theorem isAbsolute_cons (c : α) (t : List α) : isAbsolute (c :: t) = decide (c = slash) := rfl

/-- A dot stands alone at the end of a path or in front of a slash. -/
theorem startsHere_cons (c : α) (t : List α) :
    startsHere (c :: t) = (decide (c = dot) && t.head?.all (· = slash)) := rfl

/-- A slash behind a path leaves its start as it is. -/
theorem opening_slash (hp : p ≠ []) (t : List α) :
    isAbsolute (p ++ slash :: t) = isAbsolute p ∧ startsHere (p ++ slash :: t) = startsHere p ∧
      (opening (p ++ slash :: t)).2 = (opening p).2 ++ slash :: t := by
  obtain ⟨c, p, rfl⟩ := List.exists_cons_of_ne_nil hp
  have habs : isAbsolute (c :: p ++ slash :: t) = isAbsolute (c :: p) := by
    rw [List.cons_append, isAbsolute_cons, isAbsolute_cons]
  have hhere : startsHere (c :: p ++ slash :: t) = startsHere (c :: p) := by
    rw [List.cons_append, startsHere_cons, startsHere_cons]
    cases p with
    | nil => simp
    | cons d p => rfl
  refine ⟨habs, hhere, ?_⟩
  rw [opening, opening, habs, hhere]
  split
  · rfl
  · rfl

theorem parts_append_slash (hp : p ≠ []) (t : List α) :
    parts (p ++ slash :: t) = parts p ++ (segments t).filterMap partOf? := by
  obtain ⟨habs, hhere, hopening⟩ := opening_slash hp t
  rw [parts, habs, hhere, hopening, segments, Text.cutAt_append_mark, List.filterMap_append,
    ← List.append_assoc]
  rfl

/-- A slash at the start is the root. -/
theorem opening_slash_cons (t : List α) :
    isAbsolute (slash :: t) = true ∧ opening (slash :: t) = ([slash], t) := by
  have habs : isAbsolute (slash :: t) = true := by rw [isAbsolute_cons, decide_eq_true_eq]
  refine ⟨habs, ?_⟩
  rw [opening, habs]
  rfl

theorem parts_slash_cons (t : List α) :
    parts (slash :: t) = .root :: (segments t).filterMap partOf? := by
  obtain ⟨habs, hopening⟩ := opening_slash_cons t
  rw [parts, habs, hopening]
  rfl

/-- **A slash divides the parts of a path.** -/
theorem parts_slash (p t : List α) :
    parts (p ++ slash :: t) = parts (p ++ [slash]) ++ (segments t).filterMap partOf? := by
  cases p with
  | nil =>
    rw [List.nil_append, List.nil_append, parts_slash_cons, parts_slash_cons]
    rfl
  | cons c p =>
    rw [parts_append_slash (List.cons_ne_nil c p), parts_append_slash (List.cons_ne_nil c p) [],
      List.append_assoc]
    rfl

/-- A name is a relative path. -/
theorem IsName.relative (hn : IsName n) : isAbsolute n = false ∧ startsHere n = false := by
  obtain ⟨hslash, hpart⟩ := hn
  cases n with
  | nil => exact ⟨rfl, rfl⟩
  | cons c n =>
    obtain ⟨hc, hn⟩ := not_or.mp (mt List.mem_cons.mpr hslash)
    rw [isAbsolute_cons, startsHere_cons, decide_eq_false (Ne.symm hc)]
    refine ⟨rfl, ?_⟩
    refine Bool.eq_false_iff.mpr fun hhere => ?_
    rw [Bool.and_eq_true, decide_eq_true_eq] at hhere
    obtain ⟨rfl, hhead⟩ := hhere
    cases n with
    | nil =>
      rw [partOf?_dot] at hpart
      cases hpart
    | cons d n => exact hn (of_decide_eq_true hhead ▸ List.mem_cons_self)

/-- A name alone is its only part. -/
theorem parts_name (hn : IsName n) : parts n = [.name n] := by
  obtain ⟨habs, hhere⟩ := hn.relative
  have hopening : opening n = ([], n) := by
    rw [opening, habs, hhere]
    rfl
  rw [parts, habs, hhere, hopening, segments, Text.cutAt_of_not_mem hn.noSlash,
    List.filterMap_cons_some hn.isPart]
  rfl

/-- **A name behind a path is one more part.** -/
theorem parts_join (hn : IsName n) (base : List α) :
    parts (join base n) = parts base ++ [.name n] := by
  have hparts : (segments n).filterMap partOf? = [.name n] := by
    rw [segments, Text.cutAt_of_not_mem hn.noSlash, List.filterMap_cons_some hn.isPart]
    rfl
  rw [join, if_neg (by simp [hn.relative.1])]
  split
  · rename_i hbase
    by_cases hnil : base = []
    · subst hnil
      exact parts_name hn
    · obtain ⟨front, hfront⟩ := List.getLast?_eq_some_iff.mp (hbase.resolve_left hnil)
      rw [hfront, List.append_assoc, List.singleton_append, parts_slash, hparts]
  · rename_i hbase
    rw [parts_append_slash fun h => hbase (.inl h), hparts]

/-! ## The name at the end -/

/-- The name at the end of a path is its last part. -/
theorem fileName?_eq_some_iff :
    fileName? p = some n ↔ ∃ front, parts p = front ++ [.name n] := by
  rw [fileName?]
  constructor
  · intro h
    split at h
    · rename_i m hm
      obtain rfl := Option.some.inj h
      exact List.getLast?_eq_some_iff.mp hm
    · cases h
  · rintro ⟨front, h⟩
    rw [h, List.getLast?_concat]

theorem fileName?_congr (h : parts p = parts q) : fileName? p = fileName? q := by
  rw [fileName?, fileName?, h]

theorem fileName?_join (hn : IsName n) (base : List α) : fileName? (join base n) = some n :=
  fileName?_eq_some_iff.mpr ⟨parts base, parts_join hn base⟩

theorem isName_of_fileName? (h : fileName? p = some n) : IsName n := by
  obtain ⟨front, hfront⟩ := fileName?_eq_some_iff.mp h
  exact isName_of_mem_parts (p := p) (by simp [hfront])

/-- **A name cut at its last dot** is its stem, the dot and its extension. -/
theorem eq_of_cutExtension (h : cutExtension n = (stem, some extension)) :
    n = stem ++ dot :: extension := by
  unfold cutExtension at h
  have hall := List.takeWhile_append_dropWhile (p := (· != dot)) (l := n.reverse)
  have hhead := List.head?_dropWhile_not (· != dot) n.reverse
  simp only at h
  split at h
  · cases h
  · cases h
  · rename_i mark c before hdrop
    obtain ⟨rfl, hext⟩ := Prod.mk.inj h
    obtain rfl := Option.some.inj hext
    -- the rest of the reversed name starts with the last dot
    rw [hdrop] at hall hhead
    obtain rfl : mark = dot := by simpa using hhead
    calc n = n.reverse.reverse := (List.reverse_reverse n).symm
      _ = (n.reverse.takeWhile (· != dot) ++ dot :: c :: before).reverse := by rw [hall]
      _ = _ := by simp

/-- **A path with an extension** ends in its stem, a dot and the extension. -/
theorem exists_stem_of_extension? (h : extension? p = some extension) :
    ∃ stem, stem? p = some stem ∧ fileName? p = some (stem ++ dot :: extension) := by
  obtain ⟨name, hname, hcut⟩ := Option.bind_eq_some_iff.mp h
  refine ⟨(cutExtension name).1, by rw [stem?, hname, Option.map_some], ?_⟩
  rw [hname, ← eq_of_cutExtension (Prod.ext rfl hcut)]

end Path

end StraightLine
