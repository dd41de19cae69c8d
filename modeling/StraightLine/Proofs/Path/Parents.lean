import Mathlib.Data.List.Basic
import Mathlib.Data.List.TakeWhile
import Mathlib.Tactic.ByContra
import StraightLine.Proofs.Path.Parts

/-!
# Parents of paths — the directory in front of the last name

A path behind an absolute one adds what its segments mean (`added`), whatever
start it has of its own (`parts_join_of_isAbsolute`). The parent of a path that
ends in a name is written as the path was, less that name and what means nothing
in front of it; so it adds all that the path adds but the name
(`exists_parent`).
-/

namespace StraightLine

namespace Path

open PathChar

variable {α : Type} [DecidableEq α] [PathChar α] {base p n : List α} {ss : List (List α)}

/-! ## Segments -/

theorem segments_ne_nil (p : List α) : segments p ≠ [] := Text.cutAt_ne_nil p

theorem segments_slash (p t : List α) : segments (p ++ slash :: t) = segments p ++ segments t :=
  Text.cutAt_append_mark p t

theorem segments_slash_cons (t : List α) : segments (slash :: t) = [] :: segments t :=
  segments_slash [] t

theorem segments_dot : segments ([dot] : List α) = [[dot]] :=
  Text.cutAt_of_not_mem (by simpa using dot_ne_slash.symm)

theorem segments_dot_slash (t : List α) : segments (dot :: slash :: t) = [dot] :: segments t := by
  rw [← List.singleton_append, segments_slash, segments_dot, List.singleton_append]

/-- Slashes between texts that have none are found again. -/
theorem segments_joined (hne : ss ≠ []) (hss : ∀ s ∈ ss, slash ∉ s) :
    segments (joined ss) = ss := by
  induction ss with
  | nil => exact absurd rfl hne
  | cons s ss ih =>
    obtain ⟨hs, hss⟩ := List.forall_mem_cons.mp hss
    cases ss with
    | nil => exact Text.cutAt_of_not_mem hs
    | cons r ss =>
      rw [joined, segments, Text.cutAt_append hs]
      exact congrArg (s :: ·) (ih (List.cons_ne_nil r ss) hss)

/-- And with slashes between its segments a path is what it was. -/
theorem joined_segments (p : List α) : joined (segments p) = p := by
  induction p with
  | nil => rfl
  | cons c p ih =>
    obtain ⟨s, ss, hss⟩ := List.exists_cons_of_ne_nil (segments_ne_nil p)
    rw [hss] at ih
    by_cases hc : c = slash
    · subst hc
      rw [segments_slash_cons, hss, joined, ih, List.nil_append]
    · rw [segments, Text.cutAt_cons_of_ne hc hss, ← ih]
      cases ss with
      | nil => rfl
      | cons r ss => rfl

/-- An absolute path has nothing in front of its first slash. -/
theorem isAbsolute_iff : isAbsolute p = true ↔ ∃ ss, ss ≠ [] ∧ segments p = [] :: ss := by
  cases p with
  | nil =>
    constructor
    · rintro ⟨⟩
    · rintro ⟨ss, hne, hss⟩
      exact absurd (List.cons.inj hss).2.symm hne
  | cons c p =>
    rw [isAbsolute_cons, decide_eq_true_eq]
    constructor
    · rintro rfl
      exact ⟨segments p, segments_ne_nil p, segments_slash_cons p⟩
    · rintro ⟨ss, -, hss⟩
      by_contra hc
      obtain ⟨x, xs, hp⟩ := List.exists_cons_of_ne_nil (segments_ne_nil p)
      rw [segments, Text.cutAt_cons_of_ne hc hp] at hss
      cases hss

/-! ## What a path adds -/

/-- What a path goes through behind another one. -/
def added (p : List α) : List (PathPart α) := (segments p).filterMap partOf?

theorem added_slash (p t : List α) : added (p ++ slash :: t) = added p ++ added t := by
  rw [added, segments_slash, List.filterMap_append]
  rfl

theorem added_slash_cons (t : List α) : added (slash :: t) = added t := by
  rw [added, segments_slash_cons, List.filterMap_cons_none partOf?_nil]
  rfl

theorem added_dot : added ([dot] : List α) = [] := by
  rw [added, segments_dot, List.filterMap_cons_none partOf?_dot, List.filterMap_nil]

theorem added_joined (hss : ∀ s ∈ ss, slash ∉ s) : added (joined ss) = ss.filterMap partOf? := by
  cases ss with
  | nil => rfl
  | cons s ss => rw [added, segments_joined (List.cons_ne_nil s ss) hss]

/-- An absolute path starts at the root and goes through what it adds. -/
theorem parts_of_isAbsolute (h : isAbsolute p = true) : parts p = .root :: added p := by
  obtain ⟨c, t, rfl⟩ : ∃ c t, p = c :: t := by
    cases p with
    | nil => cases h
    | cons c t => exact ⟨c, t, rfl⟩
  rw [isAbsolute_cons, decide_eq_true_eq] at h
  subst h
  rw [parts_slash_cons, added_slash_cons]
  rfl

theorem join_of_isAbsolute (h : isAbsolute p = true) (base : List α) : join base p = p := if_pos h

/-- **A relative path behind another one** keeps its segments. -/
theorem segments_join (hbase : base ≠ []) (hp : isAbsolute p = false) :
    ∃ front, segments (join base p) = front ++ segments p ∧
      front.filterMap partOf? = added base := by
  rw [join, if_neg (by simp [hp])]
  split
  · rename_i hslash
    obtain ⟨front, rfl⟩ := List.getLast?_eq_some_iff.mp (hslash.resolve_left hbase)
    refine ⟨segments front, ?_, ?_⟩
    · rw [List.append_assoc, List.singleton_append, segments_slash]
    · rw [added_slash]
      exact (List.append_nil _).symm
  · exact ⟨segments base, segments_slash base p, rfl⟩

theorem ne_nil_of_isAbsolute (h : isAbsolute p = true) : p ≠ [] := by
  rintro rfl
  cases h

theorem isAbsolute_join (h : isAbsolute base = true) (p : List α) :
    isAbsolute (join base p) = true := by
  obtain ⟨c, t, rfl⟩ := List.exists_cons_of_ne_nil (ne_nil_of_isAbsolute h)
  rw [join]
  split
  · assumption
  · rw [isAbsolute_cons] at h
    split
    · rw [List.cons_append, isAbsolute_cons, h]
    · rw [List.cons_append, isAbsolute_cons, h]

/-- What stands between a path and a relative one behind it. -/
def separator (base : List α) : List α :=
  if base = [] ∨ base.getLast? = some slash then [] else [slash]

theorem join_of_relative (hp : isAbsolute p = false) (base : List α) :
    join base p = base ++ separator base ++ p := by
  rw [join, separator, if_neg (by simp [hp])]
  split
  · rw [List.append_nil]
  · rw [List.append_assoc]
    rfl

/-- There is one separator and no second. -/
theorem separator_append_separator (base : List α) : separator (base ++ separator base) = [] := by
  by_cases hbase : base = [] ∨ base.getLast? = some slash
  · rw [separator, separator, if_pos hbase, List.append_nil, if_pos hbase]
  · rw [separator, separator, if_neg hbase, if_pos (.inr List.getLast?_concat)]

theorem separator_append (hp : p ≠ []) (front : List α) : separator (front ++ p) = separator p := by
  rw [separator, separator, List.getLast?_append_of_ne_nil front hp]
  simp [hp]

/-- **Joining is associative.** -/
theorem join_join (base p q : List α) : join base (join p q) = join (join base p) q := by
  by_cases hq : isAbsolute q = true
  · rw [join_of_isAbsolute hq, join_of_isAbsolute hq, join_of_isAbsolute hq]
  by_cases hp : isAbsolute p = true
  · rw [join_of_isAbsolute hp, join_of_isAbsolute (isAbsolute_join hp q)]
  rw [Bool.not_eq_true] at hp hq
  rw [join_of_relative hp base, join_of_relative hq (base ++ separator base ++ p)]
  rcases p with - | ⟨c, t⟩
  · have hnil : join [] q = q := join_of_relative hq []
    rw [hnil, List.append_nil, separator_append_separator, List.append_nil,
      join_of_relative hq base]
  · rw [join_of_relative hq]
    have hrel : isAbsolute ((c :: t) ++ separator (c :: t) ++ q) = false := by
      rw [List.append_assoc, List.cons_append, isAbsolute_cons, ← hp, isAbsolute_cons]
    rw [join_of_relative hrel, separator_append (List.cons_ne_nil c t)]
    simp only [List.append_assoc]

/-- **What a path behind an absolute one goes through.** -/
theorem parts_join_of_isAbsolute (hbase : isAbsolute base = true) (hp : isAbsolute p = false) :
    parts (join base p) = parts base ++ added p := by
  obtain ⟨front, hfront, hadded⟩ := segments_join (ne_nil_of_isAbsolute hbase) hp
  rw [parts_of_isAbsolute (isAbsolute_join hbase p), parts_of_isAbsolute hbase, added, hfront,
    List.filterMap_append, hadded]
  rfl

/-- Paths are joined to directories, however those are written. -/
theorem parts_join_congr {base' : List α} (hbase : isAbsolute base = true)
    (hbase' : isAbsolute base' = true) (h : parts base = parts base') (p : List α) :
    parts (join base p) = parts (join base' p) := by
  by_cases hp : isAbsolute p = true
  · rw [join_of_isAbsolute hp, join_of_isAbsolute hp]
  · rw [Bool.not_eq_true] at hp
    rw [parts_join_of_isAbsolute hbase hp, parts_join_of_isAbsolute hbase' hp, h]

/-! ## Parents -/

theorem isIdle_eq_false (hn : IsName n) : isIdle n = false := by
  have hpart := hn.isPart
  rw [partOf?] at hpart
  split at hpart
  · cases hpart
  · rename_i hidle
    exact Bool.eq_false_iff.mpr hidle

/-- What means nothing at the end of a path is told by its text. -/
theorem exists_eq_trimmed_append (ss : List (List α)) :
    ∃ idle, ss = trimmed ss ++ idle ∧ idle.filterMap partOf? = [] := by
  refine ⟨(ss.reverse.takeWhile isIdle).reverse, ?_, ?_⟩
  · rw [trimmed, ← List.reverse_append, List.takeWhile_append_dropWhile, List.reverse_reverse]
  · refine List.filterMap_eq_nil_iff.mpr fun s hs => ?_
    rw [partOf?, if_pos (List.mem_takeWhile_imp (List.mem_reverse.mp hs))]

theorem added_joined_trimmed (hss : ∀ s ∈ ss, slash ∉ s) :
    added (joined (trimmed ss)) = ss.filterMap partOf? := by
  obtain ⟨idle, hidle, hnone⟩ := exists_eq_trimmed_append ss
  have hmem : ∀ s ∈ trimmed ss, slash ∉ s := fun s hs =>
    hss s (hidle ▸ List.mem_append_left idle hs)
  have hmeans := congrArg (List.filterMap partOf?) hidle
  rw [List.filterMap_append, hnone, List.append_nil] at hmeans
  rw [added_joined hmem, hmeans]

theorem trimmed_concat (hn : IsName n) (ss : List (List α)) : trimmed (ss ++ [n]) = ss ++ [n] := by
  rw [trimmed, List.reverse_append, List.reverse_singleton, List.singleton_append,
    List.dropWhile_cons_of_neg (by simp [isIdle_eq_false hn]), ← List.singleton_append,
    List.reverse_append, List.reverse_reverse, List.reverse_singleton]

/-- The parent of a path whose last segment is a name. -/
theorem parent?_eq_some (hp : segments (opening p).2 = ss ++ [n]) (hn : IsName n) :
    parent? p = some ((opening p).1 ++ joined (trimmed ss)) := by
  rw [parent?, hp, trimmed_concat hn, List.reverse_append, List.reverse_singleton,
    List.singleton_append]
  simp only [List.reverse_reverse]

/-- A dot in front of what is left of segments says nothing. -/
theorem added_here (hss : ∀ s ∈ ss, slash ∉ s) :
    added (dot :: joined (trimmed ([] :: ss))) = ss.filterMap partOf? := by
  obtain ⟨idle, hidle, hnone⟩ := exists_eq_trimmed_append ([] :: ss)
  rcases htrim : trimmed ([] :: ss) with - | ⟨x, xs⟩
  · rw [htrim, List.nil_append] at hidle
    rw [← hidle, List.filterMap_cons_none partOf?_nil] at hnone
    rw [hnone]
    exact added_dot
  · rw [htrim, List.cons_append] at hidle
    obtain ⟨rfl, rfl⟩ := List.cons.inj hidle
    rw [List.filterMap_append, hnone, List.append_nil]
    cases xs with
    | nil => exact added_dot
    | cons r rs =>
      have hrest : added (joined (r :: rs)) = (r :: rs).filterMap partOf? :=
        added_joined fun s hs => hss s (List.mem_append_left idle hs)
      have hdot := added_slash [dot] (joined (r :: rs))
      rw [added_dot, List.nil_append] at hdot
      rw [← hrest]
      exact hdot

/-- What is left of segments starts at the root only if they do. -/
theorem isAbsolute_of_trimmed (hp : segments p = ss ++ [n]) (hss : ∀ s ∈ ss, slash ∉ s)
    (h : isAbsolute (joined (trimmed ss)) = true) : isAbsolute p = true := by
  obtain ⟨idle, hidle, -⟩ := exists_eq_trimmed_append ss
  obtain ⟨rest, hrest, hsegments⟩ := isAbsolute_iff.mp h
  have hne : trimmed ss ≠ [] := fun hnil => by
    rw [hnil] at h
    cases h
  rw [segments_joined hne fun s hs => hss s (hidle ▸ List.mem_append_left idle hs)] at hsegments
  rw [hidle, hsegments] at hp
  exact isAbsolute_iff.mpr ⟨rest ++ idle ++ [n], by simp, hp⟩

/-- **The parent of a path that ends in a name** adds what the path adds in
front of the name, and starts where the path does. -/
theorem exists_parent (hp : segments p = ss ++ [n]) (hn : IsName n) :
    ∃ q, parent? p = some q ∧ isAbsolute q = isAbsolute p ∧ added q = ss.filterMap partOf? := by
  have hslash : ∀ s ∈ ss, slash ∉ s := fun s hs =>
    Text.not_mem_of_mem_cutAt (s := p) (by rw [← segments, hp]; exact List.mem_append_left _ hs)
  -- what means nothing is not the name
  have hstart : ∀ {x : List α} {xs : List (List α)}, x :: xs = ss ++ [n] → partOf? x = none →
      ∃ rest, ss = x :: rest ∧ xs = rest ++ [n] := by
    intro x xs h hx
    cases ss with
    | nil =>
      obtain rfl := (List.cons.inj h).1
      cases hx.symm.trans hn.isPart
    | cons s rest =>
      obtain ⟨rfl, rfl⟩ := List.cons.inj h
      exact ⟨rest, rfl, rfl⟩
  cases p with
  | nil =>
    obtain ⟨rest, rfl, h⟩ := hstart hp partOf?_nil
    simp at h
  | cons c t =>
    by_cases hc : c = slash
    · -- the root is not dropped
      subst hc
      rw [segments_slash_cons] at hp
      obtain ⟨rest, rfl, hrest⟩ := hstart hp partOf?_nil
      obtain ⟨habs, hopening⟩ := opening_slash_cons t
      have hparent := parent?_eq_some (p := slash :: t) (by rw [hopening, hrest]) hn
      rw [hopening] at hparent
      refine ⟨slash :: joined (trimmed rest), hparent, ?_, ?_⟩
      · rw [habs]
        exact (opening_slash_cons _).1
      · rw [added_slash_cons, List.filterMap_cons_none partOf?_nil]
        exact added_joined_trimmed fun s hs => hslash s (List.mem_cons_of_mem _ hs)
    by_cases hhere : startsHere (c :: t) = true
    · -- nor is a dot that stands alone at the start
      have hopening : opening (c :: t) = ([c], t) := by
        rw [opening, hhere, Bool.or_true]
        rfl
      rw [startsHere_cons, Bool.and_eq_true, decide_eq_true_eq] at hhere
      obtain ⟨rfl, hhead⟩ := hhere
      cases t with
      | nil =>
        rw [segments_dot] at hp
        obtain ⟨rest, rfl, h⟩ := hstart hp partOf?_dot
        simp at h
      | cons d u =>
        obtain rfl : d = slash := by simpa using hhead
        rw [segments_dot_slash] at hp
        obtain ⟨rest, rfl, hrest⟩ := hstart hp partOf?_dot
        have hbody : segments (slash :: u) = ([] :: rest) ++ [n] := by
          rw [segments_slash_cons, hrest, List.cons_append]
        have hparent := parent?_eq_some (p := dot :: slash :: u) (by rw [hopening, hbody]) hn
        rw [hopening] at hparent
        refine ⟨dot :: joined (trimmed ([] :: rest)), hparent, ?_, ?_⟩
        · rw [isAbsolute_cons, isAbsolute_cons]
        · rw [List.filterMap_cons_none partOf?_dot]
          exact added_here fun s hs => hslash s (List.mem_cons_of_mem _ hs)
    · have hopening : opening (c :: t) = ([], c :: t) := by
        rw [opening, isAbsolute_cons, decide_eq_false hc, Bool.eq_false_iff.mpr hhere]
        rfl
      have hbody : segments (opening (c :: t)).2 = ss ++ [n] := by rw [hopening, hp]
      have hparent := parent?_eq_some hbody hn
      rw [hopening, List.nil_append] at hparent
      refine ⟨joined (trimmed ss), hparent, ?_, added_joined_trimmed hslash⟩
      rw [isAbsolute_cons, decide_eq_false hc, ← Bool.not_eq_true]
      exact fun habs => hc (by simpa [isAbsolute_cons] using isAbsolute_of_trimmed hp hslash habs)

end Path

end StraightLine
