import Mathlib.Data.List.Basic
import Mathlib.Data.List.TakeWhile
import StraightLine.Manifest.Environment

/-!
# Substitution — placeholders are replaced in one pass

A cut of a text says which of its characters belong to placeholders and which
stand for themselves. `Piece.IsCut` asks that no placeholder could start at a
character that stands for itself, so placeholders are taken as soon as they
can be, from left to right, and a text has one cut alone (`isCut_iff`).

Substitution puts values in place of the placeholders of this cut and looks at
nothing again. A second substitution may all the same find placeholders that
the first has made; it does not when values are not empty and have neither a
dollar sign nor an opening brace in them, for then the characters that a
placeholder starts with do not come together (`IsCut.settled`).
-/

namespace StraightLine

namespace Piece

variable {env : Environment} {c : Char} {name v t u rest : Text} {ps qs : List Piece}

/-! ## Placeholders at the start of a text -/

/-- **A name in a placeholder** has a character, and no closing brace. -/
structure IsName (name : Text) : Prop where
  nonempty : name ≠ []
  unclosed : '\x7d' ∉ name

/-- A placeholder stands at the start of a text. -/
def Opens (t : Text) : Prop := ∃ name rest, IsName name ∧ t = (placeholder name).text ++ rest

/-- A name ends in front of the first closing brace. -/
theorem span_name (h : '\x7d' ∉ name) (rest : Text) :
    (name ++ '\x7d' :: rest).takeWhile (· != '\x7d') = name ∧
      (name ++ '\x7d' :: rest).dropWhile (· != '\x7d') = '\x7d' :: rest := by
  have hall : ∀ c ∈ name, (c != '\x7d') = true := by
    intro c hc
    simpa using fun heq : c = '\x7d' => h (heq ▸ hc)
  rw [List.takeWhile_append_of_pos hall, List.dropWhile_append_of_pos hall]
  simp

/-- **What is found as a placeholder** is one, and the one that is there. -/
theorem name?_eq_some_iff :
    name? t = some (name, rest) ↔ IsName name ∧ t = (placeholder name).text ++ rest := by
  constructor
  · intro h
    unfold name? at h
    split at h
    · rename_i u
      split at h
      · rename_i c l d r htake hdrop
        obtain ⟨rfl, rfl⟩ := Prod.mk.inj (Option.some.inj h)
        have hd : d = '\x7d' := by
          have hnot := List.head_dropWhile_not (· != '\x7d') (l := u) (by simp [hdrop])
          simpa [hdrop] using hnot
        have hunclosed : '\x7d' ∉ c :: l := by
          intro hmem
          rw [← htake] at hmem
          simpa using List.mem_takeWhile_imp hmem
        refine ⟨⟨List.cons_ne_nil c l, hunclosed⟩, ?_⟩
        have hu : u = c :: l ++ d :: r := by
          rw [← htake, ← hdrop, List.takeWhile_append_dropWhile]
        rw [hu, hd]
        simp [text]
      · cases h
    · cases h
  · rintro ⟨⟨hne, hunclosed⟩, rfl⟩
    obtain ⟨c, l, rfl⟩ := List.exists_cons_of_ne_nil hne
    obtain ⟨htake, hdrop⟩ := span_name hunclosed rest
    have htext : (placeholder (c :: l)).text ++ rest =
        '$' :: '\x7b' :: (c :: l ++ '\x7d' :: rest) := by simp [text]
    rw [htext]
    simp only [name?, htake, hdrop]

theorem name?_eq_none_iff : name? t = none ↔ ¬ Opens t := by
  constructor
  · rintro h ⟨name, rest, hopens⟩
    cases h.symm.trans (name?_eq_some_iff.mpr hopens)
  · intro h
    rcases hname : name? t with - | ⟨name, rest⟩
    · rfl
    · exact absurd ⟨name, rest, name?_eq_some_iff.mp hname⟩ h

/-! ## Cuts -/

/-- **A cut of a text into its pieces.** A character stands for itself only
where no placeholder can start. -/
structure IsCut (t : Text) (ps : List Piece) : Prop where
  whole : ps.flatMap text = t
  named : ∀ name, placeholder name ∈ ps → IsName name
  leftmost : ∀ front c back, ps = front ++ char c :: back → ¬ Opens (c :: back.flatMap text)

theorem isCut_nil_iff : IsCut t [] ↔ t = [] := by
  constructor
  · exact fun h => h.whole.symm
  · rintro rfl
    exact ⟨rfl, by simp, by simp⟩

theorem isCut_char_iff :
    IsCut t (char c :: ps) ↔ ∃ u, t = c :: u ∧ ¬ Opens (c :: u) ∧ IsCut u ps := by
  constructor
  · rintro ⟨rfl, hnamed, hleft⟩
    refine ⟨ps.flatMap text, rfl, hleft [] c ps rfl, rfl, ?_, ?_⟩
    · exact fun name hname => hnamed name (List.mem_cons_of_mem _ hname)
    · exact fun front d back hps => hleft (char c :: front) d back (by rw [hps, List.cons_append])
  · rintro ⟨u, rfl, hopens, rfl, hnamed, hleft⟩
    refine ⟨rfl, ?_, ?_⟩
    · exact fun name hname => hnamed name ((List.mem_cons.mp hname).resolve_left nofun)
    · intro front d back hps
      cases front with
      | nil =>
        obtain ⟨hd, rfl⟩ := List.cons.inj hps
        obtain rfl := char.inj hd
        exact hopens
      | cons q front => exact hleft front d back (List.cons.inj hps).2

theorem isCut_placeholder_iff :
    IsCut t (placeholder name :: ps) ↔
      ∃ u, t = (placeholder name).text ++ u ∧ IsName name ∧ IsCut u ps := by
  constructor
  · rintro ⟨rfl, hnamed, hleft⟩
    refine ⟨ps.flatMap text, rfl, hnamed name List.mem_cons_self, rfl, ?_, ?_⟩
    · exact fun name' hname => hnamed name' (List.mem_cons_of_mem _ hname)
    · exact fun front d back hps =>
        hleft (placeholder name :: front) d back (by rw [hps, List.cons_append])
  · rintro ⟨u, rfl, hname, rfl, hnamed, hleft⟩
    refine ⟨rfl, ?_, ?_⟩
    · intro name' hmem
      rcases List.mem_cons.mp hmem with heq | hmem
      · obtain rfl := placeholder.inj heq
        exact hname
      · exact hnamed name' hmem
    · intro front d back hps
      cases front with
      | nil => cases (List.cons.inj hps).1
      | cons q front => exact hleft front d back (List.cons.inj hps).2

/-- The pieces found are a cut, when there is room for all of them. -/
theorem isCut_cut {n : Nat} (h : t.length ≤ n) : IsCut t (cut n t) := by
  induction n generalizing t with
  | zero =>
    obtain rfl : t = [] := List.length_eq_zero_iff.mp (by omega)
    exact isCut_nil_iff.mpr rfl
  | succ n ih =>
    cases t with
    | nil => exact isCut_nil_iff.mpr rfl
    | cons c t =>
      rw [cut]
      rcases hname : name? (c :: t) with - | ⟨name, rest⟩
      · refine isCut_char_iff.mpr ⟨t, rfl, name?_eq_none_iff.mp hname, ih ?_⟩
        exact Nat.le_of_succ_le_succ h
      · obtain ⟨hisName, htext⟩ := name?_eq_some_iff.mp hname
        refine isCut_placeholder_iff.mpr ⟨rest, htext, hisName, ih ?_⟩
        have hlength := congrArg List.length htext
        simp only [text, List.length_append, List.length_cons] at hlength h
        omega

/-- And there is no other cut. -/
theorem IsCut.cut_eq {n : Nat} (h : IsCut t ps) (hn : t.length ≤ n) : cut n t = ps := by
  induction ps generalizing t n with
  | nil =>
    obtain rfl := isCut_nil_iff.mp h
    cases n with
    | zero => rfl
    | succ n => rfl
  | cons p ps ih =>
    cases p with
    | char c =>
      obtain ⟨u, rfl, hopens, hcut⟩ := isCut_char_iff.mp h
      obtain ⟨n, rfl⟩ : ∃ m, n = m + 1 := ⟨n - 1, by rw [List.length_cons] at hn; omega⟩
      simp only [cut, name?_eq_none_iff.mpr hopens, ih hcut (Nat.le_of_succ_le_succ hn)]
    | placeholder name =>
      obtain ⟨u, htext, hname, hcut⟩ := isCut_placeholder_iff.mp h
      have hfound := name?_eq_some_iff.mpr ⟨hname, htext⟩
      obtain ⟨v, rfl⟩ : ∃ v, t = '$' :: v := ⟨_, htext⟩
      have hlength := congrArg List.length htext
      simp only [text, List.length_append, List.length_cons] at hlength hn
      obtain ⟨n, rfl⟩ : ∃ m, n = m + 1 := ⟨n - 1, by omega⟩
      simp only [cut, hfound, ih hcut (show u.length ≤ n by omega)]

/-- **A text has one cut**: the pieces that are found. -/
theorem isCut_iff : IsCut t ps ↔ ofText t = ps :=
  ⟨fun h => h.cut_eq le_rfl, fun h => h ▸ isCut_cut le_rfl⟩

/-! ## Values in place of placeholders -/

/-- What stands for a placeholder that has no value is its own text. -/
theorem value_placeholder_of_none (h : env.value? name = none) :
    (placeholder name).value env = (placeholder name).text := by
  rw [value, h, Option.getD_none]

theorem value_placeholder_of_some (h : env.value? name = some v) :
    (placeholder name).value env = v := by
  rw [value, h, Option.getD_some]

/-- **A value that makes no placeholder**: it is not empty, and has no
character that a placeholder starts with. -/
structure Inert (v : Text) : Prop where
  nonempty : v ≠ []
  dollar : '$' ∉ v
  brace : '\x7b' ∉ v

/-- The pieces of what stands for a piece. -/
def settled (env : Environment) : Piece → List Piece
  | char c => [char c]
  | placeholder name =>
    match env.value? name with
    | some v => v.map char
    | none => [placeholder name]

theorem flatMap_text_chars (v : Text) : (v.map char).flatMap text = v := by
  induction v with
  | nil => rfl
  | cons c v ih => rw [List.map_cons, List.flatMap_cons, ih, text, List.singleton_append]

/-- They write it. -/
theorem flatMap_text_settled (p : Piece) : (p.settled env).flatMap text = p.value env := by
  cases p with
  | char c => rfl
  | placeholder name =>
    rcases hvalue : env.value? name with - | v
    · rw [value_placeholder_of_none hvalue]
      simp only [settled, hvalue, List.flatMap_cons, List.flatMap_nil, List.append_nil]
    · rw [value_placeholder_of_some hvalue]
      simp only [settled, hvalue, flatMap_text_chars]

/-- And no value is put in their place. -/
theorem flatMap_value_settled (p : Piece) : (p.settled env).flatMap (value env) = p.value env := by
  rw [← flatMap_text_settled]
  refine List.flatMap_congr fun q hq => ?_
  cases q with
  | char c => rfl
  | placeholder name' =>
    cases p with
    | char c => simp [settled] at hq
    | placeholder name =>
      rcases hvalue : env.value? name with - | v
      · simp only [settled, hvalue, List.mem_singleton] at hq
        obtain rfl := placeholder.inj hq
        exact value_placeholder_of_none hvalue
      · simp [settled, hvalue] at hq

/-- Characters that are no dollar signs stand for themselves. -/
theorem IsCut.chars (h : IsCut t ps) (hv : '$' ∉ v) : IsCut (v ++ t) (v.map char ++ ps) := by
  induction v with
  | nil => exact h
  | cons c v ih =>
    rw [List.mem_cons, not_or] at hv
    obtain ⟨hc, hv⟩ := hv
    refine isCut_char_iff.mpr ⟨v ++ t, rfl, ?_, ih hv⟩
    rintro ⟨name, rest, -, htext⟩
    exact hc (List.cons.inj htext).1.symm

/-! ## A second pass -/

/-- A closing brace in what stands for pieces has been in their text. -/
theorem mem_text_of_mem_value {p : Piece} (h : '\x7d' ∈ p.value env) : '\x7d' ∈ p.text := by
  cases p with
  | char c => exact h
  | placeholder name => simp [text]

/-- Behind a dollar sign and an opening brace, a closing brace that does not
follow at once ends a placeholder. -/
theorem opens_of_mem (hmem : '\x7d' ∈ u) (hhead : u.head? ≠ some '\x7d') :
    Opens ('$' :: '\x7b' :: u) := by
  obtain ⟨name, rest, rfl, hunclosed⟩ := List.eq_append_cons_of_mem hmem
  refine ⟨name, rest, ⟨?_, hunclosed⟩, by simp [text]⟩
  rintro rfl
  exact hhead rfl

/-- An opening brace in front has been there before. -/
theorem exists_brace (hinert : ∀ name v, placeholder name ∈ ps → env.value? name = some v → Inert v)
    (h : ps.flatMap (value env) = '\x7b' :: u) :
    ∃ qs, ps = char '\x7b' :: qs ∧ qs.flatMap (value env) = u := by
  cases ps with
  | nil => cases h
  | cons p ps =>
    rw [List.flatMap_cons] at h
    cases p with
    | char c =>
      obtain ⟨rfl, rfl⟩ := List.cons.inj h
      exact ⟨ps, rfl, rfl⟩
    | placeholder name =>
      rcases hvalue : env.value? name with - | v
      · rw [value_placeholder_of_none hvalue] at h
        cases (List.cons.inj h).1
      · have hv := hinert name v List.mem_cons_self hvalue
        rw [value_placeholder_of_some hvalue] at h
        obtain ⟨c, w, rfl⟩ := List.exists_cons_of_ne_nil hv.nonempty
        exact absurd (List.mem_cons.mpr (.inl (List.cons.inj h).1.symm)) hv.brace

/-- **Values open no placeholder** with the character in front of them. -/
theorem not_opens_values (hcut : IsCut u ps) (hopens : ¬ Opens (c :: u))
    (hinert : ∀ name v, placeholder name ∈ ps → env.value? name = some v → Inert v) :
    ¬ Opens (c :: ps.flatMap (value env)) := by
  rintro ⟨name, rest, hname, htext⟩
  obtain ⟨rfl, hbehind⟩ := List.cons.inj htext
  obtain ⟨qs, rfl, hvalues⟩ := exists_brace hinert hbehind
  obtain ⟨u, rfl, -, hcut⟩ := isCut_char_iff.mp hcut
  obtain ⟨d, l, rfl⟩ := List.exists_cons_of_ne_nil hname.nonempty
  have hd : d ≠ '\x7d' := fun heq => hname.unclosed (heq ▸ List.mem_cons_self)
  refine hopens (opens_of_mem ?_ ?_)
  · have hmem : '\x7d' ∈ qs.flatMap (value env) := by simp [hvalues]
    obtain ⟨p, hp, hclosing⟩ := List.mem_flatMap.mp hmem
    rw [← hcut.whole]
    exact List.mem_flatMap.mpr ⟨p, hp, mem_text_of_mem_value hclosing⟩
  · rw [← hcut.whole]
    cases qs with
    | nil => simp
    | cons q qs =>
      cases q with
      | char e =>
        obtain ⟨rfl, -⟩ := List.cons.inj hvalues
        simpa [text] using hd
      | placeholder name' => simp [text]

/-- **What stands in place of the pieces has a cut of its own**: that of each
piece. -/
theorem IsCut.settled (h : IsCut t ps)
    (hinert : ∀ name v, placeholder name ∈ ps → env.value? name = some v → Inert v) :
    IsCut (ps.flatMap (value env)) (ps.flatMap (settled env)) := by
  induction ps generalizing t with
  | nil => exact isCut_nil_iff.mpr rfl
  | cons p ps ih =>
    have hlater : ∀ name v, placeholder name ∈ ps → env.value? name = some v → Inert v :=
      fun name v hname => hinert name v (List.mem_cons_of_mem p hname)
    rw [List.flatMap_cons, List.flatMap_cons]
    cases p with
    | char c =>
      obtain ⟨u, rfl, hopens, hcut⟩ := isCut_char_iff.mp h
      exact isCut_char_iff.mpr ⟨_, rfl, not_opens_values hcut hopens hlater, ih hcut hlater⟩
    | placeholder name =>
      obtain ⟨u, rfl, hname, hcut⟩ := isCut_placeholder_iff.mp h
      rcases hvalue : env.value? name with - | v
      · rw [value_placeholder_of_none hvalue, Piece.settled, hvalue]
        exact isCut_placeholder_iff.mpr ⟨_, rfl, hname, ih hcut hlater⟩
      · rw [value_placeholder_of_some hvalue, Piece.settled, hvalue]
        exact (ih hcut hlater).chars (hinert name v List.mem_cons_self hvalue).dollar

end Piece

namespace Environment

open Piece

/-- Substitution reads a text by its cut. -/
theorem substitute_of_isCut {t : Text} {ps : List Piece} (env : Environment) (h : IsCut t ps) :
    env.substitute t = ps.flatMap (value env) := by
  rw [substitute, isCut_iff.mp h]

/-- **Substitution is one pass from left to right.** A text has one cut into
placeholders, each taken where it first can be, and characters that stand for
themselves; values are put in place of the placeholders that have one, and
everything else stays. A text none of whose placeholders has a value stays as
it is; and where no value is empty or has one of the characters that a
placeholder starts with, a second substitution changes nothing, whatever closing
braces the values have. -/
theorem substitute_single_pass (env : Environment) (t : Text) :
    ∃ ps, IsCut t ps ∧ (∀ qs, IsCut t qs → qs = ps) ∧
      env.substitute t = ps.flatMap (value env) ∧
      ((∀ name, placeholder name ∈ ps → env.value? name = none) → env.substitute t = t) ∧
      ((∀ name v, placeholder name ∈ ps → env.value? name = some v → Inert v) →
        env.substitute (env.substitute t) = env.substitute t) := by
  have hcut : IsCut t (ofText t) := isCut_iff.mpr rfl
  refine ⟨ofText t, hcut, fun qs hqs => (isCut_iff.mp hqs).symm, rfl, ?_, ?_⟩
  · intro hnone
    calc env.substitute t = (ofText t).flatMap text := List.flatMap_congr fun p hp => by
          cases p with
          | char c => rfl
          | placeholder name => exact value_placeholder_of_none (hnone name hp)
      _ = t := hcut.whole
  · intro hinert
    have hagain := hcut.settled hinert
    calc env.substitute (env.substitute t)
        = ((ofText t).flatMap (settled env)).flatMap (value env) := substitute_of_isCut env hagain
      _ = (ofText t).flatMap (value env) := by
          rw [List.flatMap_assoc]
          exact List.flatMap_congr fun p _ => flatMap_value_settled p
      _ = env.substitute t := rfl

/-- One variable. -/
def oneVariable : Environment := [(['a'], ['x'])]

/-- Next to a dollar sign, a placeholder without a value and an empty one, a
placeholder is replaced once and for all; and with no variables nothing is. -/
theorem substitute_single_pass_neighbours :
    oneVariable.substitute "$$\x7ba\x7d$\x7bb\x7d$\x7b\x7d".toList =
        "$x$\x7bb\x7d$\x7b\x7d".toList ∧
      oneVariable.substitute (oneVariable.substitute "$$\x7ba\x7d$\x7bb\x7d$\x7b\x7d".toList) =
        oneVariable.substitute "$$\x7ba\x7d$\x7bb\x7d$\x7b\x7d".toList ∧
      substitute [] "$$\x7ba\x7d$\x7bb\x7d$\x7b\x7d".toList =
        "$$\x7ba\x7d$\x7bb\x7d$\x7b\x7d".toList := by
  obtain ⟨ps, hcut, -, -, -, htwice⟩ :=
    substitute_single_pass oneVariable "$$\x7ba\x7d$\x7bb\x7d$\x7b\x7d".toList
  obtain ⟨qs, -, -, -, hstays, -⟩ :=
    substitute_single_pass [] "$$\x7ba\x7d$\x7bb\x7d$\x7b\x7d".toList
  have hpieces : ps = [char '$', placeholder ['a'], placeholder ['b'],
      char '$', char '\x7b', char '\x7d'] :=
    (isCut_iff.mp hcut).symm.trans (by decide +kernel)
  refine ⟨by decide +kernel, htwice fun name v hname hvalue => ?_, hstays fun _ _ => rfl⟩
  rw [hpieces] at hname
  have hnames : name = ['a'] ∨ name = ['b'] := by simpa using hname
  rcases hnames with rfl | rfl
  · obtain rfl : ['x'] = v := Option.some.inj hvalue
    exact ⟨by decide, by decide, by decide⟩
  · cases hvalue

/-- An empty value lets what stands around it come together, and a second
substitution finds it. -/
example :
    let env : Environment := [(['a'], []), (['b'], ['x'])]
    env.substitute "$$\x7ba\x7d\x7bb\x7d".toList = "$\x7bb\x7d".toList ∧
      env.substitute "$\x7bb\x7d".toList = ['x'] := by decide +kernel

end Environment

end StraightLine
