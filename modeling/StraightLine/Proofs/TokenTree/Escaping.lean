import Mathlib.Algebra.Group.Nat.Even
import StraightLine.Proofs.TokenTree.Legible

/-!
# Escaping — texts between quotes

A text is put between quotes by two passes over it, the second of which also
goes over the backslashes that the first has put in. It comes to one pass, in
which every character is written for itself (`escapeLabel_eq_flatMap`). So what
is written can be read back character by character, and everything else is
refused (`unescape?_eq_some_iff`).

A quote ends a text unless a backslash takes it, that is, when the backslashes
right in front of it are paired among themselves. Escaped characters leave none
over (`quoteEnds_escaped_append`), so the first quote that ends an escaped text is
the one put behind it (`prefix_of_quoteEnds`). **`escapeLabel_reversible`** puts
both together.
-/

namespace StraightLine

namespace TokenTree

variable {s t front back : Text} {c : Char}

/-! ## One pass -/

/-- A character between quotes. -/
def escaped (c : Char) : Text :=
  if c = '\\' then ['\\', '\\'] else if c = '"' then ['\\', '"'] else [c]

/-- **Two passes are one**: the second finds no quote that the first has put in,
and leaves its backslashes alone. -/
theorem escapeLabel_eq_flatMap (s : Text) : escapeLabel s = s.flatMap escaped := by
  induction s with
  | nil => rfl
  | cons c s ih => rw [escapeLabel_cons, ih, List.flatMap_cons, escaped]

theorem escapeLabel_escaped (c : Char) (s : Text) :
    escapeLabel (c :: s) = escaped c ++ escapeLabel s :=
  escapeLabel_cons c s

/-- A character is a backslash, a quote, or written as it is. -/
theorem escaped_cases (c : Char) :
    c = '\\' ∧ escaped c = ['\\', '\\'] ∨ c = '"' ∧ escaped c = ['\\', '"'] ∨
      (c ≠ '\\' ∧ c ≠ '"') ∧ escaped c = [c] := by
  by_cases hb : c = '\\'
  · subst hb
    exact .inl ⟨rfl, rfl⟩
  · by_cases hq : c = '"'
    · subst hq
      exact .inr (.inl ⟨rfl, rfl⟩)
    · exact .inr (.inr ⟨⟨hb, hq⟩, by rw [escaped, if_neg hb, if_neg hq]⟩)

/-! ## Reading back -/

/-- Reads an escaped text. A backslash says that a backslash or a quote follows,
and neither of them stands alone; what is not written so is refused. -/
def unescape? : Text → Option Text
  | [] => some []
  | '\\' :: c :: t => if c = '\\' ∨ c = '"' then (unescape? t).map (c :: ·) else none
  | c :: t => if c = '\\' ∨ c = '"' then none else (unescape? t).map (c :: ·)

theorem unescape?_escaped_append (c : Char) (t : Text) :
    unescape? (escaped c ++ t) = (unescape? t).map (c :: ·) := by
  obtain ⟨rfl, hc⟩ | ⟨rfl, hc⟩ | ⟨⟨hb, hq⟩, hc⟩ := escaped_cases c
  · rw [hc, List.cons_append, List.singleton_append, unescape?, if_pos (.inl rfl)]
  · rw [hc, List.cons_append, List.singleton_append, unescape?, if_pos (.inr rfl)]
  · rw [hc, List.singleton_append, unescape?, if_neg (not_or.mpr ⟨hb, hq⟩)]
    rintro _ _ rfl
    exact absurd rfl hb

theorem unescape?_escapeLabel (s : Text) : unescape? (escapeLabel s) = some s := by
  induction s with
  | nil => rfl
  | cons c s ih => rw [escapeLabel_escaped, unescape?_escaped_append, ih, Option.map_some]

/-- What is read starts with an escaped character. -/
theorem eq_escapeLabel_of_unescape? (h : unescape? t = some s) : t = escapeLabel s := by
  induction t using unescape?.induct generalizing s with
  | case1 =>
    obtain rfl := Option.some.inj h
    rfl
  | case2 c t hc ih =>
    rw [unescape?, if_pos hc] at h
    obtain ⟨r, hr, rfl⟩ := Option.map_eq_some_iff.mp h
    rw [escapeLabel_escaped, ← ih hr]
    rcases hc with rfl | rfl
    · rfl
    · rfl
  | case3 c t hc =>
    rw [unescape?, if_neg hc] at h
    cases h
  | case4 c t hbackslash hc =>
    rw [unescape?, if_pos hc] at h
    · cases h
    · exact hbackslash
  | case5 c t hbackslash hc ih =>
    rw [unescape?, if_neg hc] at h
    · obtain ⟨r, hr, rfl⟩ := Option.map_eq_some_iff.mp h
      obtain ⟨hb, hq⟩ := not_or.mp hc
      rw [escapeLabel_escaped, ← ih hr, escaped, if_neg hb, if_neg hq, List.singleton_append]
    · exact hbackslash

/-- **Exactly the escaped texts are read**, each as what it was made from. -/
theorem unescape?_eq_some_iff : unescape? t = some s ↔ t = escapeLabel s :=
  ⟨eq_escapeLabel_of_unescape?, fun h => h ▸ unescape?_escapeLabel s⟩

/-! ## The quote at the end -/

/-- The backslashes at the end of a text. -/
def backslashesAtEnd (t : Text) : Text := t.reverse.takeWhile (· == '\\')

/-- **A quote behind a text ends it**, since the backslashes in front of the quote
are paired among themselves. -/
def QuoteEnds (front : Text) : Prop := Even (backslashesAtEnd front).length

theorem quoteEnds_nil : QuoteEnds [] := Even.zero

/-- A backslash alone takes the quote behind it. -/
theorem not_quoteEnds_backslash : ¬ QuoteEnds ['\\'] := Nat.not_even_one

/-- What stands in front of another character makes no difference. -/
theorem quoteEnds_append_cons (hc : c ≠ '\\') (s t : Text) :
    QuoteEnds (s ++ c :: t) ↔ QuoteEnds t := by
  have hsplit : (s ++ c :: t).reverse = t.reverse ++ (c :: s.reverse) := by simp
  have hlast : backslashesAtEnd (s ++ c :: t) = backslashesAtEnd t := by
    rw [backslashesAtEnd, backslashesAtEnd, hsplit, List.takeWhile_append,
      List.takeWhile_cons_of_neg (by simpa using hc), List.append_nil]
    split
    · rename_i hall
      exact ((List.takeWhile_prefix _).eq_of_length hall).symm
    · rfl
  rw [QuoteEnds, QuoteEnds, hlast]

/-- Nor do two backslashes, which are a pair. -/
theorem quoteEnds_backslashes (t : Text) : QuoteEnds ('\\' :: '\\' :: t) ↔ QuoteEnds t := by
  have hsplit : ('\\' :: '\\' :: t).reverse = t.reverse ++ ['\\', '\\'] := by simp
  rw [QuoteEnds, QuoteEnds, backslashesAtEnd, backslashesAtEnd, hsplit, List.takeWhile_append]
  split
  · rename_i hall
    rw [List.length_append, hall]
    exact Nat.even_add.trans (iff_true_right (by decide))
  · rfl

/-- **An escaped character** leaves no backslash over. -/
theorem quoteEnds_escaped_append (c : Char) (t : Text) :
    QuoteEnds (escaped c ++ t) ↔ QuoteEnds t := by
  obtain ⟨-, hc⟩ | ⟨-, hc⟩ | ⟨⟨hb, -⟩, hc⟩ := escaped_cases c
  · rw [hc]
    exact quoteEnds_backslashes t
  · rw [hc]
    exact quoteEnds_append_cons (by decide) ['\\'] t
  · rw [hc]
    exact quoteEnds_append_cons hb [] t

theorem quoteEnds_escapeLabel (s : Text) : QuoteEnds (escapeLabel s) := by
  induction s with
  | nil => exact quoteEnds_nil
  | cons c s ih =>
    rw [escapeLabel_escaped, quoteEnds_escaped_append]
    exact ih

/-- No quote in an escaped character ends a text. -/
theorem not_quoteEnds_of_escaped (h : escaped c = front ++ '"' :: back) : ¬ QuoteEnds front := by
  have hmem : '"' ∈ escaped c := h ▸ List.mem_append_right front List.mem_cons_self
  obtain ⟨-, hc⟩ | ⟨-, hc⟩ | ⟨⟨-, hq⟩, hc⟩ := escaped_cases c
  · rw [hc] at hmem
    exact absurd hmem (by decide)
  · -- the backslash in front of it is alone
    rw [hc] at h
    rcases front with - | ⟨x, - | ⟨y, front⟩⟩
    · cases h
    · obtain ⟨rfl, -⟩ := List.cons.inj h
      exact not_quoteEnds_backslash
    · simp at h
  · rw [hc] at hmem
    exact absurd (List.mem_singleton.mp hmem).symm hq

/-- So a quote that does stands behind it. -/
theorem exists_of_escaped_append (h : escaped c ++ t = front ++ '"' :: back)
    (hends : QuoteEnds front) : ∃ rest, front = escaped c ++ rest ∧ t = rest ++ '"' :: back := by
  obtain ⟨rest, hfront, ht⟩ | ⟨rest, hc, hrest⟩ := List.append_eq_append_iff.mp h
  · exact ⟨rest, hfront, ht⟩
  · cases rest with
    | nil => exact ⟨[], by rw [hc, List.append_nil, List.append_nil], hrest.symm⟩
    | cons x rest =>
      obtain ⟨rfl, -⟩ := List.cons.inj hrest
      exact absurd hends (not_quoteEnds_of_escaped hc)

/-- **The first quote that ends** an escaped text is the one put behind it. -/
theorem prefix_of_quoteEnds (h : escapeLabel s ++ '"' :: t = front ++ '"' :: back)
    (hends : QuoteEnds front) : escapeLabel s <+: front := by
  induction s generalizing front with
  | nil => exact List.nil_prefix
  | cons c s ih =>
    rw [escapeLabel_escaped, List.append_assoc] at h
    obtain ⟨rest, rfl, hrest⟩ := exists_of_escaped_append h hends
    rw [escapeLabel_escaped, List.prefix_append_right_inj]
    exact ih hrest ((quoteEnds_escaped_append c rest).mp hends)

/-- **Escaping is reversible, and nothing breaks out of the quotes.** The two passes
over a text come to one, from left to right, in which a backslash is written as
two and a quote as a backslash and a quote. What is written is read back as the
text, and nothing else is. And with a quote and any text behind it, it is
scanned up to that quote: it is the first quote whose backslashes are paired. -/
theorem escapeLabel_reversible (s : Text) :
    escapeLabel s = s.flatMap escaped ∧ (∀ t, unescape? t = some s ↔ t = escapeLabel s) ∧
      ∀ t, unquote (escapeLabel s ++ '"' :: t) = some (s, t) ∧ QuoteEnds (escapeLabel s) ∧
        ∀ front back, escapeLabel s ++ '"' :: t = front ++ '"' :: back → QuoteEnds front →
          escapeLabel s <+: front := by
  refine ⟨escapeLabel_eq_flatMap s, fun t => unescape?_eq_some_iff, fun t => ?_⟩
  exact ⟨unquote_escapeLabel s t, quoteEnds_escapeLabel s, fun front back => prefix_of_quoteEnds⟩

/-- A backslash at the end, and a quote inside that looks like the last one. -/
theorem escapeLabel_reversible_backslash :
    unescape? "\\\"\\\\".toList = some "\"\\".toList ∧
      unquote "\\\"\\\\\" -> 9".toList = some ("\"\\".toList, " -> 9".toList) ∧
      ∀ front back, "\\\"\\\\\" -> 9".toList = front ++ '"' :: back → QuoteEnds front →
        "\\\"\\\\".toList <+: front := by
  obtain ⟨-, hread, hscan⟩ := escapeLabel_reversible "\"\\".toList
  obtain ⟨hunquote, -, hfirst⟩ := hscan " -> 9".toList
  exact ⟨(hread _).mpr (by decide), hunquote, hfirst⟩

end TokenTree

end StraightLine
