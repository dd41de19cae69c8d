import StraightLine.Lexer.Standard
import StraightLine.Proofs.Lexeme.Shape

/-!
# Rules — what a lexicon can find

The longest of some tokens is one of them, so a token of a lexicon is the
token of one of its rules (`exists_rule_of_tokenOf?`), and a lexicon finds
nothing only when none of its rules does (`tokenOf?_isSome`). A lexicon is
`Anchored` when its rules find only what stands right ahead and never the end
of input; the standard lexicon is, and a written pattern need not be.
-/

namespace StraightLine

namespace Token

variable {ts : List Token} {t best : Token}

/-- The longer of two tokens is one of them. -/
theorem longer_eq_or (best : Option Token) (t : Token) :
    longer best t = some t ∨ longer best t = best := by
  unfold longer
  split
  · exact .inl rfl
  · split
    · exact .inl rfl
    · exact .inr rfl

theorem isSome_longer (best : Option Token) (t : Token) : (longer best t).isSome := by
  unfold longer
  split
  · rfl
  · split
    · rfl
    · rfl

theorem mem_of_foldl_longer {best : Option Token} (h : ts.foldl longer best = some t) :
    t ∈ ts ∨ best = some t := by
  induction ts generalizing best with
  | nil => exact .inr h
  | cons u ts ih =>
    rcases ih h with hmem | hbest
    · exact .inl (List.mem_cons_of_mem u hmem)
    · rcases longer_eq_or best u with hu | hold
      · obtain rfl : u = t := Option.some.inj (hu.symm.trans hbest)
        exact .inl List.mem_cons_self
      · exact .inr (hold.symm.trans hbest)

theorem mem_of_longest (h : longest ts = some t) : t ∈ ts := by
  rcases mem_of_foldl_longer h with hmem | hnone
  · exact hmem
  · cases hnone

theorem isSome_foldl_longer {best : Option Token} (h : best.isSome ∨ ts ≠ []) :
    (ts.foldl longer best).isSome := by
  induction ts generalizing best with
  | nil => exact h.resolve_right fun hne => hne rfl
  | cons u ts ih => exact ih (.inl (isSome_longer best u))

theorem isSome_longest (h : t ∈ ts) : (longest ts).isSome :=
  isSome_foldl_longer (.inr (List.ne_nil_of_mem h))

end Token

namespace Rule

variable {r : Rule} {ahead : Text} {place : Place} {t : Token}

/-- **What a rule makes of what it finds**: a token of its kind with that
text, which is not empty, at the place it was asked for. -/
theorem token?_eq_some (h : r.token? ahead place = some t) :
    t.kind = r.kind ∧ t.place = place ∧ t.value ≠ [] ∧ r.sought.find? ahead = some t.value := by
  unfold token? at h
  split at h
  · cases h
  · cases h
  · rename_i c rest hfind
    obtain rfl := Option.some.inj h
    exact ⟨rfl, rfl, List.cons_ne_nil c rest, hfind⟩

theorem token?_of_find? {v : Text} (h : r.sought.find? ahead = some v) (hv : v ≠ []) :
    r.token? ahead place = some ⟨r.kind, v, place⟩ := by
  unfold token?
  rw [h]
  cases v with
  | nil => exact absurd rfl hv
  | cons c v => rfl

end Rule

namespace Lexicon

variable {x : Lexicon} {kinds : List TokenKind} {ahead : Text} {place : Place} {t : Token}

/-- A token of a lexicon is the token of one of its rules. -/
theorem exists_rule_of_tokenOf? (h : x.tokenOf? kinds ahead place = some t) :
    ∃ r ∈ x.rules, r.token? ahead place = some t := by
  have hmem := Token.mem_of_longest h
  obtain ⟨kind, -, hkind⟩ := List.mem_flatMap.mp hmem
  exact List.mem_filterMap.mp ((List.mem_filter.mp hkind).1)

/-- What a rule finds is among the tokens of its kind. -/
theorem mem_found_of_token? {r : Rule} (hr : r ∈ x.rules) (h : r.token? ahead place = some t) :
    t ∈ (found x.rules ahead place).filter fun t => t.kind = r.kind := by
  have hfound : t ∈ found x.rules ahead place := List.mem_filterMap.mpr ⟨r, hr, h⟩
  have ht : t.kind = r.kind := (Rule.token?_eq_some h).1
  exact List.mem_filter.mpr ⟨hfound, by simpa using ht⟩

/-- What one rule of a kind finds, the lexicon does not miss. -/
theorem tokenOf?_isSome {r : Rule} (hr : r ∈ x.rules) (hkind : r.kind ∈ kinds)
    (h : r.token? ahead place = some t) : (x.tokenOf? kinds ahead place).isSome :=
  Token.isSome_longest (List.mem_flatMap.mpr ⟨r.kind, hkind, mem_found_of_token? hr h⟩)

/-- **A lexicon whose rules find what stands right ahead**, and no end of
input. -/
structure Anchored (x : Lexicon) : Prop where
  ahead : ∀ r ∈ x.rules, ∀ t v, r.sought.find? t = some v → ∃ rest, t = v ++ rest
  kind : ∀ r ∈ x.rules, r.kind ≠ .endOfInput

/-- **A token of the lexicon.** -/
def Produces (x : Lexicon) (t : Token) : Prop :=
  ∃ r ∈ x.rules, ∃ ahead, r.token? ahead t.place = some t

theorem Produces.value_ne_nil (h : x.Produces t) : t.value ≠ [] := by
  obtain ⟨r, -, ahead, h⟩ := h
  exact (Rule.token?_eq_some h).2.2.1

theorem Produces.kind_ne (hx : x.Anchored) (h : x.Produces t) : t.kind ≠ .endOfInput := by
  obtain ⟨r, hr, ahead, h⟩ := h
  rw [(Rule.token?_eq_some h).1]
  exact hx.kind r hr

/-- What an anchored lexicon finds is its own, belongs to the place asked
for, and stands right ahead. -/
theorem Anchored.tokenOf?_eq_some (hx : x.Anchored)
    (h : x.tokenOf? kinds ahead place = some t) :
    x.Produces t ∧ t.place = place ∧ ∃ rest, ahead = t.value ++ rest := by
  obtain ⟨r, hr, hr'⟩ := exists_rule_of_tokenOf? h
  obtain ⟨-, rfl, -, hfind⟩ := Rule.token?_eq_some hr'
  exact ⟨⟨r, hr, ahead, hr'⟩, rfl, hx.ahead r hr ahead t.value hfind⟩

/-- A spelling or a class, unlike a pattern, is looked for right ahead. -/
theorem exists_append_of_find? {s : Sought} (hs : ∀ a, s ≠ .pattern a) {t v : Text}
    (h : s.find? t = some v) : ∃ rest, t = v ++ rest := by
  cases s with
  | spelling text =>
    obtain ⟨rest, hrest, rfl⟩ := Option.map_eq_some_iff.mp h
    exact ⟨rest, Text.eq_append_of_after? hrest⟩
  | lexeme k =>
    obtain ⟨⟨l, rest⟩, hl, rfl⟩ := Option.map_eq_some_iff.mp h
    exact ⟨rest, (LexemeClass.lexeme?_shape hl).1⟩
  | pattern a => exact absurd rfl (hs a)

/-- **The rules of the language**: words and symbols with their spelling, and
the classes, whose kinds have to do with no bracket. -/
theorem standard_cases {r : Rule} (h : r ∈ standard.rules) :
    (∃ k : Keyword, r = .ofSpelling (.keyword k) k.spelling) ∨
      (∃ s : Symbol, r = .ofSpelling (.symbol s) s.spelling) ∨
      ∃ k, r.sought = .lexeme k ∧ r.kind ≠ .endOfInput ∧ r.kind.isOpening = false ∧
        r.kind.isClosing = false := by
  rcases List.mem_append.mp h with h | h
  · rcases List.mem_append.mp h with h | h
    · obtain ⟨k, -, rfl⟩ := List.mem_map.mp h
      exact .inl ⟨k, rfl⟩
    · refine .inr (.inr ?_)
      simp only [List.mem_cons, List.not_mem_nil, or_false] at h
      rcases h with rfl | rfl | rfl | rfl | rfl | rfl | rfl | rfl | rfl
      all_goals exact ⟨_, rfl, by decide, by decide, by decide⟩
  · obtain ⟨s, -, rfl⟩ := List.mem_map.mp h
    exact .inr (.inl ⟨s, rfl⟩)

/-- **The standard lexicon is anchored.** -/
theorem standard_anchored : standard.Anchored where
  ahead r hr t v hfind := by
    refine exists_append_of_find? ?_ hfind
    rcases standard_cases hr with ⟨k, rfl⟩ | ⟨s, rfl⟩ | ⟨k, hk, -⟩
    · rintro a ⟨⟩
    · rintro a ⟨⟩
    · rw [hk]
      rintro a ⟨⟩
  kind r hr := by
    rcases standard_cases hr with ⟨k, rfl⟩ | ⟨s, rfl⟩ | ⟨k, -, hk, -⟩
    · rintro ⟨⟩
    · rintro ⟨⟩
    · exact hk

/-- **The tokens of the language**: words and symbols with their spelling, and
lexemes of a shape and of kinds that have to do with no bracket. -/
theorem Produces.standard_cases (h : standard.Produces t) :
    (∃ k : Keyword, t.kind = .keyword k ∧ t.value = k.spelling.toList) ∨
      (∃ s : Symbol, t.kind = .symbol s ∧ t.value = s.spelling.toList) ∨
      (t.value.PlainChars ∨ t.value.head? = some '"' ∨ t.value.head? = some '\'') ∧
        t.kind ≠ .endOfInput ∧ t.kind.isOpening = false ∧ t.kind.isClosing = false := by
  obtain ⟨r, hr, ahead, htok⟩ := h
  obtain ⟨hkind, -, -, hfind⟩ := Rule.token?_eq_some htok
  rcases Lexicon.standard_cases hr with ⟨k, rfl⟩ | ⟨s, rfl⟩ | ⟨k, hk, hkinds⟩
  · obtain ⟨-, -, hvalue⟩ := Option.map_eq_some_iff.mp hfind
    exact .inl ⟨k, hkind, hvalue.symm⟩
  · obtain ⟨-, -, hvalue⟩ := Option.map_eq_some_iff.mp hfind
    exact .inr (.inl ⟨s, hkind, hvalue.symm⟩)
  · rw [hk] at hfind
    obtain ⟨⟨l, rest⟩, hl, hvalue⟩ := Option.map_eq_some_iff.mp hfind
    obtain rfl : l = t.value := hvalue
    rw [← hkind] at hkinds
    exact .inr (.inr ⟨(LexemeClass.lexeme?_shape hl).2, hkinds⟩)

end Lexicon

end StraightLine
