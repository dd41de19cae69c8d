import Mathlib.Data.List.Basic
import StraightLine.Proofs.Lexer.Rules

/-!
# Choice — the longest token, the first on a tie

Tokens are compared by their length, and the earlier one wins a tie. So the
longest of some tokens is as long as each of them and longer than each before
it (`length_le_of_longest`, `shorter_before_of_longest`). To take the longest in
every part of a list, and then the longest of these, comes to the same
(`longest_flatMap`): a lexicon that asks its rules kind by kind takes the token
that it would take of all that they find, told by kinds as they are asked for
and within a kind as its rules were registered (`tokenOf?_eq_longest`).
-/

namespace StraightLine

/-! ## The longest of some tokens -/

/-- What stands in a joined list stands in one of its parts. -/
theorem exists_part_of_flatMap_eq {α β : Type} {f : α → List β} {l : List α}
    {before after : List β} {b : β} (h : l.flatMap f = before ++ b :: after) :
    ∃ front a back start rest, l = front ++ a :: back ∧ f a = start ++ b :: rest ∧
      before = front.flatMap f ++ start := by
  induction l generalizing before with
  | nil => cases before <;> cases h
  | cons a l ih =>
    rw [List.flatMap_cons] at h
    rcases List.append_eq_append_iff.mp h with ⟨rest, rfl, hrest⟩ | ⟨part, hpart, htail⟩
    · obtain ⟨front, a', back, start, rest', rfl, ha', rfl⟩ := ih hrest
      exact ⟨a :: front, a', back, start, rest', rfl, ha', by simp⟩
    · rcases part with - | ⟨b', part⟩
      · rw [List.append_nil] at hpart
        obtain ⟨front, a', back, start, rest', rfl, ha', hnil⟩ := @ih [] htail.symm
        refine ⟨a :: front, a', back, start, rest', rfl, ha', ?_⟩
        rw [List.flatMap_cons, List.append_assoc, ← hnil, List.append_nil, hpart]
      · obtain ⟨rfl, -⟩ := List.cons.inj htail
        exact ⟨[], a, l, before, part, rfl, hpart, by simp⟩

namespace Token

variable {ts us : List Token} {t u : Token} {best : Option Token}

/-- The longer of two tokens is as long as both. -/
theorem length_le_of_longer (h : longer best u = some t) :
    u.length ≤ t.length ∧ ∀ b, best = some b → b.length ≤ t.length := by
  unfold longer at h
  split at h
  · obtain rfl := Option.some.inj h
    exact ⟨le_rfl, by simp⟩
  · rename_i b
    split at h
    · rename_i hlt
      obtain rfl := Option.some.inj h
      refine ⟨le_rfl, fun b' hb => ?_⟩
      obtain rfl := Option.some.inj hb
      omega
    · rename_i hge
      obtain rfl := Option.some.inj h
      refine ⟨by omega, fun b' hb => ?_⟩
      obtain rfl := Option.some.inj hb
      exact le_rfl

theorem length_le_of_foldl_longer (h : ts.foldl longer best = some t) :
    (∀ b, best = some b → b.length ≤ t.length) ∧ ∀ u ∈ ts, u.length ≤ t.length := by
  induction ts generalizing best with
  | nil =>
    refine ⟨fun b hb => ?_, by simp⟩
    obtain rfl := Option.some.inj (hb.symm.trans h)
    exact le_rfl
  | cons u ts ih =>
    obtain ⟨hbest, hall⟩ := ih h
    obtain ⟨m, hm⟩ := Option.isSome_iff_exists.mp (isSome_longer best u)
    obtain ⟨hu, hb⟩ := length_le_of_longer hm
    have hmt := hbest m hm
    exact ⟨fun b h => (hb b h).trans hmt, List.forall_mem_cons.mpr ⟨hu.trans hmt, hall⟩⟩

/-- **The longest of some tokens is as long as each of them.** -/
theorem length_le_of_longest (h : longest ts = some t) (hu : u ∈ ts) : u.length ≤ t.length :=
  (length_le_of_foldl_longer h).2 u hu

/-- All that stands in front of the token taken is shorter. -/
theorem shorter_before_of_foldl_longer (h : ts.foldl longer best = some t) :
    best = some t ∨ ∃ before after, ts = before ++ t :: after ∧
      (∀ u ∈ before, u.length < t.length) ∧ ∀ b, best = some b → b.length < t.length := by
  induction ts generalizing best with
  | nil => exact .inl h
  | cons u ts ih =>
    rcases ih h with hbest | ⟨before, after, rfl, hbefore, hbest⟩
    · unfold longer at hbest
      split at hbest
      · obtain rfl := Option.some.inj hbest
        exact .inr ⟨[], ts, rfl, by simp, by simp⟩
      · rename_i b
        split at hbest
        · rename_i hlt
          obtain rfl := Option.some.inj hbest
          refine .inr ⟨[], ts, rfl, by simp, fun b' hb => ?_⟩
          rwa [← Option.some.inj hb]
        · exact .inl hbest
    · -- the better of the two in front is shorter, and so are both
      obtain ⟨m, hm⟩ := Option.isSome_iff_exists.mp (isSome_longer best u)
      obtain ⟨hu, hb⟩ := length_le_of_longer hm
      have hlt := hbest m hm
      exact .inr ⟨u :: before, after, rfl,
        List.forall_mem_cons.mpr ⟨hu.trans_lt hlt, hbefore⟩, fun b h => (hb b h).trans_lt hlt⟩

/-- **The longest token** comes before all that are as long. -/
theorem shorter_before_of_longest (h : longest ts = some t) :
    ∃ before after, ts = before ++ t :: after ∧ ∀ u ∈ before, u.length < t.length := by
  rcases shorter_before_of_foldl_longer h with hnone | ⟨before, after, heq, hbefore, -⟩
  · cases hnone
  · exact ⟨before, after, heq, hbefore⟩

theorem longest_eq_none_iff : longest ts = none ↔ ts = [] := by
  constructor
  · intro h
    by_contra hne
    obtain ⟨t, ht⟩ := List.exists_mem_of_ne_nil ts hne
    have hsome := isSome_longest ht
    rw [h] at hsome
    cases hsome
  · rintro rfl
    rfl

/-- Of three tokens it does not matter which two are compared first. -/
theorem longer_longer (best : Option Token) (u t : Token) :
    longer (longer best u) t = if u.length < t.length then longer best t else longer best u := by
  rcases best with - | b
  · rfl
  · by_cases hbu : b.length < u.length
    · simp only [longer, if_pos hbu]
      by_cases hut : u.length < t.length
      · have hbt : b.length < t.length := by omega
        rw [if_pos hut, if_pos hut, if_pos hbt]
      · rw [if_neg hut, if_neg hut]
    · simp only [longer, if_neg hbu]
      by_cases hut : u.length < t.length
      · rw [if_pos hut]
      · have hbt : ¬ b.length < t.length := by omega
        rw [if_neg hut, if_neg hbt]

/-- Tokens compared with another one, one after the other: their longest is. -/
theorem foldl_longer (best : Option Token) (ts : List Token) :
    ts.foldl longer best = (longest ts).toList.foldl longer best := by
  cases ts with
  | nil => rfl
  | cons u ts =>
    change ts.foldl longer (longer best u) = (ts.foldl longer (some u)).toList.foldl longer best
    -- the longest so far of the tokens alone, whatever it is compared with
    induction ts generalizing u with
    | nil => rfl
    | cons t ts ih =>
      have hu : longer (some u) t = if u.length < t.length then some t else some u := rfl
      rw [List.foldl_cons, List.foldl_cons, longer_longer, hu]
      split
      · exact ih t
      · exact ih u

/-- **The longest of the longest** in every part is the longest of all. -/
theorem longest_flatMap {α : Type} (f : α → List Token) (as : List α) :
    longest (as.flatMap f) = longest (as.filterMap fun a => longest (f a)) := by
  suffices ∀ best, (as.flatMap f).foldl longer best =
      (as.filterMap fun a => longest (f a)).foldl longer best from this none
  induction as with
  | nil => exact fun best => rfl
  | cons a as ih =>
    intro best
    rw [List.flatMap_cons, List.foldl_append, ih, foldl_longer best (f a)]
    rcases ha : longest (f a) with - | m
    · rw [List.filterMap_cons, ha]
      rfl
    · rw [List.filterMap_cons, ha]
      rfl

end Token

/-! ## Kinds and rules -/

namespace Lexicon

variable {x x' : Lexicon} {kinds : List TokenKind} {ahead : Text} {place : Place} {r : Rule}
  {t u tok : Token}

/-- **No rule finds more** than the token that is taken. -/
theorem length_le_of_tokenOf? (h : x.tokenOf? kinds ahead place = some tok) (hr : r ∈ x.rules)
    (hkind : r.kind ∈ kinds) (hu : r.token? ahead place = some u) : u.length ≤ tok.length :=
  Token.length_le_of_longest h
    (List.mem_flatMap.mpr ⟨r.kind, hkind, mem_found_of_token? hr hu⟩)

/-- **No kind before that of the token** has a rule that finds as much. -/
theorem first_of_tokenOf? (h : x.tokenOf? kinds ahead place = some tok) :
    ∃ before after, kinds = before ++ tok.kind :: after ∧
      ∀ r ∈ x.rules, r.kind ∈ before → ∀ u, r.token? ahead place = some u →
        u.length < tok.length := by
  obtain ⟨front, back, heq, hfront⟩ := Token.shorter_before_of_longest h
  obtain ⟨before, kind, after, start, rest, rfl, htok, rfl⟩ := exists_part_of_flatMap_eq heq
  have hkind : tok.kind = kind := by
    have hmem : tok ∈ (found x.rules ahead place).filter fun t => t.kind = kind := by
      rw [htok]
      simp
    simpa using (List.mem_filter.mp hmem).2
  refine ⟨before, after, by rw [hkind], fun r hr hmem u hu => hfront u ?_⟩
  exact List.mem_append_left start
    (List.mem_flatMap.mpr ⟨r.kind, hmem, mem_found_of_token? hr hu⟩)

/-- The token of some kinds is of one of them, and found by a rule of it. -/
theorem exists_wanted_rule (h : x.tokenOf? kinds ahead place = some tok) :
    ∃ r ∈ x.rules, r.kind ∈ kinds ∧ r.token? ahead place = some tok := by
  obtain ⟨r, hr, htok⟩ := exists_rule_of_tokenOf? h
  obtain ⟨before, after, hkinds, -⟩ := first_of_tokenOf? h
  have hkind : tok.kind = r.kind := (Rule.token?_eq_some htok).1
  refine ⟨r, hr, ?_, htok⟩
  rw [hkinds, hkind]
  exact List.mem_append_right before List.mem_cons_self

/-- What the rules of a kind find are the tokens of this kind that are found. -/
theorem found_rulesOf (x : Lexicon) (kind : TokenKind) (ahead : Text) (place : Place) :
    found (x.rulesOf kind) ahead place =
      (found x.rules ahead place).filter fun t => t.kind = kind := by
  rw [found, rulesOf, List.filterMap_filter, found, List.filter_filterMap]
  refine List.filterMap_congr fun r _ => ?_
  rcases hu : r.token? ahead place with - | u
  · simp
  · have hkind : u.kind = r.kind := (Rule.token?_eq_some hu).1
    simp only [Option.filter_some, hkind]

/-- **Kind by kind**: the longest token of some kinds is the longest of those
that each of them has for its longest. -/
theorem tokenOf?_eq_longest (x : Lexicon) (kinds : List TokenKind) (ahead : Text)
    (place : Place) :
    x.tokenOf? kinds ahead place =
      Token.longest (kinds.filterMap fun kind => x.token? kind ahead place) := by
  simp only [tokenOf?, ← found_rulesOf, Token.longest_flatMap, token?]

/-- So all that matters is which rules each kind has, in their order. -/
theorem tokenOf?_congr (h : ∀ kind, x.rulesOf kind = x'.rulesOf kind) (kinds : List TokenKind)
    (ahead : Text) (place : Place) :
    x.tokenOf? kinds ahead place = x'.tokenOf? kinds ahead place := by
  simp only [tokenOf?_eq_longest, token?, h]

end Lexicon

end StraightLine
