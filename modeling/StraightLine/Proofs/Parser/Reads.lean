import StraightLine.Parser.Basic
import StraightLine.Proofs.Text.Blank

/-!
# Reading — what a parser takes, and what it must not overlook

`Reads p D E` ties a parser to a relation between texts and results. Whatever
the parser takes is a text of `D`; and a text of `D` in front of one that `E`
admits is taken to its end, the blanks behind it included. A parser that
skips blanks gives the same answer with or without blanks in front, so in a
sequence it does not matter to which part the blanks between two belong.

Each combinator keeps the property; the grammar is built from these lemmas.
-/

namespace StraightLine

namespace Parser

variable {α β : Type} {p : Parser α} {q : Parser β}
variable {L D : Text → α → Prop} {D' : Text → β → Prop} {E E' : Text → Prop}

/-- **A parser of lexemes** takes exactly the texts of `L`, none of which
starts with a blank, wherever `E` holds behind them. -/
structure Takes (p : Parser α) (L : Text → α → Prop) (E : Text → Prop) : Prop where
  sound {t rest : Text} {a : α} : p t = .ok (a, rest) → ∃ l, t = l ++ rest ∧ L l a
  complete {l r : Text} {a : α} : L l a → E r → p (l ++ r) = .ok (a, r)
  nonblank {l : Text} {a : α} : L l a → ∃ c t, l = c :: t ∧ isBlank c = false

/-- **A parser that skips blanks** takes exactly the texts of `D`, wherever
`E` holds behind them, and leaves no blank in front of the rest. -/
structure Reads (p : Parser α) (D : Text → α → Prop) (E : Text → Prop) : Prop where
  sound {t rest : Text} {a : α} : p t = .ok (a, rest) → ∃ s, t = s ++ rest ∧ D s a
  trimmed {t rest : Text} {a : α} : p t = .ok (a, rest) → rest.trimStart = rest
  complete {s r : Text} {a : α} : D s a → E r → p (s ++ r) = .ok (a, r.trimStart)
  skips (t : Text) : p t.trimStart = p t

/-! ## What a success says

One equivalence for each combinator; everything below reads successes off
these. -/

theorem map_eq_ok {f : α → β} {t rest : Text} {b : β} :
    map f p t = .ok (b, rest) ↔ ∃ a, p t = .ok (a, rest) ∧ f a = b := by
  simp only [map]
  rcases p t with e | ⟨a, rest'⟩
  · simp
  · simp only [Except.ok.injEq, Prod.mk.injEq]
    constructor
    · rintro ⟨rfl, rfl⟩
      exact ⟨a, ⟨rfl, rfl⟩, rfl⟩
    · rintro ⟨_, ⟨rfl, rfl⟩, rfl⟩
      exact ⟨rfl, rfl⟩

theorem test_eq_ok {holds : α → Bool} {message t rest : Text} {a : α} :
    test p holds message t = .ok (a, rest) ↔ p t = .ok (a, rest) ∧ holds a = true := by
  simp only [test]
  rcases p t with e | ⟨a', rest'⟩
  · simp
  · by_cases ha : holds a' = true
    · simp only [ha, if_true, Except.ok.injEq, Prod.mk.injEq]
      constructor
      · rintro ⟨rfl, rfl⟩
        exact ⟨⟨rfl, rfl⟩, ha⟩
      · exact fun h => h.1
    · simp only [ha, Bool.false_eq_true, if_false, Except.ok.injEq, Prod.mk.injEq, reduceCtorEq,
        false_iff, not_and]
      rintro ⟨rfl, rfl⟩
      exact ha

theorem andThen_eq_ok {f : α → Except ParseError β} {t rest : Text} {b : β} :
    andThen p f t = .ok (b, rest) ↔ ∃ a, p t = .ok (a, rest) ∧ f a = .ok b := by
  constructor
  · intro h
    simp only [andThen] at h
    split at h
    · rename_i a u hp
      split at h
      · rename_i b' hf
        obtain ⟨rfl, rfl⟩ := Prod.mk.inj (Except.ok.inj h)
        exact ⟨a, hp, hf⟩
      · cases h
    · cases h
  · rintro ⟨a, hp, hf⟩
    simp only [andThen, hp, hf]

theorem lexeme_eq_ok {read : Text → Option (Text × Text)} {message : String} {t : Text}
    {r : Text × Text} : lexeme read message t = .ok r ↔ read t = some r := by
  simp only [lexeme]
  rcases read t with - | r'
  · simp
  · simp

theorem pair_eq_ok {t rest : Text} {r : α × β} :
    pair p q t = .ok (r, rest) ↔ ∃ u, p t = .ok (r.1, u) ∧ q u = .ok (r.2, rest) := by
  constructor
  · intro h
    simp only [pair] at h
    split at h
    · cases h
    · rename_i a u hp
      split at h
      · cases h
      · rename_i b rest' hq
        obtain ⟨rfl, rfl⟩ := Prod.mk.inj (Except.ok.inj h)
        exact ⟨u, hp, hq⟩
  · rintro ⟨u, hp, hq⟩
    simp only [pair, hp, hq]

theorem firstOf_cons_eq_ok {ps : List (Parser α)} {e : ParseError} {t rest : Text} {a : α}
    (h : firstOf e (p :: ps) t = .ok (a, rest)) :
    p t = .ok (a, rest) ∨ ∃ e', p t = .error e' ∧ firstOf e' ps t = .ok (a, rest) := by
  simp only [firstOf] at h
  rcases hp : p t with e' | r
  · exact .inr ⟨e', rfl, by simpa only [hp] using h⟩
  · exact .inl (by simpa only [hp] using h)

theorem skipBlanks_eq (p : Parser α) (t : Text) :
    skipBlanks p t =
      match p t.trimStart with
      | .ok (a, rest) => .ok (a, rest.trimStart)
      | .error e => .error e := by
  simp only [skipBlanks, surroundedBy, triple, map, pair, blanks, Text.trimStart]
  rcases p (List.dropWhile isBlank t) with e | ⟨a, rest⟩
  · rfl
  · rfl

theorem skipBlanks_eq_ok {t rest : Text} {a : α} :
    skipBlanks p t = .ok (a, rest) ↔
      ∃ u, p t.trimStart = .ok (a, u) ∧ u.trimStart = rest := by
  rw [skipBlanks_eq]
  rcases p t.trimStart with e | ⟨a', u⟩
  · simp
  · simp only [Except.ok.injEq, Prod.mk.injEq]
    constructor
    · rintro ⟨rfl, rfl⟩
      exact ⟨u, ⟨rfl, rfl⟩, rfl⟩
    · rintro ⟨_, ⟨rfl, rfl⟩, rfl⟩
      exact ⟨rfl, rfl⟩

/-- What fails on the lexeme fails with blanks in front. -/
theorem skipBlanks_error {t : Text} {e : ParseError} (h : p t.trimStart = .error e) :
    skipBlanks p t = .error e := by rw [skipBlanks_eq, h]

/-! ## Blanks around a lexeme -/

theorem trimStart_spaced {l s : Text} {c : Char} {t : Text} (hs : Text.Spaced l s)
    (hl : l = c :: t) (hc : isBlank c = false) (r : Text) :
    ∃ b, b.Blank ∧ (s ++ r).trimStart = l ++ (b ++ r) := by
  obtain @⟨b, b', hb, hb'⟩ := hs
  refine ⟨b', hb', ?_⟩
  rw [List.append_assoc, List.append_assoc, Text.trimStart_append hb, hl, List.cons_append,
    Text.trimStart_cons hc]

/-- **Blanks may stand around every lexeme.** -/
theorem Takes.skipBlanks (h : Takes p L E) (hE : ∀ {b r : Text}, b.Blank → E r → E (b ++ r)) :
    Reads (skipBlanks p) (fun s a => ∃ l, L l a ∧ Text.Spaced l s) E where
  sound {t rest a} ht := by
    obtain ⟨u, hu, rfl⟩ := skipBlanks_eq_ok.mp ht
    obtain ⟨l, heq, hl⟩ := h.sound hu
    have hfront := Text.takeWhile_append_trimStart t
    have hback := Text.takeWhile_append_trimStart u
    refine ⟨t.takeWhile isBlank ++ (l ++ u.takeWhile isBlank), ?_, l, hl,
      .mk (Text.blank_takeWhile t) (Text.blank_takeWhile u)⟩
    rw [List.append_assoc, List.append_assoc, hback, ← heq, hfront]
  trimmed {t rest a} ht := by
    obtain ⟨u, -, rfl⟩ := skipBlanks_eq_ok.mp ht
    exact Text.trimStart_trimStart u
  complete {s r a} hs hr := by
    obtain ⟨l, hl, hsp⟩ := hs
    obtain ⟨c, t, hct, hc⟩ := h.nonblank hl
    obtain ⟨b, hb, heq⟩ := trimStart_spaced hsp hct hc r
    -- the lexeme is followed by its own blanks first, so `E` has to admit those
    exact skipBlanks_eq_ok.mpr
      ⟨b ++ r, by rw [heq, h.complete hl (hE hb hr)], Text.trimStart_append hb r⟩
  skips t := by rw [skipBlanks_eq, skipBlanks_eq, Text.trimStart_trimStart]

/-! ## One parser -/

/-- A parser fails unless it succeeds. -/
theorem exists_error {t : Text} (h : ∀ r, p t ≠ .ok r) : ∃ e, p t = .error e := by
  rcases hp : p t with e | r
  · exact ⟨e, rfl⟩
  · exact absurd hp (h r)

/-- Less may stand behind. -/
theorem Reads.mono (h : Reads p D E) {E₁ : Text → Prop} (hE : ∀ {r}, E₁ r → E r) :
    Reads p D E₁ where
  sound := h.sound
  trimmed := h.trimmed
  complete hs hr := h.complete hs (hE hr)
  skips := h.skips

/-- Only the relation matters. -/
theorem Reads.congr (h : Reads p D E) {D₁ : Text → α → Prop} (hD : ∀ s a, D s a ↔ D₁ s a) :
    Reads p D₁ E where
  sound ht := by
    obtain ⟨s, hs, hd⟩ := h.sound ht
    exact ⟨s, hs, (hD _ _).mp hd⟩
  trimmed := h.trimmed
  complete hs hr := h.complete ((hD _ _).mpr hs) hr
  skips := h.skips

theorem Reads.map (h : Reads p D E) (f : α → β) :
    Reads (map f p) (fun s b => ∃ a, D s a ∧ f a = b) E where
  sound ht := by
    obtain ⟨a, ha, hf⟩ := map_eq_ok.mp ht
    obtain ⟨s, hs, hd⟩ := h.sound ha
    exact ⟨s, hs, a, hd, hf⟩
  trimmed ht := by
    obtain ⟨a, ha, -⟩ := map_eq_ok.mp ht
    exact h.trimmed ha
  complete {s r b} hs hr := by
    obtain ⟨a, hd, hf⟩ := hs
    exact map_eq_ok.mpr ⟨a, h.complete hd hr, hf⟩
  skips t := by simp only [Parser.map, h.skips]

theorem Reads.test (h : Reads p D E) (holds : α → Bool) (message : Text) :
    Reads (test p holds message) (fun s a => D s a ∧ holds a = true) E where
  sound ht := by
    obtain ⟨hp, ha⟩ := test_eq_ok.mp ht
    obtain ⟨s, hs, hd⟩ := h.sound hp
    exact ⟨s, hs, hd, ha⟩
  trimmed ht := h.trimmed (test_eq_ok.mp ht).1
  complete hs hr := test_eq_ok.mpr ⟨h.complete hs.1 hr, hs.2⟩
  skips t := by simp only [Parser.test, h.skips]

/-! ## Sequences -/

/-- **A sequence reads a text of the first followed by one of the second**,
provided the second never continues the first. -/
theorem Reads.pair (hp : Reads p D E) (hq : Reads q D' E')
    (hE : ∀ {s r : Text} {b : β}, D' s b → E' r → E (s ++ r)) :
    Reads (pair p q) (fun s r => ∃ s₁ s₂, s = s₁ ++ s₂ ∧ D s₁ r.1 ∧ D' s₂ r.2) E' where
  sound ht := by
    obtain ⟨u, h₁, h₂⟩ := pair_eq_ok.mp ht
    obtain ⟨s₁, hs₁, hd₁⟩ := hp.sound h₁
    obtain ⟨s₂, hs₂, hd₂⟩ := hq.sound h₂
    exact ⟨s₁ ++ s₂, by rw [hs₁, hs₂, List.append_assoc], s₁, s₂, rfl, hd₁, hd₂⟩
  trimmed ht := by
    obtain ⟨u, -, h₂⟩ := pair_eq_ok.mp ht
    exact hq.trimmed h₂
  complete {s t r} hs ht := by
    obtain ⟨s₁, s₂, rfl, hd₁, hd₂⟩ := hs
    -- the first takes the blanks in front of the second, which does not need them
    refine pair_eq_ok.mpr ⟨(s₂ ++ t).trimStart, ?_, ?_⟩
    · rw [List.append_assoc, hp.complete hd₁ (hE hd₂ ht)]
    · rw [hq.skips, hq.complete hd₂ ht]
  skips t := by simp only [Parser.pair, hp.skips]

/-! ## Choices -/

theorem reads_firstOf_nil (e : ParseError) :
    Reads (firstOf e ([] : List (Parser α))) (fun _ _ => False) E where
  sound ht := by simp [firstOf] at ht
  trimmed ht := by simp [firstOf] at ht
  complete hs := hs.elim
  skips _ := rfl

/-- **A choice reads what one of its parsers reads**, provided the first
fails on the texts of the others: it is then never preferred to the right
one. -/
theorem Reads.firstOf_cons {ps : List (Parser α)} {D₁ : Text → α → Prop} (e : ParseError)
    (hp : Reads p D E) (hps : ∀ e, Reads (firstOf e ps) D₁ E)
    (hfail : ∀ {s r : Text} {a : α}, D₁ s a → E r → ∃ e, p (s ++ r) = .error e) :
    Reads (firstOf e (p :: ps)) (fun s a => D s a ∨ D₁ s a) E where
  sound ht := by
    rcases firstOf_cons_eq_ok ht with h₁ | ⟨e', -, h₂⟩
    · obtain ⟨s, hs, hd⟩ := hp.sound h₁
      exact ⟨s, hs, .inl hd⟩
    · obtain ⟨s, hs, hd⟩ := (hps e').sound h₂
      exact ⟨s, hs, .inr hd⟩
  trimmed ht := by
    rcases firstOf_cons_eq_ok ht with h₁ | ⟨e', -, h₂⟩
    · exact hp.trimmed h₁
    · exact (hps e').trimmed h₂
  complete {s r a} hs hr := by
    simp only [firstOf]
    rcases hs with hs | hs
    · simp only [hp.complete hs hr]
    · obtain ⟨e', he'⟩ := hfail hs hr
      simp only [he', (hps e').complete hs hr]
  skips t := by
    simp only [firstOf, hp.skips]
    rcases p t with e' | ⟨a, rest⟩
    · exact (hps e').skips t
    · rfl

/-! ## Fixed texts -/

/-- A fixed text is taken wherever it stands. -/
theorem takes_literal {l t : Text} {c : Char} (hl : l = c :: t) (hc : isBlank c = false) :
    Takes (literal l) (fun s a => s = l ∧ a = l) (fun _ => True) where
  sound {t' rest a} ht := by
    simp only [literal] at ht
    rcases h : Text.after? l t' with - | rest'
    · simp only [h] at ht
      split at ht
      · cases ht
      · cases ht
    · simp only [h, Except.ok.injEq, Prod.mk.injEq] at ht
      obtain ⟨rfl, rfl⟩ := ht
      exact ⟨l, Text.eq_append_of_after? h, rfl, rfl⟩
  complete hs _ := by simp only [hs.1, hs.2, literal, Text.after?_append]
  nonblank hs := ⟨c, t, hs.1.trans hl, hc⟩

/-- A fixed text is not found where another character stands. -/
theorem literal_error {l t : Text} {c d : Char} (hl : l.head? = some c) (ht : t.head? = some d)
    (hcd : c ≠ d) : ∃ e, literal l t = .error e := by
  obtain ⟨l, rfl⟩ : ∃ l', l = c :: l' := List.head?_eq_some_iff.mp hl
  obtain ⟨t, rfl⟩ : ∃ t', t = d :: t' := List.head?_eq_some_iff.mp ht
  simp only [literal, Text.after?, if_neg hcd]
  split
  · exact ⟨_, rfl⟩
  · exact ⟨_, rfl⟩

/-- **One of several symbols**, no two of which start alike. -/
theorem reads_symbols {symbol : α → String} {ops : List α} (hnodup : ops.Nodup)
    (hhead : ∀ a ∈ ops, ∃ c, (symbol a).toList.head? = some c ∧ isBlank c = false)
    (hinj : ∀ a ∈ ops, ∀ b ∈ ops, (symbol a).toList.head? = (symbol b).toList.head? → a = b)
    (e : ParseError) :
    Reads
      (firstOf e
        (ops.map fun a => Parser.map (fun _ => a) (Parser.skipBlanks (literal (symbol a).toList))))
      (fun s a => a ∈ ops ∧ Text.Spaced (symbol a).toList s) (fun _ => True) := by
  induction ops generalizing e with
  | nil => exact (reads_firstOf_nil e).congr (by simp)
  | cons op ops ih =>
    obtain ⟨c, hc, hblank⟩ := hhead op List.mem_cons_self
    obtain ⟨l, hl⟩ := List.head?_eq_some_iff.mp hc
    have hop := ((takes_literal hl hblank).skipBlanks fun _ _ => trivial).map fun _ => op
    have hops := ih (List.nodup_cons.mp hnodup).2
      (fun a ha => hhead a (List.mem_cons_of_mem _ ha))
      (fun a ha b hb => hinj a (List.mem_cons_of_mem _ ha) b (List.mem_cons_of_mem _ hb))
    refine (hop.firstOf_cons e hops ?_).congr ?_
    · -- a symbol further on has another first character
      rintro s r a ⟨ha, hs⟩ -
      obtain ⟨d, hd, hdb⟩ := hhead a (List.mem_cons_of_mem _ ha)
      obtain ⟨l', hl'⟩ := List.head?_eq_some_iff.mp hd
      obtain ⟨b, -, heq⟩ := trimStart_spaced hs hl' hdb r
      have hcd : c ≠ d := by
        rintro rfl
        have := hinj op List.mem_cons_self a (List.mem_cons_of_mem _ ha) (hc.trans hd.symm)
        exact (List.nodup_cons.mp hnodup).1 (this ▸ ha)
      obtain ⟨e', he'⟩ := literal_error (t := (s ++ r).trimStart) hc
        (by rw [heq, hl']; rfl) hcd
      exact ⟨e', by rw [Parser.map, skipBlanks_error he']⟩
    · intro s a
      simp only [List.mem_cons]
      constructor
      · rintro (⟨_, ⟨l, ⟨rfl, rfl⟩, hs⟩, rfl⟩ | ⟨ha, hs⟩)
        · exact ⟨.inl rfl, hs⟩
        · exact ⟨.inr ha, hs⟩
      · rintro ⟨rfl | ha, hs⟩
        · exact .inl ⟨_, ⟨_, ⟨rfl, rfl⟩, hs⟩, rfl⟩
        · exact .inr ⟨ha, hs⟩

end Parser

end StraightLine
