import StraightLine.Proofs.Lexeme.Munch

/-!
# Longest members — the readers take no less than there is

Where a member of a class stands at the start of a text, its reader takes this
member and what more the class can take (`lexeme?_append`): the last run of
letters or digits goes on as far as it can, and a closing quote ends the
lexeme. So a class takes the longest of its members that stand right ahead,
and nothing where none does (`lexeme?_eq_some_iff`, `lexeme?_eq_none_iff`).
-/

namespace StraightLine

namespace Text

variable {P : Text → Prop} {holds : Char → Bool} {run t l v w : Text} {lower upper : Char}

/-- **The longest text of a set** that another text starts with. -/
structure IsLongest (P : Text → Prop) (t v : Text) : Prop where
  holds : P v
  ahead : v <+: t
  longest : ∀ w, P w → w <+: t → w.length ≤ v.length

/-- There is only one. -/
theorem IsLongest.unique (hv : IsLongest P t v) (hw : IsLongest P t w) : v = w :=
  (List.prefix_of_prefix_length_le hv.ahead hw.ahead (hw.longest v hv.holds hv.ahead)).eq_of_length
    (le_antisymm (hw.longest v hv.holds hv.ahead) (hv.longest w hw.holds hw.ahead))

/-! ## Lexemes that end in a run -/

theorem spanSome?_run (h : Run holds run) (t : Text) :
    spanSome? holds (run ++ t) = some (run ++ t.takeWhile holds, t.dropWhile holds) := by
  rw [spanSome?, List.takeWhile_append_of_pos h.all, List.dropWhile_append_of_pos h.all,
    if_neg (by simp [h.nonempty])]

theorem nameLexeme?_member (h : NameLexeme l) (t : Text) :
    nameLexeme? (l ++ t) = some (l ++ t.takeWhile isNameChar, t.dropWhile isNameChar) := by
  obtain ⟨hc, hcs⟩ := h
  rw [List.cons_append, nameLexeme?, if_pos hc, List.takeWhile_append_of_pos hcs,
    List.dropWhile_append_of_pos hcs, List.cons_append]

theorem integerLexeme?_member {n : Int} (h : IntegerLexeme l n) (t : Text) :
    integerLexeme? (l ++ t) = some (l ++ t.takeWhile Char.isDigit, t.dropWhile Char.isDigit) := by
  have key : ∀ {minus ds : Text}, IsMinus minus → Digits ds →
      integerLexeme? (minus ++ ds ++ t) =
        some (minus ++ ds ++ t.takeWhile Char.isDigit, t.dropWhile Char.isDigit) := by
    intro minus ds hm hds
    have hmore : Digits (ds ++ t.takeWhile Char.isDigit) :=
      ⟨by simp [hds.nonempty], List.forall_mem_append.mpr ⟨hds.all, allDigits_takeWhile t⟩⟩
    have hread := integerLexeme?_signed hm hmore (startsOutside_dropWhile t)
    rw [List.append_assoc ds, List.takeWhile_append_dropWhile] at hread
    rw [List.append_assoc, hread, List.append_assoc]
  cases h with
  | plain hds => exact key (.inl rfl) hds
  | minus hds => exact key (.inr rfl) hds

theorem basedLexeme?_member (h : BasedLexeme lower upper holds l) (t : Text) :
    basedLexeme? lower upper holds (l ++ t) =
      some (l ++ t.takeWhile holds, t.dropWhile holds) := by
  obtain @⟨minus, digits, letter, hm, hl, hds⟩ := h
  have hspan : spanMinus (minus ++ '0' :: letter :: (digits ++ t)) =
      (minus, '0' :: letter :: (digits ++ t)) := spanMinus_append hm (by simp)
  rw [List.append_assoc, List.cons_append, List.cons_append]
  simp only [basedLexeme?, hspan, if_pos hl, spanSome?_run hds, behind, Option.map_some,
    List.append_assoc, List.cons_append, List.nil_append]

theorem plainFloatLexeme?_member (h : PlainFloatLexeme l) (t : Text) :
    plainFloatLexeme? (l ++ t) =
      some (l ++ t.takeWhile Char.isDigit, t.dropWhile Char.isDigit) := by
  obtain ⟨hm, hw, hp⟩ := h
  rw [List.append_assoc, List.append_assoc]
  simp only [plainFloatLexeme?, List.cons_append,
    integerLexeme?_signed hm hw (startsOutside_isDigit_point _), spanSome?_run hp.run, behind,
    Option.map_some, List.append_assoc, List.nil_append]

theorem exponentFloatLexeme?_member (h : ExponentFloatLexeme l) (t : Text) :
    exponentFloatLexeme? (l ++ t) =
      some (l ++ t.takeWhile Char.isDigit, t.dropWhile Char.isDigit) := by
  obtain @⟨mantissa, sign, ds, letter, hm, hl, hs, hds⟩ := h
  -- the letter ends the digits of the mantissa
  have hread := plainFloatLexeme?_member hm (letter :: (sign ++ (ds ++ t)))
  have hletter : letter.isDigit = false := by
    rcases hl with rfl | rfl
    · decide
    · decide
  rw [List.takeWhile_cons_of_neg (by simp [hletter]),
    List.dropWhile_cons_of_neg (by simp [hletter]), List.append_nil] at hread
  have hsign := spanExponentSign_append hs (hds.head?_ne (c := '-') (by decide) t)
    (hds.head?_ne (by decide) t)
  rw [List.append_assoc, List.cons_append, List.append_assoc]
  simp only [exponentFloatLexeme?, hread, if_pos hl, hsign, spanSome?_run hds.run, behind,
    Option.map_some, List.append_assoc, List.cons_append]

/-! ## Quoted lexemes -/

theorem stringEnd?_member (h : StringEnd l) (t : Text) : stringEnd? (l ++ t) = some (l, t) := by
  induction h with
  | quote => rfl
  | @item i u hi _ ih =>
    rw [List.append_assoc]
    cases hi with
    | @plain c hq hb =>
      have hstep : stringEnd? (c :: (u ++ t)) = behind [c] (stringEnd? (u ++ t)) := by
        simp [stringEnd?, hb]
      rw [List.singleton_append, hstep, ih]
      rfl
    | @escaped c hc =>
      have hstep : stringEnd? ('\\' :: c :: (u ++ t)) = behind ['\\', c] (stringEnd? (u ++ t)) := by
        simp [stringEnd?, hc]
      rw [List.cons_append, List.singleton_append, hstep, ih]
      rfl

theorem stringLexeme?_member (h : StringLexeme l) (t : Text) :
    stringLexeme? (l ++ t) = some (l, t) := by
  obtain ⟨hend⟩ := h
  rw [List.cons_append, stringLexeme?, stringEnd?_member hend]
  rfl

theorem charLexeme?_member (h : CharLexeme l) (t : Text) : charLexeme? (l ++ t) = some (l, t) := by
  obtain ⟨hi⟩ := h
  cases hi with
  | plain hq hb => simp [charLexeme?, hq, hb]
  | escaped hc => simp [charLexeme?, hc]

end Text

namespace LexemeClass

variable {k : LexemeClass} {t l r : Text}

/-- **A reader takes a member that stands right ahead**, and what its class
goes on with. -/
theorem lexeme?_append (h : k.Member l) (t : Text) :
    ∃ w r, k.lexeme? (l ++ t) = some (l ++ w, r) := by
  cases k with
  | identifier => exact ⟨_, _, Text.nameLexeme?_member h t⟩
  | decimalInteger =>
    obtain ⟨n, hn⟩ := h
    exact ⟨_, _, Text.integerLexeme?_member hn t⟩
  | binaryInteger => exact ⟨_, _, Text.basedLexeme?_member h t⟩
  | octalInteger => exact ⟨_, _, Text.basedLexeme?_member h t⟩
  | hexInteger => exact ⟨_, _, Text.basedLexeme?_member h t⟩
  | plainFloat => exact ⟨_, _, Text.plainFloatLexeme?_member h t⟩
  | exponentFloat => exact ⟨_, _, Text.exponentFloatLexeme?_member h t⟩
  | string => exact ⟨[], t, by rw [List.append_nil]; exact Text.stringLexeme?_member h t⟩
  | char => exact ⟨[], t, by rw [List.append_nil]; exact Text.charLexeme?_member h t⟩

/-- **A class takes the longest of its members** that stand right ahead. -/
theorem lexeme?_eq_some_iff :
    k.lexeme? t = some (l, r) ↔ t = l ++ r ∧ Text.IsLongest k.Member t l := by
  have hsound : ∀ {l r : Text}, k.lexeme? t = some (l, r) →
      t = l ++ r ∧ Text.IsLongest k.Member t l := by
    intro l r h
    obtain ⟨heq, hl⟩ := member_of_lexeme? h
    refine ⟨heq, hl, ⟨r, heq.symm⟩, ?_⟩
    rintro v hv ⟨u, rfl⟩
    obtain ⟨w, r', hread⟩ := lexeme?_append hv u
    obtain ⟨rfl, -⟩ := Prod.mk.inj (Option.some.inj (h.symm.trans hread))
    rw [List.length_append]
    exact Nat.le_add_right _ _
  refine ⟨hsound, ?_⟩
  rintro ⟨rfl, hl⟩
  obtain ⟨w, r', hread⟩ := lexeme?_append hl.holds r
  obtain ⟨heq, hmax⟩ := hsound hread
  have hw := hl.unique hmax
  rw [← hw] at heq hread
  rw [hread, List.append_cancel_left heq]

/-- And nothing where none does. -/
theorem lexeme?_eq_none_iff : k.lexeme? t = none ↔ ∀ l, k.Member l → ¬ l <+: t := by
  constructor
  · rintro h l hl ⟨u, rfl⟩
    obtain ⟨w, r, hread⟩ := lexeme?_append hl u
    cases h.symm.trans hread
  · intro h
    rcases hread : k.lexeme? t with - | ⟨l, r⟩
    · rfl
    · obtain ⟨heq, hl⟩ := member_of_lexeme? hread
      exact absurd ⟨r, heq.symm⟩ (h l hl)

end LexemeClass

end StraightLine
