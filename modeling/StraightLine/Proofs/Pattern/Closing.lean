import Mathlib.Data.List.TakeWhile
import StraightLine.Pattern.Reader
import StraightLine.Proofs.Outcome.Sequence

/-!
# Closing — constructs in front of a closing parenthesis

What the reader of patterns takes off the front of a text, it takes off it as
well when a closing parenthesis follows the text, and the parenthesis is left.
This holds of every construct that is read to its end: where the text ends in
the middle of one, there is nothing to say. The lemmas `f_closed` state it of
the readers `f` one by one, the readers of sets with the number that bounds
them raised (`readSet_readSetMembers_closed`).
-/

namespace StraightLine

variable {t u : Text}

namespace Text

/-- A run that stops inside a text stops there whatever follows the text. -/
theorem span_append {p : Char → Bool} {c : Char} {rest : Text} (h : t.dropWhile p = c :: rest)
    (s : Text) :
    (t ++ s).takeWhile p = t.takeWhile p ∧ (t ++ s).dropWhile p = c :: (rest ++ s) := by
  induction t with
  | nil => cases h
  | cons d t ih =>
    by_cases hd : p d = true
    · rw [List.dropWhile_cons_of_pos hd] at h
      simp [hd, ih h]
    · rw [List.dropWhile_cons_of_neg hd] at h
      obtain ⟨rfl, rfl⟩ := List.cons.inj h
      simp [hd]

/-- A run of other characters stops in front of a parenthesis. -/
theorem span_closed {p : Char → Bool} (h : p ')' = false) (t : Text) :
    (t ++ [')']).takeWhile p = t.takeWhile p ∧
      (t ++ [')']).dropWhile p = t.dropWhile p ++ [')'] := by
  induction t with
  | nil => simp [h]
  | cons c t ih =>
    by_cases hc : p c = true
    · simp [hc, ih]
    · simp [hc]

/-- A parenthesis behind a text brings nothing else to its start. -/
theorem not_starts_closed {p : Text} (hp : ')' ∉ p) (h : ∀ rest, t = p ++ rest → False) :
    ∀ rest, t ++ [')'] = p ++ rest → False := by
  intro rest heq
  rcases List.append_eq_append_iff.mp heq with ⟨a, rfl, ha⟩ | ⟨a, rfl, -⟩
  · rcases List.singleton_eq_append_iff.mp ha with ⟨rfl, -⟩ | ⟨rfl, -⟩
    · exact h [] (by simp)
    · exact hp (by simp)
  · exact h a rfl

end Text

namespace Pattern

variable {e : Escaped}

theorem readCodePoint_closed {width : Nat} (h : readCodePoint width t = .ok (e, u)) :
    readCodePoint width (t ++ [')']) = .ok (e, u ++ [')']) := by
  unfold readCodePoint at h
  split at h
  · rename_i t
    split at h
    · rename_i c rest d hdrop hcode
      obtain ⟨rfl, rfl⟩ := Prod.mk.inj (Except.ok.inj h)
      obtain ⟨htake, hdrop'⟩ := Text.span_append hdrop [')']
      rw [List.cons_append, readCodePoint, htake, hdrop', hcode]
    · cases h
  · rename_i hbrace
    split at h
    · rename_i c hcode
      split at h
      · cases h
      · rename_i hlen
        obtain ⟨rfl, rfl⟩ := Prod.mk.inj (Except.ok.inj h)
        have hle : width ≤ t.length := by
          rw [List.length_take] at hlen
          omega
        have htake : (t ++ [')']).take width = t.take width := List.take_append_of_le_length hle
        unfold readCodePoint
        split
        · rename_i t' heq
          -- only an empty text could start with a brace now
          rcases t with - | ⟨d, t⟩
          · cases heq
          · exact absurd (by rw [(List.cons.inj heq).1]) (hbrace t)
        · rw [htake, hcode]
          dsimp only
          rw [if_neg hlen, List.drop_append_of_le_length hle]
    · cases h

/-- Without a brace behind it, a boundary has no kind. -/
theorem readBoundary_of_ne {c : Char} (hc : c ≠ '\x7b') (t : Text) :
    readBoundary (c :: t) = .ok (.look .wordBoundary, c :: t) := by
  rw [readBoundary]
  all_goals simp [hc]

theorem readBoundary_closed (h : readBoundary t = .ok (e, u)) :
    readBoundary (t ++ [')']) = .ok (e, u ++ [')']) := by
  rcases t with - | ⟨c, t⟩
  · obtain ⟨rfl, rfl⟩ := Prod.mk.inj (Except.ok.inj h)
    rfl
  · by_cases hc : c = '\x7b'
    · subst hc
      rcases t with - | ⟨d, t⟩
      · cases h
      · simp only [List.cons_append, readBoundary] at h ⊢
        split at h
        · rename_i hd
          rw [if_pos hd]
          rcases hdrop : (d :: t).dropWhile isBoundaryChar with - | ⟨b, rest⟩
          · simp only [hdrop] at h
            split at h
            all_goals simp_all
          · obtain ⟨htake, hdrop'⟩ := Text.span_append hdrop [')']
            rw [List.cons_append] at htake hdrop'
            rw [htake, hdrop']
            rw [hdrop] at h
            split at h
            all_goals simp_all
        · rename_i hd
          rw [if_neg hd]
          obtain ⟨rfl, rfl⟩ := Prod.mk.inj (Except.ok.inj h)
          rfl
    · rw [readBoundary_of_ne hc] at h
      obtain ⟨rfl, rfl⟩ := Prod.mk.inj (Except.ok.inj h)
      exact readBoundary_of_ne hc _

theorem readEscape_closed (h : readEscape t = .ok (e, u)) :
    readEscape (t ++ [')']) = .ok (e, u ++ [')']) := by
  unfold readEscape at h
  split at h
  case h_1 => cases h
  case h_10 => exact readBoundary_closed h
  -- the three widths of a code point
  case h_20 => exact readCodePoint_closed h
  case h_21 => exact readCodePoint_closed h
  case h_22 => exact readCodePoint_closed h
  case h_23 =>
    split at h
    · rename_i hpunct
      obtain ⟨rfl, rfl⟩ := Prod.mk.inj (Except.ok.inj h)
      rw [List.cons_append, readEscape]
      · rw [if_pos hpunct]
      all_goals assumption
    · cases h
  all_goals
    obtain ⟨rfl, rfl⟩ := Prod.mk.inj (Except.ok.inj h)
    rfl

/-! ## Bracketed sets -/

variable {ignoreCase negated : Bool}

/-- The class named behind the colon. -/
def className? (ignoreCase negated : Bool) (t : Text) : Option (CharSet × Text) :=
  match namedClass? (String.ofList (t.takeWhile (· ≠ ':'))), t.dropWhile (· ≠ ':') with
  | some rs, ':' :: ']' :: t =>
    some (bracketed ignoreCase negated (.ofIntervals (rs.map fun r => (r.1.toNat, r.2.toNat))), t)
  | _, _ => none

theorem readNamedClass?_caret (t : Text) :
    readNamedClass? ignoreCase (':' :: '^' :: t) = className? ignoreCase true t := rfl

theorem readNamedClass?_colon (h : t.head? ≠ some '^') :
    readNamedClass? ignoreCase (':' :: t) = className? ignoreCase false t := by
  simp only [readNamedClass?]
  split
  · rename_i heq
    split at heq
    · simp at h
    · simp_all [className?]
  · rename_i heq
    split at heq
    · simp at h
    · rw [className?]
      split
      · rename_i hname hdrop
        exact (heq _ _ hname hdrop).elim
      · rfl

theorem readNamedClass?_of_ne (h : t.head? ≠ some ':') : readNamedClass? ignoreCase t = none := by
  rw [readNamedClass?]
  rintro t rfl
  exact h rfl

/-- A name that is not ended in a text is not ended by the parenthesis. -/
theorem className?_closed (t : Text) :
    className? ignoreCase negated (t ++ [')']) =
      (className? ignoreCase negated t).map fun r => (r.1, r.2 ++ [')']) := by
  unfold className?
  rcases hdrop : t.dropWhile (· ≠ ':') with - | ⟨c, rest⟩
  · have hall : (t ++ [')']).dropWhile (· ≠ ':') = [] := by
      simp_all [List.dropWhile_eq_nil_iff]
    rw [hall]
    split
    · simp_all
    · split
      · simp_all
      · rfl
  · obtain ⟨htake, hdrop'⟩ := Text.span_append hdrop [')']
    rw [htake, hdrop']
    split
    · rename_i hname heq
      rcases rest with - | ⟨d, rest⟩
      · simp at heq
      · obtain ⟨rfl, rfl, rfl⟩ : c = ':' ∧ d = ']' ∧ rest ++ [')'] = _ := by simpa using heq
        rw [hname]
        rfl
    · rename_i hnone
      split
      · rename_i hname heq
        obtain ⟨rfl, rfl⟩ := List.cons.inj heq
        exact (hnone _ _ hname rfl).elim
      · rfl

/-- A named class is the same in front of the parenthesis. -/
theorem readNamedClass?_closed (t : Text) :
    readNamedClass? ignoreCase (t ++ [')']) =
      (readNamedClass? ignoreCase t).map fun r => (r.1, r.2 ++ [')']) := by
  rcases t with - | ⟨c, t⟩
  · rfl
  · by_cases hc : c = ':'
    · subst hc
      by_cases ht : t.head? = some '^'
      · obtain ⟨t, rfl⟩ := List.head?_eq_some_iff.mp ht
        rw [List.cons_append, List.cons_append, readNamedClass?_caret, readNamedClass?_caret]
        exact className?_closed t
      · have ht' : (t ++ [')']).head? ≠ some '^' := by
          cases t with
          | nil => decide
          | cons d t => exact ht
        rw [List.cons_append, readNamedClass?_colon ht', readNamedClass?_colon ht]
        exact className?_closed t
    · rw [readNamedClass?_of_ne (by simp [hc]), readNamedClass?_of_ne (by simp [hc])]
      rfl

theorem readSetMember_closed (h : readSetMember t = .ok (e, u)) :
    readSetMember (t ++ [')']) = .ok (e, u ++ [')']) := by
  unfold readSetMember at h
  split at h
  · cases h
  · exact readEscape_closed h
  · rename_i hslash
    obtain ⟨rfl, rfl⟩ := Prod.mk.inj (Except.ok.inj h)
    rw [List.cons_append, readSetMember]
    exact hslash

variable {s : CharSet} {first second : Escaped}

/-- A member that no range starts with. -/
def alone (first : Escaped) (t : Text) : Except PatternError (CharSet × Text) :=
  match first.chars? with
  | some s => .ok (s, t)
  | none => .error .classInRange

/-- A range of two members. -/
def upTo (first second : Escaped) (t : Text) : Except PatternError (CharSet × Text) :=
  match first, second with
  | .char c, .char d =>
    if c.toNat ≤ d.toNat then .ok (CharSet.range c d, t) else .error (.emptyRange c d)
  | _, _ => .error .classInRange

theorem alone_closed (h : alone first t = .ok (s, u)) :
    alone first (t ++ [')']) = .ok (s, u ++ [')']) := by
  unfold alone at h ⊢
  split at h
  · obtain ⟨rfl, rfl⟩ := Prod.mk.inj (Except.ok.inj h)
    rfl
  · cases h

theorem upTo_closed (h : upTo first second t = .ok (s, u)) :
    upTo first second (t ++ [')']) = .ok (s, u ++ [')']) := by
  unfold upTo at h ⊢
  split at h
  · split at h
    · rename_i hle
      obtain ⟨rfl, rfl⟩ := Prod.mk.inj (Except.ok.inj h)
      exact if_pos hle
    · cases h
  · cases h

/-- What stands behind a hyphen that starts a range. -/
def rangeEnd? : Text → Option Text
  | '-' :: ']' :: _ => none
  | '-' :: '-' :: _ => none
  | '-' :: t => some t
  | _ => none

theorem rangeEnd?_closed (t : Text) : rangeEnd? (t ++ [')']) = (rangeEnd? t).map (· ++ [')']) := by
  rcases t with - | ⟨c, t⟩
  · rfl
  · by_cases hc : c = '-'
    · subst hc
      rcases t with - | ⟨d, t⟩
      · rfl
      · by_cases hd : d = ']' ∨ d = '-'
        · rcases hd with rfl | rfl
          · rfl
          · rfl
        · obtain ⟨hclose, hhyphen⟩ := not_or.mp hd
          simp [rangeEnd?, hclose, hhyphen]
    · simp [rangeEnd?, hc]

theorem readSetRange_eq (hm : readSetMember t = .ok (first, u)) :
    readSetRange t =
      match rangeEnd? u with
      | none => alone first u
      | some v => readSetMember v >>= fun r => upTo first r.1 r.2 := by
  rw [readSetRange, hm]
  change (match u with
    | '-' :: ']' :: _ => _
    | '-' :: '-' :: _ => _
    | '-' :: t => _
    | _ => _) = _
  unfold rangeEnd?
  split
  · rfl
  · rfl
  · rename_i v _ _
    change _ = (readSetMember v >>= fun r => upTo first r.1 r.2)
    cases readSetMember v with
    | error e => rfl
    | ok r =>
      obtain ⟨second, rest⟩ := r
      cases first <;> cases second <;> rfl
  · rfl

theorem readSetRange_closed (h : readSetRange t = .ok (s, u)) :
    readSetRange (t ++ [')']) = .ok (s, u ++ [')']) := by
  obtain ⟨⟨first, v⟩, hm, -⟩ := exists_of_bind_eq_ok h
  rw [readSetRange_eq hm] at h
  rw [readSetRange_eq (readSetMember_closed hm), rangeEnd?_closed]
  cases hend : rangeEnd? v with
  | none =>
    rw [hend] at h
    exact alone_closed h
  | some w =>
    rw [hend] at h
    obtain ⟨⟨second, rest⟩, hm', h⟩ := exists_of_bind_eq_ok h
    simp only [Option.map_some, readSetMember_closed hm']
    exact upTo_closed h

/-- A leading caret and what stands behind it. -/
def caret : Text → Bool × Text
  | '^' :: t => (true, t)
  | t => (false, t)

/-- The characters in front of a set that stand for themselves. -/
def leading : Text → Text × Text
  | ']' :: t => ([']'], t)
  | t => (t.takeWhile (· = '-'), t.dropWhile (· = '-'))

theorem caret_closed (t : Text) : caret (t ++ [')']) = ((caret t).1, (caret t).2 ++ [')']) := by
  rcases t with - | ⟨c, t⟩
  · rfl
  · by_cases hc : c = '^'
    · subst hc
      rfl
    · simp [caret, hc]

theorem leading_closed (t : Text) :
    leading (t ++ [')']) = ((leading t).1, (leading t).2 ++ [')']) := by
  obtain ⟨htake, hdrop⟩ := Text.span_closed (p := (· = '-')) (by decide) t
  rcases t with - | ⟨c, t⟩
  · rfl
  · by_cases hc : c = ']'
    · subst hc
      rfl
    · have hplain (u : Text) : leading (c :: u) =
          ((c :: u).takeWhile (· = '-'), (c :: u).dropWhile (· = '-')) := by
        rw [leading]
        simp [hc]
      rw [hplain t, List.cons_append, hplain]
      exact Prod.ext htake hdrop

theorem readSet_succ (n : Nat) (t : Text) :
    readSet ignoreCase (n + 1) t =
      (readSetMembers ignoreCase n ⟨none, (leading (caret t).2).1.map CharSet.single, 0⟩
        (leading (caret t).2).2 >>= fun r =>
          .ok (bracketed ignoreCase (caret t).1 (r.1.value ignoreCase).1,
            (r.1.value ignoreCase).2 + 1, r.2)) := by
  unfold readSet
  rfl

/-- Sets and their members are read alike, by induction on the number that bounds
both. -/
theorem readSet_readSetMembers_closed (n : Nat) :
    (∀ t s d u, readSet ignoreCase n t = .ok (s, d, u) → ∀ m, n ≤ m →
      readSet ignoreCase m (t ++ [')']) = .ok (s, d, u ++ [')'])) ∧
    ∀ r t r' u, readSetMembers ignoreCase n r t = .ok (r', u) → ∀ m, n ≤ m →
      readSetMembers ignoreCase m r (t ++ [')']) = .ok (r', u ++ [')']) := by
  induction n with
  | zero =>
    refine ⟨fun t s d u h => ?_, fun r t r' u h => ?_⟩
    · rw [readSet] at h
      cases h
    · rw [readSetMembers] at h
      cases h
  | succ n ih =>
    obtain ⟨ihset, ihmembers⟩ := ih
    refine ⟨fun t s d u h m hm => ?_, fun r t r' u h m hm => ?_⟩
    · obtain ⟨m, rfl⟩ := Nat.exists_eq_succ_of_ne_zero (show m ≠ 0 by omega)
      rw [readSet_succ] at h ⊢
      obtain ⟨⟨r, v⟩, hr, h⟩ := exists_of_bind_eq_ok h
      rw [caret_closed, leading_closed, ihmembers _ _ _ _ hr m (by omega)]
      obtain ⟨rfl, rfl, rfl⟩ : _ ∧ _ ∧ _ := by simpa using h
      rfl
    · obtain ⟨m, rfl⟩ := Nat.exists_eq_succ_of_ne_zero (show m ≠ 0 by omega)
      unfold readSetMembers at h
      split at h
      · cases h
      · cases h
      · obtain ⟨rfl, rfl⟩ := Prod.mk.inj (Except.ok.inj h)
        rfl
      · -- a named class, or a set in this one
        rename_i heq
        obtain rfl := Nat.succ.inj heq
        rw [List.cons_append, readSetMembers, readNamedClass?_closed]
        split at h
        · rename_i hname
          rw [hname]
          exact ihmembers _ _ _ _ h m (by omega)
        · rename_i hname
          rw [hname]
          obtain ⟨⟨s, d, v⟩, hs, h⟩ := exists_of_bind_eq_ok h
          simp only [Option.map_none, ihset _ _ _ _ hs m (by omega)]
          exact ihmembers _ _ _ _ h m (by omega)
      · rename_i heq
        obtain rfl := Nat.succ.inj heq
        exact ihmembers _ _ _ _ h m (by omega)
      · rename_i heq
        obtain rfl := Nat.succ.inj heq
        exact ihmembers _ _ _ _ h m (by omega)
      · rename_i heq
        obtain rfl := Nat.succ.inj heq
        exact ihmembers _ _ _ _ h m (by omega)
      · -- a member or a range; the parenthesis makes no operator of what is left
        rename_i hclose hopen hand hminus htilde heq
        obtain rfl := Nat.succ.inj heq
        obtain ⟨⟨s, v⟩, hs, h⟩ := exists_of_bind_eq_ok h
        have hs' := readSetRange_closed hs
        rw [List.cons_append] at hs' ⊢
        rw [readSetMembers, hs']
        · exact ihmembers _ _ _ _ h m (by omega)
        · exact hclose
        · exact hopen
        · exact fun rest hc => Text.not_starts_closed (p := ['&']) (by decide) (hand · hc ·) rest
        · exact fun rest hc => Text.not_starts_closed (p := ['-']) (by decide) (hminus · hc ·) rest
        · exact fun rest hc => Text.not_starts_closed (p := ['~']) (by decide) (htilde · hc ·) rest

/-! ## Counts and flags -/

theorem readCount_closed (t : Text) :
    readCount (t ++ [')']) = ((readCount t).1, (readCount t).2 ++ [')']) := by
  obtain ⟨-, hblank⟩ := Text.span_closed (p := isBlank) (by decide) t
  obtain ⟨htake, hdrop⟩ :=
    Text.span_closed (p := Char.isDigit) (by decide) (t.dropWhile isBlank)
  obtain ⟨-, hblank'⟩ :=
    Text.span_closed (p := isBlank) (by decide) ((t.dropWhile isBlank).dropWhile Char.isDigit)
  simp only [readCount, hblank, htake, hdrop, hblank']

theorem readCounts_closed {low : Nat} {high : Option Nat}
    (h : readCounts t = .ok (low, high, u)) :
    readCounts (t ++ [')']) = .ok (low, high, u ++ [')']) := by
  unfold readCounts at h
  split at h
  · cases h
  · cases h
  · rename_i hcount
    obtain ⟨rfl, rfl, rfl⟩ : _ ∧ _ ∧ _ := by simpa using h
    rw [readCounts, readCount_closed, hcount]
    rfl
  · rename_i hcount
    obtain ⟨rfl, rfl, rfl⟩ : _ ∧ _ ∧ _ := by simpa using h
    rw [readCounts, readCount_closed, hcount]
    rfl
  · rename_i low v hbrace hcount
    split at h
    · rename_i high w hcount'
      split at h
      · rename_i hle
        obtain ⟨rfl, rfl, rfl⟩ : _ ∧ _ ∧ _ := by simpa using h
        have hclosed := readCount_closed v
        rw [hcount'] at hclosed
        rcases v with - | ⟨d, v⟩
        · cases hcount'
        · have hd : d ≠ '\x7d' := by
            rintro rfl
            exact hbrace v rfl
          rw [List.cons_append] at hclosed
          simp [readCounts, readCount_closed, hcount, hclosed, hd, hle]
      · cases h
    · cases h
    · cases h
  · cases h

theorem readGreed_closed (swapped : Bool) (t : Text) :
    readGreed swapped (t ++ [')']) =
      ((readGreed swapped t).1, (readGreed swapped t).2 ++ [')']) := by
  rcases t with - | ⟨c, t⟩
  · rfl
  · by_cases hc : c = '?'
    · subst hc
      rfl
    · simp [readGreed, hc]

theorem readFlags_closed {f f' : Flags} {on : Bool} {seen : List Char}
    (h : readFlags f on seen t = .ok (f', u)) :
    u ≠ [] ∧ readFlags f on seen (t ++ [')']) = .ok (f', u ++ [')']) := by
  induction t generalizing f on seen with
  | nil => cases h
  | cons c t ih =>
    rw [List.cons_append, readFlags]
    rw [readFlags] at h
    split at h
    · rename_i hend
      rw [if_pos hend]
      split at h
      · cases h
      · rename_i hhyphen
        obtain ⟨rfl, rfl⟩ := Prod.mk.inj (Except.ok.inj h)
        exact ⟨List.cons_ne_nil c t, if_neg hhyphen⟩
    · rename_i hend
      rw [if_neg hend]
      split at h
      · cases h
      · rename_i hseen
        rw [if_neg hseen]
        split at h
        · rename_i hhyphen
          rw [if_pos hhyphen]
          exact ih h
        · rename_i hhyphen
          rw [if_neg hhyphen]
          split at h
          · exact ih h
          · cases h

end Pattern

end StraightLine
