import StraightLine.Lexer.Basic
import StraightLine.Proofs.Lexer.Rules
import StraightLine.Proofs.Text.Cursor

/-!
# Layouts — how the tokens of a run lie in the text

`x.Layout before ahead ts` says that behind `before` the text `ahead` consists
of the tokens `ts` of the lexicon in their order, with nothing but blanks
around them, each at its place. `nextToken_cases` is all that a lexer can do
in one step; `readUpTo_layout` follows by induction on the steps, and
`tokenize_covers` reads the parts of the text off the layout.
-/

namespace StraightLine

/-- **The tokens of a text behind another one.** -/
inductive Lexicon.Layout (x : Lexicon) : Text → Text → List Token → Prop
  | done {before b : Text} (hb : b.Blank) :
      x.Layout before b [.endOfInput (Place.start.after (before ++ b))]
  | token {before b ahead : Text} {t : Token} {ts : List Token} (hb : b.Blank)
      (ht : x.Produces t) (hplace : t.place = Place.start.after (before ++ b))
      (rest : x.Layout (before ++ b ++ t.value) ahead ts) :
      x.Layout before (b ++ (t.value ++ ahead)) (t :: ts)

variable {x : Lexicon} {before ahead s : Text} {ts : List Token} {n : Nat}

namespace Lexer

/-- A lexer between a text read and the text ahead, with nothing saved and
nothing handed back. -/
def standing (x : Lexicon) (before ahead : Text) : Lexer := ⟨.between before ahead, x, [], []⟩

/-! ## One step -/

/-- Behind blanks alone stands the end of input. -/
theorem nextOf_eq_endOfInput {l : Lexer} (hc : l.cursor = .between before ahead)
    (hr : l.returned = []) (kinds : List TokenKind) (h : ahead.Blank) :
    l.nextOf kinds =
      (some (.endOfInput (Place.start.after (before ++ ahead))),
        { l with cursor := .between (before ++ ahead) [] }) := by
  have hskip := Cursor.skipBlanks_between before ahead
  have hall : ahead.takeWhile isBlank = ahead := List.takeWhile_eq_self_iff.mpr h
  rw [hall, Text.trimStart_eq_nil_iff.mpr h] at hskip
  simp only [nextOf, hr, hc, hskip, Cursor.isEmpty_between, Cursor.place_between, decide_true,
    if_true]

/-- Elsewhere the lexicon decides, at the first character that is not
blank. -/
theorem nextOf_eq_tokenOf? {l : Lexer} (hc : l.cursor = .between before ahead)
    (hr : l.returned = []) (kinds : List TokenKind) (h : ahead.trimStart ≠ []) :
    l.nextOf kinds =
      match l.lexicon.tokenOf? kinds ahead.trimStart
          (Place.start.after (before ++ ahead.takeWhile isBlank)) with
      | some t =>
        (some t, { l with
          cursor := (Cursor.between (before ++ ahead.takeWhile isBlank) ahead.trimStart).advance
            t.value.byteSize })
      | none => (none, l) := by
  have hopen : (Cursor.between (before ++ ahead.takeWhile isBlank) ahead.trimStart).isEmpty =
      false := by
    rw [Cursor.isEmpty_between, decide_eq_false h]
  cases htok : l.lexicon.tokenOf? kinds ahead.trimStart
    (Place.start.after (before ++ ahead.takeWhile isBlank))
  all_goals simp only [nextOf, hr, hc, Cursor.skipBlanks_between, hopen, Cursor.place_between,
    Cursor.remaining_between, Bool.false_eq_true, if_false, htok]

theorem nextOf_of_blank (x : Lexicon) (before : Text) (kinds : List TokenKind) (h : ahead.Blank) :
    (standing x before ahead).nextOf kinds =
      (some (.endOfInput (Place.start.after (before ++ ahead))),
        standing x (before ++ ahead) []) := nextOf_eq_endOfInput rfl rfl kinds h

theorem nextOf_of_not_blank (x : Lexicon) (before : Text) (kinds : List TokenKind)
    (h : ahead.trimStart ≠ []) :
    (standing x before ahead).nextOf kinds =
      match x.tokenOf? kinds ahead.trimStart
          (Place.start.after (before ++ ahead.takeWhile isBlank)) with
      | some t =>
        (some t, ⟨(Cursor.between (before ++ ahead.takeWhile isBlank) ahead.trimStart).advance
          t.value.byteSize, x, [], []⟩)
      | none => (none, standing x before ahead) := nextOf_eq_tokenOf? rfl rfl kinds h

/-- A token taken from behind blanks is the next one. -/
theorem nextToken_of_tokenOf? {b rest : Text} {t : Token} (hb : b.Blank)
    (hstart : Text.StartsOutside isBlank (t.value ++ rest)) (hne : t.value ++ rest ≠ [])
    (h : x.tokenOf? TokenKind.all (t.value ++ rest) (Place.start.after (before ++ b)) = some t) :
    (standing x before (b ++ (t.value ++ rest))).nextToken =
      (.ok t, standing x (before ++ b ++ t.value) rest) := by
  have htake : (b ++ (t.value ++ rest)).takeWhile isBlank = b := Text.takeWhile_append hb hstart
  have htrim : (b ++ (t.value ++ rest)).trimStart = t.value ++ rest :=
    Text.dropWhile_append hb hstart
  have hnext := nextOf_of_not_blank x before TokenKind.all
    (show (b ++ (t.value ++ rest)).trimStart ≠ [] by rwa [htrim])
  rw [htrim, htake, h] at hnext
  simp only [Cursor.advance_between] at hnext
  simp only [nextToken, expectOf, hnext]
  rfl

/-- **What a lexer can do in one step**: end in front of blanks, take a token
of its lexicon from behind them, or fail where the lexicon finds nothing. -/
theorem nextToken_cases (hx : x.Anchored) (before ahead : Text) :
    (ahead.Blank ∧ (standing x before ahead).nextToken =
        (.ok (.endOfInput (Place.start.after (before ++ ahead))),
          standing x (before ++ ahead) [])) ∨
      (∃ b t rest, b.Blank ∧ x.tokenOf? TokenKind.all (t.value ++ rest)
          (Place.start.after (before ++ b)) = some t ∧
        ahead = b ++ (t.value ++ rest) ∧
        (standing x before ahead).nextToken = (.ok t, standing x (before ++ b ++ t.value) rest)) ∨
      ∃ e place, ahead.trimStart ≠ [] ∧ x.tokenOf? TokenKind.all ahead.trimStart place = none ∧
        (standing x before ahead).nextToken = (.error e, standing x before ahead) := by
  by_cases hend : ahead.trimStart = []
  · have hblank := Text.trimStart_eq_nil_iff.mp hend
    refine .inl ⟨hblank, ?_⟩
    simp only [nextToken, expectOf, nextOf_of_blank x before _ hblank]
  · have hnext := nextOf_of_not_blank x before TokenKind.all hend
    rcases ht : x.tokenOf? TokenKind.all ahead.trimStart
        (Place.start.after (before ++ ahead.takeWhile isBlank)) with - | t
    · rw [ht] at hnext
      refine .inr (.inr ⟨(standing x before ahead).missing TokenKind.all, _, hend, ht, ?_⟩)
      simp only [nextToken, expectOf, hnext]
    · obtain ⟨-, -, rest, hrest⟩ := hx.tokenOf?_eq_some ht
      rw [ht] at hnext
      simp only [hrest, Cursor.advance_between] at hnext
      refine .inr (.inl ⟨ahead.takeWhile isBlank, t, rest, Text.blank_takeWhile ahead, ?_, ?_, ?_⟩)
      · rw [← hrest, ht]
      · rw [← hrest, Text.takeWhile_append_trimStart]
      · simp only [nextToken, expectOf, hnext]
        rfl

/-! ## A whole run -/

/-- **A run that does not fail lays the text out in tokens.** -/
theorem readUpTo_layout (hx : x.Anchored)
    (h : ((standing x before ahead).readUpTo n).failure = none) :
    x.Layout before ahead ((standing x before ahead).readUpTo n).tokens := by
  induction n generalizing before ahead with
  | zero => cases h
  | succ n ih =>
    rcases nextToken_cases hx before ahead with
      ⟨hb, heq⟩ | ⟨b, t, rest, hb, htok, rfl, heq⟩ | ⟨e, place, -, -, heq⟩
    · simp only [readUpTo, heq, Token.endOfInput, if_true]
      exact .done hb
    · obtain ⟨ht, hplace, -⟩ := hx.tokenOf?_eq_some htok
      simp only [readUpTo, heq, if_neg (ht.kind_ne hx)] at h ⊢
      exact .token hb ht hplace (ih h)
    · simp only [readUpTo, heq] at h
      cases h

/-- The tokens of a text are those of a run that does not fail. -/
theorem tokenize_eq_ok_iff :
    StraightLine.tokenize s = .ok ts ↔
      ((standing .standard [] s).readUpTo (s.length + 1)).failure = none ∧
        ((standing .standard [] s).readUpTo (s.length + 1)).tokens = ts := by
  have hrun : (ofText .standard s).run = (standing .standard [] s).readUpTo (s.length + 1) := by
    unfold run
    rw [show ofText .standard s = standing .standard [] s from rfl]
    simp [standing]
  unfold StraightLine.tokenize tokenize
  rw [hrun]
  rcases hfail : ((standing .standard [] s).readUpTo (s.length + 1)).failure with - | e
  · simp [hfail]
  · simp [hfail]

/-- The tokens of a text are a layout of it. -/
theorem layout_of_tokenize (h : StraightLine.tokenize s = .ok ts) :
    Lexicon.standard.Layout [] s ts := by
  obtain ⟨hnone, rfl⟩ := tokenize_eq_ok_iff.mp h
  exact readUpTo_layout Lexicon.standard_anchored hnone

end Lexer

/-! ## The parts of the text -/

namespace Text

/-- The text of some tokens, each with the blanks in front of it. -/
def ofPieces (pieces : List (Text × Token)) : Text := pieces.flatMap fun p => p.1 ++ p.2.value

@[simp] theorem ofPieces_nil : ofPieces [] = [] := rfl

@[simp] theorem ofPieces_cons (p : Text × Token) (pieces : List (Text × Token)) :
    ofPieces (p :: pieces) = p.1 ++ (p.2.value ++ ofPieces pieces) := by
  simp [ofPieces]

@[simp] theorem ofPieces_append (front back : List (Text × Token)) :
    ofPieces (front ++ back) = ofPieces front ++ ofPieces back := List.flatMap_append

end Text

namespace Lexicon.Layout

/-- A layout is a list of pieces and the blanks behind them. -/
theorem exists_pieces (hx : x.Anchored) (h : x.Layout before ahead ts) :
    ∃ (pieces : List (Text × Token)) (last : Text),
      ts = pieces.map Prod.snd ++ [.endOfInput (Place.start.after (before ++ ahead))] ∧
        ahead = Text.ofPieces pieces ++ last ∧ last.Blank ∧
        (∀ p ∈ pieces, p.1.Blank ∧ p.2.value ≠ [] ∧ p.2.kind ≠ .endOfInput) ∧
        ∀ front p back, pieces = front ++ p :: back →
          p.2.place = Place.start.after (before ++ (Text.ofPieces front ++ p.1)) := by
  induction h with
  | done hb =>
    refine ⟨[], _, rfl, rfl, hb, by simp, fun front p back hsplit => ?_⟩
    simp at hsplit
  | @token before b ahead t ts hb ht hplace rest ih =>
    obtain ⟨pieces, last, rfl, rfl, hlast, hall, hplaces⟩ := ih
    refine ⟨(b, t) :: pieces, last, by simp, by simp, hlast, ?_, ?_⟩
    · exact List.forall_mem_cons.mpr ⟨⟨hb, ht.value_ne_nil, ht.kind_ne hx⟩, hall⟩
    · rintro (- | ⟨q, front⟩) p back hsplit
      · obtain ⟨rfl, -⟩ := List.cons.inj hsplit
        exact hplace
      · -- a later piece is placed behind the first one as well
        obtain ⟨rfl, htail⟩ := List.cons.inj hsplit
        simpa using hplaces front p back htail

end Lexicon.Layout

/-- **A text covered by its tokens**: the tokens are those of the pieces and
one end of input, and the text is their values in the same order with blanks
between them. Every token stands where its value starts, and the end of input
where the text ends. -/
structure Covers (s : Text) (ts : List Token) (pieces : List (Text × Token)) (last : Text) :
    Prop where
  tokens : ts = pieces.map Prod.snd ++ [.endOfInput (s.placeAt s.byteSize)]
  text : s = Text.ofPieces pieces ++ last
  blank : ∀ p ∈ pieces, p.1.Blank
  last_blank : last.Blank
  value_ne_nil : ∀ p ∈ pieces, p.2.value ≠ []
  kind_ne : ∀ p ∈ pieces, p.2.kind ≠ .endOfInput
  place : ∀ front p back, pieces = front ++ p :: back →
    p.2.place = s.placeAt (Text.ofPieces front ++ p.1).byteSize

/-- **Lexing loses, invents and reorders nothing.** -/
theorem tokenize_covers {s : Text} {ts : List Token} (h : tokenize s = .ok ts) :
    ∃ pieces last, Covers s ts pieces last := by
  obtain ⟨pieces, last, hts, hs, hlast, hall, hplaces⟩ :=
    (Lexer.layout_of_tokenize h).exists_pieces Lexicon.standard_anchored
  refine ⟨pieces, last, ?_, hs, fun p hp => (hall p hp).1, hlast, fun p hp => (hall p hp).2.1,
    fun p hp => (hall p hp).2.2, fun front p back hsplit => ?_⟩
  · rw [Text.placeAt_byteSize]
    exact hts
  · -- what stands behind the piece does not matter for where it starts
    have hcut : s = (Text.ofPieces front ++ p.1) ++
        (p.2.value ++ (Text.ofPieces back ++ last)) := by
      rw [hs, hsplit]
      simp
    rw [hplaces front p back hsplit, hcut, Text.placeAt_append, List.nil_append]

/-- A line feed inside a character and one outside, behind a name with a
character of two octets after it. -/
theorem tokenize_covers_line_feeds :
    ∃ pieces last, Covers "x\u00a0'\n' \n.5".toList
      [⟨.identifier, ['x'], ⟨1, 1⟩⟩, ⟨.char, ['\'', '\n', '\''], ⟨1, 3⟩⟩,
        ⟨.symbol .dot, ['.'], ⟨3, 1⟩⟩, ⟨.integer, ['5'], ⟨3, 2⟩⟩, .endOfInput ⟨3, 3⟩]
      pieces last :=
  tokenize_covers (by decide +kernel)

end StraightLine
