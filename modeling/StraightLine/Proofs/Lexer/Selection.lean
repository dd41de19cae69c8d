import StraightLine.Proofs.Lexer.Choice
import StraightLine.Proofs.Lexer.Lookahead
import StraightLine.Proofs.Outcome.Sequence

/-!
# Selection — one longest match for all kinds

A lexicon is made of steps that register rules, one kind and another in turn;
to register several rules at once is a step for each of them. `Chooses` says of
all that these rules find which token is the one to choose, and there is only
one (`Chooses.unique`). A lexicon takes it (`tokenOf?_eq_some_iff`), and so does
a lexer behind the blanks ahead. As only the steps of each kind matter, those of
different kinds may be registered in any order: **`nextOf_chooses`**.
-/

namespace StraightLine

/-! ## Steps that register rules -/

namespace RuleSource

/-- The kind that a step registers a rule for. -/
def kind : RuleSource → TokenKind
  | rule r => r.kind
  | keyword kind => kind
  | pattern kind _ => kind

/-- **A token that the rule of a step finds**, when it is a rule of that
kind. -/
def Finds (step : RuleSource) (kind : TokenKind) (ahead : Text) (place : Place) (t : Token) :
    Prop := ∃ r, step.rule? = .ok r ∧ r.kind = kind ∧ r.token? ahead place = some t

/-- The token of that kind that the rule of a step finds. -/
def token? (step : RuleSource) (kind : TokenKind) (ahead : Text) (place : Place) :
    Option Token :=
  match step.rule? with
  | .ok r => if r.kind = kind then r.token? ahead place else none
  | .error _ => none

variable {step : RuleSource} {k : TokenKind} {ahead : Text} {place : Place} {t : Token} {r : Rule}

/-- The rule that a step makes is of its kind. -/
theorem kind_of_rule? (h : step.rule? = .ok r) : r.kind = step.kind := by
  cases step with
  | rule r =>
    obtain rfl := Except.ok.inj h
    rfl
  | keyword kind =>
    simp only [rule?, Rule.ofKeyword?] at h
    split at h
    · obtain rfl := Except.ok.inj h
      rfl
    · cases h
  | pattern kind text =>
    simp only [rule?, Rule.ofText?] at h
    split at h
    · obtain rfl := Except.ok.inj h
      rfl
    · cases h

theorem token?_eq_some_iff : step.token? k ahead place = some t ↔ step.Finds k ahead place t := by
  unfold token? Finds
  rcases step.rule? with e | r
  · simp
  · by_cases hkind : r.kind = k
    · simp [hkind]
    · simp [hkind]

end RuleSource

/-- What is found is found by one element, and no element in front of it finds
what does not come before. -/
theorem exists_finder_of_filterMap_eq {α β : Type} {f : α → Option β} {l : List α}
    {before after : List β} {b : β} (h : l.filterMap f = before ++ b :: after) :
    ∃ front a back, l = front ++ a :: back ∧ f a = some b ∧
      ∀ a' ∈ front, ∀ b', f a' = some b' → b' ∈ before := by
  obtain ⟨l₁, l₂, rfl, rfl, h₂⟩ := List.filterMap_eq_append_iff.mp h
  obtain ⟨idle, a, back, rfl, hidle, ha, -⟩ := List.filterMap_eq_cons_iff.mp h₂
  refine ⟨l₁ ++ idle, a, back, by simp, ha, fun a' ha' b' hb' => ?_⟩
  rcases List.mem_append.mp ha' with hmem | hmem
  · exact List.mem_filterMap.mpr ⟨a', hmem, hb'⟩
  · rw [hidle a' hmem] at hb'
    cases hb'

namespace Lexicon

variable {steps steps' : List RuleSource} {x x' : Lexicon} {kinds : List TokenKind}
  {ahead : Text} {place : Place} {t u : Token}

theorem build_eq_ok_iff :
    build steps = .ok x ↔ List.Forall₂ (fun step r => step.rule? = .ok r) steps x.rules := by
  rw [← mapM_eq_ok_iff, build]
  obtain ⟨rules⟩ := x
  rcases steps.mapM RuleSource.rule? with e | rules'
  · simp [Except.map]
  · simp [Except.map]

/-- **The rules of a kind** are those of the steps that register it. -/
theorem rulesOf_of_build (h : build steps = .ok x) (kind : TokenKind) :
    (steps.filter fun step => step.kind = kind).mapM RuleSource.rule? = .ok (x.rulesOf kind) := by
  rw [mapM_eq_ok_iff, rulesOf]
  refine List.rel_filter ?_ (build_eq_ok_iff.mp h)
  intro step r hmade
  simp [RuleSource.kind_of_rule? hmade]

/-- The tokens of a kind that are found are those that the steps find. -/
theorem found_of_build (h : build steps = .ok x) (kind : TokenKind) (ahead : Text)
    (place : Place) :
    (found x.rules ahead place).filter (fun t => t.kind = kind) =
      steps.filterMap fun step => step.token? kind ahead place := by
  have hrules := build_eq_ok_iff.mp h
  rw [← found_rulesOf, found, rulesOf, List.filterMap_filter]
  generalize x.rules = rules at hrules ⊢
  clear h
  induction hrules with
  | nil => rfl
  | @cons step r steps rules hmade _ ih =>
    have hstep : step.token? kind ahead place =
        if decide (r.kind = kind) = true then r.token? ahead place else none := by
      simp [RuleSource.token?, hmade]
    rw [List.filterMap_cons, List.filterMap_cons, ih, hstep]

/-- **The token to choose** of all that the steps find in some text for the
kinds asked for: none is longer, one as long is not of a kind asked for before,
and none of the same kind that was registered before is as long. -/
inductive Chooses (steps : List RuleSource) (kinds : List TokenKind) (ahead : Text)
    (place : Place) : Token → Prop
  | mk {kinds₁ kinds₂ : List TokenKind} {kind : TokenKind} {steps₁ steps₂ : List RuleSource}
      {step : RuleSource} {t : Token} (asked : kinds = kinds₁ ++ kind :: kinds₂)
      (registered : steps = steps₁ ++ step :: steps₂) (finds : step.Finds kind ahead place t)
      (longest : ∀ k ∈ kinds, ∀ s ∈ steps, ∀ u, s.Finds k ahead place u → u.length ≤ t.length)
      (firstAsked : ∀ k ∈ kinds₁, ∀ s ∈ steps, ∀ u, s.Finds k ahead place u →
        u.length < t.length)
      (firstRegistered : ∀ s ∈ steps₁, ∀ u, s.Finds kind ahead place u → u.length < t.length) :
      Chooses steps kinds ahead place t

/-- Of two elements of a list that are the first of their sort, neither stands
before the other. -/
theorem eq_of_first {α : Type} {front back front' back' : List α} {a a' : α}
    (h : front ++ a :: back = front' ++ a' :: back') (ha : a ∉ front') (ha' : a' ∉ front) :
    front = front' ∧ a = a' := by
  rcases List.append_eq_append_iff.mp h with ⟨w, rfl, hw⟩ | ⟨w, rfl, hw⟩
  · rcases w with - | ⟨b, w⟩
    · exact ⟨by simp, (List.cons.inj hw).1⟩
    · obtain ⟨rfl, -⟩ := List.cons.inj hw
      exact absurd (by simp) ha
  · rcases w with - | ⟨b, w⟩
    · exact ⟨by simp, (List.cons.inj hw).1.symm⟩
    · obtain ⟨rfl, -⟩ := List.cons.inj hw
      exact absurd (by simp) ha'

/-- There is only one token to choose. -/
theorem Chooses.unique (h : Chooses steps kinds ahead place t)
    (h' : Chooses steps kinds ahead place u) : t = u := by
  obtain @⟨ks₁, ks₂, k, ss₁, ss₂, s, t, hkinds, hsteps, hfinds, hlong, hasked, hreg⟩ := h
  obtain @⟨ks₁', ks₂', k', ss₁', ss₂', s', u, hkinds', hsteps', hfinds', hlong', hasked', hreg'⟩ :=
    h'
  have hk : k ∈ kinds := by simp [hkinds]
  have hk' : k' ∈ kinds := by simp [hkinds']
  have hs : s ∈ steps := by simp [hsteps]
  have hs' : s' ∈ steps := by simp [hsteps']
  have htu := hlong' k hk s hs t hfinds
  have hut := hlong k' hk' s' hs' u hfinds'
  obtain ⟨rfl, rfl⟩ : ks₁ = ks₁' ∧ k = k' := by
    refine eq_of_first (hkinds.symm.trans hkinds') (fun hmem => ?_) fun hmem => ?_
    · have hlt := hasked' k hmem s hs t hfinds
      omega
    · have hlt := hasked k' hmem s' hs' u hfinds'
      omega
  obtain ⟨-, rfl⟩ : ss₁ = ss₁' ∧ s = s' := by
    refine eq_of_first (hsteps.symm.trans hsteps') (fun hmem => ?_) fun hmem => ?_
    · have hlt := hreg' s hmem t hfinds
      omega
    · have hlt := hreg s' hmem u hfinds'
      omega
  exact Option.some.inj ((RuleSource.token?_eq_some_iff.mpr hfinds).symm.trans
    (RuleSource.token?_eq_some_iff.mpr hfinds'))

/-- **A lexicon takes the token to choose.** -/
theorem chooses_of_tokenOf? (hx : build steps = .ok x)
    (h : x.tokenOf? kinds ahead place = some t) : Chooses steps kinds ahead place t := by
  simp only [tokenOf?, found_of_build hx] at h
  obtain ⟨before, after, heq, hbefore⟩ := Token.shorter_before_of_longest h
  obtain ⟨ks₁, k, ks₂, start, rest, hkinds, hk, rfl⟩ := exists_part_of_flatMap_eq heq
  obtain ⟨ss₁, s, ss₂, hsteps, hs, hfirst⟩ := exists_finder_of_filterMap_eq hk
  have hmem {k' : TokenKind} {s' : RuleSource} {u : Token} (hs' : s' ∈ steps)
      (hu : s'.Finds k' ahead place u) :
      u ∈ steps.filterMap fun step => step.token? k' ahead place :=
    List.mem_filterMap.mpr ⟨s', hs', RuleSource.token?_eq_some_iff.mpr hu⟩
  refine .mk hkinds hsteps (RuleSource.token?_eq_some_iff.mp hs) ?_ ?_ ?_
  · intro k' hk' s' hs' u hu
    exact Token.length_le_of_longest h (List.mem_flatMap.mpr ⟨k', hk', hmem hs' hu⟩)
  · intro k' hk' s' hs' u hu
    refine hbefore u (List.mem_append_left start ?_)
    exact List.mem_flatMap.mpr ⟨k', hk', hmem hs' hu⟩
  · intro s' hs' u hu
    refine hbefore u (List.mem_append_right _ ?_)
    exact hfirst s' hs' u (RuleSource.token?_eq_some_iff.mpr hu)

/-- And none just where the steps find none. -/
theorem tokenOf?_eq_none_iff_finds (hx : build steps = .ok x) :
    x.tokenOf? kinds ahead place = none ↔
      ∀ k ∈ kinds, ∀ s ∈ steps, ∀ u, ¬ s.Finds k ahead place u := by
  simp only [tokenOf?, found_of_build hx, Token.longest_eq_none_iff, List.flatMap_eq_nil_iff,
    List.filterMap_eq_nil_iff]
  refine forall₄_congr fun k _ step _ => ?_
  simp only [Option.eq_none_iff_forall_ne_some, ne_eq, RuleSource.token?_eq_some_iff]

theorem tokenOf?_eq_some_iff (hx : build steps = .ok x) :
    x.tokenOf? kinds ahead place = some t ↔ Chooses steps kinds ahead place t := by
  constructor
  · exact chooses_of_tokenOf? hx
  · intro h
    rcases htok : x.tokenOf? kinds ahead place with - | u
    · obtain ⟨hkinds, hsteps, hfinds, -, -, -⟩ := h
      exact absurd hfinds ((tokenOf?_eq_none_iff_finds hx).mp htok _ (by simp [hkinds]) _
        (by simp [hsteps]) _)
    · rw [h.unique (chooses_of_tokenOf? hx htok)]

/-- **The steps of each kind are all that matters.** -/
theorem exists_build_of_filter_eq (hx : build steps = .ok x)
    (h : ∀ k, (steps.filter fun s => s.kind = k) = steps'.filter fun s => s.kind = k) :
    ∃ x', build steps' = .ok x' ∧ ∀ k, x.rulesOf k = x'.rulesOf k := by
  obtain ⟨rules', hrules'⟩ : ∃ rules, steps'.mapM RuleSource.rule? = .ok rules := by
    refine exists_mapM_ok fun s hs => ?_
    have hmem : s ∈ steps.filter fun s' => s'.kind = s.kind := by
      rw [h, List.mem_filter]
      exact ⟨hs, by simp⟩
    exact exists_ok_of_mapM_ok (mapM_eq_ok_iff.mpr (build_eq_ok_iff.mp hx)) s
      (List.mem_filter.mp hmem).1
  have hx' : build steps' = .ok ⟨rules'⟩ := build_eq_ok_iff.mpr (mapM_eq_ok_iff.mp hrules')
  refine ⟨⟨rules'⟩, hx', fun k => ?_⟩
  have hk := rulesOf_of_build hx k
  rw [h, rulesOf_of_build hx' k] at hk
  exact (Except.ok.inj hk).symm

end Lexicon

/-! ## Lexers -/

namespace Cursor

variable {c : Cursor}

/-- A cursor moves over a text ahead, wherever it takes itself to stand. -/
theorem remaining?_advance {v rest : Text} (h : c.remaining? = some (v ++ rest)) :
    (c.advance v.byteSize).remaining? = some rest := by
  have hsome : (c.advance? v.byteSize).map remaining? = some (some rest) := by
    unfold advance?
    split
    · rename_i hnone
      rw [h] at hnone
      cases hnone
    · rename_i r hsome
      obtain rfl := Option.some.inj (h.symm.trans hsome)
      simp only [Option.map_some, Text.fitting_append, List.drop_left]
  obtain ⟨d, hd, hrest⟩ := Option.map_eq_some_iff.mp hsome
  rwa [advance, hd, Option.getD_some]

/-- Behind the blanks ahead of it stands the first other character. -/
theorem remaining?_skipBlanks {t : Text} (h : c.remaining? = some t) :
    c.skipBlanks.remaining? = some t.trimStart := by
  rw [skipBlanks, remaining, h, Option.getD_some]
  exact remaining?_advance (by rw [h, Text.takeWhile_append_trimStart])

end Cursor

namespace Lexer

variable {steps steps' : List RuleSource} {x : Lexicon} {l : Lexer}

/-- **In front of more than blanks** the lexicon is asked for what stands behind
them. -/
theorem nextOf_fst (hr : l.returned = []) (h : l.cursor.remaining.trimStart ≠ [])
    (kinds : List TokenKind) :
    (l.nextOf kinds).1 =
      l.lexicon.tokenOf? kinds l.cursor.remaining.trimStart l.cursor.skipBlanks.place := by
  rcases hc : l.cursor.remaining? with - | t
  · rw [Cursor.remaining, hc] at h
    exact absurd rfl h
  · have ht : l.cursor.remaining = t := by rw [Cursor.remaining, hc, Option.getD_some]
    have hskip := Cursor.remaining?_skipBlanks hc
    have hrest : l.cursor.skipBlanks.remaining = t.trimStart := by
      rw [Cursor.remaining, hskip, Option.getD_some]
    have hmore : l.cursor.skipBlanks.isEmpty = false := by
      rw [Cursor.isEmpty, hskip]
      simpa [ht] using h
    simp only [nextOf, hr, hmore, hrest, ht, Bool.false_eq_true, if_false]
    split
    · rename_i t htok
      exact htok.symm
    · rename_i htok
      exact htok.symm

/-- A lexer that reads by another lexicon. -/
def readingBy (l : Lexer) (x : Lexicon) : Lexer := { l with lexicon := x }

theorem nextOf_readingBy (h : ∀ k, l.lexicon.rulesOf k = x.rulesOf k) (kinds : List TokenKind) :
    (l.readingBy x).nextOf kinds = ((l.nextOf kinds).1, (l.nextOf kinds).2.readingBy x) := by
  obtain ⟨c, y, saved, returned⟩ := l
  cases returned with
  | cons t returned => rfl
  | nil =>
    have htok := Lexicon.tokenOf?_congr h kinds c.skipBlanks.remaining c.skipBlanks.place
    simp only [nextOf, readingBy, ← htok]
    split
    · rfl
    · split
      · rfl
      · rfl

theorem expectOf_readingBy (h : ∀ k, l.lexicon.rulesOf k = x.rulesOf k) (kinds : List TokenKind) :
    (l.readingBy x).expectOf kinds = ((l.expectOf kinds).1, (l.expectOf kinds).2.readingBy x) := by
  rw [expectOf, expectOf, nextOf_readingBy h]
  rcases l.nextOf kinds with ⟨- | t, l'⟩
  · rfl
  · rfl

/-- **One call** is answered alike by lexicons that have the same rules for
each kind. -/
theorem perform_readingBy (h : ∀ k, l.lexicon.rulesOf k = x.rulesOf k) (call : Call) :
    (l.readingBy x).perform call = ((l.perform call).1, (l.perform call).2.readingBy x) := by
  cases call with
  | nextOf kinds => simp only [perform, nextOf_readingBy h]
  | expectOf kinds => simp only [perform, expectOf_readingBy h]
  | nextToken => simp only [perform, nextToken, expectOf_readingBy h]
  | hasNext =>
    obtain ⟨c, y, saved, returned⟩ := l
    cases returned with
    | nil => rfl
    | cons t returned => rfl
  | restore =>
    obtain ⟨c, y, saved, returned⟩ := l
    cases saved with
    | nil => rfl
    | cons p saved => rfl
  | _ => rfl

/-- **So are any calls.** -/
theorem answers_readingBy (h : ∀ k, l.lexicon.rulesOf k = x.rulesOf k) (calls : List Call) :
    (l.readingBy x).answers calls = l.answers calls := by
  induction calls generalizing l with
  | nil => rfl
  | cons call calls ih =>
    have hleft : ∀ k, (l.perform call).2.lexicon.rulesOf k = x.rulesOf k := by
      rw [perform_lexicon]
      exact h
    rw [answers, answers, perform_readingBy h, ih hleft]

/-- And so is a run to the end of input. -/
theorem readUpTo_readingBy (h : ∀ k, l.lexicon.rulesOf k = x.rulesOf k) (n : Nat) :
    ((l.readingBy x).readUpTo n).tokens = (l.readUpTo n).tokens ∧
      ((l.readingBy x).readUpTo n).failure = (l.readUpTo n).failure := by
  induction n generalizing l with
  | zero => exact ⟨rfl, rfl⟩
  | succ n ih =>
    have hleft : ∀ k, l.nextToken.2.lexicon.rulesOf k = x.rulesOf k := by
      rw [nextToken, expectOf_snd, nextOf_lexicon]
      exact h
    simp only [nextToken] at hleft
    simp only [readUpTo, nextToken, expectOf_readingBy h]
    rcases hread : l.expectOf TokenKind.all with ⟨e | t, l'⟩
    · exact ⟨rfl, rfl⟩
    · rw [hread] at hleft
      obtain ⟨htokens, hfailure⟩ := ih hleft
      dsimp only
      split
      · exact ⟨rfl, rfl⟩
      · exact ⟨congrArg (List.cons t) htokens, hfailure⟩

theorem tokenize_readingBy (h : ∀ k, l.lexicon.rulesOf k = x.rulesOf k) :
    (l.readingBy x).tokenize.1 = l.tokenize.1 := by
  obtain ⟨htokens, hfailure⟩ :=
    readUpTo_readingBy h (l.cursor.remaining.length + l.returned.length + 1)
  change (l.readingBy x).run.tokens = l.run.tokens at htokens
  change (l.readingBy x).run.failure = l.run.failure at hfailure
  rw [tokenize, tokenize, hfailure, htokens]
  split
  · rfl
  · rfl

/-- **One longest match for all kinds.** Whatever steps register the rules of a
lexicon, and whatever kinds are asked for, in front of more than blanks a lexer
takes the token to choose of all that the rules of these kinds find there, and
none just when they find none. To ask the kinds one after the other and take
the longest of their longest is the same. And other steps that are the same for
each kind, whichever way the kinds follow each other, make a lexicon by which
every lexer answers all calls as it did. -/
theorem nextOf_chooses (hx : Lexicon.build steps = .ok x) :
    (∀ (l : Lexer) (kinds : List TokenKind), l.lexicon = x → l.returned = [] →
      let ahead := l.cursor.remaining.trimStart
      let place := l.cursor.skipBlanks.place
      ahead ≠ [] →
        (∀ t, (l.nextOf kinds).1 = some t ↔ Lexicon.Chooses steps kinds ahead place t) ∧
        ((l.nextOf kinds).1 = none ↔
          ∀ k ∈ kinds, ∀ step ∈ steps, ∀ t, ¬ step.Finds k ahead place t) ∧
        (l.nextOf kinds).1 = Token.longest (kinds.filterMap fun k => x.token? k ahead place)) ∧
    ∀ steps', (∀ k, (steps.filter fun s => s.kind = k) = steps'.filter fun s => s.kind = k) →
      ∃ x', Lexicon.build steps' = .ok x' ∧ ∀ l : Lexer, l.lexicon = x →
        (∀ calls, (l.readingBy x').answers calls = l.answers calls) ∧
          (l.readingBy x').tokenize.1 = l.tokenize.1 := by
  constructor
  · intro l kinds hl hr ahead place hahead
    rw [nextOf_fst hr hahead, hl]
    exact ⟨fun t => Lexicon.tokenOf?_eq_some_iff hx, Lexicon.tokenOf?_eq_none_iff_finds hx,
      Lexicon.tokenOf?_eq_longest x kinds ahead place⟩
  · intro steps' hsteps
    obtain ⟨x', hx', hrules⟩ := Lexicon.exists_build_of_filter_eq hx hsteps
    refine ⟨x', hx', fun l hl => ?_⟩
    rw [← hl] at hrules
    exact ⟨answers_readingBy hrules, tokenize_readingBy hrules⟩

/-- A word that three rules of two kinds find: it is of the kind asked for
first. -/
theorem nextOf_chooses_first :
    let steps : List RuleSource := [.pattern .identifier "if".toList, .keyword (.keyword .if_),
      .rule (.ofClass .identifier .identifier)]
    let steps' : List RuleSource := [.keyword (.keyword .if_), .pattern .identifier "if".toList,
      .rule (.ofClass .identifier .identifier)]
    Lexicon.Chooses steps [.identifier, .keyword .if_, .identifier] "if (".toList ⟨2, 2⟩
        ⟨.identifier, "if".toList, ⟨2, 2⟩⟩ ∧
      ∃ x x', Lexicon.build steps = .ok x ∧ Lexicon.build steps' = .ok x' ∧
        ∀ s calls, (ofText x' s).answers calls = (ofText x s).answers calls := by
  intro steps steps'
  have hx : Lexicon.build steps = .ok ⟨[⟨.identifier, .pattern ⟨#[.accept, .take (.single 'f') 0,
      .take (.single 'i') 1, .test .textStart 2], 3, true, 0⟩⟩, .ofSpelling (.keyword .if_) "if",
      .ofClass .identifier .identifier]⟩ := by decide +kernel
  obtain ⟨hchooses, hreorder⟩ := nextOf_chooses hx
  refine ⟨?_, ?_⟩
  · exact ((hchooses (ofText _ "\n if (".toList) [.identifier, .keyword .if_, .identifier] rfl rfl
      (by decide +kernel)).1 _).mp (by decide +kernel)
  · obtain ⟨x', hx', hsame⟩ := hreorder steps' fun k => by
      by_cases hk : k = .identifier
      · subst hk
        rfl
      · simp only [steps, steps', List.filter_cons, List.filter_nil]
        simp [RuleSource.kind, Rule.ofClass, Ne.symm hk]
    exact ⟨_, x', hx, hx', fun s calls => (hsame (ofText _ s) rfl).1 calls⟩

end Lexer

end StraightLine
