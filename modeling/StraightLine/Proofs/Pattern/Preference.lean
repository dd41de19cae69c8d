import StraightLine.Pattern.Match
import StraightLine.Proofs.Lexeme.Parts

/-!
# Preference — the ways in which a pattern matches, the preferred one first

The choices of a pattern are ordered, and so are the ways in which it matches
at a place: `Pattern.ways` lists the places they lead to. Of all matches in a
text the leftmost is meant, and of those that start there the one listed first
(`Pattern.leftmostFirst?`).

A reader of lexemes does not list anything; it takes one text or none. The two
are tied by `Prefers`: the first way leads behind what the reader takes, and
all others stop where the pattern could have gone on. When what stands behind
cannot start there, only the first way is left, so readers can be put one
behind the other as patterns are (`Prefers.seq`).
-/

namespace StraightLine

/-! ## Places -/

namespace Spot

variable {s : Spot} {l l' r r' : Text}

/-- The place behind a text that stands ahead, in front of the rest. -/
def past (s : Spot) (l r : Text) : Spot := ⟨l.getLast?.or s.before, s.index + l.length, r⟩

/-- The place behind so many characters of a text. -/
def behind (t : Text) (n : Nat) : Spot := ⟨(t.take n).getLast?, n, t.drop n⟩

@[simp] theorem past_ahead : (s.past l r).ahead = r := rfl

@[simp] theorem past_index : (s.past l r).index = s.index + l.length := rfl

@[simp] theorem past_nil : s.past [] s.ahead = s := rfl

@[simp] theorem past_past : (s.past l r).past l' r' = s.past (l ++ l') r' := by
  simp [past, List.getLast?_append, Option.or_assoc, Nat.add_assoc]

end Spot

/-! ## Ways -/

namespace Pattern

/-- So many rounds. -/
def times (round : Spot → List Spot) : Nat → Spot → List Spot
  | 0, s => [s]
  | n + 1, s => (round s).flatMap (times round n)

/-- At most so many rounds, with more of them preferred or fewer. No round
follows one that takes nothing. -/
def atMost (greedy : Bool) (round : Spot → List Spot) : Nat → Spot → List Spot
  | 0, s => [s]
  | n + 1, s =>
    let more := (round s).flatMap fun s' =>
      if s.index < s'.index then atMost greedy round n s' else [s']
    if greedy then more ++ [s] else s :: more

/-- **The places to which a pattern leads**, the preferred one first. Every
round of a repetition but the last takes something, so there are not more than
the text ahead has characters, and one. -/
def ways : Pattern → Spot → List Spot
  | empty, s => [s]
  | literal t, s => ((Text.after? t s.ahead).map (s.past t)).toList
  | set chars, s =>
    match s.ahead with
    | c :: t => if chars.holds c then [s.past [c] t] else []
    | [] => []
  | look l, s => if l.holds s.before s.ahead then [s] else []
  | seq p q, s => (p.ways s).flatMap q.ways
  | alt p q, s => p.ways s ++ q.ways s
  | group _ p, s => p.ways s
  | repetition greedy low high p, s =>
    (times p.ways low s).flatMap fun s' =>
      atMost greedy p.ways ((high.map (· - low)).getD (s'.ahead.length + 1)) s'

/-- **The leftmost match** in a text, the preferred one of those that start
there. -/
def leftmostFirst? (p : Pattern) (t : Text) : Option Text :=
  (List.range (t.length + 1)).findSome? fun n =>
    (p.ways (.behind t n)).head?.map fun s => (t.take s.index).drop n

/-- What is held to the start of the text is looked for there alone. -/
theorem leftmostFirst?_anchored (p : Pattern) (t : Text) :
    (seq (look .textStart) p).leftmostFirst? t =
      (p.ways (.behind t 0)).head?.map fun s => t.take s.index := by
  have hnone : ∀ n ∈ List.range t.length,
      (seq (look .textStart) p).ways (.behind t (n + 1)) = [] := by
    intro n hn
    have hne : t.take (n + 1) ≠ [] := by
      rw [Ne, ← List.length_eq_zero_iff, List.length_take]
      have := List.mem_range.mp hn
      omega
    simp [ways, Look.holds, Spot.behind, hne]
  rw [leftmostFirst?, List.range_succ_eq_map, List.findSome?_cons]
  have hstart : (seq (look .textStart) p).ways (.behind t 0) = p.ways (.behind t 0) := by
    simp [ways, Look.holds, Spot.behind]
  rw [hstart]
  cases hfirst : (p.ways (.behind t 0)).head? with
  | some s => simp
  | none =>
    simp only [Option.map_none, List.findSome?_map, List.findSome?_eq_none_iff]
    intro n hn
    simp [hnone n hn]

end Pattern

/-! ## Patterns and readers -/

namespace Pattern

/-- **A pattern prefers what a reader takes.** Its first way leads behind it,
the others stop in front of texts of some kind, and where the reader takes
nothing there is no way at all. -/
structure Prefers (p : Pattern) (f : Text → Option (Text × Text)) (more : Text → Prop) :
    Prop where
  fails : ∀ s : Spot, f s.ahead = none → p.ways s = []
  leads : ∀ (s : Spot) (l r : Text), f s.ahead = some (l, r) →
    ∃ others, p.ways s = s.past l r :: others ∧ ∀ s' ∈ others, more s'.ahead

/-- **A pattern has the one way** that a reader takes. -/
abbrev Decided (p : Pattern) (f : Text → Option (Text × Text)) : Prop :=
  p.Prefers f fun _ => False

variable {p q : Pattern} {f g : Text → Option (Text × Text)} {more more' : Text → Prop}
  {holds : Char → Bool} {chars : CharSet} {s : Spot} {t l r : Text}

theorem Decided.ways_eq (h : p.Decided f) (s : Spot) :
    p.ways s = ((f s.ahead).map fun x => s.past x.1 x.2).toList := by
  cases hf : f s.ahead with
  | none => exact h.fails s hf
  | some x =>
    obtain ⟨others, hways, hothers⟩ := h.leads s x.1 x.2 hf
    rw [hways, List.eq_nil_iff_forall_not_mem.mpr fun s' hs' => hothers s' hs']
    rfl

theorem decided_of_ways_eq
    (h : ∀ s : Spot, p.ways s = ((f s.ahead).map fun x => s.past x.1 x.2).toList) :
    p.Decided f where
  fails s hf := by
    rw [h, hf]
    rfl
  leads s l r hf := ⟨[], by rw [h, hf]; rfl, by simp⟩

/-- Less can be said of where the other ways stop. -/
theorem Prefers.mono (h : p.Prefers f more) (hm : ∀ t, more t → more' t) : p.Prefers f more' where
  fails := h.fails
  leads s l r hf := by
    obtain ⟨others, hways, hothers⟩ := h.leads s l r hf
    exact ⟨others, hways, fun s' hs' => hm _ (hothers s' hs')⟩

theorem decided_literal (t : Text) :
    (literal t).Decided fun u => (Text.after? t u).map fun r => (t, r) :=
  decided_of_ways_eq fun s => by
    rw [ways, Option.map_map]
    rfl

theorem decided_set (h : ∀ c, chars.holds c = holds c) : (set chars).Decided (Text.one holds) :=
  decided_of_ways_eq fun s => by
    rw [ways]
    rcases s.ahead with - | ⟨c, t⟩
    · rfl
    · simp only [Text.one, h c]
      split <;> rfl

theorem decided_char {c : Char} (h : ∀ d, holds d = (d == c)) :
    (literal [c]).Decided (Text.one holds) :=
  decided_of_ways_eq fun s => by
    rw [ways]
    rcases s.ahead with - | ⟨d, t⟩
    · rfl
    · by_cases hd : c = d
      · simp [Text.after?, Text.one, h, hd]
      · simp [Text.after?, Text.one, h, hd, Ne.symm hd]

/-- Of two patterns only one can match. -/
theorem Decided.alt (hp : p.Decided f) (hq : q.Decided g) (h : ∀ t, f t = none ∨ g t = none) :
    (alt p q).Decided fun t => (f t).or (g t) :=
  decided_of_ways_eq fun s => by
    rw [ways, hp.ways_eq, hq.ways_eq]
    rcases h s.ahead with hf | hg
    · simp [hf]
    · simp [hg]

/-- **One behind the other**: where the first could have gone on, the second
does not start. -/
theorem Prefers.seq (hp : p.Prefers f more) (hq : q.Prefers g more')
    (h : ∀ t, more t → g t = none) : (seq p q).Prefers (Text.andThen f g) more' where
  fails s hfg := by
    rw [ways]
    cases hf : f s.ahead with
    | none => simp [hp.fails s hf]
    | some x =>
      obtain ⟨others, hways, hothers⟩ := hp.leads s x.1 x.2 hf
      have hg : g x.2 = none := by
        simpa [Text.andThen, hf, Text.behind] using hfg
      rw [hways, List.flatMap_cons, hq.fails _ hg, List.nil_append, List.flatMap_eq_nil_iff]
      exact fun s' hs' => hq.fails s' (h _ (hothers s' hs'))
  leads s l r hfg := by
    cases hf : f s.ahead with
    | none => simp [Text.andThen, hf] at hfg
    | some x =>
      obtain ⟨others, hways, hothers⟩ := hp.leads s x.1 x.2 hf
      have hbehind : Text.behind x.1 (g x.2) = some (l, r) := by
        simpa [Text.andThen, hf] using hfg
      obtain ⟨⟨l', r'⟩, hg, heq⟩ := Option.map_eq_some_iff.mp hbehind
      obtain ⟨rfl, rfl⟩ := Prod.mk.inj heq
      obtain ⟨others', hways', hothers'⟩ := hq.leads (s.past x.1 x.2) l' r' hg
      have hrest : others.flatMap q.ways = [] := List.flatMap_eq_nil_iff.mpr fun s' hs' =>
        hq.fails s' (h _ (hothers s' hs'))
      refine ⟨others', ?_, hothers'⟩
      rw [ways, hways, List.flatMap_cons, hrest, List.append_nil, hways', Spot.past_past]

/-- **Once or not at all.** -/
theorem Decided.optional (hp : p.Decided f) :
    (repetition true 0 (some 1) p).Prefers (Text.optional f) fun t => (f t).isSome where
  fails s h := by cases h
  leads s l r h := by
    have hways : (repetition true 0 (some 1) p).ways s = p.ways s ++ [s] := by
      simp [ways, times, atMost]
    rw [hways, hp.ways_eq]
    cases hf : f s.ahead with
    | none =>
      obtain ⟨rfl, rfl⟩ : [] = l ∧ s.ahead = r := by simpa [Text.optional, hf] using h
      exact ⟨[], rfl, by simp⟩
    | some x =>
      obtain rfl : x = (l, r) := by simpa [Text.optional, hf] using h
      exact ⟨[s], rfl, by simp [hf]⟩

/-- As many rounds as there are: the first way takes them all, and the others
stop in front of a round. -/
theorem Decided.exists_atMost (hp : p.Decided f) (hf : ∀ t l r, f t = some (l, r) → l ≠ [])
    (n : Nat) (s : Spot) :
    ∃ others, atMost true p.ways n s =
        s.past (Text.rounds f n s.ahead).1 (Text.rounds f n s.ahead).2 :: others ∧
      ∀ s' ∈ others, (f s'.ahead).isSome := by
  induction n generalizing s with
  | zero => exact ⟨[], rfl, by simp⟩
  | succ n ih =>
    cases hfs : f s.ahead with
    | none => exact ⟨[], by simp [atMost, hp.fails s hfs, Text.rounds, hfs], by simp⟩
    | some x =>
      obtain ⟨l, r⟩ := x
      obtain ⟨others, hways, hothers⟩ := ih (s.past l r)
      have hpos : 0 < l.length := List.length_pos_iff.mpr (hf _ _ _ hfs)
      refine ⟨others ++ [s], ?_, ?_⟩
      · rw [atMost, hp.ways_eq, hfs]
        simp [hpos, hways, Text.rounds, hfs]
      · rintro s' hs'
        rcases List.mem_append.mp hs' with hs' | hs'
        · exact hothers s' hs'
        · rw [List.mem_singleton.mp hs', hfs]
          rfl

/-- **As often as possible.** -/
theorem Decided.many (hp : p.Decided f) (hf : ∀ t l r, f t = some (l, r) → l ≠ []) :
    (repetition true 0 none p).Prefers (Text.many f) fun t => (f t).isSome where
  fails s h := by cases h
  leads s l r h := by
    obtain ⟨others, hways, hothers⟩ := hp.exists_atMost hf (s.ahead.length + 1) s
    refine ⟨others, ?_, hothers⟩
    rw [Option.some.inj h] at hways
    simpa [ways, times] using hways

/-- **At least once** is once and then as often as possible. -/
theorem ways_plus (greedy : Bool) (p : Pattern) (s : Spot) :
    (repetition greedy 1 none p).ways s = (seq p (repetition greedy 0 none p)).ways s := by
  simp [ways, times]

theorem Decided.plus (hp : p.Decided f) (hf : ∀ t l r, f t = some (l, r) → l ≠ []) :
    (repetition true 1 none p).Prefers (Text.andThen f (Text.many f)) fun t => (f t).isSome := by
  have hseq := Prefers.seq hp (hp.many hf) (fun _ h => h.elim)
  exact ⟨fun s h => by rw [ways_plus]; exact hseq.fails s h,
    fun s l r h => by rw [ways_plus]; exact hseq.leads s l r h⟩

/-- **What the leftmost match is**, where a reader says what is preferred. -/
theorem Prefers.leftmostFirst?_eq (hp : p.Prefers f more)
    (hf : ∀ t l r, f t = some (l, r) → t = l ++ r) (t : Text) :
    (Pattern.seq (look .textStart) p).leftmostFirst? t = (f t).map Prod.fst := by
  rw [leftmostFirst?_anchored]
  cases hft : f t with
  | none => simp [hp.fails (.behind t 0) hft]
  | some x =>
    obtain ⟨others, hways, -⟩ := hp.leads (.behind t 0) x.1 x.2 hft
    have htake : t.take x.1.length = x.1 := by
      rw [hf t x.1 x.2 hft]
      exact List.take_left
    rw [hways]
    simp [Spot.behind, htake]

end Pattern

end StraightLine
