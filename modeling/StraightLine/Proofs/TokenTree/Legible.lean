import Mathlib.Data.List.Nodup
import StraightLine.Proofs.Decimal.Written
import StraightLine.Proofs.Lexer.Totality
import StraightLine.Proofs.TokenTree.Drawing

/-!
# Legible drawings — a tree told from its text

A label ends at the first quote that has no backslash in front of it, whatever
the token contains (`unquote_label`), and the word it starts with ends at the
first colon. So a label tells its token, but for the place
(`unplaced_eq_of_label`), and the edges behind it end where the number of another
node follows (`edges_text_inj`). By the number of edges it is known how many
children wait in the queue, so that entries tell the trees from the front of the
queue on (`map_unplaced_of_text_eq`). **`digraph_faithful`** says what a drawing
consists of, and that it tells the tree.
-/

namespace StraightLine

/-! ## Names and numbers -/

/-- A character that stands for itself in a label, and is no colon. -/
def isBare (c : Char) : Bool := c != '"' && c != '\\' && c != ':'

theorem isBare_iff {c : Char} : isBare c = true ↔ (c ≠ '"' ∧ c ≠ '\\') ∧ c ≠ ':' := by
  simp [isBare]

namespace TokenKind

theorem name_bare (k : TokenKind) : k.name.toList.all isBare = true :=
  List.all_eq_true.mp (by decide +kernel : all.all (fun k => k.name.toList.all isBare) = true) k
    (mem_all k)

theorem names_nodup : ("ROOT".toList :: all.map fun k => k.name.toList).Nodup := by decide +kernel

/-- No two kinds have one name. -/
theorem name_injective {k k' : TokenKind} (h : k.name.toList = k'.name.toList) : k = k' :=
  List.inj_on_of_nodup_map (List.nodup_cons.mp names_nodup).2 (mem_all k) (mem_all k') h

/-- And none has the word that stands for no token. -/
theorem name_ne_root (k : TokenKind) : k.name.toList ≠ "ROOT".toList := fun h =>
  (List.nodup_cons.mp names_nodup).1 (List.mem_map.mpr ⟨k, mem_all k, h⟩)

end TokenKind

namespace Text

/-- A number ends where a blank follows it. -/
theorem ofNat_append_inj {m n : Nat} {s s' : Text}
    (h : ofNat m ++ ' ' :: s = ofNat n ++ ' ' :: s') : m = n := by
  have hcut (k : Nat) (r : Text) :
      (ofNat k ++ ' ' :: r).takeWhile Char.isDigit = ofNat k :=
    takeWhile_append (digits_ofNat k).2 (startsOutside_cons rfl)
  have hdigits : ofNat m = ofNat n := by rw [← hcut m s, h, hcut n s']
  rw [← digitsValue_ofNat m, hdigits, digitsValue_ofNat]

end Text

/-! ## Trees without places -/

/-- A token without its place. -/
def Token.unplaced (t : Token) : Token := { t with place := Place.start }

namespace TokenTree

mutual

/-- A tree without the places of its tokens. -/
def unplaced : TokenTree → TokenTree
  | node token children => node (token.map Token.unplaced) (unplacedAll children)

/-- Some trees without the places of their tokens. -/
def unplacedAll : List TokenTree → List TokenTree
  | [] => []
  | t :: ts => t.unplaced :: unplacedAll ts

end

theorem unplacedAll_eq_map (ts : List TokenTree) : unplacedAll ts = ts.map unplaced := by
  induction ts with
  | nil => rw [unplacedAll, List.map_nil]
  | cons t ts ih => rw [unplacedAll, ih, List.map_cons]

@[simp] theorem unplaced_node (token : Option Token) (ts : List TokenTree) :
    (node token ts).unplaced = node (token.map Token.unplaced) (ts.map unplaced) := by
  rw [unplaced, unplacedAll_eq_map]

theorem label_unplaced (token : Option Token) : label (token.map Token.unplaced) = label token := by
  cases token with
  | none => rfl
  | some t => rfl

theorem breadthFirst_unplaced (ts : List TokenTree) :
    breadthFirst (ts.map unplaced) = (breadthFirst ts).map unplaced := by
  induction ts using breadthFirst.induct with
  | case1 => simp
  | case2 token children pending ih =>
    rw [List.map_append] at ih
    rw [List.map_cons, unplaced_node, breadthFirst, breadthFirst, ih, List.map_cons, unplaced_node]

theorem text_entries_unplaced (ts : List TokenTree) (id next : Nat) :
    (entries (ts.map unplaced) id next).flatMap Entry.text =
      (entries ts id next).flatMap Entry.text := by
  induction ts generalizing id next with
  | nil => rfl
  | cons t ts ih =>
    obtain ⟨token, children⟩ := t
    simp only [List.map_cons, unplaced_node, entries, TokenTree.token, TokenTree.children,
      List.length_map, List.flatMap_cons, List.flatMap_append, Entry.text, labelLine,
      label_unplaced, ih]

/-- **Places are not drawn.** -/
theorem digraph_unplaced (t : TokenTree) : t.unplaced.digraph = t.digraph := by
  have hnodes := breadthFirst_unplaced [t]
  rw [List.map_singleton] at hnodes
  rw [digraph_eq, digraph_eq, hnodes, text_entries_unplaced]

/-! ## Labels -/

/-- Reads a text in quotes up to the quote that ends it: what stands behind a
backslash is taken as it is. -/
def unquote : Text → Option (Text × Text)
  | [] => none
  | '"' :: rest => some ([], rest)
  | '\\' :: c :: rest => (unquote rest).map fun p => (c :: p.1, p.2)
  | c :: rest => (unquote rest).map fun p => (c :: p.1, p.2)

theorem unquote_quote (rest : Text) : unquote ('"' :: rest) = some ([], rest) := by rw [unquote]

theorem unquote_backslash (c : Char) (s : Text) :
    unquote ('\\' :: c :: s) = (unquote s).map fun p => (c :: p.1, p.2) := by rw [unquote]

theorem unquote_cons {c : Char} (hq : c ≠ '"') (hb : c ≠ '\\') (s : Text) :
    unquote (c :: s) = (unquote s).map fun p => (c :: p.1, p.2) := by
  rw [unquote]
  · exact hq
  · rintro _ _ rfl
    exact absurd rfl hb

/-- Characters that need no backslash are read as they are. -/
theorem unquote_append {w : Text} (h : ∀ c ∈ w, c ≠ '"' ∧ c ≠ '\\') (s : Text) :
    unquote (w ++ s) = (unquote s).map fun p => (w ++ p.1, p.2) := by
  induction w with
  | nil => simp
  | cons c w ih =>
    obtain ⟨⟨hq, hb⟩, hw⟩ := List.forall_mem_cons.mp h
    rw [List.cons_append, unquote_cons hq hb, ih hw, Option.map_map]
    rfl

theorem escapeLabel_cons (c : Char) (v : Text) :
    escapeLabel (c :: v) =
      (if c = '\\' then ['\\', '\\'] else if c = '"' then ['\\', '"'] else [c]) ++
        escapeLabel v := by
  by_cases hb : c = '\\'
  · subst hb
    rfl
  · by_cases hq : c = '"'
    · subst hq
      rfl
    · simp [escapeLabel, doubleBackslashes, escapeQuotes, hb, hq]

/-- **An escaped text** is read back, and its end is found, whatever is in it. -/
theorem unquote_escapeLabel (v rest : Text) :
    unquote (escapeLabel v ++ '"' :: rest) = some (v, rest) := by
  induction v with
  | nil => exact unquote_quote rest
  | cons c v ih =>
    rw [escapeLabel_cons]
    split
    · rename_i hc
      rw [List.append_assoc, List.cons_append, List.cons_append, unquote_backslash,
        List.nil_append, ih, hc]
      rfl
    · split
      · rename_i hc
        rw [List.append_assoc, List.cons_append, List.cons_append, unquote_backslash,
          List.nil_append, ih, hc]
        rfl
      · rename_i hb hq
        rw [List.append_assoc, List.singleton_append, unquote_cons hq hb, ih]
        rfl

/-- The word that a label starts with. -/
def word : Option Token → Text
  | none => "ROOT".toList
  | some t => t.kind.name.toList

/-- What follows it in a label, without any backslashes put in. -/
def remark : Option Token → Text
  | none => []
  | some t =>
    match t.value with
    | [] => []
    | c :: value => ": ".toList ++ c :: value

/-- In the word of a label there is nothing to escape, and no colon. -/
theorem word_plain (token : Option Token) : ∀ c ∈ word token, (c ≠ '"' ∧ c ≠ '\\') ∧ c ≠ ':' := by
  have hbare : (word token).all isBare = true := by
    cases token with
    | none => rfl
    | some t => exact t.kind.name_bare
  exact fun c hc => isBare_iff.mp (List.all_eq_true.mp hbare c hc)

/-- **A label** is read back as its word and its remark, and its end is found. -/
theorem unquote_label (token : Option Token) (rest : Text) :
    unquote (label token ++ '"' :: rest) = some (word token ++ remark token, rest) := by
  have hword := unquote_append fun c hc => (word_plain token c hc).1
  rcases token with - | ⟨kind, - | ⟨c, value⟩, place⟩
  · exact hword _
  · exact (hword _).trans (by simp [unquote_quote, word, remark])
  · change unquote (kind.name.toList ++ ": ".toList ++ escapeLabel (c :: value) ++ '"' :: rest) = _
    rw [List.append_assoc, List.append_assoc]
    refine (hword _).trans ?_
    change Option.map _ (unquote (':' :: ' ' :: (escapeLabel (c :: value) ++ '"' :: rest))) = _
    rw [unquote_cons (by decide) (by decide), unquote_cons (by decide) (by decide),
      unquote_escapeLabel]
    rfl

theorem value_eq_of_remark {t u : Token} (h : remark (some t) = remark (some u)) :
    t.value = u.value := by
  obtain ⟨kind, value, place⟩ := t
  obtain ⟨kind', value', place'⟩ := u
  rcases value with - | ⟨c, value⟩
  · rcases value' with - | ⟨c', value'⟩
    · rfl
    · cases h
  · rcases value' with - | ⟨c', value'⟩
    · cases h
    · exact List.append_cancel_left h

/-- **The word and the remark** tell the token, but for its place. -/
theorem unplaced_eq_of_label {a b : Option Token}
    (h : word a ++ remark a = word b ++ remark b) :
    a.map Token.unplaced = b.map Token.unplaced := by
  have hcut (o : Option Token) : (word o ++ remark o).takeWhile (fun c => c ≠ ':') = word o := by
    refine Text.takeWhile_append (fun c hc => by simpa using (word_plain o c hc).2) ?_
    rcases o with - | ⟨kind, - | ⟨c, value⟩, place⟩
    · exact fun c hc => nomatch hc
    · exact fun c hc => nomatch hc
    · change Text.StartsOutside _ (':' :: ' ' :: c :: value)
      exact Text.startsOutside_cons (by decide)
  have hword : word a = word b := by rw [← hcut a, h, hcut b]
  have hremark : remark a = remark b := List.append_cancel_left (hword ▸ h)
  rcases a with - | t
  · rcases b with - | u
    · rfl
    · exact absurd hword.symm (TokenKind.name_ne_root u.kind)
  · rcases b with - | u
    · exact absurd hword (TokenKind.name_ne_root t.kind)
    · have hkind : t.kind = u.kind := TokenKind.name_injective hword
      have hvalue : t.value = u.value := value_eq_of_remark hremark
      simp only [Option.map_some, Token.unplaced, hkind, hvalue]

/-! ## Entries read back -/

/-- A text does not go on about a node when it does not start with the number of
this node. -/
def LeavesNode (id : Nat) (r : Text) : Prop := ∀ s, r ≠ ' ' :: ' ' :: (Text.ofNat id ++ ' ' :: s)

theorem text_label (id : Nat) (token : Option Token) (r : Text) :
    (Entry.label id token).text ++ r = ' ' :: ' ' :: (Text.ofNat id ++ ' ' ::
      ("[label=\"".toList ++ (label token ++ '"' :: ']' :: '\n' :: r))) := by
  simp [Entry.text, labelLine]

theorem text_edge (id child : Nat) (r : Text) :
    (Entry.edge id child).text ++ r =
      ' ' :: ' ' :: (Text.ofNat id ++ ' ' :: ("-> ".toList ++ Text.ofNat child ++ '\n' :: r)) := by
  simp [Entry.text]

theorem leavesNode_of_entries (ts : List TokenTree) (id next : Nat) :
    LeavesNode id ((entries ts (id + 1) next).flatMap Entry.text ++ "\x7d\n".toList) := by
  intro s h
  rcases ts with - | ⟨t, ts⟩
  · cases h
  · rw [entries, List.flatMap_cons, List.append_assoc, text_label] at h
    have hid := Text.ofNat_append_inj (List.cons.inj (List.cons.inj h).2).2
    omega

/-- **One label** is told from what follows it. -/
theorem label_text_inj {id : Nat} {a b : Option Token} {r r' : Text}
    (h : (Entry.label id a).text ++ r = (Entry.label id b).text ++ r') :
    a.map Token.unplaced = b.map Token.unplaced ∧ r = r' := by
  rw [text_label, text_label] at h
  have hlabel := List.append_cancel_left (List.cons.inj (List.append_cancel_left
    (List.cons.inj (List.cons.inj h).2).2)).2
  have hread := congrArg unquote hlabel
  rw [unquote_label, unquote_label] at hread
  obtain ⟨htoken, hrest⟩ := Prod.mk.inj (Option.some.inj hread)
  exact ⟨unplaced_eq_of_label htoken, (List.cons.inj (List.cons.inj hrest).2).2⟩

/-- **The edges of one node** are told from what follows them. -/
theorem edges_text_inj {id next m n : Nat} {r r' : Text} (hr : LeavesNode id r)
    (hr' : LeavesNode id r')
    (h : (edges id next m).flatMap Entry.text ++ r = (edges id next n).flatMap Entry.text ++ r') :
    m = n ∧ r = r' := by
  induction m generalizing next n with
  | zero =>
    cases n with
    | zero => exact ⟨rfl, h⟩
    | succ n =>
      rw [edges_succ, List.flatMap_cons, List.append_assoc, text_edge] at h
      exact absurd h (hr _)
  | succ m ih =>
    cases n with
    | zero =>
      rw [edges_succ, List.flatMap_cons, List.append_assoc, text_edge] at h
      exact absurd h.symm (hr' _)
    | succ n =>
      rw [edges_succ, edges_succ, List.flatMap_cons, List.flatMap_cons, List.append_assoc,
        List.append_assoc] at h
      obtain ⟨rfl, rfl⟩ := ih (List.append_cancel_left h)
      exact ⟨rfl, rfl⟩

/-- **Trees that wait in a queue** are told from the entries of what is taken
from it: the first one by its label and its edges, and its children wait behind
the others. -/
theorem map_unplaced_of_text_eq {ps qs : List TokenTree} {id next : Nat}
    (hlen : ps.length = qs.length)
    (h : (entries (breadthFirst ps) id next).flatMap Entry.text ++ "\x7d\n".toList =
      (entries (breadthFirst qs) id next).flatMap Entry.text ++ "\x7d\n".toList) :
    ps.map unplaced = qs.map unplaced := by
  induction ps using breadthFirst.induct generalizing qs id next with
  | case1 => rw [List.eq_nil_of_length_eq_zero hlen.symm]
  | case2 token children pending ih =>
    rcases qs with - | ⟨⟨token', children'⟩, pending'⟩
    · cases hlen
    · simp only [List.length_cons, Nat.add_right_cancel_iff] at hlen
      simp only [breadthFirst, entries, List.flatMap_cons, List.flatMap_append,
        List.append_assoc] at h
      obtain ⟨htoken, hedges⟩ : token.map Token.unplaced = token'.map Token.unplaced ∧ _ :=
        label_text_inj h
      obtain ⟨hcount, hrest⟩ := edges_text_inj (leavesNode_of_entries _ id _)
        (leavesNode_of_entries _ id _) hedges
      simp only [TokenTree.children] at hcount
      simp only [TokenTree.children, hcount] at hrest
      have hmap := ih (by rw [List.length_append, List.length_append, hlen, hcount]) hrest
      rw [List.map_append, List.map_append] at hmap
      obtain ⟨hpending, hchildren⟩ := List.append_inj hmap (by simpa using hlen)
      rw [List.map_cons, List.map_cons, unplaced_node, unplaced_node, htoken, hpending, hchildren]

/-- **A drawing is a faithful encoding.** Whatever tokens stand at its nodes, and
wherever there is none, what is written about a tree between the first and the
last line are entries that draw it, with its nodes numbered in the order of the
queue. And two trees have the same drawing just when they are the same but for
the places of their tokens. -/
theorem digraph_faithful :
    (∀ t : TokenTree, ∃ drawn, t.Draws (breadthFirst [t]) drawn ∧
      t.digraph = "digraph CST \x7b\n".toList ++
        (drawn.flatMap Entry.text ++ "\x7d\n".toList)) ∧
    ∀ t u : TokenTree, t.digraph = u.digraph ↔ t.unplaced = u.unplaced := by
  refine ⟨fun t => ⟨_, t.draws_entries, t.digraph_eq⟩, fun t u => ⟨fun h => ?_, fun h => ?_⟩⟩
  · rw [digraph_eq, digraph_eq] at h
    have hmap : [t].map unplaced = [u].map unplaced :=
      map_unplaced_of_text_eq rfl (List.append_cancel_left h)
    exact (List.cons.inj hmap).1
  · rw [← digraph_unplaced t, h, digraph_unplaced]

/-- A token that looks like the end of a label and an edge behind it. -/
example : (node none [leaf ⟨.string, "\"]\n  0 -> 9\\".toList, ⟨1, 1⟩⟩]).digraph =
    ("digraph CST \x7b\n  0 [label=\"ROOT\"]\n  0 -> 1\n" ++
      "  1 [label=\"STRING: \\\"]\n  0 -> 9\\\\\"]\n\x7d\n").toList := by decide +kernel

end TokenTree

end StraightLine
