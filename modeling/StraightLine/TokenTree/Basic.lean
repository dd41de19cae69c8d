import StraightLine.Token.Basic

/-!
# Token trees — tokens grouped by their brackets

An opening token owns what follows it up to its closing token, which is its
last child; every other token is a leaf, and the root has no token. The end of
input has no place in a tree.

The tokens are taken one by one into a `Nesting`: the groups still open, each
with what stands before it, and the trees of the innermost one.
-/

namespace StraightLine

/-- A tree of tokens. -/
inductive TokenTree where
  | node (token : Option Token) (children : List TokenTree)
  deriving Repr

/-- What is wrong with a bracket. -/
inductive Imbalance where
  | noOpener
  | wrongCloser
  | neverClosed
  deriving DecidableEq, Repr

/-- What is wrong, in words. -/
def Imbalance.reason : Imbalance → String
  | .noOpener => "no matching opener"
  | .wrongCloser => "does not close the innermost group"
  | .neverClosed => "never closed"

/-- A bracket without its partner, and what is wrong with it. -/
structure UnbalancedError where
  found : Text
  place : Place
  reason : String
  deriving DecidableEq, Repr

namespace UnbalancedError

/-- The error of a token. -/
def ofToken (t : Token) (imbalance : Imbalance) : UnbalancedError :=
  ⟨t.value, t.place, imbalance.reason⟩

/-- The error in words. -/
def message (e : UnbalancedError) : String :=
  s!"Unbalanced delimiter '{String.ofList e.found}' at {e.place.line}:{e.place.column}: {e.reason}"

end UnbalancedError

namespace TokenTree

/-- A tree without tokens. -/
def empty : TokenTree := node none []

/-- A token on its own. -/
def leaf (t : Token) : TokenTree := node (some t) []

/-- The token of a tree. -/
def token : TokenTree → Option Token
  | node token _ => token

/-- The trees below a tree. -/
def children : TokenTree → List TokenTree
  | node _ children => children

/-- A tree with one more child at the end. -/
def push : TokenTree → TokenTree → TokenTree
  | node token children, child => node token (children ++ [child])

/-- The child of an index taken modulo their number, so that negative indices
count from the end. -/
def child? (t : TokenTree) (i : Int) : Option TokenTree :=
  match t.children with
  | [] => none
  | c :: cs => (c :: cs)[(i % ((c :: cs).length : Int)).toNat]?

/-- The tree reached by going from child to child. -/
def follow? (t : TokenTree) : List Int → Option TokenTree
  | [] => some t
  | i :: path => (t.child? i).bind fun c => c.follow? path

mutual

/-- The tokens of a tree, each before those below it. -/
def tokens : TokenTree → List Token
  | node token children => token.toList ++ tokensOf children

/-- The tokens of some trees. -/
def tokensOf : List TokenTree → List Token
  | [] => []
  | t :: ts => t.tokens ++ tokensOf ts

end

mutual

/-- The number of levels of a tree. -/
def height : TokenTree → Nat
  | node _ children => heightOf children + 1

/-- The number of levels of some trees side by side. -/
def heightOf : List TokenTree → Nat
  | [] => 0
  | t :: ts => max t.height (heightOf ts)

end

/-- The groups still open, innermost first, each as its opening token and the
trees before it, and the trees of the innermost group. All trees are listed
latest first. -/
structure Nesting where
  opened : List (Token × List TokenTree)
  trees : List TokenTree

namespace Nesting

/-- Before the first token. -/
def start : Nesting := ⟨[], []⟩

/-- Takes a token up. -/
def step (n : Nesting) (t : Token) : Except UnbalancedError Nesting :=
  if t.kind = .endOfInput then .ok n
  else if t.kind.isOpening then .ok ⟨(t, n.trees) :: n.opened, []⟩
  else if t.kind.isClosing then
    match n.opened with
    | [] => .error (.ofToken t .noOpener)
    | (opener, before) :: opened =>
      if opener.kind.closer? = some t.kind then
        .ok ⟨opened, node (some opener) (leaf t :: n.trees).reverse :: before⟩
      else .error (.ofToken t .wrongCloser)
  else .ok ⟨n.opened, leaf t :: n.trees⟩

/-- Takes tokens up in order. -/
def run (n : Nesting) : List Token → Except UnbalancedError Nesting
  | [] => .ok n
  | t :: ts =>
    match n.step t with
    | .error e => .error e
    | .ok n => n.run ts

/-- The whole tree, once every group is closed. -/
def finish (n : Nesting) : Except UnbalancedError TokenTree :=
  match n.opened with
  | [] => .ok (node none n.trees.reverse)
  | (opener, _) :: _ => .error (.ofToken opener .neverClosed)

end Nesting

/-- Groups tokens by their brackets. -/
def ofTokens (ts : List Token) : Except UnbalancedError TokenTree :=
  match Nesting.start.run ts with
  | .error e => .error e
  | .ok n => n.finish

end TokenTree

end StraightLine
