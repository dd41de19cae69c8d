import StraightLine.Text.Basic

/-!
# Artifact kinds — what can be written for a source
-/

namespace StraightLine

/-- What can be written for a source. -/
inductive ArtifactKind where
  | tokens
  | tree
  | program
  | code
  deriving DecidableEq, Repr

namespace ArtifactKind

/-- Every kind. -/
def all : List ArtifactKind := [.tokens, .tree, .program, .code]

/-- The name a kind is asked for and stored under. -/
def name : ArtifactKind → String
  | tokens => "tokens"
  | tree => "cst"
  | program => "ast"
  | code => "il"

/-- What follows the stem of a source in the name of an artifact's file. -/
def extension : ArtifactKind → String
  | tokens => "tokens.json"
  | tree => "cst.dot"
  | program => "ast.json"
  | code => "il"

/-- The kind of a name, in any case and with blanks around it. -/
def ofName? (t : Text) : Option ArtifactKind :=
  all.find? fun k => k.name.toList == t.trim.map Char.toLower

end ArtifactKind

end StraightLine
