import StraightLine.Text.Basic

/-!
# UTF-8 — texts as bytes

Every text has one form in bytes. Bytes are read one by one into pieces, and a
piece that is no character is told apart in two ways: the bytes seen so far can
have no character behind them, or they are the last ones and a character has
only begun. A file that has such a piece is no text (`decode`); a path that has
one is shown with a replacement in its place (`lossy`).
-/

namespace StraightLine

/-- The contents of a file. -/
abbrev Bytes := List UInt8

/-- Why bytes are no text, and from which byte on. -/
inductive Utf8Error where
  | invalid (length : Nat) (index : Nat)
  | incomplete (index : Nat)
  deriving DecidableEq, Repr

namespace Utf8Error

/-- The error in words. -/
def message : Utf8Error → String
  | invalid length index => s!"invalid utf-8 sequence of {length} bytes from index {index}"
  | incomplete index => s!"incomplete utf-8 byte sequence from index {index}"

end Utf8Error

namespace Utf8

/-! ## Reading -/

/-- A character that has begun: what its bytes say so far, how many they are,
how many are missing, and between which the next one lies. -/
structure Begun where
  code : Nat
  seen : Nat
  missing : Nat
  low : Nat
  high : Nat
  deriving DecidableEq, Repr

/-- What a first byte begins, when others have to follow it. -/
def lead? (a : Nat) : Option Begun :=
  if 0xC2 ≤ a ∧ a ≤ 0xDF then some ⟨a - 0xC0, 1, 1, 0x80, 0xBF⟩
  else if a = 0xE0 then some ⟨0, 1, 2, 0xA0, 0xBF⟩
  else if a = 0xED then some ⟨0xD, 1, 2, 0x80, 0x9F⟩
  else if 0xE1 ≤ a ∧ a ≤ 0xEF then some ⟨a - 0xE0, 1, 2, 0x80, 0xBF⟩
  else if a = 0xF0 then some ⟨0, 1, 3, 0x90, 0xBF⟩
  else if 0xF1 ≤ a ∧ a ≤ 0xF3 then some ⟨a - 0xF0, 1, 3, 0x80, 0xBF⟩
  else if a = 0xF4 then some ⟨4, 1, 3, 0x80, 0x8F⟩
  else none

/-- What some bytes are read as. -/
inductive Piece where
  | char (c : Char)
  /-- So many bytes, with which no character goes on. -/
  | invalid (length : Nat)
  /-- The last bytes, with which a character could go on. -/
  | incomplete
  deriving DecidableEq, Repr

/-- What a byte is read as where no character has begun, and what has begun
then. -/
def start (a : Nat) : List Piece × Option Begun :=
  if a < 0x80 then ([.char (Char.ofNat a)], none)
  else
    match lead? a with
    | none => ([.invalid 1], none)
    | some s => ([], some s)

/-- What a byte is read as, and what has begun then. -/
def next (b : Nat) : Option Begun → List Piece × Option Begun
  | none => start b
  | some s =>
    if b < s.low ∨ s.high < b then (.invalid s.seen :: (start b).1, (start b).2)
    else
      let code := s.code * 0x40 + (b - 0x80)
      if s.missing = 1 then ([.char (Char.ofNat code)], none)
      else ([], some ⟨code, s.seen + 1, s.missing - 1, 0x80, 0xBF⟩)

/-- Reads bytes behind what has begun. -/
def piecesFrom : Option Begun → Bytes → List Piece
  | none, [] => []
  | some _, [] => [.incomplete]
  | s, b :: rest => (next b.toNat s).1 ++ piecesFrom (next b.toNat s).2 rest

/-- What bytes are read as. -/
def pieces (bytes : Bytes) : List Piece := piecesFrom none bytes

/-- The text of pieces, the first of which starts at the byte `index`. -/
def textFrom : (index : Nat) → List Piece → Except Utf8Error Text
  | _, [] => .ok []
  | i, .char c :: ps => (textFrom (i + c.utf8Size) ps).map (c :: ·)
  | i, .invalid length :: _ => .error (.invalid length i)
  | i, .incomplete :: _ => .error (.incomplete i)

/-- The text that bytes stand for. -/
def decode (bytes : Bytes) : Except Utf8Error Text := textFrom 0 (pieces bytes)

/-- What a piece is shown as. -/
def Piece.shown : Piece → Char
  | char c => c
  | invalid _ => '\uFFFD'
  | incomplete => '\uFFFD'

/-- The text that bytes are shown as, whether they stand for it or not. -/
def lossy (bytes : Bytes) : Text := (pieces bytes).map Piece.shown

/-! ## Writing -/

/-- The bytes of a text. -/
def encode (t : Text) : Bytes := t.flatMap String.utf8EncodeChar

end Utf8

end StraightLine
