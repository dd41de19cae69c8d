import StraightLine.Text.Basic

/-!
# Doubles — the numbers of double precision

The finite magnitudes of double precision are counted upwards from zero, so a
magnitude is its rank in that order. The first `2 ^ 52` ranks are the multiples
of `2 ^ -1074`; from then on every `2 ^ 52` ranks the spacing doubles. Nothing
is computed with these numbers: they are read, kept and written.
-/

namespace StraightLine

/-- The number of finite magnitudes. -/
def finiteCount : Nat := 2047 * Nat.pow 2 52

/-- A number of double precision. -/
inductive Double where
  | finite (negative : Bool) (rank : Fin finiteCount)
  | infinite (negative : Bool)
  | notANumber
  deriving DecidableEq, Repr

namespace Double

/-- Zero, without a sign. -/
def zero : Double := .finite false ⟨0, by decide⟩

/-- The magnitude of a rank, or infinity when there is none so large. -/
def ofRank (negative : Bool) (rank : Nat) : Double :=
  if h : rank < finiteCount then .finite negative ⟨rank, h⟩ else .infinite negative

/-- A magnitude as `mantissa * 2 ^ exponent`. -/
structure Binary where
  mantissa : Nat
  exponent : Int
  deriving DecidableEq, Repr

/-- The magnitude of a rank. -/
def binary (rank : Nat) : Binary :=
  let spacing : Nat := rank / Nat.pow 2 52
  if spacing = 0 then ⟨rank, -1074⟩
  else ⟨Nat.pow 2 52 + rank % Nat.pow 2 52, (spacing : Int) - 1075⟩

end Double

end StraightLine
