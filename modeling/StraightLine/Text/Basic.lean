/-!
# Text — characters, and their bytes

A text is a list of characters. Offsets into it count the bytes of its
UTF-8 form, so a position is meaningful only between two characters:
`fromByte?` is the one way to stand at an offset, and it refuses one that
falls inside a character. `fitting` cuts the other way, taking as many
characters as a number of bytes holds.
-/

namespace StraightLine

/-- Source text, lexemes and everything written from them. -/
abbrev Text := List Char

/-- The characters of Unicode's `White_Space` property. -/
def isBlank (c : Char) : Bool :=
  let n := c.toNat
  (9 ≤ n && n ≤ 13) || n == 0x20 || n == 0x85 || n == 0xA0 || n == 0x1680 ||
    (0x2000 ≤ n && n ≤ 0x200A) || n == 0x2028 || n == 0x2029 || n == 0x202F ||
    n == 0x205F || n == 0x3000

namespace Text

/-- The number of bytes a text occupies in UTF-8. -/
def byteSize : Text → Nat
  | [] => 0
  | c :: t => c.utf8Size + byteSize t

/-- The text from byte `n` on, when `n` falls between two characters. -/
def fromByte? : Text → Nat → Option Text
  | t, 0 => some t
  | [], _ + 1 => none
  | c :: t, n + 1 => if c.utf8Size ≤ n + 1 then fromByte? t (n + 1 - c.utf8Size) else none

/-- The longest prefix that occupies at most `n` bytes. -/
def fitting : Nat → Text → Text
  | _, [] => []
  | n, c :: t => if c.utf8Size ≤ n then c :: fitting (n - c.utf8Size) t else []

/-- The parts between the marks of a text, or of anything that is written in
marks and others; one more than there are marks. -/
def cutAt {α : Type} [DecidableEq α] (mark : α) : List α → List (List α)
  | [] => [[]]
  | c :: t =>
    if c = mark then [] :: cutAt mark t
    else
      match cutAt mark t with
      | [] => [[c]]
      | s :: ss => (c :: s) :: ss

/-- The text without its leading blanks. -/
def trimStart (t : Text) : Text := t.dropWhile isBlank

/-- The text without blanks at either end. -/
def trim (t : Text) : Text := ((t.dropWhile isBlank).reverse.dropWhile isBlank).reverse

/-- What remains of `t` after the prefix `p`, when `t` starts with it. -/
def after? : (p t : Text) → Option Text
  | [], t => some t
  | _ :: _, [] => none
  | c :: p, d :: t => if c = d then after? p t else none

@[simp] theorem byteSize_append (s t : Text) : byteSize (s ++ t) = byteSize s + byteSize t := by
  induction s with
  | nil => simp [byteSize]
  | cons c s ih => simp [byteSize, ih, Nat.add_assoc]

/-- After the bytes of a prefix stands what follows it. -/
theorem fromByte?_append (s r : Text) : fromByte? (s ++ r) (byteSize s) = some r := by
  induction s with
  | nil => cases r <;> rfl
  | cons c s ih =>
    have hc := c.utf8Size_pos
    obtain ⟨n, hn⟩ : ∃ n, byteSize (c :: s) = n + 1 :=
      ⟨c.utf8Size + byteSize s - 1, by simp only [byteSize]; omega⟩
    have hs : n + 1 - c.utf8Size = byteSize s := by simp only [byteSize] at hn; omega
    have hle : c.utf8Size ≤ n + 1 := by simp only [byteSize] at hn; omega
    rw [List.cons_append, hn, fromByte?, if_pos hle, hs, ih]

/-- **An offset stands between two characters**: it is where some prefix
ends. -/
theorem eq_append_of_fromByte? {t r : Text} {n : Nat} (h : fromByte? t n = some r) :
    ∃ s, t = s ++ r ∧ n = byteSize s := by
  induction t generalizing n with
  | nil =>
    cases n with
    | zero => exact ⟨[], by simpa [fromByte?] using h, rfl⟩
    | succ n => simp [fromByte?] at h
  | cons c t ih =>
    cases n with
    | zero => exact ⟨[], by simpa [fromByte?] using h, rfl⟩
    | succ n =>
      rw [fromByte?] at h
      split at h
      · obtain ⟨s, rfl, hs⟩ := ih h
        exact ⟨c :: s, rfl, by simp only [byteSize]; omega⟩
      · cases h

/-- What fits is a prefix. -/
theorem fitting_append_drop (n : Nat) (t : Text) :
    fitting n t ++ t.drop (fitting n t).length = t := by
  induction t generalizing n with
  | nil => simp [fitting]
  | cons c t ih =>
    by_cases h : c.utf8Size ≤ n
    · simp [fitting, h, ih]
    · simp [fitting, h]

/-- Moving over what fits leads from between two characters to between two
characters. -/
theorem fromByte?_fitting {t r : Text} {n : Nat} (h : fromByte? t n = some r) (b : Nat) :
    fromByte? t (n + byteSize (fitting b r)) = some (r.drop (fitting b r).length) := by
  obtain ⟨s, rfl, rfl⟩ := eq_append_of_fromByte? h
  have key := fromByte?_append (s ++ fitting b r) (r.drop (fitting b r).length)
  rwa [byteSize_append, List.append_assoc, fitting_append_drop] at key

/-- **A cut loses nothing**: what `after?` leaves follows the prefix. -/
theorem eq_append_of_after? {p t r : Text} (h : after? p t = some r) : t = p ++ r := by
  induction p generalizing t with
  | nil => simpa [after?] using h
  | cons c p ih =>
    cases t with
    | nil => simp [after?] at h
    | cons d t =>
      by_cases hcd : c = d
      · simp only [after?, hcd, if_true] at h
        simp [hcd, ih h]
      · simp [after?, hcd] at h

/-- A prefix is always found where it was put. -/
@[simp] theorem after?_append (p r : Text) : after? p (p ++ r) = some r := by
  induction p with
  | nil => simp [after?]
  | cons c p ih => simp [after?, ih]

end Text

end StraightLine
