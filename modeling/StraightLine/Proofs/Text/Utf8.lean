import Mathlib.Algebra.Group.Nat.Defs
import Mathlib.Data.List.Basic
import Mathlib.Tactic.SplitIfs
import StraightLine.Text.Utf8

/-!
# Bytes as texts — what is kept where they are none

The bytes of a text are read as its characters (`piecesFrom_encodeChar`), so a
text is shown as itself (`lossy_encode`). Bytes that stand for no text are shown
as another one, but what is below 128 stays: such a byte ends whatever has begun
in front of it, so it divides bytes as it divides what they are shown as
(`lossy_append`). And no other byte is shown as it (`exists_mem_of_mem_lossy`),
since what has begun can only end in a code above (`Begun.Sound`).
-/

namespace StraightLine

namespace Utf8

variable {s s' : Begun} {b : Nat} {c : Char} {t u : Text} {bytes rest : Bytes}

theorem encode_append (t u : Text) : encode (t ++ u) = encode t ++ encode u := List.flatMap_append

/-! ## One byte more -/

/-- A byte that begins a character. -/
theorem next_lead (hb : 0x80 ≤ b) (h : lead? b = some s) : next b none = ([], some s) := by
  simp only [next, start, if_neg (Nat.not_lt.mpr hb), h]

/-- A byte that goes on with one. -/
theorem next_tail (hb : s.low ≤ b ∧ b ≤ s.high) (hs : s.missing ≠ 1) :
    next b (some s) =
      ([], some ⟨s.code * 0x40 + (b - 0x80), s.seen + 1, s.missing - 1, 0x80, 0xBF⟩) := by
  have hfits : ¬ (b < s.low ∨ s.high < b) := by omega
  simp only [next, if_neg hfits, if_neg hs]

/-- A byte that ends one. -/
theorem next_last (hb : s.low ≤ b ∧ b ≤ s.high) (hs : s.missing = 1) :
    next b (some s) = ([.char (Char.ofNat (s.code * 0x40 + (b - 0x80)))], none) := by
  have hfits : ¬ (b < s.low ∨ s.high < b) := by omega
  simp only [next, if_neg hfits, if_pos hs]

theorem piecesFrom_cons (s : Option Begun) (b : UInt8) (rest : Bytes) :
    piecesFrom s (b :: rest) = (next b.toNat s).1 ++ piecesFrom (next b.toNat s).2 rest := by
  cases s with
  | none => rfl
  | some s => rfl

/-! ## Texts -/

theorem lead?_two : ∀ q < 32, 2 ≤ q → lead? (q + 192) = some ⟨q, 1, 1, 0x80, 0xBF⟩ := by decide

theorem lead?_three : ∀ q < 16, lead? (q + 224) =
    some ⟨q, 1, 2, if q = 0 then 0xA0 else 0x80, if q = 13 then 0x9F else 0xBF⟩ := by decide

theorem lead?_four : ∀ q < 5, lead? (q + 240) =
    some ⟨q, 1, 3, if q = 0 then 0x90 else 0x80, if q = 4 then 0x8F else 0xBF⟩ := by decide

/-- **The bytes of a character** are read as it. -/
theorem piecesFrom_encodeChar (c : Char) (rest : Bytes) :
    piecesFrom none (String.utf8EncodeChar c ++ rest) = .char c :: piecesFrom none rest := by
  have hvalid : c.toNat < 0xD800 ∨ 0xDFFF < c.toNat ∧ c.toNat < 0x110000 := c.valid
  have hback : Char.ofNat c.toNat = c := Char.ofNat_toNat c
  have hbyte {k : Nat} (hk : k < 256) : (UInt8.ofNat k).toNat = k := UInt8.toNat_ofNat_of_lt' hk
  have htail (k : Nat) : (UInt8.ofNat (k % 64 + 128)).toNat = k % 64 + 128 := hbyte (by omega)
  have hfits (k : Nat) : 0x80 ≤ k % 64 + 128 ∧ k % 64 + 128 ≤ 0xBF := by omega
  simp only [String.utf8EncodeChar, Char.toNat_val]
  generalize c.toNat = n at hvalid hback
  subst hback
  -- there is a case for each number of bytes
  split
  · rw [List.singleton_append, piecesFrom_cons, hbyte (by omega), next, start,
      if_pos (by omega), List.singleton_append]
  split
  · have hlead := lead?_two (n / 64 % 32) (by omega) (by omega)
    have hcode : n / 64 % 32 * 64 + (n % 64 + 128 - 128) = n := by omega
    simp only [List.cons_append, List.nil_append, piecesFrom_cons, htail]
    rw [hbyte (by omega), next_lead (by omega) hlead, next_last (hfits n) rfl, hcode]
    rfl
  split
  · have hlead := lead?_three (n / 4096 % 16) (by omega)
    have hfirst : (if n / 4096 % 16 = 0 then 0xA0 else 0x80) ≤ n / 64 % 64 + 128 ∧
        n / 64 % 64 + 128 ≤ (if n / 4096 % 16 = 13 then 0x9F else 0xBF) := by
      constructor
      · split <;> omega
      · split <;> omega
    have hcode : (n / 4096 % 16 * 64 + (n / 64 % 64 + 128 - 128)) * 64 + (n % 64 + 128 - 128) =
        n := by omega
    simp only [List.cons_append, List.nil_append, piecesFrom_cons, htail]
    rw [hbyte (by omega), next_lead (by omega) hlead, next_tail hfirst (by simp),
      next_last (hfits n) rfl, hcode]
    rfl
  · have hlead := lead?_four (n / 262144 % 8) (by omega)
    have hfirst : (if n / 262144 % 8 = 0 then 0x90 else 0x80) ≤ n / 4096 % 64 + 128 ∧
        n / 4096 % 64 + 128 ≤ (if n / 262144 % 8 = 4 then 0x8F else 0xBF) := by
      constructor
      · split <;> omega
      · split <;> omega
    have hcode : ((n / 262144 % 8 * 64 + (n / 4096 % 64 + 128 - 128)) * 64 +
        (n / 64 % 64 + 128 - 128)) * 64 + (n % 64 + 128 - 128) = n := by omega
    simp only [List.cons_append, List.nil_append, piecesFrom_cons, htail]
    rw [hbyte (by omega), next_lead (by omega) hlead, next_tail hfirst (by simp),
      next_tail (hfits _) (by simp), next_last (hfits n) rfl, hcode]
    rfl

theorem lossy_encode_append (t : Text) (rest : Bytes) :
    lossy (encode t ++ rest) = t ++ lossy rest := by
  induction t with
  | nil => rfl
  | cons c t ih =>
    rw [lossy, pieces] at ih ⊢
    rw [encode, List.flatMap_cons, ← encode, List.append_assoc, piecesFrom_encodeChar,
      List.map_cons, ih]
    rfl

/-- **A text is shown as itself.** -/
@[simp] theorem lossy_encode (t : Text) : lossy (encode t) = t := by
  have hall := lossy_encode_append t []
  rwa [List.append_nil, show lossy [] = [] from rfl, List.append_nil] at hall

/-- So its bytes tell it. -/
theorem encode_injective : Function.Injective encode :=
  Function.LeftInverse.injective lossy_encode

/-! ## What has begun -/

namespace Begun

/-- The least code that a character which has begun can have. -/
def least (s : Begun) : Nat := (s.code * 64 + (s.low - 128)) * 64 ^ (s.missing - 1)

/-- And the first that it cannot have any more. -/
def bound (s : Begun) : Nat := (s.code * 64 + (s.high - 128) + 1) * 64 ^ (s.missing - 1)

/-- **What has begun ends in a character** above 127. -/
structure Sound (s : Begun) : Prop where
  low : 128 ≤ s.low
  missing : 1 ≤ s.missing ∧ s.missing ≤ 3
  above : 128 ≤ s.least
  valid : s.bound ≤ 0xD800 ∨ 0xE000 ≤ s.least ∧ s.bound ≤ 0x110000

end Begun

theorem sound_none : ∀ s ∈ (none : Option Begun), s.Sound :=
  fun s hs => absurd hs (Option.not_mem_none s)

/-- What a byte begins is such. -/
theorem sound_of_lead? (h : lead? b = some s) : s.Sound := by
  have hsound {code missing low high : Nat} (hlow : 128 ≤ low)
      (hmissing : 1 ≤ missing ∧ missing ≤ 3)
      (habove : 128 ≤ (code * 64 + (low - 128)) * 64 ^ (missing - 1))
      (hvalid : (code * 64 + (high - 128) + 1) * 64 ^ (missing - 1) ≤ 0xD800 ∨
        0xE000 ≤ (code * 64 + (low - 128)) * 64 ^ (missing - 1) ∧
          (code * 64 + (high - 128) + 1) * 64 ^ (missing - 1) ≤ 0x110000) :
      Begun.Sound ⟨code, 1, missing, low, high⟩ := ⟨hlow, hmissing, habove, hvalid⟩
  unfold lead? at h
  split_ifs at h
  all_goals
    obtain rfl := Option.some.inj h
    refine hsound (by omega) (by omega) ?_ ?_
    · simp only [Nat.reduceSub, Nat.reducePow]
      omega
    · simp only [Nat.reduceSub, Nat.reducePow]
      omega

/-- **A code is that of a character** between the bounds of what has begun. -/
theorem Begun.Sound.toNat_ofNat (hs : s.Sound) {n : Nat} (hn : s.least ≤ n ∧ n < s.bound) :
    (Char.ofNat n).toNat = n := by
  have hvalid : n.isValidChar := by
    have hbounds := hs.valid
    unfold Nat.isValidChar
    omega
  rw [Char.ofNat, dif_pos hvalid]
  rfl

/-- What has begun goes on between its bounds. -/
theorem Begun.Sound.tail (hs : s.Sound) (hb : s.low ≤ b ∧ b ≤ s.high) (hmissing : s.missing ≠ 1) :
    Begun.Sound ⟨s.code * 0x40 + (b - 0x80), s.seen + 1, s.missing - 1, 0x80, 0xBF⟩ := by
  obtain ⟨hlow, hrange, habove, hvalid⟩ := hs
  obtain ⟨m, hm⟩ : ∃ m, s.missing = m + 2 := ⟨s.missing - 2, by omega⟩
  have hleast : s.least ≤ (s.code * 64 + (b - 128)) * 64 ^ (s.missing - 1) :=
    Nat.mul_le_mul_right _ (by omega)
  have hbound : (s.code * 64 + (b - 128) + 1) * 64 ^ (s.missing - 1) ≤ s.bound :=
    Nat.mul_le_mul_right _ (by omega)
  have hpow (k : Nat) : k * 64 ^ (m + 1) = k * 64 * 64 ^ m := by
    rw [Nat.pow_succ', Nat.mul_assoc]
  rw [hm, Nat.add_succ_sub_one, hpow] at hleast hbound
  generalize s.code * 64 + (b - 128) = code at hleast hbound ⊢
  have hnext : Begun.least ⟨code, s.seen + 1, s.missing - 1, 0x80, 0xBF⟩ = code * 64 * 64 ^ m := by
    simp only [Begun.least, hm, Nat.add_succ_sub_one, Nat.add_zero, Nat.sub_self]
  have hnext' : Begun.bound ⟨code, s.seen + 1, s.missing - 1, 0x80, 0xBF⟩ =
      (code + 1) * 64 * 64 ^ m := by
    rw [Nat.add_one_mul code 64]
    simp only [Begun.bound, hm, Nat.add_succ_sub_one, Nat.reduceSub, Nat.add_assoc, Nat.reduceAdd,
      Nat.add_zero]
  refine ⟨Nat.le_refl _, ?_, ?_, ?_⟩
  · simp only
    omega
  · rw [hnext]
    omega
  · rw [hnext, hnext']
    omega

/-- And ends between them. -/
theorem Begun.Sound.last (hs : s.Sound) (hb : s.low ≤ b ∧ b ≤ s.high) (hmissing : s.missing = 1) :
    128 ≤ (Char.ofNat (s.code * 0x40 + (b - 0x80))).toNat := by
  have hlow : 128 ≤ s.low := hs.low
  have hbetween : s.least ≤ s.code * 0x40 + (b - 0x80) ∧ s.code * 0x40 + (b - 0x80) < s.bound := by
    rw [Begun.least, Begun.bound, hmissing]
    simp only [Nat.reduceSub, Nat.reducePow]
    omega
  rw [hs.toNat_ofNat hbetween]
  exact Nat.le_trans hs.above hbetween.1

/-- A byte where no character has begun. -/
theorem start_sound (b : Nat) :
    (∀ s ∈ (start b).2, s.Sound) ∧ ∀ c, .char c ∈ (start b).1 → c.toNat < 128 → c.toNat = b := by
  unfold start
  split
  · rename_i hb
    refine ⟨sound_none, fun c hc _ => ?_⟩
    obtain rfl := Piece.char.inj (List.mem_singleton.mp hc)
    have hvalid : b.isValidChar := .inl (by omega)
    rw [Char.ofNat, dif_pos hvalid]
    rfl
  · split
    · refine ⟨sound_none, fun c hc => ?_⟩
      cases List.mem_singleton.mp hc
    · rename_i s hs
      refine ⟨fun s' hs' => ?_, fun c hc => absurd hc List.not_mem_nil⟩
      obtain rfl := Option.some.inj hs'
      exact sound_of_lead? hs

/-- **One byte more**: what has begun stays such, and a character below 128 is
read from the byte itself. -/
theorem next_sound {s : Option Begun} (hs : ∀ s' ∈ s, s'.Sound) (b : Nat) :
    (∀ s' ∈ (next b s).2, s'.Sound) ∧
      ∀ c, .char c ∈ (next b s).1 → c.toNat < 128 → c.toNat = b := by
  obtain ⟨hbegun, hread⟩ := start_sound b
  cases s with
  | none => exact ⟨hbegun, hread⟩
  | some s =>
    have hsound : s.Sound := hs s rfl
    by_cases hfits : b < s.low ∨ s.high < b
    · rw [next, if_pos hfits]
      refine ⟨hbegun, fun c hc => ?_⟩
      rcases List.mem_cons.mp hc with hc | hc
      · cases hc
      · exact hread c hc
    have hb : s.low ≤ b ∧ b ≤ s.high := by omega
    by_cases hmissing : s.missing = 1
    · rw [next_last hb hmissing]
      refine ⟨by simp, fun c hc hlt => ?_⟩
      rw [List.mem_singleton, Piece.char.injEq] at hc
      have habove : 128 ≤ c.toNat := hc ▸ hsound.last hb hmissing
      omega
    · rw [next_tail hb hmissing]
      refine ⟨fun s' hs' => ?_, fun c hc => absurd hc List.not_mem_nil⟩
      obtain rfl := Option.some.inj hs'
      exact hsound.tail hb hmissing

/-! ## Below 128 -/

/-- A replacement is not below 128. -/
theorem eq_char_of_shown {p : Piece} (h : p.shown.toNat < 128) : p = .char p.shown := by
  cases p with
  | char c => rfl
  | invalid length => exact absurd h (show ¬ '\uFFFD'.toNat < 128 by decide)
  | incomplete => exact absurd h (by decide)

theorem exists_mem_of_mem_piecesFrom {s : Option Begun} (hs : ∀ s' ∈ s, s'.Sound)
    (hc : .char c ∈ piecesFrom s bytes) (hlt : c.toNat < 128) :
    ∃ b ∈ bytes, b.toNat = c.toNat := by
  induction bytes generalizing s with
  | nil =>
    cases s with
    | none => cases hc
    | some s => cases List.mem_singleton.mp hc
  | cons b bytes ih =>
    obtain ⟨hbegun, hread⟩ := next_sound hs b.toNat
    rw [piecesFrom_cons] at hc
    rcases List.mem_append.mp hc with hc | hc
    · exact ⟨b, List.mem_cons_self, (hread c hc hlt).symm⟩
    · obtain ⟨b', hb', heq⟩ := ih hbegun hc
      exact ⟨b', List.mem_cons_of_mem b hb', heq⟩

/-- **What is shown below 128** is a byte. -/
theorem exists_mem_of_mem_lossy (hc : c ∈ lossy bytes) (hlt : c.toNat < 128) :
    ∃ b ∈ bytes, b.toNat = c.toNat := by
  obtain ⟨piece, hpiece, rfl⟩ := List.mem_map.mp hc
  rw [eq_char_of_shown hlt] at hpiece
  exact exists_mem_of_mem_piecesFrom sound_none hpiece hlt

/-- Such a byte ends what has begun in front of it. -/
theorem shown_append {s : Option Begun} (hs : ∀ s' ∈ s, s'.Sound) {x : UInt8} (hx : x.toNat < 128)
    (bytes rest : Bytes) :
    (piecesFrom s (bytes ++ x :: rest)).map Piece.shown =
      (piecesFrom s bytes).map Piece.shown ++ Char.ofNat x.toNat :: lossy rest := by
  have hstart : start x.toNat = ([.char (Char.ofNat x.toNat)], none) := by rw [start, if_pos hx]
  induction bytes generalizing s with
  | nil =>
    rw [List.nil_append, piecesFrom_cons]
    cases s with
    | none =>
      rw [next, hstart]
      rfl
    | some s =>
      have hlow : 128 ≤ s.low := (hs s rfl).low
      rw [next, if_pos (.inl (by omega)), hstart]
      rfl
  | cons b bytes ih =>
    rw [List.cons_append, piecesFrom_cons, piecesFrom_cons, List.map_append, List.map_append,
      ih (next_sound hs b.toNat).1, List.append_assoc]

/-- **And it divides the bytes** in front of it and those behind it. -/
theorem lossy_append {x : UInt8} (hx : x.toNat < 128) (bytes rest : Bytes) :
    lossy (bytes ++ x :: rest) = lossy bytes ++ Char.ofNat x.toNat :: lossy rest :=
  shown_append sound_none hx bytes rest

/-! ## The last byte -/

theorem next_ne_nil_none (b : Nat) (s : Option Begun) : next b s ≠ ([], none) := by
  have hstart : start b ≠ ([], none) := by
    unfold start
    split
    · simp
    · split
      · simp
      · simp
  cases s with
  | none => exact hstart
  | some s =>
    rw [next]
    split
    · simp
    · simp only
      split
      · simp
      · simp

theorem piecesFrom_eq_nil {s : Option Begun} (h : piecesFrom s bytes = []) :
    s = none ∧ bytes = [] := by
  induction bytes generalizing s with
  | nil =>
    cases s with
    | none => exact ⟨rfl, rfl⟩
    | some s => cases h
  | cons b bytes ih =>
    rw [piecesFrom_cons, List.append_eq_nil_iff] at h
    exact absurd (Prod.ext h.1 (ih h.2).1) (next_ne_nil_none b.toNat s)

theorem getLast?_of_getLast?_piecesFrom {s : Option Begun} (hs : ∀ s' ∈ s, s'.Sound)
    (h : (piecesFrom s bytes).getLast? = some (.char c)) (hlt : c.toNat < 128) :
    ∃ b, bytes.getLast? = some b ∧ b.toNat = c.toNat := by
  induction bytes generalizing s with
  | nil =>
    cases s with
    | none => cases h
    | some s => cases h
  | cons b bytes ih =>
    obtain ⟨hbegun, hread⟩ := next_sound hs b.toNat
    rw [piecesFrom_cons] at h
    by_cases hrest : piecesFrom (next b.toNat s).2 bytes = []
    · obtain ⟨-, rfl⟩ := piecesFrom_eq_nil hrest
      rw [hrest, List.append_nil] at h
      exact ⟨b, rfl, (hread c (List.mem_of_getLast? h) hlt).symm⟩
    · rw [List.getLast?_append_of_ne_nil _ hrest] at h
      obtain ⟨b', hb', heq⟩ := ih hbegun h
      exact ⟨b', by rw [List.getLast?_cons, hb', Option.getD_some], heq⟩

/-- **What is shown last** is the last byte, if it is below 128. -/
theorem getLast?_of_getLast?_lossy (h : (lossy bytes).getLast? = some c) (hlt : c.toNat < 128) :
    ∃ b, bytes.getLast? = some b ∧ b.toNat = c.toNat := by
  rw [lossy, List.getLast?_map] at h
  obtain ⟨piece, hpiece, rfl⟩ := Option.map_eq_some_iff.mp h
  rw [eq_char_of_shown hlt] at hpiece
  exact getLast?_of_getLast?_piecesFrom sound_none hpiece hlt

end Utf8

end StraightLine
