import Mathlib.Algebra.Order.Field.Rat
import Mathlib.Tactic.FieldSimp
import Mathlib.Tactic.Linarith
import Mathlib.Tactic.Ring

/-! # Decimal text

The integer conversions of `printf` on lists of characters, and a reader for signed
decimal numbers with an optional fraction. What the reader makes of a printed
integer part, a point and a zero-padded fraction is computed once, here.
-/

namespace N6Samples.Decimal

/-! ## Printing -/

/-- `%d`. -/
def showInt (n : ℤ) : List Char :=
  if n < 0 then '-' :: Nat.toDigits 10 n.natAbs else Nat.toDigits 10 n.natAbs

/-- `%0wd` of a non-negative number. -/
def showPadded (width n : ℕ) : List Char :=
  List.replicate (width - (Nat.toDigits 10 n).length) '0' ++ Nat.toDigits 10 n

/-! ## Reading -/

def readNat (cs : List Char) : Option ℕ :=
  if cs ≠ [] ∧ cs.all Char.isDigit then some (Nat.ofDigitChars 10 cs 0) else none

/-- The text before the first point, and the text after it if there is one. -/
def splitPoint : List Char → List Char × Option (List Char)
  | [] => ([], none)
  | c :: cs =>
      if c = '.' then ([], some cs)
      else
        let rest := splitPoint cs
        (c :: rest.1, rest.2)

def readUnsigned (cs : List Char) : Option ℚ :=
  match splitPoint cs with
  | (whole, none) => (readNat whole).map fun a => (a : ℚ)
  | (whole, some fraction) =>
      match readNat whole, readNat fraction with
      | some a, some b => some ((a : ℚ) + b / 10 ^ fraction.length)
      | _, _ => none

def readDecimal : List Char → Option ℚ
  | '-' :: cs => (readUnsigned cs).map fun q => -q
  | cs => readUnsigned cs

/-! ## Reading back -/

theorem isDigit_toDigits (n : ℕ) : (Nat.toDigits 10 n).all Char.isDigit = true :=
  List.all_eq_true.mpr fun _ hc => Nat.isDigit_of_mem_toDigits (by omega) (by omega) hc

@[simp] theorem readNat_toDigits (n : ℕ) : readNat (Nat.toDigits 10 n) = some n := by
  rw [readNat, if_pos ⟨Nat.toDigits_ne_nil, isDigit_toDigits n⟩, Nat.ofDigitChars_ten_toDigits]

theorem length_showPadded {width n : ℕ} (hwidth : 0 < width) (h : n < 10 ^ width) :
    (showPadded width n).length = width := by
  have hlength := (Nat.length_toDigits_le_iff (b := 10) (by omega) hwidth).mpr h
  rw [showPadded, List.length_append, List.length_replicate]
  omega

@[simp] theorem readNat_showPadded (width n : ℕ) : readNat (showPadded width n) = some n := by
  have hdigits : (showPadded width n).all Char.isDigit = true := by
    rw [showPadded, List.all_append, isDigit_toDigits, Bool.and_true]
    apply List.all_eq_true.mpr
    intro c hc
    rw [List.eq_of_mem_replicate hc]
    decide
  have hne : showPadded width n ≠ [] := by
    simp [showPadded]
  rw [readNat, if_pos ⟨hne, hdigits⟩, showPadded, Nat.ofDigitChars_append,
    Nat.ofDigitChars_replicate_zero, Nat.mul_zero, Nat.ofDigitChars_ten_toDigits]

theorem splitPoint_digits {cs : List Char} (h : cs.all Char.isDigit = true) (rest : List Char) :
    splitPoint (cs ++ '.' :: rest) = (cs, some rest) := by
  induction cs with
  | nil => rfl
  | cons c cs ih =>
      simp only [List.all_cons, Bool.and_eq_true] at h
      have hne : c ≠ '.' := by
        intro heq
        rw [heq] at h
        exact absurd h.1 (by decide)
      rw [List.cons_append, splitPoint, if_neg hne, ih h.2]

theorem readUnsigned_fixed (a : ℕ) {b width : ℕ} (hwidth : 0 < width) (h : b < 10 ^ width) :
    readUnsigned (Nat.toDigits 10 a ++ '.' :: showPadded width b) =
      some ((a : ℚ) + b / 10 ^ width) := by
  simp only [readUnsigned, splitPoint_digits (isDigit_toDigits a), readNat_toDigits,
    readNat_showPadded, length_showPadded hwidth h]

/-- A text that starts with a digit has no sign. -/
theorem readDecimal_toDigits (a : ℕ) (rest : List Char) :
    readDecimal (Nat.toDigits 10 a ++ rest) = readUnsigned (Nat.toDigits 10 a ++ rest) := by
  cases hdigits : Nat.toDigits 10 a with
  | nil => exact absurd hdigits Nat.toDigits_ne_nil
  | cons c cs =>
      have hc : c.isDigit = true :=
        Nat.isDigit_of_mem_toDigits (b := 10) (n := a) (by omega) (by omega)
          (by rw [hdigits]; exact List.mem_cons_self)
      have hne : c ≠ '-' := by
        intro heq
        rw [heq] at hc
        exact absurd hc (by decide)
      rw [List.cons_append]
      unfold readDecimal
      split
      · rename_i heq
        exact absurd (List.cons.inj heq).1 hne
      · rfl

/-- A printed integer part with a fraction reads as the integer moved away from zero
by the fraction: the sign is that of the integer part alone. -/
theorem readDecimal_fixed (a : ℤ) {b width : ℕ} (hwidth : 0 < width) (h : b < 10 ^ width) :
    readDecimal (showInt a ++ '.' :: showPadded width b) =
      some (if a < 0 then (a : ℚ) - b / 10 ^ width else (a : ℚ) + b / 10 ^ width) := by
  unfold showInt
  by_cases ha : a < 0
  · rw [if_pos ha, if_pos ha, List.cons_append, readDecimal, readUnsigned_fixed _ hwidth h,
      Option.map_some, Nat.cast_natAbs, abs_of_neg ha]
    push_cast
    congr 1
    ring
  · rw [if_neg ha, if_neg ha, readDecimal_toDigits, readUnsigned_fixed _ hwidth h,
      Nat.cast_natAbs, abs_of_nonneg (not_lt.mp ha)]

end N6Samples.Decimal
