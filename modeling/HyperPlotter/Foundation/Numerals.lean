import Mathlib.Data.List.TakeWhile
import HyperPlotter.Foundation.MachineInt

/-!
# Numbers in text

Decimal numbers as a stream writes them and as `stoull` and `stoll` read them,
and the pieces of a text between separators.
-/

namespace HyperPlotter.Foundation

/-- A text. -/
abbrev Text := List Char

/-- A number as a stream writes it. -/
def decimal (n : Nat) : Text := Nat.toDigits 10 n

/-- The characters a conversion skips first. -/
def isBlank (c : Char) : Bool := c.toNat == 32 || (9 ≤ c.toNat && c.toNat ≤ 13)

/-- The sign and the digits a conversion reads. What follows them is ignored. -/
def numeral (text : Text) : Bool × Text :=
  match text.dropWhile isBlank with
  | '-' :: rest => (true, rest.takeWhile Char.isDigit)
  | '+' :: rest => (false, rest.takeWhile Char.isDigit)
  | rest => (false, rest.takeWhile Char.isDigit)

/-- `stoull`, none where it throws. A negative number is taken modulo `2^64`. -/
def stoull (text : Text) : Option Nat :=
  let read := numeral text
  let value := Nat.ofDigitChars 10 read.2 0
  if read.2 = [] ∨ 18446744073709551616 ≤ value then none
  else some (if read.1 then toUInt64 (-value) else value)

/-- `stoll`, none where it throws. -/
def stoll (text : Text) : Option Int :=
  let read := numeral text
  let value : Int := Nat.ofDigitChars 10 read.2 0
  let signed := if read.1 then -value else value
  if read.2 = [] ∨ signed < -9223372036854775808 ∨ 9223372036854775807 < signed then none
  else some signed

/-- A text of digits and nothing else. -/
def IsDecimal (text : Text) : Prop := text ≠ [] ∧ ∀ c ∈ text, c.isDigit = true

instance (text : Text) : Decidable (IsDecimal text) := inferInstanceAs (Decidable (_ ∧ _))

/-- The pieces between separators. An empty last piece is dropped. -/
def split (src : Text) (delim : Char) : List Text :=
  let pieces := src.splitOn delim
  if pieces.getLast? = some [] then pieces.dropLast else pieces

/-- `stoll` gives a number of its type. -/
theorem stoll_range {text : Text} {value : Int} (read : stoll text = some value) :
    -9223372036854775808 ≤ value ∧ value ≤ 9223372036854775807 := by
  unfold stoll at read
  simp only [] at read
  generalize (if (numeral text).1 = true then
    -((Nat.ofDigitChars 10 (numeral text).2 0 : Nat) : Int)
    else ((Nat.ofDigitChars 10 (numeral text).2 0 : Nat) : Int)) = signed at read
  split at read
  · cases read
  · obtain rfl := Option.some.inj read
    omega

/-! ## Reading what was written -/

/-- A number has a digit. -/
theorem decimal_ne_nil (n : Nat) : decimal n ≠ [] := Nat.toDigits_ne_nil

/-- Different numbers have different digits. -/
theorem decimal_injective : Function.Injective decimal := by
  intro m n same
  have value : ∀ n, Nat.ofDigitChars 10 (decimal n) 0 = n := fun _ =>
    Nat.ofDigitChars_ten_toDigits
  rw [← value m, same, value]

/-- The characters of a number are digits. -/
theorem isDigit_of_mem_decimal {n : Nat} {c : Char} (member : c ∈ decimal n) : c.isDigit = true :=
  Nat.isDigit_of_mem_toDigits (by decide) (by decide) member

/-- A digit is no blank and no sign. -/
private theorem isDigit_apart {c : Char} (digit : c.isDigit = true) :
    isBlank c = false ∧ c ≠ '-' ∧ c ≠ '+' := by
  obtain ⟨lower, upper⟩ : 48 ≤ c.toNat ∧ c.toNat ≤ 57 := by
    rw [Char.isDigit, Bool.and_eq_true, decide_eq_true_eq, decide_eq_true_eq] at digit
    exact ⟨UInt32.le_iff_toNat_le.mp digit.1, UInt32.le_iff_toNat_le.mp digit.2⟩
  refine ⟨?_, ?_, ?_⟩
  · have space : ¬c.toNat = 32 := by omega
    have others : ¬c.toNat ≤ 13 := by omega
    simp [isBlank, space, others]
  · rintro rfl
    exact absurd lower (by decide)
  · rintro rfl
    exact absurd lower (by decide)

/-- A number is read to its last digit. -/
private theorem numeral_decimal (n : Nat) : numeral (decimal n) = (false, decimal n) := by
  cases digits : decimal n with
  | nil => exact absurd digits (decimal_ne_nil n)
  | cons c rest =>
      have all : ∀ d ∈ c :: rest, d.isDigit = true := by
        intro d member
        rw [← digits] at member
        exact isDigit_of_mem_decimal member
      obtain ⟨blank, minus, plus⟩ := isDigit_apart (all c (List.mem_cons_self ..))
      have kept : (c :: rest).dropWhile isBlank = c :: rest := by
        rw [List.dropWhile_cons_of_neg (by simp [blank])]
      have taken : (c :: rest).takeWhile Char.isDigit = c :: rest :=
        List.takeWhile_eq_self_iff.mpr all
      unfold numeral
      rw [kept]
      split
      · rename_i same
        exact absurd (List.cons.inj same).1 minus
      · rename_i same
        exact absurd (List.cons.inj same).1 plus
      · rw [taken]

/-- `stoull` reads back what was written. -/
@[simp] theorem stoull_decimal {n : Nat} (bound : n < 18446744073709551616) :
    stoull (decimal n) = some n := by
  have value : Nat.ofDigitChars 10 (decimal n) 0 = n := Nat.ofDigitChars_ten_toDigits
  unfold stoull
  simp only [numeral_decimal, value]
  rw [if_neg (by simp [decimal_ne_nil, bound])]
  rfl

/-- `stoll` reads back what was written. -/
@[simp] theorem stoll_decimal {n : Nat} (bound : n < 9223372036854775808) :
    stoll (decimal n) = some (n : Int) := by
  have value : Nat.ofDigitChars 10 (decimal n) 0 = n := Nat.ofDigitChars_ten_toDigits
  have fits : ¬(decimal n = [] ∨ (n : Int) < -9223372036854775808 ∨
      9223372036854775807 < (n : Int)) := by
    simp only [decimal_ne_nil, false_or]
    omega
  unfold stoll
  simp only [numeral_decimal, value]
  exact if_neg fits

/-- `stoll` throws at what is beyond its type. -/
theorem stoll_decimal_large {n : Nat} (large : 9223372036854775808 ≤ n) :
    stoll (decimal n) = none := by
  have value : Nat.ofDigitChars 10 (decimal n) 0 = n := Nat.ofDigitChars_ten_toDigits
  unfold stoll
  simp only [numeral_decimal, value]
  refine if_pos (.inr (.inr ?_))
  simp only [Bool.false_eq_true, if_false]
  omega

/-- Three pieces without the separator are found again. -/
theorem split_three {delim : Char} {first second third : Text} (before : delim ∉ first)
    (between : delim ∉ second) (after : delim ∉ third) (nonempty : third ≠ []) :
    split (first ++ delim :: (second ++ delim :: third)) delim = [first, second, third] := by
  have pieces : (first ++ delim :: (second ++ delim :: third)).splitOn delim =
      [first, second, third] := by
    rw [List.splitOn_append_cons_self_of_not_mem before,
      List.splitOn_append_cons_self_of_not_mem between, List.splitOn_eq_singleton after]
  unfold split
  rw [pieces]
  exact if_neg (by simpa using nonempty)

end HyperPlotter.Foundation
