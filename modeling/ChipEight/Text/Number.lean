/-!
# Numbers as text

Addresses, opcodes and bytes are shown in hexadecimal with leading zeros up to
a fixed width; a number that needs more digits than the width gets them all.
Everything is built over `List Char`, so that a statement about a printed line
is a statement about a list.

A numeral is a number as someone writes it: decimal digits, at least one, perhaps
behind a sign. Zeros in front say nothing, and nothing else may stand in a
numeral. How large a number may be is the reader's affair.
-/

namespace ChipEight

/-! ## Showing -/

namespace Digits

/-- The digits of `n` in base `base`, with zeros in front up to `width`. -/
def padded (base width n : Nat) : List Char :=
  let digits := Nat.toDigits base n
  List.replicate (width - digits.length) '0' ++ digits

/-- Lower-case hexadecimal, at least `width` digits. -/
def hex (width n : Nat) : String :=
  String.ofList (padded 16 width n)

/-- Upper-case hexadecimal, at least `width` digits. -/
def upperHex (width n : Nat) : String :=
  String.ofList ((padded 16 width n).map Char.toUpper)

/-- Decimal, with as many digits as the number has. -/
def decimal (n : Nat) : String :=
  String.ofList (Nat.toDigits 10 n)

theorem length_padded (base width n : Nat) :
    (padded base width n).length = max width (Nat.toDigits base n).length := by
  simp only [padded, List.length_append, List.length_replicate]
  omega

end Digits

/-! ## Reading -/

namespace Numeral

/-- Decimal digits and nothing else, at least one. -/
def digits? (cs : List Char) : Option Nat :=
  if cs ≠ [] ∧ cs.all Char.isDigit then
    some (cs.foldl (fun n c => 10 * n + (c.toNat - '0'.toNat)) 0)
  else none

/-- Digits, perhaps behind a plus sign. -/
def natural? : List Char → Option Nat
  | '+' :: cs => digits? cs
  | cs => digits? cs

/-- Digits, perhaps behind a sign. -/
def integer? : List Char → Option Int
  | '-' :: cs => (digits? cs).map fun n => -(n : Int)
  | cs => (natural? cs).map fun n => (n : Int)

/-- A natural number below a bound. -/
def below? (bound : Nat) (cs : List Char) : Option Nat :=
  (natural? cs).filter (· < bound)

end Numeral

end ChipEight
