import ChipEight.Text.Number

/-!
# Reports of a terminal

Besides keys a terminal sends reports: where its cursor is, and what the mouse
does. Their numbers stand between semicolons, or are bytes that count from 32 on.
None of them is a key, but two things can be wrong with one. A report may be
malformed, with a number that cannot be read or a button that no mouse has; then
it counts for nothing. Or one of its coordinates is zero, which cannot be, since
coordinates count from one; whoever goes by such a report is lost.

A report is read from left to right, and the first thing wrong with it decides.
-/

namespace ChipEight.Report

/-- What can be wrong with a report. -/
inductive Flaw
  | malformed
  | zeroCoordinate
deriving DecidableEq, Repr

/-- The fields of a report that are still to be read. -/
abbrev Fields := List (List Char)

/-- The fields of a text. -/
def fields (b : List UInt8) : Except Flaw Fields :=
  match String.fromUTF8? (ByteArray.mk b.toArray) with
  | some s => .ok ((s.splitOn ";").map String.toList)
  | none => .error .malformed

/-- The number in the first field, below a bound, and the other fields. -/
def number (bound : Nat) : Fields → Except Flaw (Nat × Fields)
  | [] => .error .malformed
  | cs :: rest =>
    match Numeral.below? bound cs with
    | some n => .ok (n, rest)
    | none => .error .malformed

/-- Refuses a coordinate of zero. -/
def checkCoordinate (n : Nat) : Except Flaw Unit :=
  if n = 0 then .error .zeroCoordinate else .ok ()

/-- The fields behind one coordinate, a 16-bit word. -/
def coordinate (f : Fields) : Except Flaw Fields := do
  let (n, rest) ← number 65536 f
  checkCoordinate n
  return rest

/-- Reads two coordinates; what stands behind them does not matter. -/
def coordinates (f : Fields) : Except Flaw Unit := do
  let _ ← coordinate (← coordinate f)

/-- Refuses the buttons that no mouse has. Bits 0, 1, 6 and 7 of a code number
the button or the movement; there are six. -/
def checkButton (code : Nat) : Except Flaw Unit :=
  if code / 64 * 4 + code % 4 ≤ 5 then .ok () else .error .malformed

/-- The code of a button that counts from 32 on. -/
def raisedButton (code : Nat) : Except Flaw Unit :=
  if 32 ≤ code then checkButton (code - 32) else .error .malformed

/-! ## The four reports -/

/-- Where the cursor is: two numbers. -/
def cursor (b : List UInt8) : Except Flaw Unit := do
  coordinates (← fields b)

/-- The mouse in three bytes. -/
def mouseBytes (code x y : UInt8) : Except Flaw Unit := do
  raisedButton code.toNat
  checkCoordinate (x.toNat - 32)
  checkCoordinate (y.toNat - 32)

/-- The mouse in three numbers, of which the first counts from 32 on. -/
def mouseRaised (b : List UInt8) : Except Flaw Unit := do
  let (code, rest) ← number 256 (← fields b)
  raisedButton code
  coordinates rest

/-- The mouse in three numbers. -/
def mouse (b : List UInt8) : Except Flaw Unit := do
  let (code, rest) ← number 256 (← fields b)
  checkButton code
  coordinates rest

end ChipEight.Report
