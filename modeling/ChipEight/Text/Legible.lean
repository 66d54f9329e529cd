/-!
# Legible bytes

Bytes as they are read by someone who expects text. What is text in UTF-8 reads
as that text. A stretch of bytes that begins like a character and goes wrong
reads as one replacement character, up to where it goes wrong, and so does a byte
that cannot begin a character at all.
-/

namespace ChipEight.Legible

/-- What stands for bytes that are no text. -/
def replacement : Char := '\ufffd'

/-- A character of several bytes that is not complete yet: its value so far, how
many bytes are missing, and the bounds of the next. -/
structure Unfinished where
  value : Nat
  missing : Nat
  least : UInt8 := 0x80
  greatest : UInt8 := 0xbf
deriving DecidableEq, Repr

/-- What one more byte comes to: the characters that are complete with it, and
the one that is not. -/
abbrev Reading := List Char × Option Unfinished

/-- A byte where a character begins. The bounds leave out characters that have a
shorter form, that are halves of a pair, or that lie beyond the last. -/
def first (b : UInt8) : Reading :=
  if b < 0x80 then ([Char.ofNat b.toNat], none)
  else if 0xc2 ≤ b ∧ b ≤ 0xdf then ([], some { value := b.toNat - 0xc0, missing := 1 })
  else if 0xe0 ≤ b ∧ b ≤ 0xef then
    ([], some {
      value := b.toNat - 0xe0
      missing := 2
      least := if b = 0xe0 then 0xa0 else 0x80
      greatest := if b = 0xed then 0x9f else 0xbf })
  else if 0xf0 ≤ b ∧ b ≤ 0xf4 then
    ([], some {
      value := b.toNat - 0xf0
      missing := 3
      least := if b = 0xf0 then 0x90 else 0x80
      greatest := if b = 0xf4 then 0x8f else 0xbf })
  else ([replacement], none)

/-- A byte in the middle of a character, or after one that went wrong. -/
def further (u : Unfinished) (b : UInt8) : Reading :=
  if u.least ≤ b ∧ b ≤ u.greatest then
    let value := 64 * u.value + (b.toNat - 0x80)
    if u.missing ≤ 1 then ([Char.ofNat value], none)
    else ([], some { value, missing := u.missing - 1 })
  else
    let (chars, unfinished) := first b
    (replacement :: chars, unfinished)

/-- A text and the character that is not complete, one byte later. -/
def extend (read : String × Option Unfinished) (b : UInt8) : String × Option Unfinished :=
  let (chars, unfinished) := match read.2 with
    | none => first b
    | some u => further u b
  (chars.foldl String.push read.1, unfinished)

/-- Bytes as text. -/
def text (bytes : Array UInt8) : String :=
  match bytes.foldl extend ("", none) with
  | (s, none) => s
  | (s, some _) => s.push replacement

end ChipEight.Legible
