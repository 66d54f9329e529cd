import ChipEight.Text.Quoted

/-!
# Faults

What can go wrong while the machine works as designed: a program that does not
fit, a call stack that is full or empty, a program counter past the end of
memory, settings that make no machine, and trouble with a file or a stream.
Each is a cause with the numbers it needs; the wording is in `Fault.message`
and the diagnostic form, which names the cause and its numbers, is in
`Fault.diagnostic`.

A request that the fixed size of the machine rules out (a byte past the end of
memory, a sum that does not fit its word) is no fault: such an operation has no
answer at all, and its function returns `none`.
-/

namespace ChipEight

/-- Trouble outside the machine. The system knows a few kinds by number; any
other trouble is known only by its text. -/
inductive Trouble
  | missing
  | noDevice
  | notDirectory
  | isDirectory
  | noSpace
  | nameTooLong
  | other (text : String)
deriving DecidableEq, Repr

namespace Trouble

/-- The system's number, kind and wording, for trouble that has a number. -/
def system : Trouble → Option (Nat × String × String)
  | missing => some (2, "NotFound", "No such file or directory")
  | noDevice => some (6, "Uncategorized", "No such device or address")
  | notDirectory => some (20, "NotADirectory", "Not a directory")
  | isDirectory => some (21, "IsADirectory", "Is a directory")
  | noSpace => some (28, "StorageFull", "No space left on device")
  | nameTooLong => some (36, "InvalidFilename", "File name too long")
  | other _ => none

/-- The text for a user. -/
def message (t : Trouble) : String :=
  match t, t.system with
  | .other text, _ => text
  | _, some (code, _, text) => text ++ " (os error " ++ Digits.decimal code ++ ")"
  | _, none => ""

/-- The text for a diagnosis. -/
def diagnostic (t : Trouble) : String :=
  match t, t.system with
  | .other text, _ => "Custom \x7b kind: Other, error: " ++ Quoted.quote text ++ " \x7d"
  | _, some (code, kind, text) =>
    "Os \x7b code: " ++ Digits.decimal code ++ ", kind: " ++ kind ++ ", message: " ++
      Quoted.quote text ++ " \x7d"
  | _, none => ""

end Trouble

/-- A fault, by its cause. -/
inductive Fault
  /-- A program of `size` bytes where at most `max` fit. -/
  | romTooLarge (size max : Nat)
  /-- A call at `pc` with every entry of the call stack in use. -/
  | stackOverflow (pc : UInt16)
  /-- A return at `pc` with no entry on the call stack. -/
  | stackUnderflow (pc : UInt16)
  /-- No whole instruction at `pc` before the end of memory. -/
  | pcOutOfBounds (pc : UInt16)
  /-- Settings that make no machine. -/
  | invalidSettings (text : String)
  /-- Trouble with a file or a stream. -/
  | io (trouble : Trouble)
deriving DecidableEq, Repr

namespace Fault

/-- An address as a fault shows it: four upper-case digits at least. -/
def address (pc : UInt16) : String :=
  "0x" ++ Digits.upperHex 4 pc.toNat

/-- The text for a user. -/
def message : Fault → String
  | romTooLarge size max =>
    "ROM is too large (" ++ Digits.decimal size ++ " bytes), max size is " ++
      Digits.decimal max ++ " bytes"
  | stackOverflow pc => "stack overflow: CALL at " ++ address pc ++ " with a full call stack"
  | stackUnderflow pc => "stack underflow: RET at " ++ address pc ++ " with an empty call stack"
  | pcOutOfBounds pc => "program counter " ++ address pc ++ " is past the end of memory"
  | invalidSettings text => "invalid configuration: " ++ text
  | io trouble => trouble.message

/-- The name of the cause. -/
def kind : Fault → String
  | romTooLarge .. => "RomTooLarge"
  | stackOverflow _ => "StackOverflow"
  | stackUnderflow _ => "StackUnderflow"
  | pcOutOfBounds _ => "PcOutOfBounds"
  | invalidSettings _ => "InvalidConfig"
  | io _ => "Io"

/-- The numbers and texts that come after the name of the cause. -/
def details : Fault → String
  | romTooLarge size max =>
    " \x7b size: " ++ Digits.decimal size ++ ", max: " ++ Digits.decimal max ++ " \x7d"
  | stackOverflow pc | stackUnderflow pc | pcOutOfBounds pc =>
    " \x7b pc: " ++ Digits.decimal pc.toNat ++ " \x7d"
  | invalidSettings text => "(" ++ Quoted.quote text ++ ")"
  | io trouble => "(" ++ trouble.diagnostic ++ ")"

/-- The text for a diagnosis. -/
def diagnostic (f : Fault) : String :=
  f.kind ++ f.details

end Fault

end ChipEight
