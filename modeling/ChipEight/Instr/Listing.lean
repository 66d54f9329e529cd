import ChipEight.Instr.Code

/-!
# Mnemonics and listings

The text of an instruction in a listing and in a trace: the name in five
columns, then the operands between commas. Registers are `V` and an upper-case
hexadecimal number, addresses and bytes have `0x` and at least three and two
digits, a row count is decimal. A name without operands stands alone.

The diagnostic form is another text for the same value: a tag and the operands
in decimal, the fixed marks left out.

A listing pairs each opcode of a program with its address and its meaning. The
program is read two bytes at a time, the high byte first; an odd byte at the
end is left out. Addresses are words: they start at the origin and wrap at the
top. The distance from the origin is a word too, and a program so long that the
distance of an entry does not fit has no listing.
-/

namespace ChipEight

/-! ## Mnemonics -/

namespace Instr

/-- The text of one operand. -/
def Operand.text : Operand → String
  | register x => "V" ++ Digits.upperHex 1 x.toNat
  | byte n => "0x" ++ Digits.hex 2 n.toNat
  | address a => "0x" ++ Digits.hex 3 a.toNat
  | count n => Digits.decimal n.toNat
  | mark word => word

/-- A name filled up with spaces to its column. -/
def column (word : String) : String :=
  word ++ String.ofList (List.replicate (5 - word.length) ' ')

/-- The text of an instruction in a listing. -/
def text (i : Instr) : String :=
  match i.operands with
  | [] => i.name
  | os => column i.name ++ ", ".intercalate (os.map Operand.text)

/-- The number an operand holds, if it is no fixed mark. -/
def Operand.value? : Operand → Option Nat
  | register x => some x.toNat
  | byte n => some n.toNat
  | address a => some a.toNat
  | count n => some n.toNat
  | mark _ => none

/-- The tag of an instruction in diagnostics. -/
def tag : Instr → String
  | clear => "Cls"
  | ret => "Ret"
  | sys _ => "Sys"
  | jump _ => "Jp"
  | call _ => "Call"
  | skipEqByte .. => "SeByte"
  | skipNeByte .. => "SneByte"
  | skipEq .. => "SeReg"
  | loadByte .. => "LdByte"
  | addByte .. => "AddByte"
  | copy .. => "LdReg"
  | bitOr .. => "Or"
  | bitAnd .. => "And"
  | bitXor .. => "Xor"
  | add .. => "AddReg"
  | sub .. => "Sub"
  | shiftRight _ => "Shr"
  | subFrom .. => "Subn"
  | shiftLeft _ => "Shl"
  | skipNe .. => "SneReg"
  | loadIndex _ => "LdI"
  | jumpOffset _ => "JpV0"
  | random .. => "Rnd"
  | draw .. => "Drw"
  | skipPressed _ => "Skp"
  | skipReleased _ => "Sknp"
  | readDelay _ => "LdVxDt"
  | awaitKey _ => "LdKey"
  | setDelay _ => "LdDtVx"
  | setSound _ => "LdStVx"
  | addIndex _ => "AddI"
  | glyph _ => "LdF"
  | digits _ => "LdB"
  | store _ => "Store"
  | load _ => "Load"

/-- The diagnostic form of an instruction. -/
def diagnostic (i : Instr) : String :=
  match i.operands.filterMap Operand.value? with
  | [] => i.tag
  | ns => i.tag ++ "(" ++ ", ".intercalate (ns.map Digits.decimal) ++ ")"

end Instr

/-! ## Listings -/

/-- One opcode of a program. -/
structure Entry where
  addr : UInt16
  opcode : UInt16
  instr : Option Instr
deriving DecidableEq, Repr

/-- Two bytes as a word, the high byte first. -/
def bigEndian (high low : UInt8) : UInt16 :=
  (high.toUInt16 <<< 8) ||| low.toUInt16

namespace Listing

/-- The word at a place of a program that is known to hold it. -/
def wordAt (program : Array UInt8) (i : Nat) (h : 2 * i + 1 < program.size) : UInt16 :=
  bigEndian program[2 * i] program[2 * i + 1]

/-- Twice the number of an entry, counted in words. -/
def distance? (i : Nat) : Option UInt16 :=
  let d := 2 * (i % 65536)
  if d < 65536 then some (UInt16.ofNat d) else none

/-- The entry with number `i`. -/
def nth? (program : Array UInt8) (origin : UInt16) (i : Nat) : Option Entry :=
  if h : 2 * i + 1 < program.size then
    (distance? i).map fun d =>
      let opcode := wordAt program i h
      { addr := origin + d, opcode, instr := Instr.decode opcode }
  else none

/-- All entries of a program whose first byte is at `origin`. -/
def entries? (program : Array UInt8) (origin : UInt16) : Option (List Entry) :=
  (List.range (program.size / 2)).mapM (nth? program origin)

/-- A line of a printed listing; a word without meaning is shown as data. -/
def line (e : Entry) : String :=
  let meaning := match e.instr with
    | some i => i.text
    | none => Instr.column "DW" ++ "0x" ++ Digits.hex 4 e.opcode.toNat
  Digits.hex 3 e.addr.toNat ++ ": " ++ Digits.hex 4 e.opcode.toNat ++ "  " ++ meaning

end Listing

end ChipEight
