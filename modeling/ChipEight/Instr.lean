import ChipEight.Text.Number

/-!
# Instructions

The 35 instructions of the machine, with their operands already taken out of
the opcode. Register numbers, bytes and row counts are bytes, addresses are
words: an instruction value may hold any such number, and it is *in range* when
it could have come out of an opcode, that is when register numbers and row
counts are below 16 and addresses below 4096.

Each instruction has a name and a list of operands as a listing shows them.
Some operands are fixed marks (`I`, `DT`, `[I]`, …) which tell the many loads
apart.
-/

namespace ChipEight

/-- An instruction and its operands: `x` and `y` are register numbers. -/
inductive Instr
  /-- Turns every pixel off. -/
  | clear
  /-- Returns from a subroutine. -/
  | ret
  /-- A machine-code routine of old hosts; does nothing. -/
  | sys (addr : UInt16)
  | jump (addr : UInt16)
  | call (addr : UInt16)
  /-- Skips the next instruction if `x` holds the byte. -/
  | skipEqByte (x byte : UInt8)
  | skipNeByte (x byte : UInt8)
  | skipEq (x y : UInt8)
  | loadByte (x byte : UInt8)
  /-- Adds a byte and leaves the flag alone. -/
  | addByte (x byte : UInt8)
  | copy (x y : UInt8)
  | bitOr (x y : UInt8)
  | bitAnd (x y : UInt8)
  | bitXor (x y : UInt8)
  /-- Adds; the flag is the carry. -/
  | add (x y : UInt8)
  /-- `x - y`; the flag says that `x` was greater. -/
  | sub (x y : UInt8)
  /-- Halves `x`; the flag is the bit that falls out. -/
  | shiftRight (x : UInt8)
  /-- `y - x`; the flag says that `y` was greater. -/
  | subFrom (x y : UInt8)
  /-- Doubles `x`; the flag is the bit that falls out. -/
  | shiftLeft (x : UInt8)
  | skipNe (x y : UInt8)
  | loadIndex (addr : UInt16)
  /-- Jumps to the address plus register 0. -/
  | jumpOffset (addr : UInt16)
  /-- A random byte, masked. -/
  | random (x mask : UInt8)
  /-- Draws a sprite of `rows` rows at the pixel that `x` and `y` name. -/
  | draw (x y rows : UInt8)
  | skipPressed (x : UInt8)
  | skipReleased (x : UInt8)
  | readDelay (x : UInt8)
  /-- Waits until a key is held and takes its number. -/
  | awaitKey (x : UInt8)
  | setDelay (x : UInt8)
  | setSound (x : UInt8)
  | addIndex (x : UInt8)
  /-- Points the index at the font's glyph for a digit. -/
  | glyph (x : UInt8)
  /-- Writes the three decimal digits of `x` to memory. -/
  | digits (x : UInt8)
  /-- Writes registers 0 to `x` to memory. -/
  | store (x : UInt8)
  /-- Reads registers 0 to `x` from memory. -/
  | load (x : UInt8)
deriving DecidableEq, Repr

namespace Instr

/-- An operand as a listing shows it. -/
inductive Operand
  | register (x : UInt8)
  | byte (n : UInt8)
  | address (a : UInt16)
  | count (n : UInt8)
  /-- A fixed word that belongs to the instruction. -/
  | mark (word : String)
deriving DecidableEq, Repr

/-- The numbers an opcode has room for. -/
def Operand.InRange : Operand → Prop
  | register x => x < 16
  | byte _ => True
  | address a => a < 4096
  | count n => n < 16
  | mark _ => True

instance (o : Operand) : Decidable o.InRange := by
  cases o <;> unfold Operand.InRange <;> infer_instance

/-- The name under which a listing shows the instruction. -/
def name : Instr → String
  | clear => "CLS"
  | ret => "RET"
  | sys _ => "SYS"
  | jump _ | jumpOffset _ => "JP"
  | call _ => "CALL"
  | skipEqByte .. | skipEq .. => "SE"
  | skipNeByte .. | skipNe .. => "SNE"
  | loadByte .. | copy .. | loadIndex _ | readDelay _ | awaitKey _ | setDelay _ | setSound _
  | glyph _ | digits _ | store _ | load _ => "LD"
  | addByte .. | add .. | addIndex _ => "ADD"
  | bitOr .. => "OR"
  | bitAnd .. => "AND"
  | bitXor .. => "XOR"
  | sub .. => "SUB"
  | shiftRight _ => "SHR"
  | subFrom .. => "SUBN"
  | shiftLeft _ => "SHL"
  | random .. => "RND"
  | draw .. => "DRW"
  | skipPressed _ => "SKP"
  | skipReleased _ => "SKNP"

open Operand in
/-- The operands in the order in which a listing shows them. -/
def operands : Instr → List Operand
  | clear | ret => []
  | sys a | jump a | call a => [address a]
  | skipEqByte x n | skipNeByte x n | loadByte x n | addByte x n | random x n =>
    [register x, byte n]
  | skipEq x y | skipNe x y | copy x y | bitOr x y | bitAnd x y | bitXor x y | add x y
  | sub x y | subFrom x y => [register x, register y]
  | shiftRight x | shiftLeft x | skipPressed x | skipReleased x => [register x]
  | loadIndex a => [mark "I", address a]
  | jumpOffset a => [mark "V0", address a]
  | draw x y n => [register x, register y, count n]
  | readDelay x => [register x, mark "DT"]
  | awaitKey x => [register x, mark "K"]
  | setDelay x => [mark "DT", register x]
  | setSound x => [mark "ST", register x]
  | addIndex x => [mark "I", register x]
  | glyph x => [mark "F", register x]
  | digits x => [mark "B", register x]
  | store x => [mark "[I]", register x]
  | load x => [register x, mark "[I]"]

/-- Whether the instruction could have come out of an opcode, as far as the
size of its operands goes. -/
def InRange (i : Instr) : Prop :=
  ∀ o ∈ i.operands, o.InRange

instance (i : Instr) : Decidable i.InRange :=
  inferInstanceAs (Decidable (∀ o ∈ i.operands, o.InRange))

end Instr

end ChipEight
