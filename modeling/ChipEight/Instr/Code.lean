import ChipEight.Instr

/-!
# Opcodes

An opcode is sixteen bits: a family in the top four, then, as the family asks,
a register number, a second one and a four-bit number, a byte, or a twelve-bit
address. Families 0, 8, E and F hold several instructions each; in them some
codes mean nothing, and `decode` answers `none`.

Two families leave bits unread. The register comparisons do not look at the low
four bits, and the shifts do not look at the second register. `encode` writes
zeros there.
-/

namespace ChipEight.Instr

/-! ## Fields of an opcode -/

/-- The family: the top four bits. -/
def family (op : UInt16) : Nat := (op >>> 12).toNat

/-- The first register number. -/
def fieldX (op : UInt16) : UInt8 := ((op >>> 8) &&& 0xf).toUInt8

/-- The second register number. -/
def fieldY (op : UInt16) : UInt8 := ((op >>> 4) &&& 0xf).toUInt8

/-- The low four bits. -/
def fieldN (op : UInt16) : UInt8 := (op &&& 0xf).toUInt8

/-- The low byte. -/
def fieldByte (op : UInt16) : UInt8 := op.toUInt8

/-- The low twelve bits. -/
def fieldAddr (op : UInt16) : UInt16 := op &&& 0xfff

/-! ## Reading -/

/-- Family 0: clearing, returning, and the routines of old hosts. -/
def decodeSystem (op : UInt16) : Instr :=
  if fieldAddr op = 0x0e0 then clear
  else if fieldAddr op = 0x0ee then ret
  else sys (fieldAddr op)

/-- Family 8: two registers, by the low four bits. -/
def decodeArithmetic (x y : UInt8) (n : Nat) : Option Instr :=
  match n with
  | 0x0 => some (copy x y)
  | 0x1 => some (bitOr x y)
  | 0x2 => some (bitAnd x y)
  | 0x3 => some (bitXor x y)
  | 0x4 => some (add x y)
  | 0x5 => some (sub x y)
  | 0x6 => some (shiftRight x)
  | 0x7 => some (subFrom x y)
  | 0xe => some (shiftLeft x)
  | _ => none

/-- Family E: keys, by the low byte. -/
def decodeKeys (x : UInt8) (byte : Nat) : Option Instr :=
  match byte with
  | 0x9e => some (skipPressed x)
  | 0xa1 => some (skipReleased x)
  | _ => none

/-- Family F: timers, the index and memory, by the low byte. -/
def decodeSpecial (x : UInt8) (byte : Nat) : Option Instr :=
  match byte with
  | 0x07 => some (readDelay x)
  | 0x0a => some (awaitKey x)
  | 0x15 => some (setDelay x)
  | 0x18 => some (setSound x)
  | 0x1e => some (addIndex x)
  | 0x29 => some (glyph x)
  | 0x33 => some (digits x)
  | 0x55 => some (store x)
  | 0x65 => some (load x)
  | _ => none

/-- The instruction that an opcode means, if it means one. -/
def decode (op : UInt16) : Option Instr :=
  match family op with
  | 0x0 => some (decodeSystem op)
  | 0x1 => some (jump (fieldAddr op))
  | 0x2 => some (call (fieldAddr op))
  | 0x3 => some (skipEqByte (fieldX op) (fieldByte op))
  | 0x4 => some (skipNeByte (fieldX op) (fieldByte op))
  | 0x5 => some (skipEq (fieldX op) (fieldY op))
  | 0x6 => some (loadByte (fieldX op) (fieldByte op))
  | 0x7 => some (addByte (fieldX op) (fieldByte op))
  | 0x8 => decodeArithmetic (fieldX op) (fieldY op) (fieldN op).toNat
  | 0x9 => some (skipNe (fieldX op) (fieldY op))
  | 0xa => some (loadIndex (fieldAddr op))
  | 0xb => some (jumpOffset (fieldAddr op))
  | 0xc => some (random (fieldX op) (fieldByte op))
  | 0xd => some (draw (fieldX op) (fieldY op) (fieldN op))
  | 0xe => decodeKeys (fieldX op) (fieldByte op).toNat
  | 0xf => decodeSpecial (fieldX op) (fieldByte op).toNat
  | _ => none

/-! ## Writing -/

/-- An opcode with a twelve-bit address. -/
def codeAddr (family addr : UInt16) : UInt16 :=
  (family <<< 12) ||| addr

/-- An opcode with a register and a byte. -/
def codeByte (family : UInt16) (x byte : UInt8) : UInt16 :=
  (family <<< 12) ||| (x.toUInt16 <<< 8) ||| byte.toUInt16

/-- An opcode with two registers and four bits. -/
def codeRegs (family : UInt16) (x y n : UInt8) : UInt16 :=
  (family <<< 12) ||| (x.toUInt16 <<< 8) ||| (y.toUInt16 <<< 4) ||| n.toUInt16

/-- The opcode of an instruction, with zeros where no bits are read. -/
def encode : Instr → UInt16
  | clear => 0x00e0
  | ret => 0x00ee
  | sys a => codeAddr 0x0 a
  | jump a => codeAddr 0x1 a
  | call a => codeAddr 0x2 a
  | skipEqByte x n => codeByte 0x3 x n
  | skipNeByte x n => codeByte 0x4 x n
  | skipEq x y => codeRegs 0x5 x y 0
  | loadByte x n => codeByte 0x6 x n
  | addByte x n => codeByte 0x7 x n
  | copy x y => codeRegs 0x8 x y 0x0
  | bitOr x y => codeRegs 0x8 x y 0x1
  | bitAnd x y => codeRegs 0x8 x y 0x2
  | bitXor x y => codeRegs 0x8 x y 0x3
  | add x y => codeRegs 0x8 x y 0x4
  | sub x y => codeRegs 0x8 x y 0x5
  | shiftRight x => codeRegs 0x8 x 0 0x6
  | subFrom x y => codeRegs 0x8 x y 0x7
  | shiftLeft x => codeRegs 0x8 x 0 0xe
  | skipNe x y => codeRegs 0x9 x y 0
  | loadIndex a => codeAddr 0xa a
  | jumpOffset a => codeAddr 0xb a
  | random x n => codeByte 0xc x n
  | draw x y n => codeRegs 0xd x y n
  | skipPressed x => codeByte 0xe x 0x9e
  | skipReleased x => codeByte 0xe x 0xa1
  | readDelay x => codeByte 0xf x 0x07
  | awaitKey x => codeByte 0xf x 0x0a
  | setDelay x => codeByte 0xf x 0x15
  | setSound x => codeByte 0xf x 0x18
  | addIndex x => codeByte 0xf x 0x1e
  | glyph x => codeByte 0xf x 0x29
  | digits x => codeByte 0xf x 0x33
  | store x => codeByte 0xf x 0x55
  | load x => codeByte 0xf x 0x65

end ChipEight.Instr
