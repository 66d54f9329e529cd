import ChipEight.Keypad
import ChipEight.Machine
import ChipEight.Screen.Sprite

/-!
# One step

A step fetches the word at the program counter, moves the counter past it and
carries the instruction out; a word that means nothing is passed over. The
counter has moved on before the instruction runs, so a failing call or return
leaves it behind the instruction that failed.

Each kind of instruction has its function. They answer `none` when the machine
has no such register, no such stack entry or no room in a word; the opcodes of
real programs never come to that.
-/

namespace ChipEight

namespace Turn

/-- The turn of an operation that just went well. -/
def done (m : Machine) : Turn := { machine := m }

/-- The turn of an operation that failed. -/
def failed (f : Fault) (m : Machine) : Turn := { machine := m, fault := some f }

/-- The same turn with a note in front. -/
def noting (t : Turn) (n : Note) : Turn := { t with notes := #[n] ++ t.notes }

end Turn

namespace Machine

/-! ## The program counter -/

/-- The address after the instruction at an address. -/
def next? (pc : UInt16) : Option UInt16 :=
  if pc.toNat + 2 < 65536 then some (pc + 2) else none

/-- Passes over the next instruction if a condition holds. -/
def skipIf? (m : Machine) (condition : Bool) : Option Machine :=
  if condition then (next? m.pc).map fun pc => { m with pc } else some m

/-- Jumps to an address plus register 0, unmasked. -/
def jumpOffset? (m : Machine) (addr : UInt16) : Option Machine := do
  let v ← m.register? 0
  if addr.toNat + v.toNat < 65536 then some { m with pc := addr + v.toUInt16 } else none

/-! ## Calls -/

/-- Calls a subroutine: the address to return to is the program counter. -/
def call? (m : Machine) (pc addr : UInt16) : Option Turn :=
  if m.depth = 16 then some (.failed (.stackOverflow pc) m)
  else if h : m.depth < 16 then
    some (.done { m with stack := m.stack.set m.depth m.pc, depth := m.depth + 1, pc := addr })
  else none

/-- Returns from a subroutine. -/
def return? (m : Machine) (pc : UInt16) : Option Turn :=
  if m.depth = 0 then some (.failed (.stackUnderflow pc) m)
  else if h : m.depth - 1 < 16 then
    some (.done { m with depth := m.depth - 1, pc := m.stack[m.depth - 1] })
  else none

/-! ## Arithmetic -/

/-- Replaces register `x` by a function of `x` and `y`. -/
def combine? (m : Machine) (x y : UInt8) (f : UInt8 → UInt8 → UInt8) : Option Machine := do
  m.setRegister? x (f (← m.register? x) (← m.register? y))

/-- Replaces register `x` and the flag by functions of `x` and `y` as they
were. -/
def combineFlagged? (m : Machine) (x y : UInt8) (f : UInt8 → UInt8 → UInt8 × Bool) :
    Option Machine := do
  let (value, flag) := f (← m.register? x) (← m.register? y)
  m.setFlagged? x value flag

/-- A sum and its carry. -/
def sum (a b : UInt8) : UInt8 × Bool := (a + b, 256 ≤ a.toNat + b.toNat)

/-- A difference, and whether the first number was greater. -/
def difference (a b : UInt8) : UInt8 × Bool := (a - b, b < a)

/-- A half, and the bit that falls out. -/
def halved (a : UInt8) : UInt8 × Bool := (a >>> 1, a &&& 0x01 != 0)

/-- A double, and the bit that falls out. -/
def doubled (a : UInt8) : UInt8 × Bool := (a <<< 1, a &&& 0x80 != 0)

/-! ## Memory -/

/-- The numbers of the registers from 0 to `x`. -/
def registersTo (x : UInt8) : List (Fin 16) :=
  (List.finRange 16).take (x.toNat + 1)

/-- Writes registers 0 to `x` at the index and after it. -/
def store? (m : Machine) (x : UInt8) : Option Machine :=
  if x.toNat < 16 then
    let put (ram : Ram) (r : Fin 16) := ram.write (m.index + UInt16.ofNat r.val) (m.registers.get r)
    some { m with ram := (registersTo x).foldl put m.ram }
  else none

/-- Reads registers 0 to `x` from the index and after it. -/
def load? (m : Machine) (x : UInt8) : Option Machine :=
  if x.toNat < 16 then
    let take (r : Fin 16) :=
      if r.val ≤ x.toNat then m.ram.read (m.index + UInt16.ofNat r.val) else m.registers.get r
    some { m with registers := Vector.ofFn take }
  else none

/-- Writes the hundreds, tens and ones of register `x` at the index and after
it. -/
def digits? (m : Machine) (x : UInt8) : Option Machine := do
  let v ← m.register? x
  let ram := m.ram.write m.index (v / 100)
  let ram := ram.write (m.index + 1) (v / 10 % 10)
  some { m with ram := ram.write (m.index + 2) (v % 10) }

/-! ## Drawing -/

/-- The bytes of a sprite: as many rows as asked for, fifteen at most, from the
index on. -/
def sprite (m : Machine) (rows : UInt8) : List UInt8 :=
  (List.range (min rows.toNat 15)).map fun r => m.ram.read (m.index + UInt16.ofNat r)

/-- Draws a sprite at the pixel that registers `x` and `y` name. -/
def draw? (m : Machine) (x y rows : UInt8) : Option Machine := do
  let vx ← m.register? x
  let vy ← m.register? y
  let (screen, hit) ← m.screen.drawWrapped? vx.toNat vy.toNat (m.sprite rows)
  some ({ m with screen }.setFlag hit)

/-! ## Dice and keys -/

/-- Rolls the dice into register `x`, masked. -/
def random? (m : Machine) (x mask : UInt8) : Option Machine :=
  let (face, dice) := m.dice.roll
  { m with dice }.setRegister? x (face &&& mask)

/-- Takes the lowest held key into register `x`, or goes back to the
instruction to try again. -/
def awaitKey? (m : Machine) (keys : Keypad) (pc : UInt16) (x : UInt8) : Option Turn :=
  match keys.lowest with
  | some key => (m.setRegister? x key).map .done
  | none => some (Turn.done { m with pc } |>.noting (.waiting pc))

/-! ## All instructions -/

/-- Carries out an instruction that was found at `pc`; the program counter is
past it already. -/
def execute? (m : Machine) (keys : Keypad) (pc : UInt16) : Instr → Option Turn
  | .clear => some (.done { m with screen := m.screen.clear })
  | .ret => m.return? pc
  | .sys _ => some (.done m)
  | .jump a => some (.done { m with pc := a })
  | .call a => m.call? pc a
  | .skipEqByte x n => do .done <$> m.skipIf? ((← m.register? x) == n)
  | .skipNeByte x n => do .done <$> m.skipIf? ((← m.register? x) != n)
  | .skipEq x y => do .done <$> m.skipIf? ((← m.register? x) == (← m.register? y))
  | .skipNe x y => do .done <$> m.skipIf? ((← m.register? x) != (← m.register? y))
  | .loadByte x n => .done <$> m.setRegister? x n
  | .addByte x n => .done <$> m.combine? x x fun a _ => a + n
  | .copy x y => .done <$> m.combine? x y fun _ b => b
  | .bitOr x y => .done <$> m.combine? x y (· ||| ·)
  | .bitAnd x y => .done <$> m.combine? x y (· &&& ·)
  | .bitXor x y => .done <$> m.combine? x y (· ^^^ ·)
  | .add x y => .done <$> m.combineFlagged? x y sum
  | .sub x y => .done <$> m.combineFlagged? x y difference
  | .shiftRight x => .done <$> m.combineFlagged? x x fun a _ => halved a
  | .subFrom x y => .done <$> m.combineFlagged? x y fun a b => difference b a
  | .shiftLeft x => .done <$> m.combineFlagged? x x fun a _ => doubled a
  | .loadIndex a => some (.done { m with index := a })
  | .jumpOffset a => .done <$> m.jumpOffset? a
  | .random x n => .done <$> m.random? x n
  | .draw x y n => .done <$> m.draw? x y n
  | .skipPressed x => do .done <$> m.skipIf? (keys.held (← m.register? x))
  | .skipReleased x => do .done <$> m.skipIf? (!keys.held (← m.register? x))
  | .readDelay x => .done <$> m.setRegister? x m.delay
  | .awaitKey x => m.awaitKey? keys pc x
  | .setDelay x => do some (.done { m with delay := ← m.register? x })
  | .setSound x => do some (.done { m with sound := ← m.register? x })
  | .addIndex x => do some (.done { m with index := m.index + (← m.register? x).toUInt16 })
  | .glyph x => do some (.done { m with index := Font.address (← m.register? x) })
  | .digits x => .done <$> m.digits? x
  | .store x => .done <$> m.store? x
  | .load x => .done <$> m.load? x

/-- Carries out the opcode that was found at `pc`. -/
def obey? (m : Machine) (keys : Keypad) (pc opcode : UInt16) : Option Turn :=
  match Instr.decode opcode with
  | some i => (m.execute? keys pc i).map fun t => t.noting (.executing pc opcode i)
  | none => some (Turn.done m |>.noting (.ignoring pc opcode))

/-- Fetches an instruction and carries it out. -/
def step? (m : Machine) (keys : Keypad) : Option Turn :=
  if Ram.size ≤ m.pc.toNat + 1 then some (.failed (.pcOutOfBounds m.pc) m)
  else do
    let opcode ← m.ram.word? m.pc
    let pc ← next? m.pc
    { m with pc }.obey? keys m.pc opcode

end Machine

end ChipEight
