import ChipEight.Fault
import ChipEight.Instr.Listing

/-!
# Memory

4096 bytes, with the font at `0x050` and programs from `0x200` on. There are
two ways to get at them. A single byte is read and written at an address modulo
4096, so every address names one. A word or a block has to lie inside memory as
a whole; one that reaches past the end has no answer (`none`), not even when it
is empty.

The font is sixteen glyphs, one for each hexadecimal digit, five rows of four
pixels each; the pixels of a row are the high half of its byte.
-/

namespace ChipEight

/-! ## The font -/

namespace Font

/-- Address of the glyph of zero. -/
def base : Nat := 0x050

/-- Bytes of one glyph. -/
def glyphSize : Nat := 5

/-- The glyphs of 0 to F, one after the other. -/
def glyphs : Array UInt8 := #[
  0xF0, 0x90, 0x90, 0x90, 0xF0,
  0x20, 0x60, 0x20, 0x20, 0x70,
  0xF0, 0x10, 0xF0, 0x80, 0xF0,
  0xF0, 0x10, 0xF0, 0x10, 0xF0,
  0x90, 0x90, 0xF0, 0x10, 0x10,
  0xF0, 0x80, 0xF0, 0x10, 0xF0,
  0xF0, 0x80, 0xF0, 0x90, 0xF0,
  0xF0, 0x10, 0x20, 0x40, 0x40,
  0xF0, 0x90, 0xF0, 0x90, 0xF0,
  0xF0, 0x90, 0xF0, 0x10, 0xF0,
  0xF0, 0x90, 0xF0, 0x90, 0x90,
  0xE0, 0x90, 0xE0, 0x90, 0xE0,
  0xF0, 0x80, 0x80, 0x80, 0xF0,
  0xE0, 0x90, 0x90, 0x90, 0xE0,
  0xF0, 0x80, 0xF0, 0x80, 0xF0,
  0xF0, 0x80, 0xF0, 0x80, 0x80]

/-- Address of the glyph of a digit. A number above fifteen names the bytes
that lie as far behind; the address still fits a word. -/
def address (digit : UInt8) : UInt16 :=
  UInt16.ofNat (base + glyphSize * digit.toNat)

end Font

/-- The bytes of memory. -/
structure Ram where
  bytes : Vector UInt8 4096
deriving DecidableEq

namespace Ram

/-- How many bytes there are. -/
def size : Nat := 4096

/-- Where programs start. -/
def programStart : UInt16 := 0x200

/-- The longest program. -/
def programRoom : Nat := size - programStart.toNat

/-! ## Single bytes -/

/-- The place of an address: addresses wrap. -/
def place (addr : UInt16) : Fin 4096 :=
  ⟨addr.toNat % 4096, Nat.mod_lt _ (by decide)⟩

/-- The byte at an address. -/
def read (m : Ram) (addr : UInt16) : UInt8 :=
  m.bytes[place addr]

/-- Memory with one byte replaced. -/
def write (m : Ram) (addr : UInt16) (value : UInt8) : Ram :=
  { bytes := m.bytes.set (place addr) value }

/-! ## Words and blocks -/

/-- Whether `len` bytes at an address lie inside memory. -/
def Holds (addr : UInt16) (len : Nat) : Prop :=
  addr.toNat + len ≤ size

instance (addr : UInt16) (len : Nat) : Decidable (Holds addr len) :=
  inferInstanceAs (Decidable (_ ≤ _))

/-- The word at an address, the high byte first. -/
def word? (m : Ram) (addr : UInt16) : Option UInt16 :=
  if h : Holds addr 2 then
    have h : addr.toNat + 2 ≤ 4096 := h
    some (bigEndian m.bytes[addr.toNat] m.bytes[addr.toNat + 1])
  else none

/-- `len` bytes from an address on. -/
def block? (m : Ram) (addr : UInt16) (len : Nat) : Option (Array UInt8) :=
  if Holds addr len then some (m.bytes.toArray.extract addr.toNat (addr.toNat + len))
  else none

/-- Memory whose bytes from `start` on are those of `data`; bytes of `data`
past the end are dropped. -/
def paste (m : Ram) (start : Nat) (data : Array UInt8) : Ram :=
  { bytes := Vector.ofFn fun i =>
      if h : start ≤ i.val ∧ i.val - start < data.size then data[i.val - start]
      else m.bytes[i] }

theorem get_paste (m : Ram) (start : Nat) (data : Array UInt8) (k : Fin 4096) :
    (m.paste start data).bytes.get k =
      if h : start ≤ k.val ∧ k.val - start < data.size then data[k.val - start]
      else m.bytes.get k :=
  Vector.getElem_ofFn k.isLt

/-- Memory with the bytes of `data` from an address on. -/
def writeBlock? (m : Ram) (addr : UInt16) (data : Array UInt8) : Option Ram :=
  if Holds addr data.size then some (m.paste addr.toNat data) else none

theorem writeBlock?_eq_some_iff {m r : Ram} {addr : UInt16} {data : Array UInt8} :
    m.writeBlock? addr data = some r ↔ Holds addr data.size ∧ m.paste addr.toNat data = r := by
  rw [writeBlock?, Option.ite_none_right_eq_some, Option.some.injEq]

/-- Memory with `len` bytes of one value from an address on. -/
def fill? (m : Ram) (addr : UInt16) (len : Nat) (value : UInt8) : Option Ram :=
  if Holds addr len then some (m.paste addr.toNat (Array.replicate len value)) else none

/-! ## Programs -/

/-- Memory of a new machine: the font and zeros. -/
def fresh : Ram :=
  { bytes := Vector.replicate 4096 0 : Ram }.paste Font.base Font.glyphs

/-- Memory with a program in its place, or the fault of a program that is too
long. -/
def loadProgram (m : Ram) (program : Array UInt8) : Except Fault Ram :=
  if program.size ≤ programRoom then .ok (m.paste programStart.toNat program)
  else .error (.romTooLarge program.size programRoom)

/-- A program that is loaded lies inside memory as a whole: it is written as a
block. -/
theorem loadProgram_eq_ok_iff {m r : Ram} {program : Array UInt8} :
    m.loadProgram program = .ok r ↔ m.writeBlock? programStart program = some r := by
  have hroom : program.size ≤ programRoom ↔ Holds programStart program.size := by
    show program.size ≤ 4096 - 512 ↔ 512 + program.size ≤ 4096
    omega
  unfold loadProgram writeBlock?
  by_cases h : Holds programStart program.size
  · rw [if_pos (hroom.mpr h), if_pos h]
    simp
  · rw [if_neg (mt hroom.mp h), if_neg h]
    simp

theorem word?_of_loadProgram {m r : Ram} {program : Array UInt8}
    (h : m.loadProgram program = .ok r) {i : Nat} (hi : i + 1 < program.size) :
    r.word? (UInt16.ofNat (0x200 + i)) = some (bigEndian program[i] program[i + 1]) := by
  obtain ⟨hroom, hpaste⟩ := writeBlock?_eq_some_iff.mp (loadProgram_eq_ok_iff.mp h)
  have hroom : 512 + program.size ≤ 4096 := hroom
  obtain rfl : m.paste 512 program = r := hpaste
  have haddr : (UInt16.ofNat (0x200 + i)).toNat = 512 + i := by
    rw [UInt16.toNat_ofNat']
    exact Nat.mod_eq_of_lt (by omega)
  have hholds : Holds (UInt16.ofNat (0x200 + i)) 2 := by
    show _ + 2 ≤ 4096
    omega
  have hbyte : ∀ k (hk : k < program.size) (hk' : 512 + k < 4096),
      (m.paste 512 program).bytes[512 + k] = program[k] := by
    intro k hk hk'
    simp [paste, hk]
  unfold word?
  rw [dif_pos hholds]
  simp only [haddr, Nat.add_assoc]
  rw [hbyte i (by omega), hbyte (i + 1) hi]

/-! ## What one byte written does -/

theorem read_write_same (m : Ram) {a b : UInt16} (h : place a = place b) (v : UInt8) :
    (m.write a v).read b = v := by
  simp [read, write, h]

theorem read_write_other (m : Ram) {a b : UInt16} (h : place a ≠ place b) (v : UInt8) :
    (m.write a v).read b = m.read b := by
  have h' : (place a).val ≠ (place b).val := fun e => h (Fin.ext e)
  simp [read, write, Vector.getElem_set_ne, h']

end Ram

end ChipEight
