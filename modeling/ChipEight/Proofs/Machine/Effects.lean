import ChipEight.Proofs.Machine.Instructions

/-!
# What a step may change

An opcode says by its digits what a step with it may change: some bytes of
memory, some registers, the screen, the index, a timer, the dice. `Effect m keys
op m'` says that `m'` differs from `m` in nothing else, and that the program goes
on where the opcode sends it. The digits are looked at as numbers; none of this
mentions how an opcode is decoded or carried out.

`execute?_plain` runs through the instructions once, so that no later proof does.
An instruction is taken to a machine that differs from `m` in a few fields
(`Effect.ofPc` and those after it), and what is left is where its opcode stands
in the table. Calls and returns are left to the outcomes of a step, since
they alone can fail.
-/

namespace ChipEight

-- so that a register can be given by its number in what is stated below
local instance sixteen_ne_zero : NeZero 16 := ⟨by decide⟩

namespace Instr

/-- The second digit of an opcode, as the number of a register. -/
def digitX (op : UInt16) : Fin 16 := ⟨op.toNat / 256 % 16, Nat.mod_lt _ (by decide)⟩

/-- The third digit of an opcode, as the number of a register. -/
def digitY (op : UInt16) : Fin 16 := ⟨op.toNat / 16 % 16, Nat.mod_lt _ (by decide)⟩

/-- An opcode of the family `F`, by its last two digits. -/
def IsSpecial (op : UInt16) (low : Nat) : Prop :=
  op.toNat / 4096 = 0xf ∧ op.toNat % 256 = low

/-- The registers that an opcode may change. -/
def Writes (op : UInt16) (r : Fin 16) : Prop :=
  match op.toNat / 4096 with
  | 0x6 | 0x7 | 0xc => r = digitX op
  | 0x8 =>
    op.toNat % 16 ≤ 3 ∧ r = digitX op ∨
    (4 ≤ op.toNat % 16 ∧ op.toNat % 16 ≤ 7 ∨ op.toNat % 16 = 0xe) ∧ (r = digitX op ∨ r = 15)
  | 0xd => r = 15
  | 0xf =>
    (op.toNat % 256 = 0x07 ∨ op.toNat % 256 = 0x0a) ∧ r = digitX op ∨
    op.toNat % 256 = 0x65 ∧ r ≤ digitX op
  | _ => False

/-- The opcodes that may change the screen. -/
def Paints (op : UInt16) : Prop :=
  op = 0x00e0 ∨ op.toNat / 4096 = 0xd

/-- The opcodes that may change the index. -/
def Points (op : UInt16) : Prop :=
  op.toNat / 4096 = 0xa ∨ IsSpecial op 0x1e ∨ IsSpecial op 0x29

end Instr

namespace Machine

open Instr (digitX digitY IsSpecial Writes Paints Points)

/-- The bytes of memory that an opcode may change. -/
def Stores (m : Machine) (op : UInt16) (k : Fin 4096) : Prop :=
  IsSpecial op 0x33 ∧ (∃ j < 3, k.val = (m.index.toNat + j) % 4096) ∨
  IsSpecial op 0x55 ∧ (∃ j ≤ (digitX op).val, k.val = (m.index.toNat + j) % 4096)

/-- Whether an opcode passes over the next instruction. -/
def skips (m : Machine) (keys : Keypad) (op : UInt16) : Bool :=
  let x := m.registers.get (digitX op)
  let y := m.registers.get (digitY op)
  match op.toNat / 4096 with
  | 0x3 => x.toNat == op.toNat % 256
  | 0x4 => x.toNat != op.toNat % 256
  | 0x5 => x == y
  | 0x9 => x != y
  | 0xe =>
    if op.toNat % 256 = 0x9e then keys.held x
    else if op.toNat % 256 = 0xa1 then !keys.held x
    else false
  | _ => false

/-- Where the program goes on after an opcode. Nothing comes round: the address
of a jump with an offset is the sum as it is. -/
def target (m : Machine) (keys : Keypad) (op : UInt16) : Nat :=
  match op.toNat / 4096 with
  | 0x0 => if op = 0x00ee then (m.stack[m.depth - 1]?.getD 0).toNat else m.pc.toNat + 2
  | 0x1 | 0x2 => op.toNat % 4096
  | 0xb => op.toNat % 4096 + (m.registers.get 0).toNat
  | 0xf =>
    if op.toNat % 256 = 0x0a ∧ keys.lowest = none then m.pc.toNat else m.pc.toNat + 2
  | _ => if m.skips keys op then m.pc.toNat + 4 else m.pc.toNat + 2

/-- A step with an opcode changes nothing but what the opcode says. -/
structure Effect (m : Machine) (keys : Keypad) (op : UInt16) (m' : Machine) : Prop where
  settings : m'.settings = m.settings
  memory : ∀ k, ¬ m.Stores op k → m'.ram.bytes.get k = m.ram.bytes.get k
  width : m'.screen.width = m.screen.width
  height : m'.screen.height = m.screen.height
  screen : ¬ Paints op → m'.screen = m.screen
  registers : ∀ r, ¬ Writes op r → m'.registers.get r = m.registers.get r
  index : ¬ Points op → m'.index = m.index
  pc : m'.pc.toNat = m.target keys op
  stack : op.toNat / 4096 ≠ 2 → op ≠ 0x00ee → m'.stack = m.stack ∧ m'.depth = m.depth
  delay : ¬ IsSpecial op 0x15 → m'.delay = m.delay
  sound : ¬ IsSpecial op 0x18 → m'.sound = m.sound
  dice : op.toNat / 4096 ≠ 0xc → m'.dice = m.dice

/-- The machine with the program counter past the instruction it is at. -/
def advanced (m : Machine) : Machine :=
  { m with pc := m.pc + 2 }

variable {m : Machine} {keys : Keypad} {op : UInt16}

theorem toNat_fieldX_mod (op : UInt16) : (Instr.fieldX op).toNat % 16 = (digitX op).val := by
  rw [Instr.toNat_fieldX]
  exact Nat.mod_mod _ _

theorem reg_fieldX (m : Machine) (op : UInt16) :
    m.reg (Instr.fieldX op) = m.registers.get (digitX op) :=
  congrArg m.registers.get (Fin.ext (toNat_fieldX_mod op))

theorem reg_fieldY (m : Machine) (op : UInt16) :
    m.reg (Instr.fieldY op) = m.registers.get (digitY op) := by
  refine congrArg m.registers.get (Fin.ext ?_)
  show (Instr.fieldY op).toNat % 16 = _
  rw [Instr.toNat_fieldY]
  exact Nat.mod_mod _ _

theorem get_setReg_fieldX (m : Machine) (value : UInt8) {r : Fin 16} (h : r ≠ digitX op) :
    (m.setReg (Instr.fieldX op) value).registers.get r = m.registers.get r := by
  unfold setReg
  rw [get_set, if_neg]
  intro heq
  rw [toNat_fieldX_mod] at heq
  exact h (Fin.ext heq.symm)

theorem get_setReg_digitX (m : Machine) (op : UInt16) (value : UInt8) :
    (m.setReg (Instr.fieldX op) value).registers.get (digitX op) = value := by
  unfold setReg
  rw [get_set, if_pos (toNat_fieldX_mod op)]

theorem get_setFlag (m : Machine) (flag : Bool) {r : Fin 16} (h : r ≠ 15) :
    (m.setFlag flag).registers.get r = m.registers.get r := by
  unfold setFlag
  rw [get_set, if_neg]
  intro heq
  exact h (Fin.ext heq.symm)

theorem beq_fieldByte (v : UInt8) (op : UInt16) :
    (v == Instr.fieldByte op) = (v.toNat == op.toNat % 256) := by
  rw [← Instr.toNat_fieldByte, Bool.eq_iff_iff, beq_iff_eq, beq_iff_eq, UInt8.toNat_inj]

theorem done_map {o : Option Machine} {m' : Machine} (h : o = some m') :
    Turn.done <$> o = some (.done m') := by
  rw [h]
  rfl

/-! ## Changes of one kind -/

namespace Effect

theorem ofPc {pc : UInt16} (hpc : pc.toNat = m.target keys op) :
    m.Effect keys op { m with pc := pc } :=
  ⟨rfl, fun _ _ => rfl, rfl, rfl, fun _ => rfl, fun _ _ => rfl, fun _ => rfl, hpc,
    fun _ _ => ⟨rfl, rfl⟩, fun _ => rfl, fun _ => rfl, fun _ => rfl⟩

theorem ofSkip {c : Bool} (hpc : m.pc.toNat + 1 < 4096) (hc : c = m.skips keys op)
    (htarget : m.target keys op = if m.skips keys op then m.pc.toNat + 4 else m.pc.toNat + 2) :
    m.Effect keys op { m with pc := if c then m.pc + 2 + 2 else m.pc + 2 } := by
  have hnext : (m.pc + 2).toNat = m.pc.toNat + 2 := toNat_next (by omega)
  refine .ofPc ?_
  rw [htarget, ← hc]
  cases c with
  | true => exact (toNat_next (by omega)).trans (congrArg (· + 2) hnext)
  | false => exact hnext

theorem ofNext (hpc : m.pc.toNat + 1 < 4096) (htarget : m.target keys op = m.pc.toNat + 2) :
    m.Effect keys op m.advanced :=
  .ofPc ((toNat_next (by omega)).trans htarget.symm)

theorem ofRegisters {registers : Vector UInt8 16} (hpc : m.pc.toNat + 1 < 4096)
    (htarget : m.target keys op = m.pc.toNat + 2)
    (h : ∀ r, ¬ Writes op r → registers.get r = m.registers.get r) :
    m.Effect keys op { m.advanced with registers := registers } :=
  { ofNext hpc htarget with registers := h }

theorem ofSetReg {value : UInt8} (hpc : m.pc.toNat + 1 < 4096)
    (htarget : m.target keys op = m.pc.toNat + 2) (hx : Writes op (digitX op)) :
    m.Effect keys op (m.advanced.setReg (Instr.fieldX op) value) := by
  refine ofRegisters hpc htarget fun r hr => ?_
  exact get_setReg_fieldX m.advanced value fun h => hr (h ▸ hx)

theorem ofSetFlagged {value : UInt8} {flag : Bool} (hpc : m.pc.toNat + 1 < 4096)
    (htarget : m.target keys op = m.pc.toNat + 2) (hx : Writes op (digitX op))
    (hflag : Writes op 15) :
    m.Effect keys op ((m.advanced.setReg (Instr.fieldX op) value).setFlag flag) := by
  refine ofRegisters hpc htarget fun r hr => ?_
  have hne : r ≠ 15 := fun h => hr (h ▸ hflag)
  exact (get_setFlag (m.advanced.setReg _ value) flag hne).trans
    (get_setReg_fieldX m.advanced value fun h => hr (h ▸ hx))

end Effect

/-- Without a return, `0x10fe` is as far as the program counter gets: a jump to
`0xfff` with 255 added. -/
theorem target_le (hret : op ≠ 0x00ee) (hpc : m.pc.toNat + 1 < 4096) :
    m.target keys op ≤ 0x10fe := by
  have hv := (m.registers.get 0).toNat_lt
  unfold target
  rw [if_neg hret]
  split
  all_goals try split
  all_goals omega

theorem target_of_idles (h : Instr.Idles op) : m.target keys op = m.pc.toNat + 2 := by
  unfold Instr.Idles at h
  split at h
  case h_1 hf => simp [target, hf, h.2]
  case h_2 hf => simp [target, skips, hf]
  case h_3 hf => simp [target, skips, hf, h.1, h.2]
  case h_4 hf =>
      have hkey : op.toNat % 256 ≠ 0x0a := fun hlow => h (by simp [hlow])
      simp [target, hf, hkey]
  case h_5 => exact absurd h id

/-! ## All instructions but calls and returns -/

/-- What a turn with an opcode comes to that neither calls nor returns: it went
well and called for no tone, and changed nothing but what the opcode says. -/
structure Plain (m : Machine) (keys : Keypad) (op : UInt16) (t : Turn) : Prop where
  fault : t.fault = none
  tones : t.tones = #[]
  effect : m.Effect keys op t.machine

theorem Plain.noting {t : Turn} (h : m.Plain keys op t) (n : Note) :
    m.Plain keys op (t.noting n) :=
  ⟨h.fault, h.tones, h.effect⟩

theorem plain_of_decode (h : Instr.decode op = none) (hpc : m.pc.toNat + 1 < 4096) :
    m.Plain keys op (.done m.advanced) :=
  ⟨rfl, rfl, .ofNext hpc (target_of_idles (Instr.idles_of_decode h))⟩

/-- Every instruction but a call and a return goes well. -/
theorem execute?_plain {i : Instr} (keys : Keypad) (hop : Instr.decode op = some i)
    (hcall : op.toNat / 4096 ≠ 2) (hret : op ≠ 0x00ee) (hpc : m.pc.toNat + 1 < 4096)
    (hw : 0 < m.screen.width) (hh : 0 < m.screen.height) :
    ∃ t, m.advanced.execute? keys m.pc i = some t ∧ m.Plain keys op t := by
  have hx := Instr.fieldX_lt op
  have hy := Instr.fieldY_lt op
  have hnext : m.advanced.pc.toNat = m.pc.toNat + 2 := toNat_next (by omega)
  have hskip : m.advanced.pc.toNat + 2 < 65536 := by omega
  have hcodes := Instr.codes_of_decode hop
  cases i with
  | clear =>
      obtain rfl : op = 0x00e0 := hcodes
      have hidle : m.Effect keys 0x00e0 m.advanced := .ofNext hpc rfl
      exact ⟨_, rfl, rfl, rfl, { hidle with screen := absurd (Or.inl rfl) }⟩
  | ret => exact absurd hcodes hret
  | sys a =>
      obtain ⟨hf, -, -, -⟩ := hcodes
      exact ⟨_, rfl, rfl, rfl, .ofNext hpc (by simp [target, hf, hret])⟩
  | jump a =>
      obtain ⟨hf, rfl⟩ := hcodes
      refine ⟨_, rfl, rfl, rfl, .ofPc ?_⟩
      simp [target, hf, Instr.toNat_fieldAddr]
  | call a => exact absurd hcodes.1 hcall
  | skipEqByte x n | skipNeByte x n =>
      obtain ⟨hf, rfl, rfl⟩ := hcodes
      refine ⟨_, (register?_bind hx _).trans (done_map (skipIf?_eq hskip _)), rfl, rfl,
        .ofSkip hpc ?_ ?_⟩
      · simp [skips, hf, bne, ← beq_fieldByte, ← reg_fieldX, reg, advanced]
      · simp [target, hf]
  | skipEq x y | skipNe x y =>
      obtain ⟨hf, rfl, rfl⟩ := hcodes
      refine ⟨_, (register?_bind hx _).trans ((register?_bind hy _).trans
        (done_map (skipIf?_eq hskip _))), rfl, rfl, .ofSkip hpc ?_ ?_⟩
      · simp [skips, hf, ← reg_fieldX, ← reg_fieldY, reg, advanced]
      · simp [target, hf]
  | skipPressed x | skipReleased x =>
      obtain ⟨hf, hlow, rfl⟩ := hcodes
      refine ⟨_, (register?_bind hx _).trans (done_map (skipIf?_eq hskip _)), rfl, rfl,
        .ofSkip hpc ?_ ?_⟩
      · simp [skips, hf, hlow, ← reg_fieldX, reg, advanced]
      · simp [target, hf]
  | loadByte x n =>
      obtain ⟨hf, rfl, rfl⟩ := hcodes
      refine ⟨_, done_map (setRegister?_eq hx _), rfl, rfl, .ofSetReg hpc ?_ ?_⟩
      · simp [target, skips, hf]
      · simp [Writes, hf]
  | addByte x n =>
      obtain ⟨hf, rfl, rfl⟩ := hcodes
      refine ⟨_, done_map (combine?_eq hx hx _), rfl, rfl, .ofSetReg hpc ?_ ?_⟩
      · simp [target, skips, hf]
      · simp [Writes, hf]
  | copy x y | bitOr x y | bitAnd x y | bitXor x y =>
      obtain ⟨hf, hlow, rfl, rfl⟩ := hcodes
      refine ⟨_, done_map (combine?_eq hx hy _), rfl, rfl, .ofSetReg hpc ?_ ?_⟩
      · simp [target, skips, hf]
      · simp [Writes, hf, hlow]
  | add x y | sub x y | subFrom x y =>
      obtain ⟨hf, hlow, rfl, rfl⟩ := hcodes
      refine ⟨_, done_map (combineFlagged?_eq hx hy _), rfl, rfl,
        .ofSetFlagged hpc ?_ ?_ ?_⟩
      · simp [target, skips, hf]
      · simp [Writes, hf, hlow]
      · simp [Writes, hf, hlow]
  | shiftRight x | shiftLeft x =>
      obtain ⟨hf, hlow, rfl⟩ := hcodes
      refine ⟨_, done_map (combineFlagged?_eq hx hx _), rfl, rfl,
        .ofSetFlagged hpc ?_ ?_ ?_⟩
      · simp [target, skips, hf]
      · simp [Writes, hf, hlow]
      · simp [Writes, hf, hlow]
  | loadIndex a =>
      obtain ⟨hf, rfl⟩ := hcodes
      have hidle : m.Effect keys op m.advanced := .ofNext hpc (by simp [target, skips, hf])
      exact ⟨_, rfl, rfl, rfl, { hidle with index := absurd (Or.inl hf) }⟩
  | jumpOffset a =>
      obtain ⟨hf, rfl⟩ := hcodes
      obtain ⟨hjump, hsum⟩ := jumpOffset?_eq (m := m.advanced) (Instr.fieldAddr_lt op)
      refine ⟨_, done_map hjump, rfl, rfl, .ofPc (hsum.trans ?_)⟩
      rw [Instr.toNat_fieldAddr]
      simp only [target, hf]
      rfl
  | random x n =>
      obtain ⟨hf, rfl, rfl⟩ := hcodes
      refine ⟨_, done_map (random?_eq hx _), rfl, rfl, ?_⟩
      have hreg : m.Effect keys op (m.advanced.setReg (Instr.fieldX op)
          (m.dice.roll.1 &&& Instr.fieldByte op)) := by
        refine .ofSetReg hpc ?_ ?_
        · simp [target, skips, hf]
        · simp [Writes, hf]
      exact { hreg with dice := absurd hf }
  | draw x y n =>
      obtain ⟨hf, rfl, rfl, rfl⟩ := hcodes
      obtain ⟨out, hdraw, hflip⟩ := draw?_flipped (m := m.advanced) hx hy (Instr.fieldN op) hw hh
      refine ⟨_, done_map hdraw, rfl, rfl, ?_⟩
      have hflag : m.Effect keys op (m.advanced.setFlag out.2) := by
        refine .ofRegisters hpc ?_ fun r hr => get_setFlag m.advanced out.2 ?_
        · simp [target, skips, hf]
        · rintro rfl
          exact hr (by simp [Writes, hf])
      exact { hflag with
        width := hflip.width, height := hflip.height, screen := absurd (Or.inr hf) }
  | readDelay x =>
      obtain ⟨hf, hlow, rfl⟩ := hcodes
      refine ⟨_, done_map (setRegister?_eq hx _), rfl, rfl, .ofSetReg hpc ?_ ?_⟩
      · simp [target, hf, hlow]
      · simp [Writes, hf, hlow]
  | awaitKey x =>
      obtain ⟨hf, hlow, rfl⟩ := hcodes
      have hawait := awaitKey?_eq (m := m.advanced) hx keys m.pc
      cases hkey : keys.lowest with
      | some key =>
          rw [hkey] at hawait
          refine ⟨_, hawait, rfl, rfl, .ofSetReg hpc ?_ ?_⟩
          · simp [target, hf, hkey]
          · simp [Writes, hf, hlow]
      | none =>
          rw [hkey] at hawait
          refine ⟨_, hawait, rfl, rfl, .ofPc ?_⟩
          simp [target, hf, hlow, hkey]
  | setDelay x =>
      obtain ⟨hf, hlow, rfl⟩ := hcodes
      have hidle : m.Effect keys op m.advanced := .ofNext hpc (by simp [target, hf, hlow])
      exact ⟨_, register?_bind hx _, rfl, rfl, { hidle with delay := absurd ⟨hf, hlow⟩ }⟩
  | setSound x =>
      obtain ⟨hf, hlow, rfl⟩ := hcodes
      have hidle : m.Effect keys op m.advanced := .ofNext hpc (by simp [target, hf, hlow])
      exact ⟨_, register?_bind hx _, rfl, rfl, { hidle with sound := absurd ⟨hf, hlow⟩ }⟩
  | addIndex x =>
      obtain ⟨hf, hlow, rfl⟩ := hcodes
      have hidle : m.Effect keys op m.advanced := .ofNext hpc (by simp [target, hf, hlow])
      have hpoints : Points op := Or.inr (Or.inl ⟨hf, hlow⟩)
      exact ⟨_, register?_bind hx _, rfl, rfl, { hidle with index := absurd hpoints }⟩
  | glyph x =>
      obtain ⟨hf, hlow, rfl⟩ := hcodes
      have hidle : m.Effect keys op m.advanced := .ofNext hpc (by simp [target, hf, hlow])
      have hpoints : Points op := Or.inr (Or.inr ⟨hf, hlow⟩)
      exact ⟨_, register?_bind hx _, rfl, rfl, { hidle with index := absurd hpoints }⟩
  | digits x =>
      obtain ⟨hf, hlow, rfl⟩ := hcodes
      obtain ⟨ram, hdigits, hram⟩ := digits?_eq (m := m.advanced) hx
      have hidle : m.Effect keys op m.advanced := .ofNext hpc (by simp [target, hf, hlow])
      refine ⟨_, done_map hdigits, rfl, rfl, { hidle with memory := fun k hk => hram k ?_ }⟩
      intro j hj heq
      exact hk (Or.inl ⟨⟨hf, hlow⟩, j, hj, heq⟩)
  | store x =>
      obtain ⟨hf, hlow, rfl⟩ := hcodes
      obtain ⟨ram, hstore, hram⟩ := store?_eq (m := m.advanced) hx
      have hidle : m.Effect keys op m.advanced := .ofNext hpc (by simp [target, hf, hlow])
      refine ⟨_, done_map hstore, rfl, rfl, { hidle with memory := fun k hk => hram k ?_ }⟩
      intro j hj heq
      rw [Instr.toNat_fieldX] at hj
      exact hk (Or.inr ⟨⟨hf, hlow⟩, j, hj, heq⟩)
  | load x =>
      obtain ⟨hf, hlow, rfl⟩ := hcodes
      obtain ⟨registers, hload, hregisters⟩ := load?_eq (m := m.advanced) hx
      refine ⟨_, done_map hload, rfl, rfl, .ofRegisters hpc ?_ fun r hr => ?_⟩
      · simp [target, hf, hlow]
      · refine hregisters r (Nat.lt_of_not_le fun hle => hr ?_)
        rw [Instr.toNat_fieldX] at hle
        have hle : r ≤ digitX op := hle
        simp [Writes, hf, hlow, hle]

end Machine

end ChipEight
