import ChipEight.Proofs.Machine.Runs

/-!
# Arithmetic and the flag

The arithmetic opcodes make a number of two registers, or of one, and put it into the first
of them. Five of them also set the flag, from the numbers as they were before and after the
result was put away, so that the flag is what remains where it is the first register itself.

`Replaced` and `Flagged` say what the two kinds leave, of the whole machine and whichever
registers are the same. The rest is about bytes alone: each function that has a flag is one
equation between numbers, in which result and flag together are the sum, the difference, the
half or the double (`sum_eq` and those after it). `Computes` puts both together, opcode by
opcode.
-/

namespace ChipEight

/-- The opcodes of the arithmetic group: the addition of a byte, and those of family 8 that
mean something. -/
def Instr.IsArithmetic (op : UInt16) : Prop :=
  op.toNat / 4096 = 0x7 ∨
  op.toNat / 4096 = 0x8 ∧ (op.toNat % 16 ≤ 7 ∨ op.toNat % 16 = 0xe)

namespace Machine

open Instr (digitX digitY)

attribute [local instance] sixteen_ne_zero

variable {m m' : Machine} {op : UInt16}

/-! ## Operands -/

/-- What the first register of an opcode holds. -/
def vx (m : Machine) (op : UInt16) : Nat := (m.registers.get (digitX op)).toNat

/-- What the second register of an opcode holds. -/
def vy (m : Machine) (op : UInt16) : Nat := (m.registers.get (digitY op)).toNat

/-- What the flag holds. -/
def vf (m : Machine) : Nat := (m.registers.get 15).toNat

/-! ## Bytes -/

theorem sum_eq (a b : UInt8) :
    256 * (sum a b).2.toNat + (sum a b).1.toNat = a.toNat + b.toNat := by
  have ha := a.toNat_lt
  have hb := b.toNat_lt
  have hsum : (sum a b).1.toNat = (a.toNat + b.toNat) % 256 := UInt8.toNat_add a b
  rw [hsum]
  by_cases hcarry : 256 ≤ a.toNat + b.toNat
  · have hflag : (sum a b).2 = true := decide_eq_true hcarry
    rw [hflag, Bool.toNat_true]
    omega
  · have hflag : (sum a b).2 = false := decide_eq_false hcarry
    rw [hflag, Bool.toNat_false]
    omega

theorem difference_eq (a b : UInt8) :
    ((difference a b).1.toNat : Int) = ((a.toNat : Int) - b.toNat) % 256 ∧
      (difference a b).2.toNat = if b.toNat < a.toNat then 1 else 0 := by
  have hb := b.toNat_lt
  have hdiff : (difference a b).1.toNat = (256 - b.toNat + a.toNat) % 256 := UInt8.toNat_sub a b
  constructor
  · rw [hdiff]
    omega
  · show (decide (b < a)).toNat = _
    by_cases hlt : b.toNat < a.toNat
    · rw [if_pos hlt, decide_eq_true (UInt8.lt_iff_toNat_lt.mpr hlt)]
      rfl
    · rw [if_neg hlt, decide_eq_false (mt UInt8.lt_iff_toNat_lt.mp hlt)]
      rfl

theorem toNat_masked {a mask : UInt8} {i : Nat} (hmask : mask.toNat = 2 ^ i) :
    (a &&& mask != 0).toNat = a.toNat / 2 ^ i % 2 := by
  have hand : (a &&& mask).toNat = (a.toNat.testBit i).toNat * 2 ^ i := by
    rw [UInt8.toNat_and, hmask, Nat.and_two_pow]
  have hzero : a &&& mask = 0 ↔ (a.toNat.testBit i).toNat * 2 ^ i = 0 := by
    rw [← hand, ← UInt8.toNat_inj]
    rfl
  rw [← Nat.toNat_testBit]
  cases hbit : a.toNat.testBit i with
  | false =>
      rw [hbit] at hzero
      have hout : a &&& mask = 0 := hzero.mpr (Nat.zero_mul _)
      rw [hout]
      rfl
  | true =>
      rw [hbit, Bool.toNat_true, Nat.one_mul] at hzero
      have hin : a &&& mask ≠ 0 := fun h => (Nat.two_pow_pos i).ne' (hzero.mp h)
      rw [bne_iff_ne.mpr hin]

theorem halved_eq (a : UInt8) : 2 * (halved a).1.toNat + (halved a).2.toNat = a.toNat := by
  have hhalf : (halved a).1.toNat = a.toNat / 2 := Nat.shiftRight_eq_div_pow a.toNat 1
  have hbit : (halved a).2.toNat = a.toNat / 2 ^ 0 % 2 := toNat_masked rfl
  rw [hhalf, hbit]
  omega

theorem doubled_eq (a : UInt8) :
    256 * (doubled a).2.toNat + (doubled a).1.toNat = 2 * a.toNat := by
  have hlt := a.toNat_lt
  have hdouble : (doubled a).1.toNat = a.toNat * 2 % 256 :=
    congrArg (· % 256) (Nat.shiftLeft_eq a.toNat 1)
  have hbit : (doubled a).2.toNat = a.toNat / 2 ^ 7 % 2 := toNat_masked rfl
  rw [hdouble, hbit]
  omega

/-! ## What the two kinds leave -/

/-- The first register of an opcode has a new value, and nothing else changed but the
program counter. -/
structure Replaced (m : Machine) (op : UInt16) (value : UInt8) (m' : Machine) : Prop where
  rest : m' = { m with pc := m.pc + 2, registers := m'.registers }
  result : m'.vx op = value.toNat
  others : ∀ r, r ≠ digitX op → m'.registers.get r = m.registers.get r

/-- The flag has a new value, and so has the first register unless it is the flag itself;
nothing else changed but the program counter. -/
structure Flagged (m : Machine) (op : UInt16) (value : UInt8 × Bool) (m' : Machine) : Prop where
  rest : m' = { m with pc := m.pc + 2, registers := m'.registers }
  flag : m'.vf = value.2.toNat
  result : digitX op ≠ 15 → m'.vx op = value.1.toNat
  others : ∀ r, r ≠ digitX op → r ≠ 15 → m'.registers.get r = m.registers.get r

theorem setReg_replaced (m : Machine) (op : UInt16) (value : UInt8) :
    m.Replaced op value (m.advanced.setReg (Instr.fieldX op) value) := by
  refine ⟨rfl, congrArg UInt8.toNat (get_setReg_digitX m.advanced op value), ?_⟩
  intro r hr
  exact get_setReg_fieldX m.advanced value hr

theorem vf_setFlag (m : Machine) (flag : Bool) : (m.setFlag flag).vf = flag.toNat := by
  have hset : (m.setFlag flag).registers.get 15 = if flag then 1 else 0 :=
    Vector.getElem_set_self _
  show ((m.setFlag flag).registers.get 15).toNat = _
  rw [hset]
  cases flag <;> rfl

/-- The flag is set last, so it is what remains where both are the same. -/
theorem setFlag_flagged (m : Machine) (op : UInt16) (value : UInt8 × Bool) :
    m.Flagged op value ((m.advanced.setReg (Instr.fieldX op) value.1).setFlag value.2) := by
  have hset := m.setReg_replaced op value.1
  refine ⟨rfl, vf_setFlag _ _, ?_, ?_⟩
  · intro hx
    exact (congrArg UInt8.toNat (get_setFlag _ _ hx)).trans hset.result
  · intro r hr hflag
    exact (get_setFlag _ _ hflag).trans (hset.others r hr)

theorem combine?_replaced (m : Machine) (op : UInt16) {y : UInt8} (hy : y < 16)
    (f : UInt8 → UInt8 → UInt8) : ∃ m', m.advanced.combine? (Instr.fieldX op) y f = some m' ∧
      m.Replaced op (f (m.reg (Instr.fieldX op)) (m.reg y)) m' :=
  ⟨_, combine?_eq (Instr.fieldX_lt op) hy f, m.setReg_replaced op _⟩

theorem combineFlagged?_flagged (m : Machine) (op : UInt16) {y : UInt8} (hy : y < 16)
    (f : UInt8 → UInt8 → UInt8 × Bool) :
    ∃ m', m.advanced.combineFlagged? (Instr.fieldX op) y f = some m' ∧
      m.Flagged op (f (m.reg (Instr.fieldX op)) (m.reg y)) m' :=
  ⟨_, combineFlagged?_eq (Instr.fieldX_lt op) hy f, m.setFlag_flagged op _⟩

/-! ## Opcode by opcode -/

/-- What the arithmetic opcodes compute. Where the first register is the flag, the flag is
all that is said. -/
def Computes (m : Machine) (op : UInt16) (m' : Machine) : Prop :=
  match op.toNat / 4096, op.toNat % 16 with
  | 0x7, _ => m'.vx op = (m.vx op + op.toNat % 256) % 256
  | 0x8, 0x0 => m'.vx op = m.vy op
  | 0x8, 0x1 => m'.vx op = m.vx op ||| m.vy op
  | 0x8, 0x2 => m'.vx op = m.vx op &&& m.vy op
  | 0x8, 0x3 => m'.vx op = m.vx op ^^^ m.vy op
  | 0x8, 0x4 => m'.vf = (m.vx op + m.vy op) / 256 ∧
      (digitX op ≠ 15 → 256 * m'.vf + m'.vx op = m.vx op + m.vy op)
  | 0x8, 0x5 => (m'.vf = if m.vy op < m.vx op then 1 else 0) ∧
      (digitX op ≠ 15 → (m'.vx op : Int) = ((m.vx op : Int) - m.vy op) % 256)
  | 0x8, 0x6 => m'.vf = m.vx op % 2 ∧ (digitX op ≠ 15 → 2 * m'.vx op + m'.vf = m.vx op)
  | 0x8, 0x7 => (m'.vf = if m.vx op < m.vy op then 1 else 0) ∧
      (digitX op ≠ 15 → (m'.vx op : Int) = ((m.vy op : Int) - m.vx op) % 256)
  | 0x8, 0xe => m'.vf = 2 * m.vx op / 256 ∧
      (digitX op ≠ 15 → 256 * m'.vf + m'.vx op = 2 * m.vx op)
  | _, _ => False

/-- What a step with an arithmetic opcode leaves. -/
structure Calculated (m : Machine) (op : UInt16) (m' : Machine) : Prop where
  rest : m' = { m with pc := m.pc + 2, registers := m'.registers }
  others : ∀ r, r ≠ digitX op → r ≠ 15 → m'.registers.get r = m.registers.get r
  /-- Only the opcodes that have a flag touch it, unless it is their first register. -/
  flag : op.toNat / 4096 = 0x7 ∨ op.toNat % 16 ≤ 3 → digitX op ≠ 15 → m'.vf = m.vf
  computes : m.Computes op m'

theorem Replaced.calculated {value : UInt8} (h : m.Replaced op value m')
    (hcomputes : m.Computes op m') : m.Calculated op m' := by
  refine ⟨h.rest, fun r hr _ => h.others r hr, ?_, hcomputes⟩
  intro _ hx
  exact congrArg UInt8.toNat (h.others 15 hx.symm)

theorem Flagged.calculated {value : UInt8 × Bool} (h : m.Flagged op value m')
    (hf : op.toNat / 4096 = 0x8) (hlow : 4 ≤ op.toNat % 16) (hcomputes : m.Computes op m') :
    m.Calculated op m' := by
  refine ⟨h.rest, h.others, ?_, hcomputes⟩
  intro hplain
  omega

/-! ## The steps -/

variable {i : Instr} {keys : Keypad} {y : UInt8}

theorem step?_replaced {f : UInt8 → UInt8 → UInt8} (hop : m.ram.word? m.pc = some op)
    (hi : Instr.decode op = some i) (hy : y < 16)
    (hpart : m.advanced.execute? keys m.pc i =
      Turn.done <$> m.advanced.combine? (Instr.fieldX op) y f)
    (hcomputes : ∀ m', m.Replaced op (f (m.reg (Instr.fieldX op)) (m.reg y)) m' →
      m.Computes op m') :
    ∃ t, m.step? keys = some t ∧ t.fault = none ∧ t.tones = #[] ∧ m.Calculated op t.machine := by
  obtain ⟨m', hm', hreplaced⟩ := m.combine?_replaced op hy f
  exact step?_of_part hop hi hpart ⟨m', hm', hreplaced.calculated (hcomputes m' hreplaced)⟩

theorem step?_flagged {f : UInt8 → UInt8 → UInt8 × Bool} (hop : m.ram.word? m.pc = some op)
    (hi : Instr.decode op = some i) (hy : y < 16) (hf : op.toNat / 4096 = 0x8)
    (hlow : 4 ≤ op.toNat % 16)
    (hpart : m.advanced.execute? keys m.pc i =
      Turn.done <$> m.advanced.combineFlagged? (Instr.fieldX op) y f)
    (hcomputes : ∀ m', m.Flagged op (f (m.reg (Instr.fieldX op)) (m.reg y)) m' →
      m.Computes op m') :
    ∃ t, m.step? keys = some t ∧ t.fault = none ∧ t.tones = #[] ∧ m.Calculated op t.machine := by
  obtain ⟨m', hm', hflagged⟩ := m.combineFlagged?_flagged op hy f
  exact step?_of_part hop hi hpart
    ⟨m', hm', hflagged.calculated hf hlow (hcomputes m' hflagged)⟩

theorem toNat_reg_fieldX (m : Machine) (op : UInt16) :
    (m.reg (Instr.fieldX op)).toNat = m.vx op :=
  congrArg UInt8.toNat (reg_fieldX m op)

theorem toNat_reg_fieldY (m : Machine) (op : UInt16) :
    (m.reg (Instr.fieldY op)).toNat = m.vy op :=
  congrArg UInt8.toNat (reg_fieldY m op)

/-! The flag is read off the equation of each function, the result is the equation. -/

theorem Flagged.sum
    (h : m.Flagged op (sum (m.reg (Instr.fieldX op)) (m.reg (Instr.fieldY op))) m') :
    m'.vf = (m.vx op + m.vy op) / 256 ∧
      (digitX op ≠ 15 → 256 * m'.vf + m'.vx op = m.vx op + m.vy op) := by
  have hsum := sum_eq (m.reg (Instr.fieldX op)) (m.reg (Instr.fieldY op))
  have hlt := (Machine.sum (m.reg (Instr.fieldX op)) (m.reg (Instr.fieldY op))).1.toNat_lt
  rw [toNat_reg_fieldX, toNat_reg_fieldY, ← h.flag] at hsum
  refine ⟨by omega, ?_⟩
  intro hx
  rw [h.result hx]
  exact hsum

theorem Flagged.difference {a b : UInt8} (h : m.Flagged op (difference a b) m') :
    (m'.vf = if b.toNat < a.toNat then 1 else 0) ∧
      (digitX op ≠ 15 → (m'.vx op : Int) = ((a.toNat : Int) - b.toNat) % 256) := by
  obtain ⟨hdiff, hflag⟩ := difference_eq a b
  refine ⟨h.flag.trans hflag, ?_⟩
  intro hx
  rw [h.result hx]
  exact hdiff

theorem Flagged.halved (h : m.Flagged op (halved (m.reg (Instr.fieldX op))) m') :
    m'.vf = m.vx op % 2 ∧ (digitX op ≠ 15 → 2 * m'.vx op + m'.vf = m.vx op) := by
  have hhalf := halved_eq (m.reg (Instr.fieldX op))
  have hbit := Bool.toNat_le (Machine.halved (m.reg (Instr.fieldX op))).2
  rw [toNat_reg_fieldX] at hhalf
  rw [← h.flag] at hhalf hbit
  refine ⟨by omega, ?_⟩
  intro hx
  rw [h.result hx]
  exact hhalf

theorem Flagged.doubled (h : m.Flagged op (doubled (m.reg (Instr.fieldX op))) m') :
    m'.vf = 2 * m.vx op / 256 ∧ (digitX op ≠ 15 → 256 * m'.vf + m'.vx op = 2 * m.vx op) := by
  have hdouble := doubled_eq (m.reg (Instr.fieldX op))
  have hlt := (Machine.doubled (m.reg (Instr.fieldX op))).1.toNat_lt
  rw [toNat_reg_fieldX, ← h.flag] at hdouble
  refine ⟨by omega, ?_⟩
  intro hx
  rw [h.result hx]
  exact hdouble

theorem step?_addByte (hop : m.ram.word? m.pc = some op) (hf : op.toNat / 4096 = 0x7)
    (keys : Keypad) :
    ∃ t, m.step? keys = some t ∧ t.fault = none ∧ t.tones = #[] ∧ m.Calculated op t.machine := by
  refine step?_replaced hop (Instr.decode_of_codes (i := .addByte _ _) ⟨hf, rfl, rfl⟩)
    (Instr.fieldX_lt op) rfl ?_
  intro m' hm'
  have hsum := hm'.result
  rw [UInt8.toNat_add, toNat_reg_fieldX, Instr.toNat_fieldByte] at hsum
  simp only [Computes, hf]
  exact hsum

theorem step?_combining (hop : m.ram.word? m.pc = some op) (hf : op.toNat / 4096 = 0x8)
    (hlow : op.toNat % 16 ≤ 3) (keys : Keypad) :
    ∃ t, m.step? keys = some t ∧ t.fault = none ∧ t.tones = #[] ∧ m.Calculated op t.machine := by
  have hy := Instr.fieldY_lt op
  have ha := m.toNat_reg_fieldX op
  have hb := m.toNat_reg_fieldY op
  have hcases : op.toNat % 16 = 0 ∨ op.toNat % 16 = 1 ∨ op.toNat % 16 = 2 ∨
      op.toNat % 16 = 3 := by omega
  rcases hcases with hlow | hlow | hlow | hlow
  · refine step?_replaced hop
      (Instr.decode_of_codes (i := .copy _ _) ⟨hf, hlow, rfl, rfl⟩) hy rfl ?_
    intro m' hm'
    simp only [Computes, hf, hlow]
    exact hm'.result.trans hb
  · refine step?_replaced hop
      (Instr.decode_of_codes (i := .bitOr _ _) ⟨hf, hlow, rfl, rfl⟩) hy rfl ?_
    intro m' hm'
    simp only [Computes, hf, hlow, ← ha, ← hb]
    exact hm'.result
  · refine step?_replaced hop
      (Instr.decode_of_codes (i := .bitAnd _ _) ⟨hf, hlow, rfl, rfl⟩) hy rfl ?_
    intro m' hm'
    simp only [Computes, hf, hlow, ← ha, ← hb]
    exact hm'.result
  · refine step?_replaced hop
      (Instr.decode_of_codes (i := .bitXor _ _) ⟨hf, hlow, rfl, rfl⟩) hy rfl ?_
    intro m' hm'
    simp only [Computes, hf, hlow, ← ha, ← hb]
    exact hm'.result

theorem step?_flagging (hop : m.ram.word? m.pc = some op) (hf : op.toNat / 4096 = 0x8)
    (hlow : 4 ≤ op.toNat % 16) (hmeans : op.toNat % 16 ≤ 7 ∨ op.toNat % 16 = 0xe)
    (keys : Keypad) :
    ∃ t, m.step? keys = some t ∧ t.fault = none ∧ t.tones = #[] ∧ m.Calculated op t.machine := by
  have hx := Instr.fieldX_lt op
  have hy := Instr.fieldY_lt op
  have hcases : op.toNat % 16 = 4 ∨ op.toNat % 16 = 5 ∨ op.toNat % 16 = 6 ∨
      op.toNat % 16 = 7 ∨ op.toNat % 16 = 0xe := by omega
  rcases hcases with hdigit | hdigit | hdigit | hdigit | hdigit
  · refine step?_flagged hop
      (Instr.decode_of_codes (i := .add _ _) ⟨hf, hdigit, rfl, rfl⟩) hy hf hlow rfl ?_
    intro m' hm'
    simp only [Computes, hf, hdigit]
    exact hm'.sum
  · refine step?_flagged hop
      (Instr.decode_of_codes (i := .sub _ _) ⟨hf, hdigit, rfl, rfl⟩) hy hf hlow rfl ?_
    intro m' hm'
    simp only [Computes, hf, hdigit, ← toNat_reg_fieldX m, ← toNat_reg_fieldY m]
    exact hm'.difference
  · refine step?_flagged hop
      (Instr.decode_of_codes (i := .shiftRight _) ⟨hf, hdigit, rfl⟩) hx hf hlow rfl ?_
    intro m' hm'
    simp only [Computes, hf, hdigit]
    exact hm'.halved
  · refine step?_flagged hop
      (Instr.decode_of_codes (i := .subFrom _ _) ⟨hf, hdigit, rfl, rfl⟩) hy hf hlow rfl ?_
    intro m' hm'
    simp only [Computes, hf, hdigit, ← toNat_reg_fieldX m, ← toNat_reg_fieldY m]
    exact hm'.difference
  · refine step?_flagged hop
      (Instr.decode_of_codes (i := .shiftLeft _) ⟨hf, hdigit, rfl⟩) hx hf hlow rfl ?_
    intro m' hm'
    simp only [Computes, hf, hdigit]
    exact hm'.doubled

/-- Every arithmetic opcode makes a step that goes well, computes what it is for and changes
nothing but the first register, the flag if it has one, and the program counter. This holds
whichever registers are the same: what is computed is said of the numbers before the step,
and the flag is what remains where it is the first register. -/
theorem step?_arithmetic (hop : m.ram.word? m.pc = some op) (h : Instr.IsArithmetic op)
    (keys : Keypad) :
    ∃ t, m.step? keys = some t ∧ t.fault = none ∧ t.tones = #[] ∧ m.Calculated op t.machine := by
  rcases h with hf | ⟨hf, hmeans⟩
  · exact step?_addByte hop hf keys
  · by_cases hlow : op.toNat % 16 ≤ 3
    · exact step?_combining hop hf hlow keys
    · exact step?_flagging hop hf (Nat.lt_of_not_le hlow) hmeans keys

/-- The flag is added to itself: it holds the carry, and the sum is nowhere. -/
theorem step?_arithmetic_flag : ∃ (m : Machine) (t : Turn),
    m.registers = Vector.replicate 16 200 ∧ m.ram.word? m.pc = some 0x8ff4 ∧
    m.step? .untouched = some t ∧ t.machine.registers.get 15 = 1 ∧
    ∀ r : Fin 16, r ≠ 15 → t.machine.registers.get r = 200 := by
  obtain ⟨a, -, hfinds⟩ := Session.exists_finding 0x8f 0xf4
  obtain ⟨m, hm⟩ : ∃ m, m = { a.machine with registers := Vector.replicate 16 200 } := ⟨_, rfl⟩
  have hregisters : m.registers = Vector.replicate 16 200 := by rw [hm]
  have hvalue : ∀ r, m.registers.get r = 200 := by
    intro r
    rw [hregisters]
    exact Vector.getElem_replicate _
  have hop : m.ram.word? m.pc = some 0x8ff4 := by
    rw [hm]
    exact hfinds
  obtain ⟨t, ht, -, -, hcalculated⟩ := step?_arithmetic hop (Or.inr ⟨rfl, Or.inl (by decide)⟩)
    .untouched
  refine ⟨m, t, hregisters, hop, ht, ?_, ?_⟩
  · have hflag : t.machine.vf = (m.vx 0x8ff4 + m.vy 0x8ff4) / 256 := hcalculated.computes.1
    unfold vx vy at hflag
    rw [hvalue, hvalue] at hflag
    exact UInt8.toNat_inj.mp hflag
  · intro r hr
    rw [hcalculated.others r hr hr, hvalue]

end Machine

end ChipEight
