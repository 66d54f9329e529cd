import ChipEight.Proofs.Instr.Table
import Mathlib.Algebra.Group.Nat.Defs

/-!
# Opcodes and the instructions they mean

The table says which opcodes an instruction has; this module says how many. Writing an
instruction gives one of them (`codes_encode`), and any other can differ from it only in
digits that nothing reads: the last of a comparison of registers and the third of a shift.
`settled` is an opcode as a number with zeros there. Every opcode of an instruction settles
to the opcode that is written for it (`toNat_encode`), and opcodes settle to the same number
exactly if they are equal or differ in such a digit (`settled_eq_iff`). So what decoding
forgets is those digits and nothing else (`decode_exact`).

The routines 0x0e0 and 0x0ee of old hosts are no opcode's meaning: what would be theirs
clears the screen and returns.
-/

namespace ChipEight.Instr

/-! ## Digits that are written -/

theorem toNat_or_of_dvd {a b : UInt16} (i : Nat) (ha : 2 ^ i ∣ a.toNat) (hb : b.toNat < 2 ^ i) :
    (a ||| b).toNat = a.toNat + b.toNat := by
  obtain ⟨k, hk⟩ := ha
  rw [UInt16.toNat_or, hk, Nat.two_pow_add_eq_or_of_lt hb]

theorem toNat_shifted {a s : UInt16} {i : Nat} (hs : s.toNat % 16 = i)
    (ha : 2 ^ i * a.toNat < 65536) : (a <<< s).toNat = 2 ^ i * a.toNat := by
  rw [UInt16.toNat_shiftLeft, Nat.shiftLeft_eq, hs, Nat.mul_comm]
  exact Nat.mod_eq_of_lt ha

theorem toNat_codeAddr {f a : UInt16} (hf : f < 16) (ha : a < 4096) :
    (codeAddr f a).toNat = 4096 * f.toNat + a.toNat := by
  have hf : f.toNat < 16 := UInt16.lt_iff_toNat_lt.mp hf
  have ha : a.toNat < 4096 := UInt16.lt_iff_toNat_lt.mp ha
  have hfamily : (f <<< 12).toNat = 4096 * f.toNat := toNat_shifted (i := 12) rfl (by omega)
  unfold codeAddr
  rw [toNat_or_of_dvd 12 (by omega) ha, hfamily]

theorem toNat_head {f : UInt16} {x : UInt8} (hf : f < 16) (hx : x < 16) :
    (f <<< 12 ||| x.toUInt16 <<< 8).toNat = 4096 * f.toNat + 256 * x.toNat := by
  have hf : f.toNat < 16 := UInt16.lt_iff_toNat_lt.mp hf
  have hx : x.toNat < 16 := UInt8.lt_iff_toNat_lt.mp hx
  have hwide : x.toUInt16.toNat = x.toNat := x.toNat_toUInt16
  have hfamily : (f <<< 12).toNat = 4096 * f.toNat := toNat_shifted (i := 12) rfl (by omega)
  have hdigit : (x.toUInt16 <<< 8).toNat = 256 * x.toNat := toNat_shifted (i := 8) rfl (by omega)
  rw [toNat_or_of_dvd 12 (by omega) (by omega), hfamily, hdigit]

theorem toNat_codeByte {f : UInt16} {x n : UInt8} (hf : f < 16) (hx : x < 16) :
    (codeByte f x n).toNat = 4096 * f.toNat + 256 * x.toNat + n.toNat := by
  have hhead := toNat_head hf hx
  have hn : n.toUInt16.toNat < 2 ^ 8 := n.toNat_lt
  unfold codeByte
  rw [toNat_or_of_dvd 8 (by omega) hn, hhead]
  rfl

theorem toNat_codeRegs {f : UInt16} {x y n : UInt8} (hf : f < 16) (hx : x < 16) (hy : y < 16)
    (hn : n < 16) :
    (codeRegs f x y n).toNat = 4096 * f.toNat + 256 * x.toNat + 16 * y.toNat + n.toNat := by
  have hhead := toNat_head hf hx
  have hy : y.toNat < 16 := UInt8.lt_iff_toNat_lt.mp hy
  have hwide : y.toUInt16.toNat = y.toNat := y.toNat_toUInt16
  have hn : n.toUInt16.toNat < 2 ^ 4 := UInt8.lt_iff_toNat_lt.mp hn
  have hdigit : (y.toUInt16 <<< 4).toNat = 16 * y.toNat := toNat_shifted (i := 4) rfl (by omega)
  have hrest : (f <<< 12 ||| x.toUInt16 <<< 8 ||| y.toUInt16 <<< 4).toNat =
      4096 * f.toNat + 256 * x.toNat + 16 * y.toNat := by
    rw [toNat_or_of_dvd 8 (by omega) (by omega), hhead, hdigit]
  unfold codeRegs
  rw [toNat_or_of_dvd 4 (by omega) hn, hrest]
  rfl

/-! ## Reading what was written -/

theorem fields_codeAddr {f a : UInt16} (hf : f < 16) (ha : a < 4096) :
    (codeAddr f a).toNat / 4096 = f.toNat ∧ a = fieldAddr (codeAddr f a) := by
  have hcode := toNat_codeAddr hf ha
  have ha : a.toNat < 4096 := UInt16.lt_iff_toNat_lt.mp ha
  refine ⟨by omega, UInt16.toNat_inj.mp ?_⟩
  rw [toNat_fieldAddr]
  omega

theorem fields_codeByte {f : UInt16} {x n : UInt8} (hf : f < 16) (hx : x < 16) :
    (codeByte f x n).toNat / 4096 = f.toNat ∧ (codeByte f x n).toNat % 256 = n.toNat ∧
      x = fieldX (codeByte f x n) ∧ n = fieldByte (codeByte f x n) := by
  have hcode := toNat_codeByte (n := n) hf hx
  have hx : x.toNat < 16 := UInt8.lt_iff_toNat_lt.mp hx
  have hn := n.toNat_lt
  refine ⟨by omega, by omega, UInt8.toNat_inj.mp ?_, UInt8.toNat_inj.mp ?_⟩
  · rw [toNat_fieldX]
    omega
  · rw [toNat_fieldByte]
    omega

theorem fields_codeRegs {f : UInt16} {x y n : UInt8} (hf : f < 16) (hx : x < 16) (hy : y < 16)
    (hn : n < 16) :
    (codeRegs f x y n).toNat / 4096 = f.toNat ∧ (codeRegs f x y n).toNat % 16 = n.toNat ∧
      x = fieldX (codeRegs f x y n) ∧ y = fieldY (codeRegs f x y n) ∧
      n = fieldN (codeRegs f x y n) := by
  have hcode := toNat_codeRegs hf hx hy hn
  have hx : x.toNat < 16 := UInt8.lt_iff_toNat_lt.mp hx
  have hy : y.toNat < 16 := UInt8.lt_iff_toNat_lt.mp hy
  have hn : n.toNat < 16 := UInt8.lt_iff_toNat_lt.mp hn
  refine ⟨by omega, by omega, UInt8.toNat_inj.mp ?_, UInt8.toNat_inj.mp ?_, UInt8.toNat_inj.mp ?_⟩
  · rw [toNat_fieldX]
    omega
  · rw [toNat_fieldY]
    omega
  · rw [toNat_fieldN]
    omega

/-- The opcode that is written for an instruction in range has that meaning. Two routines of
old hosts are written like other instructions. -/
theorem codes_encode {i : Instr} (h : i.InRange) (hclear : i ≠ sys 0x0e0) (hret : i ≠ sys 0x0ee) :
    i.Codes (encode i) := by
  cases i with
  | clear | ret => rfl
  | sys a =>
      have ha : a < 4096 := by simpa [InRange, operands, Operand.InRange] using h
      obtain ⟨hf, hfield⟩ := fields_codeAddr (f := 0x0) (by decide) ha
      have hcode : encode (sys a) = a := fieldAddr_eq hf hfield.symm
      exact ⟨hf, fun h => hclear (congrArg sys (hcode.symm.trans h)),
        fun h => hret (congrArg sys (hcode.symm.trans h)), hfield⟩
  | jump a | call a | loadIndex a | jumpOffset a =>
      have ha : a < 4096 := by simpa [InRange, operands, Operand.InRange] using h
      exact fields_codeAddr (by decide) ha
  | skipEqByte x n | skipNeByte x n | loadByte x n | addByte x n | random x n =>
      have hx : x < 16 := by simpa [InRange, operands, Operand.InRange] using h
      exact (fields_codeByte (by decide) hx).imp_right And.right
  | skipEq x y | skipNe x y =>
      obtain ⟨hx, hy⟩ : x < 16 ∧ y < 16 := by simpa [InRange, operands, Operand.InRange] using h
      exact (fields_codeRegs (by decide) hx hy (by decide)).imp_right fun h => ⟨h.2.1, h.2.2.1⟩
  | copy x y | bitOr x y | bitAnd x y | bitXor x y | add x y | sub x y | subFrom x y =>
      obtain ⟨hx, hy⟩ : x < 16 ∧ y < 16 := by simpa [InRange, operands, Operand.InRange] using h
      exact (fields_codeRegs (by decide) hx hy (by decide)).imp_right
        fun h => ⟨h.1, h.2.1, h.2.2.1⟩
  | shiftRight x | shiftLeft x =>
      have hx : x < 16 := by simpa [InRange, operands, Operand.InRange] using h
      exact (fields_codeRegs (by decide) hx (by decide) (by decide)).imp_right
        fun h => ⟨h.1, h.2.1⟩
  | draw x y n =>
      obtain ⟨hx, hy, hn⟩ : x < 16 ∧ y < 16 ∧ n < 16 := by
        simpa [InRange, operands, Operand.InRange] using h
      exact (fields_codeRegs (by decide) hx hy hn).imp_right And.right
  | skipPressed x | skipReleased x | readDelay x | awaitKey x | setDelay x | setSound x
  | addIndex x | glyph x | digits x | store x | load x =>
      have hx : x < 16 := by simpa [InRange, operands, Operand.InRange] using h
      exact (fields_codeByte (by decide) hx).imp_right fun h => ⟨h.1, h.2.1⟩

/-! ## Digits that nothing reads -/

/-- An opcode as a number, with zeros in the digits that nothing reads. -/
def settled (op : UInt16) : Nat :=
  if op.toNat / 4096 = 0x5 ∨ op.toNat / 4096 = 0x9 then op.toNat / 16 * 16
  else if op.toNat / 4096 = 0x8 ∧ (op.toNat % 16 = 0x6 ∨ op.toNat % 16 = 0xe) then
    op.toNat / 256 * 256 + op.toNat % 16
  else op.toNat

/-- Two opcodes differ at most in a digit that nothing reads: the last of a comparison of
registers, or the third of a shift. -/
def DiffersIdly (op op' : UInt16) : Prop :=
  ((op.toNat / 4096 = 0x5 ∨ op.toNat / 4096 = 0x9) ∧ op.toNat / 16 = op'.toNat / 16) ∨
    (op.toNat / 4096 = 0x8 ∧ (op.toNat % 16 = 0x6 ∨ op.toNat % 16 = 0xe) ∧
      op.toNat / 256 = op'.toNat / 256 ∧ op.toNat % 16 = op'.toNat % 16)

theorem settled_le (op : UInt16) : settled op ≤ op.toNat := by
  unfold settled
  split
  · omega
  · split
    · omega
    · exact Nat.le_refl _

/-- The upper two digits are always read, so that opcodes which settle to the same number are
of one family. -/
theorem settled_div (op : UInt16) : settled op / 256 = op.toNat / 256 := by
  unfold settled
  split
  · omega
  · split
    · omega
    · rfl

theorem settled_mod {op : UInt16} (h : ¬ (op.toNat / 4096 = 0x5 ∨ op.toNat / 4096 = 0x9)) :
    settled op % 16 = op.toNat % 16 := by
  rw [settled, if_neg h]
  split
  · omega
  · rfl

theorem settled_eq_iff {op op' : UInt16} :
    settled op = settled op' ↔ op = op' ∨ DiffersIdly op op' := by
  constructor
  · intro h
    have hhead : op.toNat / 256 = op'.toNat / 256 := by rw [← settled_div, h, settled_div]
    have hfamily : op.toNat / 4096 = op'.toNat / 4096 := by omega
    by_cases hcmp : op.toNat / 4096 = 0x5 ∨ op.toNat / 4096 = 0x9
    · rw [settled, settled, if_pos hcmp, if_pos (hfamily ▸ hcmp)] at h
      exact .inr (.inl ⟨hcmp, Nat.eq_of_mul_eq_mul_right (by decide) h⟩)
    · have hcmp' := hfamily ▸ hcmp
      have hlast : op.toNat % 16 = op'.toNat % 16 := by
        rw [← settled_mod hcmp, h, settled_mod hcmp']
      by_cases hshift : op.toNat / 4096 = 0x8 ∧ (op.toNat % 16 = 0x6 ∨ op.toNat % 16 = 0xe)
      · exact .inr (.inr ⟨hshift.1, hshift.2, hhead, hlast⟩)
      · have hshift' := hlast ▸ hfamily ▸ hshift
        rw [settled, settled, if_neg hcmp, if_neg hcmp', if_neg hshift, if_neg hshift'] at h
        exact .inl (UInt16.toNat_inj.mp h)
  · rintro (rfl | ⟨hcmp, hsame⟩ | ⟨hfamily, hlow, hhead, hlast⟩)
    · rfl
    · have hfamily : op.toNat / 4096 = op'.toNat / 4096 := by omega
      rw [settled, settled, if_pos hcmp, if_pos (hfamily ▸ hcmp), hsame]
    · have hfamily' : op'.toNat / 4096 = 0x8 := by omega
      rw [settled, settled, if_neg (by omega), if_pos ⟨hfamily, hlow⟩, if_neg (by omega),
        if_pos ⟨hfamily', hlast ▸ hlow⟩, hhead, hlast]

theorem settled_of_read {op : UInt16} (hcmp : op.toNat / 4096 ≠ 0x5 ∧ op.toNat / 4096 ≠ 0x9)
    (hshift : op.toNat / 4096 = 0x8 → op.toNat % 16 ≠ 0x6 ∧ op.toNat % 16 ≠ 0xe) :
    settled op = op.toNat := by
  rw [settled, if_neg (not_or.mpr hcmp), if_neg fun h => not_or.mpr (hshift h.1) h.2]

/-- Every opcode of an instruction settles to the one that is written for it. -/
theorem toNat_encode {op : UInt16} {i : Instr} (h : i.Codes op) : (encode i).toNat = settled op := by
  have hx := toNat_fieldX op
  cases i with
  | clear | ret =>
      obtain rfl : op = _ := h
      rfl
  | sys a =>
      obtain ⟨hf, -, -, rfl⟩ := h
      have ha := toNat_fieldAddr op
      rw [settled_of_read (by omega) (by omega)]
      refine (toNat_codeAddr (f := 0) (by decide) (fieldAddr_lt op)).trans ?_
      simp only [UInt16.toNat_zero]
      omega
  | jump a | call a | loadIndex a | jumpOffset a =>
      obtain ⟨hf, rfl⟩ := h
      have ha := toNat_fieldAddr op
      rw [settled_of_read (by omega) (by omega)]
      refine (toNat_codeAddr (by decide) (fieldAddr_lt op)).trans ?_
      simp only [UInt16.reduceToNat]
      omega
  | skipEqByte x n | skipNeByte x n | loadByte x n | addByte x n | random x n =>
      obtain ⟨hf, rfl, rfl⟩ := h
      have hn := toNat_fieldByte op
      rw [settled_of_read (by omega) (by omega)]
      refine (toNat_codeByte (by decide) (fieldX_lt op)).trans ?_
      simp only [UInt16.reduceToNat]
      omega
  | skipEq x y | skipNe x y =>
      obtain ⟨hf, rfl, rfl⟩ := h
      have hy := toNat_fieldY op
      rw [settled, if_pos (by omega)]
      refine (toNat_codeRegs (by decide) (fieldX_lt op) (fieldY_lt op) (by decide)).trans ?_
      simp only [UInt16.reduceToNat, UInt8.reduceToNat]
      omega
  | copy x y | bitOr x y | bitAnd x y | bitXor x y | add x y | sub x y | subFrom x y =>
      obtain ⟨hf, hlow, rfl, rfl⟩ := h
      have hy := toNat_fieldY op
      rw [settled_of_read (by omega) (by omega)]
      refine (toNat_codeRegs (by decide) (fieldX_lt op) (fieldY_lt op) (by decide)).trans ?_
      simp only [UInt16.reduceToNat, UInt8.reduceToNat]
      omega
  | shiftRight x | shiftLeft x =>
      obtain ⟨hf, hlow, rfl⟩ := h
      rw [settled, if_neg (by omega), if_pos (by omega)]
      refine (toNat_codeRegs (by decide) (fieldX_lt op) (by decide) (by decide)).trans ?_
      simp only [UInt16.reduceToNat, UInt8.reduceToNat]
      omega
  | draw x y n =>
      obtain ⟨hf, rfl, rfl, rfl⟩ := h
      have hy := toNat_fieldY op
      have hn := toNat_fieldN op
      rw [settled_of_read (by omega) (by omega)]
      refine (toNat_codeRegs (by decide) (fieldX_lt op) (fieldY_lt op) (fieldN_lt op)).trans ?_
      simp only [UInt16.reduceToNat]
      omega
  | skipPressed x | skipReleased x | readDelay x | awaitKey x | setDelay x | setSound x
  | addIndex x | glyph x | digits x | store x | load x =>
      obtain ⟨hf, hlow, rfl⟩ := h
      rw [settled_of_read (by omega) (by omega)]
      refine (toNat_codeByte (by decide) (fieldX_lt op)).trans ?_
      simp only [UInt16.reduceToNat, UInt8.reduceToNat]
      omega

theorem Codes.congr {op op' : UInt16} {i : Instr} (h : i.Codes op) (hidle : DiffersIdly op op') :
    i.Codes op' := by
  have hx : op.toNat / 256 = op'.toNat / 256 → fieldX op = fieldX op' := fun heq =>
    UInt8.toNat_inj.mp (by rw [toNat_fieldX, toNat_fieldX, heq])
  have hy : op.toNat / 16 = op'.toNat / 16 → fieldY op = fieldY op' := fun heq =>
    UInt8.toNat_inj.mp (by rw [toNat_fieldY, toNat_fieldY, heq])
  unfold DiffersIdly at hidle
  cases i with
  | clear | ret =>
      obtain rfl : op = _ := h
      simp at hidle
  | skipEq x y | skipNe x y =>
      obtain ⟨hf, rfl, rfl⟩ := h
      have hsame : op.toNat / 16 = op'.toNat / 16 := by simpa [hf] using hidle
      have hhead : op.toNat / 256 = op'.toNat / 256 := by omega
      exact ⟨by omega, hx hhead, hy hsame⟩
  | shiftRight x | shiftLeft x =>
      obtain ⟨hf, hlow, rfl⟩ := h
      obtain ⟨hhead, hlast⟩ : op.toNat / 256 = op'.toNat / 256 ∧ _ = op'.toNat % 16 := by
        simpa [hf, hlow] using hidle
      exact ⟨by omega, hlast.symm, hx hhead⟩
  | copy x y | bitOr x y | bitAnd x y | bitXor x y | add x y | sub x y | subFrom x y =>
      obtain ⟨hf, hlow, -⟩ := h
      simp [hf, hlow] at hidle
  | _ =>
      obtain ⟨hf, -⟩ := h
      simp [hf] at hidle

/-! ## What decoding forgets -/

/-- What has no meaning does nothing, and so do the routines of old hosts, which are all
that family 0 has beside two instructions. -/
theorem decode_eq_none_iff {op : UInt16} : decode op = none ↔ op.toNat / 4096 ≠ 0 ∧ Idles op := by
  constructor
  · intro h
    refine ⟨fun hf => ?_, idles_of_decode h⟩
    unfold decode at h
    rw [family_eq, hf] at h
    cases h
  · rintro ⟨hf, hidle⟩
    refine Option.eq_none_iff_forall_ne_some.mpr fun i h => ?_
    have hcodes := codes_of_decode h
    unfold Idles at hidle
    cases i with
    | clear | ret =>
        obtain rfl : op = _ := hcodes
        contradiction
    | sys a => exact hf hcodes.1
    | copy x y | bitOr x y | bitAnd x y | bitXor x y | add x y | sub x y | subFrom x y
    | shiftRight x | shiftLeft x | skipPressed x | skipReleased x | readDelay x | awaitKey x
    | setDelay x | setSound x | addIndex x | glyph x | digits x | store x | load x =>
        obtain ⟨hfamily, hlow, -⟩ := hcodes
        simp [hfamily, hlow] at hidle
    | _ =>
        obtain ⟨hfamily, -⟩ := hcodes
        simp [hfamily] at hidle

theorem ne_sys_of_codes {op : UInt16} {i : Instr} (h : i.Codes op) :
    i ≠ sys 0x0e0 ∧ i ≠ sys 0x0ee := by
  have hself : ∀ a, i = sys a → op = a ∧ op ≠ 0x00e0 ∧ op ≠ 0x00ee := by
    rintro a rfl
    obtain ⟨hf, hclear, hret, ha⟩ := h
    exact ⟨fieldAddr_eq hf ha.symm, hclear, hret⟩
  constructor
  · intro hi
    exact (hself _ hi).2.1 (hself _ hi).1
  · intro hi
    exact (hself _ hi).2.2 (hself _ hi).1

theorem encode_le {op : UInt16} {i : Instr} (h : i.Codes op) : encode i ≤ op := by
  rw [UInt16.le_iff_toNat_le, toNat_encode h]
  exact settled_le op

theorem decode_eq_iff {op op' : UInt16} {i : Instr} (h : i.Codes op) :
    decode op = decode op' ↔ op = op' ∨ DiffersIdly op op' := by
  constructor
  · intro heq
    have h' : i.Codes op' := codes_of_decode (heq.symm.trans (decode_of_codes h))
    exact settled_eq_iff.mp ((toNat_encode h).symm.trans (toNat_encode h'))
  · rintro (rfl | hidle)
    · rfl
    · exact (decode_of_codes h).trans (decode_of_codes (h.congr hidle)).symm

/-- Decoding reads the table and forgets nothing else than the digits that nothing reads.
The operands are digits of the opcode and in range; writing an instruction gives the least
of its opcodes, and every instruction in range has one, the routines apart that would clear
the screen and return. -/
theorem decode_exact :
    (∀ op i, decode op = some i ↔ i.Codes op) ∧
      (∀ op, (fieldX op).toNat = op.toNat / 256 % 16 ∧ (fieldY op).toNat = op.toNat / 16 % 16 ∧
        (fieldN op).toNat = op.toNat % 16 ∧ (fieldByte op).toNat = op.toNat % 256 ∧
        (fieldAddr op).toNat = op.toNat % 4096) ∧
      (∀ op, decode op = none ↔ op.toNat / 4096 ≠ 0 ∧ Idles op) ∧
      (∀ op i, decode op = some i →
        i.InRange ∧ i ≠ sys 0x0e0 ∧ i ≠ sys 0x0ee ∧ encode i ≤ op) ∧
      (∀ i : Instr, i.InRange → i ≠ sys 0x0e0 → i ≠ sys 0x0ee → decode (encode i) = some i) ∧
      ∀ op op', (decode op).isSome →
        (decode op = decode op' ↔ op = op' ∨ DiffersIdly op op') := by
  refine ⟨fun op i => decode_eq_some_iff, fun op => ?fields, fun op => decode_eq_none_iff,
    fun op i h => ?meaning, fun i h hclear hret => ?written, fun op op' h => ?forgotten⟩
  case fields =>
    exact ⟨toNat_fieldX op, toNat_fieldY op, toNat_fieldN op, toNat_fieldByte op,
      toNat_fieldAddr op⟩
  case meaning =>
    have hcodes := codes_of_decode h
    obtain ⟨hclear, hret⟩ := ne_sys_of_codes hcodes
    exact ⟨decode_inRange h, hclear, hret, encode_le hcodes⟩
  case written => exact decode_of_codes (codes_encode h hclear hret)
  case forgotten =>
    obtain ⟨i, hi⟩ := Option.isSome_iff_exists.mp h
    exact decode_eq_iff (codes_of_decode hi)

/-- Opcodes of one shift, and of another, whose third digits differ. -/
theorem decode_exact_shift :
    decode (encode (shiftRight 0xa)) = some (shiftRight 0xa) ∧
      decode 0x8ab6 = decode 0x8a06 ∧ decode 0x8ab6 ≠ decode 0x8aae := by
  obtain ⟨-, -, -, -, hwritten, hforgets⟩ := decode_exact
  refine ⟨hwritten _ (by decide) (by decide) (by decide), (hforgets _ _ rfl).mpr (.inr ?_),
    fun h => ?_⟩
  · unfold DiffersIdly
    decide
  · have h := (hforgets _ _ rfl).mp h
    unfold DiffersIdly at h
    revert h
    decide

end ChipEight.Instr
