import ChipEight.Instr.Code

/-!
# The table of opcodes

`Instr.Codes op i` is the table by which opcodes are read: for each instruction
the digits its opcodes have and where its operands stand in them. It does not
say how an opcode is taken apart; that decoding is reading the table is
`decode_eq_some_iff`, and that the decoder has no answer only for opcodes which
do nothing is `idles_of_decode`. The decoder is opened here and nowhere else.

The facts on which the machine's steps rest are read off the table: which
opcodes call, return or draw, and that what comes out of an opcode is in range,
so that no step ever names a register that is not there (`decode_inRange`).

The fields of an opcode are cut out by shifts and masks; as numbers they are its
hexadecimal digits, `op / 4096`, `op / 256 % 16` and so on, and every fact about
opcodes that is needed is arithmetic on those.
-/

namespace ChipEight.Instr

/-! ## The digits -/

theorem family_eq (op : UInt16) : family op = op.toNat / 4096 := by
  simp [family, Nat.shiftRight_eq_div_pow]

theorem toNat_fieldAddr (op : UInt16) : (fieldAddr op).toNat = op.toNat % 4096 := by
  simp only [fieldAddr, UInt16.toNat_and]
  exact Nat.and_two_pow_sub_one_eq_mod op.toNat 12

theorem toNat_fieldN (op : UInt16) : (fieldN op).toNat = op.toNat % 16 := by
  have h : op.toNat &&& 15 = op.toNat % 16 := Nat.and_two_pow_sub_one_eq_mod op.toNat 4
  simp only [fieldN, UInt16.toNat_toUInt8, UInt16.toNat_and]
  show (op.toNat &&& 15) % 256 = _
  omega

theorem toNat_fieldY (op : UInt16) : (fieldY op).toNat = op.toNat / 16 % 16 := by
  have h : (op.toNat >>> 4) &&& 15 = (op.toNat >>> 4) % 16 := Nat.and_two_pow_sub_one_eq_mod _ 4
  simp only [fieldY, UInt16.toNat_toUInt8, UInt16.toNat_and, UInt16.toNat_shiftRight]
  show ((op.toNat >>> 4) &&& 15) % 256 = _
  rw [h, Nat.shiftRight_eq_div_pow]
  omega

theorem toNat_fieldX (op : UInt16) : (fieldX op).toNat = op.toNat / 256 % 16 := by
  have h : (op.toNat >>> 8) &&& 15 = (op.toNat >>> 8) % 16 := Nat.and_two_pow_sub_one_eq_mod _ 4
  simp only [fieldX, UInt16.toNat_toUInt8, UInt16.toNat_and, UInt16.toNat_shiftRight]
  show ((op.toNat >>> 8) &&& 15) % 256 = _
  rw [h, Nat.shiftRight_eq_div_pow]
  omega

theorem toNat_fieldByte (op : UInt16) : (fieldByte op).toNat = op.toNat % 256 :=
  UInt16.toNat_toUInt8 op

theorem fieldX_lt (op : UInt16) : fieldX op < 16 := by
  rw [UInt8.lt_iff_toNat_lt, toNat_fieldX]
  exact Nat.mod_lt _ (by decide)

theorem fieldY_lt (op : UInt16) : fieldY op < 16 := by
  rw [UInt8.lt_iff_toNat_lt, toNat_fieldY]
  exact Nat.mod_lt _ (by decide)

theorem fieldN_lt (op : UInt16) : fieldN op < 16 := by
  rw [UInt8.lt_iff_toNat_lt, toNat_fieldN]
  exact Nat.mod_lt _ (by decide)

theorem fieldAddr_lt (op : UInt16) : fieldAddr op < 4096 := by
  rw [UInt16.lt_iff_toNat_lt, toNat_fieldAddr]
  exact Nat.mod_lt _ (by decide)

/-! ## The table -/

/-- The table: the digits that the opcodes of an instruction have, and where its
operands stand in them. -/
def Codes (op : UInt16) : Instr → Prop
  | clear => op = 0x00e0
  | ret => op = 0x00ee
  | sys a => op.toNat / 4096 = 0x0 ∧ op ≠ 0x00e0 ∧ op ≠ 0x00ee ∧ a = fieldAddr op
  | jump a => op.toNat / 4096 = 0x1 ∧ a = fieldAddr op
  | call a => op.toNat / 4096 = 0x2 ∧ a = fieldAddr op
  | skipEqByte x n => op.toNat / 4096 = 0x3 ∧ x = fieldX op ∧ n = fieldByte op
  | skipNeByte x n => op.toNat / 4096 = 0x4 ∧ x = fieldX op ∧ n = fieldByte op
  | skipEq x y => op.toNat / 4096 = 0x5 ∧ x = fieldX op ∧ y = fieldY op
  | loadByte x n => op.toNat / 4096 = 0x6 ∧ x = fieldX op ∧ n = fieldByte op
  | addByte x n => op.toNat / 4096 = 0x7 ∧ x = fieldX op ∧ n = fieldByte op
  | copy x y => op.toNat / 4096 = 0x8 ∧ op.toNat % 16 = 0x0 ∧ x = fieldX op ∧ y = fieldY op
  | bitOr x y => op.toNat / 4096 = 0x8 ∧ op.toNat % 16 = 0x1 ∧ x = fieldX op ∧ y = fieldY op
  | bitAnd x y => op.toNat / 4096 = 0x8 ∧ op.toNat % 16 = 0x2 ∧ x = fieldX op ∧ y = fieldY op
  | bitXor x y => op.toNat / 4096 = 0x8 ∧ op.toNat % 16 = 0x3 ∧ x = fieldX op ∧ y = fieldY op
  | add x y => op.toNat / 4096 = 0x8 ∧ op.toNat % 16 = 0x4 ∧ x = fieldX op ∧ y = fieldY op
  | sub x y => op.toNat / 4096 = 0x8 ∧ op.toNat % 16 = 0x5 ∧ x = fieldX op ∧ y = fieldY op
  | shiftRight x => op.toNat / 4096 = 0x8 ∧ op.toNat % 16 = 0x6 ∧ x = fieldX op
  | subFrom x y => op.toNat / 4096 = 0x8 ∧ op.toNat % 16 = 0x7 ∧ x = fieldX op ∧ y = fieldY op
  | shiftLeft x => op.toNat / 4096 = 0x8 ∧ op.toNat % 16 = 0xe ∧ x = fieldX op
  | skipNe x y => op.toNat / 4096 = 0x9 ∧ x = fieldX op ∧ y = fieldY op
  | loadIndex a => op.toNat / 4096 = 0xa ∧ a = fieldAddr op
  | jumpOffset a => op.toNat / 4096 = 0xb ∧ a = fieldAddr op
  | random x n => op.toNat / 4096 = 0xc ∧ x = fieldX op ∧ n = fieldByte op
  | draw x y n => op.toNat / 4096 = 0xd ∧ x = fieldX op ∧ y = fieldY op ∧ n = fieldN op
  | skipPressed x => op.toNat / 4096 = 0xe ∧ op.toNat % 256 = 0x9e ∧ x = fieldX op
  | skipReleased x => op.toNat / 4096 = 0xe ∧ op.toNat % 256 = 0xa1 ∧ x = fieldX op
  | readDelay x => op.toNat / 4096 = 0xf ∧ op.toNat % 256 = 0x07 ∧ x = fieldX op
  | awaitKey x => op.toNat / 4096 = 0xf ∧ op.toNat % 256 = 0x0a ∧ x = fieldX op
  | setDelay x => op.toNat / 4096 = 0xf ∧ op.toNat % 256 = 0x15 ∧ x = fieldX op
  | setSound x => op.toNat / 4096 = 0xf ∧ op.toNat % 256 = 0x18 ∧ x = fieldX op
  | addIndex x => op.toNat / 4096 = 0xf ∧ op.toNat % 256 = 0x1e ∧ x = fieldX op
  | glyph x => op.toNat / 4096 = 0xf ∧ op.toNat % 256 = 0x29 ∧ x = fieldX op
  | digits x => op.toNat / 4096 = 0xf ∧ op.toNat % 256 = 0x33 ∧ x = fieldX op
  | store x => op.toNat / 4096 = 0xf ∧ op.toNat % 256 = 0x55 ∧ x = fieldX op
  | load x => op.toNat / 4096 = 0xf ∧ op.toNat % 256 = 0x65 ∧ x = fieldX op

/-! ## Decoding is reading the table -/

theorem fieldAddr_eq {op a : UInt16} (h : op.toNat / 4096 = 0) (ha : fieldAddr op = a) :
    op = a := by
  have ha := congrArg UInt16.toNat ha
  rw [toNat_fieldAddr] at ha
  apply UInt16.toNat_inj.mp
  omega

theorem codes_of_decode {op : UInt16} {i : Instr} (h : decode op = some i) : i.Codes op := by
  have hn := toNat_fieldN op
  have hb := toNat_fieldByte op
  unfold decode at h
  rw [family_eq] at h
  split at h
  case h_1 hf =>
      have h := Option.some.inj h
      subst h
      unfold decodeSystem
      split
      · next ha => exact fieldAddr_eq hf ha
      · next ha =>
        split
        · next ha => exact fieldAddr_eq hf ha
        · refine ⟨hf, ?_, ?_, rfl⟩
          · rintro rfl
            exact ha rfl
          · rintro rfl
            contradiction
  case h_2 hf | h_3 hf | h_11 hf | h_12 hf =>
      cases h
      exact ⟨hf, rfl⟩
  case h_4 hf | h_5 hf | h_6 hf | h_7 hf | h_8 hf | h_10 hf | h_13 hf =>
      cases h
      exact ⟨hf, rfl, rfl⟩
  case h_14 hf =>
      cases h
      exact ⟨hf, rfl, rfl, rfl⟩
  case h_9 hf =>
      rw [hn] at h
      unfold decodeArithmetic at h
      split at h
      case h_7 hlow | h_9 hlow =>
          cases h
          exact ⟨hf, hlow, rfl⟩
      case h_10 => cases h
      all_goals
        cases h
        exact ⟨hf, by assumption, rfl, rfl⟩
  case h_15 hf =>
      rw [hb] at h
      unfold decodeKeys at h
      split at h
      all_goals cases h
      all_goals exact ⟨hf, by assumption, rfl⟩
  case h_16 hf =>
      rw [hb] at h
      unfold decodeSpecial at h
      split at h
      all_goals cases h
      all_goals exact ⟨hf, by assumption, rfl⟩
  case h_17 => cases h

theorem decode_of_codes {op : UInt16} {i : Instr} (h : i.Codes op) : decode op = some i := by
  cases i with
  | clear | ret =>
      obtain rfl : op = _ := h
      rfl
  | sys a =>
      obtain ⟨hf, hclear, hret, rfl⟩ := h
      have hclear : fieldAddr op ≠ 0x0e0 := fun ha => hclear (fieldAddr_eq hf ha)
      have hret : fieldAddr op ≠ 0x0ee := fun ha => hret (fieldAddr_eq hf ha)
      unfold decode
      rw [family_eq, hf]
      simp [decodeSystem, hclear, hret]
  | _ =>
      simp only [Codes] at h
      simp [decode, family_eq, toNat_fieldN, toNat_fieldByte, decodeArithmetic, decodeKeys,
        decodeSpecial, h]

/-- Decoding is reading the table. -/
theorem decode_eq_some_iff {op : UInt16} {i : Instr} : decode op = some i ↔ i.Codes op :=
  ⟨codes_of_decode, decode_of_codes⟩

theorem decode_inRange {op : UInt16} {i : Instr} (h : decode op = some i) : i.InRange := by
  have hx := fieldX_lt op
  have hy := fieldY_lt op
  have hn := fieldN_lt op
  have ha := fieldAddr_lt op
  have hcodes := codes_of_decode h
  cases i
  all_goals simp_all [Codes, InRange, operands, Operand.InRange]

/-! ## Opcodes without effect -/

/-- The opcodes that do nothing: the routines of old hosts, and those that have
no meaning. -/
def Idles (op : UInt16) : Prop :=
  match op.toNat / 4096 with
  | 0x0 => op ≠ 0x00e0 ∧ op ≠ 0x00ee
  | 0x8 => 7 < op.toNat % 16 ∧ op.toNat % 16 ≠ 0xe
  | 0xe => op.toNat % 256 ≠ 0x9e ∧ op.toNat % 256 ≠ 0xa1
  | 0xf => op.toNat % 256 ∉ [0x07, 0x0a, 0x15, 0x18, 0x1e, 0x29, 0x33, 0x55, 0x65]
  | _ => False

theorem idles_of_decode {op : UInt16} (h : decode op = none) : Idles op := by
  unfold decode at h
  rw [family_eq] at h
  unfold Idles
  split at h
  case h_9 hf =>
      rw [toNat_fieldN] at h
      unfold decodeArithmetic at h
      split at h
      case h_10 =>
          simp only [hf]
          simp only [imp_false] at *
          omega
      all_goals cases h
  case h_15 hf =>
      rw [toNat_fieldByte] at h
      unfold decodeKeys at h
      split at h
      case h_3 hpressed hreleased =>
          simp only [hf]
          exact ⟨hpressed, hreleased⟩
      all_goals cases h
  case h_16 hf =>
      rw [toNat_fieldByte] at h
      unfold decodeSpecial at h
      split at h
      case h_10 => simp_all
      all_goals cases h
  case h_17 =>
      have hlt := op.toNat_lt
      simp only [imp_false] at *
      omega
  all_goals cases h

end ChipEight.Instr
