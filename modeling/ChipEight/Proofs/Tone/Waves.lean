import ChipEight.Tone.Wave
import Mathlib.Algebra.Group.Nat.Defs

/-!
# Waves of whole periods

When the pitch divides the sample rate, a period is a whole number of samples. The binary
fraction that stands for it is then the quotient itself, whatever number of places was chosen
(`digits_ofQuotient`), and the remainder by it is the remainder by a number of samples, in other
units (`remainder_of_digits`). Up to sample 2⁵³ nothing is rounded, and so the wave does not
drift: a sample depends on its place in the period alone, however far it is from the start.

Samples as bytes come after that. Two bytes stand for a number from -32768 to 32767
(`toInt_ofBytes`), and samples are read back from their bytes (`unbytes_bytes`).
-/

namespace ChipEight

namespace BinaryFraction

variable {f : BinaryFraction} {p d i : Nat}

theorem powerOfTwo_pos (n : Nat) : 0 < powerOfTwo n :=
  Nat.two_pow_pos n

theorem nearest_mul (q : Nat) (hd : 0 < d) : nearest (q * d) d = q := by
  have hrest : 2 * (q * d % d) < d := by
    rw [Nat.mul_mod_left]
    exact hd
  rw [nearest, if_pos (Or.inl hrest), Nat.mul_div_cancel _ hd]

/-- A period of `p` samples is kept exactly. -/
theorem digits_ofQuotient (p : Nat) (hd : 0 < d) :
    (ofQuotient (p * d) d).digits = p * powerOfTwo (ofQuotient (p * d) d).places := by
  show nearest (p * d * _) d = _
  rw [Nat.mul_right_comm, nearest_mul _ hd]
  rfl

theorem remainder_of_digits (hf : f.digits = p * powerOfTwo f.places) (hi : i < 2 ^ 53) :
    f.remainder i = i % p * powerOfTwo f.places := by
  rw [remainder, rounded_of_le (Nat.le_of_lt hi), hf, Nat.mul_mod_mul_right]

theorem inFirstHalf_of_digits (hf : f.digits = p * powerOfTwo f.places) (hi : i < 2 ^ 53) :
    f.inFirstHalf i = decide (2 * (i % p) < p) := by
  rw [inFirstHalf, remainder_of_digits hf hi, hf, ← Nat.mul_assoc]
  exact decide_eq_decide.mpr (Nat.mul_lt_mul_right (powerOfTwo_pos _))

end BinaryFraction

namespace Wave

variable {rate pitch nanos period i : Nat} {amplitude : Int16}

/-! ## Samples -/

/-- Sample `i` of a wave with a period of whole samples is high in the first half of the period. -/
theorem isHigh_of_period (hpitch : 0 < pitch) (hrate : rate = period * pitch) (hi : i < 2 ^ 53) :
    isHigh (period? rate pitch) i = decide (2 * (i % period) < period) := by
  have hperiod : period? rate pitch = some (.ofQuotient rate pitch) := if_neg (Nat.ne_of_gt hpitch)
  rw [hperiod, hrate]
  exact BinaryFraction.inFirstHalf_of_digits (BinaryFraction.digits_ofQuotient _ hpitch) hi

theorem samples?_eq (hfits : 2 * (rate * nanos / 10 ^ 9) < bufferLimit)
    (ha : amplitude ≠ Int16.minValue) :
    samples? rate pitch nanos amplitude = some ((List.range (rate * nanos / 10 ^ 9)).map
      fun i => if isHigh (period? rate pitch) i then amplitude else -amplitude) := by
  have hcount : count rate nanos = rate * nanos / 10 ^ 9 := by
    refine Nat.mod_eq_of_lt ?_
    unfold bufferLimit at hfits
    unfold wordLimit
    omega
  have hlow : ¬ (amplitude = Int16.minValue ∧
      !isFlat (period? rate pitch) (rate * nanos / 10 ^ 9)) := fun h => ha h.1
  simp only [samples?, hcount]
  rw [if_neg (Nat.not_le.mpr hfits), if_neg hlow]

theorem toInt_neg_of_ne (ha : amplitude ≠ Int16.minValue) : (-amplitude).toInt = -amplitude.toInt :=
  BitVec.toInt_neg_of_ne_intMin fun h => ha (Int16.toBitVec_inj.mp h)

/-! ## Bytes -/

theorem toInt_ofBytes (low high : UInt8) :
    (ofBytes low high).toInt = Int.bmod (low.toNat + 256 * high.toNat) (2 ^ 16) := by
  have hhigh : (high.toUInt16 <<< 8).toNat = high.toNat <<< 8 := by
    have hlt := high.toNat_lt
    rw [UInt16.toNat_shiftLeft, UInt8.toNat_toUInt16]
    show high.toNat <<< 8 % 2 ^ 16 = _
    rw [Nat.shiftLeft_eq]
    omega
  -- the low byte has no bit where the high one was shifted to, so nothing is lost in joining them
  have hword : (low.toUInt16 ||| high.toUInt16 <<< 8).toNat = low.toNat + 256 * high.toNat := by
    rw [UInt16.toNat_or, UInt8.toNat_toUInt16, hhigh, Nat.or_comm,
      ← Nat.shiftLeft_add_eq_or_of_lt low.toNat_lt, Nat.shiftLeft_eq]
    omega
  show (low.toUInt16 ||| high.toUInt16 <<< 8).toBitVec.toInt = _
  rw [BitVec.toInt_eq_toNat_bmod]
  show Int.bmod (low.toUInt16 ||| high.toUInt16 <<< 8).toNat _ = _
  rw [hword]
  rfl

theorem ofBytes_sampleBytes (a : Int16) :
    ofBytes a.toUInt16.toUInt8 (a.toUInt16 >>> 8).toUInt8 = a := by
  have hlt := a.toUInt16.toNat_lt
  have hlow : a.toUInt16.toUInt8.toNat = a.toUInt16.toNat % 256 := UInt16.toNat_toUInt8 _
  have hhigh : (a.toUInt16 >>> 8).toUInt8.toNat = a.toUInt16.toNat / 256 := by
    rw [UInt16.toNat_toUInt8, UInt16.toNat_shiftRight]
    show a.toUInt16.toNat >>> 8 % 2 ^ 8 = _
    rw [Nat.shiftRight_eq_div_pow]
    omega
  have hword : ((a.toUInt16.toNat % 256 : Nat) : Int) + 256 * (a.toUInt16.toNat / 256 : Nat) =
      a.toUInt16.toNat := by omega
  apply Int16.toInt_inj.mp
  rw [toInt_ofBytes, hlow, hhigh, hword]
  exact (BitVec.toInt_eq_toNat_bmod a.toBitVec).symm

theorem length_bytes (samples : List Int16) : (bytes samples).length = 2 * samples.length := by
  induction samples with
  | nil => rfl
  | cons a rest ih =>
      rw [bytes, List.flatMap_cons, List.length_append, ← bytes, ih]
      simp [sampleBytes]
      omega

theorem unbytes_bytes (samples : List Int16) : unbytes (bytes samples) = samples := by
  induction samples with
  | nil => rfl
  | cons a rest ih =>
      show ofBytes _ _ :: unbytes (bytes rest) = a :: rest
      rw [ih, ofBytes_sampleBytes]

/-! ## The wave -/

/-- If a period is a whole number of samples, the amplitude has an opposite, and the samples of
the span fit into a buffer, there is a wave, with as many samples as the span has. Each of its
first 2⁵³ samples is at the amplitude if it lies in the first half of its period and at the
opposite if it does not, so the wave is the same one period later, however far from its start.
Any samples have two bytes each and are what is read back from their bytes. -/
theorem samples?_periodic (rate : UInt32) (pitch : UInt16) (nanos period : Nat) (amplitude : Int16)
    (hpitch : 0 < pitch) (hrate : rate.toNat = period * pitch.toNat)
    (hfits : 2 * (rate.toNat * nanos / 10 ^ 9) < bufferLimit) (ha : Int16.minValue < amplitude) :
    (∃ w, samples? rate.toNat pitch.toNat nanos amplitude = some w ∧
      w.length = rate.toNat * nanos / 10 ^ 9 ∧
      (∀ i (h : i < w.length), i < 2 ^ 53 →
        w[i].toInt = if 2 * (i % period) < period then amplitude.toInt else -amplitude.toInt) ∧
      ∀ i (h : i + period < w.length), i + period < 2 ^ 53 → w[i + period] = w[i]) ∧
    ∀ samples, (bytes samples).length = 2 * samples.length ∧ unbytes (bytes samples) = samples := by
  have hne : amplitude ≠ Int16.minValue := fun h => Int16.lt_irrefl (h ▸ ha)
  have hpos : 0 < pitch.toNat := hpitch
  refine ⟨⟨_, samples?_eq hfits hne, by simp, ?_, ?_⟩, fun samples =>
    ⟨length_bytes samples, unbytes_bytes samples⟩⟩
  · intro i h hi
    rw [List.getElem_map, List.getElem_range, isHigh_of_period hpos hrate hi]
    simp only [decide_eq_true_eq]
    split
    case isTrue => rfl
    case isFalse => exact toInt_neg_of_ne hne
  · intro i h hi
    have hlow : i < 2 ^ 53 := by omega
    rw [List.getElem_map, List.getElem_map, List.getElem_range, List.getElem_range,
      isHigh_of_period hpos hrate hi, isHigh_of_period hpos hrate hlow, Nat.add_mod_right]

/-- An hour of a wave with a period of 21 samples: in its last period the middle sample is still
high and the next one low. The two values are read back from the bytes they have in a stream. -/
theorem samples?_periodic_hour :
    (∃ w, samples? 44100 2100 3600000000000 3000 = some w ∧ w.length = 158760000 ∧
      w[158759989]?.map Int16.toInt = some 3000 ∧ w[158759990]?.map Int16.toInt = some (-3000)) ∧
    unbytes [0xb8, 0x0b, 0x48, 0xf4] = [3000, -3000] := by
  obtain ⟨⟨w, hw, hlength, hsample, -⟩, hbytes⟩ := samples?_periodic 44100 2100 3600000000000 21
    3000 (by decide) (by decide) (by decide) (by decide)
  have hlength : w.length = 158760000 := hlength
  have hhigh : 158759989 < w.length := by omega
  have hlow : 158759990 < w.length := by omega
  refine ⟨⟨w, hw, hlength, ?_, ?_⟩, (hbytes [3000, -3000]).2⟩
  · rw [List.getElem?_eq_getElem hhigh, Option.map_some, hsample _ hhigh (by decide)]
    rfl
  · rw [List.getElem?_eq_getElem hlow, Option.map_some, hsample _ hlow (by decide)]
    rfl

end Wave

end ChipEight
