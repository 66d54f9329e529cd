import ChipEight.Screen.Sprite
import Mathlib.Data.Nat.Bitwise

/-!
# The packed bytes of a screen, seen as pixels

A screen keeps its pixels eight to a byte, and everything that is drawn works on
bytes: masks are or-ed in, halves of a sprite row are shifted apart, a byte is
turned over under another. What a caller sees is `Screen.pixel`. This module
says what the byte operations do to the pixels, so that nothing after it has to
open a byte again.

It goes in two steps. A byte is seen as its eight bits, counted from the left as
the columns of a screen are (`bit`), and the operations on bytes become
operations on bits. Then a pixel is a bit of the byte it lives in
(`pixel_of_lt`), two pixels live in one byte exactly when they share a row and
an eighth of their column (`index_eq_iff`), and replacing a byte changes those
pixels and no others (`pixel_setByte`).
-/

namespace ChipEight.Screen

/-! ## The bits of a byte, from the left -/

/-- Whether a byte is set in a column; columns count from the left and come
round after eight. -/
def bit (b : UInt8) (c : Nat) : Bool :=
  b &&& mask c != 0

theorem bit_mod (b : UInt8) (c : Nat) : bit b (c % 8) = bit b c := by
  simp [bit, mask]

theorem toNat_mask (c : Nat) : (mask c).toNat = 2 ^ (7 - c % 8) := by
  have h : ∀ k : Fin 8, ((0x80 : UInt8) >>> UInt8.ofNat k.val).toNat = 2 ^ (7 - k.val) := by
    decide
  exact h ⟨c % 8, Nat.mod_lt _ (by decide)⟩

theorem bit_eq_testBit (b : UInt8) (c : Nat) : bit b c = b.toNat.testBit (7 - c % 8) := by
  have h : (b &&& mask c).toNat = (b.toNat.testBit (7 - c % 8)).toNat * 2 ^ (7 - c % 8) := by
    rw [UInt8.toNat_and, toNat_mask, Nat.and_two_pow]
  cases hb : b.toNat.testBit (7 - c % 8) with
  | true =>
      rw [hb, Bool.toNat_true, Nat.one_mul] at h
      have hne : b &&& mask c ≠ 0 := by
        intro h0
        rw [h0] at h
        exact absurd h.symm (Nat.two_pow_pos _).ne'
      exact bne_iff_ne.mpr hne
  | false =>
      rw [hb, Bool.toNat_false, Nat.zero_mul] at h
      have h0 : b &&& mask c = 0 := UInt8.toNat_inj.mp h
      simp [bit, h0]

theorem bit_eq_getLsbD (b : UInt8) (c : Nat) : bit b c = b.toBitVec.getLsbD (7 - c % 8) := by
  rw [bit_eq_testBit]
  rfl

theorem bit_zero (c : Nat) : bit 0 c = false := by
  simp [bit]

theorem bit_xor (a b : UInt8) (c : Nat) : bit (a ^^^ b) c = (bit a c ^^ bit b c) := by
  simp only [bit_eq_getLsbD, UInt8.toBitVec_xor, BitVec.getLsbD_xor]

theorem bit_or (a b : UInt8) (c : Nat) : bit (a ||| b) c = (bit a c || bit b c) := by
  simp only [bit_eq_getLsbD, UInt8.toBitVec_or, BitVec.getLsbD_or]

theorem bit_and (a b : UInt8) (c : Nat) : bit (a &&& b) c = (bit a c && bit b c) := by
  simp only [bit_eq_getLsbD, UInt8.toBitVec_and, BitVec.getLsbD_and]

theorem bit_not (a : UInt8) (c : Nat) : bit (~~~ a) c = !bit a c := by
  have h : 7 - c % 8 < 8 := by omega
  simp only [bit_eq_getLsbD, UInt8.toBitVec_not, BitVec.getLsbD_not, h, decide_true,
    Bool.true_and]

theorem bit_mask (a c : Nat) : bit (mask a) c = decide (a % 8 = c % 8) := by
  rw [bit_eq_testBit, toNat_mask, Nat.testBit_two_pow]
  simp only [decide_eq_decide]
  omega

theorem bit_shiftRight (b : UInt8) {k c : Nat} (hk : k < 8) (hc : c < 8) :
    bit (b >>> UInt8.ofNat k) c = (decide (k ≤ c) && bit b (c - k)) := by
  have hshift : (UInt8.ofNat k).toNat % 8 = k := by
    rw [UInt8.toNat_ofNat']
    omega
  rw [bit_eq_testBit, bit_eq_testBit, UInt8.toNat_shiftRight, hshift, Nat.testBit_shiftRight]
  by_cases h : k ≤ c
  · have hplace : k + (7 - c % 8) = 7 - (c - k) % 8 := by omega
    simp [h, hplace]
  · have hlt : b.toNat < 2 ^ (k + (7 - c % 8)) :=
      Nat.lt_of_lt_of_le b.toNat_lt (Nat.pow_le_pow_right (by decide) (by omega))
    simp [h, Nat.testBit_lt_two_pow hlt]

theorem bit_shiftLeft (b : UInt8) {k c : Nat} (hk : k < 8) (hc : c < 8) :
    bit (b <<< UInt8.ofNat k) c = (decide (c + k < 8) && bit b (c + k)) := by
  have hshift : (UInt8.ofNat k).toNat % 8 = k := by
    rw [UInt8.toNat_ofNat']
    omega
  rw [bit_eq_testBit, bit_eq_testBit, UInt8.toNat_shiftLeft, hshift, Nat.testBit_mod_two_pow,
    Nat.testBit_shiftLeft]
  by_cases h : c + k < 8
  · have hle : 7 - c % 8 ≥ k := by omega
    have hplace : 7 - c % 8 - k = 7 - (c + k) % 8 := by omega
    have hlt : 7 - c % 8 < 8 := by omega
    simp [h, hplace, hle, hlt]
  · have hle : ¬ 7 - c % 8 ≥ k := by omega
    simp [h, hle]

theorem byte_ext {a b : UInt8} (h : ∀ c < 8, bit a c = bit b c) : a = b := by
  apply UInt8.toBitVec_inj.mp
  apply BitVec.eq_of_getLsbD_eq
  intro i hi
  have hbit := h (7 - i) (by omega)
  rw [bit_eq_getLsbD, bit_eq_getLsbD, show 7 - (7 - i) % 8 = i by omega] at hbit
  exact hbit

theorem ne_zero_iff {b : UInt8} : (b != 0) = true ↔ ∃ c < 8, bit b c = true := by
  rw [bne_iff_ne]
  constructor
  · intro h
    by_contra hno
    refine h (byte_ext fun c hc => ?_)
    rw [bit_zero]
    exact Bool.eq_false_iff.mpr fun hb => hno ⟨c, hc, hb⟩
  · rintro ⟨c, -, hb⟩ rfl
    rw [bit_zero] at hb
    exact Bool.noConfusion hb

/-! ## The bytes of the buffer -/

/-- The byte of the buffer with a number; past the end there is nothing but
zeros. -/
def byte (s : Screen) (i : Nat) : UInt8 :=
  s.buffer.getD i 0

theorem byte_eq (s : Screen) {i : Nat} (h : i < s.buffer.size) : s.byte i = s.buffer[i] := by
  simp [byte, h]

theorem byte_setByte (s : Screen) {i : Nat} (v : UInt8) (h : i < s.buffer.size) (j : Nat) :
    (s.setByte i v h).byte j = if j = i then v else s.byte j := by
  unfold byte setByte
  by_cases hj : j = i
  · subst hj
    simp [h]
  · simp [hj, Array.getD, Array.getElem_set, Ne.symm hj]

theorem place_inj {r a b c d : Nat} (ha : a < r) (hb : b < r) (h : c * r + a = d * r + b) :
    c = d ∧ a = b := by
  have hc := congrArg (· / r) h
  have hm := congrArg (· % r) h
  have hr : 0 < r := Nat.zero_lt_of_lt ha
  simp only [Nat.mul_comm _ r, Nat.mul_add_div hr, Nat.div_eq_of_lt ha, Nat.div_eq_of_lt hb,
    Nat.add_zero, Nat.mul_add_mod, Nat.mod_eq_of_lt ha, Nat.mod_eq_of_lt hb] at hc hm
  exact ⟨hc, hm⟩

theorem index_eq_iff (s : Screen) {x y c d : Nat} (hx : x < s.width)
    (hc : c < rowBytes s.width) : s.index x y = d * rowBytes s.width + c ↔ y = d ∧ x / 8 = c := by
  constructor
  · exact fun h => place_inj (column_lt hx) hc h
  · rintro ⟨rfl, rfl⟩
    rfl

/-! ## Pixels -/

theorem pixel_eq (s : Screen) (x y : Nat) :
    s.pixel x y = (decide (x < s.width ∧ y < s.height) && bit (s.byte (s.index x y)) x) := by
  unfold pixel
  split
  case isTrue h =>
      rw [s.byte_eq (s.index_lt h)]
      simp only [h, and_self, decide_true, Bool.true_and]
      rfl
  case isFalse h => simp [h]

theorem pixel_of_lt (s : Screen) {x y : Nat} (hx : x < s.width) (hy : y < s.height) :
    s.pixel x y = bit (s.byte (s.index x y)) x := by
  simp [pixel_eq, hx, hy]

theorem pixel_setByte (s : Screen) {i : Nat} (v : UInt8) (h : i < s.buffer.size) {p q : Nat}
    (hp : p < s.width) (hq : q < s.height) :
    (s.setByte i v h).pixel p q = bit (if s.index p q = i then v else s.byte (s.index p q)) p := by
  rw [pixel_of_lt (s.setByte i v h) hp hq, byte_setByte]
  rfl

theorem pixel_set (s : Screen) (x y : Nat) (on : Bool) {p q : Nat} (hp : p < s.width)
    (hq : q < s.height) :
    (s.set x y on).pixel p q = if p = x ∧ q = y then on else s.pixel p q := by
  unfold set
  split
  case isFalse h =>
      have hne : ¬ (p = x ∧ q = y) := by
        rintro ⟨rfl, rfl⟩
        exact h ⟨hp, hq⟩
      rw [if_neg hne]
  case isTrue h =>
      have hi := s.index_lt h
      show (s.setByte _ _ hi).pixel p q = _
      rw [pixel_setByte s _ hi hp hq, s.pixel_of_lt hp hq, ← s.byte_eq hi]
      by_cases hsame : q = y ∧ p / 8 = x / 8
      · have hidx : s.index p q = s.index x y := (s.index_eq_iff hp (column_lt h.1)).mpr hsame
        rw [if_pos hidx, hidx]
        by_cases hpx : p = x
        · subst hpx
          cases on <;> simp [hsame.1, bit_or, bit_and, bit_not, bit_mask]
        · -- a neighbour in the same byte: the mask has no bit in its column
          have hmask : bit (mask x) p = false := by
            rw [bit_mask]
            exact decide_eq_false (by omega)
          cases on <;> simp [hpx, bit_or, bit_and, bit_not, hmask]
      · have hidx : s.index p q ≠ s.index x y :=
          fun e => hsame ((s.index_eq_iff hp (column_lt h.1)).mp e)
        have hne : ¬ (p = x ∧ q = y) := by
          rintro ⟨rfl, rfl⟩
          exact hsame ⟨rfl, rfl⟩
        rw [if_neg hidx, if_neg hne]

end ChipEight.Screen
