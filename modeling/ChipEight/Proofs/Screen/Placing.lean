import ChipEight.Proofs.Screen.Reordering

/-!
# Where a sprite can be drawn

What lies past the right edge or below the last row of a screen is cut off, so a sprite should be
drawn wherever its corner is. It is, with one exception. Each row of a sprite gets its number
before it is compared with the height of the screen, and a number that is no word of the host
ends the drawing without an answer, although that row is one to be cut off
(`draw?_eq_none_iff`). Past the right edge no row is looked at, and nothing can go wrong.

A sprite that is drawn and covers no pixel of the screen leaves every byte as it was
(`draw?_of_uncovered`): it turns over no pixel, and drawing keeps the spare bits.
-/

namespace ChipEight.Screen

variable {s : Screen} {x y : Nat} {sprite : List UInt8}

theorem drawRows?_cons (hy : y < wordLimit) (row : UInt8) (rest : List UInt8) (s : Screen) :
    drawRows? x y (row :: rest) s = (drawRows? x (y + 1) rest (s.drawRow x y row).1).map
      fun out => (out.1, (s.drawRow x y row).2 || out.2) := by
  rw [drawRows?, if_pos hy, Option.map_eq_bind]
  rfl

/-- Rows below each other are drawn exactly if the last of them has a number. -/
theorem drawRows?_eq_none_iff {x : Nat} : ∀ (sprite : List UInt8) {y : Nat} (s : Screen),
    y ≤ wordLimit → (drawRows? x y sprite s = none ↔ wordLimit < y + sprite.length)
  | [], y, s, hy => by
      have hdraw : drawRows? x y [] s = some (s, false) := rfl
      rw [hdraw, List.length_nil]
      exact ⟨nofun, fun h => absurd hy (Nat.not_le.mpr h)⟩
  | row :: rest, y, s, hy => by
      rw [List.length_cons]
      by_cases hlt : y < wordLimit
      · rw [drawRows?_cons hlt, Option.map_eq_none_iff, drawRows?_eq_none_iff rest _ hlt,
          Nat.succ_add_eq_add_succ]
      · have hdraw : drawRows? x y (row :: rest) s = none := if_neg hlt
        exact ⟨fun _ => by omega, fun _ => hdraw⟩

/-- A sprite is drawn unless it begins left of the right edge and has a row without a number. -/
theorem draw?_eq_none_iff (hy : y ≤ wordLimit) :
    s.draw? x y sprite = none ↔ x < s.width ∧ wordLimit < y + sprite.length := by
  unfold draw?
  split
  case isTrue hx =>
      rw [drawRows?_eq_none_iff sprite s hy]
      exact (and_iff_right hx).symm
  case isFalse hx => exact ⟨nofun, fun h => absurd h.1 hx⟩

theorem draw?_of_uncovered (hfits : x < s.width → y + sprite.length ≤ wordLimit)
    (hoff : ∀ p q, p < s.width → q < s.height → ¬ Covers x y sprite p q) :
    s.draw? x y sprite = some (s, false) := by
  by_cases hx : x < s.width
  case neg => exact if_neg hx
  case pos =>
    obtain ⟨out, hout, hdrawn⟩ := s.draw?_drawn (x := x) (hfits hx)
    have hnothing : out = (s, false) := hdrawn.unique (.nil s) fun p q hp hq => by
      rw [count_spritePixels, if_neg (hoff p q hp hq), List.count_nil]
    rw [hout, hnothing]

/-- Wherever the corner of a sprite is, drawing has an answer, unless the corner is left of the
right edge and some row of the sprite would get a number from 2⁶⁴ on, on a screen of any height.
If there is an answer and no set bit of the sprite lies over a pixel of the screen, no pixel went
out and the screen is the same, byte for byte. -/
theorem draw?_answers (s : Screen) (x y : UInt64) (sprite : List UInt8) :
    (s.draw? x.toNat y.toNat sprite = none ↔
      x.toNat < s.width ∧ 2 ^ 64 < y.toNat + sprite.length) ∧
    ((∀ p q, p < s.width → q < s.height → ¬ Covers x.toNat y.toNat sprite p q) →
      ∀ out, s.draw? x.toNat y.toNat sprite = some out → out = (s, false)) := by
  have hy : y.toNat ≤ wordLimit := y.toNat_lt.le
  refine ⟨draw?_eq_none_iff hy, fun hoff out hout => ?_⟩
  have hfits : x.toNat < s.width → y.toNat + sprite.length ≤ wordLimit := by
    intro hx
    by_contra hlong
    have hnone := (draw?_eq_none_iff hy).mpr ⟨hx, Nat.not_le.mp hlong⟩
    rw [hnone] at hout
    cases hout
  exact Option.some.inj (hout.symm.trans (draw?_of_uncovered hfits hoff))

/-- A sprite of two rows, the first in the last row that has a number: both rows are below the
screen, and drawing the first alone changes nothing, but for the two together there is no
answer. -/
theorem draw?_below_last_number : ∃ s, blank? 64 32 = some s ∧
    (∀ p q, p < s.width → q < s.height → ¬ Covers 0 (2 ^ 64 - 1) [0x80, 0x80] p q) ∧
    s.draw? 0 (2 ^ 64 - 1) [0x80] = some (s, false) ∧
    s.draw? 0 (2 ^ 64 - 1) [0x80, 0x80] = none := by
  refine ⟨_, rfl, fun p q _ hq hcovers => ?_, rfl, rfl⟩
  have hq : q < 32 := hq
  have hle : 2 ^ 64 - 1 ≤ q := hcovers.2.1.1
  omega

end ChipEight.Screen
