import ChipEight.Proofs.Screen.Painting

/-!
# A sprite cut off at the edges

Drawing works on bytes: a row of a sprite is masked at the right edge and then goes into one
byte of the buffer, or is shifted apart over two. What it comes to is told here by single
pixels. `Covers x y sprite p q` says that a set bit of a sprite with its corner at `(x, y)` lies
over the pixel `(p, q)`; it knows of no bytes and of no edges. Drawing turns over the pixels of
the screen that are covered and nothing else in the buffer (`draw?_clipped`).

That drawing turns over the pixels of a list is known. A sprite has at most one bit over a
pixel, so the list has each covered pixel once (`count_spritePixels`); on a torus it could come
round to a pixel again.
-/

namespace ChipEight.Screen

/-! ## The pixels under a sprite -/

/-- A set bit of a sprite with its corner at `(x, y)` lies over the pixel `(p, q)`. -/
def Covers (x y : Nat) (sprite : List UInt8) (p q : Nat) : Prop :=
  (x ≤ p ∧ p < x + 8) ∧ (y ≤ q ∧ q < y + sprite.length) ∧
    (sprite.getD (q - y) 0).toNat.testBit (7 - (p - x)) = true

instance (x y : Nat) (sprite : List UInt8) (p q : Nat) : Decidable (Covers x y sprite p q) :=
  inferInstanceAs (Decidable (_ ∧ _))

variable {x y p q : Nat} {row : UInt8} {rest : List UInt8}

theorem not_covers_nil : ¬ Covers x y [] p q := by
  rintro ⟨-, ⟨hle, hlt⟩, -⟩
  exact Nat.not_lt.mpr hle hlt

theorem covers_first : Covers x y (row :: rest) p y ↔ (p, y) ∈ rowPixels x y row := by
  have hfirst : (row :: rest).getD (y - y) 0 = row := by
    rw [Nat.sub_self]
    rfl
  unfold Covers
  rw [mem_rowPixels, hfirst, List.length_cons]
  constructor
  · rintro ⟨⟨hle, hlt⟩, -, hbit⟩
    refine ⟨rfl, hle, hlt, ?_⟩
    rw [bit_eq_testBit, Nat.mod_eq_of_lt (by omega)]
    exact hbit
  · rintro ⟨-, hle, hlt, hbit⟩
    rw [bit_eq_testBit, Nat.mod_eq_of_lt (by omega)] at hbit
    exact ⟨⟨hle, hlt⟩, by omega, hbit⟩

/-- In every other row it is as if the first byte were not there. -/
theorem covers_later (h : q ≠ y) : Covers x y (row :: rest) p q ↔ Covers x (y + 1) rest p q := by
  unfold Covers
  rw [List.length_cons]
  refine and_congr_right fun _ => ?_
  constructor
  · rintro ⟨⟨hle, hlt⟩, hbit⟩
    have hnext : q - y = q - (y + 1) + 1 := by omega
    rw [hnext, List.getD_cons_succ] at hbit
    exact ⟨by omega, hbit⟩
  · rintro ⟨⟨hle, hlt⟩, hbit⟩
    have hnext : q - y = q - (y + 1) + 1 := by omega
    rw [hnext, List.getD_cons_succ]
    exact ⟨by omega, hbit⟩

/-- The list of a sprite has each pixel that is covered once, and no other. -/
theorem count_spritePixels (x p q : Nat) : ∀ (sprite : List UInt8) (y : Nat),
    (spritePixels x y sprite).count (p, q) = if Covers x y sprite p q then 1 else 0
  | [], _ => (if_neg not_covers_nil).symm
  | row :: rest, y => by
      rw [spritePixels_cons, List.count_append, count_rowPixels, count_spritePixels x p q rest]
      by_cases h : q = y
      · -- the rows below do not reach up to this one
        subst h
        have hbelow : ¬ Covers x (q + 1) rest p q := fun hc => Nat.not_succ_le_self q hc.2.1.1
        simp only [covers_first, if_neg hbelow, Nat.add_zero]
      · have hrow : (p, q) ∉ rowPixels x y row := fun hmem => h (mem_rowPixels.mp hmem).1
        simp only [covers_later h, if_neg hrow, Nat.zero_add]

/-! ## Drawing -/

theorem not_covers_of_le {s : Screen} {sprite : List UInt8} (hx : s.width ≤ x)
    (hp : p < s.width) : ¬ Covers x y sprite p q := by
  rintro ⟨⟨hle, -⟩, -⟩
  exact Nat.not_le.mpr hp (hx.trans hle)

/-- Drawing turns over the pixels of the screen that a set bit of the sprite lies over, and
tells whether one of them was on. Nothing else in the buffer is changed, neither another pixel
nor a spare bit at the end of a row. All that is needed is that every row of the sprite has a
number, on the screen or not. -/
theorem draw?_clipped (s : Screen) {x y : Nat} {sprite : List UInt8}
    (hy : y + sprite.length ≤ 2 ^ 64) :
    ∃ t hit, s.draw? x y sprite = some (t, hit) ∧ t.width = s.width ∧ t.height = s.height ∧
      (∀ p q, p < s.width → q < s.height →
        (t.pixel p q ≠ s.pixel p q ↔ Covers x y sprite p q)) ∧
      (∀ c q, s.width ≤ c → c < 8 * rowBytes s.width → q < s.height →
        bit (t.byte (t.index c q)) c = bit (s.byte (s.index c q)) c) ∧
      (hit = true ↔ ∃ p q, p < s.width ∧ q < s.height ∧ Covers x y sprite p q ∧
        s.pixel p q = true) := by
  by_cases hx : x < s.width
  case neg =>
    have hnone : ∀ p q, p < s.width → ¬ Covers x y sprite p q :=
      fun p q => not_covers_of_le (Nat.le_of_not_lt hx)
    refine ⟨s, false, if_neg hx, rfl, rfl, fun p q hp _ => ?_, fun _ _ _ _ _ => rfl, ?_⟩
    · exact ⟨fun h => absurd rfl h, fun h => absurd h (hnone p q hp)⟩
    · constructor
      · exact fun h => Bool.noConfusion h
      · rintro ⟨p, q, hp, -, hcovers, -⟩
        exact absurd hcovers (hnone p q hp)
  case pos =>
    obtain ⟨out, hout, hflip⟩ := drawRows?_flipped sprite y s hx hy
    have hdraw : s.draw? x y sprite = some out := (if_pos hx).trans hout
    have hsame := sameSpare_of_draw? hdraw
    refine ⟨out.1, out.2, hdraw, hflip.width, hflip.height, fun p q hp hq => ?pixel,
      fun c q hw hc hq => ?spare, ?hit⟩
    case pixel =>
      rw [hflip.pixel hp hq, count_spritePixels]
      by_cases hcovers : Covers x y sprite p q
      · simp [hcovers]
      · simp [hcovers]
    case spare =>
      rw [index_of_width hsame.width]
      exact hsame.spare c q hw hc hq
    case hit =>
      rw [hflip.hit]
      refine exists_congr fun p => exists_congr fun q => and_congr_right fun hp =>
        and_congr_right fun hq => ?_
      rw [count_spritePixels]
      by_cases hcovers : Covers x y sprite p q
      · simp [hcovers]
      · simp [hcovers]

/-- A screen of twelve columns and two rows, with one pixel and some spare bits on. -/
def frayed : Screen where
  width := 12
  height := 2
  buffer := #[0x00, 0x05, 0x00, 0x2f]
  size_buffer := rfl
  fits := by decide

/-- A sprite that hangs over the corner of that screen. Of its first row the three pixels left
of the edge are turned over, of which one was on; its second row is below the last. The spare
bits that were on still are. -/
theorem draw?_clipped_corner : ∃ t, frayed.draw? 9 1 [0xff, 0xff] = some (t, true) ∧
    (∀ p < 12, ∀ q < 2, (t.pixel p q ≠ frayed.pixel p q ↔ 9 ≤ p ∧ q = 1)) ∧
    ∀ c, 12 ≤ c → c < 16 → bit (t.byte (t.index c 1)) c = true := by
  obtain ⟨t, hit, hdraw, -, -, hpixel, hspare, hhit⟩ :=
    @draw?_clipped frayed 9 1 [0xff, 0xff] (by decide)
  have hlit : hit = true := hhit.mpr ⟨10, 1, by decide⟩
  refine ⟨t, hlit ▸ hdraw, fun p hp q hq => ?_, fun c hle hlt => ?_⟩
  · have hcorner : ∀ p < 12, ∀ q < 2, (Covers 9 1 [0xff, 0xff] p q ↔ 9 ≤ p ∧ q = 1) := by decide
    rw [hpixel p q hp hq, hcorner p hp q hq]
  · have hon : ∀ c < 16, 12 ≤ c → bit (frayed.byte (frayed.index c 1)) c = true := by decide
    rw [hspare c 1 hle hlt (by decide)]
    exact hon c hlt hle

end ChipEight.Screen
