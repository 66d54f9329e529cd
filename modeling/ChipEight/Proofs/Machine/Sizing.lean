import ChipEight.Proofs.Machine.Safety

/-!
# Settings and the size of their screen

Settings are checked number by number, and the width and the height only for being zero. How many
bytes the screen takes is worked out afterwards, in words of the host: the width is rounded up to
whole bytes, and the bytes of a row are multiplied by the rows. Both can leave the words, the sum
near the last word and the product for sizes that look like sizes, so that settings with nothing
wrong can ask for a screen that there is not (`check_of_oversized`).

`bufferBytes?` is that calculation. It has no result exactly if one of the two leaves the words
(`bufferBytes?_eq_none_iff`), and there is a screen exactly if it has one and a single buffer can be
that long. Everything else that a machine needs, settings with nothing wrong give it
(`build_on_screen`).
-/

namespace ChipEight

namespace Screen

variable {w h : Nat}

theorem bufferBytes?_eq_none_iff : bufferBytes? w h = none ↔
    wordLimit ≤ w + 7 ∨ wordLimit ≤ rowBytes w * h := by
  rw [Option.eq_none_iff_forall_ne_some]
  constructor
  · intro hnone
    by_contra hfits
    rw [not_or, Nat.not_le, Nat.not_le] at hfits
    exact hnone _ (bufferBytes?_eq_some_iff.mpr ⟨hfits, rfl⟩)
  · intro hlong n hn
    obtain ⟨⟨hsum, hproduct⟩, -⟩ := bufferBytes?_eq_some_iff.mp hn
    omega

theorem blank?_eq_none (hunfit : ¬ FitsScreen w h) : blank? w h = none := by
  refine Option.eq_none_iff_forall_ne_some.mpr fun s hs => ?_
  obtain ⟨rfl, rfl, -⟩ := of_blank? hs
  exact hunfit s.fits

end Screen

namespace Machine

/-- Settings with nothing wrong come to a screen and a machine on it, as long as the size of the
screen can be worked out and is not beyond a single buffer. It can be worked out unless the width,
rounded up, or the number of bytes is 2⁶⁴ or more, and then it is the product that it should
be. -/
theorem build_on_screen {s : Settings} (hs : s.check = none) (chance : Dice) :
    (Screen.bufferBytes? s.width s.height = none ↔
      2 ^ 64 ≤ s.width + 7 ∨ 2 ^ 64 ≤ (s.width + 7) / 8 * s.height) ∧
    (Screen.bufferBytes? s.width s.height = none → Screen.blank? s.width s.height = none) ∧
    ∀ n, Screen.bufferBytes? s.width s.height = some n → n = (s.width + 7) / 8 * s.height ∧
      (2 ^ 63 ≤ n → Screen.blank? s.width s.height = none) ∧
      (n < 2 ^ 63 → ∃ screen m, Screen.blank? s.width s.height = some screen ∧
        screen.buffer = Array.replicate n 0 ∧ build s chance screen = .ok m) := by
  have hlimits : bufferLimit < wordLimit := by decide
  have hnone := Screen.bufferBytes?_eq_none_iff (w := s.width) (h := s.height)
  refine ⟨hnone, fun hbytes => ?_, fun n hn => ?_⟩
  · refine Screen.blank?_eq_none fun hfits => ?_
    obtain ⟨hsum, hroom⟩ := hfits
    have hlong := hnone.mp hbytes
    omega
  · obtain ⟨-, rfl⟩ := Screen.bufferBytes?_eq_some_iff.mp hn
    refine ⟨rfl, fun hlong => ?_, fun hroom => ?_⟩
    · exact Screen.blank?_eq_none fun hfits => absurd hlong (Nat.not_le.mpr hfits.2)
    · obtain ⟨-, hfits⟩ := Screen.fits_of_bufferBytes? hn hroom
      have hscreen := Screen.blank?_of_fits hfits
      obtain ⟨hw, hh, hbuffer⟩ := Screen.of_blank? hscreen
      obtain ⟨m, hm⟩ := exists_build chance hs hw hh
      exact ⟨_, m, hscreen, hbuffer, hm⟩

/-- Three of the longest rows that can be rounded up to whole bytes: nearly as much as a buffer can
be long, and enough for a machine. -/
theorem build_on_screen_longest : ∃ s : Settings, s.width = 2 ^ 64 - 8 ∧ s.height = 3 ∧
    s.check = none ∧ ∃ screen m, Screen.blank? s.width s.height = some screen ∧
      build s (Dice.ofSeed 0) screen = .ok m := by
  obtain ⟨s, hs⟩ : ∃ s : Settings, s = { width := 2 ^ 64 - 8, height := 3 } := ⟨_, rfl⟩
  have hcheck : s.check = none := by
    rw [hs]
    rfl
  have hbytes : Screen.bufferBytes? s.width s.height = some (3 * (2 ^ 61 - 1)) := by
    rw [hs]
    decide
  obtain ⟨-, -, hsized⟩ := build_on_screen hcheck (Dice.ofSeed 0)
  obtain ⟨-, -, hroom⟩ := hsized _ hbytes
  obtain ⟨screen, m, hscreen, -, hm⟩ := hroom (by decide)
  exact ⟨s, congrArg Settings.width hs, congrArg Settings.height hs, hcheck, screen, m, hscreen, hm⟩

/-- Nothing is wrong with a width of 2⁶⁴ - 1, nor with a square of 2³⁴, and there is neither
screen: the one width cannot be rounded up, and the other screen takes 2⁶⁵ bytes. -/
theorem check_of_oversized :
    ({ width := 2 ^ 64 - 1, height := 1 } : Settings).check = none ∧
    Screen.bufferBytes? (2 ^ 64 - 1) 1 = none ∧ Screen.blank? (2 ^ 64 - 1) 1 = none ∧
    ({ width := 2 ^ 34, height := 2 ^ 34 } : Settings).check = none ∧
    Screen.bufferBytes? (2 ^ 34) (2 ^ 34) = none ∧ Screen.blank? (2 ^ 34) (2 ^ 34) = none :=
  ⟨rfl, rfl, rfl, rfl, rfl, rfl⟩

end Machine

end ChipEight
