import ChipEight.Proofs.Screen.Flipping

/-!
# A screen is its pixels

Two screens of one size are equal when their buffers are, and a buffer has more
bits than the screen has pixels: the spare bits at the end of each row. So pixels
settle equality only where the spare bits are known. `SameSpare s t` says that two
screens of one size have the same ones; with the same pixels such screens have the
same bytes (`SameSpare.buffer_eq`). `Clean s` says that the spare bits are off.

A new screen is clean, and nothing that is drawn on a screen changes a spare bit.
Setting a pixel changes no other bit of the byte. Drawing by bytes keeps them
because a row of a sprite is clipped before it is split (`drawRow_sameSpare`). All
that can be done to a screen from outside, one thing after the other, is a list of
strokes, and every screen that strokes come to is clean (`Painted.kept`).
-/

namespace ChipEight.Screen

/-! ## Spare bits -/

/-- The spare bits are off. -/
def Clean (s : Screen) : Prop :=
  ∀ c y, s.width ≤ c → c < 8 * rowBytes s.width → y < s.height →
    bit (s.byte (s.index c y)) c = false

theorem exists_place (s : Screen) {i : Nat} (h : i < s.buffer.size) :
    ∃ q k, q < s.height ∧ k < rowBytes s.width ∧ i = q * rowBytes s.width + k := by
  rw [s.size_buffer] at h
  have hr : 0 < rowBytes s.width := Nat.pos_of_mul_pos_right (Nat.zero_lt_of_lt h)
  exact ⟨i / rowBytes s.width, i % rowBytes s.width, Nat.div_lt_of_lt_mul h, Nat.mod_lt _ hr,
    (Nat.div_add_mod' i _).symm⟩

theorem bit_place (s : Screen) (q k : Nat) {c : Nat} (hc : c < 8) :
    bit (s.byte (q * rowBytes s.width + k)) c =
      bit (s.byte (s.index (8 * k + c) q)) (8 * k + c) := by
  have hdiv : (8 * k + c) / 8 = k := by omega
  rw [index, hdiv, ← bit_mod _ (8 * k + c), Nat.mul_add_mod, bit_mod]

/-- Two screens of one size have the same spare bits. -/
structure SameSpare (s t : Screen) : Prop where
  width : t.width = s.width
  height : t.height = s.height
  spare : ∀ c y, s.width ≤ c → c < 8 * rowBytes s.width → y < s.height →
    bit (t.byte (s.index c y)) c = bit (s.byte (s.index c y)) c

theorem index_of_width {s t : Screen} (h : t.width = s.width) (x y : Nat) :
    t.index x y = s.index x y := by
  rw [index, index, h]

namespace SameSpare

variable {s t u : Screen}

theorem refl (s : Screen) : SameSpare s s :=
  ⟨rfl, rfl, fun _ _ _ _ _ => rfl⟩

theorem trans (h : SameSpare s t) (h' : SameSpare t u) : SameSpare s u where
  width := h'.width.trans h.width
  height := h'.height.trans h.height
  spare := by
    intro c y hw hc hy
    have hlater := h'.spare c y (h.width ▸ hw) (h.width ▸ hc) (h.height ▸ hy)
    rw [index_of_width h.width] at hlater
    exact hlater.trans (h.spare c y hw hc hy)

theorem clean (h : SameSpare s t) (hs : s.Clean) : t.Clean := by
  intro c y hw hc hy
  rw [h.width] at hw hc
  rw [h.height] at hy
  rw [index_of_width h.width, h.spare c y hw hc hy]
  exact hs c y hw hc hy

/-- Screens with the same spare bits have the same bytes if they have the same pixels. -/
theorem buffer_eq (h : SameSpare s t)
    (hpixel : ∀ p q, p < s.width → q < s.height → s.pixel p q = t.pixel p q) :
    s.buffer = t.buffer := by
  have hsize : s.buffer.size = t.buffer.size := by
    rw [s.size_buffer, t.size_buffer, h.width, h.height]
  refine Array.ext hsize fun i hi hi' => ?_
  obtain ⟨q, k, hq, hk, rfl⟩ := s.exists_place hi
  rw [← s.byte_eq hi, ← t.byte_eq hi']
  refine byte_ext fun c hc => ?_
  have hrow : q * rowBytes s.width + k = q * rowBytes t.width + k := by rw [h.width]
  rw [s.bit_place q k hc, hrow, t.bit_place q k hc]
  by_cases hp : 8 * k + c < s.width
  · rw [← s.pixel_of_lt hp hq, ← t.pixel_of_lt (h.width ▸ hp) (h.height ▸ hq)]
    exact hpixel _ _ hp hq
  · rw [index_of_width h.width]
    exact (h.spare _ q (Nat.le_of_not_lt hp) (by omega) hq).symm

end SameSpare

theorem buffer_eq_of_pixels {s t : Screen} (hs : s.Clean) (ht : t.Clean) (hw : s.width = t.width)
    (hh : s.height = t.height)
    (h : ∀ p q, p < s.width → q < s.height → s.pixel p q = t.pixel p q) :
    s.buffer = t.buffer := by
  refine SameSpare.buffer_eq ⟨hw.symm, hh.symm, fun c y hc hrow hy => ?_⟩ h
  rw [hs c y hc hrow hy, ← index_of_width hw.symm]
  exact ht c y (hw ▸ hc) (hw ▸ hrow) (hh ▸ hy)

theorem eq_of_buffer {s t : Screen} (hw : s.width = t.width) (hh : s.height = t.height)
    (hb : s.buffer = t.buffer) : s = t := by
  obtain ⟨w, h, buffer, hsize, hfits⟩ := s
  obtain rfl : w = t.width := hw
  obtain rfl : h = t.height := hh
  obtain rfl : buffer = t.buffer := hb
  rfl

/-! ## What keeps the spare bits -/

theorem clean_of_byte {s : Screen} (h : ∀ i, s.byte i = 0) : s.Clean := by
  intro c y _ _ _
  rw [h, bit_zero]

theorem clean_of_blank? {w h : Nat} {s : Screen} (hs : blank? w h = some s) : s.Clean := by
  obtain ⟨-, -, hbuffer⟩ := of_blank? hs
  exact clean_of_byte fun i => by simp [byte, hbuffer, Array.getD]

theorem clean_clear (s : Screen) : s.clear.Clean :=
  clean_of_byte fun i => by simp [byte, clear, Array.getD]

theorem set_sameSpare (s : Screen) (x y : Nat) (on : Bool) : SameSpare s (s.set x y on) := by
  unfold Screen.set
  split
  case isFalse => exact .refl s
  case isTrue h =>
      refine ⟨rfl, rfl, fun c q hw hc hq => ?_⟩
      show bit ((s.setByte _ _ _).byte _) c = _
      rw [byte_setByte]
      split
      case isFalse => rfl
      case isTrue hplace =>
          have hcol : c / 8 < rowBytes s.width := by omega
          obtain ⟨-, hdiv⟩ := place_inj hcol (column_lt h.1) hplace
          have hmask : bit (mask x) c = false := by
            rw [bit_mask]
            exact decide_eq_false (by omega)
          have hindex : s.index c q = s.index x y := hplace
          rw [hindex, ← s.byte_eq (s.index_lt h)]
          cases on with
          | true => rw [if_pos rfl, bit_or, hmask, Bool.or_false]
          | false =>
              rw [if_neg Bool.false_ne_true, bit_and, bit_not, hmask, Bool.not_false, Bool.and_true]

theorem flipByte_sameSpare (s : Screen) {k y : Nat} (bits : UInt8) (hk : k < rowBytes s.width)
    (hy : y < s.height) (hbits : ∀ c < 8, bit bits c = true → 8 * k + c < s.width) :
    SameSpare s (s.flipByte (y * rowBytes s.width + k) bits (s.place_lt hk hy)).1 where
  width := rfl
  height := rfl
  spare := by
    intro c q hw hc hq
    show bit ((s.setByte _ _ _).byte _) c = _
    rw [byte_setByte]
    split
    case isFalse => rfl
    case isTrue hplace =>
        obtain ⟨-, hdiv⟩ := place_inj (show c / 8 < rowBytes s.width by omega) hk hplace
        have hoff : bit bits c = false := by
          refine Bool.eq_false_iff.mpr fun hbit => ?_
          rw [← bit_mod] at hbit
          have := hbits (c % 8) (Nat.mod_lt _ (by decide)) hbit
          omega
        rw [hplace, bit_xor, hoff, Bool.xor_false, s.byte_eq (s.place_lt hk hy)]

theorem drawRow_sameSpare (s : Screen) (x y : Nat) (row : UInt8) :
    SameSpare s (s.drawRow x y row).1 := by
  unfold Screen.drawRow
  split
  case isFalse => exact .refl s
  case isTrue h =>
      have hleft := s.flipByte_sameSpare (leftPart s.width x row) (column_lt h.1) h.2
        fun c => lt_of_bit_leftPart h.1
      show SameSpare s (Prod.fst (if hr : 0 < x % 8 ∧ x / 8 + 1 < rowBytes s.width then _ else _))
      split
      case isFalse => exact hleft
      case isTrue hr =>
          exact hleft.trans (flipByte_sameSpare (Prod.fst (flipByte ..)) (rightPart s.width x row)
            hr.2 h.2 fun c => lt_of_bit_rightPart h.1 hr.1)

theorem sameSpare_of_drawRows? {x : Nat} : ∀ (sprite : List UInt8) (y : Nat) (s : Screen)
    (out : Screen × Bool), drawRows? x y sprite s = some out → SameSpare s out.1
  | [], _, s, _, h => by
      obtain rfl := Option.some.inj h
      exact .refl s
  | row :: rest, y, s, _, h => by
      rw [drawRows?] at h
      split at h
      case isFalse => cases h
      case isTrue =>
          obtain ⟨mid, hmid, h⟩ := Option.bind_eq_some_iff.mp h
          obtain rfl := Option.some.inj h
          exact (s.drawRow_sameSpare x y row).trans (sameSpare_of_drawRows? rest (y + 1) _ mid hmid)

theorem sameSpare_of_draw? {s : Screen} {x y : Nat} {sprite : List UInt8} {out : Screen × Bool}
    (h : s.draw? x y sprite = some out) : SameSpare s out.1 := by
  unfold draw? at h
  split at h
  case isTrue => exact sameSpare_of_drawRows? sprite y s out h
  case isFalse =>
      obtain rfl := Option.some.inj h
      exact .refl s

/-! ## Strokes -/

/-- What can be done to a screen from outside. -/
inductive Stroke
  | set (x y : Nat) (on : Bool)
  /-- A sprite, cut off at the right and the bottom edge. -/
  | draw (x y : Nat) (sprite : List UInt8)
  | clear

/-- The rows of a sprite have numbers. -/
def Stroke.Fits : Stroke → Prop
  | .draw _ y sprite => y + sprite.length ≤ wordLimit
  | .set .. | .clear => True

/-- One stroke. -/
def stroke? (s : Screen) : Stroke → Option Screen
  | .set x y on => some (s.set x y on)
  | .draw x y sprite => (s.draw? x y sprite).map Prod.fst
  | .clear => some s.clear

/-- One stroke after the other. -/
def paint? : List Stroke → Screen → Option Screen
  | [], s => some s
  | k :: rest, s => (s.stroke? k).bind (paint? rest)

theorem kept_of_stroke? {s t : Screen} {k : Stroke} (h : s.stroke? k = some t) :
    t.width = s.width ∧ t.height = s.height ∧ (s.Clean → t.Clean) := by
  cases k with
  | set x y on =>
      obtain rfl := Option.some.inj h
      exact ⟨width_set .., height_set .., (s.set_sameSpare x y on).clean⟩
  | clear =>
      obtain rfl := Option.some.inj h
      exact ⟨rfl, rfl, fun _ => s.clean_clear⟩
  | draw x y sprite =>
      obtain ⟨out, hout, rfl⟩ := Option.map_eq_some_iff.mp h
      have hsame := sameSpare_of_draw? hout
      exact ⟨hsame.width, hsame.height, hsame.clean⟩

theorem kept_of_paint? : ∀ (strokes : List Stroke) {s t : Screen}, paint? strokes s = some t →
    t.width = s.width ∧ t.height = s.height ∧ (s.Clean → t.Clean)
  | [], _, _, h => by
      obtain rfl := Option.some.inj h
      exact ⟨rfl, rfl, id⟩
  | _ :: rest, _, _, h => by
      obtain ⟨mid, hmid, h⟩ := Option.bind_eq_some_iff.mp h
      obtain ⟨hw, hh, hclean⟩ := kept_of_stroke? hmid
      obtain ⟨hw', hh', hclean'⟩ := kept_of_paint? rest h
      exact ⟨hw'.trans hw, hh'.trans hh, fun hs => hclean' (hclean hs)⟩

theorem exists_stroke (s : Screen) {k : Stroke} (hk : k.Fits) : ∃ t, s.stroke? k = some t := by
  cases k with
  | set x y on => exact ⟨_, rfl⟩
  | clear => exact ⟨_, rfl⟩
  | draw x y sprite =>
      by_cases hx : x < s.width
      · obtain ⟨out, hout, -⟩ := drawRows?_flipped sprite y s hx hk
        have hdraw : s.draw? x y sprite = some out := (if_pos hx).trans hout
        exact ⟨out.1, congrArg (Option.map Prod.fst) hdraw⟩
      · have hdraw : s.draw? x y sprite = some (s, false) := if_neg hx
        exact ⟨s, congrArg (Option.map Prod.fst) hdraw⟩

theorem exists_paint : ∀ (strokes : List Stroke) (s : Screen), (∀ k ∈ strokes, k.Fits) →
    ∃ t, paint? strokes s = some t
  | [], s, _ => ⟨s, rfl⟩
  | k :: rest, s, h => by
      obtain ⟨t, ht⟩ := s.exists_stroke (h k List.mem_cons_self)
      obtain ⟨u, hu⟩ := exists_paint rest t fun k hk => h k (List.mem_cons_of_mem _ hk)
      refine ⟨u, ?_⟩
      rw [paint?, ht]
      exact hu

/-- The screens of a size that strokes come to. -/
def Painted (w h : Nat) (s : Screen) : Prop :=
  ∃ strokes, (blank? w h).bind (paint? strokes) = some s

theorem Painted.kept {w h : Nat} {s : Screen} (hs : Painted w h s) :
    s.width = w ∧ s.height = h ∧ s.Clean := by
  obtain ⟨strokes, hs⟩ := hs
  obtain ⟨blank, hblank, hs⟩ := Option.bind_eq_some_iff.mp hs
  obtain ⟨hw, hh, hclean⟩ := kept_of_paint? strokes hs
  obtain ⟨hwidth, hheight, -⟩ := of_blank? hblank
  exact ⟨hw.trans hwidth, hh.trans hheight, hclean (clean_of_blank? hblank)⟩

/-- Strokes on a new screen have an answer of its size, with the spare bits off. -/
theorem exists_painted {w h : Nat} (hfits : FitsScreen w h) {strokes : List Stroke}
    (hs : ∀ k ∈ strokes, k.Fits) : ∃ s, (blank? w h).bind (paint? strokes) = some s ∧
      s.width = w ∧ s.height = h ∧ s.Clean := by
  have hblank := blank?_of_fits hfits
  obtain ⟨s, hs⟩ := exists_paint strokes _ hs
  have hrun : (blank? w h).bind (paint? strokes) = some s := by
    rw [hblank]
    exact hs
  exact ⟨s, hrun, Painted.kept ⟨strokes, hrun⟩⟩

theorem pixel_off (s : Screen) {p q : Nat} (h : ¬ (p < s.width ∧ q < s.height)) :
    s.pixel p q = false :=
  dif_neg h

theorem pixel_set_iff (s : Screen) (x y : Nat) (on : Bool) (p q : Nat) :
    (s.set x y on).pixel p q =
      if (p = x ∧ q = y) ∧ x < s.width ∧ y < s.height then on else s.pixel p q := by
  by_cases h : p < s.width ∧ q < s.height
  · rw [pixel_set s x y on h.1 h.2]
    by_cases hsame : p = x ∧ q = y
    · obtain ⟨rfl, rfl⟩ := hsame
      simp [h]
    · simp [hsame]
  · have hoff : ¬ (p < (s.set x y on).width ∧ q < (s.set x y on).height) := by
      rw [width_set, height_set]
      exact h
    have hne : ¬ ((p = x ∧ q = y) ∧ x < s.width ∧ y < s.height) := by
      rintro ⟨⟨rfl, rfl⟩, hxy⟩
      exact h hxy
    rw [pixel_off _ hoff, if_neg hne, pixel_off s h]

/-- Whatever is done to a new screen whose size fits, its buffer keeps its
length and the spare bits stay off. Setting a pixel is seen at that pixel and at
no other, and off the screen nothing is seen. So two such screens of one size
are the same screen, and have the same bytes, exactly when they have the same
pixels. -/
theorem paint?_pixels {w h : Nat} (hfits : FitsScreen w h) (strokes : List Stroke)
    (hs : ∀ k ∈ strokes, k.Fits) : ∃ s, (blank? w h).bind (paint? strokes) = some s ∧
      s.width = w ∧ s.height = h ∧ s.buffer.size = (w + 7) / 8 * h ∧ s.Clean ∧
      (∀ x y on p q, (s.set x y on).pixel p q =
        if (p = x ∧ q = y) ∧ x < w ∧ y < h then on else s.pixel p q) ∧
      (∀ p q, ¬ (p < w ∧ q < h) → s.pixel p q = false) ∧
      ∀ strokes' s', (∀ k ∈ strokes', k.Fits) →
        (blank? w h).bind (paint? strokes') = some s' →
          (s = s' ↔ ∀ p q, p < w → q < h → s.pixel p q = s'.pixel p q) ∧
          (s.buffer = s'.buffer ↔ ∀ p q, p < w → q < h → s.pixel p q = s'.pixel p q) := by
  obtain ⟨s, hrun, rfl, rfl, hclean⟩ := exists_painted hfits hs
  refine ⟨s, hrun, rfl, rfl, s.size_buffer, hclean, s.pixel_set_iff, fun _ _ => s.pixel_off, ?_⟩
  intro strokes' s' hs' hrun'
  obtain ⟨t, ht, hw, hh, hclean'⟩ := exists_painted hfits hs'
  obtain rfl := Option.some.inj (ht.symm.trans hrun')
  have hbytes := buffer_eq_of_pixels hclean hclean' hw.symm hh.symm
  have hpixels : s.buffer = t.buffer → ∀ p q, p < s.width → q < s.height →
      s.pixel p q = t.pixel p q := by
    intro hb p q _ _
    rw [eq_of_buffer hw.symm hh.symm hb]
  constructor
  · exact ⟨fun heq => hpixels (congrArg buffer heq),
      fun hp => eq_of_buffer hw.symm hh.symm (hbytes hp)⟩
  · exact ⟨hpixels, hbytes⟩

/-- A row drawn over the right edge is the pixels set that are left of it. -/
theorem paint?_pixels_clipped : ∃ s, (blank? 12 2).bind (paint? [.draw 9 1 [0xff]]) = some s ∧
    (blank? 12 2).bind
      (paint? [.set 12 1 true, .set 11 1 true, .set 10 1 true, .set 9 1 true]) = some s := by
  obtain ⟨s, hs, -, -, -, -, -, -, heq⟩ := paint?_pixels (w := 12) (h := 2) (by decide)
    [.draw 9 1 [0xff]] (by simp [Stroke.Fits, wordLimit])
  obtain ⟨s', hs', -⟩ := paint?_pixels (w := 12) (h := 2) (by decide)
    [.set 12 1 true, .set 11 1 true, .set 10 1 true, .set 9 1 true] (by simp [Stroke.Fits])
  have hpixels : ∀ p < 12, ∀ q < 2,
      ((blank? 12 2).bind (paint? [.draw 9 1 [0xff]])).map (pixel · p q) =
        ((blank? 12 2).bind (paint? [.set 12 1 true, .set 11 1 true, .set 10 1 true,
          .set 9 1 true])).map (pixel · p q) := by
    decide
  rw [hs, hs'] at hpixels
  have hsame : s = s' := (heq _ s' (by simp [Stroke.Fits]) hs').1.mpr
    fun p q hp hq => Option.some.inj (hpixels p hp q hq)
  exact ⟨s, hs, hsame ▸ hs'⟩

end ChipEight.Screen
