import ChipEight.Proofs.Screen.Pixels
import Mathlib.Data.List.Nodup

/-!
# Turning pixels over

Every way of drawing turns over the pixels of a list, and a pixel that is in the
list more than once is turned over more than once. `Flipped s l out` says what
that comes to, whatever the way: a pixel is changed when the list has it an odd
number of times, and one went out exactly when a listed pixel was on before or
is listed twice. The relation knows the list only by how often each pixel of the
screen is in it, so neither the order nor what lies off the screen matters
(`Flipped.congr`), and drawing after drawing is drawing the two lists joined
(`Flipped.append`).

The first is where the byte-wise drawing has its law. Turning over one byte is
turning over the pixels of a row of eight (`flipByte_flipped`); a row of a
sprite is at most two such bytes, each with its part of the row, and the parts
together have the pixels of the whole row once (`drawRow_flipped`). A sprite
that is cut off and one that is wrapped then differ in their lists alone, and on
a torus both ways of `drawWrapped?` come to the wrapped list
(`drawWrapped?_flipped`).
-/

namespace ChipEight.Screen

/-! ## What turning over a list comes to -/

/-- `out` is the screen `s` with the pixels of `l` turned over one after the
other, and whether one of them went out. -/
structure Flipped (s : Screen) (l : List (Nat × Nat)) (out : Screen × Bool) : Prop where
  width : out.1.width = s.width
  height : out.1.height = s.height
  pixel : ∀ {p q}, p < s.width → q < s.height →
    out.1.pixel p q = (s.pixel p q ^^ decide (l.count (p, q) % 2 = 1))
  hit : out.2 = true ↔ ∃ p q, p < s.width ∧ q < s.height ∧
    (1 ≤ l.count (p, q) ∧ s.pixel p q = true ∨ 2 ≤ l.count (p, q))

theorem xor_odd (m n : Nat) :
    (decide (m % 2 = 1) ^^ decide (n % 2 = 1)) = decide ((m + n) % 2 = 1) := by
  rcases Nat.mod_two_eq_zero_or_one m with hm | hm <;>
    rcases Nat.mod_two_eq_zero_or_one n with hn | hn <;> simp [Nat.add_mod, hm, hn]

namespace Flipped

variable {s : Screen} {l l' : List (Nat × Nat)} {out out' : Screen × Bool}

theorem nil (s : Screen) : Flipped s [] (s, false) where
  width := rfl
  height := rfl
  pixel _ _ := by simp
  hit := by simp

theorem congr (h : Flipped s l out)
    (hl : ∀ p q, p < s.width → q < s.height → l.count (p, q) = l'.count (p, q)) :
    Flipped s l' out where
  width := h.width
  height := h.height
  pixel hp hq := by rw [h.pixel hp hq, hl _ _ hp hq]
  hit := by
    rw [h.hit]
    refine exists_congr fun p => exists_congr fun q => and_congr_right fun hp =>
      and_congr_right fun hq => ?_
    rw [hl p q hp hq]

theorem append (h : Flipped s l out) (h' : Flipped out.1 l' out') :
    Flipped s (l ++ l') (out'.1, out.2 || out'.2) where
  width := h'.width.trans h.width
  height := h'.height.trans h.height
  pixel := by
    intro p q hp hq
    have hp' : p < out.1.width := h.width ▸ hp
    have hq' : q < out.1.height := h.height ▸ hq
    rw [h'.pixel hp' hq', h.pixel hp hq, Bool.xor_assoc, xor_odd, List.count_append]
  hit := by
    rw [Bool.or_eq_true, h.hit, h'.hit]
    simp only [List.count_append, h.width, h.height]
    constructor
    · rintro (⟨p, q, hp, hq, hlit | htwice⟩ | ⟨p, q, hp, hq, hlit | htwice⟩)
      · exact ⟨p, q, hp, hq, Or.inl ⟨by omega, hlit.2⟩⟩
      · exact ⟨p, q, hp, hq, Or.inr (by omega)⟩
      · -- what the second list put out was on before, or the first had lit it
        refine ⟨p, q, hp, hq, ?_⟩
        obtain ⟨hone, hpix⟩ := hlit
        rw [h.pixel hp hq] at hpix
        cases hs : s.pixel p q with
        | true => exact Or.inl ⟨by omega, rfl⟩
        | false =>
            rw [hs, Bool.false_xor, decide_eq_true_eq] at hpix
            exact Or.inr (by omega)
      · exact ⟨p, q, hp, hq, Or.inr (by omega)⟩
    · rintro ⟨p, q, hp, hq, hlit | htwice⟩
      · by_cases hone : 1 ≤ l.count (p, q)
        · exact Or.inl ⟨p, q, hp, hq, Or.inl ⟨hone, hlit.2⟩⟩
        · refine Or.inr ⟨p, q, hp, hq, Or.inl ⟨by omega, ?_⟩⟩
          rw [h.pixel hp hq, hlit.2, decide_eq_false (by omega)]
          rfl
      · -- twice in the joined list: twice in one of the two, or once in each
        by_cases hone : l.count (p, q) = 1 ∧ l'.count (p, q) = 1
        · cases hs : s.pixel p q with
          | true => exact Or.inl ⟨p, q, hp, hq, Or.inl ⟨by omega, hs⟩⟩
          | false =>
              refine Or.inr ⟨p, q, hp, hq, Or.inl ⟨by omega, ?_⟩⟩
              rw [h.pixel hp hq, hs, hone.1]
              rfl
        · by_cases htwo : 2 ≤ l.count (p, q)
          · exact Or.inl ⟨p, q, hp, hq, Or.inr htwo⟩
          · exact Or.inr ⟨p, q, hp, hq, Or.inr (by omega)⟩

end Flipped

/-! ## One pixel after the other -/

theorem set_flipped (s : Screen) {x y : Nat} (hx : x < s.width) (hy : y < s.height) :
    Flipped s [(x, y)] (s.set x y (!s.pixel x y), s.pixel x y) where
  width := width_set ..
  height := height_set ..
  pixel := by
    intro p q hp hq
    rw [pixel_set s x y _ hp hq]
    by_cases h : p = x ∧ q = y
    · obtain ⟨rfl, rfl⟩ := h
      simp
    · have hne : (x, y) ≠ (p, q) := by
        rintro ⟨⟩
        exact h ⟨rfl, rfl⟩
      rw [if_neg h, List.count_singleton, beq_eq_false_iff_ne.mpr hne]
      simp
  hit := by
    constructor
    · intro hlit
      exact ⟨x, y, hx, hy, Or.inl ⟨by simp, hlit⟩⟩
    · rintro ⟨p, q, -, -, ⟨hone, hlit⟩ | htwo⟩
      · by_cases h : (x, y) = (p, q)
        · obtain ⟨rfl, rfl⟩ := Prod.mk.inj h
          exact hlit
        · rw [List.count_singleton, beq_eq_false_iff_ne.mpr h] at hone
          exact absurd hone (by decide)
      · rw [List.count_singleton] at htwo
        split at htwo <;> omega

theorem flipAll_flipped : ∀ (l : List (Nat × Nat)) (s : Screen),
    (∀ a ∈ l, a.1 < s.width ∧ a.2 < s.height) → Flipped s l (s.flipAll l)
  | [], s, _ => .nil s
  | (x, y) :: l, s, h => by
      obtain ⟨hx, hy⟩ := h (x, y) List.mem_cons_self
      have hrest := flipAll_flipped l (s.set x y (!s.pixel x y)) fun a ha => by
        rw [width_set, height_set]
        exact h a (List.mem_cons_of_mem _ ha)
      exact (set_flipped s hx hy).append hrest

/-! ## A row of eight pixels -/

/-- The pixels under the set bits of a row whose left end is at `(x, y)`, on a
screen without edges. -/
def rowPixels (x y : Nat) (row : UInt8) : List (Nat × Nat) :=
  (columns row).map fun c => (x + c, y)

theorem mem_columns {row : UInt8} {c : Nat} : c ∈ columns row ↔ c < 8 ∧ bit row c = true := by
  unfold columns
  rw [List.mem_filter, List.mem_range]
  exact Iff.rfl

theorem mem_rowPixels {x y : Nat} {row : UInt8} {p q : Nat} : (p, q) ∈ rowPixels x y row ↔
    q = y ∧ x ≤ p ∧ p < x + 8 ∧ bit row (p - x) = true := by
  unfold rowPixels
  rw [List.mem_map]
  constructor
  · rintro ⟨c, hc, h⟩
    obtain ⟨rfl, rfl⟩ := Prod.mk.inj h
    obtain ⟨hlt, hbit⟩ := mem_columns.mp hc
    refine ⟨rfl, by omega, by omega, ?_⟩
    rwa [Nat.add_sub_cancel_left]
  · rintro ⟨rfl, hle, hlt, hbit⟩
    exact ⟨p - x, mem_columns.mpr ⟨by omega, hbit⟩, by rw [Nat.add_sub_cancel' hle]⟩

theorem nodup_rowPixels (x y : Nat) (row : UInt8) : (rowPixels x y row).Nodup := by
  refine List.Nodup.map (fun a b h => ?_) (List.nodup_range.filter _)
  have := (Prod.mk.inj h).1
  omega

theorem count_rowPixels (x y : Nat) (row : UInt8) (a : Nat × Nat) :
    (rowPixels x y row).count a = if a ∈ rowPixels x y row then 1 else 0 :=
  List.Nodup.count (nodup_rowPixels x y row)

/-- Turning over a byte of the buffer turns over its eight pixels, as long as no
spare bit at the end of a row is touched. -/
theorem flipByte_flipped (s : Screen) {k y : Nat} (bits : UInt8) (hk : k < rowBytes s.width)
    (hy : y < s.height) (hbits : ∀ c < 8, bit bits c = true → 8 * k + c < s.width) :
    Flipped s (rowPixels (8 * k) y bits)
      (s.flipByte (y * rowBytes s.width + k) bits (s.place_lt hk hy)) where
  width := rfl
  height := rfl
  pixel := by
    intro p q hp hq
    have hi := s.place_lt hk hy
    show (s.setByte _ _ hi).pixel p q = _
    rw [pixel_setByte s _ hi hp hq, s.pixel_of_lt hp hq, count_rowPixels, ← s.byte_eq hi]
    by_cases h : q = y ∧ p / 8 = k
    · have hidx := (s.index_eq_iff hp hk).mpr h
      have hsub : p - 8 * k = p % 8 := by omega
      have hrange : 8 * k ≤ p ∧ p < 8 * k + 8 := by omega
      rw [if_pos hidx, hidx, bit_xor]
      simp only [mem_rowPixels, hsub, bit_mod]
      cases hb : bit bits p <;> simp [h.1, hrange]
    · have hidx : ¬ s.index p q = y * rowBytes s.width + k :=
        fun e => h ((s.index_eq_iff hp hk).mp e)
      have hno : (p, q) ∉ rowPixels (8 * k) y bits := by
        intro hmem
        obtain ⟨hqy, hle, hlt, -⟩ := mem_rowPixels.mp hmem
        exact h ⟨hqy, by omega⟩
      rw [if_neg hidx, if_neg hno]
      simp
  hit := by
    have hi := s.place_lt hk hy
    show (s.buffer[_] &&& bits != 0) = true ↔ _
    rw [ne_zero_iff, ← s.byte_eq hi]
    simp only [bit_and, Bool.and_eq_true, count_rowPixels]
    constructor
    · rintro ⟨c, hc, hold, hnew⟩
      have hp := hbits c hc hnew
      have hidx := (s.index_eq_iff (y := y) hp hk).mpr ⟨rfl, by omega⟩
      refine ⟨8 * k + c, y, hp, hy, Or.inl ⟨?_, ?_⟩⟩
      · rw [if_pos (mem_rowPixels.mpr ⟨rfl, by omega, by omega, ?_⟩)]
        rwa [Nat.add_sub_cancel_left]
      · rw [s.pixel_of_lt hp hy, hidx, ← bit_mod, Nat.mul_add_mod, bit_mod]
        exact hold
    · rintro ⟨p, q, hp, hq, ⟨hone, hlit⟩ | htwo⟩
      · split at hone
        case isFalse => omega
        case isTrue hmem =>
            obtain ⟨rfl, hle, hlt, hnew⟩ := mem_rowPixels.mp hmem
            have hidx := (s.index_eq_iff (y := q) hp hk).mpr ⟨rfl, by omega⟩
            rw [s.pixel_of_lt hp hq, hidx, ← bit_mod] at hlit
            refine ⟨p - 8 * k, by omega, ?_, hnew⟩
            rwa [show p - 8 * k = p % 8 by omega]
      · split at htwo <;> omega

/-! ## A row at any column

A row that does not start at a byte is split. `leftPart` and `rightPart` are the
two bytes it is split into; both come from the row with the columns past the
edge cut off, so neither has a spare bit. -/

theorem bit_clip {w x c : Nat} (hx : x < w) (hc : c < 8) :
    bit (clip w x) c = decide (x + c < w) := by
  have h255 : ∀ k < 8, bit 0xff k = true := by decide
  unfold clip
  rw [bit_shiftLeft _ (by omega) hc]
  by_cases h : c + (8 - min (w - x) 8) < 8
  · rw [h255 _ h, decide_eq_true h, decide_eq_true (by omega)]
    rfl
  · rw [decide_eq_false h, decide_eq_false (by omega), Bool.false_and]

/-- The bits of a row that belong to the byte in which it starts. -/
def leftPart (width x : Nat) (row : UInt8) : UInt8 :=
  (row &&& clip width x) >>> UInt8.ofNat (x % 8)

/-- The bits of a row that belong to the byte after that. -/
def rightPart (width x : Nat) (row : UInt8) : UInt8 :=
  (row &&& clip width x) <<< (8 - UInt8.ofNat (x % 8))

theorem bit_leftPart {w x c : Nat} (row : UInt8) (hx : x < w) (hc : c < 8) :
    bit (leftPart w x row) c =
      (decide (x % 8 ≤ c ∧ x + (c - x % 8) < w) && bit row (c - x % 8)) := by
  unfold leftPart
  rw [bit_shiftRight _ (Nat.mod_lt _ (by decide)) hc, bit_and, bit_clip hx (by omega)]
  by_cases h : x % 8 ≤ c <;> simp [h, Bool.and_comm]

theorem bit_rightPart {w x c : Nat} (row : UInt8) (hx : x < w) (hs : 0 < x % 8) (hc : c < 8) :
    bit (rightPart w x row) c =
      (decide (c < x % 8 ∧ x + (c + 8 - x % 8) < w) && bit row (c + 8 - x % 8)) := by
  have hshift : 8 - UInt8.ofNat (x % 8) = UInt8.ofNat (8 - x % 8) := by
    have : ∀ k : Fin 8, 8 - UInt8.ofNat k.val = UInt8.ofNat (8 - k.val) := by decide
    exact this ⟨x % 8, Nat.mod_lt _ (by decide)⟩
  have hadd : c + (8 - x % 8) = c + 8 - x % 8 := by omega
  unfold rightPart
  rw [hshift, bit_shiftLeft _ (by omega) hc, bit_and, hadd]
  by_cases h : c < x % 8
  · rw [bit_clip hx (by omega), decide_eq_true (show c + 8 - x % 8 < 8 by omega)]
    simp [h, Bool.and_comm]
  · rw [decide_eq_false (show ¬ c + 8 - x % 8 < 8 by omega)]
    simp [h]

theorem lt_of_bit_leftPart {w x c : Nat} {row : UInt8} (hx : x < w) (hc : c < 8)
    (h : bit (leftPart w x row) c = true) : 8 * (x / 8) + c < w := by
  rw [bit_leftPart row hx hc, Bool.and_eq_true, decide_eq_true_eq] at h
  omega

theorem lt_of_bit_rightPart {w x c : Nat} {row : UInt8} (hx : x < w) (hs : 0 < x % 8) (hc : c < 8)
    (h : bit (rightPart w x row) c = true) : 8 * (x / 8 + 1) + c < w := by
  rw [bit_rightPart row hx hs hc, Bool.and_eq_true, decide_eq_true_eq] at h
  omega

theorem mem_leftPart {w x y p q : Nat} {row : UInt8} (hx : x < w) (hp : p < w) :
    (p, q) ∈ rowPixels (8 * (x / 8)) y (leftPart w x row) ↔
      (p, q) ∈ rowPixels x y row ∧ p / 8 = x / 8 := by
  rw [mem_rowPixels, mem_rowPixels]
  constructor
  · rintro ⟨rfl, hle, hlt, hb⟩
    rw [bit_leftPart row hx (by omega), Bool.and_eq_true, decide_eq_true_eq] at hb
    obtain ⟨hc, hb⟩ := hb
    rw [show p - 8 * (x / 8) - x % 8 = p - x by omega] at hb
    exact ⟨⟨rfl, by omega, by omega, hb⟩, by omega⟩
  · rintro ⟨⟨rfl, hle, hlt, hb⟩, hsame⟩
    refine ⟨rfl, by omega, by omega, ?_⟩
    rw [bit_leftPart row hx (by omega), Bool.and_eq_true, decide_eq_true_eq,
      show p - 8 * (x / 8) - x % 8 = p - x by omega]
    exact ⟨by omega, hb⟩

theorem mem_rightPart {w x y p q : Nat} {row : UInt8} (hx : x < w) (hs : 0 < x % 8)
    (hp : p < w) :
    (p, q) ∈ rowPixels (8 * (x / 8 + 1)) y (rightPart w x row) ↔
      (p, q) ∈ rowPixels x y row ∧ p / 8 = x / 8 + 1 := by
  rw [mem_rowPixels, mem_rowPixels]
  constructor
  · rintro ⟨rfl, hle, hlt, hb⟩
    rw [bit_rightPart row hx hs (by omega), Bool.and_eq_true, decide_eq_true_eq] at hb
    obtain ⟨hc, hb⟩ := hb
    rw [show p - 8 * (x / 8 + 1) + 8 - x % 8 = p - x by omega] at hb
    exact ⟨⟨rfl, by omega, by omega, hb⟩, by omega⟩
  · rintro ⟨⟨rfl, hle, hlt, hb⟩, hsame⟩
    refine ⟨rfl, by omega, by omega, ?_⟩
    rw [bit_rightPart row hx hs (by omega), Bool.and_eq_true, decide_eq_true_eq,
      show p - 8 * (x / 8 + 1) + 8 - x % 8 = p - x by omega]
    exact ⟨by omega, hb⟩

theorem div_of_mem_rowPixels {x y p q : Nat} {row : UInt8} (h : (p, q) ∈ rowPixels x y row) :
    p / 8 = x / 8 ∨ 0 < x % 8 ∧ p / 8 = x / 8 + 1 := by
  obtain ⟨-, hle, hlt, -⟩ := mem_rowPixels.mp h
  omega

/-- Drawing a row a byte at a time turns over its pixels; those past an edge are
no pixels of the screen. -/
theorem drawRow_flipped (s : Screen) {x : Nat} (y : Nat) (row : UInt8) (hx : x < s.width) :
    Flipped s (rowPixels x y row) (s.drawRow x y row) := by
  unfold drawRow
  split
  case isFalse h =>
      refine (Flipped.nil s).congr fun p q _ hq => ?_
      rw [List.count_nil, count_rowPixels, if_neg]
      intro hmem
      exact h ⟨hx, (mem_rowPixels.mp hmem).1 ▸ hq⟩
  case isTrue h =>
      have hleft := s.flipByte_flipped (leftPart s.width x row) (column_lt hx) h.2
        fun c => lt_of_bit_leftPart hx
      show Flipped s _ (if hr : 0 < x % 8 ∧ x / 8 + 1 < rowBytes s.width then _ else _)
      split
      case isFalse hr =>
          refine hleft.congr fun p q hp hq => ?_
          have hsame : (p, q) ∈ rowPixels x y row → p / 8 = x / 8 := by
            intro hmem
            have := column_lt hp
            have := div_of_mem_rowPixels hmem
            omega
          simp only [count_rowPixels, mem_leftPart hx hp, and_iff_left_of_imp hsame]
      case isTrue hr =>
          have hright := hleft.append
            (flipByte_flipped (Prod.fst (flipByte ..)) (rightPart s.width x row) hr.2 h.2
              fun c => lt_of_bit_rightPart hx hr.1)
          refine Flipped.congr hright fun p q hp hq => ?_
          rw [List.count_append]
          simp only [count_rowPixels, mem_leftPart hx hp, mem_rightPart hx hr.1 hp]
          by_cases hmem : (p, q) ∈ rowPixels x y row
          · have := div_of_mem_rowPixels hmem
            simp only [hmem, true_and, if_true]
            split <;> split <;> omega
          · simp [hmem]

/-! ## Sprites -/

/-- The pixels under a sprite whose top left corner is at `(x, y)`, on a screen
without edges. -/
def spritePixels (x y : Nat) (sprite : List UInt8) : List (Nat × Nat) :=
  sprite.zipIdx.flatMap fun (row, r) => rowPixels x (y + r) row

theorem spritePixels_cons (x y : Nat) (row : UInt8) (rest : List UInt8) :
    spritePixels x y (row :: rest) = rowPixels x y row ++ spritePixels x (y + 1) rest := by
  unfold spritePixels
  rw [List.zipIdx_cons, List.flatMap_cons, List.zipIdx_succ, List.flatMap_map]
  simp only [Nat.add_zero, Nat.add_assoc, Nat.add_comm 1]

theorem mem_spritePixels {x y p q : Nat} {sprite : List UInt8}
    (h : (p, q) ∈ spritePixels x y sprite) :
    x ≤ p ∧ p < x + 8 ∧ y ≤ q ∧ q < y + sprite.length := by
  unfold spritePixels at h
  rw [List.mem_flatMap] at h
  obtain ⟨⟨row, r⟩, hr, hmem⟩ := h
  obtain ⟨rfl, hle, hlt, -⟩ := mem_rowPixels.mp hmem
  have := List.mem_zipIdx hr
  omega

theorem wrappedPixels_eq (w h x y : Nat) (sprite : List UInt8) :
    wrappedPixels w h x y sprite = (spritePixels x y sprite).map fun (p, q) => (p % w, q % h) := by
  unfold wrappedPixels spritePixels
  rw [List.map_flatMap]
  simp only [rowPixels, List.map_map]
  rfl

/-- Drawing a sprite cut off at the edges turns over its pixels, if every row of
it has a number. -/
theorem drawRows?_flipped {x : Nat} : ∀ (sprite : List UInt8) (y : Nat) (s : Screen),
    x < s.width → y + sprite.length ≤ wordLimit →
      ∃ out, drawRows? x y sprite s = some out ∧ Flipped s (spritePixels x y sprite) out
  | [], _, s, _, _ => ⟨(s, false), rfl, .nil s⟩
  | row :: rest, y, s, hx, hy => by
      rw [List.length_cons] at hy
      have hrow := s.drawRow_flipped y row hx
      obtain ⟨out, hout, hrest⟩ := drawRows?_flipped rest (y + 1) (s.drawRow x y row).1
        (hrow.width ▸ hx) (by omega)
      refine ⟨_, ?_, spritePixels_cons x y row rest ▸ hrow.append hrest⟩
      simp only [drawRows?, if_pos (show y < wordLimit by omega), hout]
      rfl

theorem height_lt (s : Screen) (hw : 0 < s.width) : s.height < bufferLimit := by
  have hb : 0 < rowBytes s.width := Nat.zero_lt_of_lt (column_lt hw)
  exact Nat.lt_of_le_of_lt (Nat.le_mul_of_pos_left _ hb) s.fits.2

/-- On a torus both ways of drawing turn over the wrapped pixels, and no place
of a sprite of the machine is without a number. -/
theorem drawWrapped?_flipped (s : Screen) (x y : Nat) (sprite : List UInt8) (hw : 0 < s.width)
    (hh : 0 < s.height) (hs : sprite.length < 16) :
    ∃ out, s.drawWrapped? x y sprite = some out ∧
      Flipped s (wrappedPixels s.width s.height (x % s.width) (y % s.height) sprite) out := by
  have hx := Nat.mod_lt x hw
  have hy := Nat.mod_lt y hh
  have hwidth := s.fits.1
  have hheight := s.height_lt hw
  unfold wordLimit at hwidth
  unfold bufferLimit at hheight
  unfold drawWrapped?
  rw [if_neg (by omega)]
  simp only []
  rw [if_neg (by unfold wordLimit; omega)]
  split
  case isTrue h =>
      unfold draw?
      rw [if_pos hx]
      obtain ⟨out, hout, hflip⟩ := drawRows?_flipped sprite (y % s.height) s hx
        (by unfold wordLimit; omega)
      -- nothing sticks out, so wrapping moves no pixel
      have hsame : wrappedPixels s.width s.height (x % s.width) (y % s.height) sprite =
          spritePixels (x % s.width) (y % s.height) sprite := by
        rw [wrappedPixels_eq]
        refine (List.map_congr_left fun (p, q) hmem => ?_).trans (List.map_id _)
        have := mem_spritePixels hmem
        show (p % s.width, q % s.height) = (p, q)
        rw [Nat.mod_eq_of_lt (by omega), Nat.mod_eq_of_lt (by omega)]
      exact ⟨out, hout, hsame ▸ hflip⟩
  case isFalse h =>
      refine ⟨_, rfl, flipAll_flipped _ s ?_⟩
      rw [wrappedPixels_eq]
      intro a ha
      obtain ⟨b, -, rfl⟩ := List.mem_map.mp ha
      exact ⟨Nat.mod_lt _ hw, Nat.mod_lt _ hh⟩

end ChipEight.Screen
