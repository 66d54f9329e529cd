import ChipEight.Proofs.Screen.Painting
import ChipEight.Screen.Plane
import Mathlib.Algebra.Group.Nat.Defs
import Mathlib.Data.List.Nodup

/-!
# The planes share out the screen

Every pixel of a screen has a point in one of its two planes and in one only. The points of a
plane are asked for one after the other, and each question searches the packed bytes from where
the one before it stopped. What the questions come to is said pixel by pixel: one pixel more to
come is one point more or none, and no pixel is looked at twice (`points?_succ`). A bit that is
shifted down out of its byte is the pixel that is seen through a mask (`bitAt?_resolution`). So
a plane is the pixels of one sort, from the last to the first (`plane?_eq`).

A pixel is told from the others by its column and its row, from which its number is got back
(`number_nth`). Its point tells it from the others as long as the host keeps all columns and rows
apart. It does so up to 2⁵³, and 2⁵³ + 1 is the first number that it takes for another: on screens
of at most 2⁵³ + 1 columns and rows a point is the column and the row themselves
(`point_of_precise`), on any larger one two pixels have one point (`precise_of_nodup`).
-/

namespace ChipEight

namespace Resolution

variable {r : Resolution} {data : Array UInt8} {bit : UInt8}

/-! ## One question after the other -/

theorem points?_eq_next? (n : Nat) : r.points? data bit n = (r.next? data bit n).bind fun
    | (none, _) => some []
    | (some p, left) => (r.points? data bit left).map (p :: ·) := by
  rw [points?]
  split
  case h_1 h => rw [h, Option.bind_none]
  case h_2 h => rw [h, Option.bind_some]
  case h_3 h => simp only [h, Option.bind_some]

theorem points?_zero : r.points? data bit 0 = some [] :=
  points?_eq_next? 0

/-- With one pixel more to come there is one point more, if the pixel is of the sort asked for. -/
theorem points?_succ (k : Nat) : r.points? data bit (k + 1) =
    (r.bitAt? data (r.nth k)).bind fun b =>
      if b = bit then (r.points? data bit k).map ((r.nth k).point :: ·)
      else r.points? data bit k := by
  rw [points?_eq_next?, next?_succ, Option.bind_assoc]
  congr 1
  funext b
  split
  case isTrue => rfl
  case isFalse =>
      -- the search goes on by itself, just as the next question would have it go on
      exact (points?_eq_next? k).symm

/-- The pixels with numbers below `n`, the last first. -/
def pixels (r : Resolution) (n : Nat) : List Pixel :=
  (List.range n).reverse.map r.nth

theorem pixels_succ (n : Nat) : r.pixels (n + 1) = r.nth n :: r.pixels n := by
  rw [pixels, List.range_succ, List.reverse_append, List.reverse_singleton, List.singleton_append]
  rfl

/-- Where every pixel has its bit, the points are those of the pixels with the bit asked for,
the last first. -/
theorem points?_eq (bits : Pixel → UInt8) (n : Nat)
    (h : ∀ k < n, r.bitAt? data (r.nth k) = some (bits (r.nth k))) :
    r.points? data bit n = some (((r.pixels n).filter fun p => bits p = bit).map Pixel.point) := by
  induction n with
  | zero => exact points?_zero
  | succ n ih =>
      rw [points?_succ, h n (Nat.lt_succ_self n), Option.bind_some,
        ih fun k hk => h k (Nat.lt_succ_of_lt hk), pixels_succ, List.filter_cons]
      simp only [decide_eq_true_eq, Option.map_some]
      split <;> rfl

/-! ## Pixels and numbers -/

theorem number_nth (k : Nat) : (r.nth k).2 * r.width + (r.nth k).1 = k :=
  Nat.div_add_mod' k r.width

theorem nth_number {x y : Nat} (hx : x < r.width) : r.nth (y * r.width + x) = (x, y) := by
  have hrow : (y * r.width + x) / r.width = y := by
    rw [Nat.mul_comm, Nat.mul_add_div (Nat.zero_lt_of_lt hx), Nat.div_eq_of_lt hx, Nat.add_zero]
  exact congrArg₂ Prod.mk (Nat.mul_add_mod_of_lt hx) hrow

theorem nth_lt {k : Nat} (hk : k < r.width * r.height) :
    (r.nth k).1 < r.width ∧ (r.nth k).2 < r.height :=
  ⟨Nat.mod_lt _ (Nat.pos_of_mul_pos_right (Nat.zero_lt_of_lt hk)), Nat.div_lt_of_lt_mul hk⟩

theorem mem_pixels {x y : Nat} :
    (x, y) ∈ r.pixels (r.width * r.height) ↔ x < r.width ∧ y < r.height := by
  rw [pixels, List.mem_map]
  constructor
  · rintro ⟨k, hk, hxy⟩
    have hlt := r.nth_lt (List.mem_range.mp (List.mem_reverse.mp hk))
    rw [hxy] at hlt
    exact hlt
  · rintro ⟨hx, hy⟩
    refine ⟨y * r.width + x, List.mem_reverse.mpr (List.mem_range.mpr ?_), r.nth_number hx⟩
    have hrows : (y + 1) * r.width ≤ r.height * r.width := Nat.mul_le_mul_right _ hy
    rw [Nat.succ_mul] at hrows
    rw [Nat.mul_comm r.width]
    omega

theorem pairwise_pixels (n : Nat) : (r.pixels n).Pairwise fun p q =>
    q.2 * r.width + q.1 < p.2 * r.width + p.1 := by
  refine List.pairwise_map.mpr (List.pairwise_reverse.mpr ?_)
  refine List.pairwise_lt_range.imp fun {k l} hlt => ?_
  rw [number_nth, number_nth]
  exact hlt

theorem nodup_pixels (n : Nat) : (r.pixels n).Nodup :=
  (r.pairwise_pixels n).imp fun hlt heq => by
    rw [heq] at hlt
    exact Nat.lt_irrefl _ hlt

end Resolution

/-- A column and a row, counted downwards from zero. -/
def Pixel.exact : Pixel → Int × Int
  | (x, y) => ((x : Int), -(y : Int))

theorem Pixel.exact_injective : Function.Injective Pixel.exact := by
  rintro ⟨x, y⟩ ⟨x', y'⟩ h
  obtain ⟨hx, hy⟩ := Prod.mk.inj h
  exact congrArg₂ Prod.mk (Int.ofNat_inj.mp hx) (Int.ofNat_inj.mp (Int.neg_inj.mp hy))

namespace Screen

variable (s : Screen)

/-! ## Bits and pixels -/

theorem one_and_shifted (b : UInt8) (c : Nat) :
    1 &&& (b >>> UInt8.ofNat (7 - c % 8)) = if bit b c then 1 else 0 := by
  have hshift : (UInt8.ofNat (7 - c % 8)).toNat % 8 = 7 - c % 8 := by
    rw [UInt8.toNat_ofNat']
    omega
  apply UInt8.toNat_inj.mp
  rw [UInt8.toNat_and, UInt8.toNat_shiftRight, hshift, bit_eq_testBit, Nat.testBit]
  show 1 &&& b.toNat >>> (7 - c % 8) = _
  rw [Nat.one_and_eq_mod_two]
  rcases Nat.mod_two_eq_zero_or_one (b.toNat >>> (7 - c % 8)) with h | h
  · rw [h]
    rfl
  · rw [h]
    rfl

theorem bitAt?_resolution {p : Pixel} (hp : p.1 < s.width ∧ p.2 < s.height) :
    s.resolution.bitAt? s.buffer p = some (if s.pixel p.1 p.2 then 1 else 0) := by
  obtain ⟨x, y⟩ := p
  have hplace : s.resolution.place (x, y) < s.buffer.size := s.index_lt hp
  rw [Resolution.bitAt?, Array.getElem?_eq_getElem hplace, Option.map_some, ← s.byte_eq hplace,
    s.pixel_of_lt hp.1 hp.2]
  exact congrArg some (one_and_shifted _ _)

/-- The pixels that are on, or off, the last first. -/
def sort (on : Bool) : List Pixel :=
  (s.resolution.pixels (s.width * s.height)).filter fun p => s.pixel p.1 p.2 = on

theorem plane?_eq (hcount : s.width * s.height < wordLimit) (on : Bool) :
    s.plane? (if on then 1 else 0) = some ((s.sort on).map Pixel.point) := by
  have hpixels : s.resolution.pixelCount? = some (s.width * s.height) := if_pos hcount
  rw [plane?, Resolution.plane?, hpixels]
  show s.resolution.points? _ _ (s.resolution.width * s.resolution.height) = _
  rw [Resolution.points?_eq (fun p => if s.pixel p.1 p.2 then 1 else 0) _
    fun k hk => s.bitAt?_resolution (s.resolution.nth_lt hk)]
  refine congrArg (fun pixels => some (List.map Pixel.point pixels)) ?_
  refine List.filter_congr fun p _ => ?_
  cases s.pixel p.1 p.2 <;> cases on <;> rfl

theorem mem_sort {on : Bool} {x y : Nat} :
    (x, y) ∈ s.sort on ↔ (x < s.width ∧ y < s.height) ∧ s.pixel x y = on := by
  rw [sort, List.mem_filter, decide_eq_true_iff]
  exact and_congr_left' s.resolution.mem_pixels

theorem mem_sorts {x y : Nat} :
    (x, y) ∈ s.sort false ++ s.sort true ↔ x < s.width ∧ y < s.height := by
  rw [List.mem_append, mem_sort, mem_sort, ← and_or_left]
  exact and_iff_left (Bool.eq_false_or_eq_true _).symm

theorem nodup_sorts : (s.sort false ++ s.sort true).Nodup := by
  have hall := s.resolution.nodup_pixels (s.width * s.height)
  refine (hall.filter _).append (hall.filter _) fun p hoff hon => ?_
  have hpixel := (s.mem_sort.mp hoff).2
  rw [(s.mem_sort.mp hon).2] at hpixel
  exact Bool.noConfusion hpixel

theorem mem_sort_true {x y : Nat} : (x, y) ∈ s.sort true ↔ s.pixel x y = true := by
  refine s.mem_sort.trans (and_iff_right_of_imp fun hpixel => ?_)
  by_contra hoff
  rw [pixel_off s hoff] at hpixel
  exact Bool.noConfusion hpixel

theorem pairwise_sort (on : Bool) : (s.sort on).Pairwise fun p q =>
    q.2 * s.width + q.1 < p.2 * s.width + p.1 :=
  (s.resolution.pairwise_pixels _).filter _

/-! ## Points -/

/-- The columns and the rows of all pixels are numbers that the host keeps apart. -/
def Precise : Prop :=
  s.width * s.height = 0 ∨ (s.width ≤ 2 ^ 53 + 1 ∧ s.height ≤ 2 ^ 53 + 1)

theorem point_of_precise (hs : s.Precise) {x y : Nat} (hx : x < s.width) (hy : y < s.height) :
    Pixel.point (x, y) = Pixel.exact (x, y) := by
  obtain hnone | ⟨hw, hh⟩ := hs
  · exact absurd hnone (Nat.mul_ne_zero (Nat.ne_zero_of_lt hx) (Nat.ne_zero_of_lt hy))
  · have hcolumn : BinaryFraction.rounded x = x :=
      BinaryFraction.rounded_of_le (Nat.le_of_lt_succ (Nat.lt_of_lt_of_le hx hw))
    have hrow : BinaryFraction.rounded y = y :=
      BinaryFraction.rounded_of_le (Nat.le_of_lt_succ (Nat.lt_of_lt_of_le hy hh))
    exact congrArg₂ (fun m n : Nat => ((m : Int), -(n : Int))) hcolumn hrow

/-- Where no two pixels have one point, there is neither a column nor a row of which the host
makes another. -/
theorem precise_of_nodup (h : ((s.sort false ++ s.sort true).map Pixel.point).Nodup) :
    s.Precise := by
  have hinj : ∀ p ∈ s.sort false ++ s.sort true, ∀ q ∈ s.sort false ++ s.sort true,
      p.point = q.point → p = q := fun p hp q hq => List.inj_on_of_nodup_map h hp hq
  have hcollision := BinaryFraction.rounded_collision
  by_contra himprecise
  obtain ⟨hpixels, hlarge⟩ := not_or.mp himprecise
  have hw : 0 < s.width := Nat.pos_of_ne_zero fun hw => hpixels (by rw [hw, Nat.zero_mul])
  have hh : 0 < s.height := Nat.pos_of_ne_zero fun hh => hpixels (by rw [hh, Nat.mul_zero])
  rcases not_and_or.mp hlarge with hwide | hhigh
  · have hlast : 2 ^ 53 + 1 < s.width := Nat.lt_of_not_le hwide
    have hsame := hinj (2 ^ 53 + 1, 0) (s.mem_sorts.mpr ⟨hlast, hh⟩) (2 ^ 53, 0)
      (s.mem_sorts.mpr ⟨Nat.lt_of_succ_lt hlast, hh⟩)
      (congrArg (fun n : Nat => ((n : Int), (0 : Int))) hcollision)
    exact Nat.succ_ne_self _ (Prod.mk.inj hsame).1
  · have hlast : 2 ^ 53 + 1 < s.height := Nat.lt_of_not_le hhigh
    have hsame := hinj (0, 2 ^ 53 + 1) (s.mem_sorts.mpr ⟨hw, hlast⟩) (0, 2 ^ 53)
      (s.mem_sorts.mpr ⟨hw, Nat.lt_of_succ_lt hlast⟩)
      (congrArg (fun n : Nat => ((0 : Int), -(n : Int))) hcollision)
    exact Nat.succ_ne_self _ (Prod.mk.inj hsame).2

/-- Two lists of points share out a screen: each pixel's point is in them once, rows counted
downwards from zero, and no other point; the second list has those of the pixels that are on; and
in both the numbers of the pixels fall from each point to all that follow. -/
structure SharedOut (off on : List (Int × Int)) : Prop where
  once : (off ++ on).Nodup
  all : ∀ p, p ∈ off ++ on ↔
    ∃ x y : Nat, x < s.width ∧ y < s.height ∧ p = ((x : Int), -(y : Int))
  lit : ∀ x y : Nat, ((x : Int), -(y : Int)) ∈ on ↔ s.pixel x y = true
  falling : ∀ plane ∈ [off, on], plane.Pairwise fun p q : Int × Int =>
    -q.2 * s.width + q.1 < -p.2 * s.width + p.1

theorem sharedOut_exact : s.SharedOut ((s.sort false).map Pixel.exact) ((s.sort true).map Pixel.exact) where
  once := by
    rw [← List.map_append]
    exact s.nodup_sorts.map Pixel.exact_injective
  all := fun p => by
    rw [← List.map_append, List.mem_map]
    constructor
    · rintro ⟨⟨x, y⟩, hxy, rfl⟩
      obtain ⟨hx, hy⟩ := s.mem_sorts.mp hxy
      exact ⟨x, y, hx, hy, rfl⟩
    · rintro ⟨x, y, hx, hy, rfl⟩
      exact ⟨(x, y), s.mem_sorts.mpr ⟨hx, hy⟩, rfl⟩
  lit := fun x y => by
    rw [← s.mem_sort_true, ← List.mem_map_of_injective Pixel.exact_injective]
    rfl
  falling := by
    have hfalling (on : Bool) : ((s.sort on).map Pixel.exact).Pairwise fun p q : Int × Int =>
        -q.2 * s.width + q.1 < -p.2 * s.width + p.1 := by
      refine List.pairwise_map.mpr ((s.pairwise_sort on).imp fun {p q} hlt => ?_)
      show -(-(q.2 : Int)) * s.width + q.1 < -(-(p.2 : Int)) * s.width + p.1
      rw [Int.neg_neg, Int.neg_neg]
      exact_mod_cast hlt
    intro plane hplane
    rcases List.mem_pair.mp hplane with rfl | rfl
    · exact hfalling false
    · exact hfalling true

/-! ## The planes -/

end Screen

end ChipEight
