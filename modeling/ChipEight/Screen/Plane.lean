import ChipEight.Screen

/-!
# Planes

The pixels of a screen, sorted into those that are on and those that are off.
A plane is the list of the points of one sort, from the bottom right corner
backwards; a point has its row counted downwards from zero, as a drawing with
the vertical axis upwards wants it.

Who draws a plane asks for one point after the other. All that is kept from one
question to the next is how many pixels are still to come; the search goes on
from there, past the pixels of the other sort. It works on the packed bytes,
and knows of the screen only how they lie (`Resolution`): a bit is taken out of
its byte by shifting it down to the lowest place. A byte outside the buffer ends
the search without an answer.

The coordinates of a point are binary fractions of the host. They are whole, so
each is given by its value here; a zero has no sign. Beyond 2⁵³ not every column
and row has a value of its own.
-/

namespace ChipEight

/-- A column and a row. -/
abbrev Pixel := Nat × Nat

/-- The point of a pixel, in coordinates as the host keeps them: rows go down from
zero. -/
def Pixel.point : Pixel → Int × Int
  | (x, y) => ((BinaryFraction.rounded x : Nat), -(BinaryFraction.rounded y : Nat))

/-- How packed bytes lie on a screen. -/
structure Resolution where
  width : Nat
  height : Nat
  rowBytes : Nat
deriving DecidableEq, Repr

/-- How the bytes of a screen lie. -/
def Screen.resolution (s : Screen) : Resolution :=
  { width := s.width, height := s.height, rowBytes := rowBytes s.width }

namespace Resolution

/-- How many pixels there are, if that is a word of the host. -/
def pixelCount? (r : Resolution) : Option Nat :=
  checked? (r.width * r.height)

/-- The pixel with a number; pixels are numbered by rows from the top left corner. -/
def nth (r : Resolution) (k : Nat) : Pixel :=
  (k % r.width, k / r.width)

/-- The byte of a pixel. -/
def place (r : Resolution) : Pixel → Nat
  | (x, y) => y * r.rowBytes + x / 8

/-- The bit of a pixel, shifted down to the lowest place. -/
def bitAt? (r : Resolution) (data : Array UInt8) : Pixel → Option UInt8
  | (x, y) => data[r.place (x, y)]?.map fun (b : UInt8) => 1 &&& (b >>> UInt8.ofNat (7 - x % 8))

/-- The next point whose bit is the one asked for, when so many pixels are to come,
and how many are to come after it. There may be none. -/
def next? (r : Resolution) (data : Array UInt8) (bit : UInt8) :
    Nat → Option (Option (Int × Int) × Nat)
  | 0 => some (none, 0)
  | k + 1 => do
    let p := r.nth k
    if (← r.bitAt? data p) = bit then some (some p.point, k) else r.next? data bit k

theorem next?_succ (r : Resolution) (data : Array UInt8) (bit : UInt8) (k : Nat) :
    r.next? data bit (k + 1) = (r.bitAt? data (r.nth k)).bind fun b =>
      if b = bit then some (some (r.nth k).point, k) else r.next? data bit k := rfl

theorem lt_of_next? {r : Resolution} {data : Array UInt8} {bit : UInt8} {p : Int × Int} :
    ∀ {n left : Nat}, r.next? data bit n = some (some p, left) → left < n
  | 0, _, h => by simp [next?] at h
  | k + 1, left, h => by
      rw [next?_succ] at h
      obtain ⟨b, -, h⟩ := Option.bind_eq_some_iff.mp h
      split at h
      case isTrue =>
          obtain ⟨-, rfl⟩ := Prod.mk.inj (Option.some.inj h)
          exact Nat.lt_succ_self k
      case isFalse => exact Nat.lt_succ_of_lt (lt_of_next? h)

/-- All points that are to come, each asked for after the other. -/
def points? (r : Resolution) (data : Array UInt8) (bit : UInt8) (n : Nat) :
    Option (List (Int × Int)) :=
  match h : r.next? data bit n with
  | none => none
  | some (none, _) => some []
  | some (some p, left) =>
    have := lt_of_next? h
    (r.points? data bit left).map (p :: ·)
termination_by n

/-- The points of all pixels whose bit is the one asked for, from the last pixel to
the first. -/
def plane? (r : Resolution) (data : Array UInt8) (bit : UInt8) : Option (List (Int × Int)) := do
  r.points? data bit (← r.pixelCount?)

end Resolution

/-- The points of the pixels that are on, for the bit 1, or off, for the bit 0. -/
def Screen.plane? (s : Screen) (bit : UInt8) : Option (List (Int × Int)) :=
  s.resolution.plane? s.buffer bit

end ChipEight
