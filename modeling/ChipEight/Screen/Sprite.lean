import ChipEight.Screen

/-!
# Sprites

A sprite is a column of bytes, each a row of eight pixels with the leftmost in
the highest bit. Drawing turns over the pixels under its set bits and tells
whether one of them was on before.

There are two ways to draw. `draw` cuts off what lies past the right or the
bottom edge; it works a byte at a time, on one byte of the buffer or, between
two, on both. `drawWrapped` first brings the place onto the screen and lets
each pixel come in again on the other side; it works a pixel at a time, and on
a small screen may turn over the same pixel more than once.
-/

namespace ChipEight.Screen

/-! ## Cut off at the edges -/

/-- Turns over the pixels of one byte under the set bits. -/
def flipByte (s : Screen) (i : Nat) (bits : UInt8) (h : i < s.buffer.size) : Screen × Bool :=
  (s.setByte i (s.buffer[i] ^^^ bits) h, s.buffer[i] &&& bits != 0)

/-- The bits of a row at column `x` that are left of the right edge. -/
def clip (width x : Nat) : UInt8 :=
  0xff <<< UInt8.ofNat (8 - min (width - x) 8)

/-- Turns over the pixels under one row of a sprite. A row between two bytes of
the buffer is split; past the last byte of the row there is nothing to do, since
only cut off bits would go there. -/
def drawRow (s : Screen) (x y : Nat) (row : UInt8) : Screen × Bool :=
  if h : x < s.width ∧ y < s.height then
    let bits := row &&& clip s.width x
    let shift := UInt8.ofNat (x % 8)
    let left := s.flipByte (s.index x y) (bits >>> shift) (s.index_lt h)
    if hr : 0 < x % 8 ∧ x / 8 + 1 < rowBytes s.width then
      let right := left.1.flipByte (s.index x y + 1) (bits <<< (8 - shift))
        (left.1.place_lt (c := x / 8 + 1) hr.2 h.2)
      (right.1, left.2 || right.2)
    else left
  else (s, false)

/-- Draws the rows of a sprite below each other, the first at row `y`. There is
no answer when a row has no number. -/
def drawRows? (x : Nat) : Nat → List UInt8 → Screen → Option (Screen × Bool)
  | _, [], s => some (s, false)
  | y, row :: rest, s =>
    if y < wordLimit then do
      let (s, hit) := s.drawRow x y row
      let (s, more) ← drawRows? x (y + 1) rest s
      some (s, hit || more)
    else none

/-- Draws a sprite with its top left corner at a pixel, cut off at the right
and the bottom edge, and tells whether a pixel went out. -/
def draw? (s : Screen) (x y : Nat) (sprite : List UInt8) : Option (Screen × Bool) :=
  if x < s.width then drawRows? x y sprite s else some (s, false)

/-! ## Wrapped around the edges -/

/-- The columns of the set bits of a row, from the left. -/
def columns (row : UInt8) : List Nat :=
  (List.range 8).filter fun c => row &&& mask c != 0

/-- The pixels under a sprite on a screen without edges, row by row. -/
def wrappedPixels (width height x y : Nat) (sprite : List UInt8) : List (Nat × Nat) :=
  sprite.zipIdx.flatMap fun (row, r) =>
    (columns row).map fun c => ((x + c) % width, (y + r) % height)

/-- Turns over the pixels of a list one after the other, and tells whether one
went out. -/
def flipAll (s : Screen) : List (Nat × Nat) → Screen × Bool
  | [] => (s, false)
  | (x, y) :: rest =>
    let lit := s.pixel x y
    let (s, more) := (s.set x y (!lit)).flipAll rest
    (s, lit || more)

/-- Draws a sprite on a screen whose opposite edges meet. Where nothing sticks
out it can be drawn a byte at a time. A screen without pixels has no place to
draw at, and there is no answer when the far corner of the sprite has no
number. -/
def drawWrapped? (s : Screen) (x y : Nat) (sprite : List UInt8) : Option (Screen × Bool) :=
  if s.width = 0 ∨ s.height = 0 then none
  else
    let x := x % s.width
    let y := y % s.height
    if wordLimit ≤ x + 8 ∨ wordLimit ≤ y + sprite.length then none
    else if x + 8 ≤ s.width ∧ y + sprite.length ≤ s.height then s.draw? x y sprite
    else some (s.flipAll (wrappedPixels s.width s.height x y sprite))

end ChipEight.Screen
