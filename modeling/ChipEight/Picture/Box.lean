import ChipEight.Screen

/-!
# The box on a terminal

On a terminal the screen is drawn in a box with a plain border and a title, in
the top left corner, a cell for each pixel as long as there is room. The box
takes two cells more than the screen in both directions and is cut to the
terminal; a screen that does not fit is squeezed: each pixel goes to the cell
that lies as far, in proportion, from the top left corner, and a pixel that is
on wins over those that are off in the same cell. A squeezed or stretched
picture needs two pixels to take its measure from, so a screen with a single
row or column leaves the box empty.

Sizes on a terminal are 16-bit words: the size of the screen is taken modulo
2¹⁶, and a box that is too wide or too high for a word cannot be drawn, nor can
one without a cell inside its border. An area holds at most 65535 cells; a larger
one is made smaller in proportion.
-/

namespace ChipEight.Box

/-- The colours of a cell. -/
inductive Color
  | plain | black | white
deriving DecidableEq, Repr

/-- A cell of the terminal. -/
structure Cell where
  glyph : Char
  fore : Color
  back : Color
deriving DecidableEq, Repr

/-- A cell nothing was drawn in. -/
def Cell.untouched : Cell :=
  { glyph := ' ', fore := .plain, back := .plain }

/-! ## Sizes -/

/-- The most cells of an area. -/
def maxCells : Nat := 65535

/-- An area cut down to the most cells that one may hold, in proportion. -/
def fitted (cols rows : Nat) : Nat × Nat :=
  if cols * rows ≤ maxCells then (cols, rows)
  else
    let aspect := Float.ofNat cols / Float.ofNat rows
    let height := (Float.ofNat maxCells / aspect).sqrt
    ((height * aspect).toUInt16.toNat, height.toUInt16.toNat)

/-- Two more than a size on the screen, as a word. -/
def framed? (size : Nat) : Option Nat :=
  let n := size % 65536 + 2
  if n < 65536 then some n else none

/-- The part of a box that a terminal has room for, if there is a cell inside
its border. -/
def cut? (box terminal : Nat × Nat) : Option (Nat × Nat) :=
  let w := min box.1 terminal.1
  let h := min box.2 terminal.2
  if 2 < w ∧ 2 < h then some (w, h) else none

/-- The size of the box for a screen on a terminal. -/
def size? (s : Screen) (cols rows : Nat) : Option (Nat × Nat) := do
  cut? (fitted (← framed? s.width) (← framed? s.height)) (fitted cols rows)

/-! ## The picture inside -/

/-- The cell, of `cells`, that a pixel, of `pixels`, goes to. -/
def cellOf (pixels cells pixel : Nat) : Nat :=
  pixel * (cells - 1) / (pixels - 1)

/-- The first of `pixels` that goes to a cell or to one behind it. -/
def firstOf (pixels cells cell : Nat) : Nat :=
  if cell = 0 then 0
  else if cells ≤ 1 then pixels
  else min pixels ((cell * (pixels - 1) + (cells - 2)) / (cells - 1))

/-- The pixels that go to a cell. -/
def pixelsOf (pixels cells cell : Nat) : List Nat :=
  let first := firstOf pixels cells cell
  List.range' first (firstOf pixels cells (cell + 1) - first)

/-- What the pixels of a cell show: nothing if there are none, else whether one
of them is on. -/
def inside? (s : Screen) (w h x y : Nat) : Option Bool :=
  if s.width ≤ 1 ∨ s.height ≤ 1 then none
  else
    let xs := pixelsOf s.width w x
    let ys := pixelsOf s.height h y
    if xs.isEmpty || ys.isEmpty then none
    else some (ys.any fun py => xs.any fun px => s.pixel px py)

/-- A cell inside the border. -/
def insideCell (s : Screen) (w h x y : Nat) : Cell :=
  match inside? s w h x y with
  | some true => { glyph := '▄', fore := .white, back := .plain }
  | some false => { glyph := '▄', fore := .black, back := .plain }
  | none => { glyph := ' ', fore := .plain, back := .black }

/-- How many cells show a pixel that is on, of a screen on a terminal. -/
def lit? (s : Screen) (cols rows : Nat) : Option Nat := do
  let (w, h) ← size? s cols rows
  let isLit (y x : Nat) : Bool := inside? s (w - 2) (h - 2) x y == some true
  let litIn (y : Nat) : Nat := (List.range (w - 2)).countP (isLit y)
  some ((List.range (h - 2)).foldl (fun count y => count + litIn y) 0)

/-! ## The border -/

/-- The title on the top line. -/
def title : List Char := "CHIP-8".toList

/-- The character of the title at a column of a box of width `w`: it starts at
column 1 and leaves the last column free. -/
def titleChar? (w x y : Nat) : Option Char :=
  if y = 0 ∧ 1 ≤ x ∧ x + 1 < w then title[x - 1]? else none

/-- The border of a box of `w` by `h` cells. -/
def borderChar (w h x y : Nat) : Char :=
  if x = 0 ∧ y = 0 then '┌'
  else if x = 0 ∧ y + 1 = h then '└'
  else if x + 1 = w ∧ y = 0 then '┐'
  else if x + 1 = w ∧ y + 1 = h then '┘'
  else if y = 0 ∨ y + 1 = h then '─'
  else '│'

/-- Whether a cell of the box is inside its border. -/
def isInside (w h x y : Nat) : Bool :=
  1 ≤ x && x + 1 < w && 1 ≤ y && y + 1 < h

/-! ## The whole terminal -/

/-- A cell of a terminal on which a box of `w` by `h` cells was drawn. -/
def cell (s : Screen) (w h x y : Nat) : Cell :=
  if w ≤ x ∨ h ≤ y then .untouched
  else if isInside w h x y then insideCell s (w - 2) (h - 2) (x - 1) (y - 1)
  else
    { glyph := (titleChar? w x y).getD (borderChar w h x y), fore := .plain, back := .black }

/-- The cells of a terminal by rows. -/
abbrev Cells := List (List Cell)

/-- A terminal on which nothing was drawn. -/
def empty (cols rows : Nat) : Cells :=
  List.replicate rows (List.replicate cols .untouched)

/-- The cells of a picture on a terminal of another size: what has no room is cut
off, what is missing is untouched. -/
def fill (cols rows : Nat) (picture : Cells) : Cells :=
  let row (cells : List Cell) := (cells ++ List.replicate cols Cell.untouched).take cols
  ((picture ++ List.replicate rows []).take rows).map row

/-- A terminal on which a screen was drawn. -/
def draw? (s : Screen) (cols rows : Nat) : Option Cells := do
  let (w, h) ← size? s cols rows
  some ((List.range rows).map fun y => (List.range cols).map fun x => cell s w h x y)

end ChipEight.Box
