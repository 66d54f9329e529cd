import ChipEight.Fault
import ChipEight.Flow
import ChipEight.Screen

/-!
# Pictures

A screen as lines of text, two rows of pixels a line: a character's upper half
shows the pixel of the even row and its lower half that of the odd row below.
Below the last row of a screen of odd height nothing is on. `halves?` reads a
character back.

Something that shows screens is a state and what showing a screen does to it:
it may succeed or fail, and it never touches the screen. A screen that it has no
way to show at all has no answer.

Four are here. One only counts. Another writes each screen as half-block text
to a sink, a frame after the other; a frame may start by moving the cursor to the
top left corner, and its lines end with carriage return and line feed, since a
terminal in raw mode does not return the carriage by itself. The third keeps such
frames apart from each other. The last stands for a place that takes nothing.
-/

namespace ChipEight

/-! ## Half-block text -/

namespace HalfBlock

/-- The character for an upper and a lower pixel. -/
def glyph : Bool → Bool → Char
  | true, true => '█'
  | true, false => '▀'
  | false, true => '▄'
  | false, false => ' '

/-- The upper and the lower pixel of a character. -/
def halves? (c : Char) : Option (Bool × Bool) :=
  if c = '█' then some (true, true)
  else if c = '▀' then some (true, false)
  else if c = '▄' then some (false, true)
  else if c = ' ' then some (false, false)
  else none

theorem halves?_glyph (upper lower : Bool) : halves? (glyph upper lower) = some (upper, lower) := by
  cases upper <;> cases lower <;> rfl

/-- How many lines a screen takes. -/
def lineCount (height : Nat) : Nat :=
  (height + 1) / 2

/-- The characters of a line. -/
def lineChars (s : Screen) (line : Nat) : List Char :=
  (List.range s.width).map fun x => glyph (s.pixel x (2 * line)) (s.pixel x (2 * line + 1))

/-- The lines of a screen, from the top. -/
def lines (s : Screen) : List String :=
  (List.range (lineCount s.height)).map fun line => String.ofList (lineChars s line)

end HalfBlock

/-! ## Showing screens -/

/-- Showing a screen: the fault, if there was one, and the state afterwards. -/
abbrev Viewer (σ : Type) := σ → Screen → Option (Option Fault × σ)

namespace Viewer

/-- Counts the screens it is shown. -/
def counting : Viewer Nat := fun n _ => some (none, n + 1)

/-- The text of one frame. -/
def frameText (home : Bool) (s : Screen) : String :=
  (if home then "\x1b[H" else "") ++ String.join ((HalfBlock.lines s).map (· ++ "\r\n"))

/-- The bytes of a text. -/
def encoded (text : String) : List UInt8 :=
  text.toUTF8.data.toList

/-- The bytes of one frame. -/
def frame (home : Bool) (s : Screen) : List UInt8 :=
  encoded (frameText home s)

/-- Writes each screen to a sink as a frame. -/
def writing (home : Bool) : Viewer Sink := fun sink s =>
  match sink.writeFlush (frame home s) with
  | (none, sink) => some (none, sink)
  | (some text, sink) => some (some (.io (.other text)), sink)

/-- Keeps each screen as a frame. -/
def collecting : Viewer (Array (List UInt8)) := fun frames s =>
  some (none, frames.push (frame false s))

/-- Shows nothing, for a reason. -/
def refusing (t : Trouble) : Viewer Unit := fun _ _ => some (some (.io t), ())

end Viewer

end ChipEight
