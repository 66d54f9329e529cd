import ChipEight.Keypad.Typing
import ChipEight.Picture.Box
import ChipEight.Run

/-!
# A visit at the terminal

A terminal shows the box and has a keyboard. A visit is what a user does there:
type some bytes, or change the size of the window. Before each of these the user
waits for a picture: one with so many lit cells, drawn at the present size of the
window, or just any frame. They do it at once when they see it, so a run that is
over before leaves it undone.

A key pressed in a visit stays held or is never held: the span for which a press
counts is looked at once, at the press.
-/

namespace ChipEight

/-- A terminal's window and what it shows: the screen last drawn, with the size
that the window had. -/
structure Window where
  cols : Nat
  rows : Nat
  drawn : Option (Screen × Nat × Nat) := none
deriving DecidableEq

namespace Window

/-- Draws each screen in the box. -/
def drawing : Viewer Window := fun w s =>
  (Box.size? s w.cols w.rows).map fun _ => (none, { w with drawn := some (s, w.cols, w.rows) })

/-- The window with another size; what was drawn stays. -/
def resize (cols rows : Nat) (w : Window) : Window :=
  { w with cols, rows }

/-- The cells of the window. A picture drawn at another size stays where it was. -/
def cells (w : Window) : Box.Cells :=
  let drawn := w.drawn.bind fun (s, cols, rows) => Box.draw? s cols rows
  Box.fill w.cols w.rows (drawn.getD [])

/-- How many cells are lit in a picture of the present size, if there is one. -/
def lit? (w : Window) : Option Nat :=
  match w.drawn with
  | some (s, cols, rows) => if cols = w.cols ∧ rows = w.rows then Box.lit? s cols rows else none
  | none => none

end Window

/-- What a run is shown on, as a user meets it: how it takes a screen, what a
change of the window does to it, and how many lit cells the user can see there. -/
structure Stage (σ : Type) where
  view : Viewer σ
  resize : Nat → Nat → σ → σ
  lit? : σ → Option Nat

namespace Stage

/-- The window of a terminal. -/
def window : Stage Window :=
  { view := Window.drawing, resize := Window.resize, lit? := Window.lit? }

/-- Somewhere away from the terminal, where the user sees nothing and no window
matters. -/
def elsewhere {σ : Type} (view : Viewer σ) : Stage σ :=
  { view, resize := fun _ _ v => v, lit? := fun _ => none }

end Stage

namespace Visit

/-- Something a user does. -/
inductive Deed
  | type (bytes : List UInt8)
  | resize (cols rows : Nat)
deriving DecidableEq, Repr

/-- Something a user does, and how many lit cells they wait for before they do
it; without a number any frame will do. -/
structure Act where
  lit : Option Nat := none
  deed : Deed
deriving DecidableEq, Repr

/-- The surroundings of a run while the keyboard is left alone. -/
def alone (k : Typing.Keyboard) : Surroundings :=
  { quit := fun _ => k.quit, keys := fun _ => k.keypad 0, listening := false }

variable {σ : Type}

/-- Whether the user sees what they wait for. -/
def isTime (stage : Stage σ) (lit : Option Nat) (p : Progress σ) : Bool :=
  match lit with
  | some n => stage.lit? p.view == some n
  | none => decide (0 < p.ticks)

/-- A run on a terminal while a user does one thing after the other; in the end
the run is left alone. Between two deeds it makes at most `bound` rounds. -/
def run (stage : Stage σ) (limit : Option Nat) (bound : Nat) :
    List Act → Typing.Keyboard → Progress σ → Except (Progress σ) (Round σ)
  | [], k, p => Run.roundsUntil (fun _ => false) stage.view (alone k) limit bound p
  | act :: rest, k, p =>
    match Run.roundsUntil (isTime stage act.lit) stage.view (alone k) limit bound p with
    | .ok (.going q) =>
      match act.deed with
      | .type bytes => run stage limit bound rest (k.typed 0 bytes) q
      | .resize cols rows =>
        run stage limit bound rest k { q with view := stage.resize cols rows q.view }
    | r => r

end Visit

end ChipEight
