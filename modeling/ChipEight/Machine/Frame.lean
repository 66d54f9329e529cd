import ChipEight.Flow
import ChipEight.Machine.Step

/-!
# Loads and frames

Loading copies a program into memory and sets the program counter to its start.
Whether anything else changes is a setting: a machine may keep its state, or
start afresh with everything but the dice as in a new machine. A program that is
too long leaves the machine as it was, and so does a source that fails before
its end, however much it delivered.

A tick counts both timers down to zero and then calls for the tone, on while the
sound timer runs and off when it does not. A frame is as many steps as the
settings say and one tick; when a step fails, the frame ends there, without its
tick.

The notes of many steps are many, so they are gathered only for someone who
listens. Nothing else depends on that.
-/

namespace ChipEight

/-! ## Loading -/

namespace Machine

/-- The machine as it was built, but for the dice. -/
def restart (m : Machine) : Machine :=
  { m with
    ram := Ram.fresh
    screen := m.screen.clear
    registers := Vector.replicate 16 0
    index := 0
    stack := Vector.replicate 16 0
    depth := 0
    delay := 0
    sound := 0 }

/-- Loads a program. -/
def load (m : Machine) (rom : Array UInt8) : Turn :=
  let base := if m.settings.resetOnLoad then m.restart else m
  match base.ram.loadProgram rom with
  | .ok ram =>
    { machine := { base with ram, pc := Ram.programStart }, notes := #[.loaded rom.size] }
  | .error f => { machine := m, fault := some f }

/-- How many bytes one read of a program has room for. -/
def loadRoom : Nat := 32

/-- Loads a program from a source that is read to its end. -/
def loadFrom (m : Machine) (source : Source) : Turn :=
  match source.readAll loadRoom (by decide) with
  | (slices, .clean) => m.load slices.flatten.toArray
  | (_, .failed text) => { machine := m, fault := some (.io (.other text)) }

end Machine

/-! ## Ticks and frames -/

namespace Turn

/-- Goes on after a turn that went well; after a failure nothing more happens. -/
def continue? (t : Turn) (f : Machine → Option Turn) : Option Turn :=
  match t with
  | ⟨m, none, notes, tones⟩ => (f m).map fun u =>
    { u with notes := notes ++ u.notes, tones := tones ++ u.tones }
  | failed => some failed

/-- The turn as it is for someone who listens to notes, or does not. -/
def heard (listening : Bool) (t : Turn) : Turn :=
  if listening then t else { t with notes := #[] }

end Turn

namespace Machine

/-- A timer one tick later. -/
def countDown (t : UInt8) : UInt8 :=
  if t = 0 then 0 else t - 1

/-- One tick of the timers. -/
def tick (m : Machine) : Turn :=
  let m := { m with delay := countDown m.delay, sound := countDown m.sound }
  { machine := m, tones := #[Tone.ofTimer m.sound] }

/-- Goes on after a turn with `n` steps more; nothing is looked at after one
that failed. -/
def stepsAfter? (keys : Keypad) (listening : Bool) : Nat → Turn → Option Turn
  | 0, t => some t
  | n + 1, t =>
    if t.fault.isSome then some t
    else match t.continue? fun m => (m.step? keys).map (Turn.heard listening) with
      | some t => stepsAfter? keys listening n t
      | none => none

/-- `n` steps, until one fails. -/
def steps? (m : Machine) (keys : Keypad) (n : Nat) (listening : Bool := true) : Option Turn :=
  stepsAfter? keys listening n (.done m)

/-- One frame: the steps of a tick, and the tick. -/
def frame? (m : Machine) (keys : Keypad) (listening : Bool := true) : Option Turn := do
  (← m.steps? keys m.settings.cyclesPerTick listening).continue? fun m => some m.tick

end Machine

end ChipEight
