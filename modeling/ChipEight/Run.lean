import ChipEight.Machine.Frame
import ChipEight.Picture

/-!
# Runs

A run makes frames and shows the screen after each, until a limit is reached,
the user asks to leave, or something fails. Each round looks at the limit, then
asks whether to leave, then makes a frame, then shows it, and only then counts a
tick; a frame that failed is not shown, and the effects of one that could not be
shown stay.

Nothing here depends on real time. What comes from outside in the course of a
run, the wish to leave and the keypad's answers, is given as a function of how
many times it was asked. A run may go on for ever, so it is made with a bound on
its rounds, and one that is not over by then is still `going`.
-/

namespace ChipEight

/-- What comes from outside in the course of a run. -/
structure Surroundings where
  /-- Whether the user asks to leave, by the number of the question. -/
  quit : Nat → Bool
  /-- The keypad, by the number of the frame. -/
  keys : Nat → Keypad
  /-- Whether anyone listens to what the machine notes. -/
  listening : Bool := true

/-- The surroundings once `n` questions and `n` frames have gone by. -/
def Surroundings.later (a : Surroundings) (n : Nat) : Surroundings :=
  { a with quit := fun i => a.quit (n + i), keys := fun i => a.keys (n + i) }

/-- How far a run has come, and how it ended if it failed. -/
structure Progress (σ : Type) where
  machine : Machine
  /-- What the screens are shown on. -/
  view : σ
  ticks : Nat := 0
  polls : Nat := 0
  fault : Option Fault := none
  notes : Array Note := #[]
  tones : Array Tone := #[]

/-- A run after a round. -/
inductive Round (σ : Type)
  | going (p : Progress σ)
  | ended (p : Progress σ)

namespace Run

variable {σ : Type}

/-- How far a run has come, over or not. -/
def progress : Round σ → Progress σ
  | .going p | .ended p => p

/-- A run after a frame was made, with what the frame left behind. -/
def afterFrame (p : Progress σ) (t : Turn) : Progress σ :=
  { p with machine := t.machine, notes := p.notes ++ t.notes, tones := p.tones ++ t.tones }

/-- Shows the screen of a run and counts the tick. There is no answer when the
count does not fit its word. -/
def showFrame? (view : Viewer σ) (p : Progress σ) : Option (Round σ) := do
  let (fault, v) ← view p.view p.machine.screen
  match fault with
  | none =>
    if p.ticks + 1 < wordLimit then some (.going { p with view := v, ticks := p.ticks + 1 })
    else none
  | some f => some (.ended { p with view := v, fault := some f })

/-- Makes a frame and shows it. -/
def makeFrame? (view : Viewer σ) (keys : Keypad) (listening : Bool) (p : Progress σ) :
    Option (Round σ) := do
  let t ← p.machine.frame? keys listening
  match t.fault with
  | some f => some (.ended { afterFrame p t with fault := some f })
  | none => showFrame? view (afterFrame p t)

/-- One round. -/
def round? (view : Viewer σ) (around : Surroundings) (limit : Option Nat) (p : Progress σ) :
    Option (Round σ) :=
  if limit.any (· ≤ p.ticks) then some (.ended p)
  else if around.quit p.polls then
    some (.ended { p with polls := p.polls + 1, notes := p.notes.push (.quit p.ticks) })
  else makeFrame? view (around.keys p.ticks) around.listening { p with polls := p.polls + 1 }

/-- At most `n` rounds. -/
def rounds? (view : Viewer σ) (around : Surroundings) (limit : Option Nat) :
    Nat → Progress σ → Option (Round σ)
  | 0, p => some (.going p)
  | n + 1, p =>
    match round? view around limit p with
    | some (.going p) => rounds? view around limit n p
    | ended => ended

/-- At most `n` rounds, until something holds of the run. A run that breaks down is
left as it was before that round. -/
def roundsUntil (holds : Progress σ → Bool) (view : Viewer σ) (around : Surroundings)
    (limit : Option Nat) : Nat → Progress σ → Except (Progress σ) (Round σ)
  | 0, p => .ok (.going p)
  | n + 1, p =>
    if holds p then .ok (.going p)
    else match round? view around limit p with
      | some (.going p) => roundsUntil holds view around limit n p
      | some ended => .ok ended
      | none => .error p

/-- A run of a machine of at most `bound` rounds. A run keeps a pace, so there
has to be one. -/
def run? (view : Viewer σ) (around : Surroundings) (limit : Option Nat) (bound : Nat)
    (m : Machine) (v : σ) : Option (Round σ) := do
  let _ ← m.settings.tickInterval?
  rounds? view around limit bound { machine := m, view := v }

/-- Rounds enough for a run with a limit; without one, more than anyone will
wait for. -/
def boundFor : Option Nat → Nat
  | some limit => limit + 1
  | none => wordLimit

end Run

end ChipEight
