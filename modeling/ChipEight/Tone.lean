/-!
# The tone

The machine has one tone of a fixed pitch, which is on or off. After every tick
of the timers the machine says which of the two it should be, also when nothing
changes. What hears these calls is a device: `Meter` counts them, `Beeper` is a
beeper that was never switched on, `Player` is the side of a sound stream that
takes the calls.
-/

namespace ChipEight

/-- What the machine says after a tick. -/
inductive Tone
  | on | off
deriving DecidableEq, Repr

/-- The call for a sound timer: on while it runs. -/
def Tone.ofTimer (t : UInt8) : Tone :=
  if 0 < t then .on else .off

/-- A device that counts the calls. -/
structure Meter where
  enabled : Bool := false
  enables : Nat := 0
  disables : Nat := 0
deriving DecidableEq, Repr

namespace Meter

/-- The meter after a call. -/
def hear (m : Meter) : Tone → Meter
  | .on => { m with enabled := true, enables := m.enables + 1 }
  | .off => { m with enabled := false, disables := m.disables + 1 }

/-- The meter after some calls. -/
def hearAll (m : Meter) (calls : List Tone) : Meter :=
  calls.foldl hear m

end Meter

/-- A beeper that does not sound unless it was switched on. -/
structure Beeper where
  sounding : Bool := false
deriving DecidableEq, Repr

/-- A beeper that is switched off. -/
def Beeper.silence (_ : Beeper) : Beeper :=
  { sounding := false }

/-- The side of a sound stream that takes the calls. It opens or closes the
stream's gate only when something changes. -/
structure Player where
  playing : Bool := false
deriving DecidableEq, Repr

namespace Player

/-- The player after a call. -/
def hear (_ : Player) : Tone → Player
  | .on => { playing := true }
  | .off => { playing := false }

/-- Whether a call opens or closes the gate. -/
def turns (p : Player) : Tone → Bool
  | .on => !p.playing
  | .off => p.playing

end Player

end ChipEight
