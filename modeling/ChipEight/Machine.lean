import ChipEight.Dice
import ChipEight.Note
import ChipEight.Ram
import ChipEight.Screen
import ChipEight.Settings
import ChipEight.Tone

/-!
# The machine

Everything a running program can change: memory, the screen, sixteen byte
registers, an index for memory, the program counter, a stack of sixteen return
addresses, two timers, and the dice. With it stand the settings it was built
with, which nothing changes. Register 15 takes the flags.

The keypad and the tone are not part of the machine. The keypad's answers come
in with each step, the calls for the tone go out with each tick.
-/

namespace ChipEight

/-- A machine between two steps. -/
structure Machine where
  settings : Settings
  ram : Ram
  screen : Screen
  registers : Vector UInt8 16
  index : UInt16
  pc : UInt16
  stack : Vector UInt16 16
  /-- How many entries of the stack are in use. -/
  depth : Nat
  delay : UInt8
  sound : UInt8
  dice : Dice
deriving DecidableEq

/-- What an operation on the machine comes to: the machine it leaves, the fault
if it failed, what it noted and the calls it made for the tone. -/
structure Turn where
  machine : Machine
  fault : Option Fault := none
  notes : Array Note := #[]
  tones : Array Tone := #[]

namespace Machine

/-! ## Building -/

/-- The fault of a screen that has not the size of the settings. -/
def sizeFault (s : Settings) (screen : Screen) : Fault :=
  .invalidSettings ("display is " ++ Digits.decimal screen.width ++ "x" ++
    Digits.decimal screen.height ++ " but the machine is configured for " ++
    Digits.decimal s.width ++ "x" ++ Digits.decimal s.height)

/-- A new machine with nothing loaded. The screen is wiped. The dice start at
the seed; without one they are those that chance gave. -/
def build (s : Settings) (chance : Dice) (screen : Screen) : Except Fault Machine :=
  match s.check with
  | some f => .error f
  | none =>
    if (screen.width, screen.height) ≠ (s.width, s.height) then .error (sizeFault s screen)
    else .ok {
      settings := s
      ram := Ram.fresh
      screen := screen.clear
      registers := Vector.replicate 16 0
      index := 0
      pc := Ram.programStart
      stack := Vector.replicate 16 0
      depth := 0
      delay := 0
      sound := 0
      dice := match s.seed with
        | some n => Dice.ofSeed n
        | none => chance }

/-! ## Registers -/

/-- The register that takes the flags. -/
def flagRegister : Fin 16 := ⟨15, by decide⟩

/-- The register with a number, if there is one. -/
def register? (m : Machine) (x : UInt8) : Option UInt8 :=
  m.registers[x.toNat]?

/-- The machine with one register replaced, if there is such a register. -/
def setRegister? (m : Machine) (x value : UInt8) : Option Machine :=
  if h : x.toNat < 16 then some { m with registers := m.registers.set x.toNat value } else none

/-- The machine with the flag set or cleared. -/
def setFlag (m : Machine) (flag : Bool) : Machine :=
  { m with registers := m.registers.set flagRegister (if flag then 1 else 0) }

/-- Replaces a register and then the flag, so that the flag is what remains
when they are the same. -/
def setFlagged? (m : Machine) (x value : UInt8) (flag : Bool) : Option Machine :=
  (m.setRegister? x value).map fun m => m.setFlag flag

end Machine

end ChipEight
