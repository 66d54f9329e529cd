import ChipEight.Fault

/-!
# Settings

Everything a user can choose about a machine. The numbers are natural numbers;
those that count pixels, keys or milliseconds are understood to be below 2⁶⁴,
the rates below 2³² and the pitch below 2¹⁶, which whoever reads them checks.

`check` says which settings make a machine. It looks at each number alone: in
particular it does not ask whether a screen of the chosen size can be held.
-/

namespace ChipEight

/-- What a user can choose. -/
structure Settings where
  width : Nat := 64
  height : Nat := 32
  /-- How many keys the keypad has. -/
  keys : Nat := 16
  /-- Instructions per tick of the timers: about 700 a second. -/
  cyclesPerTick : Nat := 700 / 60
  /-- Ticks per second. -/
  tickRate : Nat := 60
  /-- Frequency of the tone: a C. -/
  tonePitch : Nat := 2093
  /-- Samples per second of the tone. -/
  sampleRate : Nat := 44100
  /-- Milliseconds a key stays held after a press. -/
  autoReleaseMs : Nat := 30
  /-- Whether loading a program starts the machine afresh. -/
  resetOnLoad : Bool := false
  /-- Where the random stream starts; no seed leaves that to chance. -/
  seed : Option UInt64 := none
deriving DecidableEq, Repr

namespace Settings

/-- What is wrong with settings that make no machine. -/
inductive Flaw
  | emptyScreen (width height : Nat)
  | keypadSize (keys : Nat)
  | noCycles
  | noTicks
  | noTone (sampleRate pitch : Nat)
deriving DecidableEq, Repr

namespace Flaw

open Digits in
/-- The wording of a flaw. -/
def text : Flaw → String
  | emptyScreen w h => "display must be at least 1x1, got " ++ decimal w ++ "x" ++ decimal h
  | keypadSize n => "keypad size must be 1..=256, got " ++ decimal n
  | noCycles => "cycles per tick must be nonzero"
  | noTicks => "tick rate must be nonzero"
  | noTone rate pitch =>
    "sample rate and pitch must be nonzero, got " ++ decimal rate ++ "Hz and " ++
      decimal pitch ++ "Hz"

end Flaw

/-- The first flaw, in the order screen, keypad, cycles, ticks, tone. -/
def flaw? (s : Settings) : Option Flaw :=
  if s.width = 0 ∨ s.height = 0 then some (.emptyScreen s.width s.height)
  else if s.keys = 0 ∨ 256 < s.keys then some (.keypadSize s.keys)
  else if s.cyclesPerTick = 0 then some .noCycles
  else if s.tickRate = 0 then some .noTicks
  else if s.sampleRate = 0 ∨ s.tonePitch = 0 then some (.noTone s.sampleRate s.tonePitch)
  else none

/-- The fault of settings that make no machine. -/
def check (s : Settings) : Option Fault :=
  s.flaw?.map fun f => .invalidSettings f.text

/-- Settings are free of flaws exactly when every bound is kept. -/
theorem flaw?_eq_none_iff (s : Settings) :
    s.flaw? = none ↔ 0 < s.width ∧ 0 < s.height ∧ 0 < s.keys ∧ s.keys ≤ 256 ∧
      0 < s.cyclesPerTick ∧ 0 < s.tickRate ∧ 0 < s.sampleRate ∧ 0 < s.tonePitch := by
  unfold flaw?
  repeat' split
  all_goals simp_all
  all_goals omega

/-! ## Spans of time

A span is a number of nanoseconds; it is shown as whole seconds and the rest. -/

/-- Nanoseconds in a second. -/
def second : Nat := 1000000000

/-- A span as seconds and nanoseconds. -/
def split (nanos : Nat) : Nat × Nat :=
  (nanos / second, nanos % second)

/-- The span from tick to tick, to the nanosecond below; there is none at rate
zero. -/
def tickInterval? (s : Settings) : Option Nat :=
  if s.tickRate = 0 then none else some (second / s.tickRate)

/-- How long a key stays held after a press. -/
def autoRelease (s : Settings) : Nat :=
  s.autoReleaseMs * 1000000

/-! ## Diagnostic form -/

open Digits in
/-- Every setting by name, in a fixed order. -/
def diagnostic (s : Settings) : String :=
  let bool (b : Bool) := if b then "true" else "false"
  let seed := match s.seed with
    | none => "None"
    | some n => "Some(" ++ decimal n.toNat ++ ")"
  let entries : List (String × String) :=
    [("width", decimal s.width), ("height", decimal s.height), ("keys", decimal s.keys),
     ("cycles_per_tick", decimal s.cyclesPerTick), ("tick_rate_hz", decimal s.tickRate),
     ("tone_pitch", decimal s.tonePitch), ("sample_rate", decimal s.sampleRate),
     ("auto_release_ms", decimal s.autoReleaseMs), ("reset_on_load", bool s.resetOnLoad),
     ("seed", seed)]
  "Config \x7b " ++ ", ".intercalate (entries.map fun e => e.1 ++ ": " ++ e.2) ++ " \x7d"

end Settings

end ChipEight
