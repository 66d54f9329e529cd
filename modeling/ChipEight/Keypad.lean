import ChipEight.Host

/-!
# The keypad

All that the machine asks of a keypad: whether a key is held and which held key
has the lowest number. A keypad is given by its answers, and two kinds of it
differ in how a key comes up again.

By hand a key stays down until it is let go. Such a keypad is a list of keys.
Keys that are down at the start may stand in it twice; letting go takes every
copy out.

A terminal tells when a key is pressed, and again while it repeats, but not
when it is let go. So a key counts as held for a fixed span after its last
press. Times are nanoseconds from some start; a question about a time before
the press finds the key held as at the press itself, if the span is not empty.

The keys are the left half of a typewriter's, laid out like the keypad:

    1 2 3 C      1 2 3 4
    4 5 6 D      q w e r
    7 8 9 E      a s d f
    A 0 B F      z x c v
-/

namespace ChipEight

/-- The answers of a keypad at one moment. -/
structure Keypad where
  held : UInt8 → Bool
  lowest : Option UInt8

namespace Keypad

/-- Every key number there can be, in order. -/
def allKeys : List UInt8 :=
  (List.range 256).map UInt8.ofNat

/-- A keypad nobody touches. -/
def untouched : Keypad :=
  { held := fun _ => false, lowest := none }

/-- The held keys in order. -/
def heldKeys (k : Keypad) : List UInt8 :=
  allKeys.filter k.held

end Keypad

/-! ## Keys that are let go by hand -/

/-- The keys that are down. -/
structure ManualKeys where
  down : List UInt8
deriving DecidableEq, Repr

namespace ManualKeys

/-- A key goes down; one that is down stays as it is. -/
def press (k : ManualKeys) (key : UInt8) : ManualKeys :=
  if key ∈ k.down then k else { down := k.down ++ [key] }

/-- A key comes up. -/
def release (k : ManualKeys) (key : UInt8) : ManualKeys :=
  { down := k.down.filter (· ≠ key) }

/-- The answers of the keypad. -/
def keypad (k : ManualKeys) : Keypad :=
  { held := fun key => decide (key ∈ k.down), lowest := k.down.min? }

end ManualKeys

/-! ## Keys that are let go by themselves -/

/-- A keypad of `keys` keys with the time of each key's last press. Keys
numbered `keys` and above do not exist: they are never pressed. -/
structure TimedKeys where
  keys : Nat
  /-- How long a key counts as held. -/
  span : Nat
  lastPress : Vector (Option Nat) 256
deriving DecidableEq

namespace TimedKeys

/-- How many bytes the host keeps for each key. -/
def slotBytes : Nat := 16

/-- A keypad nobody has touched, if the host has room for all its keys. -/
def new? (keys span : Nat) : Option TimedKeys :=
  if slotBytes * keys < bufferLimit then
    some { keys, span, lastPress := Vector.replicate 256 none }
  else none

/-- The slot of a key. -/
def slot (key : UInt8) : Fin 256 :=
  ⟨key.toNat, key.toNat_lt⟩

/-- A key is pressed at a time; a key off the keypad is passed over. -/
def press (k : TimedKeys) (key : UInt8) (now : Nat) : TimedKeys :=
  if key.toNat < k.keys then { k with lastPress := k.lastPress.set (slot key) (some now) } else k

/-- A key is let go. -/
def release (k : TimedKeys) (key : UInt8) : TimedKeys :=
  if key.toNat < k.keys then { k with lastPress := k.lastPress.set (slot key) none } else k

/-- Whether a key counts as held. -/
def isHeld (k : TimedKeys) (key : UInt8) (now : Nat) : Bool :=
  match k.lastPress[slot key] with
  | some at_ => decide (now - at_ < k.span)
  | none => false

/-- The held key that a search through the keypad's numbers meets first. A number
is cut down to a byte, so that on a keypad with more keys than a byte can name the
search comes round to the same keys again. -/
def firstHeld (k : TimedKeys) (now : Nat) : Option UInt8 :=
  ((List.range k.keys).map UInt8.ofNat).find? fun key => k.isHeld key now

/-- The answers at a time. -/
def keypad (k : TimedKeys) (now : Nat) : Keypad :=
  { held := fun key => k.isHeld key now, lowest := k.firstHeld now }

/-- What can happen to a key. -/
inductive Event
  | press (key : UInt8) (time : Nat)
  | release (key : UInt8)
deriving DecidableEq, Repr

/-- A keypad after one event. -/
def apply (k : TimedKeys) : Event → TimedKeys
  | .press key time => k.press key time
  | .release key => k.release key

end TimedKeys

/-! ## The layout -/

namespace Layout

/-- Each character of the layout with its key. -/
def table : List (Char × UInt8) :=
  [('x', 0x0), ('1', 0x1), ('2', 0x2), ('3', 0x3),
   ('q', 0x4), ('w', 0x5), ('e', 0x6), ('a', 0x7),
   ('s', 0x8), ('d', 0x9), ('z', 0xa), ('c', 0xb),
   ('4', 0xc), ('r', 0xd), ('f', 0xe), ('v', 0xf)]

/-- The key of a character, if it has one; letters count in either case. -/
def key? (c : Char) : Option UInt8 :=
  table.lookup c.toLower

/-- An ASCII byte in lower case; other bytes stay. -/
def lowerByte (b : UInt8) : UInt8 :=
  if 0x41 ≤ b ∧ b ≤ 0x5a then b + 0x20 else b

/-- The key of a byte, if it has one. -/
def keyOfByte? (b : UInt8) : Option UInt8 :=
  table.lookup (Char.ofNat (lowerByte b).toNat)

end Layout

end ChipEight
