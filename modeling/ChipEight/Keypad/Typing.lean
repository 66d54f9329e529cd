import ChipEight.Keypad
import ChipEight.Keypad.Report
import ChipEight.Settings

/-!
# Keys typed on a terminal

A terminal sends bytes, and a key may be one byte, a character of several, or a
sequence that starts with escape. The bytes are collected until they make an
event or cannot make one any more; both empty the collection. Escape is the
start of a sequence only if more bytes came with it.

Of all events only two kinds matter here. The escape key, and control with `c`,
ask to leave. Any other character is looked up in the layout, whichever of
control and alt were held with it. Cursor keys, function keys and whatever else a
sequence may mean do nothing, so sequences are followed only as far as is needed
to see where they end. A report of the cursor or the mouse does nothing either,
unless it tells of a coordinate of zero: then the keyboard breaks down, and
neither what arrived with the report nor anything typed later counts.
-/

namespace ChipEight.Typing

/-- What a collection of bytes has come to. -/
inductive Event
  | escape
  /-- A character, perhaps with control. -/
  | char (c : Char) (control : Bool)
  /-- A key, a report or bytes that do not matter. -/
  | other
  /-- A report that breaks the keyboard. -/
  | breakdown
deriving DecidableEq, Repr

/-! ## Characters of several bytes -/

/-- How many bytes a character has that starts with a byte. -/
def charLength? (first : UInt8) : Option Nat :=
  if first < 0x80 then some 1
  else if 0xc0 ≤ first ∧ first ≤ 0xdf then some 2
  else if 0xe0 ≤ first ∧ first ≤ 0xef then some 3
  else if 0xf0 ≤ first ∧ first ≤ 0xf7 then some 4
  else none

/-- Whether a byte continues a character. -/
def continues (b : UInt8) : Bool :=
  b &&& 0xc0 == 0x80

/-- A character from its bytes, if they are the one way to write it. -/
def char? (b : List UInt8) : Option Char :=
  match String.fromUTF8? (ByteArray.mk b.toArray) with
  | some s => s.toList.head?
  | none => none

/-- The event of a collection that starts with a character's byte, or nothing
yet. -/
def charEvent? (first : UInt8) (rest : List UInt8) : Option Event :=
  match char? (first :: rest) with
  | some c => some (.char c false)
  | none =>
    match charLength? first with
    | none => some .other
    | some n => if rest.all continues && decide (rest.length + 1 < n) then none else some .other

/-! ## One key -/

/-- The event of a collection that does not start with escape. Control with a
letter sends the letter's place in the alphabet; tab, return and backspace have
keys of their own. -/
def plainEvent? (first : UInt8) (rest : List UInt8) : Option Event :=
  let shifted (base from_ : Nat) : Option Event :=
    some (.char (Char.ofNat (base + (first.toNat - from_))) true)
  if first = 0x0d ∨ first = 0x09 ∨ first = 0x7f then some .other
  else if first = 0x00 then some (.char ' ' true)
  else if first ≤ 0x1a then shifted 'a'.toNat 0x01
  else if 0x1c ≤ first ∧ first ≤ 0x1f then shifted '4'.toNat 0x1c
  else charEvent? first rest

/-! ## Sequences that start with escape -/

/-- The event of a report. -/
def ofReport : Except Report.Flaw Unit → Event
  | .error .zeroCoordinate => .breakdown
  | .error .malformed | .ok () => .other

/-- The event of a sequence that started with escape and `[` and goes on with a
digit: it ends with the first byte from `@` to `~`, which tells the reports from
the keys. -/
def numbered? (first : UInt8) (rest : List UInt8) : Option Event :=
  match rest.getLast? with
  | none => none
  | some last =>
    let numbers := first :: rest.dropLast
    if last < 0x40 ∨ 0x7e < last then none
    else if last = 0x4d then some (ofReport (Report.mouseRaised numbers))
    else if last = 0x52 then some (ofReport (Report.cursor numbers))
    else some .other

/-- The event of a sequence that started with escape and `[`, from the bytes
after these two. -/
def sequence? : List UInt8 → Option Event
  | [] => none
  | first :: rest =>
    if first = 0x5b then if rest.isEmpty then none else some .other
    else if first = 0x4d then
      match rest with
      | code :: x :: y :: _ => some (ofReport (Report.mouseBytes code x y))
      | _ => none
    else if first = 0x3c then
      match rest.getLast? with
      | some last =>
        if last = 0x6d ∨ last = 0x4d then some (ofReport (Report.mouse rest.dropLast)) else none
      | none => none
    else if 0x30 ≤ first ∧ first ≤ 0x39 then numbered? first rest
    else some .other

/-- The event of a collection that starts with escape; `more` says whether
further bytes came with it. -/
def escapeEvent? (rest : List UInt8) (more : Bool) : Option Event :=
  match rest with
  | [] => if more then none else some .escape
  | second :: rest =>
    if second = 0x1b then some .escape
    else if second = 0x4f then if rest.isEmpty then none else some .other
    else if second = 0x5b then sequence? rest
    else plainEvent? second rest

/-- The event that a collection of bytes makes, or nothing yet. -/
def event? (b : List UInt8) (more : Bool) : Option Event :=
  match b with
  | [] => none
  | first :: rest => if first = 0x1b then escapeEvent? rest more else plainEvent? first rest

/-! ## What is typed -/

/-- A terminal's keyboard: the keys, the wish to leave, the bytes that make no
event yet, and whether it has broken down. -/
structure Keyboard where
  keys : TimedKeys
  quit : Bool := false
  pending : List UInt8 := []
  broken : Bool := false
deriving DecidableEq

namespace Keyboard

/-- Nothing typed yet. -/
def new? (s : Settings) : Option Keyboard :=
  (TimedKeys.new? s.keys s.autoRelease).map fun keys => { keys }

/-- The effect of an event at a time; a breakdown has none that one could go on
from. -/
def heed? (now : Nat) (k : Keyboard) : Event → Option Keyboard
  | .escape => some { k with quit := true }
  | .char c control =>
    if control ∧ c = 'c' then some { k with quit := true }
    else match Layout.key? c with
      | some key => some { k with keys := k.keys.press key now }
      | none => some k
  | .other => some k
  | .breakdown => none

/-- The effect of one more byte. -/
def byte? (now : Nat) (k : Keyboard) (b : UInt8) (more : Bool) : Option Keyboard :=
  let pending := k.pending ++ [b]
  match event? pending more with
  | none => some { k with pending }
  | some e => (k.heed? now e).map fun k => { k with pending := [] }

/-- The effect of bytes one after the other; `more` says whether further bytes
come with the last of them. -/
def bytes? (now : Nat) (more : Bool) (k : Keyboard) : List UInt8 → Option Keyboard
  | [] => some k
  | b :: rest => do bytes? now more (← k.byte? now b (more || !rest.isEmpty)) rest

/-- How many bytes arrive at once at most. As many at once let expect more. -/
def room : Nat := 1204

/-- The effect of bytes that arrive at once. If the keyboard breaks down over
them, none of them has an effect. -/
def arrived (now : Nat) (k : Keyboard) (b : List UInt8) : Keyboard :=
  if k.broken then k
  else (k.bytes? now (b.length == room) b).getD { k with broken := true }

/-- The effect of bytes that were typed together. -/
def typed (now : Nat) (k : Keyboard) (b : List UInt8) : Keyboard :=
  if b.length ≤ room then k.arrived now b
  else typed now (k.arrived now (b.take room)) (b.drop room)
termination_by b.length
decreasing_by
  rw [List.length_drop]
  simp only [room] at *
  omega

/-- The answers at a time. -/
def keypad (k : Keyboard) (now : Nat) : Keypad :=
  k.keys.keypad now

end Keyboard

end ChipEight.Typing
