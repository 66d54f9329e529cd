import ChipEight.Flow
import ChipEight.Keypad
import ChipEight.Note
import ChipEight.Settings

/-!
# Keys from a stream of bytes

A file or a device can stand in for the keyboard: each byte is a key of the
layout, and the bytes of escape and of control-c ask to leave. The stream is
read in slices, and every byte of a slice counts as pressed when the slice
came. Bytes that belong to no key are noted, and so is the end of the stream.
-/

namespace ChipEight

/-- A keyboard as far as its bytes were read. -/
structure ByteKeys where
  keys : TimedKeys
  quit : Bool
deriving DecidableEq

namespace ByteKeys

/-- How many bytes one read has room for. -/
def room : Nat := 64

/-- Nothing read yet. -/
def new? (s : Settings) : Option ByteKeys :=
  (TimedKeys.new? s.keys s.autoRelease).map fun keys => { keys, quit := false }

/-- Whether a byte asks to leave: escape, or control-c. -/
def asksToQuit (b : UInt8) : Bool :=
  b == 0x1b || b == 0x03

/-- The effect of one byte that came at a time. -/
def byte (now : Nat) (k : ByteKeys) (b : UInt8) : ByteKeys :=
  if asksToQuit b then { k with quit := true }
  else match Layout.keyOfByte? b with
    | some key => { k with keys := k.keys.press key now }
    | none => k

/-- The effect of a slice. -/
def slice (now : Nat) (k : ByteKeys) (b : List UInt8) : ByteKeys :=
  b.foldl (byte now) k

/-- The keyboard after a source was read to its end, slice number `i` having
come at the time `clock i`. -/
def readSource (clock : Nat → Nat) (k : ByteKeys) (source : Source) : ByteKeys :=
  (source.readAll room (by decide)).1.zipIdx.foldl (fun k (b, i) => k.slice (clock i) b) k

/-- A keyboard of some settings on which a source was read to its end. -/
def ofSource? (s : Settings) (clock : Nat → Nat) (source : Source) : Option ByteKeys :=
  (new? s).map fun k => k.readSource clock source

/-- The answers at a time. -/
def keypad (k : ByteKeys) (now : Nat) : Keypad :=
  k.keys.keypad now

/-! ## What is noted -/

/-- The note about a byte that means nothing. -/
def note? (b : UInt8) : Option Note :=
  if asksToQuit b || (Layout.keyOfByte? b).isSome then none
  else some (.unmapped (Layout.lowerByte b))

/-- The note about the end of a stream. -/
def endNote : Source.End → Note
  | .clean => .keysEnded
  | .failed text => .keysFailed text

/-- Everything noted while a source was read to its end. -/
def notes (source : Source) : List Note :=
  let (slices, ending) := source.readAll room (by decide)
  slices.flatten.filterMap note? ++ [endNote ending]

end ByteKeys

end ChipEight
