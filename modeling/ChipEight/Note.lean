import ChipEight.Instr.Listing

/-!
# Notes

The machine and its devices note what happens to them. A note is a value with
the numbers it is about; its level, its topic and its wording are functions of
it, so that nothing in the machine depends on how much of it is shown.
-/

namespace ChipEight

/-- How much a note matters, the gravest first. -/
inductive Level
  | error | warn | info | debug | trace
deriving DecidableEq, Repr

namespace Level

/-- A level's place, the gravest being 1. -/
def rank : Level → Nat
  | error => 1
  | warn => 2
  | info => 3
  | debug => 4
  | trace => 5

/-- A level's name in front of a note. -/
def name : Level → String
  | error => "ERROR"
  | warn => "WARN"
  | info => "INFO"
  | debug => "DEBUG"
  | trace => "TRACE"

end Level

/-- The least grave level that is still shown, or nothing at all. -/
abbrev Threshold := Option Level

namespace Threshold

/-- Whether notes of a level are shown. -/
def shows (t : Threshold) (l : Level) : Bool :=
  match t with
  | none => false
  | some least => decide (l.rank ≤ least.rank)

/-- The names of thresholds, read without regard to case. -/
def read? (s : String) : Option Threshold :=
  match s.toLower with
  | "off" => some none
  | "error" => some (some .error)
  | "warn" => some (some .warn)
  | "info" => some (some .info)
  | "debug" => some (some .debug)
  | "trace" => some (some .trace)
  | _ => none

end Threshold

/-- Something worth noting. -/
inductive Note
  /-- A program of `size` bytes was loaded. -/
  | loaded (size : Nat)
  /-- An instruction is about to be executed. -/
  | executing (pc opcode : UInt16) (instr : Instr)
  /-- An opcode without meaning was passed over. -/
  | ignoring (pc opcode : UInt16)
  /-- An instruction waits for a key. -/
  | waiting (pc : UInt16)
  /-- A byte that belongs to no key, in lower case. -/
  | unmapped (byte : UInt8)
  | keysEnded
  | keysFailed (text : String)
  /-- The user asked to leave after that many ticks. -/
  | quit (ticks : Nat)
  | toneFailed (text : String)
  | toneStopped
deriving DecidableEq, Repr

namespace Note

open Digits

def level : Note → Level
  | loaded _ | quit _ => .info
  | executing .. | waiting _ => .trace
  | ignoring .. | unmapped _ | keysEnded | toneStopped => .debug
  | keysFailed _ | toneFailed _ => .warn

/-- The part of the program a note comes from. -/
def topic : Note → String
  | loaded _ | executing .. | ignoring .. | waiting _ => "chip8::interpreter"
  | unmapped _ | keysEnded | keysFailed _ => "chip8::input"
  | quit _ => "chip8::driver"
  | toneFailed _ | toneStopped => "chip8::sound"

/-- The wording of a note. -/
def text : Note → String
  | loaded size => "Loaded ROM [size: " ++ decimal size ++ "]"
  | executing pc opcode i =>
    "0x" ++ hex 3 pc.toNat ++ ": " ++ hex 4 opcode.toNat ++ "  " ++ i.text
  | ignoring pc opcode =>
    "0x" ++ hex 3 pc.toNat ++ ": ignoring undefined opcode " ++ hex 4 opcode.toNat
  | waiting pc => "0x" ++ hex 3 pc.toNat ++ ": waiting for a key"
  | unmapped byte => "can't map byte 0x" ++ hex 2 byte.toNat ++ " to a COSMAC key"
  | keysEnded => "key input ended"
  | keysFailed text => "key input failed: " ++ text
  | quit ticks => "quit requested after " ++ decimal ticks ++ " ticks"
  | toneFailed text => "PCM output failed, continuing without sound: " ++ text
  | toneStopped => "PCM streamer stopped"

/-- A note on a line of its own. -/
def line (n : Note) : String :=
  n.level.name ++ " " ++ n.topic ++ ": " ++ n.text

/-- The lines of the notes that a threshold shows, in order. -/
def shown (t : Threshold) (notes : List Note) : List String :=
  (notes.filter fun n => t.shows n.level).map line

end Note

end ChipEight
