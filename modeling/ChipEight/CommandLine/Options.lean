import ChipEight.Host
import ChipEight.Note
import ChipEight.Settings
import ChipEight.Text.Number

/-!
# Options

The words of a command line, read from left to right. A word is a long option
(`--width`, with its value behind `=` or in the next word), a cluster of short
ones (`-md`, the last of which may have its value in the same word, behind `=` or
not, or in the next), or `--`, behind which nothing may follow. A value in a word
of its own does not start with a dash, unless it is a dash alone. No option
comes twice, and nothing is left over.

Every value is read as soon as it is seen. Asking for help or for the version
ends the reading at once; so a mistake further left counts and one further right
does not.
-/

namespace ChipEight.CommandLine

/-- The options there are. -/
inductive Switch
  | rom | width | height | keys | cycles | pitch | autoRelease | resetOnLoad | seed
  | sampleRate | mute | audioOut | screenOut | input | headless | maxTicks | disassemble
  | logLevel | help | version
deriving DecidableEq, Repr

namespace Switch

/-- Every option with its long name and, if it has one, its short name. -/
def table : List (Switch × String × Option Char) :=
  [(rom, "rom", some 'r'), (width, "width", none), (height, "height", none),
   (keys, "keys", none), (cycles, "cycles", some 'c'), (pitch, "pitch", none),
   (autoRelease, "auto-release", none), (resetOnLoad, "reset-on-load", none),
   (seed, "seed", none), (sampleRate, "sample-rate", none), (mute, "mute", some 'm'),
   (audioOut, "audio-out", some 'a'), (screenOut, "screen-out", some 'o'),
   (input, "input", some 'i'), (headless, "headless", none), (maxTicks, "max-ticks", none),
   (disassemble, "disassemble", some 'd'), (logLevel, "log-level", none),
   (help, "help", some 'h'), (version, "version", some 'V')]

/-- The option with a long name. -/
def ofLong? (name : String) : Option Switch :=
  (table.find? fun e => e.2.1 == name).map Prod.fst

/-- The option with a short name. -/
def ofShort? (c : Char) : Option Switch :=
  (table.find? fun e => e.2.2 == some c).map Prod.fst

/-- What an option is followed by. -/
inductive Form
  /-- Nothing. -/
  | flag
  | path
  /-- A number without sign below 2⁶⁴. -/
  | natural
  /-- A number up to a bound, read as a signed word first. -/
  | small (max : Nat)
  | threshold
deriving DecidableEq, Repr

/-- The form of each option. -/
def form : Switch → Form
  | rom | audioOut | screenOut | input => .path
  | width | height | keys | autoRelease | seed | maxTicks => .natural
  | cycles | sampleRate => .small 4294967295
  | pitch => .small 65535
  | logLevel => .threshold
  | resetOnLoad | mute | headless | disassemble | help | version => .flag

end Switch

/-! ## Values -/

/-- The value of an option. -/
inductive Value
  | present
  | path (p : String)
  | number (n : Nat)
  | threshold (t : Threshold)
deriving DecidableEq, Repr

/-- The value that a text gives an option of some form. -/
def value? (form : Switch.Form) (text : String) : Option Value :=
  match form with
  | .flag => none
  | .path => if text.isEmpty then none else some (.path text)
  | .natural => (Numeral.below? wordLimit text.toList).map .number
  | .small max => do
    let n ← Numeral.integer? text.toList
    if 0 ≤ n ∧ n ≤ max then some (.number n.toNat) else none
  | .threshold => (Threshold.read? text).map .threshold

/-! ## Words -/

/-- The options given so far, each with its value. -/
abbrev Given := List (Switch × Value)

/-- What the words come to. -/
inductive Reading
  /-- Options, all words read. -/
  | options (g : Given)
  /-- A question to be answered instead of running anything. -/
  | help
  | version
  /-- Words that cannot be read. -/
  | refused
deriving DecidableEq, Repr

/-- What is known after one word: the reading is over, or it goes on, perhaps
with an option that waits for its value. -/
inductive Pending
  | ended (r : Reading)
  | ready (g : Given)
  | waiting (s : Switch) (g : Given)
deriving DecidableEq, Repr

/-- Adds an option with its value, unless it was given before. -/
def give (g : Given) (s : Switch) (v : Value) : Pending :=
  if g.any fun e => e.1 = s then .ended .refused else .ready (g ++ [(s, v)])

/-- Adds an option with the text of its value. -/
def giveText (g : Given) (s : Switch) (text : String) : Pending :=
  match value? s.form text with
  | some v => give g s v
  | none => .ended .refused

/-- Adds an option that stands alone. -/
def giveAlone (g : Given) (s : Switch) : Pending :=
  match s with
  | .help => .ended .help
  | .version => .ended .version
  | _ => if s.form = .flag then give g s .present else .waiting s g

/-- A value in the same word, without the equals sign it may start with. -/
def attached : List Char → String
  | '=' :: cs => String.ofList cs
  | cs => String.ofList cs

/-- Reads a cluster of short options. -/
def cluster (g : Given) : List Char → Pending
  | [] => .ready g
  | c :: cs =>
    match Switch.ofShort? c with
    | none => .ended .refused
    | some s =>
      match giveAlone g s with
      | .ready g => cluster g cs
      | .waiting s g => if cs = [] then .waiting s g else giveText g s (attached cs)
      | done => done

/-- Reads a long option, without its dashes. -/
def long (g : Given) (cs : List Char) : Pending :=
  let name := cs.takeWhile (· ≠ '=')
  match Switch.ofLong? (String.ofList name), cs.drop name.length with
  | none, _ => .ended .refused
  | some s, [] => giveAlone g s
  | some s, _ :: text => giveText g s (String.ofList text)

/-- Reads a word that is not the value of the word before. -/
def word (g : Given) (text : String) : Pending :=
  match text.toList with
  | '-' :: '-' :: cs => long g cs
  | '-' :: c :: cs => cluster g (c :: cs)
  | _ => .ended .refused

/-- Whether a word can be a value: it starts with no dash, or is one. -/
def isValue (text : String) : Bool :=
  match text.toList with
  | '-' :: _ :: _ => false
  | _ => true

/-- Reads the words that are left. -/
def readFrom (p : Pending) : List String → Reading
  | [] =>
    match p with
    | .ended r => r
    | .ready g => .options g
    | .waiting .. => .refused
  | text :: rest =>
    match p with
    | .ended r => r
    | .ready g =>
      if text = "--" then if rest.isEmpty then .options g else .refused
      else readFrom (word g text) rest
    | .waiting s g => if isValue text then readFrom (giveText g s text) rest else .refused

/-- Reads the words of a command line. -/
def read (words : List String) : Reading :=
  readFrom (.ready []) words

/-! ## What is asked for -/

/-- Everything the options say about a run. -/
structure Options where
  rom : String
  settings : Settings
  mute : Bool
  audioOut : Option String
  screenOut : Option String
  input : Option String
  headless : Bool
  maxTicks : Option Nat
  disassemble : Bool
  threshold : Threshold
deriving DecidableEq, Repr

namespace Given

/-- The value of an option. -/
def valueOf? (g : Given) (s : Switch) : Option Value :=
  g.lookup s

def has (g : Given) (s : Switch) : Bool :=
  (valueOf? g s).isSome

def path? (g : Given) (s : Switch) : Option String :=
  match valueOf? g s with
  | some (.path p) => some p
  | _ => none

def number? (g : Given) (s : Switch) : Option Nat :=
  match valueOf? g s with
  | some (.number n) => some n
  | _ => none

/-- The settings, with the usual ones where nothing is said. -/
def settings (g : Given) : Settings :=
  let usual : Settings := {}
  { width := (number? g .width).getD usual.width
    height := (number? g .height).getD usual.height
    keys := (number? g .keys).getD usual.keys
    cyclesPerTick := (number? g .cycles).getD usual.cyclesPerTick
    tickRate := usual.tickRate
    tonePitch := (number? g .pitch).getD usual.tonePitch
    sampleRate := (number? g .sampleRate).getD usual.sampleRate
    autoReleaseMs := (number? g .autoRelease).getD usual.autoReleaseMs
    resetOnLoad := has g .resetOnLoad
    seed := (number? g .seed).map UInt64.ofNat }

/-- What the options say, if they name a program. -/
def options? (g : Given) : Option Options := do
  let rom ← path? g .rom
  some {
    rom
    settings := settings g
    mute := has g .mute
    audioOut := path? g .audioOut
    screenOut := path? g .screenOut
    input := path? g .input
    headless := has g .headless
    maxTicks := number? g .maxTicks
    disassemble := has g .disassemble
    threshold := match valueOf? g .logLevel with
      | some (.threshold t) => t
      | _ => some .warn }

end Given

end ChipEight.CommandLine
