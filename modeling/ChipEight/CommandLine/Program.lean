import ChipEight.CommandLine.Files
import ChipEight.CommandLine.Options
import ChipEight.CommandLine.Visit
import ChipEight.Keypad
import ChipEight.Keypad.Bytes
import ChipEight.Machine.Frame
import ChipEight.Text.Legible
import ChipEight.Tone.Stream

/-!
# The program

What a command line does, as a value: from the words, the files and the terminal
to the exit code, the text on both outputs, the files afterwards and what the
terminal shows. In order, the program reads its options and the ROM; prints a
listing if that is all that is asked for; checks the settings; gets the screen,
the keyboard, the tone and the picture ready; loads and runs. A run that fails
still leaves its last screen behind, a load that fails does not.

Without a terminal there is no keyboard and no box; the run is then headless, or
has its keys and its pictures in files.
-/

namespace ChipEight.CommandLine

/-- A terminal and what its user will do. -/
structure Terminal where
  cols : Nat
  rows : Nat
  acts : List Visit.Act := []

/-- What a program finds when it starts. -/
structure World where
  files : Files
  terminal : Option Terminal := none
  /-- The dice of a machine without a seed. -/
  chance : Dice
  /-- One more than the most bytes that a screen can have in memory. -/
  memory : Nat := 0x1000000000

/-- A text with a carriage return before each line feed. -/
def returning (text : String) : String :=
  String.ofList (text.toList.flatMap fun c => if c = '\n' then ['\r', '\n'] else [c])

/-- A printed text as it comes out: a terminal returns the carriage before each
line feed, unless it is in raw mode. -/
def World.printed (w : World) (text : String) : String :=
  if w.terminal.isSome then returning text else text

/-- What a program leaves behind. -/
structure Outcome where
  /-- The exit code; there is none if the host put an end to the program. -/
  code : Option Nat
  output : String := ""
  complaint : String := ""
  files : Files
  /-- The terminal's cells, if the box was used. -/
  window : Option Box.Cells := none

namespace Outcome

/-- The exit code of a program that broke down. -/
def brokenCode : Nat := 101

/-- The end of a program that went well. -/
def success (files : Files) (output : String) : Outcome :=
  { code := some 0, output, files }

/-- The end of a program whose command line cannot be read. -/
def refused (files : Files) : Outcome :=
  { code := some 2, files }

/-- The end of a program with a complaint. -/
def failure (files : Files) (diagnostic : String) : Outcome :=
  { code := some 1, complaint := "Error: " ++ diagnostic ++ "\n", files }

/-- The end of a program that broke down. -/
def broken (files : Files) : Outcome :=
  { code := some brokenCode, files }

/-- The end of a program for which the host has not the memory. -/
def killed (files : Files) : Outcome :=
  { code := none, files }

end Outcome

/-- What `--version` prints. -/
def versionText : String := "chip8 0.1.0\n"

/-- Lines of text, each ended. -/
def unlines (lines : List String) : String :=
  String.join (lines.map (· ++ "\n"))

/-! ## Getting ready -/

/-- Where the keys come from. -/
inductive Keys
  | nobody
  | stream (k : ByteKeys)
  | terminal (t : Terminal) (k : Typing.Keyboard)

/-- Where the pictures go. -/
inductive Pictures
  | counted
  | file (place : Place)
  | window (t : Terminal)

/-- Why a program cannot start, as its complaint says it. -/
abbrev Complaint := String

/-- The source of the bytes at a path; a directory can be opened but not read. -/
def keySource (files : Files) (path : String) : Except Trouble Source :=
  match files.read path with
  | .ok bytes => .ok [.bytes bytes.toList]
  | .error .isDirectory => .ok [.failing Trouble.isDirectory.message]
  | .error t => .error t

/-- Gets the keys ready, if the host has room for them. -/
def openKeys? (o : Options) (w : World) : Option (Except Complaint Keys) :=
  match o.input with
  | some path =>
    match keySource w.files path with
    | .ok source => (ByteKeys.ofSource? o.settings (fun _ => 0) source).map fun k => .ok (.stream k)
    | .error t => some (.error t.diagnostic)
  | none =>
    if o.headless then some (.ok .nobody)
    else match w.terminal with
      | some t => (Typing.Keyboard.new? o.settings).map fun k => .ok (.terminal t k)
      | none => some (.error (Fault.io .noDevice).diagnostic)

/-- Gets the tone ready: the files, and the place of the stream if there is one. -/
def openTone (o : Options) (files : Files) : Except Complaint (Files × Option Place) :=
  match o.mute, o.audioOut with
  | true, _ | _, none => .ok (files, none)
  | false, some path =>
    match files.create path with
    | .ok (files, place) => .ok (files, some place)
    | .error t => .error t.diagnostic

/-- Gets the pictures ready. -/
def openPictures (o : Options) (terminal : Option Terminal) (files : Files) :
    Except Complaint (Files × Pictures) :=
  match o.screenOut with
  | some path =>
    match files.create path with
    | .ok (files, place) => .ok (files, .file place)
    | .error t => .error t.diagnostic
  | none =>
    if o.headless then .ok (files, .counted)
    else match terminal with
      | some t => .ok (files, .window t)
      | none => .error Trouble.noDevice.diagnostic

/-! ## Running -/

/-- A run that is over, without what it was shown on. -/
structure Finished where
  machine : Machine
  fault : Option Fault
  /-- Whether the run broke down. -/
  broke : Bool := false
  tones : List Tone
  /-- The frames for a file of pictures. -/
  frames : Array (List UInt8) := #[]
  window : Option Box.Cells := none

/-- How far a run has come, over, broken down or not. -/
def reached {σ : Type} : Except (Progress σ) (Round σ) → Progress σ
  | .ok r => Run.progress r
  | .error p => p

/-- What is kept of a run. -/
def Finished.of {σ : Type} (r : Except (Progress σ) (Round σ)) : Finished :=
  let p := reached r
  { machine := p.machine, fault := p.fault, broke := !r.isOk, tones := p.tones.toList }

/-- The surroundings of a run without a terminal's keyboard: the keys stay as they
are, and so does the wish to leave. -/
def still (keys : Keypad) (quit : Bool) : Surroundings :=
  { quit := fun _ => quit, keys := fun _ => keys, listening := false }

/-- Runs a machine, showing it somewhere, until it is over. -/
def runWith {σ : Type} (o : Options) (stage : Stage σ) (keys : Keys) (m : Machine) (v : σ) :
    Except (Progress σ) (Round σ) :=
  let bound := Run.boundFor o.maxTicks
  let begun : Progress σ := { machine := m, view := v }
  let alone (around : Surroundings) :=
    Run.roundsUntil (fun _ => false) stage.view around o.maxTicks bound begun
  match keys with
  | .terminal t k => Visit.run stage o.maxTicks bound t.acts k begun
  | .stream k => alone (still (k.keypad 0) k.quit)
  | .nobody => alone (still (ManualKeys.mk []).keypad false)

/-- Runs a machine with its keys and its pictures. A run that breaks down leaves
the window empty, if there is one. -/
def runMachine (o : Options) (files : Files) (keys : Keys) (pictures : Pictures) (m : Machine) :
    Finished :=
  match pictures with
  | .counted => .of (runWith o (.elsewhere Viewer.counting) keys m 0)
  | .file place =>
    if files.hasRoom place then
      let r := runWith o (.elsewhere Viewer.collecting) keys m #[]
      { Finished.of r with frames := (reached r).view }
    else .of (runWith o (.elsewhere (Viewer.refusing .noSpace)) keys m ())
  | .window t =>
    let window : Window := { cols := t.cols, rows := t.rows }
    let r := runWith o .window keys m window
    let shown := (reached r).view
    let cells := if r.isOk then shown.cells else Box.empty shown.cols shown.rows
    { Finished.of r with window := some cells }

/-! ## What a run leaves behind -/

/-- The two that write while a program runs. -/
inductive Pen
  | picture | tone
deriving DecidableEq, Repr

/-- What the pens write in the order of time: with each tick first its frame, then
the blocks of the tone that start before the next. -/
def written (frames : Array (List UInt8)) (block : List UInt8) (counts : Array Nat) :
    List (Pen × List UInt8) :=
  (List.range (max frames.size counts.size)).flatMap fun i =>
    (frames[i]?.toList.map fun f => (.picture, f)) ++
      List.replicate (counts.getD i 0) (.tone, block)

/-- What a run wrote. A block is made only if one was written. -/
def Finished.written (f : Finished) (s : Settings) : List (Pen × List UInt8) :=
  let counts := Stream.soundings (s.tickInterval?.getD 0) f.tones
  let block := if counts.all (· == 0) then [] else Stream.block s.sampleRate s.tonePitch
  CommandLine.written f.frames block counts

/-- Where the picture goes, if it goes to a file. -/
def Pictures.place? : Pictures → Option Place
  | .file place => some place
  | .counted | .window _ => none

/-- The files after the pens wrote there; both may have the same place. -/
def deliver (files : Files) (place? : Pen → Option Place) (pieces : List (Pen × List UInt8)) :
    Files :=
  let patches := Patch.ofPieces (fun _ => 0) pieces
  let places := ([Pen.picture, Pen.tone].filterMap place?).eraseDups
  places.foldl (fun files place =>
    files.keep place ((patches.filter fun e => place? e.1 == some place).map (·.2))) files

/-- The text left on the output after a run. -/
def farewell (o : Options) (screen : Screen) : String :=
  if o.headless then unlines (HalfBlock.lines screen)
  else if o.screenOut.isNone then unlines (List.replicate (o.settings.height + 4) "")
  else ""

/-- The window before anything is shown. -/
def Pictures.blank? : Pictures → Option Box.Cells
  | .window t => some (Box.empty t.cols t.rows)
  | _ => none

/-- Whether the terminal is in raw mode while the program runs. -/
def Keys.isRaw : Keys → Bool
  | .terminal .. => true
  | .nobody | .stream _ => false

/-- The end of a program whose run is over. -/
def finish (o : Options) (w : World) (files : Files) (tonePlace : Option Place) (keys : Keys)
    (pictures : Pictures) (f : Finished) : Outcome :=
  let place? : Pen → Option Place
    | .picture => pictures.place?
    | .tone => tonePlace
  let files := deliver files place? (f.written o.settings)
  let heard := Legible.text files.output
  let heard := if keys.isRaw then heard else w.printed heard
  if f.broke then { Outcome.broken files with output := heard, window := f.window }
  else {
    code := some (if f.fault.isSome then 1 else 0)
    output := heard ++ w.printed (farewell o f.machine.screen)
    complaint := Legible.text files.errors ++ match f.fault with
      | some f => "Error: " ++ f.diagnostic ++ "\n"
      | none => ""
    files
    window := f.window }

/-- Loads and runs a program on a machine that was got ready. -/
def start (o : Options) (w : World) (rom : Array UInt8) (screen : Screen) (keys : Keys)
    (files : Files) (tonePlace : Option Place) (pictures : Pictures) : Outcome :=
  let complain (f : Fault) : Outcome :=
    { Outcome.failure files f.diagnostic with window := pictures.blank? }
  match Machine.build o.settings w.chance screen with
  | .error f => complain f
  | .ok m =>
    let loaded := m.load rom
    match loaded.fault with
    | some f => complain f
    | none =>
      finish o w files tonePlace keys pictures (runMachine o files keys pictures loaded.machine)

/-- Gets everything ready around a screen and starts. -/
def prepare (o : Options) (w : World) (rom : Array UInt8) (screen : Screen) : Outcome :=
  match openKeys? o w with
  | none => .broken w.files
  | some (.error c) => .failure w.files c
  | some (.ok keys) =>
    match openTone o w.files with
    | .error c => .failure w.files c
    | .ok (files, tonePlace) =>
      match openPictures o w.terminal files with
      | .error c => .failure files c
      | .ok (files, pictures) => start o w rom screen keys files tonePlace pictures

/-- Checks the settings, makes a screen and goes on with it. -/
def run (o : Options) (w : World) (rom : Array UInt8) : Outcome :=
  let width := o.settings.width
  let height := o.settings.height
  match o.settings.check with
  | some f => .failure w.files f.diagnostic
  | none =>
    if Screen.isBeyondMemory w.memory width height then .killed w.files
    else match Screen.blank? width height with
      | none => .broken w.files
      | some screen => prepare o w rom screen

/-- Prints the listing of a program. -/
def list (w : World) (rom : Array UInt8) : Outcome :=
  match Listing.entries? rom Ram.programStart with
  | some entries => .success w.files (w.printed (unlines (entries.map Listing.line)))
  | none => .broken w.files

/-- Does what the options say. -/
def perform (o : Options) (w : World) : Outcome :=
  match w.files.read o.rom with
  | .error t => .failure w.files t.diagnostic
  | .ok rom => if o.disassemble then list w rom else run o w rom

/-- What a command line does. -/
def execute (words : List String) (w : World) : Outcome :=
  match read words with
  | .refused => .refused w.files
  | .help => .success w.files ""
  | .version => .success w.files (w.printed versionText)
  | .options g =>
    match g.options? with
    | some o => perform o w
    | none => .refused w.files

end ChipEight.CommandLine
