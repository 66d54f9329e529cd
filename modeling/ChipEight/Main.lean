import ChipEight.CommandLine.Program

/-!
# The command

The outermost layer: it fetches what the words of the command line name, lets
`CommandLine.execute` say what happens, and carries that out. A run on the
terminal is shown as it goes, frame by frame and at the pace of the settings; its
keys are the bytes that arrive on the standard input.
-/

namespace ChipEight.Command

open CommandLine

/-- What a path of the host leads to: a directory, a file, whose bytes are read
if they are wanted, or nothing. -/
def fetch (path : String) (wanted : Bool) : IO (Option Node) := do
  try
    let found ← IO.FS.realPath path
    if ← found.isDir then return some .directory
    if wanted then return some (.file (← IO.FS.readBinFile path).data)
    return some (.file #[])
  catch _ =>
    return none

/-- The nodes on the way along a path. At its end a file counts only if it is to
be read. -/
def survey (start : Place) (wanted : Bool) (text : String) : IO (List (Place × Node)) := do
  match Path.read text with
  | .error _ => return []
  | .ok p =>
    let mut place : Place := if p.absolute then [] else start
    let mut path := if p.absolute then "/" else ""
    let mut nodes := #[]
    for (part, i) in p.parts.zipIdx do
      place := place.along part
      path := path ++ part
      let isLast := i + 1 = p.parts.length
      match ← fetch path (wanted && isLast) with
      | some (.file bytes) =>
        if wanted || !isLast then nodes := nodes.push (place, .file bytes)
      | some n => nodes := nodes.push (place, n)
      | none => pure ()
      path := path ++ "/"
    return nodes.toList

/-- The files that the options name, as far as they are there. -/
def gather (o : Options) : IO Files := do
  let start := ((← IO.currentDir).toString.splitOn "/").filter (· ≠ "")
  let read ← (o.rom :: o.input.toList).mapM (survey start true)
  let written ← (o.audioOut.toList ++ o.screenOut.toList).mapM (survey start false)
  return { nodes := (read ++ written).flatten, start }

/-- Writes the files that a program made. -/
def store (o : Options) (files : Files) : IO Unit := do
  for path in o.audioOut.toList ++ o.screenOut.toList do
    match (files.create path).map fun made => files.node? made.2 with
    | .ok (some (.file bytes)) => IO.FS.writeBinFile path (ByteArray.mk bytes)
    | _ => pure ()

/-- Dice that nobody has chosen. -/
def chance : IO Dice := do
  let words ← IO.getRandomBytes 32
  let word (i : Nat) : UInt32 :=
    (List.range 4).foldl (fun w j => w <<< 8 ||| (words.data.getD (4 * i + j) 0).toUInt32) 0
  return { key := Vector.ofFn fun i => word i.val, rolled := 0 }

/-- The exit code where there is none. -/
def killedCode : Nat := 134

/-- Carries out what is left to do at the end of a program. -/
def conclude (o : Outcome) : IO UInt32 := do
  IO.print o.output
  IO.eprint o.complaint
  return UInt32.ofNat (o.code.getD killedCode)

/-! ## On the terminal -/

/-- Whether the options ask for a run that is shown on the terminal. -/
def isShown (o : Options) : Bool :=
  !o.headless && !o.disassemble && o.screenOut.isNone && o.settings.check.isNone

/-- Adds what is typed to the keyboard, as it arrives. -/
partial def listen (input : IO.FS.Stream) (keyboard : IO.Ref Typing.Keyboard) : IO Unit := do
  let bytes ← input.read 1024
  if bytes.size ≠ 0 then
    let now ← IO.monoNanosNow
    keyboard.modify fun k => k.typed now bytes.data.toList
    listen input keyboard

/-- Makes rounds, shows each new screen, and waits for the next tick. -/
partial def keepGoing (o : Options) (keyboard : IO.Ref Typing.Keyboard) (stream : Option ByteKeys)
    (p : Progress Nat) : IO (Option (Round Nat)) := do
  let started ← IO.monoNanosNow
  let k ← keyboard.get
  let (quit, keys) := match stream with
    | some s => (s.quit, s.keypad 0)
    | none => (k.quit, k.keypad started)
  let around : Surroundings :=
    { quit := fun _ => quit, keys := fun _ => keys, listening := false }
  match Run.round? Viewer.counting around o.maxTicks p with
  | some (.going p) =>
    IO.print (Viewer.frameText true p.machine.screen)
    (← IO.getStdout).flush
    let spent := (← IO.monoNanosNow) - started
    IO.sleep (UInt32.ofNat ((o.settings.tickInterval?.getD 0 - spent) / 1000000))
    keepGoing o keyboard stream p
  | ended => return ended

/-- Where the keys of a run on the terminal come from: a stream, or nothing but
the keyboard. -/
def openStream (o : Options) (w : World) : Except Trouble (Option ByteKeys) :=
  match o.input with
  | none => .ok none
  | some path => (keySource w.files path).map (ByteKeys.ofSource? o.settings fun _ => 0)

/-- Runs a loaded machine on the terminal. The stream of the tone is written when
the run is over. -/
def play (o : Options) (w : World) (files : Files) (tonePlace : Option Place)
    (stream : Option ByteKeys) (fresh : Typing.Keyboard) (m : Machine) : IO UInt32 := do
  let keyboard ← IO.mkRef fresh
  if stream.isNone then
    let _ ← IO.asTask (listen (← IO.getStdin) keyboard) .dedicated
  match ← keepGoing o keyboard stream { machine := m, view := 0 } with
  | none => conclude (.broken files)
  | some r =>
    let outcome := finish o w files tonePlace .nobody .counted (.of (.ok r))
    store o outcome.files
    conclude outcome

/-- Runs a program on the terminal. -/
def perform (o : Options) (w : World) (rom : Array UInt8) (screen : Screen) : IO UInt32 := do
  let failed (diagnostic : String) := conclude (.failure w.files diagnostic)
  let built := Machine.build o.settings w.chance screen
  match openStream o w, Typing.Keyboard.new? o.settings, openTone o w.files, built with
  | .error t, _, _, _ => failed t.diagnostic
  | _, none, _, _ => conclude (.broken w.files)
  | _, _, .error c, _ => failed c
  | _, _, _, .error f => failed f.diagnostic
  | .ok stream, some keyboard, .ok (files, tonePlace), .ok m =>
    let loaded := m.load rom
    match loaded.fault with
    | some f => failed f.diagnostic
    | none => play o w files tonePlace stream keyboard loaded.machine

/-- Does what the words of the command line say. -/
def run (words : List String) : IO UInt32 := do
  let options := match read words with
    | .options g => g.options?
    | _ => none
  match options with
  | none => conclude (execute words { files := { nodes := [] }, chance := ← chance })
  | some o =>
    let world : World := { files := ← gather o, chance := ← chance }
    let width := o.settings.width
    let height := o.settings.height
    let isShown := isShown o && !Screen.isBeyondMemory world.memory width height
    match isShown, world.files.read o.rom with
    | true, .ok rom =>
      match Screen.blank? width height with
      | some screen => Command.perform o world rom screen
      | none => conclude (.broken world.files)
    | _, _ =>
      let outcome := execute words world
      store o outcome.files
      conclude outcome

end ChipEight.Command

/-- The command line program. -/
def main (words : List String) : IO UInt32 :=
  ChipEight.Command.run words
