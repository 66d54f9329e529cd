import ChipEight.Fault
import ChipEight.Flow

/-!
# Files

The files that a command line may name, as a value: directories, files with
their bytes, and a few devices. A place among them is the list of names on the
way from the root; a path is how a text names a place.

A path is followed part by part from the root or, if it does not start with a
slash, from where the program was started. Every part but the last has to lead to
a directory, a dot and a double dot included; a double dot leads back, from the
root to the root. A slash at the end says that the path leads to a directory. So
does a dot or double dot as the last part. Names and paths have a greatest length,
in bytes: a name counts only when it is looked up, a path at once.

What is written is kept by a file and read on the outputs of the program; no
other device shows anything of it.
-/

namespace ChipEight

/-- The names on the way from the root. -/
abbrev Place := List String

/-- The place one part of a path further, whether or not anything is there. -/
def Place.along (dir : Place) (part : String) : Place :=
  if part = "." then dir else if part = ".." then dir.dropLast else dir ++ [part]

/-- A device. -/
inductive Device
  /-- Always empty, and swallows what it is given. -/
  | void
  /-- Has no room for anything, and nothing that anyone could use. -/
  | full
  /-- The output of the program. -/
  | output
  /-- The output of the program for what goes wrong. -/
  | errors
  /-- Is not there, though it has a name. -/
  | absent
deriving DecidableEq, Repr

/-- What a path can lead to. -/
inductive Node
  | directory
  | file (bytes : Array UInt8)
  | device (d : Device)
deriving DecidableEq

/-! ## Paths -/

/-- A path in its parts, none of them empty. -/
structure Path where
  /-- Whether it starts at the root. -/
  absolute : Bool
  parts : List String
  /-- Whether a slash stands at the end. -/
  slashed : Bool
deriving DecidableEq, Repr

namespace Path

/-- One more than the most bytes of a path. -/
def lengthLimit : Nat := 4096

/-- The most bytes of a name. -/
def maxName : Nat := 255

/-- The path that a text writes. -/
def read (text : String) : Except Trouble Path :=
  if text.isEmpty then .error .missing
  else if lengthLimit ≤ text.utf8ByteSize then .error .nameTooLong
  else .ok {
    absolute := text.toList.head? = some '/'
    parts := ((text.toList.splitOn '/').filter (· ≠ [])).map String.ofList
    slashed := text.toList.getLast? = some '/' }

end Path

/-! ## Looking up -/

/-- All nodes by their places, and the place where the program was started. The
root is always there. With them, what was written to the outputs of the program
under their names. -/
structure Files where
  nodes : List (Place × Node)
  start : Place := []
  output : Array UInt8 := #[]
  errors : Array UInt8 := #[]
deriving DecidableEq

namespace Files

/-- The node at a place. -/
def node? (f : Files) (p : Place) : Option Node :=
  if p = [] then some .directory else f.nodes.lookup p

/-- What a directory has under a name. -/
def entry (f : Files) (dir : Place) (name : String) : Except Trouble (Option Node) :=
  if Path.maxName < name.utf8ByteSize then .error .nameTooLong
  else .ok (f.node? (dir ++ [name]))

/-- Whether a part of a path is a name of its own. -/
def isName (part : String) : Bool :=
  part != "." && part != ".."

/-- The directory that one part of a path leads to. -/
def enter (f : Files) (dir : Place) (part : String) : Except Trouble Place :=
  if isName part then do
    match ← f.entry dir part with
    | some .directory => return dir.along part
    | some _ => throw .notDirectory
    | none => throw .missing
  else .ok (dir.along part)

/-- The directory that some parts lead to. -/
def walk (f : Files) (dir : Place) (parts : List String) : Except Trouble Place :=
  parts.foldlM f.enter dir

/-- Where a path leads: a directory and the name in it, or the directory itself
if the last part is no name. -/
def locate (f : Files) (p : Path) : Except Trouble (Place × Option String) :=
  let start := if p.absolute then [] else f.start
  match p.parts.getLast? with
  | some part =>
    if isName part then (f.walk start p.parts.dropLast).map fun dir => (dir, some part)
    else (f.walk start p.parts).map fun dir => (dir, none)
  | none => .ok (start, none)

/-! ## Reading and writing -/

/-- The node that a path leads to. -/
def find (f : Files) (text : String) : Except Trouble Node := do
  let p ← Path.read text
  match ← f.locate p with
  | (_, none) => return .directory
  | (dir, some name) =>
    match ← f.entry dir name with
    | none => throw .missing
    | some .directory => return .directory
    | some n =>
      if p.slashed then throw .notDirectory
      else if n = .device .absent then throw .noDevice
      else return n

/-- The bytes that a path leads to. -/
def read (f : Files) (text : String) : Except Trouble (Array UInt8) := do
  match ← f.find text with
  | .file bytes => return bytes
  | .device _ => return #[]
  | .directory => throw .isDirectory

/-- The files with a file at a place. -/
def put (f : Files) (p : Place) (bytes : Array UInt8) : Files :=
  { f with nodes := (p, .file bytes) :: f.nodes.filter fun e => e.1 ≠ p }

/-- Makes an empty file where a path leads, or takes the file or device that is
there. -/
def create (f : Files) (text : String) : Except Trouble (Files × Place) := do
  let p ← Path.read text
  match ← f.locate p with
  | (_, none) => throw .isDirectory
  | (dir, some name) =>
    if p.slashed then throw .isDirectory
    let place := dir ++ [name]
    match ← f.entry dir name with
    | some .directory => throw .isDirectory
    | some (.device .absent) => throw .noDevice
    | some (.device _) => return (f, place)
    | some (.file _) | none => return (f.put place #[], place)

/-- Whether there is room for writing at a place. -/
def hasRoom (f : Files) (p : Place) : Bool :=
  f.node? p != some (.device .full)

/-- The files after some patches were written at a place, one after the other. A
device has no places of its own, so it takes them as they come. -/
def keep (f : Files) (p : Place) (patches : List Patch) : Files :=
  match f.node? p with
  | some (.file bytes) => f.put p (patches.foldl Patch.apply bytes)
  | some (.device .output) => { f with output := f.output ++ patches.flatMap Patch.bytes }
  | some (.device .errors) => { f with errors := f.errors ++ patches.flatMap Patch.bytes }
  | _ => f

end Files

end ChipEight
