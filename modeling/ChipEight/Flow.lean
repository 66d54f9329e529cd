/-!
# Sources, sinks and patches

A source of bytes is read piece by piece, as a file or a device is: a read has
room for some bytes and gets at most that many, or nothing at the end, or it is
interrupted and may be tried again, or it fails. A source is given by what it
will answer: a list of pieces, a piece that is too long for a read being served
over several.

Reading to the end gives the bytes in the slices in which they came, and how the
source ended. An empty piece is an end: what stands behind it is never read.

A sink takes bytes, as many at a call as it likes, until it fails; what it took
before stays taken. Here a sink has three bounds, each of which may be missing:
how many bytes it takes in all, how many it takes at one call, and how often it
lets itself be flushed. When the first or the last bound is reached every
further call fails.

Writing a text as a whole repeats calls until every byte is taken; it fails as
soon as one call fails or takes nothing.

A file may be written by several pens at once. Each pen goes on where it stopped,
wherever the others are, so that the last to write a byte is the one whose byte
remains. What a pen writes at a time is a patch: bytes, and the place in the file
where the first of them goes.
-/

namespace ChipEight

/-! ## Sources -/

/-- What a source has ready for one read. -/
inductive Piece
  | bytes (b : List UInt8)
  | interrupted
  | failing (text : String)
deriving DecidableEq, Repr

/-- The pieces that a source will answer; after the last it has ended. -/
abbrev Source := List Piece

namespace Source

/-- What one read comes to. -/
inductive Answer
  | got (b : List UInt8)
  | ended
  | interrupted
  | failed (text : String)
deriving DecidableEq, Repr

/-- One read with room for some bytes, and the source after it. -/
def read (room : Nat) : Source → Answer × Source
  | [] => (.ended, [])
  | .bytes [] :: rest => (.ended, rest)
  | .bytes b :: rest =>
    (.got (b.take room), if b.drop room = [] then rest else .bytes (b.drop room) :: rest)
  | .interrupted :: rest => (.interrupted, rest)
  | .failing text :: rest => (.failed text, rest)

/-- How a source ended: by itself, or failing with a text. -/
inductive End
  | clean
  | failed (text : String)
deriving DecidableEq, Repr

/-- What a source still holds: its bytes and its pieces. -/
def size : Source → Nat
  | [] => 0
  | .bytes b :: rest => b.length + 1 + size rest
  | _ :: rest => 1 + size rest

theorem size_read {room : Nat} (hroom : 0 < room) {s rest : Source} {a : Answer}
    (h : s.read room = (a, rest)) (ha : a = .interrupted ∨ ∃ b, a = .got b) :
    rest.size < s.size := by
  revert h
  unfold read
  split
  case h_3 b more hb =>
    intro h
    obtain ⟨-, rfl⟩ := Prod.mk.inj h
    cases b with
    | nil => exact absurd rfl hb
    | cons c cs =>
      split
      · simp only [size]; omega
      · simp only [size, List.length_drop, List.length_cons]; omega
  all_goals
    intro h
    obtain ⟨rfl, rfl⟩ := Prod.mk.inj h
    simp [size] at ha ⊢

/-- The slices of a source that is read to its end with a given room, and how
it ended. Interrupted reads are tried again. -/
def readAll (room : Nat) (hroom : 0 < room) (s : Source) : List (List UInt8) × End :=
  match h : s.read room with
  | (.got b, rest) =>
    have := size_read hroom h (.inr ⟨b, rfl⟩)
    let (more, ending) := readAll room hroom rest
    (b :: more, ending)
  | (.interrupted, rest) =>
    have := size_read hroom h (.inl rfl)
    readAll room hroom rest
  | (.ended, _) => ([], .clean)
  | (.failed text, _) => ([], .failed text)
termination_by s.size

/-! ## What a source delivers

Seen without its slices, a source is the bytes before its end and the way it
ends. -/

/-- The bytes before the first end or failure. -/
def delivered : Source → List UInt8
  | [] | .bytes [] :: _ | .failing _ :: _ => []
  | .bytes b :: rest => b ++ delivered rest
  | .interrupted :: rest => delivered rest

/-- How the source ends. -/
def ending : Source → End
  | [] | .bytes [] :: _ => .clean
  | .failing text :: _ => .failed text
  | .bytes _ :: rest | .interrupted :: rest => ending rest

end Source

/-! ## Sinks -/

/-- A sink, its bounds and what it has taken. -/
structure Sink where
  /-- Bytes in all. -/
  total : Option Nat := none
  /-- Bytes at one call. -/
  perCall : Option Nat := none
  /-- Flushes in all. -/
  flushTotal : Option Nat := none
  taken : Array UInt8 := #[]
  flushes : Nat := 0
deriving DecidableEq

namespace Sink

/-- What a full sink answers. -/
def fullText : String := "sink full"

/-- What writing as a whole says of a call that took nothing. -/
def stuckText : String := "failed to write whole buffer"

/-- The smaller of a number and a bound that may be missing. -/
def bounded (n : Nat) : Option Nat → Nat
  | none => n
  | some m => min n m

/-- Whether the sink fails every call from now on. -/
def isFull (s : Sink) : Bool :=
  s.total.any (· ≤ s.taken.size) || s.flushTotal.any (· ≤ s.flushes)

/-- How many of `n` bytes one call takes. -/
def share (s : Sink) (n : Nat) : Nat :=
  bounded (bounded n s.perCall) (s.total.map (· - s.taken.size))

/-- The sink after it took some bytes. -/
def take (s : Sink) (b : List UInt8) : Sink :=
  { s with taken := s.taken ++ b }

/-- Writes bytes as a whole: the text of the failure, if there was one, and the
sink afterwards. -/
def writeAll (s : Sink) (b : List UInt8) : Option String × Sink :=
  if b = [] then (none, s)
  else if s.isFull then (some fullText, s)
  else if s.share b.length = 0 then (some stuckText, s)
  else (s.take (b.take (s.share b.length))).writeAll (b.drop (s.share b.length))
termination_by b.length
decreasing_by
  rename_i hb _ hn
  have : 0 < b.length := List.length_pos_iff.2 hb
  rw [List.length_drop]
  omega

/-- Flushes the sink. -/
def flush (s : Sink) : Option String × Sink :=
  if s.flushTotal.any (· ≤ s.flushes) then (some fullText, s)
  else (none, { s with flushes := s.flushes + 1 })

/-- Writes bytes as a whole and flushes. -/
def writeFlush (s : Sink) (b : List UInt8) : Option String × Sink :=
  match s.writeAll b with
  | (none, s) => s.flush
  | failed => failed

end Sink

/-! ## Patches -/

/-- Bytes and where in a file they go. -/
structure Patch where
  offset : Nat
  bytes : List UInt8
deriving DecidableEq, Repr

namespace Patch

/-- A file with bytes laid over it from a place on; it grows as far as it has
to. -/
def lay (file : Array UInt8) : Nat → List UInt8 → Array UInt8
  | _, [] => file
  | i, b :: rest => lay (if h : i < file.size then file.set i b h else file.push b) (i + 1) rest

/-- A file with a patch. Between its end and the patch there are zeros. -/
def apply (file : Array UInt8) (p : Patch) : Array UInt8 :=
  lay (file ++ Array.replicate (p.offset - file.size) 0) p.offset p.bytes

/-- The patches of some pens, from what they write in the order of time, with how
far each has come. -/
def ofPieces {π : Type} [DecidableEq π] (reached : π → Nat) :
    List (π × List UInt8) → List (π × Patch)
  | [] => []
  | (pen, bytes) :: rest =>
    let offset := reached pen
    let next := offset + bytes.length
    (pen, { offset, bytes }) :: ofPieces (fun q => if q = pen then next else reached q) rest

end Patch

end ChipEight
