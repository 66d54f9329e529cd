import ChipEight.Flow
import ChipEight.Note
import ChipEight.Tone
import ChipEight.Tone.Wave

/-!
# Streaming the tone

While the tone is on, blocks of the wave are written to a sink, one after the
other, each flushed. A block is a twentieth of a second at a fixed amplitude and
always starts at the start of a period. The first failure ends the stream for
good: it is noted and nothing more is written.

`soundings` is the same stream seen against an ideal clock: how many blocks are
written from each call to the next, when the calls come at regular ticks and the
stream never falls behind.
-/

namespace ChipEight.Stream

/-- Nanoseconds of one block. -/
def blockSpan : Nat := 50000000

/-- The height of the wave in a stream. -/
def amplitude : Int16 := 3000

/-- One block. There always is one, since the amplitude has an opposite. -/
def block (sampleRate pitch : Nat) : List UInt8 :=
  Wave.bytes ((Wave.samples? sampleRate pitch blockSpan amplitude).getD [])

/-- Writes up to `n` blocks, until one fails: the text of the failure, if there
was one, and the sink afterwards. -/
def play (block : List UInt8) : Nat → Sink → Option String × Sink
  | 0, s => (none, s)
  | n + 1, s =>
    match s.writeFlush block with
    | (none, s) => play block n s
    | failed => failed

/-- What a stream notes in its life: its failure, or else its end. -/
def notes : Option String → List Note
  | some text => [.toneFailed text]
  | none => [.toneStopped]

/-! ## Against an ideal clock -/

/-- Where a stream stands: whether the tone is on and when the next block may
start at the earliest. -/
structure Clock where
  playing : Bool := false
  next : Nat := 0
  blocks : Nat := 0
deriving DecidableEq, Repr

/-- How many blocks start from `start` up to but not at `until_`, one every
`blockSpan`. -/
def startsBetween (start until_ : Nat) : Nat :=
  (until_ - start + (blockSpan - 1)) / blockSpan

/-- Lets the time run up to `now`. -/
def Clock.pass (c : Clock) (now : Nat) : Clock :=
  if c.playing then
    let n := startsBetween c.next now
    { c with next := c.next + n * blockSpan, blocks := c.blocks + n }
  else c

/-- A call at the time `now`. -/
def Clock.hear (c : Clock) (now : Nat) (call : Tone) : Clock :=
  let c := c.pass now
  match call with
  | .on => if c.playing then c else { c with playing := true, next := max c.next now }
  | .off => { c with playing := false }

/-- A clock and the blocks counted so far, after one more interval that begins
with call number `i`. -/
def Clock.listen (interval : Nat) (heard : Clock × Array Nat) (call : Tone × Nat) :
    Clock × Array Nat :=
  let c := (heard.1.hear (call.2 * interval) call.1).pass ((call.2 + 1) * interval)
  (c, heard.2.push (c.blocks - heard.1.blocks))

/-- How many blocks start from each call to the next, when call number `i` comes
at the time `i * interval` and the stream is closed one interval after the last. -/
def soundings (interval : Nat) (calls : List Tone) : Array Nat :=
  (calls.zipIdx.foldl (Clock.listen interval) ({}, #[])).2

end ChipEight.Stream
