import ChipEight.Tone

/-!
# The gate of a sound stream

A stream is written by a thread of its own. Between it and its owner there is a
gate: silent, playing, or shut down. For a call that changes something the owner
sets the gate under a lock, then notifies whoever waits, then remembers what it
called for; a call that changes nothing leaves the gate alone. A drop sets the
gate, notifies, and waits for the streamer to end.

The streamer looks at the gate under the lock and waits while it is silent. Once
it found it playing it lets go of the lock and writes one block to the sink,
piece by piece as the sink takes it, flushes, paces itself, and looks again. The
first failure of the sink ends it.

This module is the protocol alone, as a machine of small steps that happen one
at a time in any order. What the sink does is up to it: how much it takes at one
call, and when it fails. A wait may end without a notification.
-/

namespace ChipEight.Gate

/-- What the owner has set. -/
inductive Position
  | silent | playing | shut
deriving DecidableEq, Repr

/-- What the owner is asked for. -/
inductive Call
  /-- The tone on or off. -/
  | tone (t : Tone)
  /-- The end of the stream. -/
  | drop
deriving DecidableEq, Repr

/-- What a call sets the gate to. -/
def Call.target : Call → Position
  | .tone .on => .playing
  | .tone .off => .silent
  | .drop => .shut

/-- Where the owner stands. -/
inductive Owner
  /-- Between calls. -/
  | idle
  /-- The gate is set; the notification is to come. -/
  | set (call : Call)
  /-- Notified; the owner has still to remember the call, or to wait for the streamer. -/
  | notified (call : Call)
  /-- Dropped. -/
  | gone
deriving DecidableEq, Repr

/-- Where the streamer stands. -/
inductive Streamer
  /-- About to look at the gate. -/
  | checking
  /-- Blocked until it is notified. -/
  | waiting
  /-- It found the gate playing and has yet to begin a block. -/
  | cleared
  /-- Writing a block, of which these bytes are left. -/
  | writing (rest : List UInt8)
  /-- Between a block and the next look. -/
  | pacing
  /-- Ended by a failure of the sink. -/
  | failed
  /-- Ended by the owner. -/
  | stopped
deriving DecidableEq, Repr

namespace Streamer

/-- A streamer after a look at the gate. -/
def seeing : Position → Streamer
  | .silent => .waiting
  | .playing => .cleared
  | .shut => .stopped

/-- A streamer after a notification, which reaches it only while it waits. -/
def notified : Streamer → Streamer
  | .waiting => .checking
  | other => other

/-- Whether the thread is over. -/
def hasEnded : Streamer → Bool
  | .failed | .stopped => true
  | _ => false

end Streamer

/-- Owner, gate, streamer, and what the sink has got. -/
structure State where
  position : Position
  /-- What the owner remembers. -/
  player : Player
  owner : Owner
  streamer : Streamer
  /-- The bytes the sink took, in order. -/
  taken : List UInt8
deriving DecidableEq, Repr

/-- A stream that was just opened. -/
def State.opened : State :=
  { position := .silent, player := {}, owner := .idle, streamer := .checking, taken := [] }

/-- Whether the owner sets the gate for a call. -/
def State.turns (s : State) : Call → Bool
  | .tone t => s.player.turns t
  | .drop => true

/-- What may happen next. -/
inductive Act
  /-- The owner is called, and sets the gate if the call changes something. -/
  | call (call : Call)
  /-- The owner notifies. -/
  | notify
  /-- The owner is done with the call. -/
  | finish
  /-- The streamer looks at the gate. -/
  | check
  /-- The streamer's wait ends without a notification. -/
  | wake
  /-- The streamer begins a block. -/
  | start
  /-- The sink takes some bytes. -/
  | took (n : Nat)
  /-- The sink has the whole block and flushes. -/
  | flushed
  /-- The sink fails, in writing or in flushing. -/
  | broke
  /-- The streamer has paced itself. -/
  | paced
deriving DecidableEq, Repr

/-- The state after an act, if the act is possible; `block` is what the streamer
writes each time. -/
def State.act? (block : List UInt8) (s : State) : Act → Option State
  | .call c =>
    match s.owner with
    | .idle => some (if s.turns c then { s with position := c.target, owner := .set c } else s)
    | _ => none
  | .notify =>
    match s.owner with
    | .set c => some { s with owner := .notified c, streamer := s.streamer.notified }
    | _ => none
  | .finish =>
    match s.owner with
    | .notified (.tone t) => some { s with owner := .idle, player := s.player.hear t }
    | .notified .drop => if s.streamer.hasEnded then some { s with owner := .gone } else none
    | _ => none
  | .check =>
    match s.streamer with
    | .checking => some { s with streamer := .seeing s.position }
    | _ => none
  | .wake =>
    match s.streamer with
    | .waiting => some { s with streamer := .checking }
    | _ => none
  | .start =>
    match s.streamer with
    | .cleared => some { s with streamer := .writing block }
    | _ => none
  | .took n =>
    match s.streamer with
    | .writing rest =>
      if 0 < n ∧ n ≤ rest.length then
        some { s with streamer := .writing (rest.drop n), taken := s.taken ++ rest.take n }
      else none
    | _ => none
  | .flushed =>
    match s.streamer with
    | .writing [] => some { s with streamer := .pacing }
    | _ => none
  | .broke =>
    match s.streamer with
    | .writing _ => some { s with streamer := .failed }
    | _ => none
  | .paced =>
    match s.streamer with
    | .pacing => some { s with streamer := .checking }
    | _ => none

/-- Runs of the protocol: the acts and the states they lead through. -/
inductive Run (block : List UInt8) : State → List Act → State → Prop
  | nil (s : State) : Run block s [] s
  | cons {s t u : State} {a : Act} {acts : List Act} :
    s.act? block a = some t → Run block t acts u → Run block s (a :: acts) u

end ChipEight.Gate
