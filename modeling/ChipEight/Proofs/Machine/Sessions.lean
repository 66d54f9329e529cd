import ChipEight.Machine.Frame

/-!
# Sessions

A session is a machine with the keypad it asks and a meter that hears its tone,
and what its owner does with it: load programs, make steps, frames and ticks,
and change the keypad, in any order, going on after a request that failed as
after one that went well. A request that breaks down has no answer, and neither
has a session with such a request.

A session is reachable when it comes from a machine that was just built by some
list of requests. That is what is meant by every run and every reachable state.
-/

namespace ChipEight

/-- What can be asked in a session. -/
inductive Request
  | load (rom : Array UInt8)
  /-- Loads from a source that is read to its end. -/
  | read (source : Source)
  | step
  | frame
  | tick
  /-- The keypad answers differently from now on. -/
  | touch (keys : Keypad)

/-- Whether a request is one to load a program. -/
def Request.IsLoad : Request → Prop
  | load _ | read _ => True
  | step | frame | tick | touch _ => False

/-- A machine, the keypad it asks and the meter that hears its tone. -/
structure Session where
  machine : Machine
  keys : Keypad
  meter : Meter := {}

namespace Session

/-- What a request comes to. -/
def answer? (a : Session) : Request → Option Turn
  | .load rom => some (a.machine.load rom)
  | .read source => some (a.machine.loadFrom source)
  | .step => a.machine.step? a.keys
  | .frame => a.machine.frame? a.keys
  | .tick => some a.machine.tick
  | .touch _ => some (.done a.machine)

/-- The keypad after a request. -/
def keysAfter (a : Session) : Request → Keypad
  | .touch keys => keys
  | .load _ | .read _ | .step | .frame | .tick => a.keys

/-- The session after a request that came to a turn, well or not. -/
def after (a : Session) (r : Request) (t : Turn) : Session :=
  { machine := t.machine, keys := a.keysAfter r, meter := a.meter.hearAll t.tones.toList }

/-- The session after some requests. -/
def run? : Session → List Request → Option Session
  | a, [] => some a
  | a, r :: rest => (a.answer? r).bind fun t => run? (a.after r t) rest

/-- What some requests come to, one after the other. -/
def turns? : Session → List Request → Option (List Turn)
  | _, [] => some []
  | a, r :: rest => (a.answer? r).bind fun t => (turns? (a.after r t) rest).map (t :: ·)

/-- A session that comes from a machine just built. -/
def Reachable (a : Session) : Prop :=
  ∃ s chance screen m keys requests, Machine.build s chance screen = .ok m ∧
    run? { machine := m, keys := keys } requests = some a

/-! ## An invariant of sessions -/

/-- What requests of some sort keep, and have an answer for, is kept by every
list of such requests, and the list has an answer. -/
theorem run?_invariant {P : Machine → Prop} {Q : Request → Prop}
    (hP : ∀ a : Session, P a.machine → ∀ r, Q r → ∃ t, a.answer? r = some t ∧ P t.machine) :
    ∀ (requests : List Request) (a : Session), (∀ r ∈ requests, Q r) → P a.machine →
      ∃ b, a.run? requests = some b ∧ P b.machine
  | [], a, _, ha => ⟨a, rfl, ha⟩
  | r :: rest, a, hQ, ha => by
      obtain ⟨t, ht, hPt⟩ := hP a ha r (hQ r List.mem_cons_self)
      obtain ⟨b, hb, hPb⟩ := run?_invariant hP rest (a.after r t)
        (fun r hr => hQ r (List.mem_cons_of_mem _ hr)) hPt
      refine ⟨b, ?_, hPb⟩
      rw [run?, ht]
      exact hb

end Session

end ChipEight
