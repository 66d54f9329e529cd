import ChipEight.Host

/-!
# The square wave

A square wave is at its amplitude for the first half of each period and at the
opposite for the second. The number of samples is the span times the rate,
rounded down; sample `i` is high when the remainder of `i` by the period is less
than half a period. A pitch of zero has an endless period and every sample is
high.

The period in samples is the rate over the pitch, as a binary fraction of the
host; a quotient that is a whole number is kept exactly. The number of a sample
is kept in the same way, which shows from sample 2⁵³ on.

Samples are signed 16-bit words. The lowest of them has no opposite: a wave
with that amplitude has no value if it would go low. Nor has a wave of more
samples than one buffer can have.

For streaming, a sample is two bytes, the low one first.
-/

namespace ChipEight

namespace BinaryFraction

/-- What is left of a whole number when the fraction is taken away as often as
it fits, in units of the fraction's last place. -/
def remainder (f : BinaryFraction) (i : Nat) : Nat :=
  (rounded i * powerOfTwo f.places) % f.digits

/-- Whether a whole number falls into the first half of a period of this
length. -/
def inFirstHalf (f : BinaryFraction) (i : Nat) : Bool :=
  2 * f.remainder i < f.digits

end BinaryFraction

namespace Wave

/-- How many samples a span of nanoseconds has, as a word of the host. -/
def count (sampleRate nanos : Nat) : Nat :=
  sampleRate * nanos / 1000000000 % wordLimit

/-- The period in samples; that of pitch zero has no end. -/
def period? (sampleRate pitch : Nat) : Option BinaryFraction :=
  if pitch = 0 then none else some (BinaryFraction.ofQuotient sampleRate pitch)

/-- Whether sample `i` is in the first half of its period. -/
def isHigh (period : Option BinaryFraction) (i : Nat) : Bool :=
  match period with
  | none => true
  | some p => p.inFirstHalf i

/-- Whether the first `n` samples are all high. -/
def isFlat (period : Option BinaryFraction) (n : Nat) : Bool :=
  n.all fun i _ => isHigh period i

/-- The samples of a span. -/
def samples? (sampleRate pitch nanos : Nat) (amplitude : Int16) : Option (List Int16) :=
  let n := count sampleRate nanos
  let period := period? sampleRate pitch
  if bufferLimit ≤ 2 * n then none
  else if amplitude = Int16.minValue ∧ !isFlat period n then none
  else some ((List.range n).map fun i => if isHigh period i then amplitude else -amplitude)

/-! ## Samples as bytes -/

/-- The two bytes of a sample, the low one first. -/
def sampleBytes (a : Int16) : List UInt8 :=
  [a.toUInt16.toUInt8, (a.toUInt16 >>> 8).toUInt8]

/-- The bytes of some samples. -/
def bytes (samples : List Int16) : List UInt8 :=
  samples.flatMap sampleBytes

/-- A sample from its two bytes. -/
def ofBytes (low high : UInt8) : Int16 :=
  (low.toUInt16 ||| (high.toUInt16 <<< 8)).toInt16

/-- The samples of some bytes; an odd byte at the end is left out. -/
def unbytes : List UInt8 → List Int16
  | low :: high :: rest => ofBytes low high :: unbytes rest
  | _ => []

end Wave

end ChipEight
