/-!
# Dice

The machine's random bytes. A roll takes the next word of a stream and keeps
its low byte; nothing but a roll moves the stream on. The dice hold the key of
the stream and count the rolls, so the value of each roll to come is fixed.

A seed of 64 bits becomes a key of eight words by a small generator of its own,
which multiplies and adds a constant and scrambles the result.

The stream is that of ChaCha with twelve rounds: 32-bit words, in blocks of sixteen. A block is made from a key of
eight words and its own number: the state holds four constant words, the key,
the number in two words and two zeros; it is stirred by six double rounds and
added to itself as it was. The stream is read by position, so that a draw is a
function of the key and of how many draws came before.
-/

namespace ChipEight

/-! ## The stream -/

namespace ChaCha

/-- The state of a block. -/
abbrev State := Vector UInt32 16

/-- A key. -/
abbrev Key := Vector UInt32 8

/-- A word turned left by `n` places, `0 < n < 32`. -/
def rotate (w n : UInt32) : UInt32 :=
  (w <<< n) ||| (w >>> (32 - n))

/-- Stirs four words of the state. -/
def quarter (a b c d : Fin 16) (s : State) : State :=
  let s := s.set a (s[a] + s[b])
  let s := s.set d (rotate (s[d] ^^^ s[a]) 16)
  let s := s.set c (s[c] + s[d])
  let s := s.set b (rotate (s[b] ^^^ s[c]) 12)
  let s := s.set a (s[a] + s[b])
  let s := s.set d (rotate (s[d] ^^^ s[a]) 8)
  let s := s.set c (s[c] + s[d])
  s.set b (rotate (s[b] ^^^ s[c]) 7)

/-- Stirs the four columns, then the four diagonals. -/
def doubleRound (s : State) : State :=
  let s := quarter 0 4 8 12 s
  let s := quarter 1 5 9 13 s
  let s := quarter 2 6 10 14 s
  let s := quarter 3 7 11 15 s
  let s := quarter 0 5 10 15 s
  let s := quarter 1 6 11 12 s
  let s := quarter 2 7 8 13 s
  quarter 3 4 9 14 s

/-- `n` double rounds. -/
def stir : Nat → State → State
  | 0, s => s
  | n + 1, s => stir n (doubleRound s)

/-- The state of a block before it is stirred. -/
def start (key : Key) (block : Nat) : State :=
  #v[0x61707865, 0x3320646e, 0x79622d32, 0x6b206574,
     key[0], key[1], key[2], key[3], key[4], key[5], key[6], key[7],
     UInt32.ofNat block, UInt32.ofNat (block / 0x100000000), 0, 0]

/-- The words of a block. -/
def block (key : Key) (n : Nat) : State :=
  let s := start key n
  Vector.zipWith (· + ·) (stir 6 s) s

/-- The word at a position of the stream. -/
def word (key : Key) (i : Nat) : UInt32 :=
  (block key (i / 16))[i % 16]

end ChaCha

/-- A stream of random bytes and how much of it is used up. -/
structure Dice where
  key : ChaCha.Key
  rolled : Nat
deriving DecidableEq

namespace Dice

/-! ## From a seed to a key -/

/-- The next state of the seed's generator. -/
def advance (s : UInt64) : UInt64 :=
  s * 6364136223846793005 + 11634580027462260723

/-- The word that a state of the seed's generator stands for: its high bits
folded together and turned right by its top five bits. -/
def scramble (s : UInt64) : UInt32 :=
  let folded : UInt32 := (((s >>> 18) ^^^ s) >>> 27).toUInt32
  let turn : UInt32 := (s >>> 59).toUInt32
  if turn = 0 then folded else (folded >>> turn) ||| (folded <<< (32 - turn))

/-- The state after `n` steps. -/
def after : Nat → UInt64 → UInt64
  | 0, s => s
  | n + 1, s => after n (advance s)

/-- The key of a seed. -/
def keyOfSeed (seed : UInt64) : ChaCha.Key :=
  Vector.ofFn fun i => scramble (after (i.val + 1) seed)

/-- Fresh dice for a seed. -/
def ofSeed (seed : UInt64) : Dice :=
  { key := keyOfSeed seed, rolled := 0 }

/-! ## Rolling -/

/-- The byte of the roll with a number, counted from zero. -/
def face (d : Dice) (i : Nat) : UInt8 :=
  (ChaCha.word d.key i).toUInt8

/-- One roll. -/
def roll (d : Dice) : UInt8 × Dice :=
  (d.face d.rolled, { d with rolled := d.rolled + 1 })

end Dice

end ChipEight
