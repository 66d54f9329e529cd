/-!
# The host

The machine runs on a host with words of 64 bits. Sizes and coordinates are
natural numbers here; where the host has no room for one, the operation that
asks for it has no answer.

A number with a point is kept by the host as a binary fraction of 53 significant
digits, the nearest there is and, of two that are as near, the one with an even
last digit. A whole number is kept exactly up to 2⁵³, and beyond if its last
binary digits are zeros.
-/

namespace ChipEight

/-! ## Words -/

/-- One more than the largest word of the host. -/
def wordLimit : Nat := 0x10000000000000000

/-- One more than the most bytes that one buffer can have. -/
def bufferLimit : Nat := 0x8000000000000000

/-- A number, if a word of the host can hold it. -/
def checked? (n : Nat) : Option Nat :=
  if n < wordLimit then some n else none

theorem checked?_eq_some_iff {n k : Nat} : checked? n = some k ↔ n < wordLimit ∧ n = k := by
  unfold checked?
  split
  case isTrue h => exact ⟨fun heq => ⟨h, Option.some.inj heq⟩, fun heq => congrArg some heq.2⟩
  case isFalse h => exact ⟨nofun, fun heq => absurd heq.1 h⟩

/-! ## Binary fractions -/

/-- The number `digits / 2 ^ places`. -/
structure BinaryFraction where
  digits : Nat
  places : Nat
deriving DecidableEq, Repr

namespace BinaryFraction

/-- Two to a power. -/
def powerOfTwo (n : Nat) : Nat :=
  Nat.pow 2 n

/-- `n / d` to the nearest whole number; a half goes to the even neighbour. -/
def nearest (n d : Nat) : Nat :=
  let q := n / d
  let r := 2 * (n % d)
  if r < d ∨ (r = d ∧ q % 2 = 0) then q else q + 1

/-- Binary places that give `n / d` at least 53 digits and at most 54. -/
def roughPlaces (n d : Nat) : Nat :=
  53 + Nat.log2 d - Nat.log2 n

/-- Binary places that give `n / d` 53 digits, for `0 < d` and `0 < n < 2 ^ 53`. -/
def places53 (n d : Nat) : Nat :=
  let p := roughPlaces n d
  if powerOfTwo 53 ≤ n * powerOfTwo p / d then p - 1 else p

/-- The fraction nearest to `n / d`, for `0 < d` and `0 < n < 2 ^ 53`. -/
def ofQuotient (n d : Nat) : BinaryFraction :=
  let p := places53 n d
  { digits := nearest (n * powerOfTwo p) d, places := p }

/-- The power of two with 53 zeros. Up to here every whole number is kept exactly. -/
def exactLimit : Nat := 0x20000000000000

/-- The number of at most 53 significant digits nearest to a whole number. -/
def rounded (i : Nat) : Nat :=
  if i < exactLimit then i
  else
    let unit := powerOfTwo (Nat.log2 i - 52)
    nearest i unit * unit

theorem rounded_of_le {i : Nat} (hi : i ≤ exactLimit) : rounded i = i := by
  rcases Nat.lt_or_eq_of_le hi with hlt | rfl
  · exact if_pos hlt
  · rfl

/-- The first whole number that is not kept exactly. -/
theorem rounded_collision : rounded (exactLimit + 1) = rounded exactLimit := rfl

end BinaryFraction

end ChipEight
