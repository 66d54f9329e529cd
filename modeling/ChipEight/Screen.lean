import ChipEight.Host

/-!
# The screen

A grid of pixels that are on or off, packed eight to a byte: each row starts at
a byte of its own, and the leftmost pixel of a byte is its highest bit. A width
that is no multiple of eight leaves spare bits at the end of a row.

What a caller sees is `pixel`, which is `false` off the screen. Writing a pixel
off the screen does nothing. The packed bytes show through only for those who
want to compare or to save them.

Sizes and coordinates are natural numbers, understood as 64-bit words. A screen
whose size does not fit has no value; see `blank?`.
-/

namespace ChipEight

/-- Bytes of a row of `width` pixels. -/
def rowBytes (width : Nat) : Nat :=
  (width + 7) / 8

/-- The sizes a screen can have: the width can be rounded up to a whole byte
before it is divided, and the rows together make one buffer. -/
def FitsScreen (width height : Nat) : Prop :=
  width + 7 < wordLimit ∧ rowBytes width * height < bufferLimit

instance (width height : Nat) : Decidable (FitsScreen width height) :=
  inferInstanceAs (Decidable (_ ∧ _))

/-- A grid of pixels, packed by rows. -/
structure Screen where
  width : Nat
  height : Nat
  buffer : Array UInt8
  size_buffer : buffer.size = rowBytes width * height
  fits : FitsScreen width height
deriving DecidableEq

namespace Screen

/-! ## A new screen -/

/-- How many bytes a screen takes: the width is rounded up to whole bytes, and there is a
row of them for each row of pixels. -/
def bufferBytes? (width height : Nat) : Option Nat := do
  let rounded ← checked? (width + 7)
  checked? (rounded / 8 * height)

theorem bufferBytes?_eq_some_iff {w h n : Nat} : bufferBytes? w h = some n ↔
    (w + 7 < wordLimit ∧ rowBytes w * h < wordLimit) ∧ rowBytes w * h = n := by
  constructor
  · intro hbytes
    obtain ⟨rounded, hrounded, hbytes⟩ := Option.bind_eq_some_iff.mp hbytes
    obtain ⟨hsum, rfl⟩ := checked?_eq_some_iff.mp hrounded
    obtain ⟨hproduct, hn⟩ := checked?_eq_some_iff.mp hbytes
    exact ⟨⟨hsum, hproduct⟩, hn⟩
  · rintro ⟨⟨hsum, hproduct⟩, hn⟩
    have hrounded : checked? (w + 7) = some (w + 7) := checked?_eq_some_iff.mpr ⟨hsum, rfl⟩
    exact Option.bind_eq_some_iff.mpr ⟨w + 7, hrounded, checked?_eq_some_iff.mpr ⟨hproduct, hn⟩⟩

theorem fits_of_bufferBytes? {w h n : Nat} (hbytes : bufferBytes? w h = some n)
    (hroom : n < bufferLimit) : rowBytes w * h = n ∧ FitsScreen w h := by
  obtain ⟨⟨hsum, -⟩, rfl⟩ := bufferBytes?_eq_some_iff.mp hbytes
  exact ⟨rfl, hsum, hroom⟩

/-- A screen with every pixel off, if its bytes can be counted and one buffer can have
them. -/
def blank? (width height : Nat) : Option Screen :=
  match hbytes : bufferBytes? width height with
  | none => none
  | some n =>
    if hroom : n < bufferLimit then
      have hsize := fits_of_bufferBytes? hbytes hroom
      some {
        width := width
        height := height
        buffer := Array.replicate n 0
        size_buffer := Array.size_replicate.trans hsize.1.symm
        fits := hsize.2 }
    else none

theorem blank?_of_fits {w h : Nat} (hfits : FitsScreen w h) : blank? w h = some {
    width := w
    height := h
    buffer := Array.replicate (rowBytes w * h) 0
    size_buffer := Array.size_replicate
    fits := hfits } := by
  obtain ⟨hsum, hroom⟩ := hfits
  have hword : rowBytes w * h < wordLimit :=
    Nat.lt_trans hroom (by decide : bufferLimit < wordLimit)
  have hbytes : bufferBytes? w h = some (rowBytes w * h) :=
    bufferBytes?_eq_some_iff.mpr ⟨⟨hsum, hword⟩, rfl⟩
  unfold blank?
  split
  case h_1 hnone => cases hbytes.symm.trans hnone
  case h_2 n hn =>
      obtain rfl := Option.some.inj (hbytes.symm.trans hn)
      rw [dif_pos hroom]

/-- Only a screen whose size fits is made, and its buffer holds nothing but zeros. -/
theorem of_blank? {w h : Nat} {s : Screen} (hs : blank? w h = some s) :
    s.width = w ∧ s.height = h ∧ s.buffer = Array.replicate (rowBytes w * h) 0 := by
  unfold blank? at hs
  split at hs
  case h_1 => cases hs
  case h_2 n hbytes =>
      split at hs
      case isTrue hroom =>
          obtain rfl := Option.some.inj hs
          exact ⟨rfl, rfl, congrArg (Array.replicate · 0) (fits_of_bufferBytes? hbytes hroom).1.symm⟩
      case isFalse => cases hs

/-- Whether a screen has a size that fits, but takes more than the host has memory for. -/
def isBeyondMemory (memory width height : Nat) : Bool :=
  FitsScreen width height && memory ≤ rowBytes width * height

/-! ## Where a pixel lives -/

/-- The byte of a pixel. -/
def index (s : Screen) (x y : Nat) : Nat :=
  y * rowBytes s.width + x / 8

/-- The bit of a pixel in its byte. -/
def mask (x : Nat) : UInt8 :=
  0x80 >>> UInt8.ofNat (x % 8)

theorem column_lt {width x : Nat} (h : x < width) : x / 8 < rowBytes width := by
  unfold rowBytes
  omega

theorem place_lt (s : Screen) {c y : Nat} (hc : c < rowBytes s.width) (hy : y < s.height) :
    y * rowBytes s.width + c < s.buffer.size := by
  have h1 : (y + 1) * rowBytes s.width ≤ s.height * rowBytes s.width :=
    Nat.mul_le_mul_right _ hy
  rw [s.size_buffer, Nat.mul_comm (rowBytes s.width)]
  rw [Nat.succ_mul] at h1
  omega

theorem index_lt (s : Screen) {x y : Nat} (h : x < s.width ∧ y < s.height) :
    s.index x y < s.buffer.size :=
  s.place_lt (column_lt h.1) h.2

/-! ## Single pixels -/

/-- Whether a pixel is on; off the screen none is. -/
def pixel (s : Screen) (x y : Nat) : Bool :=
  if h : x < s.width ∧ y < s.height then
    have := s.index_lt h
    s.buffer[s.index x y] &&& mask x != 0
  else false

/-- A screen with one byte replaced. -/
def setByte (s : Screen) (i : Nat) (value : UInt8) (h : i < s.buffer.size) : Screen :=
  { s with
    buffer := s.buffer.set i value h
    size_buffer := by rw [Array.size_set]; exact s.size_buffer }

/-- A screen with one pixel turned on or off; off the screen nothing changes. -/
def set (s : Screen) (x y : Nat) (on : Bool) : Screen :=
  if h : x < s.width ∧ y < s.height then
    have hi := s.index_lt h
    let old := s.buffer[s.index x y]
    s.setByte (s.index x y) (if on then old ||| mask x else old &&& ~~~ mask x) hi
  else s

/-- The screen with every pixel off. -/
def clear (s : Screen) : Screen :=
  { s with
    buffer := s.buffer.map fun _ => 0
    size_buffer := by rw [Array.size_map]; exact s.size_buffer }

/-! ## The size stays -/

@[simp] theorem width_set (s : Screen) (x y : Nat) (on : Bool) :
    (s.set x y on).width = s.width := by
  unfold set
  split <;> rfl

@[simp] theorem height_set (s : Screen) (x y : Nat) (on : Bool) :
    (s.set x y on).height = s.height := by
  unfold set
  split <;> rfl

end Screen

end ChipEight
