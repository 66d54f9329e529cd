import ChipEight.Proofs.Machine.Steps
import Mathlib.Algebra.BigOperators.Group.Finset.Piecewise
import Mathlib.Algebra.BigOperators.Group.Finset.Sigma
import Mathlib.Data.Nat.Count

/-!
# Drawing on a torus

What a draw instruction comes to, told by numbers alone. A bit of the sprite, in
row `r` and column `c`, lies over the pixel that is `c` columns and `r` rows from
the origin, both counted round the screen. `Machine.hits` counts the set bits
that lie over a pixel. Drawing changes the pixels with an odd count, and the flag
tells whether one was hit that was on, or hit twice.

The count is where a list meets a set: every way of drawing is known to turn over
the pixels of one list, and `count_wrappedPixels` says how often each is in it.
-/

namespace ChipEight

namespace Screen

/-! ## How often a pixel is hit -/

/-- The set bits of a sprite of `n` rows at `(x, y)` that lie over the pixel
`(p, q)`, by row and column. -/
def bitsOver (w h x y n : Nat) (row : Nat → UInt8) (p q : Nat) : Finset (Nat × Nat) :=
  (Finset.range n ×ˢ Finset.range 8).filter fun a =>
    (row a.1).toNat.testBit (7 - a.2) = true ∧ (x + a.2) % w = p ∧ (y + a.1) % h = q

theorem card_bitsOver (w h x y n : Nat) (row : Nat → UInt8) (p q : Nat) :
    (bitsOver w h x y n row p q).card = ∑ r ∈ Finset.range n, ((Finset.range 8).filter fun c =>
      (row r).toNat.testBit (7 - c) = true ∧ (x + c) % w = p ∧ (y + r) % h = q).card := by
  unfold bitsOver
  rw [Finset.card_filter, Finset.sum_product]
  exact Finset.sum_congr rfl fun r _ => (Finset.card_filter _ _).symm

theorem count_columns (w h x y r : Nat) (b : UInt8) (p q : Nat) :
    ((columns b).map fun c => ((x + c) % w, (y + r) % h)).count (p, q) =
      ((Finset.range 8).filter fun c =>
        b.toNat.testBit (7 - c) = true ∧ (x + c) % w = p ∧ (y + r) % h = q).card := by
  unfold columns
  rw [List.count, List.countP_map, List.countP_filter, ← Nat.count_eq_card_filter_range]
  refine List.countP_congr fun c hc => ?_
  have hc : c < 8 := List.mem_range.mp hc
  have hbit : (b &&& mask c != 0) = b.toNat.testBit (7 - c) := by
    rw [← Nat.mod_eq_of_lt hc, ← bit_eq_testBit]
    exact (bit_mod b c)
  simp [hbit, and_comm]

/-- A pixel is in the list of a sprite once for every set bit over it. -/
theorem count_wrappedPixels (w h x y : Nat) (row : Nat → UInt8) (p q : Nat) (n : Nat) :
    (wrappedPixels w h x y ((List.range n).map row)).count (p, q) =
      (bitsOver w h x y n row p q).card := by
  rw [card_bitsOver]
  induction n with
  | zero => rfl
  | succ n ih =>
      rw [Finset.sum_range_succ, ← ih, ← count_columns]
      unfold wrappedPixels
      rw [List.range_succ, List.map_append, List.zipIdx_append, List.flatMap_append,
        List.count_append]
      simp

end Screen

/-- The byte of memory with a number; numbers come round after 4096. -/
def Ram.byteAt (r : Ram) (k : Nat) : UInt8 :=
  r.bytes.get ⟨k % 4096, Nat.mod_lt _ (by decide)⟩

namespace Machine

/-! ## The instruction -/

/-- The opcode that draws `n` rows at the pixel that two registers name. -/
def drawOpcode (x y n : Fin 16) : UInt16 :=
  UInt16.ofNat (0xd000 + 256 * x.val + 16 * y.val + n.val)

/-- How many set bits of the sprite that is in memory from the index on come to
lie over a pixel, when it is drawn where two registers say. -/
def hits (m : Machine) (x y n : Fin 16) (p q : Nat) : Nat :=
  ((Finset.range n.val ×ˢ Finset.range 8).filter fun a =>
    (m.ram.byteAt (m.index.toNat + a.1)).toNat.testBit (7 - a.2) = true ∧
    ((m.registers.get x).toNat % m.screen.width + a.2) % m.screen.width = p ∧
    ((m.registers.get y).toNat % m.screen.height + a.1) % m.screen.height = q).card

theorem toNat_drawOpcode (x y n : Fin 16) :
    (drawOpcode x y n).toNat = 0xd000 + 256 * x.val + 16 * y.val + n.val := by
  unfold drawOpcode
  rw [UInt16.toNat_ofNat']
  exact Nat.mod_eq_of_lt (by omega)

theorem decode_drawOpcode (x y n : Fin 16) : Instr.decode (drawOpcode x y n) =
    some (.draw (UInt8.ofNat x.val) (UInt8.ofNat y.val) (UInt8.ofNat n.val)) := by
  have hop := toNat_drawOpcode x y n
  have hnumber : ∀ (b : UInt8) (k : Fin 16), b.toNat = k.val → UInt8.ofNat k.val = b := by
    intro b k hb
    rw [← hb, UInt8.ofNat_toNat]
  refine Instr.decode_of_codes ⟨by omega, hnumber _ x ?_, hnumber _ y ?_, hnumber _ n ?_⟩
  · rw [Instr.toNat_fieldX]
    omega
  · rw [Instr.toNat_fieldY]
    omega
  · rw [Instr.toNat_fieldN]
    omega

variable (m : Machine)

theorem reg_ofNat (x : Fin 16) : m.reg (UInt8.ofNat x.val) = m.registers.get x := by
  have hx : (UInt8.ofNat x.val).toNat % 16 = x.val := by
    rw [UInt8.toNat_ofNat']
    omega
  exact congrArg m.registers.get (Fin.ext hx)

theorem read_add (r : Nat) :
    m.ram.read (m.index + UInt16.ofNat r) = m.ram.byteAt (m.index.toNat + r) :=
  congrArg m.ram.bytes.get (Fin.ext (place_add m.index r))

theorem sprite_eq (n : Fin 16) : m.sprite (UInt8.ofNat n.val) =
    (List.range n.val).map fun r => m.ram.byteAt (m.index.toNat + r) := by
  have hn : min (UInt8.ofNat n.val).toNat 15 = n.val := by
    rw [UInt8.toNat_ofNat']
    omega
  unfold sprite
  rw [hn]
  exact List.map_congr_left fun r _ => m.read_add r

theorem ofNat_lt (x : Fin 16) : UInt8.ofNat x.val < 16 := by
  rw [UInt8.lt_iff_toNat_lt, UInt8.toNat_ofNat']
  exact Nat.lt_of_le_of_lt (Nat.mod_le _ _) x.isLt

/-- What is drawn is told by the counts. -/
theorem draw?_hits (x y n : Fin 16) (hw : 0 < m.screen.width) (hh : 0 < m.screen.height) :
    ∃ out : Screen × Bool,
      m.draw? (UInt8.ofNat x.val) (UInt8.ofNat y.val) (UInt8.ofNat n.val) =
        some ({ m with screen := out.1 }.setFlag out.2) ∧
      out.1.width = m.screen.width ∧ out.1.height = m.screen.height ∧
      (∀ p q, p < m.screen.width → q < m.screen.height →
        out.1.pixel p q = (m.screen.pixel p q ^^ decide (m.hits x y n p q % 2 = 1))) ∧
      (out.2 = true ↔ ∃ p q, p < m.screen.width ∧ q < m.screen.height ∧
        (1 ≤ m.hits x y n p q ∧ m.screen.pixel p q = true ∨ 2 ≤ m.hits x y n p q)) := by
  obtain ⟨out, hdraw, hflip⟩ :=
    draw?_flipped (m := m) (ofNat_lt x) (ofNat_lt y) (UInt8.ofNat n.val) hw hh
  rw [reg_ofNat, reg_ofNat, sprite_eq] at hflip
  have hcount : ∀ p q, List.count (p, q) _ = m.hits x y n p q :=
    fun p q => Screen.count_wrappedPixels m.screen.width m.screen.height
      ((m.registers.get x).toNat % m.screen.width) ((m.registers.get y).toNat % m.screen.height)
      (fun r => m.ram.byteAt (m.index.toNat + r)) p q n.val
  refine ⟨out, hdraw, hflip.width, hflip.height, ?_, ?_⟩
  · intro p q hp hq
    rw [← hcount]
    exact hflip.pixel hp hq
  · simp only [← hcount]
    exact hflip.hit

/-- Drawing on a torus. Wherever a draw instruction is found, on a screen of any
size, the step goes well; a pixel is changed when an odd number of set bits lie
over it, the flag is set exactly when a pixel was hit that was on or one was hit
twice, and nothing else changes but the program counter. -/
theorem step?_draw {m : Machine} {x y n : Fin 16} (keys : Keypad)
    (hop : m.ram.word? m.pc = some (drawOpcode x y n)) (hw : 0 < m.screen.width)
    (hh : 0 < m.screen.height) :
    ∃ t screen flag, m.step? keys = some t ∧ t.fault = none ∧ t.tones = #[] ∧
      t.machine = { m with
        pc := m.pc + 2, screen := screen, registers := m.registers.set 15 flag } ∧
      screen.width = m.screen.width ∧ screen.height = m.screen.height ∧
      (∀ p q, p < m.screen.width → q < m.screen.height →
        screen.pixel p q = (m.screen.pixel p q ^^ decide (m.hits x y n p q % 2 = 1))) ∧
      (flag = 0 ∨ flag = 1) ∧
      (flag = 1 ↔ ∃ p q, p < m.screen.width ∧ q < m.screen.height ∧
        (1 ≤ m.hits x y n p q ∧ m.screen.pixel p q = true ∨ 2 ≤ m.hits x y n p q)) := by
  obtain ⟨out, hdraw, hwidth, hheight, hpixel, hhit⟩ := m.advanced.draw?_hits x y n hw hh
  have hstep : m.step? keys = some ((Turn.done
      ({ m.advanced with screen := out.1 }.setFlag out.2)).noting
        (.executing m.pc (drawOpcode x y n)
          (.draw (UInt8.ofNat x.val) (UInt8.ofNat y.val) (UInt8.ofNat n.val)))) := by
    rw [step?_of_word keys hop, obey?, decode_drawOpcode]
    simp only [execute?, hdraw]
    rfl
  refine ⟨_, out.1, if out.2 then 1 else 0, hstep, rfl, rfl, rfl, hwidth, hheight, hpixel, ?_, ?_⟩
  · cases out.2 with
    | false => exact Or.inl rfl
    | true => exact Or.inr rfl
  · refine Iff.trans ?_ hhit
    cases out.2 with
    | false => decide
    | true => decide

/-- A machine with a screen of three pixels and nothing but `0xd1` in memory. As
an instruction that draws one row; as a row it has four bits set. -/
def striped : Machine where
  settings := { width := 3, height := 1 }
  ram := { bytes := Vector.replicate 4096 0xd1 }
  screen := (Screen.blank? 3 1).get (by decide)
  registers := Vector.replicate 16 0
  index := 0
  pc := 0
  stack := Vector.replicate 16 0
  depth := 0
  delay := 0
  sound := 0
  dice := Dice.ofSeed 0

/-- Going round the screen, the row hits two pixels twice: none is changed, and
the flag is set though all were off. -/
theorem step?_draw_striped : ∃ t, striped.step? .untouched = some t ∧
    (∀ p < 3, t.machine.screen.pixel p 0 = striped.screen.pixel p 0) ∧
      t.machine.registers.get 15 = 1 := by
  have hbyte : ∀ k, striped.ram.byteAt k = 0xd1 := fun k => Vector.getElem_replicate ..
  have hop : striped.ram.word? striped.pc = some (drawOpcode 1 13 1) :=
    congrArg some (congrArg₂ bigEndian (hbyte 0) (hbyte 1))
  have hhits : ∀ p < 3, striped.hits 1 13 1 p 0 = if p = 2 then 0 else 2 := by
    unfold hits
    simp only [hbyte]
    decide
  obtain ⟨t, screen, flag, ht, -, -, hm, -, -, hpixel, -, hflag⟩ :=
    step?_draw .untouched hop (by decide) (by decide)
  have hset : flag = 1 :=
    hflag.mpr ⟨0, 0, by decide, by decide, Or.inr (hhits 0 (by decide) ▸ by decide)⟩
  refine ⟨t, ht, ?_, ?_⟩
  · intro p hp
    rw [hm]
    show screen.pixel p 0 = _
    rw [hpixel p 0 hp (by decide), hhits p hp]
    split <;> simp
  · rw [hm, hset]
    rfl

end Machine

end ChipEight
