import ChipEight.Machine.Step
import ChipEight.Proofs.Instr.Table
import ChipEight.Proofs.Screen.Flipping

/-!
# What the parts of a step come to

The parts of a step answer `none` where a register, a stack entry or room in a
word is missing. Instructions out of an opcode name registers below sixteen and
addresses below 4096, and a machine that just fetched one has its program
counter at `0x1000` or before; with that no part lacks anything, and each comes
to one total operation (`register?_eq` and those after it).

The parts that write many bytes or many registers are told by what they leave
alone: a chain of writes changes no byte that none of them is at
(`get_foldl_write_other`).
-/

namespace ChipEight

namespace Machine

/-! ## Registers -/

/-- What a register holds; numbers come round after sixteen. -/
def reg (m : Machine) (x : UInt8) : UInt8 :=
  m.registers.get ⟨x.toNat % 16, Nat.mod_lt _ (by decide)⟩

/-- The machine with a register replaced; numbers come round after sixteen. -/
def setReg (m : Machine) (x value : UInt8) : Machine :=
  { m with registers := m.registers.set (x.toNat % 16) value (Nat.mod_lt _ (by decide)) }

theorem get_set {α : Type} {n i : Nat} (v : Vector α n) (hi : i < n) (a : α) (j : Fin n) :
    (v.set i a).get j = if i = j.val then a else v.get j := by
  exact Vector.getElem_set ..

variable {m : Machine} {x y : UInt8}

theorem register?_eq (hx : x < 16) : m.register? x = some (m.reg x) := by
  have hx' : x.toNat < 16 := hx
  have hmod : x.toNat % 16 = x.toNat := Nat.mod_eq_of_lt hx'
  simp [register?, reg, Vector.get, hx', hmod]

theorem register?_bind {α : Type} (hx : x < 16) (f : UInt8 → Option α) :
    m.register? x >>= f = f (m.reg x) := by
  rw [register?_eq hx]
  rfl

theorem setRegister?_eq (hx : x < 16) (value : UInt8) :
    m.setRegister? x value = some (m.setReg x value) := by
  have hx' : x.toNat < 16 := hx
  have hmod : x.toNat % 16 = x.toNat := Nat.mod_eq_of_lt hx'
  simp [setRegister?, setReg, hx', hmod]

theorem combine?_eq (hx : x < 16) (hy : y < 16) (f : UInt8 → UInt8 → UInt8) :
    m.combine? x y f = some (m.setReg x (f (m.reg x) (m.reg y))) := by
  simp [combine?, register?_eq hx, register?_eq hy, setRegister?_eq hx]

theorem combineFlagged?_eq (hx : x < 16) (hy : y < 16) (f : UInt8 → UInt8 → UInt8 × Bool) :
    m.combineFlagged? x y f =
      some ((m.setReg x (f (m.reg x) (m.reg y)).1).setFlag (f (m.reg x) (m.reg y)).2) := by
  simp [combineFlagged?, setFlagged?, register?_eq hx, register?_eq hy, setRegister?_eq hx]

theorem random?_eq (hx : x < 16) (mask : UInt8) :
    m.random? x mask = some ({ m with dice := m.dice.roll.2 }.setReg x (m.dice.roll.1 &&& mask)) :=
  setRegister?_eq hx _

/-! ## The program counter -/

theorem next?_eq {pc : UInt16} (h : pc.toNat + 2 < 65536) : next? pc = some (pc + 2) := by
  simp [next?, h]

theorem toNat_next {pc : UInt16} (h : pc.toNat + 2 < 65536) : (pc + 2).toNat = pc.toNat + 2 := by
  rw [UInt16.toNat_add]
  exact Nat.mod_eq_of_lt h

theorem skipIf?_eq (h : m.pc.toNat + 2 < 65536) (c : Bool) :
    m.skipIf? c = some { m with pc := if c then m.pc + 2 else m.pc } := by
  cases c <;> simp [skipIf?, next?_eq h]

theorem jumpOffset?_eq {a : UInt16} (ha : a < 4096) :
    m.jumpOffset? a = some { m with pc := a + (m.reg 0).toUInt16 } ∧
      (a + (m.reg 0).toUInt16).toNat = a.toNat + (m.reg 0).toNat := by
  have ha' : a.toNat < 4096 := ha
  have hv := (m.reg 0).toNat_lt
  have hfits : a.toNat + (m.reg 0).toNat < 65536 := by omega
  constructor
  · simp [jumpOffset?, register?_eq (m := m) (x := 0) (by decide), hfits]
  · rw [UInt16.toNat_add, UInt8.toNat_toUInt16]
    exact Nat.mod_eq_of_lt hfits

/-! ## Memory, keys and drawing -/

/-- Adding to the index first as a word does not matter: memory comes round more
often than words do. -/
theorem place_add (a : UInt16) (j : Nat) :
    (Ram.place (a + UInt16.ofNat j)).val = (a.toNat + j) % 4096 := by
  show (a + UInt16.ofNat j).toNat % 4096 = _
  rw [UInt16.toNat_add, UInt16.toNat_ofNat']
  omega

theorem get_write_other (r : Ram) {a : UInt16} {k : Fin 4096} (h : k ≠ Ram.place a) (v : UInt8) :
    (r.write a v).bytes.get k = r.bytes.get k := by
  have hne : (Ram.place a).val ≠ k.val := fun e => h (Fin.ext e.symm)
  exact Vector.getElem_set_ne (Ram.place a).isLt k.isLt hne

theorem get_foldl_write_other {k : Fin 4096} (place : Fin 16 → UInt16) (value : Fin 16 → UInt8)
    (l : List (Fin 16)) (r : Ram) (h : ∀ i ∈ l, k ≠ Ram.place (place i)) :
    (l.foldl (fun r i => r.write (place i) (value i)) r).bytes.get k = r.bytes.get k := by
  induction l generalizing r with
  | nil => rfl
  | cons i l ih =>
      rw [List.foldl_cons, ih _ fun j hj => h j (List.mem_cons_of_mem _ hj)]
      exact get_write_other r (h i List.mem_cons_self) _

theorem le_of_mem_registersTo {i : Fin 16} (h : i ∈ registersTo x) : i.val ≤ x.toNat := by
  unfold registersTo at h
  obtain ⟨j, hj, rfl⟩ := List.mem_take_iff_getElem.mp h
  rw [List.getElem_finRange]
  show j ≤ x.toNat
  omega

theorem store?_eq (hx : x < 16) : ∃ ram, m.store? x = some { m with ram := ram } ∧
    ∀ k : Fin 4096, (∀ j ≤ x.toNat, k.val ≠ (m.index.toNat + j) % 4096) →
      ram.bytes.get k = m.ram.bytes.get k := by
  refine ⟨_, if_pos hx, fun k hk => ?_⟩
  refine get_foldl_write_other (fun i => m.index + UInt16.ofNat i.val) m.registers.get _ _ ?_
  intro i hi heq
  refine hk i.val (le_of_mem_registersTo hi) ?_
  rw [heq, place_add]

theorem load?_eq (hx : x < 16) :
    ∃ registers, m.load? x = some { m with registers := registers } ∧
      ∀ r : Fin 16, x.toNat < r.val → registers.get r = m.registers.get r := by
  refine ⟨_, if_pos hx, fun r hr => ?_⟩
  exact (Vector.getElem_ofFn _).trans (if_neg (Nat.not_le_of_lt hr))

theorem digits?_eq (hx : x < 16) : ∃ ram, m.digits? x = some { m with ram := ram } ∧
    ∀ k : Fin 4096, (∀ j < 3, k.val ≠ (m.index.toNat + j) % 4096) →
      ram.bytes.get k = m.ram.bytes.get k := by
  refine ⟨_, register?_bind hx _, fun k hk => ?_⟩
  have hplace : ∀ j < 3, k ≠ Ram.place (m.index + UInt16.ofNat j) := by
    intro j hj heq
    exact hk j hj (heq ▸ place_add m.index j)
  have hfirst : k ≠ Ram.place m.index := by
    have := hplace 0 (by decide)
    rwa [show m.index + UInt16.ofNat 0 = m.index from UInt16.add_zero _] at this
  exact (get_write_other _ (hplace 2 (by decide)) _).trans
    ((get_write_other _ (hplace 1 (by decide)) _).trans (get_write_other _ hfirst _))

theorem awaitKey?_eq (hx : x < 16) (keys : Keypad) (pc : UInt16) :
    m.awaitKey? keys pc x = match keys.lowest with
      | some key => some (.done (m.setReg x key))
      | none => some (Turn.done { m with pc := pc } |>.noting (.waiting pc)) := by
  unfold awaitKey?
  rw [show (m.setRegister? x) = fun key => some (m.setReg x key) from
    funext (setRegister?_eq hx)]
  rfl

theorem length_sprite (m : Machine) (n : UInt8) : (m.sprite n).length = min n.toNat 15 := by
  simp [sprite]

theorem draw?_flipped (hx : x < 16) (hy : y < 16) (n : UInt8) (hw : 0 < m.screen.width)
    (hh : 0 < m.screen.height) :
    ∃ out, m.draw? x y n = some ({ m with screen := out.1 }.setFlag out.2) ∧
      m.screen.Flipped (Screen.wrappedPixels m.screen.width m.screen.height
        ((m.reg x).toNat % m.screen.width) ((m.reg y).toNat % m.screen.height)
        (m.sprite n)) out := by
  obtain ⟨out, hout, hflip⟩ := m.screen.drawWrapped?_flipped (m.reg x).toNat (m.reg y).toNat
    (m.sprite n) hw hh (by rw [length_sprite]; omega)
  refine ⟨out, ?_, hflip⟩
  simp [draw?, register?_eq hx, register?_eq hy, hout]

end Machine

end ChipEight
