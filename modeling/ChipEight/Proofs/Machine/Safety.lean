import ChipEight.Machine.Frame
import ChipEight.Proofs.Machine.Steps

/-!
# Safe machines

`Safe s m` is the invariant of a machine that was built with the settings `s`:
it still has them and a screen of their size, the program counter is `0x10fe` at
most, and the stack holds at most sixteen addresses, each one a call can have
left there. The counter may be past the end of memory. A jump adds a register to
an address and nothing cuts the sum off, and a skip passes over an instruction
that need not be there; `0x10fe` is how far the first of them gets.

Every operation keeps the invariant, and from a safe machine every step has an
answer. Steps need no case of their own for that: they are taken by their six
outcomes, and in four of those the stack stays as it is.
-/

namespace ChipEight

namespace Machine

/-- What holds of a machine with the settings `s` from when it is built. -/
structure Safe (s : Settings) (m : Machine) : Prop where
  settings : m.settings = s
  width : m.screen.width = s.width
  height : m.screen.height = s.height
  /-- The highest address is that of a jump to `0xfff` with 255 added. -/
  pc_le : m.pc.toNat ≤ 0x10fe
  depth_le : m.depth ≤ 16
  /-- A call that was found in memory is followed by an address of two or more. -/
  stack : ∀ i : Fin 16, i.val < m.depth →
    2 ≤ (m.stack.get i).toNat ∧ (m.stack.get i).toNat ≤ 0x1000

/-! ## The machine that was built -/

variable {s : Settings} {m : Machine}

theorem exists_build (chance : Dice) {screen : Screen} (hs : s.check = none)
    (hw : screen.width = s.width) (hh : screen.height = s.height) :
    ∃ m, build s chance screen = .ok m := by
  simp [build, hs, hw, hh]

theorem safe_of_build {chance : Dice} {screen : Screen} (h : build s chance screen = .ok m) :
    s.check = none ∧ Safe s m := by
  unfold build at h
  split at h
  case h_1 => cases h
  case h_2 hs =>
      split at h
      case isTrue => cases h
      case isFalse hsize =>
          obtain ⟨hw, hh⟩ := Prod.mk.inj (not_not.mp hsize)
          cases h
          refine ⟨hs, rfl, hw, hh, (by decide : Ram.programStart.toNat ≤ 0x10fe), Nat.zero_le _, ?_⟩
          intro i hi
          exact absurd hi (Nat.not_lt_zero _)

theorem screen_pos (hs : s.check = none) : 0 < s.width ∧ 0 < s.height := by
  have hflaw : s.flaw? = none := Option.map_eq_none_iff.mp hs
  obtain ⟨hw, hh, -⟩ := (Settings.flaw?_eq_none_iff s).mp hflaw
  exact ⟨hw, hh⟩

theorem cycles_pos (hs : s.check = none) : 0 < s.cyclesPerTick := by
  have hflaw : s.flaw? = none := Option.map_eq_none_iff.mp hs
  exact ((Settings.flaw?_eq_none_iff s).mp hflaw).2.2.2.2.1

theorem Safe.rate_pos (h : Safe s m) (hs : s.check = none) : 0 < m.settings.tickRate := by
  have hflaw : s.flaw? = none := Option.map_eq_none_iff.mp hs
  rw [h.settings]
  exact ((Settings.flaw?_eq_none_iff s).mp hflaw).2.2.2.2.2.1

/-! ## Loading -/

/-- A load that goes well puts a program into memory and points at its start,
after a restart if the settings say so. -/
theorem load_machine (m : Machine) (rom : Array UInt8) : (m.load rom).machine = m ∨
    ∃ base ram, (base = m ∨ base = m.restart) ∧
      (m.load rom).machine = { base with ram := ram, pc := Ram.programStart } := by
  unfold Machine.load
  simp only []
  split
  case h_1 ram _ => exact Or.inr ⟨_, ram, by split <;> simp, rfl⟩
  case h_2 => exact Or.inl rfl

theorem load_restart {ram : Ram} {rom : Array UInt8} (hm : m.settings.resetOnLoad = true)
    (h : Ram.fresh.loadProgram rom = .ok ram) : (m.load rom).machine.ram = ram ∧
      (m.load rom).machine.pc = Ram.programStart ∧ (m.load rom).machine.depth = 0 := by
  unfold Machine.load
  simp only [hm, if_true]
  unfold Machine.restart
  simp only [h, and_self]

theorem load_of_fits (m : Machine) {rom : Array UInt8} (hrom : rom.size ≤ Ram.programRoom) :
    ∃ base ram, base = (if m.settings.resetOnLoad then m.restart else m) ∧
      base.ram.loadProgram rom = .ok ram ∧
      m.load rom = { machine := { base with ram := ram, pc := Ram.programStart }
                     notes := #[.loaded rom.size] } := by
  refine ⟨_, _, rfl, if_pos hrom, ?_⟩
  unfold Machine.load
  simp only []
  rw [show Ram.loadProgram _ rom = .ok _ from if_pos hrom]

theorem load_of_large (m : Machine) {rom : Array UInt8} (hrom : ¬ rom.size ≤ Ram.programRoom) :
    m.load rom = .failed (.romTooLarge rom.size Ram.programRoom) m := by
  unfold Machine.load
  simp only []
  rw [show Ram.loadProgram _ rom = .error _ from if_neg hrom]
  rfl

theorem loadFrom_eq (m : Machine) (source : Source) :
    (∃ f, m.loadFrom source = .failed f m) ∨ ∃ rom, m.loadFrom source = m.load rom := by
  unfold Machine.loadFrom
  split
  · exact Or.inr ⟨_, rfl⟩
  · exact Or.inl ⟨_, rfl⟩

theorem word_of_load (m : Machine) {rom : Array UInt8} (hrom : rom.size ≤ Ram.programRoom)
    {i : Nat} {high low : UInt8} (hhigh : rom[i]? = some high) (hlow : rom[i + 1]? = some low) :
    (m.load rom).machine.ram.word? (UInt16.ofNat (0x200 + i)) = some (bigEndian high low) := by
  obtain ⟨_, rfl⟩ := Array.getElem?_eq_some_iff.mp hhigh
  obtain ⟨hi, rfl⟩ := Array.getElem?_eq_some_iff.mp hlow
  obtain ⟨base, ram, -, hram, hload⟩ := m.load_of_fits hrom
  rw [hload]
  exact Ram.word?_of_loadProgram hram hi

theorem first_word_of_load (m : Machine) {rom : Array UInt8} (hrom : rom.size ≤ Ram.programRoom)
    {high low : UInt8} (hhigh : rom[0]? = some high) (hlow : rom[1]? = some low) :
    (m.load rom).machine.ram.word? (m.load rom).machine.pc = some (bigEndian high low) := by
  have hword := m.word_of_load hrom hhigh hlow
  obtain ⟨base, ram, -, -, hload⟩ := m.load_of_fits hrom
  rw [hload] at hword ⊢
  exact hword

theorem Safe.restart (h : Safe s m) : Safe s m.restart := by
  -- unfolded first: to see that a field is kept, the memory need not be computed
  unfold Machine.restart
  refine ⟨h.settings, h.width, h.height, h.pc_le, Nat.zero_le _, ?_⟩
  intro i hi
  exact absurd hi (Nat.not_lt_zero _)

theorem Safe.loaded (h : Safe s m) (ram : Ram) :
    Safe s { m with ram := ram, pc := Ram.programStart } :=
  ⟨h.settings, h.width, h.height, (by decide : Ram.programStart.toNat ≤ 0x10fe), h.depth_le,
    h.stack⟩

theorem Safe.load (h : Safe s m) (rom : Array UInt8) : Safe s (m.load rom).machine := by
  rcases m.load_machine rom with hsame | ⟨base, ram, hbase, hloaded⟩
  · rw [hsame]
    exact h
  · have hsafe : Safe s base := by
      rcases hbase with rfl | rfl
      · exact h
      · exact h.restart
    rw [hloaded]
    exact hsafe.loaded ram

theorem Safe.loadFrom (h : Safe s m) (source : Source) : Safe s (m.loadFrom source).machine := by
  unfold Machine.loadFrom
  split
  · exact h.load _
  · exact h

theorem Safe.tick (h : Safe s m) : Safe s m.tick.machine :=
  ⟨h.settings, h.width, h.height, h.pc_le, h.depth_le, h.stack⟩

/-! ## Steps -/

theorem Safe.advanced (h : Safe s m) (hpc : m.pc.toNat + 1 < 4096) : Safe s m.advanced := by
  refine ⟨h.settings, h.width, h.height, ?_, h.depth_le, h.stack⟩
  show (m.pc + 2).toNat ≤ 0x10fe
  rw [toNat_next (by omega)]
  omega

/-- Whatever a step finds, the machine it leaves is safe. -/
theorem Safe.outcome (h : Safe s m) {keys : Keypad} {t : Turn} (ht : m.Outcome keys t) :
    Safe s t.machine := by
  cases ht with
  | ended hpc ht => exact ht ▸ h
  | full hop hcall hdepth ht => exact ht.machine ▸ h.advanced (pc_lt_of_word hop)
  | empty hop hdepth ht => exact ht.machine ▸ h.advanced (pc_lt_of_word hop)
  | @called op hop hcall hdepth ht =>
      have hpc := pc_lt_of_word hop
      have haddr : (Instr.fieldAddr op).toNat < 4096 := Instr.fieldAddr_lt op
      rw [ht.machine]
      refine ⟨h.settings, h.width, h.height, (by omega : (Instr.fieldAddr op).toNat ≤ 0x10fe),
        (by omega : m.depth + 1 ≤ 16), ?_⟩
      intro i hi
      have hi : i.val < m.depth + 1 := hi
      show 2 ≤ ((m.stack.set m.depth (m.pc + 2)).get i).toNat ∧
        ((m.stack.set m.depth (m.pc + 2)).get i).toNat ≤ 0x1000
      rw [get_set]
      split
      · rw [toNat_next (by omega)]
        omega
      · exact h.stack i (by omega)
  | returned hop hdepth hle ht =>
      rw [ht.machine]
      have hlast : m.depth - 1 < 16 := by omega
      have hentry := h.stack ⟨m.depth - 1, hlast⟩ (show m.depth - 1 < m.depth by omega)
      refine ⟨h.settings, h.width, h.height, ?_, (by omega : m.depth - 1 ≤ 16), ?_⟩
      · exact hentry.2.trans (by decide)
      · intro i hi
        have hi : i.val < m.depth - 1 := hi
        exact h.stack i (by omega)
  | plain hop hcall hret ht =>
      have heff := ht.effect
      obtain ⟨hstack, hdepth⟩ := heff.stack hcall hret
      have hpc : t.machine.pc.toNat ≤ 0x10fe := heff.pc ▸ target_le hret (pc_lt_of_word hop)
      refine ⟨heff.settings.trans h.settings, heff.width.trans h.width,
        heff.height.trans h.height, hpc, hdepth.trans_le h.depth_le, ?_⟩
      intro i hi
      rw [hstack]
      exact h.stack i (hdepth ▸ hi)

/-- Every step of a safe machine has an answer and leaves a safe machine. -/
theorem Safe.step (hs : s.check = none) (h : Safe s m) (keys : Keypad) :
    ∃ t, m.step? keys = some t ∧ m.Outcome keys t ∧ Safe s t.machine := by
  obtain ⟨hw, hh⟩ := screen_pos hs
  obtain ⟨t, ht, hout⟩ := m.step?_outcome keys h.depth_le (h.width ▸ hw) (h.height ▸ hh)
  exact ⟨t, ht, hout, h.outcome hout⟩

end Machine

end ChipEight
