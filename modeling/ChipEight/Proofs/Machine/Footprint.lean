import ChipEight.Proofs.Machine.Runs

/-!
# The footprint of a step

What an opcode may change is said by `Effect`. Here it is said of every step that
goes well, calls and returns included, wherever a session got to: memory, screen,
registers, index, stack, timers and dice change only where the opcode has them in
its footprint, the settings never, and no step calls for the tone. Every opcode
but a call and a return goes well.

Where the footprint is empty nothing is left but the program counter; that is so
for the routines of old hosts and for every opcode without a meaning
(`Effect.eq_advanced`).
-/

namespace ChipEight

attribute [ext] Machine

namespace Machine

variable {m m' : Machine} {keys : Keypad} {op : UInt16}

/-! ## Calls and returns -/

theorem Effect.called (hcall : op.toNat / 4096 = 2) (hdepth : m.depth < 16) :
    m.Effect keys op { m with
      stack := m.stack.set m.depth (m.pc + 2), depth := m.depth + 1,
      pc := Instr.fieldAddr op } := by
  refine ⟨rfl, fun _ _ => rfl, rfl, rfl, fun _ => rfl, fun _ _ => rfl, fun _ => rfl, ?_,
    fun h _ => absurd hcall h, fun _ => rfl, fun _ => rfl, fun _ => rfl⟩
  simp [target, hcall, Instr.toNat_fieldAddr]

theorem Effect.returned (hlast : m.depth - 1 < 16) :
    m.Effect keys 0x00ee { m with depth := m.depth - 1, pc := m.stack[m.depth - 1] } := by
  refine ⟨rfl, fun _ _ => rfl, rfl, rfl, fun _ => rfl, fun _ _ => rfl, fun _ => rfl, ?_,
    fun _ h => absurd rfl h, fun _ => rfl, fun _ => rfl, fun _ => rfl⟩
  simp [target, hlast]

/-- A step that goes well changes nothing but what its opcode says. -/
theorem Outcome.effect {t : Turn} (ht : m.Outcome keys t) (hop : m.ram.word? m.pc = some op)
    (hfault : t.fault = none) : m.Effect keys op t.machine := by
  cases ht with
  | ended hpc _ => exact absurd hpc (not_end_of_word hop)
  | full _ _ _ ht => cases hfault.symm.trans ht.fault
  | empty _ _ ht => cases hfault.symm.trans ht.fault
  | called hop' hcall hdepth ht =>
      obtain rfl := Option.some.inj (hop.symm.trans hop')
      exact ht.machine ▸ .called hcall hdepth
  | returned hop' hdepth hle ht =>
      obtain rfl := Option.some.inj (hop.symm.trans hop')
      have hlast : m.depth - 1 < 16 := Nat.lt_of_lt_of_le (Nat.sub_one_lt_of_lt hdepth) hle
      exact ht.machine ▸ .returned hlast
  | plain hop' _ _ ht =>
      obtain rfl := Option.some.inj (hop.symm.trans hop')
      exact ht.effect

/-- A step that fails leaves everything but the program counter, and every other one
has the effect of its opcode. -/
theorem Outcome.effect_or_moved {t : Turn} (ht : m.Outcome keys t) :
    (∃ op, m.ram.word? m.pc = some op ∧ m.Effect keys op t.machine) ∨
      ∃ pc, t.machine = { m with pc := pc } := by
  cases ht with
  | ended _ ht => exact Or.inr ⟨m.pc, by rw [ht]; rfl⟩
  | full _ _ _ ht => exact Or.inr ⟨_, ht.machine⟩
  | empty _ _ ht => exact Or.inr ⟨_, ht.machine⟩
  | called hop hcall hdepth ht => exact Or.inl ⟨_, hop, ht.machine ▸ .called hcall hdepth⟩
  | returned hop hdepth hle ht =>
      have hlast : m.depth - 1 < 16 := Nat.lt_of_lt_of_le (Nat.sub_one_lt_of_lt hdepth) hle
      exact Or.inl ⟨_, hop, ht.machine ▸ .returned hlast⟩
  | plain hop _ _ ht => exact Or.inl ⟨_, hop, ht.effect⟩

/-! ## An empty footprint -/

/-- The footprint of an opcode is empty. -/
@[mk_iff]
structure Bare (m : Machine) (op : UInt16) : Prop where
  memory : ∀ k, ¬ m.Stores op k
  screen : ¬ Instr.Paints op
  registers : ∀ r, ¬ Instr.Writes op r
  index : ¬ Instr.Points op
  call : op.toNat / 4096 ≠ 2
  ret : op ≠ 0x00ee
  delay : ¬ Instr.IsSpecial op 0x15
  sound : ¬ Instr.IsSpecial op 0x18
  dice : op.toNat / 4096 ≠ 0xc

theorem bare_of_idles (h : Instr.Idles op) : m.Bare op := by
  -- the two opcodes that are told apart as a whole are of family 0
  have hsystem : op.toNat / 4096 ≠ 0 → op ≠ 0x00e0 ∧ op ≠ 0x00ee := by
    intro hf
    constructor
    · rintro rfl
      exact hf rfl
    · rintro rfl
      exact hf rfl
  rw [bare_iff]
  simp only [Stores, Instr.Writes, Instr.Paints, Instr.Points, Instr.IsSpecial]
  unfold Instr.Idles at h
  split at h
  case h_1 hf => simp [hf, h.1, h.2]
  case h_2 hf =>
      have hlow : ¬ op.toNat % 16 ≤ 3 ∧ ¬ op.toNat % 16 ≤ 7 := by omega
      simp [hf, hsystem, hlow, h.2]
  case h_3 hf => simp [hf, hsystem]
  case h_4 hf =>
      simp only [List.mem_cons, List.not_mem_nil, or_false, not_or] at h
      simp [hf, hsystem, h]
  case h_5 => exact absurd h id

theorem Effect.eq_moved (h : m.Effect keys op m') (hbare : m.Bare op) :
    m' = { m with pc := m'.pc } := by
  obtain ⟨hstack, hdepth⟩ := h.stack hbare.call hbare.ret
  have hbytes : m'.ram.bytes = m.ram.bytes :=
    Vector.ext fun k hk => h.memory ⟨k, hk⟩ (hbare.memory _)
  have hregisters : m'.registers = m.registers :=
    Vector.ext fun r hr => h.registers ⟨r, hr⟩ (hbare.registers _)
  exact Machine.ext h.settings (congrArg Ram.mk hbytes) (h.screen hbare.screen) hregisters
    (h.index hbare.index) rfl hstack hdepth (h.delay hbare.delay) (h.sound hbare.sound)
    (h.dice hbare.dice)

theorem Effect.eq_advanced (h : m.Effect keys op m') (hpc : m.pc.toNat + 1 < 4096)
    (hidle : Instr.Idles op) : m' = { m with pc := m.pc + 2 } := by
  have hnext : m'.pc = m.pc + 2 := by
    rw [← UInt16.toNat_inj, h.pc, target_of_idles hidle, toNat_next (by omega)]
  rw [← hnext]
  exact h.eq_moved (bare_of_idles hidle)

end Machine

namespace Session

/-- Wherever a session got to, a step that goes well has the effect of its opcode
and no other: what the opcode does not name is as before, the program goes on
where it sends it, the settings stay and the tone is not called for. Only a call
or a return can fail, and an opcode that does nothing leaves everything but the
program counter. -/
theorem Reachable.step?_effect {a : Session} (h : a.Reachable) {op : UInt16}
    (hop : a.machine.ram.word? a.machine.pc = some op) (keys : Keypad) :
    ∃ t, a.machine.step? keys = some t ∧
      (op.toNat / 4096 ≠ 2 → op ≠ 0x00ee → t.fault = none) ∧
      (t.fault = none → a.machine.Effect keys op t.machine ∧ t.tones = #[] ∧
        (Instr.Idles op → t.machine = { a.machine with pc := a.machine.pc + 2 })) := by
  obtain ⟨s, hs, hsafe⟩ := h.safe
  obtain ⟨t, ht, hout, -⟩ := hsafe.step hs keys
  refine ⟨t, ht, fun hcall hret => (hout.of_plain hop hcall hret).fault, fun hfault => ?_⟩
  have heff := hout.effect hop hfault
  exact ⟨heff, hout.tones, heff.eq_advanced (Machine.pc_lt_of_word hop)⟩

/-- Storing the first two registers at address zero changes two bytes of memory
and no register. -/
theorem step?_effect_store : ∃ a : Session, a.Reachable ∧ ∃ t,
    a.machine.step? .untouched = some t ∧ t.machine.registers = a.machine.registers ∧
      t.machine.pc.toNat = 0x202 ∧
      ∀ k : Fin 4096, (∀ j ≤ 1, k.val ≠ (a.machine.index.toNat + j) % 4096) →
        t.machine.ram.bytes.get k = a.machine.ram.bytes.get k := by
  obtain ⟨a, hreach, hram, hstart, -⟩ := exists_loaded (r := #[0xf1, 0x55]) (by decide)
  have hop : a.machine.ram.word? a.machine.pc = some 0xf155 := by
    rw [hstart]
    exact Ram.word?_of_loadProgram hram (by decide : 0 + 1 < 2)
  obtain ⟨t, ht, hwell, heff⟩ := hreach.step?_effect hop .untouched
  obtain ⟨heff, -, -⟩ := heff (hwell (by decide) (by decide))
  refine ⟨a, hreach, t, ht, ?_, ?_, fun k hk => heff.memory k ?_⟩
  · exact Vector.ext fun r hr => heff.registers ⟨r, hr⟩ (by simp [Instr.Writes])
  · have htarget : a.machine.target .untouched 0xf155 = a.machine.pc.toNat + 2 := rfl
    rw [heff.pc, htarget, hstart]
    rfl
  · rintro (⟨⟨-, hlow⟩, -⟩ | ⟨-, j, hj, hk'⟩)
    · cases hlow
    · exact hk j hj hk'

end Session

end ChipEight
