import ChipEight.Proofs.Machine.Runs

/-!
# Blocks of memory

Three instructions work on the bytes from the index on: two copy registers to memory and
back, one writes the decimal digits of a register. The places of such a block are counted
from the index as a word and then come round with memory, so a block may begin before the
end of memory and go on at its start. At most sixteen bytes are asked for, and these lie at
different places (`place_inj`), so that no write of a block meets another
(`get_written`).

`Stored`, `Loaded` and `Spelled` say what each of the three leaves, of the whole machine.
What they say is enough to take one after the other: registers that were stored and are
loaded again are as they were (`Stored.loaded`), and so is memory that was loaded and is
stored again (`Loaded.stored`), whatever happened in between that left memory, registers
and index alone.
-/

namespace ChipEight

namespace Machine

open Instr (digitX IsSpecial)

variable {m n n' m' : Machine} {x : Fin 16} {op : UInt16}

/-! ## The places of a block -/

/-- The place in memory that is `j` bytes from the index. -/
def place (m : Machine) (j : Nat) : Fin 4096 :=
  ⟨(m.index.toNat + j) % 4096, Nat.mod_lt _ (by decide)⟩

theorem place_index (m : Machine) (j : Nat) :
    Ram.place (m.index + UInt16.ofNat j) = m.place j :=
  Fin.ext (place_add m.index j)

theorem place_congr (h : n.index = m.index) (j : Nat) : n.place j = m.place j := by
  apply Fin.ext
  show (n.index.toNat + j) % 4096 = (m.index.toNat + j) % 4096
  rw [h]

theorem place_inj {i j : Fin 16} (h : m.place i = m.place j) : i = j := by
  have hval : (m.index.toNat + i) % 4096 = (m.index.toNat + j) % 4096 := congrArg Fin.val h
  apply Fin.ext
  omega

/-! ## Writing a block -/

/-- Memory once some numbers from 0 to 15 had each a byte written as far from the index. -/
def written (m : Machine) (value : Fin 16 → UInt8) (l : List (Fin 16)) : Ram :=
  l.foldl (fun r i => r.write (m.index + UInt16.ofNat i.val) (value i)) m.ram

theorem get_written_other {value : Fin 16 → UInt8} {l : List (Fin 16)} {k : Fin 4096}
    (h : ∀ i ∈ l, k ≠ m.place i) : (m.written value l).bytes.get k = m.ram.bytes.get k := by
  refine get_foldl_write_other (fun i => m.index + UInt16.ofNat i.val) value l m.ram ?_
  intro i hi
  rw [place_index]
  exact h i hi

/-- All that is written of a block is found there in the end. -/
theorem get_written {value : Fin 16 → UInt8} {i : Fin 16} {l : List (Fin 16)} (h : i ∈ l) :
    (m.written value l).bytes.get (m.place i) = value i := by
  induction l generalizing m with
  | nil => exact absurd h List.not_mem_nil
  | cons j l ih =>
      have hnext : m.written value (j :: l) =
          { m with ram := m.ram.write (m.index + UInt16.ofNat j.val) (value j) }.written value l :=
        rfl
      rw [hnext]
      by_cases hl : i ∈ l
      · exact ih hl
      · -- the last write to the place is this one
        obtain rfl : i = j := (List.mem_cons.mp h).resolve_right hl
        refine (get_written_other ?_).trans ?_
        · intro k hk heq
          exact hl (place_inj heq ▸ hk)
        · rw [← place_index]
          exact Vector.getElem_set_self _

/-! ## What the three instructions leave -/

/-- Registers 0 to `x` are in memory from the index on, and nothing else changed but the
program counter. -/
structure Stored (m : Machine) (x : Fin 16) (m' : Machine) : Prop where
  rest : m' = { m with pc := m.pc + 2, ram := m'.ram }
  block : ∀ r ≤ x, m'.ram.bytes.get (m.place r) = m.registers.get r
  others : ∀ k, (∀ r ≤ x, k ≠ m.place r) → m'.ram.bytes.get k = m.ram.bytes.get k

/-- Registers 0 to `x` hold the bytes from the index on, and nothing else changed but the
program counter. -/
structure Loaded (m : Machine) (x : Fin 16) (m' : Machine) : Prop where
  rest : m' = { m with pc := m.pc + 2, registers := m'.registers }
  block : ∀ r ≤ x, m'.registers.get r = m.ram.bytes.get (m.place r)
  others : ∀ r, x < r → m'.registers.get r = m.registers.get r

/-- The three bytes from the index on are the decimal digits of register `x`, and nothing
else changed but the program counter. -/
structure Spelled (m : Machine) (x : Fin 16) (m' : Machine) : Prop where
  rest : m' = { m with pc := m.pc + 2, ram := m'.ram }
  digits : ∀ j < 3, (m'.ram.bytes.get (m.place j)).toNat ≤ 9
  number : 100 * (m'.ram.bytes.get (m.place 0)).toNat +
    10 * (m'.ram.bytes.get (m.place 1)).toNat + (m'.ram.bytes.get (m.place 2)).toNat =
      (m.registers.get x).toNat
  others : ∀ k, (∀ j < 3, k ≠ m.place j) → m'.ram.bytes.get k = m.ram.bytes.get k

/-- Two machines have the same memory, the same registers and the same index. -/
structure SameData (m n : Machine) : Prop where
  ram : m.ram = n.ram
  registers : m.registers = n.registers
  index : m.index = n.index

/-! ## One after the other -/

/-- Loading what was stored leaves the registers as they were. -/
theorem Stored.loaded (h : m.Stored x m') (hsame : n.SameData m') (h' : n.Loaded x n') :
    n' = { n with pc := n.pc + 2, registers := m.registers } := by
  have hindex : m'.index = m.index := by rw [h.rest]
  have hkept : m'.registers = m.registers := by rw [h.rest]
  have hplace := place_congr (hsame.index.trans hindex)
  have hall : n'.registers = m.registers := by
    refine Vector.ext fun r hr => ?_
    show n'.registers.get ⟨r, hr⟩ = m.registers.get ⟨r, hr⟩
    rcases Fin.lt_or_le x ⟨r, hr⟩ with hx | hx
    · rw [h'.others _ hx, hsame.registers, hkept]
    · rw [h'.block _ hx, hplace, hsame.ram]
      exact h.block _ hx
  rw [h'.rest, hall]

/-- Storing what was loaded leaves the memory as it was. -/
theorem Loaded.stored (h : m.Loaded x m') (hsame : n.SameData m') (h' : n.Stored x n') :
    n' = { n with pc := n.pc + 2, ram := m.ram } := by
  have hindex : m'.index = m.index := by rw [h.rest]
  have hkept : m'.ram = m.ram := by rw [h.rest]
  have hplace := place_congr (hsame.index.trans hindex)
  have hall : n'.ram = m.ram := by
    refine congrArg Ram.mk (Vector.ext fun k hk => ?_)
    show n'.ram.bytes.get ⟨k, hk⟩ = m.ram.bytes.get ⟨k, hk⟩
    by_cases hx : ∃ r ≤ x, (⟨k, hk⟩ : Fin 4096) = n.place r
    · obtain ⟨r, hr, heq⟩ := hx
      rw [heq, h'.block r hr, hsame.registers, h.block r hr, hplace]
    · rw [h'.others _ fun r hr heq => hx ⟨r, hr, heq⟩, hsame.ram, hkept]
  rw [h'.rest, hall]

/-! ## The instructions -/

theorem mem_registersTo_iff {r : Fin 16} :
    r ∈ registersTo (Instr.fieldX op) ↔ r ≤ digitX op := by
  have hx : (Instr.fieldX op).toNat = (digitX op).val := Instr.toNat_fieldX op
  constructor
  · intro h
    have hle := le_of_mem_registersTo h
    rwa [hx] at hle
  · intro h
    have hle : r.val ≤ (digitX op).val := h
    unfold registersTo
    refine List.mem_take_iff_getElem.mpr ⟨r.val, ?_, List.getElem_finRange _⟩
    rw [List.length_finRange]
    omega

theorem store?_stored (m : Machine) (op : UInt16) :
    ∃ m', m.advanced.store? (Instr.fieldX op) = some m' ∧ m.Stored (digitX op) m' := by
  obtain ⟨l, hl⟩ : ∃ l, l = registersTo (Instr.fieldX op) := ⟨_, rfl⟩
  have hmem : ∀ r, r ∈ l ↔ r ≤ digitX op := fun r => hl ▸ mem_registersTo_iff
  refine ⟨{ m.advanced with ram := m.written m.registers.get l }, ?_, rfl, ?_, ?_⟩
  · rw [hl]
    exact if_pos (Instr.fieldX_lt op)
  · intro r hr
    exact get_written ((hmem r).mpr hr)
  · intro k hk
    exact get_written_other fun r hr => hk r ((hmem r).mp hr)

theorem load?_loaded (m : Machine) (op : UInt16) :
    ∃ m', m.advanced.load? (Instr.fieldX op) = some m' ∧ m.Loaded (digitX op) m' := by
  have hx : (Instr.fieldX op).toNat = (digitX op).val := Instr.toNat_fieldX op
  refine ⟨_, if_pos (Instr.fieldX_lt op), rfl, ?_, ?_⟩
  · intro r hr
    have hle : r.val ≤ (Instr.fieldX op).toNat := hx ▸ hr
    refine (Vector.getElem_ofFn _).trans ((if_pos hle).trans ?_)
    exact congrArg m.ram.bytes.get (place_index m r)
  · intro r hr
    have hlt : (Instr.fieldX op).toNat < r.val := hx ▸ hr
    exact (Vector.getElem_ofFn _).trans (if_neg (Nat.not_le_of_lt hlt))

/-- The hundreds, the tens and the ones of a byte. -/
def digit (v : UInt8) (i : Fin 16) : UInt8 :=
  if i.val = 0 then v / 100 else if i.val = 1 then v / 10 % 10 else v % 10

theorem digits?_eq_written {y : UInt8} (hy : y < 16) :
    m.digits? y = some { m with ram := m.written (digit (m.reg y)) [0, 1, 2] } := by
  have hfirst : m.index + UInt16.ofNat (0 : Fin 16).val = m.index := UInt16.add_zero _
  refine (register?_bind hy _).trans ?_
  simp only [written, List.foldl_cons, List.foldl_nil, hfirst]
  rfl

theorem digit_le (v : UInt8) (i : Fin 16) : (digit v i).toNat ≤ 9 := by
  have hlt := v.toNat_lt
  unfold digit
  split
  · show v.toNat / 100 ≤ 9
    omega
  · split
    · show v.toNat / 10 % 10 ≤ 9
      omega
    · show v.toNat % 10 ≤ 9
      omega

theorem digit_number (v : UInt8) :
    100 * (digit v 0).toNat + 10 * (digit v 1).toNat + (digit v 2).toNat = v.toNat := by
  show 100 * (v.toNat / 100) + 10 * (v.toNat / 10 % 10) + v.toNat % 10 = v.toNat
  omega

theorem mem_three {i : Fin 16} : i ∈ ([0, 1, 2] : List (Fin 16)) ↔ i.val < 3 := by
  revert i
  decide

theorem digits?_spelled (m : Machine) (op : UInt16) :
    ∃ m', m.advanced.digits? (Instr.fieldX op) = some m' ∧ m.Spelled (digitX op) m' := by
  obtain ⟨v, hv⟩ : ∃ v, v = m.registers.get (digitX op) := ⟨_, rfl⟩
  have hreg : m.advanced.reg (Instr.fieldX op) = v := hv ▸ reg_fieldX m op
  have hbyte : ∀ j (hj : j < 3), (m.written (digit v) [0, 1, 2]).bytes.get (m.place j) =
      digit v ⟨j, by omega⟩ := by
    intro j hj
    have hj16 : j < 16 := by omega
    exact get_written (i := ⟨j, hj16⟩) (mem_three.mpr hj)
  refine ⟨{ m.advanced with ram := m.written (digit v) [0, 1, 2] }, ?_, rfl, ?_, ?_, ?_⟩
  · rw [digits?_eq_written (Instr.fieldX_lt op), hreg]
    rfl
  · intro j hj
    exact hbyte j hj ▸ digit_le v _
  · rw [← hv, ← digit_number v]
    rw [hbyte 0 (by decide), hbyte 1 (by decide), hbyte 2 (by decide)]
    rfl
  · intro k hk
    exact get_written_other fun i hi => hk i (mem_three.mp hi)

/-! ## The steps -/

theorem Finds.stored (h : m.Finds x 0x55) (keys : Keypad) :
    ∃ t, m.step? keys = some t ∧ t.fault = none ∧ t.tones = #[] ∧ m.Stored x t.machine := by
  obtain ⟨op, hop, ⟨hf, hlow⟩, rfl⟩ := h
  exact step?_of_part hop (Instr.decode_of_codes (i := .store _) ⟨hf, hlow, rfl⟩) rfl
    (store?_stored m op)

theorem Finds.loaded (h : m.Finds x 0x65) (keys : Keypad) :
    ∃ t, m.step? keys = some t ∧ t.fault = none ∧ t.tones = #[] ∧ m.Loaded x t.machine := by
  obtain ⟨op, hop, ⟨hf, hlow⟩, rfl⟩ := h
  exact step?_of_part hop (Instr.decode_of_codes (i := .load _) ⟨hf, hlow, rfl⟩) rfl
    (load?_loaded m op)

theorem Finds.spelled (h : m.Finds x 0x33) (keys : Keypad) :
    ∃ t, m.step? keys = some t ∧ t.fault = none ∧ t.tones = #[] ∧ m.Spelled x t.machine := by
  obtain ⟨op, hop, ⟨hf, hlow⟩, rfl⟩ := h
  exact step?_of_part hop (Instr.decode_of_codes (i := .digits _) ⟨hf, hlow, rfl⟩) rfl
    (digits?_spelled m op)

/-- Wherever the index is, the three instructions on blocks do what they are for and leave
the index and everything else. The registers come back from memory as they were stored, and
memory gets back what was loaded from it: a second step that undoes the first finds a
machine with the same memory, registers and index, with the program counter, the timers or
the keys as they may be. -/
theorem step?_blocks (m : Machine) (x : Fin 16) (keys : Keypad) :
    (m.Finds x 0x55 → ∃ t, m.step? keys = some t ∧ t.fault = none ∧ t.tones = #[] ∧
      m.Stored x t.machine ∧
      ∀ (n : Machine) keys', n.SameData t.machine → n.Finds x 0x65 →
        ∃ u, n.step? keys' = some u ∧ u.fault = none ∧
          u.machine = { n with pc := n.pc + 2, registers := m.registers }) ∧
    (m.Finds x 0x65 → ∃ t, m.step? keys = some t ∧ t.fault = none ∧ t.tones = #[] ∧
      m.Loaded x t.machine ∧
      ∀ (n : Machine) keys', n.SameData t.machine → n.Finds x 0x55 →
        ∃ u, n.step? keys' = some u ∧ u.fault = none ∧
          u.machine = { n with pc := n.pc + 2, ram := m.ram }) ∧
    (m.Finds x 0x33 → ∃ t, m.step? keys = some t ∧ t.fault = none ∧ t.tones = #[] ∧
      m.Spelled x t.machine) := by
  refine ⟨?_, ?_, fun h => h.spelled keys⟩
  · intro h
    obtain ⟨t, ht, hfault, htones, hstored⟩ := h.stored keys
    refine ⟨t, ht, hfault, htones, hstored, ?_⟩
    intro n keys' hsame hn
    obtain ⟨u, hu, hwell, -, hloaded⟩ := hn.loaded keys'
    exact ⟨u, hu, hwell, hstored.loaded hsame hloaded⟩
  · intro h
    obtain ⟨t, ht, hfault, htones, hloaded⟩ := h.loaded keys
    refine ⟨t, ht, hfault, htones, hloaded, ?_⟩
    intro n keys' hsame hn
    obtain ⟨u, hu, hwell, -, hstored⟩ := hn.stored keys'
    exact ⟨u, hu, hwell, hloaded.stored hsame hstored⟩

/-- Four registers are stored from `0xfffe` on: the block begins with the last two bytes of
memory and goes on with the first two. The next instruction loads them again. -/
theorem step?_blocks_straddling : ∃ (m : Machine) (t u : Turn), m.index = 0xfffe ∧
    m.registers = Vector.ofFn (fun r => UInt8.ofNat (r.val + 1)) ∧
    m.step? .untouched = some t ∧
    t.machine.ram.bytes.get 0xfff = 2 ∧ t.machine.ram.bytes.get 0 = 3 ∧
    t.machine.step? .untouched = some u ∧ u.machine.registers = m.registers := by
  obtain ⟨a, -, hload, hstart, -⟩ :=
    Session.exists_loaded (r := #[0xf3, 0x55, 0xf3, 0x65]) (by decide)
  obtain ⟨m, hm⟩ : ∃ m, m = { a.machine with
      index := 0xfffe, registers := Vector.ofFn fun r => UInt8.ofNat (r.val + 1) } := ⟨_, rfl⟩
  have hram : m.ram = a.machine.ram := by rw [hm]
  have hpc : m.pc = 0x200 := by
    rw [hm]
    exact hstart
  have hindex : m.index = 0xfffe := by rw [hm]
  have hregisters : m.registers = Vector.ofFn fun r => UInt8.ofNat (r.val + 1) := by rw [hm]
  have hplace : ∀ j, (m.place j).val = (0xfffe + j) % 4096 := by
    intro j
    show (m.index.toNat + j) % 4096 = _
    rw [hindex]
    rfl
  rw [← hram] at hload
  have hfirst := Ram.word?_of_loadProgram (i := 0) hload (by decide)
  have hsecond := Ram.word?_of_loadProgram (i := 2) hload (by decide)
  obtain ⟨hstore, -, -⟩ := m.step?_blocks 3 .untouched
  obtain ⟨t, ht, -, -, hstored, hagain⟩ := hstore ⟨0xf355, hpc ▸ hfirst, ⟨rfl, rfl⟩, rfl⟩
  have hpc' : t.machine.pc = 0x202 := by
    rw [hstored.rest, hpc]
    rfl
  -- the block is away from the next instruction
  have hword : t.machine.ram.word? 0x202 = m.ram.word? 0x202 := by
    have hbyte : ∀ k : Fin 4096, k.val = 0x202 ∨ k.val = 0x203 →
        t.machine.ram.bytes.get k = m.ram.bytes.get k := by
      intro k hk
      refine hstored.others k ?_
      intro r hr heq
      have hle : r.val ≤ 3 := hr
      have hval := congrArg Fin.val heq
      rw [hplace] at hval
      omega
    exact congrArg some (congrArg₂ bigEndian (hbyte 0x202 (Or.inl rfl)) (hbyte 0x203 (Or.inr rfl)))
  have hfinds : t.machine.Finds 3 0x65 := by
    refine ⟨0xf365, ?_, ⟨rfl, rfl⟩, rfl⟩
    rw [hpc', hword]
    exact hsecond
  obtain ⟨u, hu, -, hmachine⟩ := hagain t.machine .untouched ⟨rfl, rfl, rfl⟩ hfinds
  have hvalue : ∀ r : Fin 16, m.registers.get r = UInt8.ofNat (r.val + 1) := by
    intro r
    rw [hregisters]
    exact Vector.getElem_ofFn _
  refine ⟨m, t, u, hindex, hregisters, ht, ?_, ?_, hu, ?_⟩
  · have hlast : m.place (1 : Fin 16) = 0xfff := Fin.ext (hplace 1)
    rw [← hlast, hstored.block 1 (by decide), hvalue]
    rfl
  · have hround : m.place (2 : Fin 16) = 0 := Fin.ext (hplace 2)
    rw [← hround, hstored.block 2 (by decide), hvalue]
    rfl
  · rw [hmachine]

end Machine

end ChipEight
