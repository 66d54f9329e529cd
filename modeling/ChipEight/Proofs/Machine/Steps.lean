import ChipEight.Proofs.Machine.Effects

/-!
# What a step comes to

A step finds one of six things: no whole instruction before the end of memory, a
call with the stack full or with room on it, a return with the stack empty or
not, or anything else. `Outcome m keys t` has a constructor for each, with the
machine and the fault the turn `t` leaves; `step?_outcome` says that every step
has an answer and that it is one of these.

Whatever is to be known about steps, runs or frames is a case analysis of
`Outcome`; the function `Machine.step?` is not opened again. Where something is
known of the program counter or the opcode there are fewer cases: `of_end`,
`of_call`, `of_return` and `of_plain` say which are left.

Three of the six are failures. `Failing m f m'` lists them by themselves, with
the fault and the machine that is left. The program counter has moved on before
the instruction is carried out, so a call or a return that fails leaves it
behind the instruction, though the fault names the instruction itself; only the
end of memory leaves the machine as it was.
-/

namespace ChipEight

/-- The machine, the fault and the calls for the tone that a turn consists of,
apart from what it notes. -/
structure Turn.Leaves (t : Turn) (m : Machine) (fault : Option Fault) : Prop where
  machine : t.machine = m
  fault : t.fault = fault
  tones : t.tones = #[]

namespace Machine

/-! ## Fetching -/

theorem word?_eq_none_iff (r : Ram) (pc : UInt16) : r.word? pc = none ↔ 4096 ≤ pc.toNat + 1 := by
  unfold Ram.word?
  split
  case isTrue h =>
      have h : pc.toNat + 2 ≤ 4096 := h
      simp only [reduceCtorEq, false_iff]
      omega
  case isFalse h =>
      have h : ¬ pc.toNat + 2 ≤ 4096 := h
      simp only [true_iff]
      omega

theorem pc_lt_of_word {m : Machine} {op : UInt16} (h : m.ram.word? m.pc = some op) :
    m.pc.toNat + 1 < 4096 := by
  by_contra hle
  rw [(word?_eq_none_iff m.ram m.pc).mpr (by omega)] at h
  exact absurd h (by simp)

theorem not_end_of_word {m : Machine} {op : UInt16} (h : m.ram.word? m.pc = some op) :
    ¬ 4096 ≤ m.pc.toNat + 1 :=
  Nat.not_le_of_lt (pc_lt_of_word h)

theorem ne_return_of_call {m : Machine} {op : UInt16} (h : m.ram.word? m.pc = some op)
    (hcall : op.toNat / 4096 = 2) : m.ram.word? m.pc ≠ some 0x00ee := by
  intro hret
  obtain rfl := Option.some.inj (h.symm.trans hret)
  exact absurd hcall (by decide)

theorem step?_of_end {m : Machine} (keys : Keypad) (h : 4096 ≤ m.pc.toNat + 1) :
    m.step? keys = some (.failed (.pcOutOfBounds m.pc) m) :=
  if_pos h

theorem step?_of_word {m : Machine} {op : UInt16} (keys : Keypad)
    (h : m.ram.word? m.pc = some op) : m.step? keys = m.advanced.obey? keys m.pc op := by
  have hpc := pc_lt_of_word h
  have hend : ¬ Ram.size ≤ m.pc.toNat + 1 := by
    show ¬ 4096 ≤ m.pc.toNat + 1
    omega
  simp only [step?, if_neg hend, h, next?_eq (show m.pc.toNat + 2 < 65536 by omega)]
  rfl

theorem step?_of_decode {m : Machine} {op : UInt16} {i : Instr} (keys : Keypad)
    (h : m.ram.word? m.pc = some op) (hi : Instr.decode op = some i) : m.step? keys =
      (m.advanced.execute? keys m.pc i).map fun t => t.noting (.executing m.pc op i) := by
  rw [step?_of_word keys h, obey?, hi]

theorem step?_of_undefined {m : Machine} {op : UInt16} (keys : Keypad)
    (h : m.ram.word? m.pc = some op) (hi : Instr.decode op = none) :
    m.step? keys = some ((Turn.done m.advanced).noting (.ignoring m.pc op)) := by
  rw [step?_of_word keys h, obey?, hi]

theorem step?_of_part {m : Machine} {op : UInt16} {i : Instr} {keys : Keypad}
    {part : Option Machine} {P : Machine → Prop} (h : m.ram.word? m.pc = some op)
    (hi : Instr.decode op = some i)
    (hpart : m.advanced.execute? keys m.pc i = Turn.done <$> part)
    (hP : ∃ m', part = some m' ∧ P m') :
    ∃ t, m.step? keys = some t ∧ t.fault = none ∧ t.tones = #[] ∧ P t.machine := by
  obtain ⟨m', rfl, hm'⟩ := hP
  rw [step?_of_decode keys h hi, hpart]
  exact ⟨_, rfl, rfl, rfl, hm'⟩

/-- The program counter is at an opcode of the family `F` with the register `x` and the
last two digits `low`. -/
def Finds (m : Machine) (x : Fin 16) (low : Nat) : Prop :=
  ∃ op, m.ram.word? m.pc = some op ∧ Instr.IsSpecial op low ∧ Instr.digitX op = x

/-! ## The six outcomes -/

/-- What a step comes to, by what it finds at the program counter. -/
inductive Outcome (m : Machine) (keys : Keypad) (t : Turn) : Prop
  /-- There is no whole instruction before the end of memory. -/
  | ended (hpc : 4096 ≤ m.pc.toNat + 1) (ht : t = .failed (.pcOutOfBounds m.pc) m)
  /-- A call with every entry of the stack in use. -/
  | full {op : UInt16} (hop : m.ram.word? m.pc = some op) (hcall : op.toNat / 4096 = 2)
      (hdepth : m.depth = 16) (ht : t.Leaves m.advanced (some (.stackOverflow m.pc)))
  /-- A call with room on the stack. -/
  | called {op : UInt16} (hop : m.ram.word? m.pc = some op) (hcall : op.toNat / 4096 = 2)
      (hdepth : m.depth < 16)
      (ht : t.Leaves { m with
        stack := m.stack.set m.depth (m.pc + 2), depth := m.depth + 1,
        pc := Instr.fieldAddr op } none)
  /-- A return with nothing on the stack. -/
  | empty (hop : m.ram.word? m.pc = some 0x00ee) (hdepth : m.depth = 0)
      (ht : t.Leaves m.advanced (some (.stackUnderflow m.pc)))
  /-- A return with something on the stack. -/
  | returned (hop : m.ram.word? m.pc = some 0x00ee) (hdepth : 0 < m.depth) (hle : m.depth ≤ 16)
      (ht : t.Leaves { m with depth := m.depth - 1, pc := m.stack[m.depth - 1] } none)
  /-- Anything else. -/
  | plain {op : UInt16} (hop : m.ram.word? m.pc = some op) (hcall : op.toNat / 4096 ≠ 2)
      (hret : op ≠ 0x00ee) (ht : m.Plain keys op t)

theorem call?_outcome {m : Machine} {keys : Keypad} {op : UInt16} (hop : m.ram.word? m.pc = some op)
    (hcall : op.toNat / 4096 = 2) (hdepth : m.depth ≤ 16) :
    ∃ t, m.advanced.call? m.pc (Instr.fieldAddr op) = some t ∧
      ∀ n, m.Outcome keys (t.noting n) := by
  by_cases h : m.depth = 16
  · exact ⟨_, if_pos h, fun n => .full hop hcall h ⟨rfl, rfl, rfl⟩⟩
  · have hlt : m.depth < 16 := by omega
    refine ⟨_, (if_neg h).trans (dif_pos hlt), fun n => ?_⟩
    exact .called hop hcall hlt ⟨rfl, rfl, rfl⟩

theorem return?_outcome {m : Machine} {keys : Keypad} (hop : m.ram.word? m.pc = some 0x00ee)
    (hdepth : m.depth ≤ 16) :
    ∃ t, m.advanced.return? m.pc = some t ∧ ∀ n, m.Outcome keys (t.noting n) := by
  by_cases h : m.depth = 0
  · exact ⟨_, if_pos h, fun n => .empty hop h ⟨rfl, rfl, rfl⟩⟩
  · have hlt : m.depth - 1 < 16 := by omega
    refine ⟨_, (if_neg h).trans (dif_pos hlt), fun n => ?_⟩
    exact .returned hop (by omega) hdepth ⟨rfl, rfl, rfl⟩

/-- Every step of a machine with a proper stack and a screen to draw on has an
answer, and it is one of the six. -/
theorem step?_outcome (m : Machine) (keys : Keypad) (hdepth : m.depth ≤ 16)
    (hw : 0 < m.screen.width) (hh : 0 < m.screen.height) :
    ∃ t, m.step? keys = some t ∧ m.Outcome keys t := by
  cases hop : m.ram.word? m.pc with
  | none =>
      have hpc := (word?_eq_none_iff m.ram m.pc).mp hop
      exact ⟨_, step?_of_end keys hpc, .ended hpc rfl⟩
  | some op =>
      have hpc := pc_lt_of_word hop
      rw [step?_of_word keys hop]
      unfold obey?
      by_cases hcall : op.toNat / 4096 = 2
      · rw [Instr.decode_of_codes (i := .call _) ⟨hcall, rfl⟩]
        obtain ⟨t, ht, hout⟩ := call?_outcome hop hcall hdepth
        exact ⟨_, congrArg (Option.map _) ht, hout _⟩
      · by_cases hret : op = 0x00ee
        · subst hret
          rw [Instr.decode_of_codes (i := .ret) rfl]
          obtain ⟨t, ht, hout⟩ := return?_outcome hop hdepth
          exact ⟨_, congrArg (Option.map _) ht, hout _⟩
        · cases hi : Instr.decode op with
          | none =>
              have hplain : m.Plain keys op _ := plain_of_decode hi hpc
              exact ⟨_, rfl, .plain hop hcall hret (hplain.noting _)⟩
          | some i =>
              obtain ⟨t, ht, hplain⟩ := execute?_plain keys hi hcall hret hpc hw hh
              exact ⟨_, congrArg (Option.map _) ht, .plain hop hcall hret (hplain.noting _)⟩

/-! ## Fewer cases -/

section

variable {m m' : Machine} {keys : Keypad} {t : Turn} {f : Fault} {op : UInt16}

theorem Outcome.of_end (ht : m.Outcome keys t) (hpc : 4096 ≤ m.pc.toNat + 1) :
    t = .failed (.pcOutOfBounds m.pc) m := by
  cases ht with
  | ended _ ht => exact ht
  | full hop _ _ _ | called hop _ _ _ | returned hop _ _ _ | plain hop _ _ _ =>
      exact absurd hpc (not_end_of_word hop)
  | empty hop _ _ => exact absurd hpc (not_end_of_word hop)

theorem Outcome.of_call (ht : m.Outcome keys t) (hop : m.ram.word? m.pc = some op)
    (hcall : op.toNat / 4096 = 2) :
    m.depth = 16 ∧ t.Leaves m.advanced (some (.stackOverflow m.pc)) ∨
      ∃ _ : m.depth < 16, t.Leaves { m with
        stack := m.stack.set m.depth (m.pc + 2), depth := m.depth + 1,
        pc := Instr.fieldAddr op } none := by
  cases ht with
  | ended hpc _ => exact absurd hpc (not_end_of_word hop)
  | full _ _ hdepth ht => exact Or.inl ⟨hdepth, ht⟩
  | called hop' _ hdepth ht =>
      obtain rfl := Option.some.inj (hop.symm.trans hop')
      exact Or.inr ⟨hdepth, ht⟩
  | empty hret _ _ | returned hret _ _ _ => exact absurd hret (ne_return_of_call hop hcall)
  | plain hop' hcall' _ _ =>
      obtain rfl := Option.some.inj (hop.symm.trans hop')
      exact absurd hcall hcall'

theorem Outcome.of_return (ht : m.Outcome keys t) (hret : m.ram.word? m.pc = some 0x00ee) :
    m.depth = 0 ∧ t.Leaves m.advanced (some (.stackUnderflow m.pc)) ∨
      ∃ (_ : 0 < m.depth) (_ : m.depth ≤ 16),
        t.Leaves { m with depth := m.depth - 1, pc := m.stack[m.depth - 1] } none := by
  cases ht with
  | ended hpc _ => exact absurd hpc (not_end_of_word hret)
  | full hop hcall _ _ | called hop hcall _ _ =>
      exact absurd hret (ne_return_of_call hop hcall)
  | empty _ hdepth ht => exact Or.inl ⟨hdepth, ht⟩
  | returned _ hdepth hle ht => exact Or.inr ⟨hdepth, hle, ht⟩
  | plain hop _ hne _ => exact absurd (Option.some.inj (hop.symm.trans hret)) hne

theorem Outcome.of_plain (ht : m.Outcome keys t) (hop : m.ram.word? m.pc = some op)
    (hcall : op.toNat / 4096 ≠ 2) (hret : op ≠ 0x00ee) : m.Plain keys op t := by
  cases ht with
  | ended hpc _ => exact absurd hpc (not_end_of_word hop)
  | full hop' hcall' _ _ | called hop' hcall' _ _ =>
      obtain rfl := Option.some.inj (hop.symm.trans hop')
      exact absurd hcall' hcall
  | empty hop' _ _ | returned hop' _ _ _ =>
      exact absurd (Option.some.inj (hop.symm.trans hop')) hret
  | plain hop' _ _ ht =>
      obtain rfl := Option.some.inj (hop.symm.trans hop')
      exact ht

/-! ## Failures -/

/-- A step of the machine `m` fails with a fault, and leaves a machine. -/
inductive Failing (m : Machine) : Fault → Machine → Prop
  | ended (hpc : 4096 ≤ m.pc.toNat + 1) : Failing m (.pcOutOfBounds m.pc) m
  | full {op : UInt16} (hop : m.ram.word? m.pc = some op) (hcall : op.toNat / 4096 = 2)
      (hdepth : m.depth = 16) : Failing m (.stackOverflow m.pc) { m with pc := m.pc + 2 }
  | empty (hop : m.ram.word? m.pc = some 0x00ee) (hdepth : m.depth = 0) :
      Failing m (.stackUnderflow m.pc) { m with pc := m.pc + 2 }

theorem Outcome.failing (ht : m.Outcome keys t) (hf : t.fault = some f) :
    Failing m f t.machine := by
  cases ht with
  | ended hpc ht =>
      subst ht
      obtain rfl := Option.some.inj hf
      exact .ended hpc
  | full hop hcall hdepth ht =>
      obtain rfl := Option.some.inj (ht.fault.symm.trans hf)
      rw [ht.machine]
      exact .full hop hcall hdepth
  | empty hop hdepth ht =>
      obtain rfl := Option.some.inj (ht.fault.symm.trans hf)
      rw [ht.machine]
      exact .empty hop hdepth
  | called _ _ _ ht | returned _ _ _ ht | plain _ _ _ ht => cases ht.fault.symm.trans hf

/-- A step fails exactly where a failure is listed, with that fault and leaving
that machine. -/
theorem Outcome.failing_iff (ht : m.Outcome keys t) :
    t.fault = some f ∧ t.machine = m' ↔ Failing m f m' := by
  constructor
  · rintro ⟨hf, rfl⟩
    exact ht.failing hf
  · intro h
    cases h with
    | ended hpc =>
        rw [ht.of_end hpc]
        exact ⟨rfl, rfl⟩
    | full hop hcall hdepth =>
        rcases ht.of_call hop hcall with ⟨-, ht⟩ | ⟨hlt, -⟩
        · exact ⟨ht.fault, ht.machine⟩
        · exact absurd hdepth hlt.ne
    | empty hop hdepth =>
        rcases ht.of_return hop with ⟨-, ht⟩ | ⟨hlt, -⟩
        · exact ⟨ht.fault, ht.machine⟩
        · exact absurd hdepth hlt.ne'

theorem Failing.timers (h : Failing m f m') : m'.delay = m.delay ∧ m'.sound = m.sound := by
  cases h with
  | ended | full | empty => exact ⟨rfl, rfl⟩

end

end Machine

end ChipEight
