import ChipEight.Proofs.Machine.Runs

/-!
# How steps and frames fail

What a step and a frame come to is known; here it is said of every session that
can be reached. The end of memory is the one failure that stays. A call or a
return that fails has moved the program counter on, but past the end of memory
nothing moves it: whatever is asked next, a step fails again, until a program is
loaded (`run?_of_end`).
-/

namespace ChipEight

/-- A machine that differs in its timers at most. -/
def Machine.UpToTimers (m m' : Machine) : Prop :=
  ∃ delay sound, m' = { m with delay := delay, sound := sound }

namespace Session

/-! ## Past the end of memory -/

/-- Past the end of memory a request that is no load fails or leaves everything
but the timers. -/
theorem answer?_of_end (m : Machine) (hpc : 4096 ≤ m.pc.toNat + 1)
    (hcycles : 0 < m.settings.cyclesPerTick) (a : Session)
    (ha : m.UpToTimers a.machine) (r : Request) (hr : ¬ r.IsLoad) :
    ∃ t, a.answer? r = some t ∧ m.UpToTimers t.machine := by
  obtain ⟨b, keys, meter⟩ := a
  obtain ⟨delay, sound, rfl⟩ : m.UpToTimers b := ha
  cases r with
  | load rom | read source => exact absurd trivial hr
  | step => exact ⟨_, Machine.step?_of_end keys hpc, _, _, rfl⟩
  | frame => exact ⟨_, Machine.frame?_of_end keys true hpc hcycles, _, _, rfl⟩
  | tick => exact ⟨_, rfl, _, _, rfl⟩
  | touch keys => exact ⟨_, rfl, _, _, rfl⟩

/-- Until a program is loaded, every step and every frame past the end of memory
fails. -/
theorem run?_of_end {m : Machine} (hpc : 4096 ≤ m.pc.toNat + 1)
    (hcycles : 0 < m.settings.cyclesPerTick) {a : Session} (ha : a.machine = m)
    {requests : List Request} (hloads : ∀ r ∈ requests, ¬ r.IsLoad) :
    ∃ b, a.run? requests = some b ∧ m.UpToTimers b.machine ∧
      b.machine.step? b.keys = some (.failed (.pcOutOfBounds m.pc) b.machine) ∧
      ∀ l, b.machine.frame? b.keys l = some (.failed (.pcOutOfBounds m.pc) b.machine) := by
  obtain ⟨b, hb, delay, sound, hbm⟩ := run?_invariant (P := m.UpToTimers)
    (answer?_of_end m hpc hcycles) requests a hloads ⟨m.delay, m.sound, ha⟩
  have hbpc : b.machine.pc = m.pc := by rw [hbm]
  have hbcycles : b.machine.settings = m.settings := by rw [hbm]
  refine ⟨b, hb, ⟨delay, sound, hbm⟩, ?_, ?_⟩
  · rw [← hbpc]
    exact Machine.step?_of_end b.keys (hbpc ▸ hpc)
  · intro l
    rw [← hbpc]
    exact Machine.frame?_of_end b.keys l (hbpc ▸ hpc) (hbcycles ▸ hcycles)

/-! ## Reachable sessions -/

/-- Wherever a session got to, its next step fails exactly as listed; past the end
of memory it keeps failing until a load; and a frame fails with its first step
that fails. -/
theorem Reachable.failures {a : Session} (h : a.Reachable) :
    (∃ t, a.machine.step? a.keys = some t ∧ ∀ f m',
      t.fault = some f ∧ t.machine = m' ↔ a.machine.Failing f m') ∧
    (4096 ≤ a.machine.pc.toNat + 1 → ∀ requests, (∀ r ∈ requests, ¬ r.IsLoad) →
      ∃ b, a.run? requests = some b ∧ a.machine.UpToTimers b.machine ∧
        b.machine.step? b.keys = some (.failed (.pcOutOfBounds a.machine.pc) b.machine) ∧
        ∀ l, b.machine.frame? b.keys l =
          some (.failed (.pcOutOfBounds a.machine.pc) b.machine)) ∧
    ∀ l, ∃ t, a.machine.frame? a.keys l = some t ∧ Machine.Framed a.keys a.machine t := by
  obtain ⟨s, hs, hsafe⟩ := h.safe
  obtain ⟨t, ht, hout, -⟩ := hsafe.step hs a.keys
  have hcycles : 0 < a.machine.settings.cyclesPerTick := hsafe.settings ▸ Machine.cycles_pos hs
  refine ⟨⟨t, ht, fun f m' => hout.failing_iff⟩, ?_, ?_⟩
  · intro hpc requests hloads
    exact run?_of_end hpc hcycles rfl hloads
  · intro l
    obtain ⟨t, ht, hframed, -⟩ := Machine.frame?_framed hs hsafe a.keys l
    exact ⟨t, ht, hframed⟩

/-- A program that returns at once fails in its first step. -/
theorem failures_of_return : ∃ a : Session, a.Reachable ∧ ∃ t,
    a.machine.step? a.keys = some t ∧ t.fault = some (.stackUnderflow 0x200) ∧
      t.machine.pc = 0x202 := by
  obtain ⟨a, hreach, hram, hstart, hempty⟩ := exists_loaded (r := #[0x00, 0xee]) (by decide)
  have hret : a.machine.ram.word? a.machine.pc = some 0x00ee := by
    rw [hstart]
    exact Ram.word?_of_loadProgram hram (by decide : 0 + 1 < 2)
  obtain ⟨⟨t, ht, hfails⟩, -⟩ := hreach.failures
  obtain ⟨hfault, hmachine⟩ := (hfails _ _).mpr (.empty hret hempty)
  refine ⟨a, hreach, t, ht, ?_, ?_⟩
  · rw [hfault, hstart]
    rfl
  · rw [hmachine]
    show a.machine.pc + 2 = 0x202
    rw [hstart]
    decide

end Session

end ChipEight
