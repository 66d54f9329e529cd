import ChipEight.Proofs.Machine.Frames
import ChipEight.Proofs.Machine.Sessions

/-!
# Whole runs are safe

Every request to a session with a safe machine has an answer and leaves a safe
machine, whether it went well or not. So does every list of requests: starting
from a new machine nothing that can be asked, in whatever order, with whatever
programs and keys, breaks down.
-/

namespace ChipEight.Session

/-- Every request has an answer, and what it leaves is safe. -/
theorem answer?_safe {s : Settings} (hs : s.check = none) (a : Session)
    (ha : Machine.Safe s a.machine) (r : Request) :
    ∃ t, a.answer? r = some t ∧ Machine.Safe s t.machine := by
  cases r with
  | load rom => exact ⟨_, rfl, ha.load rom⟩
  | read source => exact ⟨_, rfl, ha.loadFrom source⟩
  | step =>
      obtain ⟨t, ht, -, hsafe⟩ := ha.step hs a.keys
      exact ⟨t, ht, hsafe⟩
  | frame =>
      obtain ⟨t, ht, -, hsafe⟩ := Machine.frame?_framed hs ha a.keys true
      exact ⟨t, ht, hsafe⟩
  | tick => exact ⟨_, rfl, ha.tick⟩
  | touch keys => exact ⟨_, rfl, ha⟩

/-- So has every list of requests. -/
theorem exists_run {s : Settings} (hs : s.check = none) (requests : List Request) {a : Session}
    (ha : Machine.Safe s a.machine) :
    ∃ b, a.run? requests = some b ∧ Machine.Safe s b.machine :=
  run?_invariant (fun a ha r _ => answer?_safe hs a ha r) requests a (fun _ _ => trivial) ha

theorem run?_append : ∀ (requests later : List Request) (a : Session),
    a.run? (requests ++ later) = (a.run? requests).bind (·.run? later)
  | [], _, _ => rfl
  | r :: rest, later, a => by
      show (a.answer? r).bind _ = ((a.answer? r).bind _).bind _
      rw [Option.bind_assoc]
      exact congrArg _ (funext fun t => run?_append rest later (a.after r t))

theorem Reachable.after {a : Session} (h : a.Reachable) {r : Request} {t : Turn}
    (ht : a.answer? r = some t) : (a.after r t).Reachable := by
  obtain ⟨s, chance, screen, m, keys, requests, hbuild, hrun⟩ := h
  refine ⟨s, chance, screen, m, keys, requests ++ [r], hbuild, ?_⟩
  rw [run?_append, hrun]
  show (a.answer? r).bind _ = _
  rw [ht]
  rfl

/-- Every session that can be reached has a safe machine. -/
theorem Reachable.safe {a : Session} (h : a.Reachable) :
    ∃ s, s.check = none ∧ Machine.Safe s a.machine := by
  obtain ⟨s, chance, screen, m, keys, requests, hbuild, hrun⟩ := h
  obtain ⟨hs, hsafe⟩ := Machine.safe_of_build hbuild
  obtain ⟨b, hb, hsafe'⟩ := exists_run hs requests (a := { machine := m, keys := keys }) hsafe
  obtain rfl : b = a := Option.some.inj (hb.symm.trans hrun)
  exact ⟨s, hs, hsafe'⟩

theorem exists_loaded {r : Array UInt8} (hr : r.size ≤ Ram.programRoom) :
    ∃ a : Session, a.Reachable ∧ Ram.fresh.loadProgram r = .ok a.machine.ram ∧
      a.machine.pc = Ram.programStart ∧ a.machine.depth = 0 := by
  have hw : ((Screen.blank? 64 32).get (by decide)).width = 64 := rfl
  obtain ⟨m, hbuild⟩ :=
    Machine.exists_build (s := { resetOnLoad := true }) (Dice.ofSeed 0) rfl hw rfl
  have hm := (Machine.safe_of_build hbuild).2
  obtain ⟨ram, hram⟩ : ∃ ram, Ram.fresh.loadProgram r = .ok ram := ⟨_, if_pos hr⟩
  obtain ⟨hloaded, hstart, hempty⟩ := Machine.load_restart (m := m) (by rw [hm.settings]) hram
  refine ⟨after { machine := m, keys := .untouched } (.load r) (m.load r),
    ⟨_, _, _, m, .untouched, [.load r], hbuild, rfl⟩, ?_, hstart, hempty⟩
  exact hram.trans (congrArg Except.ok hloaded.symm)

theorem exists_finding (high low : UInt8) :
    ∃ a : Session, a.Reachable ∧ a.machine.ram.word? a.machine.pc = some (bigEndian high low) := by
  have hfits : (#[high, low] : Array UInt8).size ≤ Ram.programRoom := by
    show 2 ≤ Ram.programRoom
    decide
  obtain ⟨a, hreach, hload, hstart, -⟩ := exists_loaded hfits
  refine ⟨a, hreach, ?_⟩
  rw [hstart]
  exact Ram.word?_of_loadProgram (i := 0) hload (by show 1 < 2; decide)

theorem holds_of_load {m : Machine} {rom : Array UInt8} (h : (m.load rom).fault = none) :
    Ram.Holds Ram.programStart rom.size := by
  unfold Machine.load at h
  simp only [] at h
  split at h
  case h_1 ram hram =>
      exact (Ram.writeBlock?_eq_some_iff.mp (Ram.loadProgram_eq_ok_iff.mp hram)).1
  case h_2 => cases h

/-- Settings that are accepted and a screen of their size make a machine, and
from there every list of requests runs to its end. Wherever it ends, the program
counter is `0x10fe` at most, the stack is in order, memory and screen have their
sizes, and a program that can be loaded fits. -/
theorem run?_safe {s : Settings} {screen : Screen} (hs : s.check = none)
    (hw : screen.width = s.width) (hh : screen.height = s.height) (chance : Dice) :
    ∃ m, Machine.build s chance screen = .ok m ∧
      ∀ (keys : Keypad) (requests : List Request),
        ∃ b, run? { machine := m, keys := keys } requests = some b ∧
          b.machine.settings = s ∧ b.machine.pc.toNat ≤ 0x10fe ∧ b.machine.depth ≤ 16 ∧
          (∀ i : Fin 16, i.val < b.machine.depth →
            2 ≤ (b.machine.stack.get i).toNat ∧ (b.machine.stack.get i).toNat ≤ 0x1000) ∧
          b.machine.ram.bytes.toArray.size = 4096 ∧
          b.machine.screen.width = s.width ∧ b.machine.screen.height = s.height ∧
          b.machine.screen.buffer.size = (s.width + 7) / 8 * s.height ∧
          ∀ rom, (b.machine.load rom).fault = none → Ram.Holds Ram.programStart rom.size := by
  obtain ⟨m, hbuild⟩ := Machine.exists_build chance hs hw hh
  refine ⟨m, hbuild, ?_⟩
  intro keys requests
  obtain ⟨b, hb, hsafe⟩ := run?_invariant (fun a ha r _ => answer?_safe hs a ha r) requests
    { machine := m, keys := keys } (fun _ _ => trivial) (Machine.safe_of_build hbuild).2
  have hsize : b.machine.screen.buffer.size = (s.width + 7) / 8 * s.height := by
    rw [b.machine.screen.size_buffer, hsafe.width, hsafe.height]
    rfl
  exact ⟨b, hb, hsafe.settings, hsafe.pc_le, hsafe.depth_le, hsafe.stack,
    b.machine.ram.bytes.size_toArray, hsafe.width, hsafe.height, hsize, fun _ => holds_of_load⟩

/-- Going on after a return with nothing to return to. -/
theorem run?_safe_return : ∃ m,
    Machine.build {} (Dice.ofSeed 0) ((Screen.blank? 64 32).get (by decide)) = .ok m ∧
      ∃ b, run? { machine := m, keys := .untouched }
        [.load #[0x00, 0xee], .step, .frame, .tick] = some b ∧ b.machine.depth ≤ 16 := by
  have hw : ((Screen.blank? 64 32).get (by decide)).width = ({} : Settings).width := rfl
  obtain ⟨m, hbuild, hruns⟩ := run?_safe rfl hw rfl (Dice.ofSeed 0)
  obtain ⟨b, hb, -, -, hdepth, -⟩ :=
    hruns .untouched [.load #[0x00, 0xee], .step, .frame, .tick]
  exact ⟨m, hbuild, b, hb, hdepth⟩

end ChipEight.Session
