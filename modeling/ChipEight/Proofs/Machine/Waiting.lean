import ChipEight.Proofs.Keypad.Holding
import ChipEight.Proofs.Machine.Ticking

/-!
# Waiting for a key

The opcode that waits for a key finds none and goes back to itself. The program counter has
moved on by then, and moves back, so a step leaves the machine exactly as it was: steps are
nothing, and a frame is its tick. Turns are compared here as they are for someone who does
not listen to notes, as waiting is noted.

`Patient` lists the requests that go by while the machine waits. Keys may be pressed and let
go and the timers may tick; only where a step or a frame is made no key is held. Whatever the
order, the timers have counted down in the end, the tone has heard of it, and the machine is
still waiting with nothing else changed (`Patient.run?`).

No part of this needs a machine that is safe: it holds of every machine at such an opcode.
-/

namespace ChipEight

namespace Keypad

/-- No key is held. -/
def Released (k : Keypad) : Prop :=
  ∀ key, k.held key = false

theorem Consistent.exists_lowest {k : Keypad} (h : k.Consistent)
    (hheld : ∃ key, k.held key = true) :
    ∃ key, k.lowest = some key ∧ k.held key = true ∧ ∀ key' < key, k.held key' = false := by
  cases hlowest : k.lowest with
  | none =>
      obtain ⟨key, hkey⟩ := hheld
      exact Bool.noConfusion ((h.2.mp hlowest key).symm.trans hkey)
  | some key => exact ⟨key, rfl, (h.1 key).mp hlowest⟩

end Keypad

namespace Turn

theorem leaves_of_heard {u : Turn} {m : Machine} (h : u.heard false = .done m) :
    u.Leaves m none :=
  ⟨congrArg Turn.machine h, congrArg Turn.fault h, congrArg Turn.tones h⟩

/-- A turn after which nothing happened but notes is the same turn, apart from its notes. -/
theorem heard_followed_leaves {t u : Turn} {m : Machine} (hm : t.machine = m)
    (hfault : t.fault = none) (hu : u.Leaves m none) (l : Bool) :
    (t.followed (u.heard l)).heard false = t.heard false := by
  cases l <;> simp [heard, followed, hm, hfault, hu.machine, hu.fault, hu.tones]

end Turn

namespace Machine

variable {m : Machine} {keys : Keypad} {x : Fin 16} {key : UInt8}

/-! ## Steps -/

/-- Without a key a step does nothing at all. -/
theorem Finds.step?_of_none (h : m.Finds x 0x0a) (hkeys : keys.lowest = none) :
    (m.step? keys).map (Turn.heard false) = some (.done m) := by
  obtain ⟨op, hop, ⟨hf, hlow⟩, -⟩ := h
  have hi : Instr.decode op = some (.awaitKey (Instr.fieldX op)) :=
    Instr.decode_of_codes ⟨hf, hlow, rfl⟩
  -- the program counter goes back to where it was
  have hwait : m.advanced.execute? keys m.pc (.awaitKey (Instr.fieldX op)) =
      some ((Turn.done m).noting (.waiting m.pc)) := by
    refine (awaitKey?_eq (Instr.fieldX_lt op) keys m.pc).trans ?_
    rw [hkeys]
    rfl
  rw [step?_of_decode keys hop hi, hwait]
  rfl

theorem Finds.step?_of_some (h : m.Finds x 0x0a) (hkeys : keys.lowest = some key) :
    (m.step? keys).map (Turn.heard false) =
      some (.done { m with pc := m.pc + 2, registers := m.registers.set x key x.isLt }) := by
  obtain ⟨op, hop, ⟨hf, hlow⟩, rfl⟩ := h
  have hi : Instr.decode op = some (.awaitKey (Instr.fieldX op)) :=
    Instr.decode_of_codes ⟨hf, hlow, rfl⟩
  have htake : m.advanced.execute? keys m.pc (.awaitKey (Instr.fieldX op)) =
      some (.done (m.advanced.setReg (Instr.fieldX op) key)) := by
    refine (awaitKey?_eq (Instr.fieldX_lt op) keys m.pc).trans ?_
    rw [hkeys]
  have hset : m.advanced.setReg (Instr.fieldX op) key =
      { m with pc := m.pc + 2, registers := m.registers.set (Instr.digitX op) key } := by
    simp only [setReg, advanced, toNat_fieldX_mod]
  rw [step?_of_decode keys hop hi, htake, hset]
  rfl

/-! ## Frames -/

theorem Finds.stepsAfter?_of_none (h : m.Finds x 0x0a) (hkeys : keys.lowest = none) (l : Bool)
    (n : Nat) {t : Turn} (hm : t.machine = m) (hfault : t.fault = none) :
    (stepsAfter? keys l n t).map (Turn.heard false) = some (t.heard false) := by
  induction n generalizing t with
  | zero => rfl
  | succ n ih =>
      obtain ⟨u, hu, hsame⟩ := Option.map_eq_some_iff.mp (h.step?_of_none hkeys)
      have hleaves := Turn.leaves_of_heard hsame
      have hmachine : (t.followed (u.heard l)).machine = m :=
        (Turn.machine_heard l u).trans hleaves.machine
      have hwell : (t.followed (u.heard l)).fault = none :=
        (Turn.fault_heard l u).trans hleaves.fault
      rw [stepsAfter?_of_well keys l n hfault, hm, hu, Option.bind_some, ih hmachine hwell,
        Turn.heard_followed_leaves hm hfault hleaves l]

theorem Finds.steps?_of_none (h : m.Finds x 0x0a) (hkeys : keys.lowest = none) (n : Nat)
    (l : Bool) : (m.steps? keys n l).map (Turn.heard false) = some (.done m) :=
  h.stepsAfter?_of_none hkeys l n rfl rfl

theorem Finds.frame?_of_none (h : m.Finds x 0x0a) (hkeys : keys.lowest = none) (l : Bool) :
    (m.frame? keys l).map (Turn.heard false) = some m.tick := by
  obtain ⟨t, ht, hsame⟩ := Option.map_eq_some_iff.mp
    (h.steps?_of_none hkeys m.settings.cyclesPerTick l)
  have hleaves := Turn.leaves_of_heard hsame
  have hframe : m.frame? keys l = some (t.followed m.tick) := by
    show (m.steps? keys m.settings.cyclesPerTick l).bind
      (fun t => t.continue? fun m => some m.tick) = _
    rw [ht, Option.bind_some, Turn.continue?_of_well hleaves.fault, hleaves.machine]
    rfl
  rw [hframe]
  simp [Turn.heard, Turn.followed, hleaves.tones, tick]

theorem Finds.congr {m' : Machine} {low : Nat} (h : m.Finds x low) (hram : m'.ram = m.ram)
    (hpc : m'.pc = m.pc) : m'.Finds x low := by
  obtain ⟨op, hop, hspecial, hx⟩ := h
  exact ⟨op, by rw [hram, hpc]; exact hop, hspecial, hx⟩

end Machine

namespace Session

/-! ## Requests that go by -/

/-- From a keypad on, requests of which none takes a key: wherever a step or a frame is made,
no key is held. So many of them tick, and they leave a keypad. A frame in which keys change is
told by its steps and its tick. -/
inductive Patient : Keypad → List Request → Nat → Keypad → Prop
  | nil (keys : Keypad) : Patient keys [] 0 keys
  | step {keys keys' : Keypad} {rest : List Request} {n : Nat} (hkeys : keys.Released)
      (h : Patient keys rest n keys') : Patient keys (.step :: rest) n keys'
  | frame {keys keys' : Keypad} {rest : List Request} {n : Nat} (hkeys : keys.Released)
      (h : Patient keys rest n keys') : Patient keys (.frame :: rest) (n + 1) keys'
  | tick {keys keys' : Keypad} {rest : List Request} {n : Nat}
      (h : Patient keys rest n keys') : Patient keys (.tick :: rest) (n + 1) keys'
  | touch {keys touched keys' : Keypad} {rest : List Request} {n : Nat}
      (htouched : touched.Consistent) (h : Patient touched rest n keys') :
      Patient keys (.touch touched :: rest) n keys'

variable {a b : Session} {x : Fin 16} {keys keys' : Keypad} {requests : List Request} {n : Nat}

theorem Patient.consistent (h : Patient keys requests n keys') :
    keys.Consistent → keys'.Consistent := by
  induction h with
  | nil => exact id
  | step _ _ ih | frame _ _ ih => exact ih
  | tick _ ih => exact ih
  | touch htouched _ ih => exact fun _ => ih htouched

/-- What is left of a session after `n` ticks and with the keypad as it is last: the timers
and the tone have moved on, and nothing else. -/
structure Waited (a : Session) (n : Nat) (keys : Keypad) (b : Session) : Prop where
  rest : b.machine = { a.machine with delay := b.machine.delay, sound := b.machine.sound }
  delay : b.machine.delay.toNat = a.machine.delay.toNat - n
  sound : b.machine.sound.toNat = a.machine.sound.toNat - n
  meter : b.meter = a.meter.hearAll (Tone.fading a.machine.sound.toNat n)
  keys : b.keys = keys

theorem Waited.finds {low : Nat} (h : a.Waited n keys b) (ha : a.machine.Finds x low) :
    b.machine.Finds x low := by
  refine ha.congr ?_ ?_
  · rw [h.rest]
  · rw [h.rest]

theorem Waited.of_tick (h : (a.after .tick a.machine.tick).Waited n keys b) :
    a.Waited (n + 1) keys b := by
  have hdelay : a.machine.tick.machine.delay.toNat = a.machine.delay.toNat - 1 :=
    Machine.toNat_countDown _
  have hsound : a.machine.tick.machine.sound.toNat = a.machine.sound.toNat - 1 :=
    Machine.toNat_countDown _
  refine ⟨h.rest, ?_, ?_, ?_, h.keys⟩
  · have hlater : _ = a.machine.tick.machine.delay.toNat - n := h.delay
    rw [hlater, hdelay, Nat.sub_sub, Nat.add_comm]
  · have hlater : _ = a.machine.tick.machine.sound.toNat - n := h.sound
    rw [hlater, hsound, Nat.sub_sub, Nat.add_comm]
  · rw [Tone.fading_succ hsound]
    exact h.meter

/-! ## Runs -/

theorem run?_cons_of_heard {r : Request} {u : Turn}
    (h : (a.answer? r).map (Turn.heard false) = some u) (rest : List Request) :
    a.run? (r :: rest) = (a.after r u).run? rest := by
  obtain ⟨t, ht, rfl⟩ := Option.map_eq_some_iff.mp h
  exact (run?_cons ht).trans rfl

/-- Patient requests leave a machine that waits as it is, apart from the timers. -/
theorem Patient.run? (h : Patient keys requests n keys') : ∀ a : Session, a.keys = keys →
    a.keys.Consistent → a.machine.Finds x 0x0a →
    ∃ b, a.run? requests = some b ∧ a.Waited n keys' b := by
  induction h with
  | nil keys =>
      intro a hkeys _ _
      refine ⟨a, rfl, rfl, rfl, rfl, ?_, hkeys⟩
      simp [Tone.fading, Meter.hearAll]
  | step hreleased _ ih =>
      rintro a rfl hconsistent ha
      have hstep : (a.answer? .step).map (Turn.heard false) = some (.done a.machine) :=
        ha.step?_of_none (hconsistent.2.mpr hreleased)
      rw [run?_cons_of_heard hstep]
      exact ih a rfl hconsistent ha
  | frame hreleased _ ih =>
      rintro a rfl hconsistent ha
      have hframe : (a.answer? .frame).map (Turn.heard false) = some a.machine.tick :=
        ha.frame?_of_none (hconsistent.2.mpr hreleased) true
      rw [run?_cons_of_heard hframe]
      obtain ⟨b, hb, hwaited⟩ :=
        ih (a.after .tick a.machine.tick) rfl hconsistent (ha.congr rfl rfl)
      exact ⟨b, hb, hwaited.of_tick⟩
  | tick _ ih =>
      rintro a rfl hconsistent ha
      obtain ⟨b, hb, hwaited⟩ :=
        ih (a.after .tick a.machine.tick) rfl hconsistent (ha.congr rfl rfl)
      exact ⟨b, hb, hwaited.of_tick⟩
  | touch htouched _ ih =>
      rintro a rfl _ ha
      obtain ⟨b, hb, hwaited⟩ := ih (a.after (.touch _) (.done a.machine)) rfl htouched ha
      exact ⟨b, hb, hwaited.rest, hwaited.delay, hwaited.sound, hwaited.meter, hwaited.keys⟩

/-- A machine that waits for a key goes on waiting, whatever keys are pressed and let go and
however many steps, frames and ticks there are, as long as none of the steps finds a key. The
timers count down with the ticks, and nothing else changes. From there on, any number of
steps without a key does nothing and a frame without one is a tick; with keys held the first
step takes the lowest of them into the register, goes on to the next instruction and changes
nothing else. -/
theorem run?_waiting (ha : a.machine.Finds x 0x0a) (hkeys : a.keys.Consistent)
    (h : Patient a.keys requests n keys) :
    ∃ b, a.run? requests = some b ∧ a.Waited n keys b ∧
      (b.keys.Released →
        (b.machine.step? b.keys).map (Turn.heard false) = some (.done b.machine) ∧
        (∀ k l, (b.machine.steps? b.keys k l).map (Turn.heard false) = some (.done b.machine)) ∧
        ∀ l, (b.machine.frame? b.keys l).map (Turn.heard false) = some b.machine.tick) ∧
      ((∃ key, b.keys.held key = true) →
        ∃ key, b.keys.held key = true ∧ (∀ key' < key, b.keys.held key' = false) ∧
          (b.machine.step? b.keys).map (Turn.heard false) = some (.done { b.machine with
            pc := b.machine.pc + 2, registers := b.machine.registers.set x key x.isLt })) := by
  obtain ⟨b, hb, hwaited⟩ := h.run? a rfl hkeys ha
  have hfinds := hwaited.finds ha
  have hconsistent : b.keys.Consistent := hwaited.keys.symm ▸ h.consistent hkeys
  refine ⟨b, hb, hwaited, ?_, ?_⟩
  · intro hreleased
    have hnone : b.keys.lowest = none := hconsistent.2.mpr hreleased
    exact ⟨hfinds.step?_of_none hnone, hfinds.steps?_of_none hnone, hfinds.frame?_of_none hnone⟩
  · intro hheld
    obtain ⟨key, hlowest, hkey, hlow⟩ := hconsistent.exists_lowest hheld
    exact ⟨key, hkey, hlow, hfinds.step?_of_some hlowest⟩

/-- A key that is pressed and let go before a step is made is not seen. Of the two that are
held at the last step the lower is taken, though it was pressed later; the timer that a tick
and a frame went by has run out. -/
theorem run?_waiting_pressed : ∃ (a b : Session) (t : Turn) (k : ManualKeys), k.down = [] ∧
    a.machine.ram.word? a.machine.pc = some 0xf50a ∧ a.machine.sound = 2 ∧
    a.run? [.touch (k.press 7).keypad, .tick, .touch ((k.press 7).release 7).keypad, .step,
      .frame, .step, .touch ((k.press 9).press 3).keypad] = some b ∧
    b.machine.pc = a.machine.pc ∧ b.machine.sound = 0 ∧
    b.machine.step? b.keys = some t ∧ t.machine.pc = a.machine.pc + 2 ∧
    t.machine.registers.get 5 = 3 := by
  obtain ⟨loaded, -, hfinds⟩ := exists_finding 0xf5 0x0a
  obtain ⟨k, hk⟩ : ∃ k : ManualKeys, k = { down := [] } := ⟨_, rfl⟩
  obtain ⟨a, ha⟩ : ∃ a : Session, a = { loaded with
      machine := { loaded.machine with sound := 2 }, keys := k.keypad } := ⟨_, rfl⟩
  have hop : a.machine.ram.word? a.machine.pc = some 0xf50a := by
    rw [ha]
    exact hfinds
  have hsound : a.machine.sound = 2 := by rw [ha]
  have hkeys : a.keys.Consistent := by
    rw [ha]
    exact k.keypad_consistent
  have hreleased : ((k.press 7).release 7).keypad.Released := by
    rw [hk]
    intro key
    rfl
  have hpatient : Patient a.keys [.touch (k.press 7).keypad, .tick,
      .touch ((k.press 7).release 7).keypad, .step, .frame, .step,
      .touch ((k.press 9).press 3).keypad] 2 ((k.press 9).press 3).keypad :=
    .touch (ManualKeys.keypad_consistent _) <| .tick <|
    .touch (ManualKeys.keypad_consistent _) <| .step hreleased <| .frame hreleased <|
    .step hreleased <| .touch (ManualKeys.keypad_consistent _) <| .nil _
  obtain ⟨b, hb, hwaited, -, htaken⟩ :=
    run?_waiting (x := 5) ⟨0xf50a, hop, ⟨rfl, rfl⟩, rfl⟩ hkeys hpatient
  have hdown : ∀ key, b.keys.held key = true ↔ key = 9 ∨ key = 3 := by
    intro key
    rw [hwaited.keys, hk]
    simp [ManualKeys.keypad, ManualKeys.press]
  obtain ⟨key, hkey, hlow, hstep⟩ := htaken ⟨3, (hdown 3).mpr (Or.inr rfl)⟩
  have hthree : key = 3 := by
    rcases (hdown key).mp hkey with rfl | hthree
    · exact Bool.noConfusion ((hlow 3 (by decide)).symm.trans ((hdown 3).mpr (Or.inr rfl)))
    · exact hthree
  obtain ⟨t, ht, hsame⟩ := Option.map_eq_some_iff.mp hstep
  have hnext : t.machine.pc = b.machine.pc + 2 := congrArg (fun t => t.machine.pc) hsame
  have hregister : t.machine.registers.get 5 = key :=
    (congrArg (fun t => t.machine.registers.get 5) hsame).trans (Vector.getElem_set_self _)
  have hpc : b.machine.pc = a.machine.pc := by rw [hwaited.rest]
  have hsilent : b.machine.sound = 0 := by
    have hcount := hwaited.sound
    rw [hsound] at hcount
    exact UInt8.toNat_inj.mp hcount
  exact ⟨a, b, t, k, by rw [hk], hop, hsound, hb, hpc, hsilent, ht, hpc ▸ hnext,
    hregister.trans hthree⟩

end Session

end ChipEight
