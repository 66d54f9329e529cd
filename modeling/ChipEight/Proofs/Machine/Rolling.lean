import ChipEight.Proofs.Machine.Footprint
import ChipEight.Proofs.Machine.Moments

/-!
# The dice over whole runs

The dice are a stream and the number of rolls made of it. One opcode rolls them, and
it rolls once, also when its mask lets nothing through; every other step leaves them,
and so do loads, failures and ticks. So the stream is never set back and nothing of
it is lost: the roll with number `i`, counted from when the machine was built, takes
the word with number `i` of the stream of the seed.

`dice_of_answer?` is this for one moment, `Leads.dice` for all that happens.
-/

namespace ChipEight

/-- The dice after some more rolls. -/
def Dice.ahead (d : Dice) (n : Nat) : Dice :=
  { d with rolled := d.rolled + n }

theorem Dice.ahead_ahead (d : Dice) (n k : Nat) : (d.ahead n).ahead k = d.ahead (n + k) := by
  simp [Dice.ahead, Nat.add_assoc]

/-- Whether a moment is a step that rolls the dice. -/
def Moment.rolls (x : Moment) : Bool :=
  x.opcode?.any fun op => op.toNat / 4096 = 0xc

theorem Moment.rolls_iff {x : Moment} :
    x.rolls = true ↔ ∃ op, x.opcode? = some op ∧ op.toNat / 4096 = 0xc := by
  simp [Moment.rolls, Option.any_eq_true]

namespace Machine

variable {s : Settings} {m : Machine} {t : Turn} {keys : Keypad} {op : UInt16}

theorem step?_of_roll (keys : Keypad) (hop : m.ram.word? m.pc = some op)
    (hroll : op.toNat / 4096 = 0xc) : ∃ t, m.step? keys = some t ∧ t.fault = none ∧
      t.machine.dice = m.dice.ahead 1 ∧
      t.machine.registers.get (Instr.digitX op) =
        m.dice.face m.dice.rolled &&& Instr.fieldByte op := by
  have hdecode : Instr.decode op = some (.random (Instr.fieldX op) (Instr.fieldByte op)) :=
    Instr.decode_of_codes ⟨hroll, rfl, rfl⟩
  have hset := random?_eq (m := m.advanced) (Instr.fieldX_lt op) (Instr.fieldByte op)
  rw [step?_of_decode keys hop hdecode]
  refine ⟨_, congrArg (Option.map _) (done_map hset), rfl, rfl, ?_⟩
  exact get_setReg_digitX { m.advanced with dice := m.dice.roll.2 } op _

theorem Outcome.dice (ht : m.Outcome keys t)
    (hroll : ∀ op, m.ram.word? m.pc = some op → op.toNat / 4096 ≠ 0xc) :
    t.machine.dice = m.dice := by
  rcases ht.effect_or_moved with ⟨op, hop, heff⟩ | ⟨pc, hmoved⟩
  · exact heff.dice (hroll op hop)
  · rw [hmoved]

theorem dice_of_build {chance : Dice} {screen : Screen} {n : UInt64}
    (h : build s chance screen = .ok m) (hseed : s.seed = some n) : m.dice = Dice.ofSeed n := by
  unfold build at h
  split at h
  case h_1 => cases h
  case h_2 =>
      split at h
      case isTrue => cases h
      case isFalse =>
          obtain rfl := Except.ok.inj h
          simp only [hseed]

end Machine

namespace Session

open Machine (Safe)

variable {s : Settings} {a b : Session} {t : Turn} {ms : List Moment}

/-- Whatever happens, the dice are moved on by the rolls it makes. -/
theorem dice_of_answer? (hs : s.check = none) (ha : Safe s a.machine) {r : Request}
    (hr : r ≠ .frame) (ht : a.answer? r = some t) :
    t.machine.dice = a.machine.dice.ahead (Moment.rolls ⟨a, r⟩).toNat := by
  cases r with
  | frame => exact absurd rfl hr
  | load | read =>
      rcases turn_of_load ht trivial with ⟨f, rfl⟩ | ⟨base, ram, size, rfl, rfl⟩
      · rfl
      · show Machine.dice (if _ then _ else _) = _
        unfold Machine.restart
        split <;> rfl
  | tick | touch =>
      obtain rfl := Option.some.inj ht
      rfl
  | step =>
      cases hrolls : Moment.rolls ⟨a, .step⟩ with
      | true =>
          obtain ⟨op, hop, hroll⟩ := Moment.rolls_iff.mp hrolls
          obtain ⟨u, hu, -, hdice, -⟩ := Machine.step?_of_roll a.keys hop hroll
          obtain rfl := Option.some.inj (hu.symm.trans ht)
          exact hdice
      | false =>
          have hout := outcome_of_answer? hs ha ht
          refine hout.dice fun op hop hroll => ?_
          exact Bool.false_ne_true (hrolls.symm.trans (Moment.rolls_iff.mpr ⟨op, hop, hroll⟩))

/-- Over all that happens the dice are moved on by all rolls, and the roll with
number `i` finds them moved on by `i`. -/
theorem Leads.dice (h : Leads a ms b) (hs : s.check = none) : Safe s a.machine →
    b.machine.dice = a.machine.dice.ahead (ms.filter Moment.rolls).length ∧
      ∀ i x, (ms.filter Moment.rolls)[i]? = some x →
        x.session.machine.dice = a.machine.dice.ahead i := by
  induction h with
  | nil => exact fun _ => ⟨rfl, fun i x hx => absurd hx (by simp)⟩
  | @cons a b r t ms hr ht _ ih =>
      intro ha
      have hdice := dice_of_answer? hs ha hr ht
      have hsafe := safe_of_answer? hs ha ht
      obtain ⟨hb, hall⟩ := ih hsafe
      have hafter : (a.after r t).machine.dice = t.machine.dice := rfl
      rw [hafter, hdice] at hb hall
      cases hrolls : Moment.rolls ⟨a, r⟩ with
      | false =>
          rw [hrolls] at hb hall
          rw [List.filter_cons_of_neg (by simp [hrolls])]
          exact ⟨hb, hall⟩
      | true =>
          rw [hrolls, Bool.toNat_true] at hb hall
          rw [List.filter_cons_of_pos hrolls]
          constructor
          · rw [hb, Dice.ahead_ahead, List.length_cons, Nat.add_comm]
          · rintro (_ | i) x hx
            · obtain rfl := Option.some.inj hx
              rfl
            · rw [hall i x hx, Dice.ahead_ahead, Nat.add_comm]

/-- From when a machine was built with a seed on, whatever is asked, the dice have
been rolled as often as an opcode that rolls was executed, and the roll with number
`i` left the low byte of the word with number `i` of the seed's stream, masked, in
the register of its opcode. -/
theorem rolls_in_order {n : UInt64} (ha : a.Begins s) (hseed : s.seed = some n)
    (requests : List Request) : ∃ b, a.run? requests = some b ∧
      Leads a (a.moments requests) b ∧
      b.machine.dice = { key := Dice.keyOfSeed n
                         rolled := ((a.moments requests).filter Moment.rolls).length } ∧
      ∀ i x, ((a.moments requests).filter Moment.rolls)[i]? = some x →
        ∃ op t, x.opcode? = some op ∧ op.toNat / 4096 = 0xc ∧
          x.turn? = some t ∧ t.fault = none ∧
          t.machine.registers.get (Instr.digitX op) =
            (ChaCha.word (Dice.keyOfSeed n) i).toUInt8 &&& Instr.fieldByte op := by
  obtain ⟨hs, hsafe⟩ := ha.safe
  obtain ⟨b, hb, hleads⟩ := ha.leads requests
  obtain ⟨⟨_, _, hbuild⟩, -⟩ := ha
  have hstart := Machine.dice_of_build hbuild hseed
  obtain ⟨hdice, hall⟩ := hleads.dice hs hsafe
  refine ⟨b, hb, hleads, ?_, ?_⟩
  · rw [hdice, hstart]
    simp [Dice.ahead, Dice.ofSeed]
  · intro i x hx
    have hmem := List.mem_of_getElem? hx
    obtain ⟨op, hop, hroll⟩ := Moment.rolls_iff.mp (List.mem_filter.mp hmem).2
    obtain ⟨hstep, hword⟩ := Moment.opcode?_eq_some_iff.mp hop
    obtain ⟨t, ht, hfault, -, hreg⟩ := Machine.step?_of_roll x.session.keys hword hroll
    have hturn : x.turn? = some t := by
      rw [Moment.turn?, hstep]
      exact ht
    refine ⟨op, t, hop, hroll, hturn, hfault, ?_⟩
    rw [hreg, hall i x hx, hstart]
    simp [Dice.ahead, Dice.ofSeed, Dice.face]

/-- A program that rolls once, loaded and stepped twice into a machine that starts
afresh: the second roll takes the second byte of the stream. -/
theorem rolls_in_order_reloaded : ∃ (a b : Session) (rom : Array UInt8),
    rom = #[0xc0, 0xff] ∧ a.Begins { resetOnLoad := true, seed := some 42 } ∧
    a.run? [.load rom, .step, .load rom, .step] = some b ∧
    b.machine.dice.rolled = 2 ∧ b.machine.registers.get 0 = 0x63 := by
  obtain ⟨a, ha, -⟩ := exists_begins (s := { resetOnLoad := true, seed := some 42 })
    rfl (by decide) .untouched
  obtain ⟨rom, hrom⟩ : ∃ rom : Array UInt8, rom = #[0xc0, 0xff] := ⟨_, rfl⟩
  have hword : ∀ m : Machine,
      (m.load rom).machine.ram.word? (m.load rom).machine.pc = some 0xc0ff := by
    intro m
    subst hrom
    have hfits : (#[0xc0, 0xff] : Array UInt8).size ≤ Ram.programRoom := by decide
    exact m.first_word_of_load hfits rfl rfl
  -- the sessions after the two loads, and the steps that are made there
  obtain ⟨a₁, hload₁, hfirst⟩ : ∃ a₁, a₁ = a.after (.load rom) (a.machine.load rom) ∧
      a₁.machine.ram.word? a₁.machine.pc = some 0xc0ff := ⟨_, rfl, hword a.machine⟩
  obtain ⟨t, ht, -⟩ := Machine.step?_of_roll a₁.keys hfirst (by decide)
  have ht : a₁.answer? .step = some t := ht
  obtain ⟨a₂, hload₂, hsecond⟩ : ∃ a₂,
      a₂ = (a₁.after .step t).after (.load rom) ((a₁.after .step t).machine.load rom) ∧
      a₂.machine.ram.word? a₂.machine.pc = some 0xc0ff := ⟨_, rfl, hword t.machine⟩
  obtain ⟨u, hu, -⟩ := Machine.step?_of_roll a₂.keys hsecond (by decide)
  have hu : a₂.answer? .step = some u := hu
  have hmoments : (a.moments [.load rom, .step, .load rom, .step]).filter Moment.rolls =
      [⟨a₁, .step⟩, ⟨a₂, .step⟩] := by
    rw [moments_cons rfl, ← hload₁, moments_cons ht, moments_cons rfl, ← hload₂, moments_cons hu]
    have hquiet : ∀ c : Session, Moment.rolls ⟨c, .load rom⟩ = false := fun _ => rfl
    have hrolls : Moment.rolls ⟨a₁, .step⟩ = true := Moment.rolls_iff.mpr ⟨_, hfirst, by decide⟩
    have hrolls' : Moment.rolls ⟨a₂, .step⟩ = true :=
      Moment.rolls_iff.mpr ⟨_, hsecond, by decide⟩
    simp [momentsOf, moments, hquiet, hrolls, hrolls']
  obtain ⟨b, hb, -, hdice, hrolls⟩ := rolls_in_order ha rfl [.load rom, .step, .load rom, .step]
  rw [hmoments] at hdice hrolls
  obtain ⟨op, v, hop, -, hv, -, hreg⟩ := hrolls 1 _ rfl
  obtain rfl : op = 0xc0ff := Option.some.inj (hop.symm.trans hsecond)
  obtain rfl : v = u := Option.some.inj (hv.symm.trans hu)
  have hlast : b.machine = v.machine := by
    rw [run?_cons rfl, ← hload₁, run?_cons ht, run?_cons rfl, ← hload₂, run?_cons hu] at hb
    rw [← Option.some.inj hb]
    rfl
  refine ⟨a, b, rom, hrom, ha, hb, congrArg Dice.rolled hdice, ?_⟩
  rw [hlast]
  exact hreg.trans (by decide +kernel)

end Session

end ChipEight
