import ChipEight.Proofs.Machine.Frames

/-!
# Settings and dice out of sight

No step looks at the settings, and none looks at the dice but one that rolls
them. So a machine can be fitted with other settings and other dice before such a
step or after it, and it comes to the same turn (`step?_refit`). Each part of a
step commutes with the change; an instruction is made of parts, and a step of one
instruction.

That nothing changes the settings comes out of this, without a look at what an
instruction does: fitted with the settings it has, a machine is itself. Frames
keep them because steps do. This holds of every machine, also of one that no
session can get to and that breaks down later, where the invariant of safe
machines has nothing to say.
-/

namespace ChipEight

/-- The machine with other settings and other dice. -/
def Machine.refit (m : Machine) (s : Settings) (d : Dice) : Machine :=
  { m with settings := s, dice := d }

/-- The turn with other settings and other dice in the machine it leaves. -/
def Turn.refit (t : Turn) (s : Settings) (d : Dice) : Turn :=
  { t with machine := t.machine.refit s d }

namespace Machine

variable (m : Machine) (s : Settings) (d : Dice)

theorem register?_refit (x : UInt8) : (m.refit s d).register? x = m.register? x := rfl

theorem setRegister?_refit (x v : UInt8) :
    (m.refit s d).setRegister? x v = (m.setRegister? x v).map fun m => m.refit s d := by
  unfold setRegister?
  split <;> rfl

theorem combine?_refit (x y : UInt8) (f : UInt8 → UInt8 → UInt8) :
    (m.refit s d).combine? x y f = (m.combine? x y f).map fun m => m.refit s d := by
  simp only [combine?, register?_refit, setRegister?_refit]
  cases m.register? x <;> cases m.register? y <;> rfl

theorem combineFlagged?_refit (x y : UInt8) (f : UInt8 → UInt8 → UInt8 × Bool) :
    (m.refit s d).combineFlagged? x y f =
      (m.combineFlagged? x y f).map fun m => m.refit s d := by
  simp only [combineFlagged?, setFlagged?, register?_refit, setRegister?_refit]
  cases m.register? x with
  | none => rfl
  | some a =>
    cases m.register? y with
    | none => rfl
    | some b =>
      show ((m.setRegister? x (f a b).1).map _).map _ = ((m.setRegister? x (f a b).1).map _).map _
      cases m.setRegister? x (f a b).1 <;> rfl

theorem skipIf?_refit (c : Bool) :
    (m.refit s d).skipIf? c = (m.skipIf? c).map fun m => m.refit s d := by
  cases c with
  | false => rfl
  | true =>
    show (next? m.pc).map _ = ((next? m.pc).map _).map _
    cases next? m.pc <;> rfl

theorem jumpOffset?_refit (a : UInt16) :
    (m.refit s d).jumpOffset? a = (m.jumpOffset? a).map fun m => m.refit s d := by
  simp only [jumpOffset?, register?_refit]
  cases m.register? 0 with
  | none => rfl
  | some v =>
    show (if _ then _ else _) = Option.map _ (if _ then _ else _)
    split <;> rfl

theorem done_refit (o : Option Machine) :
    Turn.done <$> o.map (fun m => m.refit s d) = (Turn.done <$> o).map fun t => t.refit s d := by
  cases o <;> rfl

theorem call?_refit (pc a : UInt16) :
    (m.refit s d).call? pc a = (m.call? pc a).map fun t => t.refit s d := by
  show (if m.depth = 16 then _ else if h : m.depth < 16 then _ else _) =
    Option.map _ (if m.depth = 16 then _ else if h : m.depth < 16 then _ else _)
  split
  · rfl
  · split <;> rfl

theorem return?_refit (pc : UInt16) :
    (m.refit s d).return? pc = (m.return? pc).map fun t => t.refit s d := by
  show (if m.depth = 0 then _ else if h : m.depth - 1 < 16 then _ else _) =
    Option.map _ (if m.depth = 0 then _ else if h : m.depth - 1 < 16 then _ else _)
  split
  · rfl
  · split <;> rfl

theorem store?_refit (x : UInt8) :
    (m.refit s d).store? x = (m.store? x).map fun m => m.refit s d := by
  unfold store?
  split <;> rfl

theorem load?_refit (x : UInt8) :
    (m.refit s d).load? x = (m.load? x).map fun m => m.refit s d := by
  unfold load?
  split <;> rfl

theorem digits?_refit (x : UInt8) :
    (m.refit s d).digits? x = (m.digits? x).map fun m => m.refit s d := by
  simp only [digits?, register?_refit]
  cases m.register? x <;> rfl

theorem draw?_refit (x y n : UInt8) :
    (m.refit s d).draw? x y n = (m.draw? x y n).map fun m => m.refit s d := by
  simp only [draw?, register?_refit]
  cases m.register? x with
  | none => rfl
  | some vx =>
    cases m.register? y with
    | none => rfl
    | some vy =>
      show Option.bind (m.screen.drawWrapped? vx.toNat vy.toNat (m.sprite n)) _ =
        (Option.bind (m.screen.drawWrapped? vx.toNat vy.toNat (m.sprite n)) _).map _
      cases m.screen.drawWrapped? vx.toNat vy.toNat (m.sprite n) <;> rfl

theorem awaitKey?_refit (keys : Keypad) (pc : UInt16) (x : UInt8) :
    (m.refit s d).awaitKey? keys pc x = (m.awaitKey? keys pc x).map fun t => t.refit s d := by
  unfold awaitKey?
  cases keys.lowest with
  | none => rfl
  | some key =>
    simp only [setRegister?_refit]
    cases m.setRegister? x key <;> rfl

theorem bind_refit (x : UInt8) {f g : UInt8 → Option Turn}
    (h : ∀ v, f v = (g v).map fun t => t.refit s d) :
    ((m.refit s d).register? x >>= f) = (m.register? x >>= g).map fun t => t.refit s d := by
  rw [register?_refit]
  cases m.register? x with
  | none => rfl
  | some v => exact h v

/-! ## Instructions and steps -/

/-- No instruction but the one that rolls the dice sees the change. -/
theorem execute?_refit (keys : Keypad) (pc : UInt16) {i : Instr} (hi : ∀ x n, i ≠ .random x n) :
    (m.refit s d).execute? keys pc i = (m.execute? keys pc i).map fun t => t.refit s d := by
  cases i with
  | clear | sys | jump | loadIndex => rfl
  | ret => exact m.return?_refit s d pc
  | call a => exact m.call?_refit s d pc a
  | random x n => exact absurd rfl (hi x n)
  | skipEqByte x n | skipNeByte x n | skipPressed x | skipReleased x =>
      refine m.bind_refit s d x fun v => ?_
      rw [skipIf?_refit, done_refit]
  | skipEq x y | skipNe x y =>
      refine m.bind_refit s d x fun v => m.bind_refit s d y fun w => ?_
      rw [skipIf?_refit, done_refit]
  | readDelay x =>
      show Turn.done <$> (m.refit s d).setRegister? x m.delay = _
      rw [setRegister?_refit, done_refit]
      rfl
  | awaitKey x => exact m.awaitKey?_refit s d keys pc x
  | setDelay x | setSound x | addIndex x | glyph x => exact m.bind_refit s d x fun v => rfl
  | _ =>
      simp only [execute?, setRegister?_refit, combine?_refit, combineFlagged?_refit,
        jumpOffset?_refit, draw?_refit, digits?_refit, store?_refit, load?_refit, done_refit]

/-- A machine is about to roll its dice. -/
def Rolls (m : Machine) : Prop :=
  ∃ op, m.ram.word? m.pc = some op ∧ op.toNat / 4096 = 0xc

variable {m}

theorem step?_refit (h : ¬ m.Rolls) (keys : Keypad) :
    (m.refit s d).step? keys = (m.step? keys).map fun t => t.refit s d := by
  cases hop : m.ram.word? m.pc with
  | none =>
      have hpc := (word?_eq_none_iff m.ram m.pc).mp hop
      rw [step?_of_end keys hpc, step?_of_end (m := m.refit s d) keys hpc]
      rfl
  | some op =>
      have hop' : (m.refit s d).ram.word? (m.refit s d).pc = some op := hop
      cases hi : Instr.decode op with
      | none =>
          rw [step?_of_undefined keys hop hi, step?_of_undefined keys hop' hi]
          rfl
      | some i =>
          have hroll : ∀ x n, i ≠ .random x n := by
            rintro x n rfl
            exact h ⟨op, hop, (Instr.codes_of_decode hi).1⟩
          rw [step?_of_decode keys hop hi, step?_of_decode keys hop' hi]
          show ((m.advanced.refit s d).execute? keys m.pc i).map _ = _
          rw [execute?_refit _ s d keys m.pc hroll, Option.map_map, Option.map_map]
          rfl

/-! ## The settings stay -/

theorem settings_of_execute? {keys : Keypad} {pc : UInt16} {i : Instr} {t : Turn}
    (h : m.execute? keys pc i = some t) : t.machine.settings = m.settings := by
  by_cases hi : ∀ x n, i ≠ .random x n
  · -- fitted with what it has the machine is the same, so the turn is too
    have hsame := execute?_refit m m.settings m.dice keys pc hi
    rw [h] at hsame
    exact congrArg (fun t => t.machine.settings) (Option.some.inj (h.symm.trans hsame))
  · obtain ⟨x, n, rfl⟩ : ∃ x n, i = .random x n := by simpa using hi
    simp only [execute?, random?, setRegister?] at h
    split at h
    · exact congrArg (fun t => t.machine.settings) (Option.some.inj h.symm)
    · cases h

theorem settings_of_step? {keys : Keypad} {t : Turn} (h : m.step? keys = some t) :
    t.machine.settings = m.settings := by
  cases hop : m.ram.word? m.pc with
  | none =>
      rw [step?_of_end keys ((word?_eq_none_iff m.ram m.pc).mp hop)] at h
      obtain rfl := Option.some.inj h
      rfl
  | some op =>
      cases hi : Instr.decode op with
      | none =>
          rw [step?_of_undefined keys hop hi] at h
          obtain rfl := Option.some.inj h
          rfl
      | some i =>
          rw [step?_of_decode keys hop hi] at h
          obtain ⟨u, hu, rfl⟩ := Option.map_eq_some_iff.mp h
          show u.machine.settings = m.advanced.settings
          exact settings_of_execute? hu

theorem settings_of_continue? {t u : Turn} {f : Machine → Option Turn}
    (hf : ∀ m v, f m = some v → v.machine.settings = m.settings) (h : t.continue? f = some u) :
    u.machine.settings = t.machine.settings := by
  obtain ⟨m, fault, notes, tones⟩ := t
  cases fault with
  | some g =>
      obtain rfl := Option.some.inj h
      rfl
  | none =>
      obtain ⟨v, hv, rfl⟩ := Option.map_eq_some_iff.mp h
      exact hf m v hv

theorem settings_of_stepsAfter? {keys : Keypad} {l : Bool} {n : Nat} {t u : Turn}
    (h : stepsAfter? keys l n t = some u) : u.machine.settings = t.machine.settings := by
  induction n generalizing t with
  | zero =>
      obtain rfl := Option.some.inj h
      rfl
  | succ n ih =>
      unfold stepsAfter? at h
      split at h
      · obtain rfl := Option.some.inj h
        rfl
      · split at h
        case h_1 v hv =>
            refine (ih h).trans (settings_of_continue? (fun m w hw => ?_) hv)
            obtain ⟨x, hx, rfl⟩ := Option.map_eq_some_iff.mp hw
            rw [Turn.machine_heard]
            exact settings_of_step? hx
        case h_2 => cases h

theorem settings_of_frame? {keys : Keypad} {l : Bool} {t : Turn}
    (h : m.frame? keys l = some t) : t.machine.settings = m.settings := by
  obtain ⟨u, hu, ht⟩ := Option.bind_eq_some_iff.mp h
  refine (settings_of_continue? (fun m v hv => ?_) ht).trans (settings_of_stepsAfter? hu)
  obtain rfl := Option.some.inj hv
  rfl

end Machine

end ChipEight
