import ChipEight.Machine.Frame
import ChipEight.Proofs.Machine.Safety

/-!
# Frames as walks

A frame makes its steps one after the other and stops at the first that fails.
The function does it with turns that gather notes and tones; what happens to the
machine is a walk, the relation `Walk keys n m m'` of `n` steps that all went
well. `Framed` says what a frame comes to in these terms: a walk of full length
and a tick, or a shorter walk and a step that fails. It does not mention how the
steps are gathered; that frames of safe machines are so is `frame?_framed`.

A jump to its own address changes nothing at all, so a frame of such jumps is a
tick of the timers, and the next frame is one again. Programs end in this way,
and it makes runs of any length.
-/

namespace ChipEight

@[simp] theorem Turn.machine_heard (l : Bool) (t : Turn) : (t.heard l).machine = t.machine := by
  cases l <;> rfl

@[simp] theorem Turn.fault_heard (l : Bool) (t : Turn) : (t.heard l).fault = t.fault := by
  cases l <;> rfl

@[simp] theorem Turn.tones_heard (l : Bool) (t : Turn) : (t.heard l).tones = t.tones := by
  cases l <;> rfl

namespace Turn

/-- One turn after another, told as one. -/
def followed (t u : Turn) : Turn :=
  { u with notes := t.notes ++ u.notes, tones := t.tones ++ u.tones }

theorem continue?_of_well {t : Turn} (h : t.fault = none) (f : Machine → Option Turn) :
    t.continue? f = (f t.machine).map t.followed := by
  obtain ⟨m, fault, notes, tones⟩ := t
  obtain rfl : fault = none := h
  rfl

theorem continue?_of_fault {t : Turn} {e : Fault} (h : t.fault = some e)
    (f : Machine → Option Turn) : t.continue? f = some t := by
  obtain ⟨m, fault, notes, tones⟩ := t
  obtain rfl : fault = some e := h
  rfl

end Turn

namespace Machine

/-- `n` steps that all go well lead from one machine to another. -/
inductive Walk (keys : Keypad) : Nat → Machine → Machine → Prop
  | zero (m : Machine) : Walk keys 0 m m
  | succ {n : Nat} {m m' : Machine} {t : Turn} (ht : m.step? keys = some t)
      (hfault : t.fault = none) (h : Walk keys n t.machine m') : Walk keys (n + 1) m m'

theorem Walk.safe {s : Settings} (hs : s.check = none) {keys : Keypad} {n : Nat} {m m' : Machine}
    (h : Walk keys n m m') : Safe s m → Safe s m' := by
  induction h with
  | zero => exact id
  | succ ht _ _ ih =>
      intro hm
      obtain ⟨u, hu, -, hsafe⟩ := hm.step hs keys
      obtain rfl := Option.some.inj (hu.symm.trans ht)
      exact ih hsafe

/-- What `n` steps come to that stop at the first failure. -/
inductive Walked (keys : Keypad) (n : Nat) (m : Machine) (t : Turn) : Prop
  | through {m' : Machine} (h : Walk keys n m m') (ht : t.Leaves m' none)
  | broken {k : Nat} {m' : Machine} {u : Turn} {f : Fault} (hk : k < n) (h : Walk keys k m m')
      (hu : m'.step? keys = some u) (hfault : u.fault = some f)
      (ht : t.Leaves u.machine (some f))

/-- What a frame comes to. -/
structure Framed (keys : Keypad) (m : Machine) (t : Turn) : Prop where
  /-- One that goes well is all its steps and a tick. -/
  whole : t.fault = none → ∃ m', Walk keys m.settings.cyclesPerTick m m' ∧
    t.machine = m'.tick.machine ∧ t.tones = m'.tick.tones
  /-- One that fails is the steps before the first that fails, and that one. The
  timers are as the steps before left them, and nothing is said to the tone. -/
  broken : ∀ f, t.fault = some f → ∃ k m' u, k < m.settings.cyclesPerTick ∧ Walk keys k m m' ∧
    m'.step? keys = some u ∧ u.fault = some f ∧ t.machine = u.machine ∧
    t.machine.delay = m'.delay ∧ t.machine.sound = m'.sound ∧ t.tones = #[]

theorem Outcome.tones {m : Machine} {keys : Keypad} {t : Turn} (h : m.Outcome keys t) :
    t.tones = #[] := by
  cases h with
  | ended hpc ht => rw [ht]; rfl
  | full _ _ _ ht | called _ _ _ ht | returned _ _ _ ht | plain _ _ _ ht => exact ht.tones
  | empty _ _ ht => exact ht.tones

theorem stepsAfter?_failed (keys : Keypad) (l : Bool) (n : Nat) {t : Turn} {f : Fault}
    (h : t.fault = some f) : stepsAfter? keys l n t = some t := by
  cases n with
  | zero => rfl
  | succ n => simp [stepsAfter?, h]

theorem stepsAfter?_of_well (keys : Keypad) (l : Bool) (n : Nat) {t : Turn}
    (h : t.fault = none) : stepsAfter? keys l (n + 1) t = (t.machine.step? keys).bind fun u =>
      stepsAfter? keys l n (t.followed (u.heard l)) := by
  rw [stepsAfter?, Turn.continue?_of_well h, h]
  cases t.machine.step? keys <;> rfl

theorem continue?_step {keys : Keypad} {t u : Turn} (l : Bool) (hfault : t.fault = none)
    (htones : t.tones = #[]) (hu : t.machine.step? keys = some u) :
    ∃ v, (t.continue? fun m => (m.step? keys).map (Turn.heard l)) = some v ∧
      v.machine = u.machine ∧ v.fault = u.fault ∧ v.tones = u.tones := by
  obtain ⟨m, fault, notes, tones⟩ := t
  obtain rfl : fault = none := hfault
  obtain rfl : tones = #[] := htones
  have hu : m.step? keys = some u := hu
  simp [Turn.continue?, hu]

theorem stepsAfter?_walked {s : Settings} (hs : s.check = none) (keys : Keypad) (l : Bool) :
    ∀ (n : Nat) (t : Turn), t.fault = none → t.tones = #[] → Safe s t.machine →
      ∃ v, stepsAfter? keys l n t = some v ∧ Walked keys n t.machine v ∧ Safe s v.machine
  | 0, t, hfault, htones, hm =>
      ⟨t, rfl, .through (.zero _) ⟨rfl, hfault, htones⟩, hm⟩
  | n + 1, t, hfault, htones, hm => by
      -- the first step is split off, and what is left starts from its turn
      obtain ⟨u, hu, hout, hsafe⟩ := hm.step hs keys
      obtain ⟨v, hv, hmachine, hvfault, hvtones⟩ := continue?_step l hfault htones hu
      have hunfold : stepsAfter? keys l (n + 1) t = stepsAfter? keys l n v := by
        simp [stepsAfter?, hfault, hv]
      rw [hunfold]
      cases hf : u.fault with
      | some f =>
          have hvf := hvfault.trans hf
          refine ⟨v, stepsAfter?_failed keys l n hvf, ?_, hmachine ▸ hsafe⟩
          exact .broken (Nat.succ_pos n) (.zero _) hu hf ⟨hmachine, hvf, hvtones.trans hout.tones⟩
      | none =>
          obtain ⟨w, hw, hwalk, hsafe'⟩ := stepsAfter?_walked hs keys l n v (hvfault.trans hf)
            (hvtones.trans hout.tones) (hmachine ▸ hsafe)
          refine ⟨w, hw, ?_, hsafe'⟩
          rw [hmachine] at hwalk
          cases hwalk with
          | through h ht => exact .through (.succ hu hf h) ht
          | broken hk h hu' hf' ht => exact .broken (by omega) (.succ hu hf h) hu' hf' ht

/-- Frames of safe machines have answers, and what they come to is told by
walks. -/
theorem frame?_framed {s : Settings} (hs : s.check = none) {m : Machine} (hm : Safe s m)
    (keys : Keypad) (l : Bool) :
    ∃ t, m.frame? keys l = some t ∧ Framed keys m t ∧ Safe s t.machine := by
  obtain ⟨t, ht, hwalk, hsafe⟩ :=
    stepsAfter?_walked hs keys l m.settings.cyclesPerTick (.done m) rfl rfl hm
  have hunfold : m.frame? keys l = t.continue? fun m => some m.tick := by
    simp [frame?, steps?, ht]
  rw [hunfold]
  cases hwalk with
  | @through m' h ht =>
      obtain ⟨m'', fault, notes, tones⟩ := t
      obtain ⟨rfl, rfl, rfl⟩ := ht
      refine ⟨_, rfl, ⟨fun _ => ⟨m'', h, rfl, ?_⟩, fun _ hf => ?_⟩, hsafe.tick⟩
      · simp
      · cases hf
  | @broken k m' u f hk h hu hf ht =>
      -- the step that fails is made from a safe machine, so its failure is a listed one
      obtain ⟨v, hv, hout, -⟩ := (h.safe hs hm).step hs keys
      obtain rfl : v = u := Option.some.inj (hv.symm.trans hu)
      obtain ⟨hdelay, hsound⟩ := (hout.failing hf).timers
      obtain ⟨m'', fault, notes, tones⟩ := t
      obtain ⟨rfl, rfl, rfl⟩ := ht
      refine ⟨_, rfl, ⟨fun hnone => ?_, fun g hg => ?_⟩, hsafe⟩
      · cases hnone
      · cases hg
        exact ⟨k, m', v, hk, h, hu, hf, rfl, hdelay, hsound, rfl⟩

theorem stepsAfter?_of_walk {keys : Keypad} (l : Bool) {n : Nat} {m m' : Machine}
    (h : Walk keys n m m') : ∀ {t : Turn}, t.machine = m → t.fault = none →
      ∃ u, stepsAfter? keys l n t = some u ∧ u.machine = m' ∧ u.fault = none := by
  induction h with
  | zero m => exact fun {t} hm hfault => ⟨t, rfl, hm, hfault⟩
  | @succ n m m' v hv hvfault _ ih =>
      intro t hm hfault
      have hmachine : (t.followed (v.heard l)).machine = v.machine := v.machine_heard l
      have hwell : (t.followed (v.heard l)).fault = none := (v.fault_heard l).trans hvfault
      obtain ⟨u, hu, hlast, hufault⟩ := ih hmachine hwell
      refine ⟨u, ?_, hlast, hufault⟩
      rw [stepsAfter?_of_well keys l n hfault, hm, hv]
      exact hu

/-- As many steps as a frame has, if all go well, make a frame that goes well. -/
theorem frame?_of_walk {keys : Keypad} (l : Bool) {m m' : Machine}
    (h : Walk keys m.settings.cyclesPerTick m m') :
    ∃ t, m.frame? keys l = some t ∧ t.fault = none ∧ t.machine = m'.tick.machine := by
  obtain ⟨u, hu, rfl, hfault⟩ := stepsAfter?_of_walk l (t := .done m) h rfl rfl
  have hframe : m.frame? keys l = u.continue? fun m => some m.tick := by
    rw [frame?, steps?, hu]
    rfl
  rw [hframe, Turn.continue?_of_well hfault]
  exact ⟨_, rfl, rfl, rfl⟩

theorem frame?_of_end {m : Machine} (keys : Keypad) (l : Bool) (h : 4096 ≤ m.pc.toNat + 1)
    (hcycles : 0 < m.settings.cyclesPerTick) :
    m.frame? keys l = some (.failed (.pcOutOfBounds m.pc) m) := by
  obtain ⟨n, hn⟩ := Nat.exists_eq_add_one_of_ne_zero hcycles.ne'
  have hstep := step?_of_end keys h
  have hsteps : m.steps? keys m.settings.cyclesPerTick l =
      some (.failed (.pcOutOfBounds m.pc) m) := by
    have hfirst : ((Turn.done m).continue? fun m => (m.step? keys).map (Turn.heard l)) =
        some (.failed (.pcOutOfBounds m.pc) m) := by
      cases l <;> simp [Turn.continue?, Turn.done, Turn.failed, Turn.heard, hstep]
    rw [hn, steps?, stepsAfter?]
    simp only [hfirst]
    exact stepsAfter?_failed keys l n rfl
  simp [frame?, hsteps, Turn.failed, Turn.continue?]

end Machine

/-! ## Jumping on the spot -/

namespace Machine

variable {m : Machine}

/-- A machine at a jump to its own address. -/
def Spins (m : Machine) : Prop :=
  ∃ op, m.ram.word? m.pc = some op ∧ op.toNat / 4096 = 1 ∧ Instr.fieldAddr op = m.pc

theorem Spins.step? (h : m.Spins) (keys : Keypad) :
    ∃ t, m.step? keys = some t ∧ t.fault = none ∧ t.machine = m := by
  obtain ⟨op, hop, hjump, haddr⟩ := h
  have hdecode : Instr.decode op = some (.jump (Instr.fieldAddr op)) :=
    Instr.decode_of_codes ⟨hjump, rfl⟩
  rw [step?_of_decode keys hop hdecode]
  refine ⟨_, rfl, rfl, ?_⟩
  show { m.advanced with pc := Instr.fieldAddr op } = m
  rw [haddr]
  rfl

theorem Spins.walk (h : m.Spins) (keys : Keypad) (n : Nat) : Walk keys n m m := by
  induction n with
  | zero => exact .zero m
  | succ n ih =>
      obtain ⟨t, ht, hfault, hsame⟩ := h.step? keys
      exact .succ ht hfault (hsame.symm ▸ ih)

theorem Spins.frame? (h : m.Spins) (keys : Keypad) (l : Bool) :
    ∃ t, m.frame? keys l = some t ∧ t.fault = none ∧ t.machine = m.tick.machine :=
  frame?_of_walk l (h.walk keys _)

end Machine

end ChipEight
