import ChipEight.Proofs.Machine.Frames
import ChipEight.Proofs.Machine.Moments
import ChipEight.Proofs.Machine.Reload

/-!
# What is never asked does not show

Four opcodes ask for something that is not in the machine's memory or registers: one
rolls the dice, three look at the keypad. As long as a step finds none of them, neither
the dice nor the keypad has a part in what the step comes to, and the settings have
none in any step. Frames and loads look at one setting each.

So two sessions whose machines are alike, and agree on these two settings, go on alike
whatever their keypads and dice are. The relation between the two is kept by each request
(`Alike.request`), and inside a frame by each step, so nothing is assumed of the machines:
they need not be reachable, and where one breaks down the other does.
-/

namespace ChipEight

/-- The opcodes that roll the dice or look at the keypad. -/
def Instr.Asks (op : UInt16) : Prop :=
  op.toNat / 4096 = 0xc ∨
  op.toNat / 4096 = 0xe ∧ (op.toNat % 256 = 0x9e ∨ op.toNat % 256 = 0xa1) ∨
  Instr.IsSpecial op 0x0a

/-- A machine is about to roll its dice or to look at the keypad. -/
def Machine.Asks (m : Machine) : Prop :=
  ∃ op, m.ram.word? m.pc = some op ∧ Instr.Asks op

/-- A moment that rolls the dice or looks at the keypad. -/
def Moment.Asks (x : Moment) : Prop :=
  x.request = .step ∧ x.session.machine.Asks

/-- Two requests are the same, or both have the keypad answer differently. -/
inductive Request.Alike : Request → Request → Prop
  | same (r : Request) : Alike r r
  | touches (keys keys' : Keypad) : Alike (.touch keys) (.touch keys')

/-- Machines alike, with the same setting for frames and the same for loads. -/
structure Session.Alike (a b : Session) : Prop where
  machine : a.machine.Alike b.machine
  cyclesPerTick : b.machine.settings.cyclesPerTick = a.machine.settings.cyclesPerTick
  resetOnLoad : b.machine.settings.resetOnLoad = a.machine.settings.resetOnLoad

/-- Two moments find machines alike, are asked alike, and come to turns alike whatever
the keypads answer just then, which in the middle of a frame need not be what they
answered at its start. -/
structure Moment.Alike (x y : Moment) : Prop where
  machine : x.session.machine.Alike y.session.machine
  request : x.request.Alike y.request
  turn : ∀ keys keys', Option.Rel Turn.Alike ({ x.session with keys := keys }.answer? x.request)
    ({ y.session with keys := keys' }.answer? y.request)

theorem rel_cases {α β : Type} {R : α → β → Prop} {o : Option α} {o' : Option β}
    (h : Option.Rel R o o') :
    o = none ∧ o' = none ∨ ∃ x y, o = some x ∧ o' = some y ∧ R x y := by
  cases h with
  | none => exact Or.inl ⟨rfl, rfl⟩
  | some hxy => exact Or.inr ⟨_, _, rfl, rfl, hxy⟩

theorem rel_bind {α β γ δ : Type} {R : α → β → Prop} {S : γ → δ → Prop} {o : Option α}
    {o' : Option β} {f : α → Option γ} {g : β → Option δ} (h : Option.Rel R o o')
    (hfg : ∀ x y, o = some x → R x y → Option.Rel S (f x) (g y)) :
    Option.Rel S (o.bind f) (o'.bind g) := by
  cases h with
  | none => exact .none
  | some hxy => exact hfg _ _ rfl hxy

namespace Turn

variable {t u : Turn}

theorem Alike.heard (h : t.Alike u) (l : Bool) : (t.heard l).Alike (u.heard l) := by
  cases l with
  | true => exact h
  | false => exact ⟨h.machine, h.fault, rfl, h.tones⟩

theorem Alike.followed {v w : Turn} (h : t.Alike u) (h' : v.Alike w) :
    (t.followed v).Alike (u.followed w) :=
  ⟨h'.machine, h'.fault, congrArg₂ (· ++ ·) h.notes h'.notes,
    congrArg₂ (· ++ ·) h.tones h'.tones⟩

end Turn

namespace Machine

variable {m m' : Machine}

/-! ## Steps -/

theorem execute?_keys (m : Machine) (keys keys' : Keypad) (pc : UInt16) {op : UInt16} {i : Instr}
    (hi : i.Codes op) (hop : ¬ Instr.Asks op) : m.execute? keys' pc i = m.execute? keys pc i := by
  cases i with
  | skipPressed x => exact absurd (Or.inr (Or.inl ⟨hi.1, Or.inl hi.2.1⟩)) hop
  | skipReleased x => exact absurd (Or.inr (Or.inl ⟨hi.1, Or.inr hi.2.1⟩)) hop
  | awaitKey x => exact absurd (Or.inr (Or.inr ⟨hi.1, hi.2.1⟩)) hop
  | _ => rfl

theorem step?_keys (h : ¬ m.Asks) (keys keys' : Keypad) : m.step? keys' = m.step? keys := by
  cases hop : m.ram.word? m.pc with
  | none =>
      have hpc := (word?_eq_none_iff m.ram m.pc).mp hop
      rw [step?_of_end keys hpc, step?_of_end keys' hpc]
  | some op =>
      cases hi : Instr.decode op with
      | none => rw [step?_of_undefined keys hop hi, step?_of_undefined keys' hop hi]
      | some i =>
          have hasks : ¬ Instr.Asks op := fun hasks => h ⟨op, hop, hasks⟩
          rw [step?_of_decode keys hop hi, step?_of_decode keys' hop hi,
            execute?_keys m.advanced keys keys' m.pc (Instr.codes_of_decode hi) hasks]

theorem Spins.not_asks (h : m.Spins) : ¬ m.Asks := by
  rintro ⟨op, hop, hasks⟩
  obtain ⟨op', hop', hjump, -⟩ := h
  obtain rfl := Option.some.inj (hop'.symm.trans hop)
  rcases hasks with hf | ⟨hf, -⟩ | ⟨hf, -⟩ <;>
    exact absurd (hjump.symm.trans hf) (by decide)

/-- A step that asks for nothing comes to the same in machines that are alike. -/
theorem Alike.step? (h : m.Alike m') (hasks : ¬ m.Asks) (keys keys' : Keypad) :
    Option.Rel Turn.Alike (m.step? keys) (m'.step? keys') := by
  have hroll : ¬ m.Rolls := fun ⟨op, hop, hroll⟩ => hasks ⟨op, hop, Or.inl hroll⟩
  rw [alike_iff.mp h, step?_refit _ _ hroll keys', step?_keys hasks keys keys']
  cases m.step? keys with
  | none => exact .none
  | some t => exact .some (t.alike_refit _ _)

/-! ## Ticks and loads -/

theorem Alike.tick (h : m.Alike m') : m.tick.Alike m'.tick := by
  rw [alike_iff.mp h]
  exact Turn.alike_refit m.tick m'.settings m'.dice

theorem Alike.restart (h : m.Alike m') : m.restart.Alike m'.restart := by
  rw [alike_iff.mp h]
  exact alike_iff.mpr rfl

theorem Alike.load (h : m.Alike m') (hreset : m'.settings.resetOnLoad = m.settings.resetOnLoad)
    (rom : Array UInt8) : (m.load rom).Alike (m'.load rom) := by
  have hbase : (if m.settings.resetOnLoad then m.restart else m).Alike
      (if m'.settings.resetOnLoad then m'.restart else m') := by
    rw [hreset]
    split
    · exact h.restart
    · exact h
  unfold Machine.load
  simp only [hbase.ram]
  split
  · exact ⟨{ hbase with ram := rfl, pc := rfl }, rfl, rfl, rfl⟩
  · exact ⟨h, rfl, rfl, rfl⟩

theorem Alike.loadFrom (h : m.Alike m')
    (hreset : m'.settings.resetOnLoad = m.settings.resetOnLoad) (source : Source) :
    (m.loadFrom source).Alike (m'.loadFrom source) := by
  unfold Machine.loadFrom
  split
  · exact h.load hreset _
  · exact ⟨h, rfl, rfl, rfl⟩

end Machine

namespace Session

variable {a b : Session} {r r' : Request} {t u : Turn}

theorem Alike.touched (h : a.Alike b) (keys keys' : Keypad) :
    { a with keys := keys }.Alike { b with keys := keys' } :=
  ⟨h.machine, h.cyclesPerTick, h.resetOnLoad⟩

/-! ## One moment -/

theorem settings_of_answer? (ht : a.answer? r = some t) :
    t.machine.settings = a.machine.settings := by
  cases r with
  | load | read =>
      rcases turn_of_load ht trivial with ⟨f, rfl⟩ | ⟨base, ram, size, hbase, rfl⟩
      · rfl
      · show base.settings = _
        rw [hbase]
        unfold Machine.restart
        split <;> rfl
  | step => exact Machine.settings_of_step? ht
  | frame => exact Machine.settings_of_frame? ht
  | tick | touch =>
      obtain rfl := Option.some.inj ht
      rfl

theorem Alike.after (h : a.Alike b) (ht : a.answer? r = some t) (hu : b.answer? r' = some u)
    (htu : t.Alike u) : (a.after r t).Alike (b.after r' u) := by
  have hsame := settings_of_answer? ht
  have hsame' := settings_of_answer? hu
  refine ⟨htu.machine, ?_, ?_⟩
  · show u.machine.settings.cyclesPerTick = t.machine.settings.cyclesPerTick
    rw [hsame, hsame', h.cyclesPerTick]
  · show u.machine.settings.resetOnLoad = t.machine.settings.resetOnLoad
    rw [hsame, hsame', h.resetOnLoad]

theorem Alike.answer? (h : a.Alike b) (hr : r.Alike r') (hne : r ≠ .frame)
    (hasks : ¬ Moment.Asks ⟨a, r⟩) : Option.Rel Turn.Alike (a.answer? r) (b.answer? r') := by
  cases hr with
  | touches keys keys' => exact .some ⟨h.machine, rfl, rfl, rfl⟩
  | same r =>
      cases r with
      | frame => exact absurd rfl hne
      | step => exact h.machine.step? (fun hstep => hasks ⟨rfl, hstep⟩) a.keys b.keys
      | load rom => exact .some (h.machine.load h.resetOnLoad rom)
      | read source => exact .some (h.machine.loadFrom h.resetOnLoad source)
      | tick => exact .some h.machine.tick
      | touch keys => exact .some ⟨h.machine, rfl, rfl, rfl⟩

theorem Alike.moment (h : a.Alike b) (hr : r.Alike r') (hne : r ≠ .frame)
    (hasks : ¬ Moment.Asks ⟨a, r⟩) : Moment.Alike ⟨a, r⟩ ⟨b, r'⟩ :=
  ⟨h.machine, hr, fun keys keys' => (h.touched keys keys').answer? hr hne hasks⟩

/-! ## Frames -/

theorem Alike.stepsAfter? {keys : Keypad} (keys' : Keypad) (l : Bool) : ∀ (n : Nat) (a : Session)
    (t u : Turn), a.machine = t.machine → a.keys = keys → t.Alike u →
    (t.fault = none → ∀ x ∈ frameMoments n a, ¬ x.Asks) →
      Option.Rel Turn.Alike (Machine.stepsAfter? keys l n t) (Machine.stepsAfter? keys' l n u)
  | 0, _, _, _, _, _, htu, _ => .some htu
  | n + 1, a, t, u, ha, hkeys, htu, hasks => by
      cases hf : t.fault with
      | some f =>
          rw [Machine.stepsAfter?_failed keys l (n + 1) hf,
            Machine.stepsAfter?_failed keys' l (n + 1) (htu.fault.trans hf)]
          exact .some htu
      | none =>
          have hfirst : ¬ t.machine.Asks := fun hstep =>
            hasks hf ⟨a, .step⟩ List.mem_cons_self ⟨rfl, ha ▸ hstep⟩
          rw [Machine.stepsAfter?_of_well keys l n hf,
            Machine.stepsAfter?_of_well keys' l n (htu.fault.trans hf)]
          refine rel_bind (htu.machine.step? hfirst keys keys') fun v w hv hvw => ?_
          have hstep : a.answer? .step = some v := by
            rw [← hv, ← ha, ← hkeys]
            rfl
          -- what is left of the frame is what happens in the session after the step
          refine Alike.stepsAfter? keys' l n (a.after .step v) (t.followed (v.heard l))
            (u.followed (w.heard l)) (Turn.machine_heard l v).symm hkeys
            (htu.followed (hvw.heard l)) fun hwell x hx => hasks hf x ?_
          have hwell : v.fault = none := (Turn.fault_heard l v).symm.trans hwell
          rw [frameMoments_of_well hstep hwell]
          exact List.mem_cons_of_mem _ hx

theorem Alike.frame? (h : a.Alike b) (hasks : ∀ x ∈ a.momentsOf .frame, ¬ x.Asks)
    (keys : Keypad) (l : Bool) :
    Option.Rel Turn.Alike (a.machine.frame? a.keys l) (b.machine.frame? keys l) := by
  have hsteps := Alike.stepsAfter? keys l a.machine.settings.cyclesPerTick a
    (.done a.machine) (.done b.machine) rfl rfl ⟨h.machine, rfl, rfl, rfl⟩ fun _ => hasks
  unfold Machine.frame? Machine.steps?
  rw [h.cyclesPerTick]
  refine rel_bind hsteps fun t u _ htu => ?_
  cases hf : t.fault with
  | some f =>
      rw [Turn.continue?_of_fault hf, Turn.continue?_of_fault (htu.fault.trans hf)]
      exact .some htu
  | none =>
      rw [Turn.continue?_of_well hf, Turn.continue?_of_well (htu.fault.trans hf)]
      exact .some (htu.followed htu.machine.tick)

theorem Alike.frameMoments : ∀ (n : Nat) (a b : Session), a.Alike b →
    (∀ x ∈ frameMoments n a, ¬ x.Asks) →
      List.Forall₂ Moment.Alike (frameMoments n a) (frameMoments n b)
  | 0, a, b, h, hasks =>
      .cons (h.moment (.same .tick) Request.noConfusion (hasks _ List.mem_cons_self)) .nil
  | n + 1, a, b, h, hasks => by
      have hfirst := hasks _ List.mem_cons_self
      refine .cons (h.moment (.same .step) Request.noConfusion hfirst) ?_
      rcases rel_cases (h.answer? (.same .step) Request.noConfusion hfirst) with
        ⟨hnone, hnone'⟩ | ⟨t, u, ht, hu, htu⟩
      · rw [hnone, hnone']
        exact .nil
      · rw [ht, hu]
        cases hf : t.fault with
        | some f =>
            simp only [hf, htu.fault, Option.isSome_some, if_true]
            exact .nil
        | none =>
            simp only [hf, htu.fault, Option.isSome_none, Bool.false_eq_true, if_false]
            refine Alike.frameMoments n _ _ (h.after ht hu htu) fun x hx => hasks x ?_
            rw [frameMoments_of_well ht hf]
            exact List.mem_cons_of_mem _ hx

/-! ## Whole runs -/

/-- Whatever is asked and asks for nothing in turn comes to turns alike. -/
theorem Alike.request (h : a.Alike b) (hr : r.Alike r')
    (hasks : ∀ x ∈ a.momentsOf r, ¬ x.Asks) :
    Option.Rel Turn.Alike (a.answer? r) (b.answer? r') ∧
      List.Forall₂ Moment.Alike (a.momentsOf r) (b.momentsOf r') := by
  by_cases hne : r = .frame
  · subst hne
    cases hr
    refine ⟨h.frame? hasks b.keys true, ?_⟩
    show List.Forall₂ _ _ (Session.frameMoments b.machine.settings.cyclesPerTick b)
    rw [h.cyclesPerTick]
    exact Alike.frameMoments _ a b h hasks
  · have hne' : r' ≠ .frame := by
      cases hr with
      | same => exact hne
      | touches => exact Request.noConfusion
    rw [momentsOf_of_ne hne] at hasks ⊢
    rw [momentsOf_of_ne hne']
    have hfirst := hasks _ List.mem_cons_self
    exact ⟨h.answer? hr hne hfirst, .cons (h.moment hr hne hfirst) .nil⟩

/-- Two sessions whose machines agree in everything but settings and dice, and whose
settings agree on the steps of a frame and on what a load does, are asked the same,
except that the keypad of each may answer anything at any time. As long as the first
finds no opcode that rolls the dice or looks at the keypad, both go through the same
states, one thing after the other, with the same faults, notes and calls for the tone;
and where one breaks down, so does the other. -/
theorem Alike.unasked (h : a.Alike b) {requests requests' : List Request}
    (hrequests : List.Forall₂ Request.Alike requests requests')
    (hasks : ∀ x ∈ a.moments requests, ¬ x.Asks) :
    Option.Rel (List.Forall₂ Turn.Alike) (a.turns? requests) (b.turns? requests') ∧
      List.Forall₂ Moment.Alike (a.moments requests) (b.moments requests') := by
  induction hrequests generalizing a b with
  | nil => exact ⟨.some .nil, .nil⟩
  | @cons r r' rest rest' hr _ ih =>
      have hone := h.request hr fun x hx => hasks x (List.mem_append_left _ hx)
      rw [turns?, turns?, moments, moments]
      rcases rel_cases hone.1 with ⟨hnone, hnone'⟩ | ⟨t, u, ht, hu, htu⟩
      · rw [hnone, hnone']
        refine ⟨.none, ?_⟩
        simpa only [List.append_nil] using hone.2
      · have hlater : ∀ x ∈ (a.after r t).moments rest, ¬ x.Asks := by
          intro x hx
          refine hasks x ?_
          rw [moments_cons ht]
          exact List.mem_append_right _ hx
        obtain ⟨hturns, hmoments⟩ := ih (h.after ht hu htu) hlater
        rw [ht, hu]
        refine ⟨?_, List.rel_append hone.2 hmoments⟩
        rcases rel_cases hturns with ⟨hnone, hnone'⟩ | ⟨ts, us, hts, hus, hall⟩
        · rw [Option.bind_some, Option.bind_some, hnone, hnone']
          exact .none
        · rw [Option.bind_some, Option.bind_some, hts, hus]
          exact .some (.cons htu hall)

theorem frameMoments_of_spins : ∀ (n : Nat) (a : Session), a.machine.Spins →
    ∀ x ∈ frameMoments n a, ¬ x.Asks
  | 0, a, _, x, hx => by
      obtain rfl := List.mem_singleton.mp hx
      rintro ⟨htick, -⟩
      cases htick
  | n + 1, a, ha, x, hx => by
      obtain ⟨t, ht, hwell, hsame⟩ := ha.step? a.keys
      rw [frameMoments_of_well ht hwell] at hx
      rcases List.mem_cons.mp hx with rfl | hx
      · exact fun hasks => ha.not_asks hasks.2
      · have hspins : (a.after .step t).machine.Spins := by
          show t.machine.Spins
          rw [hsame]
          exact ha
        exact frameMoments_of_spins n (a.after .step t) hspins x hx

/-- Two machines with different seeds, keypads of different sizes and a key held on one
of them only, which then swap their keypads, at a program that jumps on the spot. -/
theorem unasked_spinning : ∃ (a b : Session) (rom : Array UInt8),
    rom = #[0x12, 0x00] ∧ a.machine.dice = Dice.ofSeed 1 ∧ b.machine.dice = Dice.ofSeed 7 ∧
    b.machine.settings ≠ a.machine.settings ∧ a.keys.held 3 = false ∧ b.keys.held 3 = true ∧
    a.Alike b ∧
    Option.Rel (List.Forall₂ Turn.Alike) (a.turns? [.load rom, .touch b.keys, .tick, .frame])
      (b.turns? [.load rom, .touch a.keys, .tick, .frame]) := by
  obtain ⟨c, -, -⟩ := exists_begins (s := {}) rfl (by decide) .untouched
  obtain ⟨d, hd⟩ : ∃ d, d = Dice.ofSeed 1 := ⟨_, rfl⟩
  obtain ⟨d', hd'⟩ : ∃ d', d' = Dice.ofSeed 7 := ⟨_, rfl⟩
  obtain ⟨a, ha⟩ : ∃ a : Session, a =
    { machine := c.machine.refit {} d, keys := .untouched } := ⟨_, rfl⟩
  obtain ⟨b, hb⟩ : ∃ b : Session, b =
    { machine := c.machine.refit { keys := 4, seed := some 7 } d'
      keys := { held := fun key => key == 3, lowest := some 3 } } := ⟨_, rfl⟩
  obtain ⟨rom, hrom⟩ : ∃ rom : Array UInt8, rom = #[0x12, 0x00] := ⟨_, rfl⟩
  have halike : a.Alike b := by
    rw [ha, hb]
    exact ⟨⟨rfl, rfl, rfl, rfl, rfl, rfl, rfl, rfl, rfl⟩, rfl, rfl⟩
  obtain ⟨a₁, hload, hspins⟩ : ∃ a₁, a₁ = a.after (.load rom) (a.machine.load rom) ∧
      a₁.machine.Spins := by
    refine ⟨_, rfl, ?_⟩
    show (a.machine.load rom).machine.Spins
    subst hrom
    have hfits : (#[0x12, 0x00] : Array UInt8).size ≤ Ram.programRoom := by decide
    have hword := a.machine.first_word_of_load hfits rfl rfl
    obtain ⟨base, ram, -, -, hload⟩ := a.machine.load_of_fits hfits
    rw [hload] at hword ⊢
    exact ⟨_, hword, rfl, rfl⟩
  have hsettings : b.machine.settings ≠ a.machine.settings := by
    rw [ha, hb]
    show ({ keys := 4, seed := some 7 } : Settings) ≠ {}
    decide
  refine ⟨a, b, rom, hrom, by rw [ha, ← hd]; rfl, by rw [hb, ← hd']; rfl, hsettings,
    by rw [ha]; rfl, by rw [hb]; rfl, halike, ?_⟩
  refine (halike.unasked (.cons (.same _) (.cons (.touches _ _) (.cons (.same _)
    (.cons (.same _) .nil)))) fun x hx => ?_).1
  rw [moments_cons rfl, ← hload, moments_cons rfl, moments_cons rfl, moments_single] at hx
  rcases hx with _ | ⟨_, _ | ⟨_, _ | ⟨_, hx⟩⟩⟩
  · exact fun hasks => Request.noConfusion hasks.1
  · exact fun hasks => Request.noConfusion hasks.1
  · exact fun hasks => Request.noConfusion hasks.1
  · refine frameMoments_of_spins _ (.after (a₁.after _ _) .tick _) ?_ x hx
    exact hspins

end Session

end ChipEight
