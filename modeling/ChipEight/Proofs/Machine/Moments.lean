import ChipEight.Proofs.Machine.Runs

/-!
# What happens in a session

A frame is one request, but it is many steps and a tick, and what is said of every
step or every tick of a run is said of those in frames too. So a session is told
once more, one thing at a time: `moments` lists the loads, steps, ticks and keys in
their order, each with the session it finds, and has no frames among them.

That this is what happens is `leads_moments`. The relation `Leads a ms b` says that
the first moment finds the session `a`, each other one the session that the one
before it left, and that the last leaves `b`; the moments of some requests lead to
where the requests lead. A fact about whole runs is from here on a fact about one
moment and an induction over `Leads`.
-/

namespace ChipEight

/-- Something that is about to happen in a session: any request but a frame. -/
structure Moment where
  session : Session
  request : Request

namespace Moment

/-- What the moment comes to. -/
def turn? (x : Moment) : Option Turn :=
  x.session.answer? x.request

/-- The opcode that a step finds. -/
def opcode? (x : Moment) : Option UInt16 :=
  match x.request with
  | .step => x.session.machine.ram.word? x.session.machine.pc
  | _ => none

theorem opcode?_eq_some_iff {x : Moment} {op : UInt16} : x.opcode? = some op ↔
    x.request = .step ∧ x.session.machine.ram.word? x.session.machine.pc = some op := by
  obtain ⟨a, r⟩ := x
  cases r with
  | step => simp [opcode?]
  | load | read | frame | tick | touch => simp [opcode?]

end Moment

namespace Session

open Machine (Safe Walk)

/-! ## One thing at a time -/

/-- What happens in a frame with `n` steps to go: steps until one fails, and a tick
if none did. -/
def frameMoments : Nat → Session → List Moment
  | 0, a => [⟨a, .tick⟩]
  | n + 1, a => ⟨a, .step⟩ :: match a.answer? .step with
    | some t => if t.fault.isSome then [] else frameMoments n (a.after .step t)
    | none => []

/-- What happens when something is asked. -/
def momentsOf (a : Session) : Request → List Moment
  | .frame => frameMoments a.machine.settings.cyclesPerTick a
  | r => [⟨a, r⟩]

/-- What happens in a session with some requests. -/
def moments : Session → List Request → List Moment
  | _, [] => []
  | a, r :: rest => a.momentsOf r ++ match a.answer? r with
    | some t => moments (a.after r t) rest
    | none => []

/-- The moments lead from one session to another, each in the session that the one
before it left. -/
inductive Leads : Session → List Moment → Session → Prop
  | nil (a : Session) : Leads a [] a
  | cons {a b : Session} {r : Request} {t : Turn} {ms : List Moment} (hr : r ≠ .frame)
      (ht : a.answer? r = some t) (h : Leads (a.after r t) ms b) : Leads a (⟨a, r⟩ :: ms) b

variable {s : Settings} {a b c : Session} {t : Turn} {ms ms' : List Moment}

theorem Leads.append (h : Leads a ms b) (h' : Leads b ms' c) : Leads a (ms ++ ms') c := by
  induction h with
  | nil => exact h'
  | cons hr ht _ ih => exact .cons hr ht (ih h')

theorem run?_cons {r : Request} {rest : List Request} (ht : a.answer? r = some t) :
    a.run? (r :: rest) = (a.after r t).run? rest := by
  rw [run?, ht]
  rfl

theorem moments_cons {r : Request} {rest : List Request} (ht : a.answer? r = some t) :
    a.moments (r :: rest) = a.momentsOf r ++ (a.after r t).moments rest := by
  rw [moments, ht]

theorem moments_single (a : Session) (r : Request) : a.moments [r] = a.momentsOf r := by
  rw [moments]
  cases a.answer? r <;> exact List.append_nil _

theorem momentsOf_of_ne {r : Request} (hr : r ≠ .frame) : a.momentsOf r = [⟨a, r⟩] := by
  cases r with
  | frame => exact absurd rfl hr
  | load | read | step | tick | touch => rfl

/-! ## What a safe machine comes to -/

theorem safe_of_answer? (hs : s.check = none) (ha : Safe s a.machine) {r : Request}
    (ht : a.answer? r = some t) : Safe s t.machine := by
  obtain ⟨u, hu, hsafe⟩ := answer?_safe hs a ha r
  obtain rfl := Option.some.inj (hu.symm.trans ht)
  exact hsafe

theorem outcome_of_answer? (hs : s.check = none) (ha : Safe s a.machine)
    (ht : a.answer? .step = some t) : a.machine.Outcome a.keys t := by
  obtain ⟨u, hu, hout, -⟩ := ha.step hs a.keys
  obtain rfl := Option.some.inj (hu.symm.trans ht)
  exact hout

theorem framed_of_answer? (hs : s.check = none) (ha : Safe s a.machine)
    (ht : a.answer? .frame = some t) : Machine.Framed a.keys a.machine t := by
  obtain ⟨u, hu, hframed, -⟩ := Machine.frame?_framed hs ha a.keys true
  obtain rfl : u = t := Option.some.inj (hu.symm.trans ht)
  exact hframed

/-! ## Moments that lead on -/

theorem leads_single {r : Request} (hr : r ≠ .frame) (ht : a.answer? r = some t) :
    Leads a [⟨a, r⟩] (a.after r t) :=
  .cons hr ht (.nil _)

/-- What leads somewhere finds safe machines on the way if the first was safe, and
leaves one. -/
theorem Leads.safe (h : Leads a ms b) (hs : s.check = none) :
    Safe s a.machine → (∀ x ∈ ms, Safe s x.session.machine) ∧ Safe s b.machine := by
  induction h with
  | nil => exact fun ha => ⟨fun x hx => absurd hx List.not_mem_nil, ha⟩
  | @cons a b r t ms _ ht _ ih =>
      intro ha
      have hsafe := safe_of_answer? hs ha ht
      obtain ⟨hall, hb⟩ := ih hsafe
      refine ⟨fun x hx => ?_, hb⟩
      rcases List.mem_cons.mp hx with rfl | hx
      · exact ha
      · exact hall x hx

/-! ## Loads -/

theorem turn_of_load {r : Request} (ht : a.answer? r = some t) (hr : r.IsLoad) :
    (∃ f, t = .failed f a.machine) ∨
      ∃ base ram size,
        base = (if a.machine.settings.resetOnLoad then a.machine.restart else a.machine) ∧
        t = { machine := { base with ram := ram, pc := Ram.programStart }
              notes := #[.loaded size] } := by
  have hload : ∀ rom, (∃ f, a.machine.load rom = .failed f a.machine) ∨ ∃ base ram size,
      base = (if a.machine.settings.resetOnLoad then a.machine.restart else a.machine) ∧
      a.machine.load rom = { machine := { base with ram := ram, pc := Ram.programStart }
                             notes := #[.loaded size] } := by
    intro rom
    by_cases hrom : rom.size ≤ Ram.programRoom
    · obtain ⟨base, ram, hbase, -, hloaded⟩ := a.machine.load_of_fits hrom
      exact Or.inr ⟨base, ram, _, hbase, hloaded⟩
    · exact Or.inl ⟨_, a.machine.load_of_large hrom⟩
  cases r with
  | load rom =>
      obtain rfl := Option.some.inj ht
      exact hload rom
  | read source =>
      obtain rfl := Option.some.inj ht
      rcases a.machine.loadFrom_eq source with hfailed | ⟨rom, hread⟩
      · exact Or.inl hfailed
      · rw [hread]
        exact hload rom
  | step | frame | tick | touch => exact hr.elim

/-! ## Frames -/

theorem frameMoments_of_well {n : Nat} (ht : a.answer? .step = some t) (hfault : t.fault = none) :
    frameMoments (n + 1) a = ⟨a, .step⟩ :: frameMoments n (a.after .step t) := by
  simp [frameMoments, ht, hfault]

theorem frameMoments_of_fault {n : Nat} {f : Fault} (ht : a.answer? .step = some t)
    (hfault : t.fault = some f) : frameMoments (n + 1) a = [⟨a, .step⟩] := by
  simp [frameMoments, ht, hfault]

theorem after_of_quiet {r : Request} (h : t.tones = #[]) :
    a.after r t = { a with machine := t.machine, keys := a.keysAfter r } := by
  simp [after, h, Meter.hearAll]

theorem after_step (hs : s.check = none) (ha : Safe s a.machine)
    (ht : a.answer? .step = some t) :
    a.after .step t = { a with machine := t.machine } ∧ Safe s t.machine :=
  ⟨after_of_quiet (outcome_of_answer? hs ha ht).tones, safe_of_answer? hs ha ht⟩

theorem leads_of_walk (hs : s.check = none) {keys : Keypad} {n : Nat} {m m' : Machine}
    (h : Walk keys n m m') : ∀ a : Session, a.machine = m → a.keys = keys → Safe s m →
      Leads a (frameMoments n a) ({ a with machine := m' }.after .tick m'.tick) := by
  induction h with
  | zero m =>
      rintro ⟨_, keys, meter⟩ rfl rfl _
      exact leads_single Request.noConfusion rfl
  | @succ n m m' t ht hfault _ ih =>
      rintro a rfl rfl ha
      have ht : a.answer? .step = some t := ht
      obtain ⟨hafter, hsafe⟩ := after_step hs ha ht
      rw [frameMoments_of_well ht hfault]
      refine .cons Request.noConfusion ht ?_
      rw [hafter]
      exact ih { a with machine := t.machine } rfl rfl hsafe

theorem leads_of_walk_fault (hs : s.check = none) {keys : Keypad} {k : Nat} {m m' : Machine}
    {u : Turn} {f : Fault} (h : Walk keys k m m') (hu : m'.step? keys = some u)
    (hfault : u.fault = some f) : ∀ (n : Nat) (a : Session), k < n → a.machine = m →
      a.keys = keys → Safe s m → Leads a (frameMoments n a) { a with machine := u.machine } := by
  induction h with
  | zero m =>
      rintro (_ | n) a hk rfl rfl ha
      · exact absurd hk (Nat.not_lt_zero 0)
      · have hu : a.answer? .step = some u := hu
        rw [frameMoments_of_fault hu hfault, ← (after_step hs ha hu).1]
        exact leads_single Request.noConfusion hu
  | @succ k m m' t ht hwell _ ih =>
      rintro (_ | n) a hk rfl rfl ha
      · exact absurd hk (Nat.not_lt_zero _)
      · have ht : a.answer? .step = some t := ht
        obtain ⟨hafter, hsafe⟩ := after_step hs ha ht
        rw [frameMoments_of_well ht hwell]
        refine .cons Request.noConfusion ht ?_
        rw [hafter]
        exact ih hu n { a with machine := t.machine } (Nat.lt_of_succ_lt_succ hk) rfl rfl hsafe

/-- A frame comes to what its steps and its tick come to. -/
theorem leads_frame (hs : s.check = none) (ha : Safe s a.machine)
    (ht : a.answer? .frame = some t) : Leads a (a.momentsOf .frame) (a.after .frame t) := by
  have hframed := framed_of_answer? hs ha ht
  cases hfault : t.fault with
  | none =>
      obtain ⟨m', hwalk, hmachine, htones⟩ := hframed.whole hfault
      have hafter : a.after .frame t = { a with machine := m' }.after .tick m'.tick := by
        simp only [after, hmachine, htones]
        rfl
      rw [hafter]
      exact leads_of_walk hs hwalk a rfl rfl ha
  | some f =>
      obtain ⟨k, m', v, hk, hwalk, hv, hvf, hmachine, -, -, htones⟩ := hframed.broken f hfault
      have hafter : a.after .frame t = { a with machine := v.machine } := by
        rw [after_of_quiet htones, hmachine]
        rfl
      rw [hafter]
      exact leads_of_walk_fault hs hwalk hv hvf _ a hk rfl rfl ha

/-! ## Whole runs -/

theorem leads_momentsOf (hs : s.check = none) (ha : Safe s a.machine) {r : Request}
    (ht : a.answer? r = some t) : Leads a (a.momentsOf r) (a.after r t) := by
  by_cases hr : r = .frame
  · subst hr
    exact leads_frame hs ha ht
  · rw [momentsOf_of_ne hr]
    exact leads_single hr ht

theorem leads_moments (hs : s.check = none) : ∀ (requests : List Request) (a : Session),
    Safe s a.machine → ∀ b, a.run? requests = some b → Leads a (a.moments requests) b
  | [], a, _, b, hb => by
      obtain rfl := Option.some.inj hb
      exact .nil a
  | r :: rest, a, ha, b, hb => by
      obtain ⟨t, ht, hrest⟩ := Option.bind_eq_some_iff.mp hb
      have hsafe := safe_of_answer? hs ha ht
      rw [moments_cons ht]
      exact (leads_momentsOf hs ha ht).append (leads_moments hs rest _ hsafe b hrest)

/-! ## From the beginning -/

/-- A session that begins with a machine just built with the settings. -/
def Begins (s : Settings) (a : Session) : Prop :=
  (∃ chance screen, Machine.build s chance screen = .ok a.machine) ∧ a.meter = {}

theorem Begins.safe (h : a.Begins s) : s.check = none ∧ Safe s a.machine := by
  obtain ⟨⟨_, _, hbuild⟩, -⟩ := h
  exact Machine.safe_of_build hbuild

theorem exists_begins (hs : s.check = none) (hfits : FitsScreen s.width s.height)
    (keys : Keypad) : ∃ a : Session, a.Begins s ∧ a.keys = keys := by
  obtain ⟨screen, hscreen⟩ : ∃ screen, Screen.blank? s.width s.height = some screen :=
    ⟨_, Screen.blank?_of_fits hfits⟩
  obtain ⟨hw, hh, -⟩ := Screen.of_blank? hscreen
  obtain ⟨m, hbuild⟩ := Machine.exists_build (Dice.ofSeed 0) hs hw hh
  exact ⟨{ machine := m, keys := keys }, ⟨⟨_, _, hbuild⟩, rfl⟩, rfl⟩

/-- Whatever is asked of a session that begins, all of it happens. -/
theorem Begins.leads (h : a.Begins s) (requests : List Request) :
    ∃ b, a.run? requests = some b ∧ Leads a (a.moments requests) b := by
  obtain ⟨hs, ha⟩ := h.safe
  obtain ⟨b, hb, -⟩ := exists_run hs requests ha
  exact ⟨b, hb, leads_moments hs requests a ha b hb⟩

end Session

end ChipEight
