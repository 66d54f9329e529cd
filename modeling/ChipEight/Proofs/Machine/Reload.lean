import ChipEight.Proofs.Machine.Refit
import ChipEight.Proofs.Machine.Runs
import ChipEight.Proofs.Screen.Painting

/-!
# Starting afresh

A machine whose settings have it start afresh forgets everything when a program
is loaded, save the dice. `Afresh rom w h m` says of every part of a machine what
it is then: the program in its place in memory, the font, zeros everywhere else,
and nothing left in registers, stack, timers and screen. It is true of every such
machine after a load, whatever was done to it before, and of every machine that
was just built, so all of these are alike (`Afresh.alike`).

Machines that are alike differ in settings and dice only. No step sees either but
one that rolls the dice (`step?_refit`), so they go on alike until then: a relation
between two turns, kept by each request, holds between two sessions turn by turn
(`turns?_alike`).
-/

namespace ChipEight

/-! ## Alike but for settings and dice -/

/-- Two machines are the same but for their settings and their dice. -/
structure Machine.Alike (m m' : Machine) : Prop where
  ram : m'.ram = m.ram
  screen : m'.screen = m.screen
  registers : m'.registers = m.registers
  index : m'.index = m.index
  pc : m'.pc = m.pc
  stack : m'.stack = m.stack
  depth : m'.depth = m.depth
  delay : m'.delay = m.delay
  sound : m'.sound = m.sound

/-- Two turns leave machines alike, and have the same fault, notes and tones. -/
structure Turn.Alike (t t' : Turn) : Prop where
  machine : t.machine.Alike t'.machine
  fault : t'.fault = t.fault
  notes : t'.notes = t.notes
  tones : t'.tones = t.tones

theorem Machine.alike_iff {m m' : Machine} :
    m.Alike m' ↔ m' = m.refit m'.settings m'.dice := by
  constructor
  · intro h
    obtain ⟨s, ram, screen, registers, index, pc, stack, depth, delay, sound, dice⟩ := m'
    obtain ⟨rfl, rfl, rfl, rfl, rfl, rfl, rfl, rfl, rfl⟩ := h
    rfl
  · intro h
    rw [h]
    exact ⟨rfl, rfl, rfl, rfl, rfl, rfl, rfl, rfl, rfl⟩

theorem Turn.alike_refit (t : Turn) (s : Settings) (d : Dice) : t.Alike (t.refit s d) :=
  ⟨Machine.alike_iff.mpr rfl, rfl, rfl, rfl⟩

/-! ## What a load leaves -/

/-- The byte at an address after a program was loaded into a new memory. -/
def freshByte (rom : Array UInt8) (k : Nat) : UInt8 :=
  if h : 0x200 ≤ k ∧ k - 0x200 < rom.size then rom[k - 0x200]
  else if h : 0x050 ≤ k ∧ k - 0x050 < Font.glyphs.size then Font.glyphs[k - 0x050]
  else 0

/-- A machine with a program just loaded, and nothing else. -/
structure Machine.Afresh (rom : Array UInt8) (w h : Nat) (m : Machine) : Prop where
  memory : ∀ k : Fin 4096, m.ram.bytes.get k = freshByte rom k
  width : m.screen.width = w
  height : m.screen.height = h
  dark : m.screen.buffer = Array.replicate (rowBytes w * h) 0
  registers : m.registers = Vector.replicate 16 0
  index : m.index = 0
  pc : m.pc = 0x200
  stack : m.stack = Vector.replicate 16 0
  depth : m.depth = 0
  delay : m.delay = 0
  sound : m.sound = 0

namespace Machine

variable {m m' : Machine} {rom : Array UInt8} {w h : Nat}

theorem Afresh.alike (hm : m.Afresh rom w h) (hm' : m'.Afresh rom w h) : m.Alike m' where
  ram := congrArg Ram.mk (Vector.ext fun k hk =>
    (hm'.memory ⟨k, hk⟩).trans (hm.memory ⟨k, hk⟩).symm)
  screen := Screen.eq_of_buffer (hm'.width.trans hm.width.symm) (hm'.height.trans hm.height.symm)
    (hm'.dark.trans hm.dark.symm)
  registers := hm'.registers.trans hm.registers.symm
  index := hm'.index.trans hm.index.symm
  pc := hm'.pc.trans hm.pc.symm
  stack := hm'.stack.trans hm.stack.symm
  depth := hm'.depth.trans hm.depth.symm
  delay := hm'.delay.trans hm.delay.symm
  sound := hm'.sound.trans hm.sound.symm

theorem get_fresh_paste (k : Fin 4096) :
    (Ram.fresh.paste 0x200 rom).bytes.get k = freshByte rom k := by
  have hzero : (Vector.replicate 4096 (0 : UInt8)).get k = 0 := Vector.getElem_replicate k.isLt
  rw [Ram.get_paste, Ram.fresh, Ram.get_paste, hzero]
  rfl

theorem buffer_clear (s : Screen) :
    s.clear.buffer = Array.replicate (rowBytes s.width * s.height) 0 := by
  rw [← s.size_buffer]
  exact Array.map_const'

theorem load_afresh (hbase : (if m.settings.resetOnLoad then m.restart else m) = m.restart)
    (hrom : rom.size ≤ 3584) :
    (m.load rom).fault = none ∧
      (m.load rom).machine.Afresh rom m.screen.width m.screen.height := by
  have hload : Ram.fresh.loadProgram rom = .ok (Ram.fresh.paste 0x200 rom) := if_pos hrom
  unfold load
  simp only [hbase]
  unfold restart
  simp only [hload, true_and]
  exact ⟨get_fresh_paste, rfl, rfl, buffer_clear _, rfl, rfl, rfl, rfl, rfl, rfl, rfl⟩

theorem restart_of_build {s : Settings} {chance : Dice} {screen : Screen}
    (h : build s chance screen = .ok m) : m.restart = m := by
  unfold build at h
  split at h
  case h_1 => cases h
  case h_2 =>
      split at h
      case isTrue => cases h
      case isFalse =>
          obtain rfl := Except.ok.inj h
          have hclear : screen.clear.clear = screen.clear :=
            Screen.eq_of_buffer rfl rfl (Array.map_map ..)
          unfold restart
          simp only [hclear]

/-- Nothing shows of what a machine went through if it starts afresh, and of what
was on its screen if it was just built. -/
theorem Safe.load_afresh {s : Settings} (hm : Safe s m) (hreset : m.settings.resetOnLoad = true)
    (hrom : rom.size ≤ 3584) : (m.load rom).fault = none ∧
      (m.load rom).machine.Afresh rom m.settings.width m.settings.height := by
  rw [hm.settings, ← hm.width, ← hm.height]
  exact Machine.load_afresh (if_pos hreset) hrom

theorem afresh_of_build {s : Settings} {chance : Dice} {screen : Screen}
    (h : build s chance screen = .ok m) (hrom : rom.size ≤ 3584) :
    (m.load rom).machine.Afresh rom s.width s.height := by
  obtain ⟨-, hsafe⟩ := safe_of_build h
  have hrestart := restart_of_build h
  have hbase : (if m.settings.resetOnLoad then m.restart else m) = m.restart := by
    rw [hrestart, ite_self]
  rw [← hsafe.width, ← hsafe.height]
  exact (Machine.load_afresh hbase hrom).2

end Machine

/-! ## Going on alike -/

/-- The requests that do not depend on the settings: steps, ticks and keys. -/
def Request.IsMove : Request → Prop
  | step | tick | touch _ => True
  | load _ | read _ | frame => False

namespace Session

/-- No step among the requests rolls the dice. -/
def NeverRolls : Session → List Request → Prop
  | _, [] => True
  | a, r :: rest => (r = .step → ¬ a.machine.Rolls) ∧
      ∀ t, a.answer? r = some t → NeverRolls (a.after r t) rest

theorem answer?_alike {a b : Session} (hmachine : a.machine.Alike b.machine)
    (hkeys : b.keys = a.keys) {r : Request} (hr : r.IsMove)
    (hroll : r = .step → ¬ a.machine.Rolls) {t : Turn} (ht : a.answer? r = some t) :
    ∃ u, b.answer? r = some u ∧ t.Alike u := by
  cases r with
  | load | read | frame => exact hr.elim
  | step =>
      have hsame := Machine.step?_refit b.machine.settings b.machine.dice (hroll rfl) a.keys
      rw [← Machine.alike_iff.mp hmachine] at hsame
      have ht : a.machine.step? a.keys = some t := ht
      rw [ht] at hsame
      exact ⟨_, (congrArg b.machine.step? hkeys).trans hsame, t.alike_refit _ _⟩
  | tick =>
      obtain rfl := Option.some.inj ht
      refine ⟨_, rfl, ?_⟩
      rw [Machine.alike_iff.mp hmachine]
      exact Turn.alike_refit a.machine.tick b.machine.settings b.machine.dice
  | touch keys =>
      obtain rfl := Option.some.inj ht
      exact ⟨_, rfl, hmachine, rfl, rfl, rfl⟩

/-- Sessions with machines alike and the same keypad go on alike, turn by turn,
until the dice are rolled. -/
theorem turns?_alike : ∀ (requests : List Request) (a b : Session),
    a.machine.Alike b.machine → b.keys = a.keys → (∀ r ∈ requests, r.IsMove) →
      a.NeverRolls requests → ∀ ts, a.turns? requests = some ts →
        ∃ us, b.turns? requests = some us ∧ List.Forall₂ Turn.Alike ts us
  | [], _, _, _, _, _, _, ts, hts => by
      obtain rfl := Option.some.inj hts
      exact ⟨[], rfl, .nil⟩
  | r :: rest, a, b, hmachine, hkeys, hmoves, hroll, ts, hts => by
      obtain ⟨t, ht, hts⟩ := Option.bind_eq_some_iff.mp hts
      obtain ⟨ts, hrest, rfl⟩ := Option.map_eq_some_iff.mp hts
      obtain ⟨u, hu, halike⟩ :=
        answer?_alike hmachine hkeys (hmoves r List.mem_cons_self) hroll.1 ht
      have hkeys' : (b.after r u).keys = (a.after r t).keys := by
        cases r with
        | touch => rfl
        | load | read | step | frame | tick => exact hkeys
      obtain ⟨us, hus, hforall⟩ := turns?_alike rest (a.after r t) (b.after r u) halike.machine
        hkeys' (fun r hr => hmoves r (List.mem_cons_of_mem _ hr)) (hroll.2 t ht) ts hrest
      refine ⟨u :: us, ?_, .cons halike hforall⟩
      rw [turns?, hu]
      exact congrArg (Option.map (u :: ·)) hus

theorem exists_turns {s : Settings} (hs : s.check = none) : ∀ (requests : List Request)
    (a : Session), Machine.Safe s a.machine → ∃ ts, a.turns? requests = some ts
  | [], _, _ => ⟨[], rfl⟩
  | r :: rest, a, ha => by
      obtain ⟨t, ht, hsafe⟩ := answer?_safe hs a ha r
      obtain ⟨ts, hts⟩ := exists_turns hs rest (a.after r t) hsafe
      refine ⟨t :: ts, ?_⟩
      rw [turns?, ht]
      exact congrArg (Option.map (t :: ·)) hts

/-- The session after a load, with a keypad of one's own. -/
def reloaded (a : Session) (rom : Array UInt8) (keys : Keypad) : Session :=
  { a.after (.load rom) (a.machine.load rom) with keys := keys }

/-- Wherever two sessions got to whose machines start afresh and have screens of
one size, a load leaves the same in both: the program, the font and zeros in
memory, and nothing anywhere else, as it does in a machine that was just built
with a screen of that size. From then on they go on alike, turn by turn, until
the dice are rolled. -/
theorem Reachable.reload {a b : Session} (ha : a.Reachable) (hb : b.Reachable)
    (hreset : a.machine.settings.resetOnLoad = true)
    (hreset' : b.machine.settings.resetOnLoad = true)
    (hw : b.machine.settings.width = a.machine.settings.width)
    (hh : b.machine.settings.height = a.machine.settings.height)
    (rom : Array UInt8) (hrom : rom.size ≤ 3584) :
    (a.machine.load rom).fault = none ∧ (b.machine.load rom).fault = none ∧
    (a.machine.load rom).machine.Afresh rom a.machine.settings.width a.machine.settings.height ∧
    (a.machine.load rom).machine.Alike (b.machine.load rom).machine ∧
    (∀ s chance screen m, Machine.build s chance screen = .ok m →
      s.width = a.machine.settings.width → s.height = a.machine.settings.height →
        (a.machine.load rom).machine.Alike (m.load rom).machine) ∧
    ∀ keys requests, (∀ r ∈ requests, r.IsMove) → (a.reloaded rom keys).NeverRolls requests →
      ∃ ts us, (a.reloaded rom keys).turns? requests = some ts ∧
        (b.reloaded rom keys).turns? requests = some us ∧ List.Forall₂ Turn.Alike ts us := by
  obtain ⟨s, hs, hsafe⟩ := ha.safe
  obtain ⟨_, -, hsafe'⟩ := hb.safe
  obtain ⟨hfault, hfresh⟩ := hsafe.load_afresh hreset hrom
  obtain ⟨hfault', hfresh'⟩ := hsafe'.load_afresh hreset' hrom
  rw [hw, hh] at hfresh'
  have halike := hfresh.alike hfresh'
  refine ⟨hfault, hfault', hfresh, halike, ?_, ?_⟩
  · intro s chance screen m hbuild hw hh
    exact hfresh.alike (hw ▸ hh ▸ Machine.afresh_of_build hbuild hrom)
  · intro keys requests hmoves hroll
    obtain ⟨ts, hts⟩ := exists_turns hs requests (a.reloaded rom keys) (hsafe.load rom)
    obtain ⟨us, hus, hforall⟩ := turns?_alike requests (a.reloaded rom keys)
      (b.reloaded rom keys) halike rfl hmoves hroll ts hts
    exact ⟨ts, us, hts, hus, hforall⟩

/-- A machine just built, and the same one after a program that sets a timer,
draws and returns without a call. -/
theorem reload_after_run : ∃ (m : Machine) (b : Session),
    Machine.build { resetOnLoad := true } (Dice.ofSeed 0)
      ((Screen.blank? 64 32).get (by decide)) = .ok m ∧
    run? { machine := m, keys := .untouched }
      [.load #[0x60, 0x05, 0xf0, 0x15, 0xd0, 0x05, 0x00, 0xee], .frame, .tick] = some b ∧
    (m.load #[0x60, 0x07]).machine.Alike (b.machine.load #[0x60, 0x07]).machine ∧
    ∃ ts us, turns? (reloaded { machine := m, keys := .untouched } #[0x60, 0x07] .untouched)
        [.step, .tick] = some ts ∧
      (b.reloaded #[0x60, 0x07] .untouched).turns? [.step, .tick] = some us ∧
      List.Forall₂ Turn.Alike ts us := by
  have hw : ((Screen.blank? 64 32).get (by decide)).width = 64 := rfl
  obtain ⟨m, hbuild⟩ :=
    Machine.exists_build (s := { resetOnLoad := true }) (Dice.ofSeed 0) rfl hw rfl
  obtain ⟨hs, hm⟩ := Machine.safe_of_build hbuild
  obtain ⟨b, hb, hsafe⟩ := exists_run hs
    [.load #[0x60, 0x05, 0xf0, 0x15, 0xd0, 0x05, 0x00, 0xee], .frame, .tick]
    (a := { machine := m, keys := .untouched }) hm
  have hsame : b.machine.settings = m.settings := hsafe.settings.trans hm.settings.symm
  have hreset : m.settings.resetOnLoad = true := by rw [hm.settings]
  have hreach : Reachable { machine := m, keys := .untouched } :=
    ⟨_, _, _, m, .untouched, [], hbuild, rfl⟩
  have hreach' : b.Reachable := ⟨_, _, _, m, .untouched, _, hbuild, hb⟩
  obtain ⟨-, -, -, halike, -, hturns⟩ := hreach.reload hreach' hreset (hsame ▸ hreset)
    (by rw [hsame]) (by rw [hsame]) #[0x60, 0x07] (by decide)
  refine ⟨m, b, hbuild, hb, halike, hturns .untouched [.step, .tick] ?_ ?_⟩
  · simp [Request.IsMove]
  · -- the only step puts a number into a register
    obtain ⟨ram, hram⟩ : ∃ ram, Ram.fresh.loadProgram #[0x60, 0x07] = .ok ram :=
      ⟨_, if_pos (by decide)⟩
    obtain ⟨hloaded, hstart, -⟩ := Machine.load_restart hreset hram
    refine ⟨?_, fun t _ => ⟨fun h => Request.noConfusion h, fun _ _ => trivial⟩⟩
    rintro - ⟨op, hop, hroll⟩
    have hword : (m.load #[0x60, 0x07]).machine.ram.word?
        (m.load #[0x60, 0x07]).machine.pc = some 0x6007 := by
      rw [hloaded, hstart]
      exact Ram.word?_of_loadProgram hram (by decide : 0 + 1 < 2)
    obtain rfl := Option.some.inj (hword.symm.trans hop)
    exact absurd hroll (by decide)

end Session

end ChipEight
