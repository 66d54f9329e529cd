import ChipEight.Proofs.CommandLine.Delivering
import ChipEight.Proofs.CommandLine.Wording
import ChipEight.Proofs.Machine.Loading
import ChipEight.Proofs.Run.Viewing

/-!
# Running headless

Without a terminal and without sound the program is the machine and nothing else: it builds the
machine that its options describe, loads the program, runs it with no key held, and prints the
last screen. `Headless` is what is then left to choose, and `Headless.choice` is how that is said
by the options, in whatever words and order.

The run is followed by a viewer that keeps every screen (`Viewer.keeping`). The program's own
viewers, which count the screens or keep them as frames, see what that one sees, so one run
stands for both (`runMachine_counted`, `runMachine_file`). Then the frames are in the file and
the last screen on the output, whether the run went well or not (`execute_headless`). Both are
lines of half-blocks; in the file every line ends with a carriage return too (`frame_eq`), on the
output only if a terminal shows it (`printed_lines`).
-/

namespace ChipEight.CommandLine

/-! ## What is asked for -/

/-- What can be chosen about a run without terminal and sound. -/
structure Headless where
  rom : String
  width : Option UInt64 := none
  height : Option UInt64 := none
  keys : Option UInt64 := none
  cycles : Option UInt32 := none
  resetOnLoad : Bool := false
  seed : UInt64
  maxTicks : UInt64
  screenOut : Option String := none

namespace Headless

/-- The settings of the machine, the usual ones where nothing is chosen. -/
def settings (c : Headless) : Settings :=
  let usual : Settings := {}
  { usual with
    width := (c.width.map (·.toNat)).getD usual.width
    height := (c.height.map (·.toNat)).getD usual.height
    keys := (c.keys.map (·.toNat)).getD usual.keys
    cyclesPerTick := (c.cycles.map (·.toNat)).getD usual.cyclesPerTick
    resetOnLoad := c.resetOnLoad
    seed := some c.seed }

/-- How each option says what is chosen. -/
def choice (c : Headless) : Switch → Option Value
  | .rom => some (.path c.rom)
  | .width => (c.width.map (·.toNat)).map .number
  | .height => (c.height.map (·.toNat)).map .number
  | .keys => (c.keys.map (·.toNat)).map .number
  | .cycles => (c.cycles.map (·.toNat)).map .number
  | .resetOnLoad => if c.resetOnLoad then some .present else none
  | .seed => some (.number c.seed.toNat)
  | .maxTicks => some (.number c.maxTicks.toNat)
  | .screenOut => c.screenOut.map .path
  | .headless | .mute => some .present
  | .pitch | .autoRelease | .sampleRate | .audioOut | .input | .disassemble | .logLevel
  | .help | .version => none

/-- Words that say it, each option in a word of its own. -/
def words (c : Headless) : List String :=
  (Given.saying c.choice).map spelled

/-- Two ticks of a program on a small screen, with its pictures in a file. -/
def filmed : Headless where
  rom := "a"
  width := some 4
  height := some 5
  cycles := some 2
  seed := 7
  maxTicks := 2
  screenOut := some "b"

/-- What the options come to. -/
def options (c : Headless) : Options where
  rom := c.rom
  settings := c.settings
  mute := true
  audioOut := none
  screenOut := c.screenOut
  input := none
  headless := true
  maxTicks := some c.maxTicks.toNat
  disassemble := false
  threshold := some .warn

variable {c : Headless} {g : Given}

theorem fits_number {n : Option UInt64} {v : Value} (h : (n.map (·.toNat)).map .number = some v) :
    v.Fits .natural := by
  cases n with
  | none => cases h
  | some n =>
      obtain rfl := Option.some.inj h
      exact n.toNat_lt

theorem speaks (hrom : c.rom ≠ "") (hout : c.screenOut ≠ some "") (s : Switch) (v : Value)
    (h : c.choice s = some v) : Speaks (s, v) := by
  have hhelp : s ≠ .help := by
    rintro rfl
    cases h
  have hversion : s ≠ .version := by
    rintro rfl
    cases h
  refine ⟨hhelp, hversion, ?_⟩
  cases s with
  | rom =>
      obtain rfl := Option.some.inj h
      exact hrom
  | width | height | keys => exact fits_number h
  | seed => exact fits_number (n := some c.seed) h
  | maxTicks => exact fits_number (n := some c.maxTicks) h
  | cycles =>
      obtain ⟨n, hn, rfl⟩ := Option.map_eq_some_iff.mp h
      obtain ⟨k, -, rfl⟩ := Option.map_eq_some_iff.mp hn
      exact Nat.le_of_lt_succ k.toNat_lt
  | resetOnLoad =>
      replace h : (if c.resetOnLoad then some Value.present else none) = some v := h
      split at h
      · obtain rfl := Option.some.inj h
        trivial
      · cases h
  | screenOut =>
      obtain ⟨p, hp, rfl⟩ := Option.map_eq_some_iff.mp h
      exact fun hempty => hout (hp.trans (congrArg some hempty))
  | headless | mute =>
      obtain rfl := Option.some.inj h
      trivial
  | _ => cases h

/-- The words say what is chosen. -/
theorem read_words (hrom : c.rom ≠ "") (hout : c.screenOut ≠ some "") :
    ∃ g, read c.words = .options g ∧ ∀ s, g.valueOf? s = c.choice s :=
  ⟨_, Given.read_saying (speaks hrom hout), Given.valueOf?_saying c.choice⟩

example : filmed.words =
    ["--rom=a", "--width=4", "--height=5", "--cycles=2", "--seed=7", "--mute", "--screen-out=b",
      "--headless", "--max-ticks=2"] := by
  decide

theorem number?_of_choice {s : Switch} {n : Option Nat} (hg : g.valueOf? s = n.map .number) :
    g.number? s = n := by
  unfold Given.number?
  rw [hg]
  cases n <;> rfl

theorem path?_of_choice {s : Switch} {p : Option String} (hg : g.valueOf? s = p.map .path) :
    g.path? s = p := by
  unfold Given.path?
  rw [hg]
  cases p <;> rfl

theorem settings_eq (hg : ∀ s, g.valueOf? s = c.choice s) : g.settings = c.settings := by
  have hreset : g.has .resetOnLoad = c.resetOnLoad := by
    show (g.valueOf? .resetOnLoad).isSome = _
    rw [hg, choice]
    cases c.resetOnLoad <;> rfl
  unfold Given.settings settings
  rw [number?_of_choice (hg .width), number?_of_choice (hg .height), number?_of_choice (hg .keys),
    number?_of_choice (hg .cycles), number?_of_choice (n := none) (hg .pitch),
    number?_of_choice (n := none) (hg .sampleRate), number?_of_choice (n := none) (hg .autoRelease),
    number?_of_choice (n := some c.seed.toNat) (hg .seed), hreset]
  simp

theorem options?_eq (hg : ∀ s, g.valueOf? s = c.choice s) : g.options? = some c.options := by
  have hhas : ∀ s, g.has s = (c.choice s).isSome := fun s => congrArg Option.isSome (hg s)
  unfold Given.options?
  rw [path?_of_choice (p := some c.rom) (hg .rom), path?_of_choice (p := none) (hg .audioOut),
    path?_of_choice (hg .screenOut), path?_of_choice (p := none) (hg .input),
    number?_of_choice (n := some c.maxTicks.toNat) (hg .maxTicks), settings_eq hg, hhas .mute,
    hhas .headless, hhas .disassemble, hg .logLevel]
  rfl

end Headless

/-! ## The run -/

theorem keypad_nobody : (ManualKeys.mk []).keypad = .untouched := by
  simp [ManualKeys.keypad, Keypad.untouched]

/-- The surroundings of a run that nobody touches. -/
def nobody : Surroundings :=
  still .untouched false

section Run

variable {o : Options} {files : Files} {m : Machine} {q : Progress (List Screen)}

/-- A run that nobody touches, on a viewer that sees through `f` what the keeping one has. -/
theorem runWith_nobody {τ : Type} {view : Viewer τ} {f : List Screen → τ}
    (hf : Viewer.keeping.Through f view)
    (hq : Run.rounds? Viewer.keeping nobody o.maxTicks (Run.boundFor o.maxTicks)
      (Run.start m []) = some (.ended q)) :
    runWith o (.elsewhere view) .nobody m (f []) = .ok (.ended (q.map f)) := by
  have hround := Run.roundsUntil_of_rounds? (Run.rounds?_map hf hq)
  rw [nobody, ← keypad_nobody] at hround
  exact hround

theorem runMachine_counted
    (hq : Run.rounds? Viewer.keeping nobody o.maxTicks (Run.boundFor o.maxTicks)
      (Run.start m []) = some (.ended q)) :
    runMachine o files .nobody .counted m =
      { machine := q.machine, fault := q.fault, tones := q.tones.toList } := by
  have hrun := runWith_nobody Viewer.counting_through hq
  show Finished.of (runWith o (.elsewhere Viewer.counting) .nobody m ([] : List Screen).length) = _
  rw [hrun]
  rfl

theorem runMachine_file {place : Place} (hroom : files.hasRoom place = true)
    (hq : Run.rounds? Viewer.keeping nobody o.maxTicks (Run.boundFor o.maxTicks)
      (Run.start m []) = some (.ended q)) :
    runMachine o files .nobody (.file place) m =
      { machine := q.machine, fault := q.fault, tones := q.tones.toList
        frames := (q.view.map (Viewer.frame false)).toArray } := by
  have hrun : runWith o (.elsewhere Viewer.collecting) .nobody m #[] = _ :=
    runWith_nobody Viewer.collecting_through hq
  show (if files.hasRoom place = true then _ else _) = _
  rw [if_pos hroom, hrun]
  rfl

end Run

/-! ## What is left -/

theorem printed_empty (w : World) : w.printed "" = "" := by
  unfold World.printed
  split
  · rfl
  · rfl

theorem returning_append (a b : String) : returning (a ++ b) = returning a ++ returning b := by
  simp only [returning, String.toList_append, List.flatMap_append, String.ofList_append]

theorem returning_line {line : String} (h : '\n' ∉ line.toList) : returning line = line := by
  have hsame : line.toList.flatMap (fun c => if c = '\n' then ['\r', '\n'] else [c]) =
      line.toList.flatMap fun c => [c] :=
    List.flatMap_congr fun c hc => if_neg fun hend : c = '\n' => h (hend ▸ hc)
  rw [returning, hsame, List.flatMap_singleton', String.ofList_toList]

theorem returning_unlines : ∀ {lines : List String}, (∀ line ∈ lines, '\n' ∉ line.toList) →
    returning (unlines lines) = String.join (lines.map (· ++ "\r\n"))
  | [], _ => rfl
  | line :: rest, h => by
      have hrest := returning_unlines fun l hl => h l (List.mem_cons_of_mem _ hl)
      rw [unlines] at hrest
      rw [unlines, List.map_cons, String.join_cons, returning_append, returning_append,
        returning_line (h line List.mem_cons_self), hrest, List.map_cons, String.join_cons]
      rfl

theorem newline_notMem_lines {s : Screen} : ∀ line ∈ HalfBlock.lines s, '\n' ∉ line.toList := by
  intro line hline hend
  obtain ⟨k, -, rfl⟩ := List.mem_map.mp hline
  rw [String.toList_ofList] at hend
  obtain ⟨x, -, hglyph⟩ := List.mem_map.mp hend
  revert hglyph
  cases s.pixel x (2 * k) <;> cases s.pixel x (2 * k + 1) <;> decide

theorem frame_eq : Viewer.frame false = fun s =>
    (String.join ((HalfBlock.lines s).map (· ++ "\r\n"))).toUTF8.data.toList := by
  funext s
  show Viewer.encoded ("" ++ _) = _
  rw [String.empty_append]
  rfl

/-- The lines of a screen as they come out, line by line. -/
theorem printed_lines (w : World) (s : Screen) :
    (w.terminal = none → w.printed (unlines (HalfBlock.lines s)) =
      String.join ((HalfBlock.lines s).map (· ++ "\n"))) ∧
    (w.terminal ≠ none → w.printed (unlines (HalfBlock.lines s)) =
      String.join ((HalfBlock.lines s).map (· ++ "\r\n"))) := by
  constructor
  · intro hnone
    rw [World.printed, hnone]
    rfl
  · intro hsome
    rw [World.printed, if_pos (Option.isSome_iff_ne_none.mpr hsome)]
    exact returning_unlines newline_notMem_lines

/-- What the program leaves when the run has ended. -/
def Headless.outcome (w : World) (m : Machine) (fault : Option Fault) (files : Files) : Outcome where
  code := some (if fault.isSome then 1 else 0)
  output := w.printed (unlines (HalfBlock.lines m.screen))
  complaint := fault.elim "" fun f => "Error: " ++ f.diagnostic ++ "\n"
  files := files

theorem finish_eq {c : Headless} {w : World} {files files' : Files} {pictures : Pictures}
    {f : Finished} (hbroke : f.broke = false) (hwindow : f.window = none)
    (hfiles : ∀ place? : Pen → Option Place, place? .picture = pictures.place? →
      place? .tone = none → deliver files place? (f.written c.options.settings) = files')
    (hsilent : files'.output = #[] ∧ files'.errors = #[]) :
    finish c.options w files none .nobody pictures f =
      Headless.outcome w f.machine f.fault files' := by
  have houtput : w.printed "" ++ w.printed (farewell c.options f.machine.screen) =
      w.printed (unlines (HalfBlock.lines f.machine.screen)) := by
    rw [printed_empty, String.empty_append]
    rfl
  unfold finish
  simp only []
  unfold Headless.outcome
  rw [hfiles _ rfl rfl, hsilent.1, hsilent.2, hbroke, hwindow, if_neg Bool.false_ne_true]
  cases f.fault with
  | none =>
      rw [← houtput]
      rfl
  | some fault =>
      rw [← houtput, Option.elim_some, ← String.empty_append (s := "Error: " ++ _ ++ _)]
      rfl

theorem execute_eq_start {c : Headless} {w : World} {words : List String} {g : Given}
    {rom : Array UInt8} {screen : Screen} {files : Files} {pictures : Pictures}
    (hwords : read words = .options g) (hg : ∀ s, g.valueOf? s = c.choice s)
    (hrom : w.files.read c.rom = .ok rom) (hcheck : c.settings.check = none)
    (hmemory : Screen.isBeyondMemory w.memory c.settings.width c.settings.height = false)
    (hscreen : Screen.blank? c.settings.width c.settings.height = some screen)
    (hpictures : openPictures c.options w.terminal w.files = .ok (files, pictures)) :
    execute words w = start c.options w rom screen .nobody files none pictures := by
  have hcheck : c.options.settings.check = none := hcheck
  have hmemory : Screen.isBeyondMemory w.memory c.options.settings.width c.options.settings.height = false :=
    hmemory
  have hscreen : Screen.blank? c.options.settings.width c.options.settings.height = some screen :=
    hscreen
  have hrom : w.files.read c.options.rom = .ok rom := hrom
  have hdisassemble : c.options.disassemble = false := rfl
  have hkeys : openKeys? c.options w = some (.ok .nobody) := rfl
  have htone : openTone c.options w.files = .ok (w.files, none) := rfl
  have hperform : perform c.options w = run c.options w rom := by
    simp only [perform, hrom, hdisassemble, Bool.false_eq_true, if_false]
  have hrun : run c.options w rom = prepare c.options w rom screen := by
    simp only [run, hcheck, hmemory, hscreen, Bool.false_eq_true, if_false]
  have hprepare : prepare c.options w rom screen =
      start c.options w rom screen .nobody files none pictures := by
    simp only [prepare, hkeys, htone, hpictures]
  have hexecute : execute words w = perform c.options w := by
    simp only [execute, hwords, Headless.options?_eq hg]
  exact hexecute.trans (hperform.trans (hrun.trans hprepare))

theorem openPictures_counted {c : Headless} (terminal : Option Terminal) (files : Files)
    (h : c.screenOut = none) :
    openPictures c.options terminal files = .ok (files, .counted) := by
  have hpath : c.options.screenOut = none := h
  have hheadless : c.options.headless = true := rfl
  simp only [openPictures, hpath, hheadless, if_true]

theorem openPictures_file {c : Headless} (terminal : Option Terminal) {files made : Files}
    {path : String} {place : Place} (h : c.screenOut = some path)
    (hcreate : files.create path = .ok (made, place)) :
    openPictures c.options terminal files = .ok (made, .file place) := by
  have hpath : c.options.screenOut = some path := h
  simp only [openPictures, hpath, hcreate]

theorem start_eq_finish {c : Headless} {w : World} {rom : Array UInt8} {screen : Screen}
    {m : Machine} {files : Files} {pictures : Pictures}
    (hbuild : Machine.build c.settings w.chance screen = .ok m)
    (hload : (m.load rom).fault = none) :
    start c.options w rom screen .nobody files none pictures =
      finish c.options w files none .nobody pictures
        (runMachine c.options files .nobody pictures (m.load rom).machine) := by
  have hbuild : Machine.build c.options.settings w.chance screen = .ok m := hbuild
  unfold start
  simp only [hbuild, hload]

theorem exists_build (c : Headless) {screen : Screen} (hcheck : c.settings.check = none)
    (hw : screen.width = c.settings.width) (hh : screen.height = c.settings.height) :
    ∃ m, ∀ chance, Machine.build c.settings chance screen = .ok m := by
  obtain ⟨m, hbuild⟩ := Machine.exists_build (Dice.ofSeed 0) hcheck hw hh
  refine ⟨m, fun chance => ?_⟩
  rw [← hbuild]
  rfl

/-! ## The program and the machine -/

section Ended

variable {c : Headless} {w : World} {rom : Array UInt8} {screen : Screen} {m : Machine}
  {q : Progress (List Screen)} (hbuild : Machine.build c.settings w.chance screen = .ok m)
  (hload : (m.load rom).fault = none)
  (hq : Run.rounds? Viewer.keeping nobody c.options.maxTicks (Run.boundFor c.options.maxTicks)
    (Run.start (m.load rom).machine []) = some (.ended q))

include hbuild hload hq

theorem start_counted (hsilent : w.files.output = #[] ∧ w.files.errors = #[]) :
    start c.options w rom screen .nobody w.files none .counted =
      Headless.outcome w q.machine q.fault w.files := by
  rw [start_eq_finish hbuild hload, runMachine_counted hq]
  refine finish_eq rfl rfl (fun place? hpicture htone => deliver_nowhere ?_) hsilent
  intro pen
  cases pen with
  | picture => exact hpicture
  | tone => exact htone

theorem start_file {files : Files} {place : Place}
    (hsilent : files.output = #[] ∧ files.errors = #[])
    (hfile : files.node? place = some (.file #[])) :
    start c.options w rom screen .nobody files none (.file place) =
      Headless.outcome w q.machine q.fault
        (files.put place (q.view.map (Viewer.frame false)).flatten.toArray) := by
  have hroom : files.hasRoom place = true := by
    unfold Files.hasRoom
    rw [hfile]
    rfl
  rw [start_eq_finish hbuild hload, runMachine_file hroom hq]
  refine finish_eq rfl rfl (fun place? hpicture htone => ?_) hsilent
  rw [deliver_picture hpicture htone hfile]
  congr 2
  exact written_picture _ _ _

/-- The program leaves the machine of the run, and where the pictures go their frames. -/
theorem exists_outcome {words : List String} {g : Given} (hwords : read words = .options g)
    (hg : ∀ s, g.valueOf? s = c.choice s) (hrom : w.files.read c.rom = .ok rom)
    (hcheck : c.settings.check = none)
    (hmemory : Screen.isBeyondMemory w.memory c.settings.width c.settings.height = false)
    (hscreen : Screen.blank? c.settings.width c.settings.height = some screen)
    (hsilent : w.files.output = #[] ∧ w.files.errors = #[])
    (hout : ∀ path ∈ c.screenOut, ∃ files place, w.files.create path = .ok (files, place) ∧
      files.node? place = some (.file #[])) :
    ∃ files, execute words w = Headless.outcome w q.machine q.fault files ∧
      ∀ path ∈ c.screenOut, ∀ made place, w.files.create path = .ok (made, place) →
        files.node? place = some (.file (q.view.map (Viewer.frame false)).flatten.toArray) := by
  have hstart {made : Files} {pictures : Pictures}
      (h : openPictures c.options w.terminal w.files = .ok (made, pictures)) :=
    execute_eq_start hwords hg hrom hcheck hmemory hscreen h
  cases hscreenOut : c.screenOut with
  | none =>
      have hpictures := openPictures_counted w.terminal w.files hscreenOut
      exact ⟨w.files, (hstart hpictures).trans (start_counted hbuild hload hq hsilent),
        fun path hpath => nomatch hpath⟩
  | some path =>
      obtain ⟨made, place, hcreate, hnode⟩ := hout path hscreenOut
      obtain ⟨houtput, herrors⟩ := Files.create_outputs hcreate
      have hmade : made.output = #[] ∧ made.errors = #[] :=
        ⟨houtput.trans hsilent.1, herrors.trans hsilent.2⟩
      have hpictures := openPictures_file w.terminal hscreenOut hcreate
      refine ⟨_, (hstart hpictures).trans (start_file hbuild hload hq hmade hnode), ?_⟩
      intro path' hpath made' place' hcreate'
      obtain rfl := Option.some.inj hpath
      obtain ⟨-, rfl⟩ := Prod.mk.inj (Except.ok.inj (hcreate.symm.trans hcreate'))
      exact Files.node?_put (Files.ne_nil_of_file hnode)

end Ended

/-- A run of a safe machine with a limit comes back, and has kept the screens after its ticks. -/
theorem exists_kept {s : Settings} {m : Machine} {limit : Nat} (hs : s.check = none)
    (hm : Machine.Safe s m) (hlimit : limit < wordLimit) :
    ∃ q : Progress (List Screen),
      Run.rounds? Viewer.keeping nobody (some limit) (Run.boundFor (some limit)) (Run.start m []) =
        some (.ended q) ∧
      Run.Returns Viewer.counting nobody (some limit) m 0 q.result q.polls q.machine q.view.length ∧
      ∀ i (hi : i < q.view.length), ∃ m₁,
        Run.Ticks Viewer.counting nobody m 0 (i + 1) m₁ (i + 1) ∧ q.view[i] = m₁.screen := by
  obtain ⟨q, hq⟩ := Run.exists_ended hs Viewer.keeping_serves hlimit hm nobody []
  have hrate := hm.rate_pos hs
  obtain ⟨n, m₁, hticks⟩ := Run.exists_ticks_of_returns hrate Viewer.keeping_serves
    (Run.returns_of_ended hrate hq)
  refine ⟨q, hq, Run.returns_of_ended hrate (Run.rounds?_map Viewer.counting_through hq), ?_⟩
  intro i hi
  obtain ⟨m₁, kept, hkept, hone⟩ := hticks.kept.2 i hi
  have hcounted := hkept.map Viewer.counting_through
  rw [hkept.kept.1] at hcounted
  exact ⟨m₁, hcounted, hone⟩

/-- A program that draws a zero in the top left corner and then jumps on the spot. -/
def game : Array UInt8 :=
  #[0xa0, 0x50, 0xd0, 0x05, 0x12, 0x04]

theorem exists_zero : ∃ out, ((Screen.blank? 4 5).get (by decide)).drawWrapped? 0 0
      [0xf0, 0x90, 0x90, 0x90, 0xf0] = some out ∧
    HalfBlock.lines out.1 = ["█▀▀█", "█  █", "▀▀▀▀"] :=
  Option.map_eq_some_iff.mp (show (((Screen.blank? 4 5).get (by decide)).drawWrapped? 0 0
    [0xf0, 0x90, 0x90, 0x90, 0xf0]).map (fun out => HalfBlock.lines out.1) = some _ by cbv)

theorem sprite_zero {m : Machine} (hindex : m.index = 0x050)
    (hmemory : ∀ addr, m.ram.read addr = freshByte game (Ram.place addr)) :
    m.sprite 5 = [0xf0, 0x90, 0x90, 0x90, 0xf0] := by
  show (List.range 5).map (fun r => m.ram.read (m.index + UInt16.ofNat r)) = _
  simp only [hindex, hmemory]
  decide

theorem draw?_zero {m : Machine} (hindex : m.index = 0x050)
    (hmemory : ∀ addr, m.ram.read addr = freshByte game (Ram.place addr))
    (hscreen : m.screen = (Screen.blank? 4 5).get (by decide)) (hreg : m.reg 0 = 0) :
    ∃ screen hit, m.draw? 0 0 5 = some ({ m with screen := screen }.setFlag hit) ∧
      HalfBlock.lines screen = ["█▀▀█", "█  █", "▀▀▀▀"] := by
  obtain ⟨⟨screen, hit⟩, hdrawn, hlines⟩ := exists_zero
  refine ⟨screen, hit, ?_, hlines⟩
  have hx := Machine.register?_eq (m := m) (x := 0) (by decide)
  simp only [Machine.draw?, hx, hreg, sprite_zero hindex hmemory, hscreen, Option.bind_eq_bind,
    Option.bind_some]
  rw [show UInt8.toNat 0 = 0 from rfl, hdrawn]
  rfl

/-- The first frame draws the zero, and the machine is left at the jump. -/
theorem exists_zero_frame {m : Machine} (hm : m.Afresh game 4 5) (hcycles : m.settings.cyclesPerTick = 2)
    (hwords : m.ram.word? 0x200 = some 0xa050 ∧ m.ram.word? 0x202 = some 0xd005 ∧
      m.ram.word? 0x204 = some 0x1204) (keys : Keypad) (l : Bool) :
    ∃ t, m.frame? keys l = some t ∧ t.fault = none ∧ t.machine.Spins ∧
      HalfBlock.lines t.machine.screen = ["█▀▀█", "█  █", "▀▀▀▀"] := by
  obtain ⟨hindex, hdraw, hjump⟩ := hwords
  obtain ⟨m₁, hm₁⟩ : ∃ m₁ : Machine, m₁ = { m.advanced with index := 0x050 } := ⟨_, rfl⟩
  have hram : m₁.ram = m.ram := by
    rw [hm₁]
    rfl
  have hpc : m₁.pc = 0x202 := by
    rw [hm₁]
    exact congrArg (· + 2) hm.pc
  have hfirst : m.step? keys =
      some ((Turn.done m₁).noting (.executing m.pc 0xa050 (.loadIndex 0x050))) := by
    rw [Machine.step?_of_decode keys (hm.pc.symm ▸ hindex) rfl, hm₁]
    rfl
  obtain ⟨screen, hit, hdrawn, hlines⟩ :
      ∃ screen hit, m₁.advanced.draw? 0 0 5 = some ({ m₁.advanced with screen := screen }.setFlag hit) ∧
        HalfBlock.lines screen = ["█▀▀█", "█  █", "▀▀▀▀"] := by
    rw [hm₁]
    refine draw?_zero rfl (fun addr => hm.memory (Ram.place addr))
      (Screen.eq_of_buffer hm.width hm.height hm.dark) ?_
    show m.registers.get 0 = 0
    rw [hm.registers]
    rfl
  obtain ⟨m₂, hm₂⟩ : ∃ m₂ : Machine, m₂ = { m₁.advanced with screen := screen }.setFlag hit :=
    ⟨_, rfl⟩
  have hsecond : m₁.step? keys =
      some ((Turn.done m₂).noting (.executing m₁.pc 0xd005 (.draw 0 0 5))) := by
    have hop : m₁.ram.word? m₁.pc = some 0xd005 := by
      rw [hpc, hram]
      exact hdraw
    rw [Machine.step?_of_decode keys hop rfl, hm₂]
    exact congrArg (Option.map _) (Machine.done_map hdrawn)
  have hwalk : Machine.Walk keys m.settings.cyclesPerTick m m₂ := by
    rw [hcycles]
    exact .succ hfirst rfl (.succ hsecond rfl (.zero m₂))
  obtain ⟨t, ht, hfault, hmachine⟩ := Machine.frame?_of_walk l hwalk
  have hjumps : t.machine.ram.word? t.machine.pc = some 0x1204 := by
    rw [hmachine, hm₂]
    show m₁.ram.word? (m₁.pc + 2) = _
    rw [hpc, hram]
    exact hjump
  have hthere : t.machine.pc = 0x204 := by
    rw [hmachine, hm₂]
    exact congrArg (· + 2) hpc
  refine ⟨t, ht, hfault, ⟨0x1204, hjumps, rfl, hthere.symm⟩, ?_⟩
  rw [hmachine, hm₂]
  exact hlines

theorem exists_zero_ticks {screen : Screen} {m : Machine}
    (h : Machine.build Headless.filmed.settings (Dice.ofSeed 0) screen = .ok m) :
    ∃ m₁ m₂, Run.Ticks Viewer.counting nobody (m.load game).machine 0 1 m₁ 1 ∧
      Run.Ticks Viewer.counting nobody (m.load game).machine 0 2 m₂ 2 ∧
      HalfBlock.lines m₁.screen = ["█▀▀█", "█  █", "▀▀▀▀"] ∧
      HalfBlock.lines m₂.screen = ["█▀▀█", "█  █", "▀▀▀▀"] := by
  have hfits : game.size ≤ Ram.programRoom := by decide
  have hfresh : (m.load game).machine.Afresh game 4 5 := Machine.afresh_of_build h (by decide)
  have hcycles : (m.load game).machine.settings.cyclesPerTick = 2 := by
    rw [((Machine.safe_of_build h).2.load game).settings]
    rfl
  have hwords : (m.load game).machine.ram.word? 0x200 = some 0xa050 ∧
      (m.load game).machine.ram.word? 0x202 = some 0xd005 ∧
      (m.load game).machine.ram.word? 0x204 = some 0x1204 :=
    ⟨m.word_of_load hfits (i := 0) rfl rfl, m.word_of_load hfits (i := 2) rfl rfl,
      m.word_of_load hfits (i := 4) rfl rfl⟩
  obtain ⟨t, ht, hfault, hspins, hlines⟩ :=
    exists_zero_frame hfresh hcycles hwords (nobody.keys 0) nobody.listening
  obtain ⟨u, hu, hufault, hmachine⟩ := hspins.frame? (nobody.keys 1) nobody.listening
  have hone : Run.Ticks Viewer.counting nobody (m.load game).machine 0 1 t.machine 1 :=
    .succ .zero ⟨t, ht, hfault, rfl, rfl⟩
  refine ⟨_, _, hone, .succ hone ⟨u, hu, hufault, rfl, rfl⟩, hlines, ?_⟩
  rw [hmachine]
  exact hlines

/-- Files with this program and nothing else. -/
def gameFiles : Files :=
  { nodes := [(["a"], .file game)] }

/-- A world with these files. -/
def gameWorld : World :=
  { files := gameFiles, chance := Dice.ofSeed 0 }

end ChipEight.CommandLine
