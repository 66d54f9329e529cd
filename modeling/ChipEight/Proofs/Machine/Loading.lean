import ChipEight.Proofs.Flow.Delivery
import ChipEight.Proofs.Machine.Footprint
import ChipEight.Proofs.Machine.Moments
import ChipEight.Proofs.Machine.Reload

/-!
# Loading, and loading again

A load goes well exactly if the program fits, and one that does not go well leaves everything
as it was. Without a fresh start a load that goes well changes the bytes where the program
comes to lie and the program counter: what an earlier, longer program left behind it stays, and
so do the stack and the timers.

So memory remembers, of all programs that were loaded, those parts that no later program has
covered. `Ram.broughtTo k rom` is the byte that a program brings to a place, if it fits and
reaches so far; after any requests the byte there is the one that was brought last
(`Leads.byte`), as long as no instruction has stored one in between.
-/

namespace ChipEight

theorem getLast?_filterMap_cons {α β : Type} (f : α → Option β) (x : α) (l : List α) (b : β) :
    ((x :: l).filterMap f).getLast?.getD b = (l.filterMap f).getLast?.getD ((f x).getD b) := by
  rw [List.filterMap_cons]
  cases f x with
  | none => rfl
  | some y =>
      show (y :: _).getLast?.getD b = _
      rw [List.getLast?_cons]
      rfl

namespace Ram

/-- The byte that a program brings to a place in memory, if it fits and reaches so far. -/
def broughtTo (k : Nat) (rom : Array UInt8) : Option UInt8 :=
  if rom.size ≤ 3584 ∧ 0x200 ≤ k then rom[k - 0x200]? else none

theorem get_fresh {k : Fin 4096} (hk : 0x200 ≤ k.val) : fresh.bytes.get k = 0 := by
  have hfont : ¬ (Font.base ≤ k.val ∧ k.val - Font.base < Font.glyphs.size) := by
    rintro ⟨-, hlt⟩
    have hsize : k.val - 0x050 < 80 := hlt
    omega
  rw [fresh, get_paste, dif_neg hfont]
  exact Vector.getElem_replicate k.isLt

theorem get_paste_getD (m : Ram) (start : Nat) (data : Array UInt8) (k : Fin 4096) :
    (m.paste start data).bytes.get k =
      (if start ≤ k.val then data[k.val - start]? else none).getD (m.bytes.get k) := by
  rw [get_paste]
  by_cases hk : start ≤ k.val
  · rw [if_pos hk]
    by_cases hin : k.val - start < data.size
    · rw [dif_pos ⟨hk, hin⟩, Array.getElem?_eq_getElem hin]
      rfl
    · rw [dif_neg fun h => hin h.2, Array.getElem?_eq_none (Nat.le_of_not_lt hin)]
      rfl
  · rw [dif_neg fun h => hk h.1, if_neg hk]
    rfl

theorem get_paste_program (m : Ram) {rom : Array UInt8} (hrom : rom.size ≤ 3584)
    (k : Fin 4096) :
    (m.paste 0x200 rom).bytes.get k = (broughtTo k.val rom).getD (m.bytes.get k) := by
  rw [get_paste_getD, broughtTo]
  simp only [hrom, true_and]

end Ram

namespace Machine

variable {m : Machine} {rom : Array UInt8}

theorem load_of_keeping (hkeep : m.settings.resetOnLoad = false) (hrom : rom.size ≤ 3584) :
    m.load rom = { machine := { m with ram := m.ram.paste 0x200 rom, pc := 0x200 }
                   notes := #[.loaded rom.size] } := by
  obtain ⟨base, ram, hbase, hram, hload⟩ := m.load_of_fits hrom
  rw [hkeep, if_neg Bool.false_ne_true] at hbase
  subst hbase
  have hpaste : base.ram.loadProgram rom = .ok (base.ram.paste 0x200 rom) := if_pos hrom
  obtain rfl := Except.ok.inj (hpaste.symm.trans hram)
  exact hload

theorem fault_load_eq_none_iff : (m.load rom).fault = none ↔ rom.size ≤ 3584 := by
  constructor
  · intro h
    by_contra hlarge
    rw [m.load_of_large hlarge] at h
    cases h
  · intro hrom
    obtain ⟨base, ram, -, -, hload⟩ := m.load_of_fits hrom
    rw [hload]

theorem get_load (hkeep : m.settings.resetOnLoad = false) (k : Fin 4096) :
    (m.load rom).machine.ram.bytes.get k =
      (Ram.broughtTo k.val rom).getD (m.ram.bytes.get k) := by
  by_cases hrom : rom.size ≤ 3584
  · rw [load_of_keeping hkeep hrom]
    exact m.ram.get_paste_program hrom k
  · rw [m.load_of_large hrom, Ram.broughtTo, if_neg fun h => hrom h.1]
    rfl

theorem loadFrom_of_ending (m : Machine) (source : Source) : m.loadFrom source =
    match source.ending with
    | .clean => m.load source.delivered.toArray
    | .failed text => .failed (.io (.other text)) m := by
  have hroom : 0 < loadRoom := by decide
  obtain ⟨hslices, hending⟩ := source.readAll_delivers hroom
  unfold loadFrom
  rw [← hslices, ← hending]
  split
  case h_1 heq => rw [heq]
  case h_2 heq =>
      rw [heq]
      rfl

theorem ram_of_build {s : Settings} {chance : Dice} {screen : Screen}
    (h : build s chance screen = .ok m) : m.ram = Ram.fresh := by
  have hrestart := congrArg Machine.ram (restart_of_build h)
  unfold restart at hrestart
  exact hrestart.symm

end Machine

/-- The program that a request brings, if it is one to load and there is a whole program. -/
def Request.program? : Request → Option (Array UInt8)
  | .load rom => some rom
  | .read source =>
    match source.ending with
    | .clean => some source.delivered.toArray
    | .failed _ => none
  | .step | .frame | .tick | .touch _ => none

namespace Session

open Machine (Safe)

variable {s : Settings} {a b : Session} {t : Turn} {ms : List Moment}

/-! ## One byte of memory -/

/-- A request, frames apart, leaves at a place the byte that its program brings, or else the
byte that was there, unless it is a step that stores one. -/
theorem byte_of_answer? (hs : s.check = none) (ha : Safe s a.machine)
    (hkeep : s.resetOnLoad = false) {r : Request} (hr : r ≠ .frame) (ht : a.answer? r = some t)
    {k : Fin 4096} (hk : ∀ op, Moment.opcode? ⟨a, r⟩ = some op → ¬ a.machine.Stores op k) :
    t.machine.ram.bytes.get k =
      (r.program?.bind (Ram.broughtTo k.val)).getD (a.machine.ram.bytes.get k) := by
  have hkeep : a.machine.settings.resetOnLoad = false := by rw [ha.settings, hkeep]
  cases r with
  | frame => exact absurd rfl hr
  | load rom =>
      obtain rfl := Option.some.inj ht
      exact Machine.get_load hkeep k
  | read source =>
      obtain rfl := Option.some.inj ht
      rw [Machine.loadFrom_of_ending, Request.program?]
      split
      · exact Machine.get_load hkeep k
      · rfl
  | tick | touch =>
      obtain rfl := Option.some.inj ht
      rfl
  | step =>
      show _ = a.machine.ram.bytes.get k
      rcases (outcome_of_answer? hs ha ht).effect_or_moved with ⟨op, hop, heff⟩ | ⟨pc, hmoved⟩
      · exact heff.memory k (hk op (Moment.opcode?_eq_some_iff.mpr ⟨rfl, hop⟩))
      · rw [hmoved]

/-- After all that happens, a byte that nothing stored is the one that was brought last. -/
theorem Leads.byte (h : Leads a ms b) (hs : s.check = none) (hkeep : s.resetOnLoad = false)
    {k : Fin 4096} : Safe s a.machine →
      (∀ x ∈ ms, ∀ op, x.opcode? = some op → ¬ x.session.machine.Stores op k) →
        b.machine.ram.bytes.get k =
          (ms.filterMap fun x => x.request.program?.bind (Ram.broughtTo k.val)).getLast?.getD
            (a.machine.ram.bytes.get k) := by
  induction h with
  | nil => exact fun _ _ => rfl
  | @cons a b r t ms hr ht _ ih =>
      intro ha hstored
      have hbyte := byte_of_answer? hs ha hkeep hr ht (hstored _ List.mem_cons_self)
      have hafter : (a.after r t).machine = t.machine := rfl
      rw [ih (safe_of_answer? hs ha ht) fun x hx => hstored x (List.mem_cons_of_mem _ hx),
        hafter, hbyte, getLast?_filterMap_cons]

/-! ## The programs of a session -/

theorem programs_frameMoments : ∀ (n : Nat) (a : Session),
    (frameMoments n a).filterMap (·.request.program?) = []
  | 0, _ => rfl
  | n + 1, a => by
      rw [frameMoments]
      cases a.answer? .step with
      | none => rfl
      | some t =>
          show List.filterMap _ (if _ then _ else _) = []
          split
          · rfl
          · exact programs_frameMoments n (a.after .step t)

theorem programs_moments (hs : s.check = none) : ∀ (requests : List Request) (a : Session),
    Safe s a.machine → (a.moments requests).filterMap (·.request.program?) =
      requests.filterMap Request.program?
  | [], _, _ => rfl
  | r :: rest, a, ha => by
      obtain ⟨t, ht, hsafe⟩ := answer?_safe hs a ha r
      have hone : (a.momentsOf r).filterMap (·.request.program?) =
          [r].filterMap Request.program? := by
        by_cases hr : r = .frame
        · subst hr
          exact programs_frameMoments _ a
        · rw [momentsOf_of_ne hr]
          rfl
      rw [moments_cons ht, List.filterMap_append, hone, programs_moments hs rest _ hsafe,
        ← List.filterMap_append, List.singleton_append]

/-! ## All or nothing -/

/-- A load fails exactly if the program is longer than there is room for, and then nothing in the
session has changed, neither the machine nor what hears its tone. Without a fresh start a load
that goes well changes the program counter and the bytes where the program comes to lie, which
are then those of the program, and nothing else. So, from when a machine was built on, a byte
that no instruction stored is the one brought last by a program that fits and reaches so far, or
zero. -/
theorem load_all_or_nothing :
    (∀ (a : Session) (rom : Array UInt8),
      ((a.machine.load rom).fault = none ↔ rom.size ≤ 3584) ∧
      (3584 < rom.size → (a.machine.load rom).fault = some (.romTooLarge rom.size 3584) ∧
        a.after (.load rom) (a.machine.load rom) = a) ∧
      (rom.size ≤ 3584 → a.machine.settings.resetOnLoad = false → ∃ ram,
        a.after (.load rom) (a.machine.load rom) =
          { a with machine := { a.machine with ram := ram, pc := 0x200 } } ∧
        ∀ k : Fin 4096, ram.bytes.get k =
          if h : 0x200 ≤ k.val ∧ k.val - 0x200 < rom.size then rom[k.val - 0x200]
          else a.machine.ram.bytes.get k)) ∧
    ∀ (s : Settings) (a : Session), a.Begins s → s.resetOnLoad = false →
      ∀ requests, ∃ b, a.run? requests = some b ∧ ∀ k : Fin 4096, 0x200 ≤ k.val →
        (∀ x ∈ a.moments requests, ∀ op, x.opcode? = some op →
          ¬ x.session.machine.Stores op k) →
        b.machine.ram.bytes.get k =
          ((requests.filterMap Request.program?).filterMap
            (Ram.broughtTo k.val)).getLast?.getD 0 := by
  refine ⟨fun a rom => ⟨Machine.fault_load_eq_none_iff, fun hlarge => ?failed,
    fun hrom hkeep => ?loaded⟩, fun s a ha hkeep requests => ?sequence⟩
  case failed =>
    have hload := a.machine.load_of_large (Nat.not_le.mpr hlarge)
    rw [hload]
    exact ⟨rfl, rfl⟩
  case loaded =>
    refine ⟨a.machine.ram.paste 0x200 rom, ?_, a.machine.ram.get_paste 0x200 rom⟩
    rw [Machine.load_of_keeping hkeep hrom]
    rfl
  case sequence =>
    obtain ⟨hs, hsafe⟩ := ha.safe
    obtain ⟨b, hb, hleads⟩ := ha.leads requests
    obtain ⟨⟨_, _, hbuild⟩, -⟩ := ha
    refine ⟨b, hb, fun k hk hstored => ?_⟩
    rw [hleads.byte hs hkeep hsafe hstored, Machine.ram_of_build hbuild, Ram.get_fresh hk,
      ← programs_moments hs requests a hsafe, List.filterMap_filterMap]

/-- After a program of three bytes, one that is too long and one of a single byte, the bytes of
the first are left where the last does not reach. -/
theorem load_all_or_nothing_shorter : ∃ (a b : Session) (large : Array UInt8),
    large.size = 3585 ∧ (a.machine.load large).fault = some (.romTooLarge 3585 3584) ∧
    a.Begins {} ∧ a.run? [.load #[1, 2, 3], .load large, .load #[9]] = some b ∧
    b.machine.ram.bytes.get 0x200 = 9 ∧ b.machine.ram.bytes.get 0x201 = 2 ∧
    b.machine.ram.bytes.get 0x203 = 0 := by
  obtain ⟨a, ha, -⟩ := exists_begins (s := {}) rfl (by decide) .untouched
  obtain ⟨large, hlarge⟩ : ∃ large : Array UInt8, large.size = 3585 :=
    ⟨Array.replicate 3585 0, Array.size_replicate⟩
  obtain ⟨hone, hsequence⟩ := load_all_or_nothing
  obtain ⟨-, hfailed, -⟩ := hone a large
  obtain ⟨hfault, -⟩ := hfailed (by omega)
  obtain ⟨b, hb, hbytes⟩ := hsequence {} a ha rfl [.load #[1, 2, 3], .load large, .load #[9]]
  have hnone : ∀ k, Ram.broughtTo k large = none := fun k => if_neg (by omega)
  have hloads : ∀ x ∈ a.moments [.load #[1, 2, 3], .load large, .load #[9]],
      x.opcode? = none := by
    rw [moments_cons rfl, moments_cons rfl, moments_cons rfl]
    simp [momentsOf, moments, Moment.opcode?]
  have hbyte : ∀ k : Fin 4096, 0x200 ≤ k.val → b.machine.ram.bytes.get k =
      ([Ram.broughtTo k.val #[1, 2, 3], Ram.broughtTo k.val #[9]].filterMap id).getLast?.getD 0 := by
    intro k hk
    rw [hbytes k hk fun x hx op hop => by simp [hloads x hx] at hop]
    simp [Request.program?, hnone, List.filterMap_cons]
  refine ⟨a, b, large, hlarge, hlarge ▸ hfault, ha, hb, ?_, ?_, ?_⟩
  · exact (hbyte 0x200 (by decide)).trans (by decide)
  · exact (hbyte 0x201 (by decide)).trans (by decide)
  · exact (hbyte 0x203 (by decide)).trans (by decide)

end Session

end ChipEight
