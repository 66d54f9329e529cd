import ChipEight.CommandLine.Program
import ChipEight.Proofs.Instr.Entries
import ChipEight.Proofs.Machine.Safety

/-!
# Listings and steps

A listing is made from a program's bytes, a step from what is in memory. They agree for
every program that fits: each entry stands at the address where the program's bytes come
to lie (`addr_entry`) and has the word that is fetched there (`word?_of_bytes`), and a
step of any machine that gets there while the bytes are still in place does what the
entry says, and notes the entry's line (`performs_of_word`).
-/

namespace ChipEight

/-- A step carries out the instruction of an entry, and the first of its notes is the line of
the entry; or it passes over an opcode that means nothing, and its only note says so. -/
def Machine.Performs (m : Machine) (keys : Keypad) (e : Entry) : Prop :=
  match e.instr with
  | some i => ∃ n : Note, n.level = .trace ∧ n.text = "0x" ++ Listing.line e ∧
      m.step? keys = (m.advanced.execute? keys e.addr i).map
        (fun t => { t with notes := #[n] ++ t.notes }) ∧
      ∀ t, m.step? keys = some t → t.notes[0]? = some n
  | none => ∃ n : Note, n.level = .debug ∧
      n.text = "0x" ++ Digits.hex 3 e.addr.toNat ++ ": ignoring undefined opcode " ++
        Digits.hex 4 e.opcode.toNat ∧
      m.step? keys = some { machine := m.advanced, fault := none, notes := #[n], tones := #[] }

theorem Turn.first_note (t : Turn) (n : Note) : (t.noting n).notes[0]? = some n := by
  show (#[n] ++ t.notes)[0]? = some n
  rw [Array.getElem?_append_left Nat.zero_lt_one]
  rfl

theorem Note.text_executing (pc op : UInt16) (i : Instr) :
    (Note.executing pc op i).text = "0x" ++ Listing.line ⟨pc, op, some i⟩ := by
  show "0x" ++ Digits.hex 3 pc.toNat ++ ": " ++ Digits.hex 4 op.toNat ++ "  " ++ i.text =
    "0x" ++ (Digits.hex 3 pc.toNat ++ ": " ++ Digits.hex 4 op.toNat ++ "  " ++ i.text)
  simp only [String.append_assoc]

theorem Listing.addr_entry {rom : Array UInt8} (hrom : rom.size ≤ 3584)
    (i : Fin (rom.size / 2)) :
    (entry rom 0x200 i).addr = UInt16.ofNat (0x200 + 2 * i) ∧
      (entry rom 0x200 i).addr.toNat = 0x200 + 2 * i := by
  have haddr : (entry rom 0x200 i).addr = UInt16.ofNat (0x200 + 2 * i) :=
    (UInt16.ofNat_add 0x200 (2 * i.val)).symm
  refine ⟨haddr, ?_⟩
  rw [haddr, UInt16.toNat_ofNat']
  exact Nat.mod_eq_of_lt (by omega)

namespace Machine

/-- A step with the word of an entry at its address does what the entry says. -/
theorem performs_of_word {m : Machine} {op : UInt16} (keys : Keypad)
    (h : m.ram.word? m.pc = some op) : m.Performs keys ⟨m.pc, op, Instr.decode op⟩ := by
  unfold Performs
  cases hi : Instr.decode op with
  | some i =>
      have hstep := step?_of_decode keys h hi
      refine ⟨_, rfl, Note.text_executing m.pc op i, hstep, fun t ht => ?_⟩
      obtain ⟨u, -, rfl⟩ := Option.map_eq_some_iff.mp (hstep.symm.trans ht)
      exact Turn.first_note u _
  | none => exact ⟨_, rfl, rfl, step?_of_undefined keys h hi⟩

theorem byte_of_load (m : Machine) {rom : Array UInt8} (hrom : rom.size ≤ 3584) {k : Nat}
    (hk : k < rom.size) : (m.load rom).machine.ram.bytes[0x200 + k]? = rom[k]? := by
  obtain ⟨base, ram, -, hram, hload⟩ := m.load_of_fits hrom
  have hpaste : base.ram.loadProgram rom = .ok (base.ram.paste 0x200 rom) := if_pos hrom
  obtain rfl := Except.ok.inj (hpaste.symm.trans hram)
  have hlt : 0x200 + k < 4096 := by omega
  rw [hload, Array.getElem?_eq_getElem hk]
  refine (Vector.getElem?_eq_getElem hlt).trans (congrArg some ?_)
  simp [Ram.paste, hk]

theorem word?_of_bytes {r : Ram} {addr : UInt16} {high low : UInt8}
    (hhigh : r.bytes[addr.toNat]? = some high) (hlow : r.bytes[addr.toNat + 1]? = some low) :
    r.word? addr = some (bigEndian high low) := by
  obtain ⟨_, hhigh⟩ := Vector.getElem?_eq_some_iff.mp hhigh
  obtain ⟨hlt, hlow⟩ := Vector.getElem?_eq_some_iff.mp hlow
  have hholds : Ram.Holds addr 2 := by
    show addr.toNat + 2 ≤ 4096
    omega
  unfold Ram.word?
  rw [dif_pos hholds]
  exact congrArg₂ (fun a b => some (bigEndian a b)) hhigh hlow

/-- A program that fits is loaded, and the listing of it that the command line prints
agrees with the machine. It has an entry for every two bytes, an odd byte at the end left
out. Entry number `i` has the address where these bytes are in memory, the word that is
there after the load, and the meaning of that word. A step of any machine that is at this
address while the bytes of the program are still there fetches the word, notes the line of
the entry and does what it says. -/
theorem load_listed (m : Machine) {rom : Array UInt8} (hrom : rom.size ≤ 3584) :
    (m.load rom).fault = none ∧ ∃ entries, Listing.entries? rom 0x200 = some entries ∧
      entries.length = rom.size / 2 ∧
      (∀ w, CommandLine.list w rom =
        .success w.files (w.printed (CommandLine.unlines (entries.map Listing.line)))) ∧
      (∀ w : CommandLine.World, w.terminal = none → (CommandLine.list w rom).output =
        String.join (entries.map fun e => Listing.line e ++ "\n")) ∧
      ∀ i e, entries[i]? = some e →
        e.addr.toNat = 0x200 + 2 * i ∧
        (m.load rom).machine.ram.word? e.addr = some e.opcode ∧
        e.instr = Instr.decode e.opcode ∧
        ∀ (m' : Machine) (keys : Keypad), m'.pc = e.addr →
          (∀ k, k = 2 * i ∨ k = 2 * i + 1 → m'.ram.bytes[0x200 + k]? = rom[k]?) →
            m'.ram.word? m'.pc = some e.opcode ∧ m'.Performs keys e := by
  have hlen : rom.size / 2 ≤ 32768 := by omega
  have hentries := Listing.entries?_eq hlen 0x200
  have hlist : ∀ w, CommandLine.list w rom = .success w.files (w.printed
      (CommandLine.unlines ((List.ofFn (Listing.entry rom 0x200)).map Listing.line))) := by
    intro w
    unfold CommandLine.list
    rw [show Listing.entries? rom Ram.programStart = _ from hentries]
  refine ⟨?_, _, hentries, List.length_ofFn, hlist, fun w hw => ?_, fun i e he => ?_⟩
  · obtain ⟨base, ram, -, -, hload⟩ := m.load_of_fits hrom
    rw [hload]
  · rw [hlist]
    show w.printed _ = _
    rw [CommandLine.World.printed, hw, CommandLine.unlines, List.map_map]
    rfl
  · obtain ⟨hlen, hentry⟩ := List.getElem?_eq_some_iff.mp he
    have hi : i < rom.size / 2 := Nat.lt_of_lt_of_eq hlen List.length_ofFn
    obtain rfl : Listing.entry rom 0x200 ⟨i, hi⟩ = e := (List.getElem_ofFn hlen).symm.trans hentry
    obtain ⟨haddr, hnat⟩ := Listing.addr_entry hrom ⟨i, hi⟩
    have hin : 2 * i + 1 < rom.size := Listing.entry_in_program ⟨i, hi⟩
    refine ⟨hnat, ?_, rfl, fun m' keys hpc hbytes => ?_⟩
    · rw [haddr]
      exact m.word_of_load hrom (Array.getElem?_eq_getElem _) (Array.getElem?_eq_getElem hin)
    · have hword : m'.ram.word? m'.pc = some (Listing.entry rom 0x200 ⟨i, hi⟩).opcode := by
        refine word?_of_bytes ?_ ?_
        · rw [hpc, hnat, hbytes _ (Or.inl rfl)]
          exact Array.getElem?_eq_getElem _
        · rw [hpc, hnat, Nat.add_assoc, hbytes _ (Or.inr rfl)]
          exact Array.getElem?_eq_getElem hin
      have hperforms := performs_of_word keys hword
      rw [hpc] at hperforms
      exact ⟨hword, hperforms⟩

/-- A program of five bytes whose second word means nothing. -/
theorem load_listed_odd : ∃ (m : Machine) (rom : Array UInt8),
    rom = #[0x61, 0x2a, 0xff, 0xff, 0x12] ∧ rom.size ≤ 3584 ∧
    Listing.entries? rom 0x200 =
      some [⟨0x200, 0x612a, some (.loadByte 1 0x2a)⟩, ⟨0x202, 0xffff, none⟩] ∧
    Listing.line ⟨0x200, 0x612a, some (.loadByte 1 0x2a)⟩ = "200: 612a  LD   V1, 0x2a" ∧
    (m.load rom).machine.Performs .untouched ⟨0x200, 0x612a, some (.loadByte 1 0x2a)⟩ ∧
    { (m.load rom).machine with pc := 0x202 }.Performs .untouched ⟨0x202, 0xffff, none⟩ := by
  have hw : ((Screen.blank? 64 32).get (by decide)).width = 64 := rfl
  obtain ⟨m, -⟩ := exists_build (s := {}) (Dice.ofSeed 0) rfl hw rfl
  obtain ⟨rom, hrom⟩ : ∃ rom : Array UInt8, rom = #[0x61, 0x2a, 0xff, 0xff, 0x12] := ⟨_, rfl⟩
  have hsize : rom.size = 5 := by rw [hrom]; rfl
  have hfits : rom.size ≤ 3584 := by omega
  have hlist : Listing.entries? rom 0x200 =
      some [⟨0x200, 0x612a, some (.loadByte 1 0x2a)⟩, ⟨0x202, 0xffff, none⟩] := by
    rw [hrom]
    decide
  obtain ⟨-, entries, hentries, -, -, -, hsteps⟩ := m.load_listed hfits
  obtain rfl := Option.some.inj (hlist.symm.trans hentries)
  have hbytes : ∀ i k, i < 2 → k = 2 * i ∨ k = 2 * i + 1 →
      (m.load rom).machine.ram.bytes[0x200 + k]? = rom[k]? :=
    fun i k hi hk => m.byte_of_load hfits (by omega)
  have hstart : (m.load rom).machine.pc = 0x200 := by
    obtain ⟨base, ram, -, -, hload⟩ := m.load_of_fits hfits
    rw [hload]
    rfl
  obtain ⟨-, -, -, hfirst⟩ := hsteps 0 _ rfl
  obtain ⟨-, -, -, hsecond⟩ := hsteps 1 _ rfl
  refine ⟨m, rom, hrom, hfits, hlist, by decide, ?_, ?_⟩
  · exact (hfirst _ .untouched hstart fun k => hbytes 0 k (by decide)).2
  · exact (hsecond { (m.load rom).machine with pc := 0x202 } .untouched rfl
      fun k => hbytes 1 k (by decide)).2

end Machine

end ChipEight
