import ChipEight.Instr.Listing
import ChipEight.Proofs.Instr.Encoding
import Mathlib.Data.List.FinRange

/-!
# The entries of a listing

Entry number `i` of a listing has the address that is `2 * i` from the origin, the word
of the bytes there and its meaning. A program of which no entry is too far from the
origin has a listing, and these are its entries, all of them (`entries?_eq`).

The distance of an entry from the origin is twice its number, counted as a word. Up to
entry number 32767 that fits. The address of the next one would be the origin itself, since
addresses come round, but its distance is 65536, which is no word (`distance?_last`), and
one entry that breaks down leaves no listing at all (`mapM_eq_none`). So a program has a
listing exactly if it is shorter than 65538 bytes, and a listing that there is has all
entries, with the addresses coming round where they leave the words (`entries?_answers`).
-/

namespace ChipEight

theorem toNat_bigEndian (high low : UInt8) :
    (bigEndian high low).toNat = 256 * high.toNat + low.toNat := by
  have hhigh : high.toUInt16.toNat = high.toNat := high.toNat_toUInt16
  have hlow : low.toUInt16.toNat < 2 ^ 8 := low.toNat_lt
  have hlt := high.toNat_lt
  have hshift : (high.toUInt16 <<< 8).toNat = 256 * high.toNat := by
    rw [← hhigh]
    exact Instr.toNat_shifted (i := 8) rfl (by omega)
  have hdvd : 2 ^ 8 ∣ (high.toUInt16 <<< 8).toNat := ⟨high.toNat, hshift⟩
  show (high.toUInt16 <<< 8 ||| low.toUInt16).toNat = _
  rw [Instr.toNat_or_of_dvd 8 hdvd hlow, hshift]
  rfl

namespace Listing

variable {program : Array UInt8} {origin : UInt16}

/-! ## Entry by entry -/

theorem entry_in_program {n : Nat} (i : Fin (n / 2)) : 2 * i.val + 1 < n := by
  have := i.isLt
  omega

/-- The entry with a number. -/
def entry (program : Array UInt8) (origin : UInt16) (i : Fin (program.size / 2)) : Entry :=
  let opcode := wordAt program i (entry_in_program i)
  { addr := origin + UInt16.ofNat (2 * i), opcode, instr := Instr.decode opcode }

theorem distance?_eq {i : Nat} (hi : i < 32768) :
    distance? i = some (UInt16.ofNat (2 * i)) := by
  have hmod : i % 65536 = i := Nat.mod_eq_of_lt (by omega)
  unfold distance?
  simp only [hmod]
  exact if_pos (by omega)

theorem nth?_eq (i : Fin (program.size / 2)) (hi : i.val < 32768) :
    nth? program origin i = some (entry program origin i) := by
  unfold nth?
  rw [dif_pos (entry_in_program i), distance?_eq hi]
  rfl

/-- A program of 65537 bytes at most is listed, word by word to its end. -/
theorem entries?_eq (h : program.size / 2 ≤ 32768) (origin : UInt16) :
    entries? program origin = some (List.ofFn (entry program origin)) := by
  have hnth : (nth? program origin ∘ fun i : Fin (program.size / 2) => i.val) =
      fun i => some (entry program origin i) :=
    funext fun i => nth?_eq i (Nat.lt_of_lt_of_le i.isLt h)
  unfold entries?
  rw [← List.map_coe_finRange_eq_range, List.mapM_map, hnth, List.ofFn_eq_map]
  exact List.mapM_pure

/-! ## Where it ends -/

theorem distance?_last : distance? 32768 = none := rfl

/-- The entry that is 65536 from the origin breaks down, in every program. -/
theorem nth?_last (program : Array UInt8) (origin : UInt16) :
    nth? program origin 32768 = none := by
  unfold nth?
  split
  · rw [distance?_last]
    rfl
  · rfl

theorem mapM_eq_none {α β : Type} {f : α → Option β} {x : α} (hf : f x = none) :
    ∀ {l : List α}, x ∈ l → l.mapM f = none
  | [], hx => absurd hx List.not_mem_nil
  | y :: l, hx => by
      rw [List.mapM_cons]
      rcases List.mem_cons.mp hx with rfl | hx
      · rw [hf]
        rfl
      · rw [mapM_eq_none hf hx]
        cases f y <;> rfl

theorem entries?_eq_none (h : 65538 ≤ program.size) (origin : UInt16) :
    entries? program origin = none := by
  have hlast : 32768 ∈ List.range (program.size / 2) := List.mem_range.mpr (by omega)
  exact mapM_eq_none (nth?_last program origin) hlast

theorem isSome_entries?_iff : (entries? program origin).isSome ↔ program.size < 65538 := by
  constructor
  · intro h
    by_contra hlong
    rw [entries?_eq_none (Nat.le_of_not_lt hlong)] at h
    exact absurd h Bool.false_ne_true
  · intro h
    rw [entries?_eq (by omega) origin]
    rfl

/-! ## What it holds -/

theorem toNat_addr_entry (i : Fin (program.size / 2)) :
    (entry program origin i).addr.toNat = (origin.toNat + 2 * i) % 65536 := by
  show (origin + UInt16.ofNat (2 * i.val)).toNat = _
  rw [UInt16.toNat_add, UInt16.toNat_ofNat']
  exact Nat.add_mod_mod ..

/-- A program of any bytes at any origin has a listing exactly if it is shorter than 65538
bytes. The listing has an entry for every two bytes, and no other: entry number `i` has the
address that is `2 * i` after the origin, coming round at 65536, the word of the two bytes
there, the first of them the high one, and what that word means. -/
theorem entries?_answers (program : Array UInt8) (origin : UInt16) :
    ((entries? program origin).isSome ↔ program.size < 65538) ∧
    ∀ entries, entries? program origin = some entries →
      entries.length = program.size / 2 ∧
      ∀ i high low, program[2 * i]? = some high → program[2 * i + 1]? = some low →
        ∃ e, entries[i]? = some e ∧ e.addr.toNat = (origin.toNat + 2 * i) % 65536 ∧
          e.opcode.toNat = 256 * high.toNat + low.toNat ∧ e.instr = Instr.decode e.opcode := by
  refine ⟨isSome_entries?_iff, ?_⟩
  intro entries hentries
  have hsome : (entries? program origin).isSome := by
    rw [hentries]
    rfl
  have hshort : program.size < 65538 := isSome_entries?_iff.mp hsome
  obtain rfl := Option.some.inj ((entries?_eq (by omega) origin).symm.trans hentries)
  refine ⟨List.length_ofFn, ?_⟩
  intro i high low hhigh hlow
  obtain ⟨_, rfl⟩ := Array.getElem?_eq_some_iff.mp hhigh
  obtain ⟨hin, rfl⟩ := Array.getElem?_eq_some_iff.mp hlow
  have hnumber : i < program.size / 2 := by omega
  refine ⟨entry program origin ⟨i, hnumber⟩, ?_, toNat_addr_entry _, toNat_bigEndian _ _, rfl⟩
  rw [List.getElem?_ofFn, dif_pos hnumber]

/-- The shortest programs without a listing have 65538 bytes. -/
theorem entries?_of_65538 : entries? (Array.replicate 65538 0xff) 0 = none := by
  have hsize : (Array.replicate 65538 (0xff : UInt8)).size = 65538 := Array.size_replicate
  exact entries?_eq_none hsize.ge 0

end Listing

end ChipEight
