import ChipEight.Proofs.Instr.Entries
import ChipEight.Proofs.Machine.Loading

/-!
# Memory as an array of bytes

Memory is got at in two ways. A single byte is read and written at an address modulo 4096; a word or
a block lies inside memory as a whole or there is no answer. Both are about the same bytes, and this
module says how, for any memory: which addresses see a byte that was written (`read_write`), which
blocks have an answer and what they leave (`read_of_writeBlock?`, `read_of_fill?`), and that blocks
and words that are read are what single bytes read say (`read_of_block?`, `toNat_of_word?`).

From the single changes follows what memory is after any number of them. `Change.brings k c` is the
byte that a change brings to a place, told by the addresses and lengths alone; after a history the
byte there is the one that was brought last (`get_after`). A change without an answer brings nothing
anywhere.
-/

namespace ChipEight.Ram

variable {m r : Ram} {addr : UInt16} {len : Nat} {data : Array UInt8} {value : UInt8}

/-! ## Single bytes -/

theorem read_write (m : Ram) (a b : UInt16) (value : UInt8) :
    (m.write a value).read b = if b.toNat % 4096 = a.toNat % 4096 then value else m.read b := by
  by_cases h : b.toNat % 4096 = a.toNat % 4096
  · rw [if_pos h]
    exact m.read_write_same (Fin.ext h.symm) value
  · rw [if_neg h]
    exact m.read_write_other (fun hplace => h (congrArg Fin.val hplace).symm) value

/-! ## Blocks -/

theorem ite_holds_eq_none_iff {α : Type} (a : α) :
    (if Holds addr len then some a else none) = none ↔ 4096 < addr.toNat + len := by
  rw [ite_eq_right_iff]
  constructor
  · intro h
    by_contra hle
    exact absurd (h (Nat.not_lt.mp hle)) (Option.some_ne_none a)
  · intro hlt hholds
    exact absurd hholds (Nat.not_le.mpr hlt)

theorem writeBlock?_eq_none_iff :
    m.writeBlock? addr data = none ↔ 4096 < addr.toNat + data.size :=
  ite_holds_eq_none_iff _

theorem fill?_eq_none_iff : m.fill? addr len value = none ↔ 4096 < addr.toNat + len :=
  ite_holds_eq_none_iff _

theorem block?_eq_none_iff : m.block? addr len = none ↔ 4096 < addr.toNat + len :=
  ite_holds_eq_none_iff _

/-- At the end of memory there is still an empty block, but none after it and no word before it. -/
example (m : Ram) :
    m.block? 0x1000 0 ≠ none ∧ m.block? 0x1001 0 = none ∧ m.word? 0xfff = none :=
  ⟨nofun, rfl, rfl⟩

theorem read_of_writeBlock? (h : m.writeBlock? addr data = some r) (b : UInt16) :
    r.read b =
      if h : addr.toNat ≤ b.toNat % 4096 ∧ b.toNat % 4096 - addr.toNat < data.size then
        data[b.toNat % 4096 - addr.toNat]
      else m.read b := by
  obtain ⟨-, rfl⟩ := writeBlock?_eq_some_iff.mp h
  exact m.get_paste addr.toNat data (place b)

theorem fill?_eq (m : Ram) (addr : UInt16) (len : Nat) (value : UInt8) :
    m.fill? addr len value = m.writeBlock? addr (Array.replicate len value) := by
  rw [fill?, writeBlock?, Array.size_replicate]

theorem read_of_fill? (h : m.fill? addr len value = some r) (b : UInt16) :
    r.read b =
      if addr.toNat ≤ b.toNat % 4096 ∧ b.toNat % 4096 < addr.toNat + len then value
      else m.read b := by
  have hreach : addr.toNat ≤ b.toNat % 4096 ∧ b.toNat % 4096 - addr.toNat < len ↔
      addr.toNat ≤ b.toNat % 4096 ∧ b.toNat % 4096 < addr.toNat + len :=
    and_congr_right fun hle => Nat.sub_lt_iff_lt_add' hle
  rw [fill?_eq] at h
  rw [read_of_writeBlock? h]
  simp only [Array.size_replicate, Array.getElem_replicate, dite_eq_ite, hreach]

theorem read_of_place (m : Ram) {k : Nat} (hk : k < 4096) (h : (place addr).val = k) :
    m.read addr = m.bytes[k] :=
  congrArg m.bytes.get (Fin.ext h : place addr = ⟨k, hk⟩)

theorem read_of_block? {bytes : Array UInt8} (h : m.block? addr len = some bytes) :
    bytes.size = len ∧ ∀ i < len, bytes[i]? = some (m.read (addr + UInt16.ofNat i)) := by
  obtain ⟨hholds, hbytes⟩ := Option.ite_none_right_eq_some.mp h
  have hholds : addr.toNat + len ≤ 4096 := hholds
  obtain rfl := Option.some.inj hbytes
  have hsize : (m.bytes.toArray.extract addr.toNat (addr.toNat + len)).size = len := by
    rw [Array.size_extract, Vector.size_toArray]
    omega
  refine ⟨hsize, fun i hi => ?_⟩
  have hinside : addr.toNat + i < 4096 := by omega
  rw [Array.getElem?_eq_getElem (hsize.symm ▸ hi), Array.getElem_extract,
    m.read_of_place hinside ((Machine.place_add addr i).trans (Nat.mod_eq_of_lt hinside))]
  rfl

theorem toNat_of_word? {w : UInt16} (h : m.word? addr = some w) :
    w.toNat = 256 * (m.read addr).toNat + (m.read (addr + 1)).toNat := by
  unfold word? at h
  split at h
  case isFalse => cases h
  case isTrue hholds =>
      have hholds : addr.toNat + 2 ≤ 4096 := hholds
      have hlt : addr.toNat < 4096 := by omega
      have hlt' : addr.toNat + 1 < 4096 := by omega
      have hhigh : m.read addr = m.bytes[addr.toNat] := m.read_of_place hlt (Nat.mod_eq_of_lt hlt)
      have hlow : m.read (addr + 1) = m.bytes[addr.toNat + 1] :=
        m.read_of_place hlt' ((Machine.place_add addr 1).trans (Nat.mod_eq_of_lt hlt'))
      have hword : bigEndian m.bytes[addr.toNat] m.bytes[addr.toNat + 1] = w := Option.some.inj h
      rw [← hword, toNat_bigEndian, hhigh, hlow]

/-! ## Changes -/

/-- What can be done to memory from outside. -/
inductive Change
  | write (addr : UInt16) (data : Array UInt8)
  | writeByte (addr : UInt16) (value : UInt8)
  | fill (addr : UInt16) (len : Nat) (value : UInt8)
  | load (program : Array UInt8)

/-- Memory after a change, if there is one. -/
def change? (m : Ram) : Change → Option Ram
  | .write addr data => m.writeBlock? addr data
  | .writeByte addr value => some (m.write addr value)
  | .fill addr len value => m.fill? addr len value
  | .load program => (m.loadProgram program).toOption

/-- Memory after one change after the other; a change without an answer leaves it as it is. -/
def after (m : Ram) (changes : List Change) : Ram :=
  changes.foldl (fun m c => (m.change? c).getD m) m

/-- The byte that a change brings to a place, if it lies inside memory and reaches so far. -/
def Change.brings (k : Nat) : Change → Option UInt8
  | .write addr data =>
    if addr.toNat + data.size ≤ 4096 ∧ addr.toNat ≤ k then data[k - addr.toNat]? else none
  | .writeByte addr value => if k = addr.toNat % 4096 then some value else none
  | .fill addr len value =>
    if addr.toNat + len ≤ 4096 ∧ addr.toNat ≤ k ∧ k < addr.toNat + len then some value else none
  | .load program => broughtTo k program

theorem brings_fill (k : Nat) (addr : UInt16) (len : Nat) (value : UInt8) :
    Change.brings k (.fill addr len value) =
      Change.brings k (.write addr (Array.replicate len value)) := by
  simp only [Change.brings, Array.size_replicate, Array.getElem?_replicate]
  by_cases hk : addr.toNat ≤ k
  · have hreach : k < addr.toNat + len ↔ k - addr.toNat < len := (Nat.sub_lt_iff_lt_add' hk).symm
    by_cases hroom : addr.toNat + len ≤ 4096
    · simp [hk, hroom, hreach]
    · simp [hroom]
  · simp [hk]

theorem get_change_write (m : Ram) (addr : UInt16) (data : Array UInt8) (k : Fin 4096) :
    ((m.writeBlock? addr data).getD m).bytes.get k =
      (Change.brings k (.write addr data)).getD (m.bytes.get k) := by
  simp only [writeBlock?, Change.brings]
  by_cases hroom : Holds addr data.size
  · have hroom' : addr.toNat + data.size ≤ 4096 := hroom
    rw [if_pos hroom]
    simp only [hroom', true_and]
    exact m.get_paste_getD addr.toNat data k
  · have hroom' : ¬ addr.toNat + data.size ≤ 4096 := hroom
    rw [if_neg hroom, if_neg fun h => hroom' h.1]
    rfl

/-- A change leaves at a place the byte that it brings there, or else the byte that was there. -/
theorem get_change (m : Ram) (c : Change) (k : Fin 4096) :
    ((m.change? c).getD m).bytes.get k = (c.brings k).getD (m.bytes.get k) := by
  cases c with
  | write addr data => exact m.get_change_write addr data k
  | fill addr len value =>
      rw [brings_fill]
      show ((m.fill? addr len value).getD m).bytes.get k = _
      rw [fill?_eq]
      exact m.get_change_write addr _ k
  | writeByte addr value =>
      show (m.write addr value).bytes.get k = (if _ then _ else _ : Option UInt8).getD _
      by_cases hk : k.val = addr.toNat % 4096
      · obtain rfl : k = place addr := Fin.ext hk
        rw [if_pos hk]
        exact m.read_write_same rfl value
      · rw [if_neg hk]
        exact Machine.get_write_other m (fun h => hk (congrArg Fin.val h)) value
  | load program =>
      show ((m.loadProgram program).toOption.getD m).bytes.get k =
        (broughtTo k.val program).getD _
      unfold loadProgram
      by_cases hroom : program.size ≤ programRoom
      · rw [if_pos hroom]
        exact m.get_paste_program hroom k
      · rw [if_neg hroom]
        have hnone : broughtTo k.val program = none := if_neg fun h => hroom h.1
        rw [hnone]
        rfl

theorem after_append_of_none {changes : List Change} {c : Change}
    (hc : (m.after changes).change? c = none) : m.after (changes ++ [c]) = m.after changes := by
  have hafter : m.after (changes ++ [c]) =
      ((m.after changes).change? c).getD (m.after changes) := List.foldl_append
  rw [hafter, hc]
  rfl

/-- After any changes the byte at a place is the one that was brought there last. -/
theorem get_after (changes : List Change) : ∀ (m : Ram) (k : Fin 4096),
    (m.after changes).bytes.get k =
      (changes.filterMap (Change.brings k)).getLast?.getD (m.bytes.get k) := by
  induction changes with
  | nil => exact fun _ _ => rfl
  | cons c rest ih =>
      intro m k
      show (((m.change? c).getD m).after rest).bytes.get k = _
      rw [ih, get_change, getLast?_filterMap_cons]

/-- Whatever was done to a new memory, it is an array of 4096 bytes, and single bytes, blocks and
words are ways to get at the same ones. The byte at an address is the one brought last to its place
by all that was done, or what is there at first; a change that has no answer is as if it had not
been asked for. A byte written at an address is seen at the addresses that are the same modulo 4096,
and only there. A block to write, to fill or to read, and a word, have no answer exactly if they
reach past the end of memory, an empty block included; otherwise a written block changes the bytes
from its address on, as many as it has, and what is read are the bytes that single reads say. -/
theorem after_array (changes : List Change) : ∃ m, fresh.after changes = m ∧
    (∀ b, m.read b = (changes.filterMap (Change.brings (b.toNat % 4096))).getLast?.getD
      (fresh.read b)) ∧
    (∀ c, m.change? c = none → fresh.after (changes ++ [c]) = m) ∧
    (∀ a value b, (m.write a value).read b =
      if b.toNat % 4096 = a.toNat % 4096 then value else m.read b) ∧
    (∀ addr data, (m.writeBlock? addr data = none ↔ 4096 < addr.toNat + data.size) ∧
      ∀ r, m.writeBlock? addr data = some r → ∀ b, r.read b =
        if h : addr.toNat ≤ b.toNat % 4096 ∧ b.toNat % 4096 - addr.toNat < data.size then
          data[b.toNat % 4096 - addr.toNat]
        else m.read b) ∧
    (∀ addr len value, (m.fill? addr len value = none ↔ 4096 < addr.toNat + len) ∧
      ∀ r, m.fill? addr len value = some r → ∀ b, r.read b =
        if addr.toNat ≤ b.toNat % 4096 ∧ b.toNat % 4096 < addr.toNat + len then value
        else m.read b) ∧
    (∀ addr len, (m.block? addr len = none ↔ 4096 < addr.toNat + len) ∧
      ∀ bytes, m.block? addr len = some bytes → bytes.size = len ∧
        ∀ i < len, bytes[i]? = some (m.read (addr + UInt16.ofNat i))) ∧
    ∀ addr, (m.word? addr = none ↔ 4096 < addr.toNat + 2) ∧
      ∀ w, m.word? addr = some w →
        w.toNat = 256 * (m.read addr).toNat + (m.read (addr + 1)).toNat := by
  refine ⟨_, rfl, fun b => get_after changes fresh (place b), fun c => after_append_of_none,
    fun a value b => read_write _ a b value,
    fun addr data => ⟨writeBlock?_eq_none_iff, fun r => read_of_writeBlock?⟩,
    fun addr len value => ⟨fill?_eq_none_iff, fun r => read_of_fill?⟩,
    fun addr len => ⟨block?_eq_none_iff, fun bytes => read_of_block?⟩,
    fun addr => ⟨?_, fun w => toNat_of_word?⟩⟩
  exact (Machine.word?_eq_none_iff _ addr).trans Nat.lt_succ_iff.symm

end ChipEight.Ram
