import ChipEight.Text.Number
import Mathlib.Algebra.Group.Nat.Defs

/-!
# Numbers are read back

A number is shown by its digits, most significant first, with zeros in front or none. A decimal
number is read back as a numeral (`digits?_decimal`). Hexadecimal digits come in either case;
`hexValue` reads both, and a number is read back from its lower-case and from its upper-case form
(`hexValue_hex`, `hexValue_upperHex`). So two numbers that are shown alike are the same.

What is true of every digit is true of every character of a number (`of_mem_hex`,
`of_mem_upperHex`, `of_mem_decimal`).
-/

namespace ChipEight

namespace Digits

/-! ## The characters of a number -/

theorem mem_toDigits {base : Nat} (hbase : 1 < base) {n : Nat} {c : Char}
    (hc : c ∈ Nat.toDigits base n) : ∃ d < base, c = Nat.digitChar d := by
  induction n using Nat.strongRecOn with
  | ind n ih =>
      rw [Nat.toDigits_eq_if hbase] at hc
      split at hc
      case isTrue hlt => exact ⟨n, hlt, List.mem_singleton.mp hc⟩
      case isFalse hge =>
          rcases List.mem_append.mp hc with hc | hc
          · exact ih _ (Nat.div_lt_self (by omega) hbase) hc
          · exact ⟨n % base, Nat.mod_lt n (by omega), List.mem_singleton.mp hc⟩

theorem mem_padded {width n : Nat} {c : Char} (hc : c ∈ padded 16 width n) :
    ∃ d < 16, c = Nat.digitChar d := by
  rcases List.mem_append.mp hc with hc | hc
  · exact ⟨0, by decide, List.eq_of_mem_replicate hc⟩
  · exact mem_toDigits (by decide) hc

variable {P : Char → Prop} {width n : Nat}

theorem of_mem_hex (hP : ∀ d < 16, P (Nat.digitChar d)) : ∀ c ∈ (hex width n).toList, P c := by
  intro c hc
  rw [hex, String.toList_ofList] at hc
  obtain ⟨d, hd, rfl⟩ := mem_padded hc
  exact hP d hd

theorem of_mem_upperHex (hP : ∀ d < 16, P (Nat.digitChar d).toUpper) :
    ∀ c ∈ (upperHex width n).toList, P c := by
  intro c hc
  rw [upperHex, String.toList_ofList] at hc
  obtain ⟨lower, hlower, rfl⟩ := List.mem_map.mp hc
  obtain ⟨d, hd, rfl⟩ := mem_padded hlower
  exact hP d hd

theorem of_mem_decimal (hP : ∀ d < 10, P (Nat.digitChar d)) :
    ∀ c ∈ (decimal n).toList, P c := by
  intro c hc
  rw [decimal, String.toList_ofList] at hc
  obtain ⟨d, hd, rfl⟩ := mem_toDigits (by decide) hc
  exact hP d hd

theorem length_hex_of_lt (hwidth : 0 < width) (hn : n < 16 ^ width) :
    (hex width n).toList.length = width := by
  have hshort : (Nat.toDigits 16 n).length ≤ width :=
    (Nat.length_toDigits_le_iff (by decide) hwidth).mpr hn
  rw [hex, String.toList_ofList, length_padded, Nat.max_eq_left hshort]

theorem width_le_length_hex (width n : Nat) : width ≤ (hex width n).toList.length := by
  rw [hex, String.toList_ofList, length_padded]
  exact Nat.le_max_left _ _

/-! ## Hexadecimal numbers -/

/-- The number that a digit stands for, in either case. -/
def digitValue (c : Char) : Nat :=
  if c.toNat ≤ 57 then c.toNat - 48 else if c.toNat ≤ 70 then c.toNat - 55 else c.toNat - 87

/-- The number that hexadecimal digits stand for, the first being the most significant. -/
def hexValue (cs : List Char) : Nat :=
  cs.foldl (fun n c => 16 * n + digitValue c) 0

/-- A way of writing digits that leaves their value. -/
def Keeps (f : Char → Char) : Prop :=
  ∀ d < 16, digitValue (f (Nat.digitChar d)) = d

theorem keeps_id : Keeps id := by
  unfold Keeps
  decide

theorem keeps_toUpper : Keeps Char.toUpper := by
  unfold Keeps
  decide

theorem hexValue_append_singleton (cs : List Char) (c : Char) :
    hexValue (cs ++ [c]) = 16 * hexValue cs + digitValue c := by
  rw [hexValue, List.foldl_append]
  rfl

variable {f : Char → Char}

theorem hexValue_toDigits (hf : Keeps f) (n : Nat) :
    hexValue ((Nat.toDigits 16 n).map f) = n := by
  induction n using Nat.strongRecOn with
  | ind n ih =>
      rw [Nat.toDigits_eq_if (by decide)]
      split
      case isTrue hlt =>
          show 16 * 0 + digitValue (f (Nat.digitChar n)) = n
          rw [hf n hlt, Nat.mul_zero, Nat.zero_add]
      case isFalse hge =>
          have hdiv : n / 16 < n := Nat.div_lt_self (by omega) (by decide)
          have hmod : n % 16 < 16 := Nat.mod_lt n (by decide)
          rw [List.map_append, List.map_singleton, hexValue_append_singleton, ih _ hdiv,
            hf _ hmod, Nat.div_add_mod]

theorem hexValue_zeros (hf : Keeps f) (k : Nat) (cs : List Char) :
    hexValue (((List.replicate k '0') ++ cs).map f) = hexValue (cs.map f) := by
  induction k with
  | zero => rfl
  | succ k ih =>
      have hdigit : digitValue (f '0') = 0 := hf 0 (by decide)
      have hzero : 16 * 0 + digitValue (f '0') = 0 := by
        rw [hdigit, Nat.mul_zero]
      rw [List.replicate_succ, List.cons_append, List.map_cons, hexValue, List.foldl_cons, hzero]
      exact ih

theorem hexValue_padded (hf : Keeps f) (width n : Nat) :
    hexValue ((padded 16 width n).map f) = n := by
  unfold padded
  rw [hexValue_zeros hf, hexValue_toDigits hf]

theorem hexValue_hex (width n : Nat) : hexValue (hex width n).toList = n := by
  rw [hex, String.toList_ofList, ← List.map_id (padded 16 width n)]
  exact hexValue_padded keeps_id width n

theorem hexValue_upperHex (width n : Nat) : hexValue (upperHex width n).toList = n := by
  rw [upperHex, String.toList_ofList]
  exact hexValue_padded keeps_toUpper width n

end Digits

/-! ## Decimal numbers -/

namespace Numeral

theorem natural?_of_digits {cs : List Char} (h : ∀ c ∈ cs, c.isDigit = true) :
    natural? cs = digits? cs := by
  unfold natural?
  split
  · exact absurd (h '+' List.mem_cons_self) (by decide)
  · rfl

theorem integer?_of_digits {cs : List Char} (h : ∀ c ∈ cs, c.isDigit = true) :
    integer? cs = (digits? cs).map fun n => (n : Int) := by
  unfold integer?
  split
  · exact absurd (h '-' List.mem_cons_self) (by decide)
  · rw [natural?_of_digits h]

theorem isDigit_of_decimal {n : Nat} : ∀ c ∈ (Digits.decimal n).toList, c.isDigit = true :=
  Digits.of_mem_decimal (by decide)

/-- A number that was written down is read back. -/
theorem digits?_decimal (n : Nat) : digits? (Digits.decimal n).toList = some n := by
  have hall : (Digits.decimal n).toList.all Char.isDigit = true :=
    List.all_eq_true.mpr isDigit_of_decimal
  have hne : (Digits.decimal n).toList ≠ [] := by
    rw [Digits.decimal, String.toList_ofList]
    exact Nat.toDigits_ne_nil
  unfold digits?
  rw [if_pos ⟨hne, hall⟩, ← Nat.ofDigitChars_eq_foldl, Digits.decimal, String.toList_ofList,
    Nat.ofDigitChars_toDigits (by decide) (by decide)]

end Numeral

end ChipEight
