import ChipEight.Instr.Listing
import ChipEight.Note
import ChipEight.Proofs.Text.Numbers

/-!
# Instructions are read back from their text

The 35 instructions share 20 names, and eleven of them are loads. What tells them apart is the
operands, and an operand shows its kind by its first characters and its number of digits
(`Operand.read_text`). Only `V0` is the text of two operands, of register 0 and of the mark in a
jump with an offset; that mark is taken for the register, and since a jump has no other use for a
register the instruction is still known (`ofParts?_parts`). So the text of an instruction is read
back to the instruction, whatever numbers it holds (`read?_text`).

A line of a listing, and a line of a trace, has the text in its last column, which begins after the
first two spaces in a row (`lastColumn`).
-/

namespace ChipEight.Instr

open Digits

/-! ## Plain characters -/

/-- A character that does not end a name or an operand. -/
def isPlain (c : Char) : Bool :=
  c != ' ' && c != ','

theorem ne_of_plain {cs : List Char} (h : cs.all isPlain = true) :
    ∀ c ∈ cs, c ≠ ' ' ∧ c ≠ ',' := by
  intro c hc
  simpa [isPlain] using List.all_eq_true.mp h c hc

theorem plain_hex (width n : Nat) : (hex width n).toList.all isPlain = true :=
  List.all_eq_true.mpr (of_mem_hex (by decide))

theorem plain_upperHex (width n : Nat) : (upperHex width n).toList.all isPlain = true :=
  List.all_eq_true.mpr (of_mem_upperHex (by decide))

theorem plain_decimal (n : Nat) : (decimal n).toList.all isPlain = true :=
  List.all_eq_true.mpr (of_mem_decimal (by decide))

/-! ## Operands -/

namespace Operand

/-- The operand that an operand is read back as: all but one are read back as themselves. -/
def settled : Operand → Operand
  | mark word => if word = "V0" then register 0 else mark word
  | o => o

/-- Reads an operand. A byte has two digits, an address at least three. -/
def read : List Char → Operand
  | 'V' :: ds => register (UInt8.ofNat (hexValue ds))
  | '0' :: 'x' :: ds =>
    if ds.length = 2 then byte (UInt8.ofNat (hexValue ds))
    else address (UInt16.ofNat (hexValue ds))
  | cs =>
    match Numeral.digits? cs with
    | some n => count (UInt8.ofNat n)
    | none => mark (String.ofList cs)

/-- The marks that instructions have. -/
def marks : List String :=
  ["V0", "I", "DT", "ST", "K", "F", "B", "[I]"]

/-- An operand as instructions have it. -/
def Listed : Operand → Prop
  | mark word => word ∈ marks
  | _ => True

theorem read_hex (cs : List Char) :
    read ("0x".toList ++ cs) = if cs.length = 2 then byte (UInt8.ofNat (hexValue cs))
      else address (UInt16.ofNat (hexValue cs)) :=
  rfl

theorem read_decimal (n : Nat) :
    read (decimal n).toList = count (UInt8.ofNat n) := by
  -- neither of the forms before it: no digit is `V` or `x`
  have hother : ∀ c ∈ (decimal n).toList, c ≠ 'V' ∧ c ≠ 'x' := of_mem_decimal (by decide)
  have hvalue := Numeral.digits?_decimal n
  generalize (decimal n).toList = cs at *
  unfold read
  split
  case h_1 => exact absurd rfl (hother 'V' List.mem_cons_self).1
  case h_2 => exact absurd rfl (hother 'x' (List.mem_cons_of_mem _ List.mem_cons_self)).2
  case h_3 => rw [hvalue]

theorem read_text {o : Operand} (h : o.Listed) : read o.text.toList = o.settled := by
  cases o with
  | register x =>
      rw [text, String.toList_append]
      show register (UInt8.ofNat (hexValue (upperHex 1 x.toNat).toList)) = register x
      rw [hexValue_upperHex, UInt8.ofNat_toNat]
  | byte n =>
      have hlength : (hex 2 n.toNat).toList.length = 2 := length_hex_of_lt (by decide) n.toNat_lt
      rw [text, String.toList_append, read_hex, if_pos hlength, hexValue_hex, UInt8.ofNat_toNat]
      rfl
  | address a =>
      have hlength : (hex 3 a.toNat).toList.length ≠ 2 :=
        Nat.ne_of_gt (width_le_length_hex 3 a.toNat)
      rw [text, String.toList_append, read_hex, if_neg hlength, hexValue_hex, UInt16.ofNat_toNat]
      rfl
  | count n =>
      show read (decimal n.toNat).toList = count n
      rw [read_decimal, UInt8.ofNat_toNat]
  | mark word =>
      have hmarks : ∀ word ∈ marks, read word.toList = settled (mark word) := by decide
      exact hmarks word h

/-- The text of an operand has no space and no comma, so that a list of them can be cut. -/
theorem plain_text {o : Operand} (h : o.Listed) : o.text.toList.all isPlain = true := by
  cases o with
  | register x =>
      rw [text, String.toList_append, List.all_append, plain_upperHex]
      rfl
  | byte n =>
      rw [text, String.toList_append, List.all_append, plain_hex]
      rfl
  | address a =>
      rw [text, String.toList_append, List.all_append, plain_hex]
      rfl
  | count n => exact plain_decimal n.toNat
  | mark word =>
      have hmarks : ∀ word ∈ marks, word.toList.all isPlain = true := by decide
      exact hmarks word h

end Operand

theorem listed_of_mem_operands (i : Instr) : ∀ o ∈ i.operands, o.Listed := by
  cases i <;> simp [operands, Operand.Listed, Operand.marks]

/-- Reads operands between commas; the spaces do not count. -/
def readOperands (cs : List Char) : List Operand :=
  ((cs.filter (· ≠ ' ')).splitOn ',').map Operand.read

theorem filter_joined {texts : List (List Char)} (h : ∀ t ∈ texts, ∀ c ∈ t, c ≠ ' ') :
    ([',', ' '].intercalate texts).filter (· ≠ ' ') = [','].intercalate texts := by
  have hwhole : ∀ t ∈ texts, t.filter (· ≠ ' ') = t := fun t ht =>
    List.filter_eq_self.mpr fun c hc => decide_eq_true (h t ht c hc)
  induction texts with
  | nil => rfl
  | cons t texts ih =>
      obtain ⟨hhead, htail⟩ := List.forall_mem_cons.mp hwhole
      cases texts with
      | nil => rw [List.intercalate_singleton, List.intercalate_singleton, hhead]
      | cons t' texts =>
          rw [List.intercalate_cons_cons, List.intercalate_cons_cons, List.filter_append,
            List.filter_append, hhead, ih (fun u hu => h u (List.mem_cons_of_mem _ hu)) htail]
          rfl

theorem readOperands_joined {os : List Operand} (hos : ∀ o ∈ os, o.Listed) (hne : os ≠ [])
    (k : Nat) :
    readOperands (List.replicate k ' ' ++ (", ".intercalate (os.map Operand.text)).toList) =
      os.map Operand.settled := by
  have hplain : ∀ t ∈ os.map fun o => o.text.toList, ∀ c ∈ t, c ≠ ' ' ∧ c ≠ ',' := by
    intro t ht
    obtain ⟨o, ho, rfl⟩ := List.mem_map.mp ht
    exact ne_of_plain (Operand.plain_text (hos o ho))
  have hspaces : (List.replicate k ' ').filter (· ≠ ' ') = [] :=
    List.filter_eq_nil_iff.mpr fun c hc => by
      rw [List.eq_of_mem_replicate hc]
      decide
  have hjoined : (", ".intercalate (os.map Operand.text)).toList =
      [',', ' '].intercalate (os.map fun o => o.text.toList) := by
    rw [String.toList_intercalate, List.map_map]
    rfl
  rw [readOperands, hjoined, List.filter_append, hspaces, List.nil_append,
    filter_joined fun t ht c hc => (hplain t ht c hc).1,
    List.splitOn_intercalate ',' (fun t ht hc => (hplain t ht _ hc).2 rfl)
      (mt List.map_eq_nil_iff.mp hne), List.map_map]
  exact List.map_congr_left fun o ho => Operand.read_text (hos o ho)

/-! ## Names and operands -/

def oneAddress? (make : UInt16 → Instr) : List Operand → Option Instr
  | [.address a] => some (make a)
  | _ => none

def oneRegister? (make : UInt8 → Instr) : List Operand → Option Instr
  | [.register x] => some (make x)
  | _ => none

def twoRegisters? (make : UInt8 → UInt8 → Instr) : List Operand → Option Instr
  | [.register x, .register y] => some (make x y)
  | _ => none

/-- A name for two instructions: the second operand is a byte or a register. -/
def registerAnd? (withByte withRegister : UInt8 → UInt8 → Instr) : List Operand → Option Instr
  | [.register x, .byte n] => some (withByte x n)
  | [.register x, .register y] => some (withRegister x y)
  | _ => none

def jump? : List Operand → Option Instr
  | [.address a] => some (jump a)
  | [.register 0, .address a] => some (jumpOffset a)
  | _ => none

def add? : List Operand → Option Instr
  | [.mark "I", .register x] => some (addIndex x)
  | os => registerAnd? addByte add os

def load? : List Operand → Option Instr
  | [.mark "I", .address a] => some (loadIndex a)
  | [.register x, .mark "DT"] => some (readDelay x)
  | [.register x, .mark "K"] => some (awaitKey x)
  | [.register x, .mark "[I]"] => some (load x)
  | [.mark "DT", .register x] => some (setDelay x)
  | [.mark "ST", .register x] => some (setSound x)
  | [.mark "F", .register x] => some (glyph x)
  | [.mark "B", .register x] => some (digits x)
  | [.mark "[I]", .register x] => some (store x)
  | os => registerAnd? loadByte copy os

/-- The instruction with a name and operands as they are read. -/
def ofParts? (name : String) (os : List Operand) : Option Instr :=
  match name with
  | "CLS" => some clear
  | "RET" => some ret
  | "SYS" => oneAddress? sys os
  | "JP" => jump? os
  | "CALL" => oneAddress? call os
  | "SE" => registerAnd? skipEqByte skipEq os
  | "SNE" => registerAnd? skipNeByte skipNe os
  | "LD" => load? os
  | "ADD" => add? os
  | "OR" => twoRegisters? bitOr os
  | "AND" => twoRegisters? bitAnd os
  | "XOR" => twoRegisters? bitXor os
  | "SUB" => twoRegisters? sub os
  | "SHR" => oneRegister? shiftRight os
  | "SUBN" => twoRegisters? subFrom os
  | "SHL" => oneRegister? shiftLeft os
  | "RND" =>
    match os with
    | [.register x, .byte n] => some (random x n)
    | _ => none
  | "DRW" =>
    match os with
    | [.register x, .register y, .count n] => some (draw x y n)
    | _ => none
  | "SKP" => oneRegister? skipPressed os
  | "SKNP" => oneRegister? skipReleased os
  | _ => none

/-- A name and its operands are those of one instruction only. -/
theorem ofParts?_parts (i : Instr) :
    ofParts? i.name (i.operands.map Operand.settled) = some i := by
  cases i <;> rfl

/-! ## Texts -/

/-- Reads the text of an instruction: a name up to the first space, then the operands. -/
def read? (text : String) : Option Instr :=
  ofParts? (String.ofList (text.toList.takeWhile (· ≠ ' ')))
    (readOperands (text.toList.dropWhile (· ≠ ' ')))

theorem read?_column {word : String} (hword : word.toList.all isPlain = true)
    (hlen : word.length < 5) (rest : String) :
    read? (column word ++ rest) = ofParts? word
      (readOperands (List.replicate (5 - word.length) ' ' ++ rest.toList)) := by
  obtain ⟨k, hk⟩ : ∃ k, 5 - word.length = k + 1 := ⟨4 - word.length, by omega⟩
  have hin : ∀ c ∈ word.toList, decide (c ≠ ' ') = true := fun c hc =>
    decide_eq_true (ne_of_plain hword c hc).1
  rw [read?, column, String.toList_append, String.toList_append, String.toList_ofList, hk,
    List.append_assoc, List.takeWhile_append_of_pos hin, List.dropWhile_append_of_pos hin,
    List.replicate_succ, List.cons_append, List.takeWhile_cons_of_neg (by decide),
    List.dropWhile_cons_of_neg (by decide), List.append_nil, String.ofList_toList]

theorem plain_name (i : Instr) : i.name.toList.all isPlain = true ∧ i.name.length < 5 := by
  cases i <;> simp only [name] <;> decide

theorem eq_of_no_operands {i : Instr} (h : i.operands = []) : i = clear ∨ i = ret := by
  cases i <;> simp [operands] at h ⊢

/-- The text of an instruction is read back to it. -/
theorem read?_text (i : Instr) : read? i.text = some i := by
  obtain ⟨hname, hlen⟩ := i.plain_name
  cases hos : i.operands with
  | nil =>
      -- a name alone is not filled up, and its column has no end to look for
      rcases eq_of_no_operands hos with rfl | rfl
      · rfl
      · rfl
  | cons o os =>
      have htext : i.text = column i.name ++ ", ".intercalate (i.operands.map Operand.text) := by
        rw [text, hos]
      have hne : i.operands ≠ [] := hos ▸ List.cons_ne_nil o os
      rw [htext, read?_column hname hlen, readOperands_joined i.listed_of_mem_operands hne,
        ofParts?_parts]

end Instr

/-! ## Lines -/

namespace Listing

open Digits

/-- What follows the first two spaces in a row. -/
def afterGap (cs : List Char) : List Char :=
  [' '].intercalate (((cs.splitOn ' ').dropWhile (· ≠ [])).drop 1)

/-- The last column of a line of a listing or of a trace. -/
def lastColumn (line : String) : String :=
  String.ofList (afterGap line.toList)

theorem afterGap_word {word : List Char} (hne : word ≠ []) (hword : word.all Instr.isPlain = true)
    (cs : List Char) : afterGap (word ++ ' ' :: cs) = afterGap cs := by
  have hsplit : (word ++ ' ' :: cs).splitOn ' ' = word :: cs.splitOn ' ' :=
    List.splitOn_append_cons_self_of_not_mem (fun h => (Instr.ne_of_plain hword _ h).1 rfl) cs
  have hdrop : (word :: cs.splitOn ' ').dropWhile (· ≠ []) = (cs.splitOn ' ').dropWhile (· ≠ []) :=
    List.dropWhile_cons_of_pos (decide_eq_true hne)
  rw [afterGap, hsplit, hdrop, afterGap]

theorem afterGap_space (cs : List Char) : afterGap (' ' :: cs) = cs := by
  have hsplit : (' ' :: cs).splitOn ' ' = [] :: cs.splitOn ' ' :=
    List.splitOn_append_cons_self_of_not_mem List.not_mem_nil cs
  rw [afterGap, hsplit, List.dropWhile_cons_of_neg (by decide)]
  exact List.intercalate_splitOn ' '

theorem afterGap_columns {sign : String} (hsign : sign.toList.all Instr.isPlain = true)
    (addr op : Nat) (text : String) :
    afterGap (sign ++ hex 3 addr ++ ": " ++ hex 4 op ++ "  " ++ text).toList = text.toList := by
  have hop : (hex 4 op).toList ≠ [] :=
    List.ne_nil_of_length_pos (Nat.lt_of_lt_of_le (by decide) (width_le_length_hex 4 op))
  have haddr : (sign.toList ++ (hex 3 addr).toList ++ [':']).all Instr.isPlain = true := by
    rw [List.all_append, List.all_append, hsign, Instr.plain_hex]
    rfl
  have hline : (sign ++ hex 3 addr ++ ": " ++ hex 4 op ++ "  " ++ text).toList =
      (sign.toList ++ (hex 3 addr).toList ++ [':']) ++
        ' ' :: ((hex 4 op).toList ++ ' ' :: ' ' :: text.toList) := by
    simp [String.toList_append]
  rw [hline, afterGap_word (List.append_ne_nil_of_right_ne_nil _ (List.cons_ne_nil _ _)) haddr,
    afterGap_word hop (Instr.plain_hex 4 op), afterGap_space]

/-- The last column of a line is the text of the instruction, or shows the opcode as data. -/
theorem lastColumn_line (e : Entry) :
    lastColumn (line e) = match e.instr with
      | some i => i.text
      | none => Instr.column "DW" ++ "0x" ++ hex 4 e.opcode.toNat := by
  have hplain : "".toList.all Instr.isPlain = true := rfl
  have hgap := afterGap_columns hplain e.addr.toNat e.opcode.toNat (match e.instr with
    | some i => i.text
    | none => Instr.column "DW" ++ "0x" ++ hex 4 e.opcode.toNat)
  rw [String.empty_append] at hgap
  exact (congrArg String.ofList hgap).trans String.ofList_toList

theorem lastColumn_executing (pc op : UInt16) (i : Instr) :
    lastColumn (Note.executing pc op i).line = i.text := by
  have hline : ∀ text : String,
      ("TRACE" ++ " " ++ "chip8::interpreter" ++ ": " ++ text).toList =
        "TRACE".toList ++ ' ' :: ("chip8::interpreter:".toList ++ ' ' :: text.toList) := by
    intro text
    rw [String.toList_append]
    rfl
  show String.ofList (afterGap ("TRACE" ++ " " ++ "chip8::interpreter" ++ ": " ++
    ("0x" ++ hex 3 pc.toNat ++ ": " ++ hex 4 op.toNat ++ "  " ++ i.text)).toList) = i.text
  rw [hline, afterGap_word (by decide) rfl, afterGap_word (by decide) rfl, afterGap_columns rfl,
    String.ofList_toList]

theorem read?_lastColumn (e : Entry) : Instr.read? (lastColumn (line e)) = e.instr := by
  rw [lastColumn_line]
  cases e.instr with
  | some i => exact i.read?_text
  | none =>
      -- no instruction has the name `DW`
      show Instr.read? (Instr.column "DW" ++ "0x" ++ _) = none
      rw [String.append_assoc, Instr.read?_column rfl (by decide)]
      rfl

end Listing

/-- No two instructions have the same text, whatever numbers they hold. So the last column of a
line in a listing tells the instruction and all its operands, and that of an opcode without meaning
is not the text of any; and so does the last column of a line in a trace. -/
theorem Instr.text_unambiguous :
    (∀ i j : Instr, i.text = j.text → i = j) ∧
    (∀ (e : Entry) (i : Instr), Listing.lastColumn (Listing.line e) = i.text ↔ e.instr = some i) ∧
    ∀ (pc op : UInt16) (i j : Instr),
      Listing.lastColumn (Note.executing pc op i).line = j.text ↔ i = j := by
  have hinj : ∀ i j : Instr, i.text = j.text → i = j := fun i j h =>
    Option.some.inj (i.read?_text.symm.trans ((congrArg read? h).trans j.read?_text))
  refine ⟨hinj, fun e i => ⟨fun h => ?_, fun h => ?_⟩, fun pc op i j => ⟨fun h => ?_, fun h => ?_⟩⟩
  · rw [← Listing.read?_lastColumn, h, read?_text]
  · rw [Listing.lastColumn_line, h]
  · exact hinj i j ((Listing.lastColumn_executing pc op i).symm.trans h)
  · rw [Listing.lastColumn_executing, h]

/-- Of the two jumps to an address only the one with an offset has this text, and it is found in a
trace too. -/
theorem Instr.text_unambiguous_offset :
    (Instr.jumpOffset 0x300).text = "JP   V0, 0x300" ∧
    (∀ j : Instr, j.text = "JP   V0, 0x300" → j = .jumpOffset 0x300) ∧
    Listing.lastColumn (Listing.line ⟨0x200, 0xb300, some (.jumpOffset 0x300)⟩) =
      "JP   V0, 0x300" ∧
    Listing.lastColumn (Note.executing 0x400 0xb300 (.jumpOffset 0x300)).line =
      "JP   V0, 0x300" := by
  have htext : (Instr.jumpOffset 0x300).text = "JP   V0, 0x300" := rfl
  obtain ⟨hinj, hlisted, htraced⟩ := text_unambiguous
  exact ⟨htext, fun j h => hinj j _ h, (hlisted _ (.jumpOffset 0x300)).mpr rfl,
    (htraced _ _ _ (.jumpOffset 0x300)).mpr rfl⟩

end ChipEight
