import ChipEight.CommandLine.Options
import ChipEight.Proofs.Text.Numbers
import Mathlib.Data.List.Basic
import Mathlib.Data.List.Nodup

/-!
# Options written out

The same options can be given in many words and in any order. One way is always there: each
option with its long name, and its value behind an equals sign. Words of this kind are read one
by one, each without a look at its neighbours (`word_spelled`), so any options that do not come
twice are read back as they were written (`read_spelled`). Asking for help or for the version is
no option in this sense, since the reading ends there.
-/

namespace ChipEight

namespace CommandLine

/-! ## Names and values -/

namespace Switch

/-- Every option. -/
def all : List Switch :=
  table.map Prod.fst

/-- The long name of an option. -/
def name (s : Switch) : String :=
  ((table.find? fun e => e.1 = s).map fun e => e.2.1).getD ""

theorem mem_all (s : Switch) : s ∈ all := by
  cases s <;> decide

theorem nodup_all : all.Nodup := by
  decide

theorem ofLong?_name (s : Switch) : ofLong? s.name = some s := by
  cases s <;> decide

theorem name_plain (s : Switch) : s.name.toList ≠ [] ∧ ∀ c ∈ s.name.toList, c ≠ '=' := by
  have hname : (!s.name.toList.isEmpty && s.name.toList.all fun c => c != '=') = true := by
    cases s <;> rfl
  obtain ⟨hne, hall⟩ := Bool.and_eq_true_iff.mp hname
  refine ⟨?_, fun c hc => bne_iff_ne.mp (List.all_eq_true.mp hall c hc)⟩
  intro hnil
  rw [hnil] at hne
  cases hne

end Switch

namespace Value

/-- The text of a value, if there is one. -/
def text? : Value → Option String
  | .present => none
  | .path p => some p
  | .number n => some (Digits.decimal n)
  | .threshold t => some (t.elim "off" fun l => l.name)

/-- The values that options of some form take. -/
def Fits : Switch.Form → Value → Prop
  | .flag, .present => True
  | .path, .path p => p ≠ ""
  | .natural, .number n => n < wordLimit
  | .small max, .number n => n ≤ max
  | .threshold, .threshold _ => True
  | _, _ => False

end Value

theorem read?_threshold (t : Threshold) :
    Threshold.read? (t.elim "off" fun l => l.name) = some t := by
  rcases t with - | l
  · decide +kernel
  · cases l <;> decide +kernel

theorem value?_text {form : Switch.Form} {v : Value} {text : String} (hv : v.Fits form)
    (ht : v.text? = some text) : value? form text = some v := by
  cases form with
  | flag =>
      cases v with
      | present => cases ht
      | _ => exact hv.elim
  | path =>
      cases v with
      | path p =>
          obtain rfl := Option.some.inj ht
          have hne : p ≠ "" := hv
          have hp : p.isEmpty = false := by simpa using hne
          show (if p.isEmpty then none else some (Value.path p)) = _
          rw [hp, if_neg Bool.false_ne_true]
      | _ => exact hv.elim
  | natural =>
      cases v with
      | number n =>
          obtain rfl := Option.some.inj ht
          show ((Numeral.natural? _).filter _).map _ = _
          rw [Numeral.natural?_of_digits Numeral.isDigit_of_decimal, Numeral.digits?_decimal]
          simp [show n < wordLimit from hv]
      | _ => exact hv.elim
  | small max =>
      cases v with
      | number n =>
          obtain rfl := Option.some.inj ht
          have hn : n ≤ max := hv
          unfold value?
          rw [Numeral.integer?_of_digits Numeral.isDigit_of_decimal, Numeral.digits?_decimal]
          simp [hn]
      | _ => exact hv.elim
  | threshold =>
      cases v with
      | threshold t =>
          obtain rfl := Option.some.inj ht
          show (Threshold.read? _).map _ = _
          rw [read?_threshold]
          rfl
      | _ => exact hv.elim

/-! ## Words -/

/-- An option with its long name, and with its value behind an equals sign. -/
def spelled (e : Switch × Value) : String :=
  "--" ++ e.1.name ++ (e.2.text?.elim "" fun text => "=" ++ text)

/-- An option that takes the value it is given, and does not ask for help or the version. -/
def Speaks (e : Switch × Value) : Prop :=
  e.1 ≠ .help ∧ e.1 ≠ .version ∧ e.2.Fits e.1.form

theorem toList_spelled (e : Switch × Value) : (spelled e).toList =
    '-' :: '-' :: (e.1.name.toList ++ e.2.text?.elim [] fun text => '=' :: text.toList) := by
  unfold spelled
  cases e.2.text? <;> simp

theorem spelled_ne (e : Switch × Value) : spelled e ≠ "--" := by
  intro h
  have hlist := congrArg String.toList h
  rw [toList_spelled] at hlist
  obtain ⟨hname, -⟩ := e.1.name_plain
  have hnil : e.1.name.toList ++ _ = [] := List.cons.inj (List.cons.inj hlist).2 |>.2
  exact hname (List.append_eq_nil_iff.mp hnil).1

theorem takeWhile_name (s : Switch) (text : List Char) (h : text.head?.all (· = '=') = true) :
    (s.name.toList ++ text).takeWhile (· ≠ '=') = s.name.toList := by
  obtain ⟨-, hname⟩ := s.name_plain
  rw [List.takeWhile_append_of_pos fun c hc => decide_eq_true (hname c hc)]
  cases text with
  | nil => exact List.append_nil _
  | cons c text =>
      obtain rfl : c = '=' := by simpa using h
      exact List.append_nil _

theorem long_name (g : Given) (s : Switch) : long g s.name.toList = giveAlone g s := by
  have hname := takeWhile_name s [] rfl
  rw [List.append_nil] at hname
  unfold long
  simp only [hname, String.ofList_toList, Switch.ofLong?_name, List.drop_length]

theorem long_name_text (g : Given) (s : Switch) (text : String) :
    long g (s.name.toList ++ '=' :: text.toList) = giveText g s text := by
  have hname := takeWhile_name s ('=' :: text.toList) rfl
  unfold long
  simp only [hname, String.ofList_toList, Switch.ofLong?_name, List.drop_left]

theorem giveAlone_flag {s : Switch} (hhelp : s ≠ .help) (hversion : s ≠ .version)
    (hform : s.form = .flag) (g : Given) : giveAlone g s = give g s .present := by
  unfold giveAlone
  split
  · exact absurd rfl hhelp
  · exact absurd rfl hversion
  · exact if_pos hform

/-- A word of this kind gives its option, whatever was given before. -/
theorem word_spelled {e : Switch × Value} (he : Speaks e) (g : Given) :
    word g (spelled e) = give g e.1 e.2 := by
  obtain ⟨hhelp, hversion, hfits⟩ := he
  unfold word
  rw [toList_spelled]
  show long g _ = _
  cases htext : e.2.text? with
  | none =>
      obtain ⟨s, v⟩ := e
      cases v with
      | present =>
          have hform : s.form = .flag := by
            revert hfits
            show Value.Fits s.form .present → _
            cases s.form <;> first | exact fun _ => rfl | exact fun h => h.elim
          show long g (s.name.toList ++ []) = _
          rw [List.append_nil, long_name, giveAlone_flag hhelp hversion hform]
      | _ => cases htext
  | some text =>
      show long g (e.1.name.toList ++ '=' :: text.toList) = _
      rw [long_name_text, giveText, value?_text hfits htext]

theorem give_of_new {g : Given} {s : Switch} (h : s ∉ g.map Prod.fst) (v : Value) :
    give g s v = .ready (g ++ [(s, v)]) := by
  have hnew : ¬ (g.any fun e => e.1 = s) = true := by
    rw [List.any_eq_true]
    rintro ⟨e, he, hs⟩
    exact h (List.mem_map.mpr ⟨e, he, of_decide_eq_true hs⟩)
  exact if_neg hnew

theorem readFrom_spelled : ∀ {options g : Given}, (∀ e ∈ options, Speaks e) →
    ((g ++ options).map Prod.fst).Nodup →
      readFrom (.ready g) (options.map spelled) = .options (g ++ options)
  | [], g, _, _ => by
      rw [List.append_nil]
      rfl
  | e :: options, g, hspeaks, hnodup => by
      have hnew : e.1 ∉ g.map Prod.fst := by
        rw [List.map_append, List.nodup_append] at hnodup
        intro hmem
        exact hnodup.2.2 _ hmem _ List.mem_cons_self rfl
      have happend : g ++ e :: options = g ++ [e] ++ options := by
        rw [List.append_assoc, List.singleton_append]
      rw [happend] at hnodup ⊢
      rw [List.map_cons, readFrom, if_neg (spelled_ne e),
        word_spelled (hspeaks e List.mem_cons_self), give_of_new hnew]
      exact readFrom_spelled (fun e he => hspeaks e (List.mem_cons_of_mem _ he)) hnodup

theorem read_spelled {g : Given} (h : ∀ e ∈ g, Speaks e) (hnodup : (g.map Prod.fst).Nodup) :
    read (g.map spelled) = .options g :=
  readFrom_spelled h hnodup

/-! ## Options for a choice -/

namespace Given

/-- The options that say what is chosen, each at its place in the table. -/
def saying (f : Switch → Option Value) : Given :=
  Switch.all.filterMap fun s => (f s).map (s, ·)

theorem lookup_saying (f : Switch → Option Value) (s : Switch) : ∀ l : List Switch,
    (l.filterMap fun t => (f t).map (t, ·)).lookup s = if s ∈ l then f s else none
  | [] => rfl
  | t :: l => by
      have hrest := lookup_saying f s l
      by_cases hst : s = t
      · subst hst
        rw [if_pos List.mem_cons_self, List.filterMap_cons]
        cases hf : f s with
        | none =>
            show List.lookup s (l.filterMap _) = none
            rw [hrest, hf, ite_self]
        | some v => exact List.lookup_cons_self
      · have hmem : s ∈ t :: l ↔ s ∈ l :=
          ⟨fun h => (List.mem_cons.mp h).resolve_left hst, List.mem_cons_of_mem t⟩
        simp only [hmem]
        rw [← hrest, List.filterMap_cons]
        cases f t with
        | none => rfl
        | some v =>
            show List.lookup s ((t, v) :: _) = _
            rw [List.lookup_cons, beq_false_of_ne hst]

theorem valueOf?_saying (f : Switch → Option Value) (s : Switch) :
    (saying f).valueOf? s = f s := by
  rw [valueOf?, saying, lookup_saying, if_pos (Switch.mem_all s)]

theorem keys_saying (f : Switch → Option Value) : ∀ l : List Switch,
    (l.filterMap fun s => (f s).map (s, ·)).map Prod.fst = l.filter fun s => (f s).isSome
  | [] => rfl
  | s :: l => by
      rw [List.filterMap_cons, List.filter_cons]
      cases f s with
      | none => exact keys_saying f l
      | some v => exact congrArg (s :: ·) (keys_saying f l)

/-- Whatever is chosen can be said, if the options take it. -/
theorem read_saying {f : Switch → Option Value} (h : ∀ s v, f s = some v → Speaks (s, v)) :
    read ((saying f).map spelled) = .options (saying f) := by
  refine read_spelled ?_ ?_
  · intro e he
    obtain ⟨s, -, hs⟩ := List.mem_filterMap.mp he
    obtain ⟨v, hv, rfl⟩ := Option.map_eq_some_iff.mp hs
    exact h s v hv
  · rw [saying, keys_saying]
    exact Switch.nodup_all.filter _

end Given

end CommandLine

end ChipEight
