import ChipEight.Picture
import ChipEight.Proofs.Flow.Filling
import ChipEight.Proofs.Screen.Painting

/-!
# Pictures are read back

Half-block text keeps every pixel: `pixel?` reads the pixel of a column and a row back from the
lines of a screen (`pixel?_lines`), so screens of one size whose spare bits are off have the
same lines only if they are the same screen (`eq_of_lines`).

Frames are written one after the other with nothing that parts them, and a character takes one
byte or three. They come apart all the same. Bytes are first turned into text, and in text all
frames of one size are equally long, and so are all lines of a frame; equally long parts of a
joined text are found again from the left (`eq_of_join`). A screen without rows would have
frames without text, of which any number looks alike; so there has to be a row.
-/

namespace ChipEight

/-! ## Lines -/

namespace HalfBlock

/-- The pixel of a column and a row, read back from lines of text. -/
def pixel? (text : List String) (x y : Nat) : Option Bool := do
  let line ← text[y / 2]?
  let c ← line.toList[x]?
  let (upper, lower) ← halves? c
  some (if y % 2 = 0 then upper else lower)

theorem length_lines (s : Screen) : (lines s).length = lineCount s.height := by
  simp [lines]

theorem length_of_mem_lines {s : Screen} {line : String} (h : line ∈ lines s) :
    line.length = s.width := by
  obtain ⟨i, -, rfl⟩ := List.mem_map.mp h
  rw [← String.length_toList, String.toList_ofList, lineChars, List.length_map, List.length_range]

/-- Each pixel of a line is read back. In the lower half of the last line that may be one below
the screen. -/
theorem pixel?_lines (s : Screen) {x y : Nat} (hx : x < s.width) (hy : y / 2 < lineCount s.height) :
    pixel? (lines s) x y = some (s.pixel x y) := by
  have hline : (lines s)[y / 2]? = some (String.ofList (lineChars s (y / 2))) := by
    rw [lines, List.getElem?_map, List.getElem?_range hy]
    rfl
  have hchar : (lineChars s (y / 2))[x]? =
      some (glyph (s.pixel x (2 * (y / 2))) (s.pixel x (2 * (y / 2) + 1))) := by
    rw [lineChars, List.getElem?_map, List.getElem?_range hx]
    rfl
  have hread : pixel? (lines s) x y =
      some (if y % 2 = 0 then s.pixel x (2 * (y / 2)) else s.pixel x (2 * (y / 2) + 1)) := by
    simp only [pixel?, hline, Option.bind_eq_bind, Option.bind_some, String.toList_ofList, hchar,
      halves?_glyph]
  rw [hread]
  split
  · have heven : 2 * (y / 2) = y := by omega
    rw [heven]
  · have hodd : 2 * (y / 2) + 1 = y := by omega
    rw [hodd]

theorem lt_lineCount {y height : Nat} (h : y < height) : y / 2 < lineCount height := by
  unfold lineCount
  omega

theorem eq_of_lines {s t : Screen} (hs : s.Clean) (ht : t.Clean) (hw : s.width = t.width)
    (hh : s.height = t.height) (h : lines s = lines t) : s = t := by
  refine Screen.eq_of_buffer hw hh (Screen.buffer_eq_of_pixels hs ht hw hh fun p q hp hq => ?_)
  have hp' : p < t.width := hw ▸ hp
  have hq' : q < t.height := hh ▸ hq
  have hread := congrArg (pixel? · p q) h
  exact Option.some.inj <| calc
    some (s.pixel p q) = pixel? (lines s) p q := (pixel?_lines s hp (lt_lineCount hq)).symm
    _ = pixel? (lines t) p q := hread
    _ = some (t.pixel p q) := pixel?_lines t hp' (lt_lineCount hq')

end HalfBlock

/-! ## Parts of a joined text -/

section Join

variable {α : Type} {f : α → String} {n : Nat}

theorem length_join {l : List α} (h : ∀ a ∈ l, (f a).length = n) :
    (String.join (l.map f)).length = l.length * n := by
  induction l with
  | nil => simp
  | cons a l ih =>
      rw [List.map_cons, String.join_cons, String.length_append, h a List.mem_cons_self,
        ih fun b hb => h b (List.mem_cons_of_mem a hb), List.length_cons, Nat.succ_mul,
        Nat.add_comm]

theorem eq_of_join {P : α → Prop} (hn : 0 < n) (hlength : ∀ a, P a → (f a).length = n)
    (hinj : ∀ a b, P a → P b → f a = f b → a = b) : ∀ {l l' : List α}, (∀ a ∈ l, P a) →
      (∀ a ∈ l', P a) → String.join (l.map f) = String.join (l'.map f) → l = l'
  | [], [], _, _, _ => rfl
  | [], b :: l', _, hl', h => by
      have hlen := congrArg String.length h
      rw [length_join fun a ha => hlength a (hl' a ha)] at hlen
      simp [hn.ne'] at hlen
  | a :: l, [], hl, _, h => by
      have hlen := congrArg String.length h
      rw [length_join fun a ha => hlength a (hl a ha)] at hlen
      simp [hn.ne'] at hlen
  | a :: l, b :: l', hl, hl', h => by
      obtain ⟨ha, hl⟩ := List.forall_mem_cons.mp hl
      obtain ⟨hb, hl'⟩ := List.forall_mem_cons.mp hl'
      have hchars : (f a).toList ++ (String.join (l.map f)).toList =
          (f b).toList ++ (String.join (l'.map f)).toList := by
        simpa only [List.map_cons, String.join_cons, String.toList_append] using
          congrArg String.toList h
      have hsame : (f a).toList.length = (f b).toList.length := by
        rw [String.length_toList, String.length_toList, hlength a ha, hlength b hb]
      obtain ⟨hfirst, hrest⟩ := List.append_inj hchars hsame
      rw [hinj a b ha hb (String.toList_inj.mp hfirst),
        eq_of_join hn hlength hinj hl hl' (String.toList_inj.mp hrest)]

end Join

namespace Viewer

open HalfBlock

/-! ## Frames -/

theorem encoded_append (a b : String) : encoded (a ++ b) = encoded a ++ encoded b := by
  simp only [encoded, String.toUTF8_eq_toByteArray, String.toByteArray_append,
    ByteArray.data_append, Array.toList_append]

theorem encoded_inj {a b : String} (h : encoded a = encoded b) : a = b :=
  String.toByteArray_inj.mp (ByteArray.ext (Array.toList_inj.mp h))

theorem flatten_frames (home : Bool) (screens : List Screen) :
    (screens.map (frame home)).flatten = encoded (String.join (screens.map (frameText home))) := by
  induction screens with
  | nil => rfl
  | cons s rest ih =>
      rw [List.map_cons, List.flatten_cons, ih, List.map_cons, String.join_cons, encoded_append]
      rfl

theorem length_frameText (home : Bool) (s : Screen) : (frameText home s).length =
    (if home then 3 else 0) + lineCount s.height * (s.width + 2) := by
  have hline : ∀ line ∈ lines s, (line ++ "\r\n").length = s.width + 2 := by
    intro line hline
    rw [String.length_append, length_of_mem_lines hline]
    rfl
  have hhome : (if home then "\x1b[H" else "").length = if home then 3 else 0 := by
    cases home <;> rfl
  rw [frameText, String.length_append, length_join hline, length_lines, hhome]

theorem eq_of_frameText {w h : Nat} {home : Bool} {s t : Screen} (hs : s.Painted w h)
    (ht : t.Painted w h) (heq : frameText home s = frameText home t) : s = t := by
  obtain ⟨hw, hh, hclean⟩ := hs.kept
  obtain ⟨hw', hh', hclean'⟩ := ht.kept
  have hchars := congrArg String.toList heq
  rw [frameText, frameText, String.toList_append, String.toList_append] at hchars
  have hlines : String.join ((lines s).map (· ++ "\r\n")) =
      String.join ((lines t).map (· ++ "\r\n")) :=
    String.toList_inj.mp (List.append_cancel_left hchars)
  have hlength : ∀ line : String, line.length = w → (line ++ "\r\n").length = w + 2 := by
    intro line hline
    rw [String.length_append, hline]
    rfl
  have hcut : ∀ a b : String, a.length = w → b.length = w → a ++ "\r\n" = b ++ "\r\n" → a = b := by
    intro a b _ _ hab
    have hab := congrArg String.toList hab
    rw [String.toList_append, String.toList_append] at hab
    exact String.toList_inj.mp (List.append_cancel_right hab)
  refine eq_of_lines hclean hclean' (hw.trans hw'.symm) (hh.trans hh'.symm) ?_
  exact eq_of_join (Nat.succ_pos _) hlength hcut (fun _ hl => (length_of_mem_lines hl).trans hw)
    (fun _ hl => (length_of_mem_lines hl).trans hw') hlines

/-- Frames that stand one after the other show which screens they are of. -/
theorem eq_of_frames {w h : Nat} (hh : 0 < h) {home : Bool} {screens screens' : List Screen}
    (hs : ∀ s ∈ screens, s.Painted w h) (hs' : ∀ s ∈ screens', s.Painted w h)
    (heq : (screens.map (frame home)).flatten = (screens'.map (frame home)).flatten) :
    screens = screens' := by
  rw [flatten_frames, flatten_frames] at heq
  have hlength : ∀ s : Screen, s.Painted w h →
      (frameText home s).length = (if home then 3 else 0) + lineCount h * (w + 2) := by
    intro s hs
    rw [length_frameText, hs.kept.1, hs.kept.2.1]
  have hpos : 0 < lineCount h * (w + 2) :=
    Nat.mul_pos (Nat.zero_lt_of_lt (lt_lineCount hh)) (Nat.succ_pos _)
  exact eq_of_join (Nat.lt_of_lt_of_le hpos (Nat.le_add_left _ _)) hlength
    (fun _ _ => eq_of_frameText) hs hs' (encoded_inj heq)

/-! ## Showing one screen after the other -/

/-- Shows screens one after the other: the fault of each, if there was one, and the state
afterwards. -/
def showAll {σ : Type} (view : Viewer σ) : List Screen → σ → Option (List (Option Fault) × σ)
  | [], v => some ([], v)
  | s :: rest, v => do
      let (fault, v) ← view v s
      let (faults, v) ← showAll view rest v
      some (fault :: faults, v)

theorem showAll_writing (home : Bool) : ∀ (screens : List Screen) {sink : Sink},
    sink.NeverFails → (writing home).showAll screens sink =
      some (List.replicate screens.length none,
        { sink.take (screens.map (frame home)).flatten with
          flushes := sink.flushes + screens.length })
  | [], sink, _ => by simp [showAll]
  | s :: rest, sink, hsink => by
      obtain ⟨hwilling, htotal⟩ := hsink
      have hroom : sink.room (frame home s).length = (frame home s).length := by
        rw [Sink.room, htotal]
        rfl
      have hfirst : writing home sink s =
          some (none, { sink.take (frame home s) with flushes := sink.flushes + 1 }) := by
        rw [writing, hwilling.writeFlush_of_room hroom]
      have hlater : Sink.NeverFails
          { sink.take (frame home s) with flushes := sink.flushes + 1 } :=
        ⟨⟨hwilling.takes, hwilling.yields⟩, htotal⟩
      have hcount : sink.flushes + 1 + rest.length = sink.flushes + (rest.length + 1) := by omega
      have hrest := showAll_writing home rest hlater
      rw [showAll, hfirst]
      simp only [Option.bind_eq_bind, Option.bind_some, hrest]
      simp [Sink.take, List.replicate_succ, hcount, ← Array.toList_inj]

/-- Showing a screen as text loses no pixel. The lines of a screen that was painted have its
size, each pixel is read back from its half of its character, and below the last row nothing is
on; so they show which screen it is. Frames that a sink has taken one after the other show which
screens they are of, and how many, whatever it had taken before and in whatever pieces. -/
theorem showAll_exact {w h : Nat} (hh : 0 < h) :
    (∀ s : Screen, s.Painted w h →
      (lines s).length = (h + 1) / 2 ∧ (∀ line ∈ lines s, line.length = w) ∧
      (∀ x y, x < w → y < h → pixel? (lines s) x y = some (s.pixel x y)) ∧
      (h % 2 = 1 → ∀ x < w, pixel? (lines s) x h = some false) ∧
      ∀ t : Screen, t.Painted w h → (lines s = lines t ↔ s = t)) ∧
    ∀ (home : Bool) (sink sink' : Sink) (screens screens' : List Screen),
      sink.NeverFails → sink'.NeverFails →
      (∀ s ∈ screens, s.Painted w h) → (∀ s ∈ screens', s.Painted w h) →
      ∃ written written' after after',
        (writing home).showAll screens sink =
          some (List.replicate screens.length none, after) ∧
        after.taken.toList = sink.taken.toList ++ written ∧
        (writing home).showAll screens' sink' =
          some (List.replicate screens'.length none, after') ∧
        after'.taken.toList = sink'.taken.toList ++ written' ∧
        (written = written' ↔ screens = screens') := by
  refine ⟨fun s hs => ?lines, fun home sink sink' screens screens' hsink hsink' hs hs' => ?frames⟩
  case lines =>
    obtain ⟨rfl, rfl, hclean⟩ := hs.kept
    refine ⟨length_lines s, fun _ => length_of_mem_lines,
      fun x y hx hy => pixel?_lines s hx (lt_lineCount hy), fun hodd x hx => ?_, fun t ht => ?_⟩
    · have hlast : s.height / 2 < lineCount s.height := by
        unfold lineCount
        omega
      rw [pixel?_lines s hx hlast, s.pixel_off fun hon => Nat.lt_irrefl _ hon.2]
    · obtain ⟨hw', hh', hclean'⟩ := ht.kept
      exact ⟨eq_of_lines hclean hclean' hw'.symm hh'.symm, congrArg lines⟩
  case frames =>
    refine ⟨(screens.map (frame home)).flatten, (screens'.map (frame home)).flatten, _, _,
      showAll_writing home screens hsink, Array.toList_appendList,
      showAll_writing home screens' hsink', Array.toList_appendList, eq_of_frames hh hs hs', ?_⟩
    rintro rfl
    rfl

/-- Two screens of odd height, in both orders, taken whole and by two bytes. -/
theorem showAll_exact_swapped : ∃ s t : Screen, s.Painted 3 3 ∧ t.Painted 3 3 ∧
    lines s ≠ lines t ∧ pixel? (lines t) 2 3 = some false ∧
    ∃ after after' : Sink, (writing true).showAll [s, t] {} = some ([none, none], after) ∧
      (writing true).showAll [t, s] { perCall := some 2 } = some ([none, none], after') ∧
      after.taken ≠ after'.taken := by
  have hfits : ∀ x, ∀ k ∈ [Screen.Stroke.set x x true], k.Fits := by simp [Screen.Stroke.Fits]
  obtain ⟨s, hs, -⟩ := Screen.exists_painted (w := 3) (h := 3) (by decide) (hfits 1)
  obtain ⟨t, ht, -⟩ := Screen.exists_painted (w := 3) (h := 3) (by decide) (hfits 2)
  have hne : s ≠ t := by
    rintro rfl
    have hpixels : ((Screen.blank? 3 3).bind (Screen.paint? [.set 1 1 true])).map
        (Screen.pixel · 1 1) ≠ ((Screen.blank? 3 3).bind (Screen.paint? [.set 2 2 true])).map
        (Screen.pixel · 1 1) := by decide
    exact hpixels (by rw [hs, ht])
  have hs : s.Painted 3 3 := ⟨_, hs⟩
  have ht : t.Painted 3 3 := ⟨_, ht⟩
  obtain ⟨hlines, hframes⟩ := showAll_exact (w := 3) (h := 3) (by decide)
  obtain ⟨-, -, -, -, hsame⟩ := hlines s hs
  obtain ⟨-, -, -, hbelow, -⟩ := hlines t ht
  obtain ⟨_, _, after, after', hrun, htaken, hrun', htaken', hwritten⟩ :=
    hframes true {} { perCall := some 2 } [s, t] [t, s] ⟨⟨by decide, rfl⟩, rfl⟩
      ⟨⟨by decide, rfl⟩, rfl⟩ (by simp [hs, ht]) (by simp [hs, ht])
  refine ⟨s, t, hs, ht, fun h => hne ((hsame t ht).mp h), hbelow rfl 2 (by decide), after, after',
    hrun, hrun', fun h => ?_⟩
  have hbytes := htaken.symm.trans ((congrArg Array.toList h).trans htaken')
  have horder := hwritten.mp hbytes
  exact hne (List.cons.inj horder).1

end Viewer

end ChipEight
