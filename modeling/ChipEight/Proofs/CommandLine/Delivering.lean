import ChipEight.CommandLine.Program
import Mathlib.Data.List.Basic

/-!
# What the pens leave in a file

While a program runs, the picture and the tone are written, each by a pen that goes on where it
stopped. What one pen has written is a row of patches without gaps, whatever the other does in
between, and laid over an empty file they are its pieces joined (`foldl_ofPieces`). So a file
for the picture alone has the frames, one after the other (`deliver_picture`).
-/

namespace ChipEight

namespace Patch

theorem lay_end : ∀ (bytes : List UInt8) (file : Array UInt8),
    lay file file.size bytes = file ++ bytes
  | [], file => by simp [lay]
  | b :: rest, file => by
      have hpush := lay_end rest (file.push b)
      rw [Array.size_push] at hpush
      rw [lay, dif_neg (Nat.lt_irrefl _), hpush]
      simp

theorem apply_end {file : Array UInt8} {p : Patch} (h : p.offset = file.size) :
    apply file p = file ++ p.bytes := by
  unfold apply
  rw [h, Nat.sub_self, Array.replicate_zero, Array.append_empty, lay_end]

/-- The patches of one pen, laid over a file that ends where the pen stands, add what the pen
writes. -/
theorem foldl_ofPieces {π : Type} [DecidableEq π] (pen : π) :
    ∀ (pieces : List (π × List UInt8)) (reached : π → Nat) (file : Array UInt8),
      reached pen = file.size →
        (((ofPieces reached pieces).filter fun e => e.1 = pen).map (·.2)).foldl apply file =
          file ++ (pieces.filter fun e => e.1 = pen).flatMap (·.2)
  | [], _, file, _ => by simp [ofPieces]
  | (q, bytes) :: rest, reached, file, h => by
      rw [ofPieces]
      by_cases hq : q = pen
      · subst hq
        have hnext : (if q = q then reached q + bytes.length else reached q) =
            (file ++ bytes).size := by
          have hsize : (file ++ bytes).size = file.size + bytes.length := by
            rw [← Array.length_toList, Array.toList_appendList, List.length_append,
              Array.length_toList]
          rw [if_pos rfl, h, hsize]
        have hrest := foldl_ofPieces q rest
          (fun r => if r = q then reached q + bytes.length else reached r) (file ++ bytes) hnext
        have hfirst : apply file { offset := reached q, bytes } = file ++ bytes := apply_end h
        simp [hfirst, hrest, ← Array.toList_inj]
      · have hnext : (if pen = q then reached q + bytes.length else reached pen) = file.size := by
          rw [if_neg (Ne.symm hq), h]
        have hrest := foldl_ofPieces pen rest
          (fun r => if r = q then reached q + bytes.length else reached r) file hnext
        simp [hq, hrest]

end Patch

namespace CommandLine

/-! ## The pieces of the picture -/

theorem flatMap_getElem?_range {α : Type} : ∀ (l : List α) (k : Nat),
    ((List.range (l.length + k)).flatMap fun i => l[i]?.toList) = l
  | [], k => by simp
  | a :: l, k => by
      have hsucc : (a :: l).length + k = (l.length + k) + 1 := by
        rw [List.length_cons, Nat.add_right_comm]
      rw [hsucc, List.range_succ_eq_map, List.flatMap_cons, List.flatMap_map]
      show [a] ++ ((List.range (l.length + k)).flatMap fun i => l[i]?.toList) = a :: l
      rw [flatMap_getElem?_range l k, List.singleton_append]

/-- Of all that is written, the picture's part is the frames in order. -/
theorem written_picture (frames : Array (List UInt8)) (block : List UInt8) (counts : Array Nat) :
    ((written frames block counts).filter fun e => e.1 = .picture).flatMap (·.2) =
      frames.toList.flatten := by
  -- with each tick, its frame
  have htick : ∀ i, (((frames[i]?.toList.map fun f => (Pen.picture, f)) ++
      List.replicate (counts.getD i 0) (Pen.tone, block)).filter
        fun e => e.1 = .picture).flatMap (·.2) = frames[i]?.toList.flatMap id := by
    intro i
    cases frames[i]? <;> simp
  obtain ⟨k, hk⟩ := Nat.exists_eq_add_of_le (Nat.le_max_left frames.size counts.size)
  have hframes := flatMap_getElem?_range frames.toList k
  simp only [Array.getElem?_toList, Array.length_toList] at hframes
  unfold written
  rw [List.filter_flatMap, List.flatMap_assoc, funext htick, hk, ← List.flatMap_assoc, hframes,
    List.flatMap_id]

/-! ## Delivery -/

variable {files : Files} {place : Place} {pieces : List (Pen × List UInt8)}

theorem deliver_nowhere {place? : Pen → Option Place} (h : ∀ pen, place? pen = none) :
    deliver files place? pieces = files := by
  unfold deliver
  simp [h]

theorem deliver_picture {place? : Pen → Option Place} (hpicture : place? .picture = some place)
    (htone : place? .tone = none) (hfile : files.node? place = some (.file #[])) :
    deliver files place? pieces =
      files.put place ((pieces.filter fun e => e.1 = .picture).flatMap (·.2)).toArray := by
  have hpen : ∀ e : Pen × Patch, (place? e.1 == some place) = decide (e.1 = .picture) := by
    rintro ⟨_ | _, p⟩
    · simp [hpicture]
    · simp [htone]
  have hplaces : ([Pen.picture, .tone].filterMap place?).eraseDups = [place] := by
    rw [List.filterMap_cons_some hpicture, List.filterMap_cons_none htone]
    rfl
  have hjoined := Patch.foldl_ofPieces Pen.picture pieces (fun _ => 0) #[] rfl
  show List.foldl _ files ([Pen.picture, .tone].filterMap place?).eraseDups = _
  rw [hplaces, List.foldl_cons, List.foldl_nil, List.filter_congr fun e _ => hpen e, Files.keep,
    hfile]
  simp [hjoined]

end CommandLine

namespace Files

variable {files files' : Files} {place : Place} {text : String} {bytes : Array UInt8}

theorem node?_put (hplace : place ≠ []) : (files.put place bytes).node? place =
    some (.file bytes) := by
  unfold node? put
  rw [if_neg hplace, List.lookup_cons_self]

theorem ne_nil_of_file (h : files.node? place = some (.file bytes)) : place ≠ [] := by
  rintro rfl
  cases h

/-- Making a file puts an empty one there, or takes a device as it is. -/
theorem create_cases (h : files.create text = .ok (files', place)) :
    files' = files ∨ files' = files.put place #[] := by
  unfold create at h
  rcases hp : Path.read text with t | p
  · rw [hp] at h
    cases h
  · rw [hp] at h
    replace h : (files.locate p).bind _ = _ := h
    rcases hl : files.locate p with t | ⟨dir, - | name⟩
    · rw [hl] at h
      cases h
    · rw [hl] at h
      cases h
    · rw [hl] at h
      replace h : (if p.slashed = true then _ else _) = _ := h
      split at h
      · cases h
      · replace h : (files.entry dir name).bind _ = _ := h
        rcases he : files.entry dir name with t | _ | _ | b | d
        · rw [he] at h
          cases h
        · rw [he] at h
          cases h
          exact .inr rfl
        · rw [he] at h
          cases h
        · rw [he] at h
          cases h
          exact .inr rfl
        · rw [he] at h
          cases d <;> cases h <;> exact .inl rfl

theorem create_outputs (h : files.create text = .ok (files', place)) :
    files'.output = files.output ∧ files'.errors = files.errors := by
  rcases create_cases h with rfl | rfl
  · exact ⟨rfl, rfl⟩
  · exact ⟨rfl, rfl⟩

end Files

end ChipEight
