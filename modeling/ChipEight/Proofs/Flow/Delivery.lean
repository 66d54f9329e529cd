import ChipEight.Flow

/-!
# What reading to the end delivers

A read cuts the first piece of a source at the room it has; what it does not take stays
in front of the source. So no read changes what a source delivers in all, nor how it
ends: `read_tells` says this of one read, and by it the slices of a source that is read
to its end, laid side by side, are what the source delivers, for every room
(`readAll_delivers`).
-/

namespace ChipEight.Source

/-- What the answer of a read tells about a source, with what the read left behind. -/
def Answer.Tells (s rest : Source) : Answer → Prop
  | .got b => s.delivered = b ++ rest.delivered ∧ s.ending = rest.ending
  | .interrupted => s.delivered = rest.delivered ∧ s.ending = rest.ending
  | .ended => s.delivered = [] ∧ s.ending = .clean
  | .failed text => s.delivered = [] ∧ s.ending = .failed text

theorem delivered_bytes {b : List UInt8} (h : b ≠ []) (rest : Source) :
    delivered (.bytes b :: rest) = b ++ rest.delivered := by
  cases b with
  | nil => exact absurd rfl h
  | cons => rfl

theorem ending_bytes {b : List UInt8} (h : b ≠ []) (rest : Source) :
    ending (.bytes b :: rest) = rest.ending := by
  cases b with
  | nil => exact absurd rfl h
  | cons => rfl

theorem delivered_left (b : List UInt8) (rest : Source) :
    delivered (if b = [] then rest else .bytes b :: rest) = b ++ rest.delivered := by
  split
  case isTrue h => rw [h, List.nil_append]
  case isFalse h => exact delivered_bytes h rest

theorem ending_left (b : List UInt8) (rest : Source) :
    ending (if b = [] then rest else .bytes b :: rest) = rest.ending := by
  split
  case isTrue => rfl
  case isFalse h => exact ending_bytes h rest

/-- One read, with whatever room, tells what there is to be had. -/
theorem read_tells {room : Nat} {s rest : Source} {a : Answer} (h : s.read room = (a, rest)) :
    a.Tells s rest := by
  unfold read at h
  split at h
  case h_3 b more hb =>
      obtain ⟨rfl, rfl⟩ := Prod.mk.inj h
      constructor
      · rw [delivered_bytes hb, delivered_left, ← List.append_assoc, List.take_append_drop]
      · rw [ending_bytes hb, ending_left]
  all_goals
    obtain ⟨rfl, rfl⟩ := Prod.mk.inj h
    exact ⟨rfl, rfl⟩

/-- A source that is read to its end gives all that it delivers, in slices, and says how it
ends. -/
theorem readAll_delivers {room : Nat} (hroom : 0 < room) (s : Source) :
    (s.readAll room hroom).1.flatten = s.delivered ∧ (s.readAll room hroom).2 = s.ending := by
  fun_induction readAll room hroom s with
  | case1 s b rest h _ more ending hread ih =>
      obtain ⟨hdelivered, hending⟩ := read_tells h
      rw [hread] at ih
      rw [hdelivered, hending, ← ih.1]
      exact ⟨rfl, ih.2⟩
  | case2 s rest h _ ih =>
      obtain ⟨hdelivered, hending⟩ := read_tells h
      rw [hdelivered, hending]
      exact ih
  | case3 s _ h | case4 s _ _ h =>
      obtain ⟨hdelivered, hending⟩ := read_tells h
      rw [hdelivered, hending]
      exact ⟨rfl, rfl⟩

end ChipEight.Source
