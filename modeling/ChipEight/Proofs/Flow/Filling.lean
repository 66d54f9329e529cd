import ChipEight.Flow

/-!
# How much of a text a sink takes

Writing as a whole repeats calls, and how many bytes a call takes is up to the sink. What is
written in the end is not: a sink that takes something at each call until it is full takes as
much of the text as it has room for, and the writing fails exactly if that is not all
(`writeAll_eq`). `Willing s` says that a sink is of this kind and lets itself be flushed; its
limit in all, if there is one, stays open.
-/

namespace ChipEight.Sink

/-- A sink that takes something at each call until it is full, and lets itself be flushed. -/
structure Willing (s : Sink) : Prop where
  takes : s.perCall ≠ some 0
  yields : s.flushTotal = none

/-- A sink that no text and no flush ever makes fail. -/
def NeverFails (s : Sink) : Prop :=
  s.Willing ∧ s.total = none

/-- How many of `n` bytes the sink takes before it is full. -/
def room (s : Sink) (n : Nat) : Nat :=
  bounded n (s.total.map (· - s.taken.size))

theorem bounded_le (n : Nat) (limit : Option Nat) : bounded n limit ≤ n := by
  cases limit with
  | none => exact Nat.le_refl n
  | some m => exact Nat.min_le_left n m

theorem room_le (s : Sink) (n : Nat) : s.room n ≤ n :=
  bounded_le n _

/-! ## One call -/

theorem share_le_room (s : Sink) (n : Nat) : s.share n ≤ s.room n := by
  have hcall := bounded_le n s.perCall
  unfold share room
  cases s.total with
  | none => exact hcall
  | some m =>
      show min (bounded n s.perCall) (m - s.taken.size) ≤ min n (m - s.taken.size)
      omega

theorem Willing.share_pos {s : Sink} (hs : s.Willing) {n : Nat} (hn : 0 < n)
    (hfull : s.isFull = false) : 0 < s.share n := by
  have hcall : 0 < bounded n s.perCall := by
    have htakes := hs.takes
    cases hp : s.perCall with
    | none => exact hn
    | some m =>
        rw [hp] at htakes
        have hm : m ≠ 0 := fun h => htakes (congrArg some h)
        show 0 < min n m
        omega
  unfold share
  cases ht : s.total with
  | none => exact hcall
  | some m =>
      have hlimit : s.taken.size < m := by simpa [isFull, ht, hs.yields] using hfull
      show 0 < min (bounded n s.perCall) (m - s.taken.size)
      omega

theorem Willing.room_of_full {s : Sink} (hs : s.Willing) (n : Nat) (hfull : s.isFull = true) :
    s.room n = 0 := by
  unfold room
  cases ht : s.total with
  | none => simp [isFull, ht, hs.yields] at hfull
  | some m =>
      have hlimit : m ≤ s.taken.size := by simpa [isFull, ht, hs.yields] using hfull
      show min n (m - s.taken.size) = 0
      omega

theorem toList_take (s : Sink) (b : List UInt8) :
    (s.take b).taken.toList = s.taken.toList ++ b :=
  Array.toList_appendList

theorem size_take (s : Sink) (b : List UInt8) :
    (s.take b).taken.size = s.taken.size + b.length := by
  rw [← Array.length_toList, toList_take, List.length_append, Array.length_toList]

theorem room_take (s : Sink) {b : List UInt8} {n : Nat} (hn : b.length ≤ n) :
    (s.take b).room (n - b.length) = s.room n - b.length := by
  have hsize := s.size_take b
  have htotal : (s.take b).total = s.total := rfl
  rw [room, room, htotal]
  cases s.total with
  | none => rfl
  | some m =>
      show min (n - b.length) (m - (s.take b).taken.size) = min n (m - s.taken.size) - b.length
      omega

@[simp] theorem take_nil (s : Sink) : s.take [] = s := by
  simp [take]

theorem take_take (s : Sink) (b b' : List UInt8) : (s.take b).take b' = s.take (b ++ b') := by
  simp [take, ← Array.toList_inj]

theorem Willing.take {s : Sink} (hs : s.Willing) (b : List UInt8) : (s.take b).Willing :=
  ⟨hs.takes, hs.yields⟩

/-! ## Writing as a whole -/

/-- A sink takes of a text what it has room for, in whatever pieces. -/
theorem Willing.writeAll_eq {s : Sink} (hs : s.Willing) (b : List UInt8) : s.writeAll b =
    (if s.room b.length = b.length then none else some fullText,
      s.take (b.take (s.room b.length))) := by
  fun_induction writeAll s b with
  | case1 s => simp [Nat.le_zero.mp (s.room_le 0)]
  | case2 s b hb hfull =>
      have hlen : 0 < b.length := List.length_pos_iff.mpr hb
      rw [hs.room_of_full _ hfull, if_neg (by omega), List.take_zero, take_nil]
  | case3 s b hb hfull hnone =>
      have hlen : 0 < b.length := List.length_pos_iff.mpr hb
      have := hs.share_pos hlen (Bool.eq_false_iff.mpr hfull)
      omega
  | case4 s b hb hfull hsome ih =>
      have hshare := s.share_le_room b.length
      have hroom := s.room_le b.length
      have htaken : (b.take (s.share b.length)).length = s.share b.length := by
        rw [List.length_take]
        omega
      have hrest : (s.take (b.take (s.share b.length))).room (b.drop (s.share b.length)).length =
          s.room b.length - s.share b.length := by
        have h := s.room_take (b := b.take (s.share b.length)) (n := b.length) (by omega)
        rwa [htaken, ← List.length_drop] at h
      have hsplit : b.take (s.room b.length) = b.take (s.share b.length) ++
          (b.drop (s.share b.length)).take (s.room b.length - s.share b.length) := by
        rw [← List.take_add]
        congr 1
        omega
      rw [ih (hs.take _), hrest, take_take, ← hsplit, List.length_drop]
      congr 1
      split
      · rw [if_pos (by omega)]
      · rw [if_neg (by omega)]

theorem Willing.writeFlush_of_room {s : Sink} (hs : s.Willing) {b : List UInt8}
    (h : s.room b.length = b.length) :
    s.writeFlush b = (none, { s.take b with flushes := s.flushes + 1 }) := by
  unfold writeFlush
  rw [hs.writeAll_eq, if_pos h, h, List.take_length]
  simp [flush, Sink.take, hs.yields]

/-- Of a text that is too long the sink takes what it has room for, and says that it is full. -/
theorem Willing.writeFlush_of_short {s : Sink} (hs : s.Willing) {b : List UInt8}
    (h : s.room b.length ≠ b.length) :
    s.writeFlush b = (some fullText, s.take (b.take (s.room b.length))) := by
  unfold writeFlush
  rw [hs.writeAll_eq, if_neg h]

theorem writeFlush_of_full {s : Sink} (h : s.isFull = true) {b : List UInt8} (hb : b ≠ []) :
    s.writeFlush b = (some fullText, s) := by
  unfold writeFlush writeAll
  rw [if_neg hb, if_pos h]

theorem room_of_total {s : Sink} {limit : Nat} (h : s.total = some limit) (n : Nat) :
    s.room n = min n (limit - s.taken.size) := by
  rw [room, h]
  rfl

theorem isFull_of_total {s : Sink} {limit : Nat} (h : s.total = some limit)
    (hsize : limit ≤ s.taken.size) : s.isFull = true := by
  simp [isFull, h, hsize]

end ChipEight.Sink
