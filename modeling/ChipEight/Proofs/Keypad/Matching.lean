import ChipEight.Proofs.Keypad.Holding

/-!
# Keys let go by hand and by themselves

A keypad whose keys stay down until they are let go keeps a list of keys. A timed keypad keeps a
time for each key, and lets a key go when its span has passed. Where no span has passed yet the
second cannot be told from the first: it has every key that a byte can name, and the keys held at
the time of the question are those in the list (`Matches`). Each event keeps that, whatever came
before it, and so does a whole history (`Matches.follow`).

What the list looks like plays no part, only what is in it. So it does no harm that keys which are
down from the start may stand in it twice: for the timed keypad such a key was pressed twice, and
one release lets it go on both sides.
-/

namespace ChipEight

open TimedKeys (Event)

namespace TimedKeys

variable {t : TimedKeys}

theorem isHeld_apply_same {e : Event} (h : e.key.toNat < t.keys) (now : Nat) :
    (t.apply e).isHeld e.key now = e.mark.any fun time => now - time < t.span := by
  rw [isHeld_eq, slot_apply_same h, span_apply]

theorem isHeld_apply_other {e : Event} {key : UInt8} (h : e.key ≠ key) (now : Nat) :
    (t.apply e).isHeld key now = t.isHeld key now :=
  isHeld_congr (slot_apply_other h) (span_apply t e) now

/-- Keys pressed one after the other, each at a time. -/
def pressed (keys : List (UInt8 × Nat)) : List Event :=
  keys.map fun (key, time) => .press key time

end TimedKeys

namespace ManualKeys

variable {k : ManualKeys} {key key' : UInt8}

/-- A keypad after an event; when it happened plays no part. -/
def apply (k : ManualKeys) : Event → ManualKeys
  | .press key _ => k.press key
  | .release key => k.release key

/-- A keypad after a history. -/
def follow (k : ManualKeys) (events : List Event) : ManualKeys :=
  events.foldl apply k

theorem mem_press_iff : key' ∈ (k.press key).down ↔ key' = key ∨ key' ∈ k.down := by
  unfold press
  split
  case isTrue hdown =>
      constructor
      · exact Or.inr
      · rintro (rfl | h)
        · exact hdown
        · exact h
  case isFalse => rw [List.mem_append, List.mem_singleton, or_comm]

theorem mem_release_iff : key' ∈ (k.release key).down ↔ key' ≠ key ∧ key' ∈ k.down := by
  unfold release
  rw [List.mem_filter, decide_eq_true_eq, and_comm]

/-- A keypad let go by hand matches a timed one at the time of a question: the timed keypad has all
keys, and holds those that are down. -/
structure Matches (k : ManualKeys) (t : TimedKeys) (now : Nat) : Prop where
  keys : t.keys = 256
  held : ∀ key, key ∈ k.down ↔ t.isHeld key now = true

namespace Matches

variable {t : TimedKeys} {now : Nat}

theorem on (h : k.Matches t now) (key : UInt8) : key.toNat < t.keys := by
  rw [h.keys]
  exact key.toNat_lt

/-! ## One event -/

/-- A press from which the span has not passed is as one more key that is down, wherever in the
list. -/
theorem press (h : k.Matches t now) {k' : ManualKeys} {key : UInt8} {time : Nat}
    (hspan : now - time < t.span) (hk' : ∀ key', key' ∈ k'.down ↔ key' = key ∨ key' ∈ k.down) :
    k'.Matches (t.apply (.press key time)) now := by
  refine ⟨(TimedKeys.keys_apply ..).trans h.keys, fun key' => ?_⟩
  rw [hk']
  by_cases hkey : key = key'
  · subst hkey
    have hheld : (t.apply (.press key time)).isHeld key now = true :=
      (TimedKeys.isHeld_apply_same (e := .press key time) (h.on key) now).trans
        (decide_eq_true hspan)
    exact ⟨fun _ => hheld, fun _ => Or.inl rfl⟩
  · rw [TimedKeys.isHeld_apply_other (e := .press key time) hkey, ← h.held]
    exact or_iff_right (Ne.symm hkey)

theorem release (h : k.Matches t now) (key : UInt8) :
    (k.release key).Matches (t.apply (.release key)) now := by
  refine ⟨(TimedKeys.keys_apply ..).trans h.keys, fun key' => ?_⟩
  rw [mem_release_iff]
  by_cases hkey : key = key'
  · subst hkey
    have hheld : (t.apply (.release key)).isHeld key now = false :=
      TimedKeys.isHeld_apply_same (e := .release key) (h.on key) now
    rw [hheld]
    exact ⟨fun hdown => absurd rfl hdown.1, nofun⟩
  · rw [TimedKeys.isHeld_apply_other (e := .release key) hkey, ← h.held]
    exact and_iff_right (Ne.symm hkey)

theorem apply (h : k.Matches t now) {e : Event}
    (hspan : ∀ key time, e = .press key time → now - time < t.span) :
    (k.apply e).Matches (t.apply e) now := by
  cases e with
  | press key time => exact h.press (hspan key time rfl) fun _ => mem_press_iff
  | release key => exact h.release key

/-! ## A whole history -/

theorem seeded : ∀ (keys : List (UInt8 × Nat)) {k : ManualKeys} {t : TimedKeys}, k.Matches t now →
    (∀ key time, (key, time) ∈ keys → now - time < t.span) →
      Matches { down := k.down ++ keys.map Prod.fst } (t.follow (TimedKeys.pressed keys)) now
  | [], k, t, h, _ => by
      rw [List.map_nil, List.append_nil]
      exact h
  | (key, time) :: rest, k, t, h, hspan => by
      have hfirst : Matches { down := k.down ++ [key] } (t.apply (.press key time)) now :=
        h.press (hspan key time List.mem_cons_self) fun key' => by
          rw [List.mem_append, List.mem_singleton, or_comm]
      have hrest := seeded rest hfirst fun key' time' hmem => by
        rw [TimedKeys.span_apply]
        exact hspan key' time' (List.mem_cons_of_mem _ hmem)
      rw [List.append_assoc, List.singleton_append] at hrest
      exact hrest

theorem follow : ∀ (events : List Event) {k : ManualKeys} {t : TimedKeys}, k.Matches t now →
    (∀ key time, .press key time ∈ events → now - time < t.span) →
      (k.follow events).Matches (t.follow events) now
  | [], _, _, h, _ => h
  | e :: rest, k, t, h, hspan => by
      have hfirst := h.apply fun key time he => hspan key time (he ▸ List.mem_cons_self)
      refine follow rest hfirst fun key time hmem => ?_
      rw [TimedKeys.span_apply]
      exact hspan key time (List.mem_cons_of_mem _ hmem)

/-! ## The answers -/

/-- Matching keypads give the same answers: the lowest key is settled by the keys that are held. -/
theorem keypad_eq (h : k.Matches t now) : k.keypad = t.keypad now := by
  refine Keypad.Consistent.ext k.keypad_consistent
    (TimedKeys.keypad_consistent fun key _ => h.on key) fun key => ?_
  show decide (key ∈ k.down) = t.isHeld key now
  rw [Bool.eq_iff_iff, decide_eq_true_iff]
  exact h.held key

end Matches

/-- Some keys are down from the start, in any order and however often each, and then comes any
history of presses and releases. On a timed keypad of 256 keys the keys of the start are pressed
first, and then the same history happens. At a time when no press has run out, both give the same
answers about every key and about the lowest. A press that is still to come counts as one just
made. -/
theorem keypad_as_timed (now span : Nat) (start : List (UInt8 × Nat)) (events : List Event)
    (hspan : ∀ key time, .press key time ∈ TimedKeys.pressed start ++ events →
      now - time < span) :
    ∃ t, TimedKeys.new? 256 span = some t ∧
      (follow { down := start.map Prod.fst } events).keypad =
        (t.follow (TimedKeys.pressed start ++ events)).keypad now := by
  obtain ⟨t, ht, hkeys, rfl, hnew⟩ := @TimedKeys.exists_new 256 (by decide) span
  have hempty : Matches { down := [] } t now := by
    refine ⟨hkeys, fun key => ?_⟩
    rw [TimedKeys.isHeld_eq, hnew]
    exact ⟨nofun, nofun⟩
  have hstart : Matches { down := start.map Prod.fst } (t.follow (TimedKeys.pressed start)) now :=
    Matches.seeded start hempty fun key time hmem =>
      hspan key time (List.mem_append_left _ (List.mem_map.mpr ⟨(key, time), hmem, rfl⟩))
  have hmatches := Matches.follow events hstart fun key time hmem => by
    rw [TimedKeys.span_follow]
    exact hspan key time (List.mem_append_right _ hmem)
  refine ⟨t, ht, ?_⟩
  rw [TimedKeys.follow_append]
  exact hmatches.keypad_eq

/-- Key 5 is twice in the list and comes up with one release. Of the keys that are left, 9 has
been down from the start and is the lowest; the press of key 12 is still to come at the time of the
question. -/
theorem keypad_as_timed_twice : ∃ t, TimedKeys.new? 256 30 = some t ∧
    (follow { down := [5, 9, 5] } [.press 2 60, .release 5, .press 12 90, .release 2]).keypad =
      (t.follow [.press 5 55, .press 9 60, .press 5 70, .press 2 60, .release 5, .press 12 90,
        .release 2]).keypad 80 ∧
    ((t.follow [.press 5 55, .press 9 60, .press 5 70, .press 2 60, .release 5, .press 12 90,
        .release 2]).keypad 80).lowest = some 9 := by
  have hspan : ∀ key time, .press key time ∈ TimedKeys.pressed [(5, 55), (9, 60), (5, 70)] ++
      [.press 2 60, .release 5, .press 12 90, .release 2] → 80 - time < 30 := by
    intro key time hmem
    simp [TimedKeys.pressed] at hmem
    omega
  obtain ⟨t, ht, hsame⟩ := keypad_as_timed 80 30 _ _ hspan
  exact ⟨t, ht, hsame, hsame ▸ rfl⟩

end ManualKeys

end ChipEight
