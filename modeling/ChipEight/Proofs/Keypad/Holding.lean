import ChipEight.Keypad

/-!
# What a keypad answers

A timed keypad keeps one time for each key, and every event overwrites it. So of a
whole history only the last event of each key is left: `Latest e events` says that `e`
is that event, and `slot_follow_of_latest` that the key's slot then holds what `e` puts
there, whatever came before and whatever happened to other keys. A key that does not
exist has no events that count; its slot stays as it was (`slot_follow_off`).

Times need not come in order. A question about a time before the press finds a span of
nothing since then, as the subtraction of natural numbers has it.

The lowest held key is looked for among as many numbers as the keypad has keys, each cut
down to a byte. Beyond 256 the search meets keys again that it has passed over, and what
it finds is the lowest key all the same (`firstHeld_eq_some_iff`).

The keys that are let go by hand are a list, and the lowest of them is its least element.
So their answers fit together as well, whatever was pressed and let go
(`ManualKeys.keypad_consistent`).
-/

namespace ChipEight

/-! ## Keypads whose answers fit together -/

namespace Keypad

/-- The lowest key is the lowest of those that are held, and there is none only if none is
held. -/
def Consistent (k : Keypad) : Prop :=
  (∀ key, k.lowest = some key ↔ k.held key = true ∧ ∀ key' < key, k.held key' = false) ∧
    (k.lowest = none ↔ ∀ key, k.held key = false)

theorem Consistent.ext {k k' : Keypad} (hk : k.Consistent) (hk' : k'.Consistent)
    (h : ∀ key, k.held key = k'.held key) : k = k' := by
  have hheld : k.held = k'.held := funext h
  have hlowest : k.lowest = k'.lowest := by
    cases hl : k'.lowest with
    | none => rw [hk.2, hheld, ← hk'.2, hl]
    | some key => rw [hk.1, hheld, ← hk'.1, hl]
  obtain ⟨held, lowest⟩ := k
  obtain ⟨held', lowest'⟩ := k'
  exact Keypad.mk.injEq .. ▸ ⟨hheld, hlowest⟩

end Keypad

namespace TimedKeys

/-! ## Histories -/

/-- The key an event is about. -/
def Event.key : Event → UInt8
  | .press key _ | .release key => key

/-- What an event leaves in its key's slot. -/
def Event.mark : Event → Option Nat
  | .press _ time => some time
  | .release _ => none

/-- A keypad after a history. -/
def follow (k : TimedKeys) (events : List Event) : TimedKeys :=
  events.foldl apply k

/-- No event after it is about the same key. -/
def Latest (e : Event) (events : List Event) : Prop :=
  ∃ before after, events = before ++ e :: after ∧ ∀ e' ∈ after, e'.key ≠ e.key

theorem Latest.mem {e : Event} {events : List Event} (h : Latest e events) : e ∈ events := by
  obtain ⟨before, after, rfl, -⟩ := h
  exact List.mem_append_right _ List.mem_cons_self

theorem Latest.cons {e : Event} {events : List Event} (h : Latest e events) (first : Event) :
    Latest e (first :: events) := by
  obtain ⟨before, after, rfl, hafter⟩ := h
  exact ⟨first :: before, after, rfl, hafter⟩

theorem latest_or_untouched (key : UInt8) (events : List Event) :
    (∃ e, e.key = key ∧ Latest e events) ∨ ∀ e ∈ events, e.key ≠ key := by
  induction events with
  | nil => exact Or.inr fun _ he => absurd he List.not_mem_nil
  | cons first rest ih =>
      rcases ih with ⟨e, hkey, he⟩ | hrest
      · exact Or.inl ⟨e, hkey, he.cons first⟩
      · by_cases hfirst : first.key = key
        · exact Or.inl ⟨first, hfirst, [], rest, rfl, fun e he => hfirst ▸ hrest e he⟩
        · refine Or.inr fun e he => ?_
          rcases List.mem_cons.mp he with rfl | he
          · exact hfirst
          · exact hrest e he

/-! ## One event -/

variable {k : TimedKeys}

theorem apply_eq (k : TimedKeys) (e : Event) :
    k.apply e = if e.key.toNat < k.keys then
      { k with lastPress := k.lastPress.set (slot e.key) e.mark } else k := by
  cases e <;> rfl

@[simp] theorem keys_apply (k : TimedKeys) (e : Event) : (k.apply e).keys = k.keys := by
  rw [apply_eq]
  split <;> rfl

@[simp] theorem span_apply (k : TimedKeys) (e : Event) : (k.apply e).span = k.span := by
  rw [apply_eq]
  split <;> rfl

theorem slot_apply_same {e : Event} (h : e.key.toNat < k.keys) :
    (k.apply e).lastPress.get (slot e.key) = e.mark := by
  rw [apply_eq, if_pos h]
  exact Vector.getElem_set_self _

theorem slot_apply_other {e : Event} {key : UInt8} (h : e.key ≠ key) :
    (k.apply e).lastPress.get (slot key) = k.lastPress.get (slot key) := by
  rw [apply_eq]
  split
  · have hslot : e.key.toNat ≠ key.toNat := fun heq => h (UInt8.toNat_inj.mp heq)
    exact Vector.getElem_set_ne (slot e.key).isLt (slot key).isLt hslot
  · rfl

theorem slot_apply_off {key : UInt8} (h : k.keys ≤ key.toNat) (e : Event) :
    (k.apply e).lastPress.get (slot key) = k.lastPress.get (slot key) := by
  by_cases hkey : e.key = key
  · subst hkey
    rw [apply_eq, if_neg (Nat.not_lt.mpr h)]
  · exact slot_apply_other hkey

/-! ## A whole history -/

theorem follow_append (k : TimedKeys) (before after : List Event) :
    k.follow (before ++ after) = (k.follow before).follow after :=
  List.foldl_append

@[simp] theorem keys_follow (events : List Event) : (k.follow events).keys = k.keys := by
  induction events generalizing k with
  | nil => rfl
  | cons e rest ih => exact ih.trans (keys_apply k e)

@[simp] theorem span_follow (events : List Event) : (k.follow events).span = k.span := by
  induction events generalizing k with
  | nil => rfl
  | cons e rest ih => exact ih.trans (span_apply k e)

theorem slot_follow_untouched {key : UInt8} {events : List Event} (h : ∀ e ∈ events, e.key ≠ key) :
    (k.follow events).lastPress.get (slot key) = k.lastPress.get (slot key) := by
  induction events generalizing k with
  | nil => rfl
  | cons e rest ih =>
      have hrest := ih (k := k.apply e) fun e' he' => h e' (List.mem_cons_of_mem _ he')
      exact hrest.trans (slot_apply_other (h e List.mem_cons_self))

theorem slot_follow_off {key : UInt8} (h : k.keys ≤ key.toNat) (events : List Event) :
    (k.follow events).lastPress.get (slot key) = k.lastPress.get (slot key) := by
  induction events generalizing k with
  | nil => rfl
  | cons e rest ih => exact (ih ((keys_apply k e).symm ▸ h)).trans (slot_apply_off h e)

theorem slot_follow_of_latest {e : Event} {events : List Event} (h : Latest e events)
    (hkey : e.key.toNat < k.keys) : (k.follow events).lastPress.get (slot e.key) = e.mark := by
  obtain ⟨before, after, rfl, hafter⟩ := h
  have hbefore : e.key.toNat < (k.follow before).keys := (keys_follow before).symm ▸ hkey
  rw [follow_append]
  exact (slot_follow_untouched hafter).trans (slot_apply_same hbefore)

/-! ## Held keys -/

theorem isHeld_eq (k : TimedKeys) (key : UInt8) (now : Nat) :
    k.isHeld key now = (k.lastPress.get (slot key)).any fun t => now - t < k.span := by
  have hslot : k.lastPress[slot key] = k.lastPress.get (slot key) := rfl
  unfold isHeld
  rw [hslot]
  cases k.lastPress.get (slot key) with
  | none => rfl
  | some t => rfl

theorem isHeld_eq_true_iff {key : UInt8} {now : Nat} :
    k.isHeld key now = true ↔ ∃ t, k.lastPress.get (slot key) = some t ∧ now - t < k.span := by
  rw [isHeld_eq, Option.any_eq_true]
  simp only [decide_eq_true_eq]

theorem isHeld_congr {k' : TimedKeys} {key : UInt8}
    (hslot : k.lastPress.get (slot key) = k'.lastPress.get (slot key)) (hspan : k.span = k'.span)
    (now : Nat) : k.isHeld key now = k'.isHeld key now := by
  rw [isHeld_eq, isHeld_eq, hslot, hspan]

/-- A keypad nobody has touched. -/
def Untouched (k : TimedKeys) : Prop :=
  ∀ key, k.lastPress.get (slot key) = none

theorem exists_new {keys : Nat} (hfits : slotBytes * keys < bufferLimit) (span : Nat) :
    ∃ k, new? keys span = some k ∧ k.keys = keys ∧ k.span = span ∧ k.Untouched :=
  ⟨_, if_pos hfits, rfl, rfl, fun _ => Vector.getElem_replicate _⟩

/-- A key is held if it is on the keypad and its last event is a press that has not run
out. -/
theorem isHeld_follow_iff (hnew : k.Untouched) (events : List Event) (key : UInt8) (now : Nat) :
    (k.follow events).isHeld key now = true ↔
      key.toNat < k.keys ∧ ∃ t, Latest (.press key t) events ∧ now - t < k.span := by
  rw [isHeld_eq_true_iff, span_follow]
  constructor
  · rintro ⟨t, hslot, hspan⟩
    have hon : key.toNat < k.keys := by
      refine Nat.lt_of_not_le fun hoff => ?_
      rw [slot_follow_off hoff, hnew] at hslot
      cases hslot
    rcases latest_or_untouched key events with ⟨e, rfl, he⟩ | hnone
    · rw [slot_follow_of_latest he hon] at hslot
      cases e with
      | press key' t' =>
          obtain rfl : t' = t := Option.some.inj hslot
          exact ⟨hon, t', he, hspan⟩
      | release key' => cases hslot
    · rw [slot_follow_untouched hnone, hnew] at hslot
      cases hslot
  · rintro ⟨hon, t, he, hspan⟩
    exact ⟨t, slot_follow_of_latest he hon, hspan⟩

theorem isHeld_eq_false_of_le {key : UInt8} {now later : Nat} (hle : now ≤ later)
    (h : k.isHeld key now = false) : k.isHeld key later = false := by
  refine Bool.eq_false_iff.mpr fun hlater => ?_
  obtain ⟨t, hslot, hspan⟩ := isHeld_eq_true_iff.mp hlater
  have hnow : k.isHeld key now = true := isHeld_eq_true_iff.mpr ⟨t, hslot, by omega⟩
  exact Bool.noConfusion (h.symm.trans hnow)

/-! ## The lowest held key -/

/-- No key is held that is not on the keypad. -/
def Confined (k : TimedKeys) (now : Nat) : Prop :=
  ∀ key, k.isHeld key now = true → key.toNat < k.keys

theorem confined_follow (hnew : k.Untouched) (events : List Event) (now : Nat) :
    (k.follow events).Confined now := by
  intro key hheld
  rw [keys_follow]
  exact ((isHeld_follow_iff hnew events key now).mp hheld).1

theorem firstHeld_eq_none_iff {now : Nat} (h : k.Confined now) :
    k.firstHeld now = none ↔ ∀ key, k.isHeld key now = false := by
  unfold firstHeld
  rw [List.find?_eq_none]
  constructor
  · intro hnone key
    refine Bool.eq_false_iff.mpr fun hheld => ?_
    refine hnone key (List.mem_map.mpr ⟨key.toNat, ?_, UInt8.ofNat_toNat⟩) hheld
    exact List.mem_range.mpr (h key hheld)
  · intro hnone key _ hheld
    exact Bool.noConfusion ((hnone key).symm.trans hheld)

/-- The search finds the lowest held key, also where it would come round to the same keys
again: a number above 255 is met after the key that it is cut down to. -/
theorem firstHeld_eq_some_iff {now : Nat} {key : UInt8} (h : k.Confined now) :
    k.firstHeld now = some key ↔
      k.isHeld key now = true ∧ ∀ key' < key, k.isHeld key' now = false := by
  unfold firstHeld
  rw [List.find?_map, Option.map_eq_some_iff]
  constructor
  · rintro ⟨n, hn, rfl⟩
    obtain ⟨hheld, -, hbefore⟩ := List.find?_range_eq_some.mp hn
    have hle : (UInt8.ofNat n).toNat ≤ n := by
      rw [UInt8.toNat_ofNat']
      exact Nat.mod_le n _
    refine ⟨hheld, fun key' hlt => ?_⟩
    have hskipped := hbefore key'.toNat (Nat.lt_of_lt_of_le (UInt8.lt_iff_toNat_lt.mp hlt) hle)
    simpa using hskipped
  · rintro ⟨hheld, hlow⟩
    refine ⟨key.toNat, List.find?_range_eq_some.mpr ⟨?_, ?_, fun n hn => ?_⟩, UInt8.ofNat_toNat⟩
    · simpa using hheld
    · exact List.mem_range.mpr (h key hheld)
    · have hn' : n < 256 := Nat.lt_trans hn key.toNat_lt
      have hlt : UInt8.ofNat n < key := by
        rw [UInt8.lt_iff_toNat_lt, UInt8.toNat_ofNat', Nat.mod_eq_of_lt hn']
        exact hn
      simpa using hlow _ hlt

theorem keypad_consistent {now : Nat} (h : k.Confined now) : (k.keypad now).Consistent :=
  ⟨fun _ => firstHeld_eq_some_iff h, firstHeld_eq_none_iff h⟩

/-! ## The last event decides -/

/-- On a keypad of any size that the host has room for, after any history, a key is held at
a time exactly if it is on the keypad and its last event is a press from which less than the
span has gone by; a press that is still to come counts as one just made. Each key answers as
if its last event were all that ever happened. The lowest key is the lowest that is held, and
there is none exactly if none is held. Without a further event a key that is not held is
never held again. -/
theorem keypad_follow {keys : Nat} (hfits : slotBytes * keys < bufferLimit) (span : Nat)
    (events : List Event) :
    ∃ k, new? keys span = some k ∧
      (∀ key now, ((k.follow events).keypad now).held key = true ↔
        key.toNat < keys ∧ ∃ t, Latest (.press key t) events ∧ now - t < span) ∧
      (∀ e, Latest e events → ∀ now,
        ((k.follow events).keypad now).held e.key = ((k.apply e).keypad now).held e.key) ∧
      (∀ now, ((k.follow events).keypad now).Consistent) ∧
      ∀ key now later, now ≤ later → ((k.follow events).keypad now).held key = false →
        ((k.follow events).keypad later).held key = false := by
  obtain ⟨k, hk, rfl, rfl, hnew⟩ := exists_new hfits span
  refine ⟨k, hk, isHeld_follow_iff hnew events, fun e he now => ?_,
    fun now => keypad_consistent (confined_follow hnew events now),
    fun _ _ _ => isHeld_eq_false_of_le⟩
  refine isHeld_congr ?_ ((span_follow events).trans (span_apply k e).symm) now
  by_cases hon : e.key.toNat < k.keys
  · exact (slot_follow_of_latest he hon).trans (slot_apply_same hon).symm
  · have hoff : k.keys ≤ e.key.toNat := Nat.not_lt.mp hon
    exact (slot_follow_off hoff events).trans (slot_apply_off hoff e).symm

/-- On a keypad of 300 keys the search for a held key goes past the last byte; at the time
100 it comes back with nothing, as the last of three presses has run out just then. -/
theorem keypad_follow_expired : ∃ (k : TimedKeys) (events : List Event),
    events = [.press 9 40, .press 3 60, .press 9 70, .release 4] ∧ new? 300 30 = some k ∧
    ((k.follow events).keypad 99).lowest = some 9 ∧
    ((k.follow events).keypad 100).lowest = none := by
  obtain ⟨events, hevents⟩ : ∃ events : List Event,
    events = [.press 9 40, .press 3 60, .press 9 70, .release 4] := ⟨_, rfl⟩
  have hfits : slotBytes * 300 < bufferLimit := by decide
  obtain ⟨k, hk, hheld, -, hlowest, -⟩ := keypad_follow hfits 30 events
  have hpress : ∀ key t, Latest (.press key t) events →
      (key = 9 ∧ t = 40) ∨ (key = 3 ∧ t = 60) ∨ (key = 9 ∧ t = 70) := by
    intro key t h
    simpa [hevents] using h.mem
  refine ⟨k, events, hevents, hk, ((hlowest 99).1 9).mpr ⟨(hheld 9 99).mpr ?_, fun key' hlt => ?_⟩,
    (hlowest 100).2.mpr fun key => ?_⟩
  · exact ⟨by decide, 70, ⟨[.press 9 40, .press 3 60], [.release 4], hevents, by simp [Event.key]⟩,
      by decide⟩
  · refine Bool.eq_false_iff.mpr fun h => ?_
    obtain ⟨-, t, ht, hspan⟩ := (hheld key' 99).mp h
    rcases hpress key' t ht with ⟨rfl, -⟩ | ⟨-, rfl⟩ | ⟨rfl, -⟩
    · exact absurd hlt (by decide)
    · exact absurd hspan (by decide)
    · exact absurd hlt (by decide)
  · refine Bool.eq_false_iff.mpr fun h => ?_
    obtain ⟨-, t, ht, hspan⟩ := (hheld key 100).mp h
    rcases hpress key t ht with ⟨-, rfl⟩ | ⟨-, rfl⟩ | ⟨-, rfl⟩
    all_goals exact absurd hspan (by decide)

end TimedKeys

/-! ## Keys that are let go by hand -/

namespace ManualKeys

theorem keypad_consistent (k : ManualKeys) : k.keypad.Consistent := by
  constructor
  · intro key
    show k.down.min? = some key ↔ decide (key ∈ k.down) = true ∧
      ∀ key' < key, decide (key' ∈ k.down) = false
    rw [List.min?_eq_some_iff, decide_eq_true_iff]
    refine and_congr_right fun _ => forall_congr' fun key' => ?_
    rw [decide_eq_false_iff_not]
    constructor
    · intro h hlt hmem
      exact absurd hlt (UInt8.not_lt.mpr (h hmem))
    · intro h hmem
      exact UInt8.not_lt.mp fun hlt => h hlt hmem
  · show k.down.min? = none ↔ ∀ key, decide (key ∈ k.down) = false
    rw [List.min?_eq_none_iff, List.eq_nil_iff_forall_not_mem]
    exact forall_congr' fun key => decide_eq_false_iff_not.symm

end ManualKeys

end ChipEight
