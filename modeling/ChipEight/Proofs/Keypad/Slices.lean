import ChipEight.Keypad.Bytes
import ChipEight.Proofs.Flow.Delivery
import ChipEight.Proofs.Keypad.Holding

/-!
# Keys from a stream, however it is sliced

The bytes of a stream come in slices, each at a time of its own, and a keyboard takes them
one slice after the other. Taken apart from its slices, a stream is a list of arrivals: bytes,
each with the time of the slice it came in (`readSource_eq`). On a keyboard a list of arrivals
does two things. It makes a history of presses, so that what holds of timed keypads after a
history decides which keys are held, and it asks to leave if one of its bytes does
(`foldl_byte`).

As long as no press has run out, a history of presses holds a key exactly if it presses it
(`isHeld_follow_presses_iff`), and the times do not matter any more. What is left is the bytes
that the stream delivers: two streams that deliver the same bytes come to the same answers,
and if they end alike, to the same notes (`ofSource?_delivered`).
-/

namespace ChipEight

/-! ## The layout, byte by byte -/

namespace Layout

theorem keyOfByte?_eq_some_iff {b key : UInt8} :
    keyOfByte? b = some key ↔ (Char.ofNat (lowerByte b).toNat, key) ∈ table := by
  have hlookup : ∀ p ∈ table, table.lookup p.1 = some p.2 := by decide
  constructor
  · intro h
    obtain ⟨before, after, htable, -⟩ := List.lookup_eq_some_iff.mp h
    rw [htable]
    exact List.mem_append_right _ List.mem_cons_self
  · exact hlookup _

end Layout

namespace TimedKeys

theorem isHeld_follow_presses_iff {k : TimedKeys} (hnew : k.Untouched) {events : List Event}
    {now : Nat} (h : ∀ e ∈ events, ∃ key t, e = .press key t ∧ now - t < k.span) (key : UInt8) :
    (k.follow events).isHeld key now = true ↔
      key.toNat < k.keys ∧ ∃ t, Event.press key t ∈ events := by
  rw [isHeld_follow_iff hnew]
  refine and_congr_right fun _ => ⟨?_, ?_⟩
  · rintro ⟨t, hlatest, -⟩
    exact ⟨t, hlatest.mem⟩
  · rintro ⟨t, hmem⟩
    rcases latest_or_untouched key events with ⟨e, hkey, he⟩ | hnone
    · obtain ⟨key', t', rfl, hspan⟩ := h e he.mem
      obtain rfl : key' = key := hkey
      exact ⟨t', he, hspan⟩
    · exact absurd rfl (hnone _ hmem)

end TimedKeys

namespace ByteKeys

/-! ## Arrivals -/

theorem room_pos : 0 < room := by decide

/-- The bytes of slices, each with the time at which its slice came. -/
def arrivals (clock : Nat → Nat) (slices : List (List UInt8)) : List (UInt8 × Nat) :=
  slices.zipIdx.flatMap fun (b, i) => b.map fun byte => (byte, clock i)

theorem bytes_arrivals (clock : Nat → Nat) (slices : List (List UInt8)) :
    (arrivals clock slices).map Prod.fst = slices.flatten := by
  unfold arrivals
  simp only [List.map_flatMap, List.map_map, Function.comp_def, List.map_id']
  rw [List.flatMap_def, List.zipIdx_map_fst]

theorem exists_time {clock : Nat → Nat} {slices : List (List UInt8)} {a : UInt8 × Nat}
    (h : a ∈ arrivals clock slices) : ∃ i < slices.length, a.2 = clock i := by
  obtain ⟨⟨b, i⟩, hslice, ha⟩ := List.mem_flatMap.mp h
  obtain ⟨byte, -, rfl⟩ := List.mem_map.mp ha
  exact ⟨i, List.snd_lt_of_mem_zipIdx hslice, rfl⟩

/-- The press that an arrival is, if its byte has a key. -/
def press? (a : UInt8 × Nat) : Option TimedKeys.Event :=
  (Layout.keyOfByte? a.1).map fun key => .press key a.2

theorem asksToQuit_iff {b : UInt8} : asksToQuit b = true ↔ b = 0x1b ∨ b = 0x03 := by
  simp [asksToQuit]

theorem keyOfByte?_of_asksToQuit {b : UInt8} (h : asksToQuit b = true) :
    Layout.keyOfByte? b = none := by
  rcases asksToQuit_iff.mp h with rfl | rfl
  all_goals decide

theorem byte_eq (k : ByteKeys) (a : UInt8 × Nat) :
    k.byte a.2 a.1 =
      { keys := k.keys.follow (press? a).toList, quit := k.quit || asksToQuit a.1 } := by
  unfold byte press?
  cases hquit : asksToQuit a.1 with
  | true =>
      rw [keyOfByte?_of_asksToQuit hquit, Bool.or_true]
      rfl
  | false =>
      rw [Bool.or_false]
      cases Layout.keyOfByte? a.1 with
      | some key => rfl
      | none => rfl

/-- What arrivals do to a keyboard: a history of presses, and perhaps the wish to leave. -/
theorem foldl_byte (k : ByteKeys) (as : List (UInt8 × Nat)) :
    as.foldl (fun k a => k.byte a.2 a.1) k =
      { keys := k.keys.follow (as.filterMap press?)
        quit := k.quit || as.any fun a => asksToQuit a.1 } := by
  induction as generalizing k with
  | nil => rw [List.any_nil, Bool.or_false]; rfl
  | cons a rest ih =>
      rw [List.foldl_cons, ih, byte_eq, List.filterMap_cons, List.any_cons, Bool.or_assoc]
      cases press? a with
      | none => rfl
      | some e => rfl

theorem readSource_eq (clock : Nat → Nat) (k : ByteKeys) (source : Source) :
    k.readSource clock source =
      (arrivals clock (source.readAll room room_pos).1).foldl
        (fun k a => k.byte a.2 a.1) k := by
  unfold readSource arrivals slice
  rw [List.foldl_flatMap]
  simp only [List.foldl_map]

theorem mem_presses_iff {as : List (UInt8 × Nat)} {e : TimedKeys.Event} :
    e ∈ as.filterMap press? ↔
      ∃ a ∈ as, ∃ key, Layout.keyOfByte? a.1 = some key ∧ e = .press key a.2 := by
  simp only [List.mem_filterMap, press?, Option.map_eq_some_iff, @eq_comm _ e]

theorem exists_press_iff {as : List (UInt8 × Nat)} {key : UInt8} :
    (∃ t, TimedKeys.Event.press key t ∈ as.filterMap press?) ↔
      ∃ b ∈ as.map Prod.fst, Layout.keyOfByte? b = some key := by
  constructor
  · rintro ⟨t, ht⟩
    obtain ⟨a, ha, key', hkey, he⟩ := mem_presses_iff.mp ht
    obtain ⟨rfl, -⟩ := TimedKeys.Event.press.inj he
    exact ⟨a.1, List.mem_map_of_mem ha, hkey⟩
  · rintro ⟨b, hb, hkey⟩
    obtain ⟨a, ha, rfl⟩ := List.mem_map.mp hb
    exact ⟨a.2, mem_presses_iff.mpr ⟨a, ha, key, hkey, rfl⟩⟩

/-! ## A stream that was read to its end -/

/-- The arrivals of a source that is read to its end. -/
def arrived (clock : Nat → Nat) (source : Source) : List (UInt8 × Nat) :=
  arrivals clock (source.readAll room room_pos).1

theorem bytes_arrived (clock : Nat → Nat) (source : Source) :
    (arrived clock source).map Prod.fst = source.delivered :=
  (bytes_arrivals _ _).trans (Source.readAll_delivers _ source).1

/-- No press has run out that came with a slice of a source. -/
def Unexpired (s : Settings) (clock : Nat → Nat) (source : Source) (now : Nat) : Prop :=
  ∀ i < (source.readAll room room_pos).1.length, now - clock i < s.autoRelease

/-- Where the host has room for the keys, a keyboard has taken the arrivals. -/
theorem exists_ofSource {s : Settings} (hfits : TimedKeys.slotBytes * s.keys < bufferLimit)
    (clock : Nat → Nat) (source : Source) : ∃ k : TimedKeys,
      k.keys = s.keys ∧ k.span = s.autoRelease ∧ k.Untouched ∧
      ofSource? s clock source = some {
        keys := k.follow ((arrived clock source).filterMap press?)
        quit := source.delivered.any asksToQuit } := by
  obtain ⟨k, hk, hkeys, hspan, hnew⟩ := TimedKeys.exists_new hfits s.autoRelease
  refine ⟨k, hkeys, hspan, hnew, ?_⟩
  unfold ofSource? new?
  rw [hk, Option.map_some, Option.map_some, readSource_eq]
  refine congrArg some ((foldl_byte _ (arrived clock source)).trans ?_)
  rw [← bytes_arrived clock source, List.any_map, Bool.false_or]
  rfl

theorem held_iff_of_unexpired {s : Settings} {clock : Nat → Nat} {source : Source}
    {k : TimedKeys} (hspan : k.span = s.autoRelease) (hnew : k.Untouched) {now : Nat}
    (h : Unexpired s clock source now) (key : UInt8) :
    (k.follow ((arrived clock source).filterMap press?)).isHeld key now = true ↔
      key.toNat < k.keys ∧ ∃ b ∈ source.delivered, Layout.keyOfByte? b = some key := by
  rw [TimedKeys.isHeld_follow_presses_iff hnew, exists_press_iff, bytes_arrived]
  intro e he
  obtain ⟨a, ha, key', -, rfl⟩ := mem_presses_iff.mp he
  obtain ⟨i, hi, htime⟩ := exists_time ha
  exact ⟨key', a.2, rfl, htime ▸ hspan ▸ h i hi⟩

/-! ## What is noted -/

/-- A byte that belongs to no key and does not ask to leave. -/
def isUnmapped (b : UInt8) : Bool :=
  !asksToQuit b && (Layout.keyOfByte? b).isNone

theorem note?_eq (b : UInt8) :
    note? b = if isUnmapped b then some (.unmapped (Layout.lowerByte b)) else none := by
  unfold note? isUnmapped
  cases asksToQuit b with
  | true => rfl
  | false =>
      cases Layout.keyOfByte? b with
      | some key => rfl
      | none => rfl

theorem notes_eq (source : Source) :
    notes source = (source.delivered.filter isUnmapped).map (fun b => .unmapped (Layout.lowerByte b))
      ++ [endNote source.ending] := by
  obtain ⟨hbytes, hending⟩ := Source.readAll_delivers room_pos source
  show (source.readAll room _).1.flatten.filterMap note? ++ [endNote (source.readAll room _).2] = _
  rw [hbytes, hending, funext note?_eq, ← List.filterMap_filter, ← List.filterMap_eq_map]
  rfl

/-! ## The bytes decide -/

/-- A source is read to its end on a keyboard of any settings that the host has room for,
and its slices come at any times. As long as no press has run out, the held keys are the keys
of the keypad that the delivered bytes have in the layout, in either case of letters; the
lowest key is the lowest of those. If presses do not last at all, none is ever held. Escape or
control-c anywhere among the bytes asks to leave. Each byte that means nothing is noted, in
order, and then the end is. Any source that delivers the same bytes, in whatever slices and at
whatever times, comes to the same answers, and if it ends in the same way, to the same
notes. -/
theorem ofSource?_delivered {s : Settings} (hfits : TimedKeys.slotBytes * s.keys < bufferLimit)
    (clock : Nat → Nat) (source : Source) : ∃ k, ofSource? s clock source = some k ∧
      (∀ now, Unexpired s clock source now → ∀ key, (k.keypad now).held key = true ↔
        key.toNat < s.keys ∧ ∃ b ∈ source.delivered,
          (Char.ofNat (Layout.lowerByte b).toNat, key) ∈ Layout.table) ∧
      (∀ now, (k.keypad now).Consistent) ∧
      (s.autoReleaseMs = 0 → ∀ now key, (k.keypad now).held key = false) ∧
      (k.quit = true ↔ ∃ b ∈ source.delivered, b = 0x1b ∨ b = 0x03) ∧
      notes source =
        (source.delivered.filter isUnmapped).map (fun b => .unmapped (Layout.lowerByte b))
          ++ [endNote source.ending] ∧
      ∀ clock' source', source'.delivered = source.delivered →
        ∃ k', ofSource? s clock' source' = some k' ∧ k'.quit = k.quit ∧
          (∀ now now', Unexpired s clock source now → Unexpired s clock' source' now' →
            k'.keypad now' = k.keypad now) ∧
          (source'.ending = source.ending → notes source' = notes source) := by
  obtain ⟨k, hkeys, hspan, hnew, hk⟩ := exists_ofSource hfits clock source
  have hconsistent : ∀ (k : TimedKeys), k.Untouched → ∀ clock source now,
      ((k.follow ((arrived clock source).filterMap press?)).keypad now).Consistent :=
    fun k hnew clock source now => TimedKeys.keypad_consistent (TimedKeys.confined_follow hnew _ now)
  refine ⟨_, hk, fun now hnow key => ?_, hconsistent k hnew clock source, fun hzero now key => ?_,
    ?_, notes_eq source, fun clock' source' hsame => ?_⟩
  · simp only [← Layout.keyOfByte?_eq_some_iff, ← hkeys]
    exact held_iff_of_unexpired hspan hnew hnow key
  · refine Bool.eq_false_iff.mpr fun hheld => ?_
    obtain ⟨-, t, -, hlt⟩ := (TimedKeys.isHeld_follow_iff hnew _ key now).mp hheld
    rw [hspan, Settings.autoRelease, hzero] at hlt
    omega
  · rw [List.any_eq_true]
    simp only [asksToQuit_iff]
  · obtain ⟨k', hkeys', hspan', hnew', hk'⟩ := exists_ofSource hfits clock' source'
    refine ⟨_, hk', congrArg (·.any asksToQuit) hsame, fun now now' hnow hnow' => ?_, fun hend => ?_⟩
    · refine (hconsistent k' hnew' clock' source' now').ext (hconsistent k hnew clock source now)
        fun key => Bool.eq_iff_iff.mpr ?_
      refine (held_iff_of_unexpired hspan' hnew' hnow' key).trans
        (Iff.trans ?_ (held_iff_of_unexpired hspan hnew hnow key).symm)
      rw [hsame, hkeys', hkeys]
    · rw [notes_eq, notes_eq, hsame, hend]

/-- Five bytes in two slices and in one: the keys of a capital letter, a small one and a digit,
a byte that means nothing, and escape. What comes after the empty piece is never read. -/
theorem ofSource?_delivered_twice : ∃ (s : Settings) (k k' : ByteKeys) (cut whole : Source),
    s = { autoReleaseMs := 1 } ∧
    cut = [.bytes [0x5a, 0x71], .interrupted, .bytes [0x31, 0x3f, 0x1b], .bytes [], .bytes [0x61]] ∧
    whole = [.bytes [0x5a, 0x71, 0x31, 0x3f, 0x1b]] ∧
    ofSource? s id cut = some k ∧ ofSource? s id whole = some k' ∧
    (k.keypad 9).held 0xa = true ∧ (k.keypad 9).held 0x7 = false ∧ k.quit = true ∧
    k'.keypad 9 = k.keypad 9 ∧ notes cut = [.unmapped 0x3f, .keysEnded] := by
  obtain ⟨s, hs⟩ : ∃ s : Settings, s = { autoReleaseMs := 1 } := ⟨_, rfl⟩
  obtain ⟨cut, hcut⟩ : ∃ cut : Source, cut = [.bytes [0x5a, 0x71], .interrupted,
    .bytes [0x31, 0x3f, 0x1b], .bytes [], .bytes [0x61]] := ⟨_, rfl⟩
  obtain ⟨whole, hwhole⟩ : ∃ whole : Source, whole = [.bytes [0x5a, 0x71, 0x31, 0x3f, 0x1b]] :=
    ⟨_, rfl⟩
  have hfits : TimedKeys.slotBytes * s.keys < bufferLimit := by rw [hs]; decide
  have hlasts : ∀ source, Unexpired s id source 9 := by
    intro source i _
    have hspan : s.autoRelease = 1000000 := by rw [hs]; rfl
    omega
  have hbytes : cut.delivered = [0x5a, 0x71, 0x31, 0x3f, 0x1b] := by rw [hcut]; rfl
  obtain ⟨k, hk, hheld, -, -, hquit, hnotes, hsame⟩ := ofSource?_delivered hfits id cut
  obtain ⟨k', hk', -, hkeypad, -⟩ := hsame id whole (by rw [hbytes, hwhole]; rfl)
  refine ⟨s, k, k', cut, whole, hs, hcut, hwhole, hk, hk', ?_, ?_, ?_,
    hkeypad 9 9 (hlasts cut) (hlasts whole), ?_⟩
  · rw [hheld 9 (hlasts cut), hbytes, hs]
    decide
  · rw [← Bool.not_eq_true, hheld 9 (hlasts cut), hbytes, hs]
    decide
  · rw [hquit, hbytes]
    decide
  · rw [hnotes, hbytes, hcut]
    decide

end ByteKeys

end ChipEight
