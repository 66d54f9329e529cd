import ChipEight.Proofs.Picture.Reading

/-!
# Pictures cut short

A screen is drawn on and shown from time to time, and what is shown goes to a sink that takes so
many bytes and no more. Showing never touches the screen, whatever it is shown on (`play?_eq`), so
the screens that are shown are known without a sink: `shownIn?` lists them.

The rest is about their frames, one after the other (`showAll_limited`). While there is room every
frame is taken whole. The first for which there is not room enough is taken up to the limit, be it
in the middle of a character; from then on the sink is full, and since no frame of a screen with
rows is empty (`frame_ne_nil`), each later one fails at its first byte (`showAll_full`).
-/

namespace ChipEight.Viewer

open HalfBlock
open Screen (Stroke paint?)

variable {σ : Type}

/-! ## Drawing and showing -/

/-- What happens to a screen that is shown from time to time. -/
inductive Scene
  | stroke (k : Stroke)
  /-- The screen is shown as it is. -/
  | showing

/-- The strokes of scenes. -/
def strokes (scenes : List Scene) : List Stroke :=
  scenes.filterMap fun
    | .stroke k => some k
    | .showing => none

/-- Scenes one after the other: the fault of each showing, if there was one, the screen and the
state afterwards. -/
def play? (view : Viewer σ) : List Scene → Screen → σ → Option (List (Option Fault) × Screen × σ)
  | [], s, v => some ([], s, v)
  | .stroke k :: rest, s, v => (s.stroke? k).bind fun s => play? view rest s v
  | .showing :: rest, s, v => do
    let (fault, v) ← view v s
    let (faults, s, v) ← play? view rest s v
    some (fault :: faults, s, v)

/-- The screens that are shown, and the screen that is left, if showing does nothing to it. -/
def shownIn? : List Scene → Screen → Option (List Screen × Screen)
  | [], s => some ([], s)
  | .stroke k :: rest, s => (s.stroke? k).bind (shownIn? rest)
  | .showing :: rest, s => (shownIn? rest s).map fun (shown, t) => (s :: shown, t)

theorem play?_eq (view : Viewer σ) : ∀ (scenes : List Scene) (s : Screen) (v : σ),
    view.play? scenes s v = (shownIn? scenes s).bind fun (shown, t) =>
      (view.showAll shown v).map fun (faults, v) => (faults, t, v)
  | [], _, _ => rfl
  | .stroke k :: rest, s, v => by
      rw [play?, shownIn?, Option.bind_assoc]
      exact congrArg _ (funext fun t => play?_eq view rest t v)
  | .showing :: rest, s, v => by
      have hrest := play?_eq view rest s
      cases hview : view v s with
      | none => cases hshown : shownIn? rest s <;> simp [play?, shownIn?, showAll, hview, hshown]
      | some out =>
          cases hshown : shownIn? rest s <;>
            simp [play?, shownIn?, showAll, hview, hshown, hrest, Option.map_bind, Option.bind_map]

theorem paint?_strokes : ∀ (scenes : List Scene) (s : Screen),
    paint? (strokes scenes) s = (shownIn? scenes s).map Prod.snd
  | [], _ => rfl
  | .stroke k :: rest, s => by
      rw [shownIn?, Option.map_bind]
      exact congrArg _ (funext fun t => paint?_strokes rest t)
  | .showing :: rest, s => by
      rw [shownIn?, Option.map_map]
      exact paint?_strokes rest s

theorem height_of_shownIn? : ∀ (scenes : List Scene) {s t : Screen} {shown : List Screen},
    shownIn? scenes s = some (shown, t) → t.height = s.height ∧ ∀ u ∈ shown, u.height = s.height
  | [], s, _, _, h => by
      obtain ⟨rfl, rfl⟩ := Prod.mk.inj (Option.some.inj h)
      exact ⟨rfl, fun _ hu => absurd hu List.not_mem_nil⟩
  | .stroke k :: rest, s, _, _, h => by
      obtain ⟨mid, hmid, h⟩ := Option.bind_eq_some_iff.mp h
      have hheight := (Screen.kept_of_stroke? hmid).2.1
      obtain ⟨ht, hshown⟩ := height_of_shownIn? rest h
      exact ⟨ht.trans hheight, fun u hu => (hshown u hu).trans hheight⟩
  | .showing :: rest, s, _, _, h => by
      obtain ⟨⟨shown, t⟩, hrest, h⟩ := Option.map_eq_some_iff.mp h
      obtain ⟨rfl, rfl⟩ := Prod.mk.inj h
      obtain ⟨ht, hshown⟩ := height_of_shownIn? rest hrest
      exact ⟨ht, List.forall_mem_cons.mpr ⟨rfl, hshown⟩⟩

theorem shownIn?_append : ∀ (scenes later : List Scene) (s : Screen),
    shownIn? (scenes ++ later) s = (shownIn? scenes s).bind fun (shown, t) =>
      (shownIn? later t).map fun (more, u) => (shown ++ more, u)
  | [], later, s => by simp [shownIn?]
  | .stroke k :: rest, later, s => by
      rw [List.cons_append, shownIn?, shownIn?, Option.bind_assoc]
      exact congrArg _ (funext fun t => shownIn?_append rest later t)
  | .showing :: rest, later, s => by
      rw [List.cons_append, shownIn?, shownIn?, shownIn?_append rest later s]
      cases shownIn? rest s <;> simp [Function.comp_def]

theorem showAll_append (view : Viewer σ) : ∀ (shown more : List Screen) (v : σ),
    view.showAll (shown ++ more) v = (view.showAll shown v).bind fun (faults, v) =>
      (view.showAll more v).map fun (rest, v) => (faults ++ rest, v)
  | [], more, v => by simp [showAll]
  | s :: shown, more, v => by
      rw [List.cons_append, showAll, showAll]
      cases view v s with
      | none => rfl
      | some out =>
          simp only [Option.bind_eq_bind, Option.bind_some]
          rw [showAll_append view shown more out.2]
          cases view.showAll shown out.2 with
          | none => rfl
          | some mid =>
              simp only [Option.bind_some]
              cases view.showAll more mid.2 <;> rfl

/-! ## Frames and a limit -/

/-- The bytes of the frames of screens, one frame after the other. -/
def film (home : Bool) (shown : List Screen) : List UInt8 :=
  (shown.map (frame home)).flatten

/-- What a sink says that can take no more. -/
def fullFault : Fault :=
  .io (.other Sink.fullText)

/-- What showing screens comes to if there is room for so many bytes: a frame is shown if there is
room for it and for all frames before it. -/
def verdicts (home : Bool) (room : Nat) (shown : List Screen) : List (Option Fault) :=
  (List.range shown.length).map fun i =>
    if (film home (shown.take (i + 1))).length ≤ room then none else some fullFault

@[simp] theorem film_cons (home : Bool) (s : Screen) (shown : List Screen) :
    film home (s :: shown) = frame home s ++ film home shown := rfl

theorem frame_ne_nil (home : Bool) {s : Screen} (hs : 0 < s.height) : frame home s ≠ [] := by
  intro hnil
  have hempty : frameText home s = "" := encoded_inj (hnil.trans rfl)
  have hlength := length_frameText home s
  have hlines : 0 < lineCount s.height * (s.width + 2) :=
    Nat.mul_pos (Nat.zero_lt_of_lt (lt_lineCount hs)) (Nat.succ_pos _)
  rw [hempty] at hlength
  have hzero : "".length = 0 := rfl
  omega

theorem verdicts_of_room {home : Bool} {room : Nat} {s : Screen} (shown : List Screen)
    (h : (frame home s).length ≤ room) : verdicts home room (s :: shown) =
      none :: verdicts home (room - (frame home s).length) shown := by
  unfold verdicts
  rw [List.length_cons, List.range_succ_eq_map, List.map_cons, List.map_map]
  have hfirst : (film home ((s :: shown).take (0 + 1))).length ≤ room := by simpa [film] using h
  rw [if_pos hfirst]
  refine congrArg _ (List.map_congr_left fun i _ => ?_)
  have hlater : (film home ((s :: shown).take (i + 1 + 1))).length ≤ room ↔
      (film home (shown.take (i + 1))).length ≤ room - (frame home s).length := by
    rw [List.take_succ_cons, film_cons, List.length_append]
    omega
  show (if _ then _ else _) = if _ then _ else _
  simp only [hlater]

/-- If there is not room for a frame, neither it nor any after it is shown. -/
theorem verdicts_of_short {home : Bool} {room : Nat} {s : Screen} (shown : List Screen)
    (h : room < (frame home s).length) :
    verdicts home room (s :: shown) = List.replicate (shown.length + 1) (some fullFault) := by
  unfold verdicts
  rw [List.length_cons, List.eq_replicate_iff]
  refine ⟨by simp, fun v hv => ?_⟩
  obtain ⟨i, -, rfl⟩ := List.mem_map.mp hv
  refine if_neg ?_
  rw [List.take_succ_cons, film_cons, List.length_append]
  omega

theorem room_lt_of_verdicts {home : Bool} {room : Nat} {shown : List Screen} {f : Fault}
    (h : some f ∈ verdicts home room shown) : room < (film home shown).length := by
  obtain ⟨i, -, hi⟩ := List.mem_map.mp h
  have hshort : room < (film home (shown.take (i + 1))).length := by
    by_contra hroom
    rw [if_pos (Nat.le_of_not_lt hroom)] at hi
    cases hi
  have hsplit : film home shown =
      film home (shown.take (i + 1)) ++ film home (shown.drop (i + 1)) := by
    rw [film, film, film, ← List.flatten_append, ← List.map_append, List.take_append_drop]
  rw [hsplit, List.length_append]
  omega

theorem showAll_full (home : Bool) {sink : Sink} (hfull : sink.isFull = true) :
    ∀ {shown : List Screen}, (∀ s ∈ shown, 0 < s.height) →
      (writing home).showAll shown sink =
        some (List.replicate shown.length (some fullFault), sink)
  | [], _ => rfl
  | s :: shown, h => by
      obtain ⟨hs, hshown⟩ := List.forall_mem_cons.mp h
      have hfirst : writing home sink s = some (some fullFault, sink) := by
        rw [writing, Sink.writeFlush_of_full hfull (frame_ne_nil home hs)]
        rfl
      rw [showAll, hfirst]
      simp only [Option.bind_eq_bind, Option.bind_some, showAll_full home hfull hshown]
      rfl

/-- A sink with a limit takes the frames of screens with rows up to its limit. -/
theorem showAll_limited (home : Bool) {limit : Nat} : ∀ {shown : List Screen} {sink : Sink},
    sink.Willing → sink.total = some limit → (∀ s ∈ shown, 0 < s.height) →
      ∃ after, (writing home).showAll shown sink =
          some (verdicts home (limit - sink.taken.size) shown, after) ∧
        after.total = some limit ∧
        after.taken.toList =
          sink.taken.toList ++ (film home shown).take (limit - sink.taken.size)
  | [], sink, _, hlimit, _ => ⟨sink, rfl, hlimit, by simp [film]⟩
  | s :: shown, sink, hs, hlimit, h => by
      obtain ⟨hrows, hshown⟩ := List.forall_mem_cons.mp h
      have hroom := Sink.room_of_total hlimit (frame home s).length
      by_cases hfits : (frame home s).length ≤ limit - sink.taken.size
      case pos =>
        have hwhole : sink.room (frame home s).length = (frame home s).length := by
          rw [hroom, Nat.min_eq_left hfits]
        have hfirst : writing home sink s =
            some (none, { sink.take (frame home s) with flushes := sink.flushes + 1 }) := by
          rw [writing, hs.writeFlush_of_room hwhole]
        have hnext : Sink.Willing { sink.take (frame home s) with flushes := sink.flushes + 1 } :=
          ⟨hs.takes, hs.yields⟩
        have hsize : (sink.take (frame home s)).taken.size =
            sink.taken.size + (frame home s).length := sink.size_take _
        have hleft : limit - (sink.take (frame home s)).taken.size =
            limit - sink.taken.size - (frame home s).length := by omega
        obtain ⟨after, hrun, htotal, htaken⟩ := showAll_limited home hnext hlimit hshown
        rw [hleft] at hrun htaken
        refine ⟨after, ?_, htotal, ?_⟩
        · rw [showAll, hfirst, verdicts_of_room shown hfits]
          simp only [Option.bind_eq_bind, Option.bind_some, hrun]
        · rw [htaken, film_cons, List.take_append, List.take_of_length_le hfits,
            ← List.append_assoc]
          exact congrArg (· ++ _) (sink.toList_take _)
      case neg =>
        have hshort : limit - sink.taken.size < (frame home s).length := Nat.lt_of_not_le hfits
        have hcut : sink.room (frame home s).length = limit - sink.taken.size := by
          rw [hroom, Nat.min_eq_right hshort.le]
        have hfirst : writing home sink s = some (some fullFault,
            sink.take ((frame home s).take (limit - sink.taken.size))) := by
          rw [writing, hs.writeFlush_of_short (by omega), hcut]
          rfl
        have hfull : (sink.take ((frame home s).take (limit - sink.taken.size))).isFull = true := by
          refine Sink.isFull_of_total hlimit ?_
          rw [Sink.size_take, List.length_take]
          omega
        refine ⟨sink.take ((frame home s).take (limit - sink.taken.size)), ?_, hlimit, ?_⟩
        · rw [showAll, hfirst, verdicts_of_short shown hshort]
          simp only [Option.bind_eq_bind, Option.bind_some, showAll_full home hfull hshown]
          rfl
        · have hnone : limit - sink.taken.size - (frame home s).length = 0 := by omega
          rw [film_cons, List.take_append, hnone, List.take_zero, List.append_nil]
          exact sink.toList_take _

theorem isFull_of_showAll {home : Bool} {limit : Nat} {shown : List Screen} {sink after : Sink}
    {faults : List (Option Fault)} (hs : sink.Willing) (hlimit : sink.total = some limit)
    (hrows : ∀ s ∈ shown, 0 < s.height)
    (hrun : (writing home).showAll shown sink = some (faults, after)) {f : Fault}
    (hf : some f ∈ faults) : after.isFull = true := by
  obtain ⟨after', hrun', htotal, htaken⟩ := showAll_limited home hs hlimit hrows
  obtain ⟨rfl, rfl⟩ := Prod.mk.inj (Option.some.inj (hrun.symm.trans hrun'))
  have hshort := room_lt_of_verdicts hf
  have hsize := congrArg List.length htaken
  rw [List.length_append, List.length_take, Array.length_toList, Array.length_toList] at hsize
  exact Sink.isFull_of_total htotal (by omega)

end ChipEight.Viewer
