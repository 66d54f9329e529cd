import ChipEight.Proofs.Flow.Filling
import ChipEight.Tone.Gate
import ChipEight.Tone.Stream
import Mathlib.Data.List.Infix

/-!
# What the gate keeps apart

The owner of a sound stream and the thread that writes it share nothing but the gate, and their
steps come in any order: the owner can close the gate after the streamer has looked and before
it writes, or between two pieces of a block, and a notification can come while nobody waits.
`gated` tells what holds nevertheless, for every run and whatever the sink does.

`Step` says case by case what one act does. Each fact is then kept by every step, and by every
run from it: what the owner remembers and whether a sleeping streamer is missed (`Held`), whole
blocks in the sink (`Whole`), the end after a failure (`Step.of_failed`). Blocks are counted
while the gate is not playing. The only one that can still be begun is the one the streamer
was cleared for before (`Run.ahead`), and it gets no further than its end (`Run.due`).

Last, the stream written to a sink as a function (`Stream.play`) is one of the runs.
-/

namespace ChipEight.Gate

variable {block : List UInt8} {s t u : State} {a : Act} {acts : List Act} {n : Nat}

/-! ## One step -/

namespace Streamer

theorem notified_ne_waiting (r : Streamer) : r.notified ≠ .waiting := by
  cases r <;> exact fun h => nomatch h

theorem notified_eq_cleared {r : Streamer} : r.notified = .cleared ↔ r = .cleared := by
  cases r <;> simp [notified]

theorem seeing_eq_waiting {p : Position} : seeing p = .waiting ↔ p = .silent := by
  cases p <;> decide

theorem seeing_eq_cleared {p : Position} : seeing p = .cleared ↔ p = .playing := by
  cases p <;> decide

end Streamer

/-- What an act does, case by case. -/
inductive Step (block : List UInt8) : State → Act → State → Prop
  | turn {s : State} {c : Call} : s.owner = .idle → s.turns c = true →
      Step block s (.call c) { s with position := c.target, owner := .set c }
  | ignore {s : State} {c : Call} : s.owner = .idle → s.turns c = false →
      Step block s (.call c) s
  | notify {s : State} {c : Call} : s.owner = .set c →
      Step block s .notify { s with owner := .notified c, streamer := s.streamer.notified }
  | finish {s : State} {o : Tone} : s.owner = .notified (.tone o) →
      Step block s .finish { s with owner := .idle, player := s.player.hear o }
  | join {s : State} : s.owner = .notified .drop → s.streamer.hasEnded = true →
      Step block s .finish { s with owner := .gone }
  | check {s : State} : s.streamer = .checking →
      Step block s .check { s with streamer := .seeing s.position }
  | wake {s : State} : s.streamer = .waiting → Step block s .wake { s with streamer := .checking }
  | start {s : State} : s.streamer = .cleared →
      Step block s .start { s with streamer := .writing block }
  | took {s : State} {rest : List UInt8} {n : Nat} : s.streamer = .writing rest → 0 < n →
      n ≤ rest.length → Step block s (.took n)
        { s with streamer := .writing (rest.drop n), taken := s.taken ++ rest.take n }
  | flushed {s : State} : s.streamer = .writing [] →
      Step block s .flushed { s with streamer := .pacing }
  | broke {s : State} {rest : List UInt8} : s.streamer = .writing rest →
      Step block s .broke { s with streamer := .failed }
  | paced {s : State} : s.streamer = .pacing →
      Step block s .paced { s with streamer := .checking }

/-- A step is all an act can do. -/
theorem step_of_act? (h : s.act? block a = some t) : Step block s a t := by
  revert h
  -- the acts that are not possible close by themselves
  fun_cases State.act? block s a <;> intro h <;> cases h
  case case1 c ho =>
    cases hc : s.turns c with
    | true => exact .turn ho hc
    | false => exact .ignore ho hc
  case case3 c ho => exact .notify ho
  case case5 o ho => exact .finish ho
  case case6 ho he => exact .join ho he
  case case9 hs => exact .check hs
  case case11 hs => exact .wake hs
  case case13 hs => exact .start hs
  case case15 n rest hs hn => exact .took hs hn.1 hn.2
  case case18 hs => exact .flushed hs
  case case20 rest hs => exact .broke hs
  case case22 hs => exact .paced hs

namespace Run

theorem append {later : List Act} (h : Run block s acts t) (h' : Run block t later u) :
    Run block s (acts ++ later) u := by
  induction h with
  | nil _ => exact h'
  | cons hact _ ih => exact .cons hact (ih h')

theorem split : ∀ {acts later : List Act} {s : State}, Run block s (acts ++ later) u →
    ∃ t, Run block s acts t ∧ Run block t later u
  | [], _, s, h => ⟨s, .nil s, h⟩
  | _ :: _, _, _, .cons hact h =>
      let ⟨t, hfirst, hlater⟩ := split h
      ⟨t, .cons hact hfirst, hlater⟩

theorem split_cons {later : List Act} (h : Run block s (acts ++ a :: later) u) :
    ∃ r t, Run block s acts r ∧ Step block r a t ∧ Run block s (acts ++ [a]) t ∧
      Run block t later u := by
  obtain ⟨r, hbefore, hrest⟩ := split h
  cases hrest with
  | cons hact hafter =>
      exact ⟨r, _, hbefore, step_of_act? hact, hbefore.append (.cons hact (.nil _)), hafter⟩

end Run

/-! ## Owner, gate and a sleeping streamer -/

/-- Between calls the owner remembers how the gate is set, and during one the gate is set as
the call wants it. If the streamer sleeps although the gate is not silent, its notification is
still to come. -/
structure Held (s : State) : Prop where
  idle : s.owner = .idle → (s.player.playing = true ↔ s.position = .playing)
  set : ∀ c, s.owner = .set c → s.position = c.target
  notified : ∀ c, s.owner = .notified c → s.position = c.target
  asleep : s.streamer = .waiting → s.position ≠ .silent → ∃ c, s.owner = .set c

theorem held_opened : Held .opened where
  idle := by decide
  set := fun _ h => nomatch h
  notified := fun _ h => nomatch h
  asleep := fun h => nomatch h

theorem playing_hear (p : Player) (o : Tone) :
    (p.hear o).playing = true ↔ (Call.tone o).target = .playing := by
  cases o with
  | on => exact ⟨fun _ => rfl, fun _ => rfl⟩
  | off => exact ⟨fun h => (nomatch h), fun h => (nomatch h)⟩

theorem Held.step (hs : Held s) (h : Step block s a t) : Held t := by
  cases h with
  | @turn c _ _ =>
      exact ⟨fun h => (nomatch h), fun _ h => by cases h; rfl, fun _ h => (nomatch h),
        fun _ _ => ⟨c, rfl⟩⟩
  | ignore _ _ => exact hs
  | @notify c ho =>
      refine ⟨fun h => (nomatch h), fun _ h => (nomatch h), fun _ h => ?_, fun hw _ => ?_⟩
      · cases h
        exact hs.set c ho
      · -- nobody sleeps through a notification
        exact absurd hw s.streamer.notified_ne_waiting
  | @finish o ho =>
      refine ⟨fun _ => ?_, fun _ h => (nomatch h), fun _ h => (nomatch h), fun hw hp => ?_⟩
      · show (s.player.hear o).playing = true ↔ s.position = .playing
        rw [hs.notified _ ho]
        exact playing_hear s.player o
      · obtain ⟨c, hset⟩ := hs.asleep hw hp
        exact nomatch ho.symm.trans hset
  | join ho he =>
      refine ⟨fun h => (nomatch h), fun _ h => (nomatch h), fun _ h => (nomatch h),
        fun hw _ => ?_⟩
      rw [show s.streamer = .waiting from hw] at he
      exact nomatch he
  | check _ =>
      refine ⟨hs.idle, hs.set, hs.notified, fun hw hp => ?_⟩
      -- it only goes to sleep when it finds the gate silent
      exact absurd (Streamer.seeing_eq_waiting.mp hw) hp
  | _ => exact ⟨hs.idle, hs.set, hs.notified, fun h => nomatch h⟩

theorem Held.run (h : Run block s acts t) (hs : Held s) : Held t := by
  induction h with
  | nil _ => exact hs
  | cons hact _ ih => exact ih (hs.step (step_of_act? hact))

/-! ## Cleared by a look at the gate -/

/-- A streamer is cleared by a look at the playing gate and stays so until it begins. -/
theorem Step.cleared (h : Step block s a t) (ht : t.streamer = .cleared) :
    a = .check ∧ s.position = .playing ∨ s.streamer = .cleared ∧ a ≠ .start := by
  cases h with
  | notify _ => exact .inr ⟨Streamer.notified_eq_cleared.mp ht, fun h => nomatch h⟩
  | check _ => exact .inl ⟨rfl, Streamer.seeing_eq_cleared.mp ht⟩
  | turn _ _ | ignore _ _ | finish _ | join _ _ => exact .inr ⟨ht, fun h => nomatch h⟩
  | _ => exact nomatch ht

theorem Run.checked (h : Run block s acts u) (hu : u.streamer = .cleared) :
    s.streamer = .cleared ∧ .start ∉ acts ∨
      ∃ earlier later t, acts = earlier ++ .check :: later ∧ .start ∉ later ∧
        Run block s earlier t ∧ t.position = .playing := by
  induction h with
  | nil _ => exact .inl ⟨hu, List.not_mem_nil⟩
  | @cons s r u a rest hact _ ih =>
      rcases ih hu with ⟨hr, hrest⟩ | ⟨earlier, later, t, rfl, hlater, hrun, ht⟩
      · rcases (step_of_act? hact).cleared hr with ⟨rfl, hplaying⟩ | ⟨hs, ha⟩
        · exact .inr ⟨[], rest, s, rfl, hrest, .nil s, hplaying⟩
        · exact .inl ⟨hs, List.not_mem_cons_of_ne_of_not_mem (Ne.symm ha) hrest⟩
      · exact .inr ⟨a :: earlier, later, t, rfl, hlater, .cons hact hrun, ht⟩

/-! ## While the gate is not playing -/

namespace Streamer

/-- Blocks the streamer will begin before it looks at the gate again. -/
def ahead : Streamer → Nat
  | .cleared => 1
  | _ => 0

/-- Blocks that are begun and not finished. -/
def begun : Streamer → Nat
  | .writing _ => 1
  | _ => 0

/-- The bytes the streamer will write before it looks at the gate again. -/
def due (block : List UInt8) : Streamer → List UInt8
  | .cleared => block
  | .writing rest => rest
  | _ => []

theorem begun_add_ahead_le (r : Streamer) : r.begun + r.ahead ≤ 1 := by
  cases r with
  | cleared => exact Nat.le_refl 1
  | writing _ => exact Nat.le_refl 1
  | _ => exact Nat.zero_le 1

theorem ahead_notified (r : Streamer) : r.notified.ahead = r.ahead := by
  cases r <;> rfl

theorem due_notified (block : List UInt8) (r : Streamer) : r.notified.due block = r.due block := by
  cases r <;> rfl

theorem ahead_seeing {p : Position} (hp : p ≠ .playing) : (seeing p).ahead = 0 := by
  cases p with
  | silent => rfl
  | playing => exact absurd rfl hp
  | shut => rfl

theorem due_seeing {p : Position} (hp : p ≠ .playing) : (seeing p).due block = [] := by
  cases p with
  | silent => rfl
  | playing => exact absurd rfl hp
  | shut => rfl

end Streamer

theorem Call.target_ne_playing {c : Call} (hc : c ≠ .tone .on) : c.target ≠ .playing := by
  rcases c with (_ | _) | _
  · exact absurd rfl hc
  · exact fun h => nomatch h
  · exact fun h => nomatch h

theorem Step.not_playing (h : Step block s a t) (hs : s.position ≠ .playing)
    (ha : a ≠ .call (.tone .on)) : t.position ≠ .playing := by
  cases h with
  | turn _ _ => exact Call.target_ne_playing fun h => ha (congrArg Act.call h)
  | _ => exact hs

theorem Step.ahead (h : Step block s a t) (hs : s.position ≠ .playing) :
    t.streamer.ahead + [a].count .start ≤ s.streamer.ahead := by
  cases h with
  | turn _ _ | ignore _ _ | finish _ | join _ _ => exact Nat.le_refl _
  | notify _ => exact Nat.le_of_eq s.streamer.ahead_notified
  | check _ =>
      show (Streamer.seeing s.position).ahead ≤ _
      rw [Streamer.ahead_seeing hs]
      exact Nat.zero_le _
  | took hr _ _ => exact hr ▸ Nat.le_refl _
  | wake hr | start hr | flushed hr | broke hr | paced hr => exact hr ▸ Nat.le_refl _

/-- What the sink has, with what the streamer is about to write, does not grow either. -/
theorem Step.due (h : Step block s a t) (hs : s.position ≠ .playing) :
    t.taken ++ t.streamer.due block <+: s.taken ++ s.streamer.due block := by
  cases h with
  | turn _ _ | ignore _ _ | finish _ | join _ _ => exact List.prefix_rfl
  | notify _ =>
      show s.taken ++ s.streamer.notified.due block <+: _
      rw [Streamer.due_notified]
  | check _ =>
      show s.taken ++ (Streamer.seeing s.position).due block <+: _
      rw [Streamer.due_seeing hs, List.append_nil]
      exact List.prefix_append _ _
  | @took rest n hw _ _ =>
      show s.taken ++ rest.take n ++ rest.drop n <+: _
      rw [hw, List.append_assoc, List.take_append_drop]
      exact List.prefix_rfl
  | @broke rest _ =>
      show s.taken ++ [] <+: _
      rw [List.append_nil]
      exact List.prefix_append _ _
  | wake hr | start hr | flushed hr | paced hr => exact hr ▸ List.prefix_rfl

theorem Run.ahead (h : Run block s acts t) (hs : s.position ≠ .playing)
    (hoff : .call (.tone .on) ∉ acts) : t.streamer.ahead + acts.count .start ≤
      s.streamer.ahead := by
  induction h with
  | nil _ => exact Nat.le_refl _
  | @cons s r t a rest hact _ ih =>
      have hstep := step_of_act? hact
      obtain ⟨ha, hrest⟩ := List.ne_and_not_mem_of_not_mem_cons hoff
      have hlater := ih (hstep.not_playing hs (Ne.symm ha)) hrest
      have hone := hstep.ahead hs
      have hcount : (a :: rest).count .start = [a].count .start + rest.count .start := by
        rw [← List.count_append, List.singleton_append]
      omega

theorem Run.due (h : Run block s acts t) (hs : s.position ≠ .playing)
    (hoff : .call (.tone .on) ∉ acts) :
    t.taken ++ t.streamer.due block <+: s.taken ++ s.streamer.due block := by
  induction h with
  | nil _ => exact List.prefix_rfl
  | cons hact _ ih =>
      have hstep := step_of_act? hact
      obtain ⟨ha, hrest⟩ := List.ne_and_not_mem_of_not_mem_cons hoff
      exact (ih (hstep.not_playing hs (Ne.symm ha)) hrest).trans (hstep.due hs)

/-! ## What the sink has got -/

/-- The part of a block that stands after the whole ones in the sink. -/
def Streamer.Leaves (block part : List UInt8) : Streamer → Prop
  | .writing rest => part ++ rest = block
  | .failed => part <+: block
  | _ => part = []

/-- The sink has `n` whole blocks, and of the next one what the streamer has written so far, or
had written when the sink failed. -/
def Whole (block : List UInt8) (n : Nat) (s : State) : Prop :=
  ∃ part, s.taken = (List.replicate n block).flatten ++ part ∧ s.streamer.Leaves block part

theorem flatten_replicate_succ (block : List UInt8) (n : Nat) :
    (List.replicate (n + 1) block).flatten = (List.replicate n block).flatten ++ block := by
  rw [List.replicate_succ', List.flatten_append, List.flatten_singleton]

theorem whole_opened (block : List UInt8) : Whole block 0 .opened :=
  ⟨[], rfl, rfl⟩

theorem Step.whole (h : Step block s a t) (hs : Whole block n s) :
    Whole block (n + [a].count .flushed) t := by
  obtain ⟨part, htaken, hpart⟩ := hs
  cases h with
  | turn _ _ | ignore _ _ | finish _ | join _ _ => exact ⟨part, htaken, hpart⟩
  | notify _ =>
      refine ⟨part, htaken, ?_⟩
      revert hpart
      show s.streamer.Leaves block part → s.streamer.notified.Leaves block part
      cases s.streamer <;> exact fun h => h
  | check hc =>
      rw [hc] at hpart
      refine ⟨part, htaken, ?_⟩
      show (Streamer.seeing s.position).Leaves block part
      cases s.position <;> exact hpart
  | wake hr | paced hr =>
      rw [hr] at hpart
      exact ⟨part, htaken, hpart⟩
  | start hc =>
      rw [hc] at hpart
      exact ⟨part, htaken, (congrArg (· ++ block) hpart).trans (List.nil_append block)⟩
  | @took rest k hw _ _ =>
      rw [hw] at hpart
      refine ⟨part ++ rest.take k, ?_, ?_⟩
      · show s.taken ++ rest.take k = _
        rw [htaken, List.append_assoc]
        rfl
      · show part ++ rest.take k ++ rest.drop k = block
        rw [List.append_assoc, List.take_append_drop]
        exact hpart
  | flushed hw =>
      rw [hw] at hpart
      refine ⟨[], ?_, rfl⟩
      have hblock : part = block := (List.append_nil part).symm.trans hpart
      show s.taken = (List.replicate (n + 1) block).flatten ++ []
      rw [htaken, hblock, flatten_replicate_succ, List.append_nil]
  | @broke rest hw =>
      rw [hw] at hpart
      exact ⟨part, htaken, rest, hpart⟩

theorem Run.whole (h : Run block s acts t) :
    ∀ {n : Nat}, Whole block n s → Whole block (n + acts.count .flushed) t := by
  induction h with
  | nil _ => exact fun hs => hs
  | @cons s r t a rest hact _ ih =>
      intro n hs
      have hcount : (a :: rest).count .flushed = [a].count .flushed + rest.count .flushed := by
        rw [← List.count_append, List.singleton_append]
      rw [hcount, ← Nat.add_assoc]
      exact ih ((step_of_act? hact).whole hs)

/-- A part of a block is still to be written when a block is begun or cleared. -/
theorem Whole.due_suffix (hs : Whole block n s) : s.streamer.due block <:+ block := by
  obtain ⟨part, -, hpart⟩ := hs
  revert hpart
  cases s.streamer with
  | writing rest => exact fun hpart => ⟨part, hpart⟩
  | cleared => exact fun _ => List.suffix_rfl
  | _ => exact fun _ => List.nil_suffix

theorem Step.taken_grows (h : Step block s a t) : s.taken <+: t.taken := by
  cases h with
  | took _ _ _ => exact List.prefix_append _ _
  | _ => exact List.prefix_rfl

theorem Run.taken_grows (h : Run block s acts t) : s.taken <+: t.taken := by
  induction h with
  | nil _ => exact List.prefix_rfl
  | cons hact _ ih => exact (step_of_act? hact).taken_grows.trans ih

/-! ## After a failure -/

theorem Step.of_failed (h : Step block s a t) (hs : s.streamer = .failed) :
    t.streamer = .failed ∧ t.taken = s.taken ∧ a ≠ .start := by
  cases h with
  | turn _ _ | ignore _ _ | finish _ | join _ _ => exact ⟨hs, rfl, fun h => nomatch h⟩
  | notify _ => exact ⟨congrArg Streamer.notified hs, rfl, fun h => nomatch h⟩
  | took hr _ _ => exact nomatch hr.symm.trans hs
  | check hr | wake hr | start hr | flushed hr | broke hr | paced hr =>
      exact nomatch hr.symm.trans hs

theorem Run.of_failed (h : Run block s acts t) (hs : s.streamer = .failed) :
    t.taken = s.taken ∧ .start ∉ acts := by
  induction h with
  | nil _ => exact ⟨rfl, List.not_mem_nil⟩
  | cons hact _ ih =>
      obtain ⟨hr, htaken, ha⟩ := (step_of_act? hact).of_failed hs
      obtain ⟨hlater, hrest⟩ := ih hr
      exact ⟨hlater.trans htaken, List.not_mem_cons_of_ne_of_not_mem (Ne.symm ha) hrest⟩

/-! ## Every run -/

/-- Every run of the protocol from an open stream, in whatever order owner and streamer come and
whatever the sink does. Between calls, and as long as there was no drop, the owner takes the tone
to be on exactly if the gate is playing. A block is begun only after a look that found the gate
playing, with no other block begun since. Without a call for the tone nothing is written at all.
Once a call for silence has set the gate, of one block at most anything more gets to the sink
until the next call for the tone, the block in progress included. The sink has got whole blocks,
as many as were flushed, apart from one that is in progress or that it failed in; and nothing
after a failure. If the streamer sleeps while the gate is not silent, the owner has yet to
notify it. -/
theorem Run.gated (h : Run block .opened acts s) :
    (s.owner = .idle → (s.player.playing = true ↔ s.position = .playing)) ∧
      (∀ before after, acts = before ++ .start :: after →
        ∃ earlier later t, before = earlier ++ .check :: later ∧ .start ∉ later ∧
          Run block .opened earlier t ∧ t.position = .playing) ∧
      (.call (.tone .on) ∉ acts → .start ∉ acts ∧ s.taken = []) ∧
      (∀ before after, acts = before ++ .call (.tone .off) :: after →
        .call (.tone .on) ∉ after →
        ∃ t, Run block .opened (before ++ [.call (.tone .off)]) t ∧
          t.streamer.begun + after.count .start ≤ 1 ∧
          ∃ more, s.taken = t.taken ++ more ∧ more <:+: block) ∧
      (∃ part, s.taken = (List.replicate (acts.count .flushed) block).flatten ++ part ∧
        s.streamer.Leaves block part) ∧
      (∀ before after, acts = before ++ .broke :: after →
        .start ∉ after ∧
          ∃ t, Run block .opened (before ++ [.broke]) t ∧ s.taken = t.taken) ∧
      (s.streamer = .waiting → s.position ≠ .silent → ∃ c, s.owner = .set c) := by
  have hheld := held_opened.run h
  refine ⟨hheld.idle, ?checked, ?never, ?closed, ?whole, ?failure, hheld.asleep⟩
  case checked =>
    rintro before after rfl
    obtain ⟨r, t, hbefore, hstart, -, -⟩ := h.split_cons
    have hr : r.streamer = .cleared := by
      cases hstart with
      | start hr => exact hr
    rcases hbefore.checked hr with ⟨hopened, -⟩ | hlook
    · exact nomatch hopened
    · exact hlook
  case never =>
    intro hoff
    have hahead := h.ahead (fun hp => nomatch hp) hoff
    have hdue := h.due (fun hp => nomatch hp) hoff
    exact ⟨List.count_eq_zero.mp (Nat.le_zero.mp ((Nat.le_add_left _ _).trans hahead)),
      (List.append_eq_nil_iff.mp (List.prefix_nil.mp hdue)).1⟩
  case closed =>
    rintro before after rfl hoff
    obtain ⟨r, t, hbefore, hcall, hrun, hafter⟩ := h.split_cons
    have hsilent : t.position ≠ .playing := by
      cases hcall with
      | turn _ _ => exact fun hp => nomatch hp
      | ignore ho hturns =>
          intro hp
          exact Bool.false_ne_true (hturns.symm.trans (((held_opened.run hbefore).idle ho).mpr hp))
    refine ⟨t, hrun, ?_, ?_⟩
    · have hahead := hafter.ahead hsilent hoff
      have hone := t.streamer.begun_add_ahead_le
      omega
    · obtain ⟨more, hmore⟩ := hafter.taken_grows
      refine ⟨more, hmore.symm, ?_⟩
      have hdue := hafter.due hsilent hoff
      rw [← hmore, List.append_assoc, List.prefix_append_right_inj] at hdue
      have hblock := (hrun.whole (whole_opened block)).due_suffix
      exact ((List.prefix_append _ _).trans hdue).isInfix.trans hblock.isInfix
  case whole =>
    have hwhole := h.whole (whole_opened block)
    rwa [Nat.zero_add] at hwhole
  case failure =>
    rintro before after rfl
    obtain ⟨r, t, -, hbroke, hrun, hafter⟩ := h.split_cons
    have ht : t.streamer = .failed := by
      cases hbroke with
      | broke _ => rfl
    obtain ⟨htaken, hnone⟩ := hafter.of_failed ht
    exact ⟨hnone, t, hrun, htaken⟩

/-- A block of two bytes, and a call for silence that comes between the look at the gate and the
first byte of the block: the block is still written to its end, and no other. -/
theorem Run.gated_late : ∃ s, Run [1, 2] .opened
    ([.check, .call (.tone .on), .notify, .finish, .check] ++ .call (.tone .off) ::
      [.start, .took 1, .notify, .took 1, .flushed, .paced, .finish, .check]) s ∧
    s.taken = [1, 2] ∧ (s.player.playing = true ↔ s.position = .playing) := by
  obtain ⟨s, hrun, hidle, hstreamer⟩ : ∃ s, Run [1, 2] .opened
      ([.check, .call (.tone .on), .notify, .finish, .check] ++ .call (.tone .off) ::
        [.start, .took 1, .notify, .took 1, .flushed, .paced, .finish, .check]) s ∧
      s.owner = .idle ∧ s.streamer = .waiting := by
    refine ⟨_, .cons rfl <| .cons rfl <| .cons rfl <| .cons rfl <| .cons rfl <| .cons rfl <|
      .cons rfl <| .cons rfl <| .cons rfl <| .cons rfl <| .cons rfl <| .cons rfl <| .cons rfl <|
      .cons rfl <| .nil _, rfl, rfl⟩
  obtain ⟨hplaying, -, -, -, ⟨part, htaken, hpart⟩, -, -⟩ := Run.gated hrun
  rw [hstreamer] at hpart
  exact ⟨s, hrun, htaken.trans (congrArg ([1, 2] ++ ·) hpart), hplaying hidle⟩

/-! ## The stream as a function -/

/-- A stream that has written to a sink as a whole: where it then stands, and what the sink has. -/
def State.wrote (s : State) (done : Streamer) (r : Option String × Sink) : State :=
  { s with streamer := if r.1 = none then done else .failed, taken := r.2.taken.toList }

/-- Writing a text as a whole is a run, one act for each call of the sink. -/
theorem run_writeAll (block : List UInt8) (k : Sink) (b : List UInt8) :
    ∀ s : State, s.streamer = .writing b → s.taken = k.taken.toList →
      ∃ acts, Run block s acts (s.wrote (.writing []) (k.writeAll b)) := by
  fun_induction Sink.writeAll k b with
  | case1 k =>
      rintro ⟨p, o, c, _, _⟩ rfl rfl
      exact ⟨[], .nil _⟩
  | case2 k b _ _ =>
      rintro ⟨p, o, c, _, _⟩ rfl rfl
      exact ⟨[.broke], .cons rfl (.nil _)⟩
  | case3 k b _ _ _ =>
      rintro ⟨p, o, c, _, _⟩ rfl rfl
      exact ⟨[.broke], .cons rfl (.nil _)⟩
  | case4 k b _ _ hsome ih =>
      rintro ⟨p, o, c, _, _⟩ rfl rfl
      have hshare := (k.share_le_room b.length).trans (k.room_le b.length)
      obtain ⟨acts, hrun⟩ := ih ⟨p, o, c, .writing (b.drop (k.share b.length)),
        k.taken.toList ++ b.take (k.share b.length)⟩ rfl Array.toList_appendList.symm
      exact ⟨.took (k.share b.length) :: acts,
        .cons (if_pos ⟨Nat.pos_of_ne_zero hsome, hshare⟩) hrun⟩

/-- So is writing one block to the end, flushed, -/
theorem run_writeFlush (block : List UInt8) (k : Sink) (s : State)
    (hs : s.streamer = .cleared) (htaken : s.taken = k.taken.toList) :
    ∃ acts, Run block s acts (s.wrote .pacing (k.writeFlush block)) := by
  obtain ⟨acts, hrun⟩ :=
    run_writeAll block k block { s with streamer := .writing block } rfl htaken
  have hstart : s.act? block .start = some { s with streamer := .writing block } := by
    unfold State.act?
    rw [hs]
  unfold Sink.writeFlush
  rcases hwrite : k.writeAll block with ⟨_ | text, k'⟩
  · rw [hwrite] at hrun
    cases hflush : k'.flushTotal.any (· ≤ k'.flushes) with
    | true =>
        have hfull : k'.flush = (some Sink.fullText, k') := if_pos hflush
        refine ⟨.start :: (acts ++ [.broke]), .cons hstart (hrun.append (.cons ?_ (.nil _)))⟩
        simp [State.act?, State.wrote, hfull]
    | false =>
        have hdone : k'.flush = (none, { k' with flushes := k'.flushes + 1 }) :=
          if_neg (Bool.eq_false_iff.mp hflush)
        refine ⟨.start :: (acts ++ [.flushed]), .cons hstart (hrun.append (.cons ?_ (.nil _)))⟩
        simp [State.act?, State.wrote, hdone]
  · rw [hwrite] at hrun
    exact ⟨.start :: acts, .cons hstart hrun⟩

/-- and so is the stream as long as the gate is playing. -/
theorem run_play (block : List UInt8) : ∀ (n : Nat) (k : Sink) (s : State),
    s.position = .playing → s.streamer = .checking → s.taken = k.taken.toList →
      ∃ acts, Run block s acts (s.wrote .checking (Stream.play block n k))
  | 0, k, ⟨p, o, c, _, _⟩, _, rfl, rfl => ⟨[], .nil _⟩
  | n + 1, k, ⟨_, o, c, _, _⟩, rfl, rfl, rfl => by
      obtain ⟨acts, hrun⟩ := run_writeFlush block k
        ⟨.playing, o, c, .cleared, k.taken.toList⟩ rfl rfl
      unfold Stream.play
      rcases hwrite : k.writeFlush block with ⟨_ | text, k'⟩
      · rw [hwrite] at hrun
        obtain ⟨later, hlater⟩ := run_play block n k'
          ⟨.playing, o, c, .checking, k'.taken.toList⟩ rfl rfl rfl
        exact ⟨.check :: (acts ++ .paced :: later),
          .cons rfl (hrun.append (.cons rfl hlater))⟩
      · rw [hwrite] at hrun
        exact ⟨.check :: acts, .cons rfl hrun⟩

end ChipEight.Gate
