import ChipEight.Proofs.Machine.Footprint
import ChipEight.Proofs.Machine.Moments
import ChipEight.Proofs.Machine.Reload

/-!
# The timers and the tone over whole runs

A tick counts both timers down and then calls for the tone, once, on while the sound
timer runs and off when it does not. Nothing else that happens in a session calls for
it, whatever it writes into the timer, so the meter counts the ticks and its gate
stays as the last of them left it.

`tones_of_answer?` and `sound_of_answer?` say this of one moment. `Leads.tones` is the
run: a sound timer that is left alone makes as many calls to turn the tone on as it
holds, less one, since it is counted down before it is looked at, and from then on
calls to turn it off.
-/

namespace ChipEight

/-! ## What ticks, and what sets the sound timer -/

/-- Whether a request is a tick. -/
def Request.isTick : Request → Bool
  | .tick => true
  | .load _ | .read _ | .step | .frame | .touch _ => false

/-- How often a request ticks, by what it came to. A frame ticks if it went well. -/
def Request.ticks : Request → Turn → Nat
  | .tick, _ => 1
  | .frame, t => if t.fault.isSome then 0 else 1
  | .load _, _ | .read _, _ | .step, _ | .touch _, _ => 0

namespace Moment

/-- Whether a moment is a tick. -/
def isTick (x : Moment) : Bool :=
  x.request.isTick

/-- What a moment says to the tone. -/
def tones (x : Moment) : List Tone :=
  match x.turn? with
  | some t => t.tones.toList
  | none => []

/-- A moment sets the sound timer: a step with the opcode for it, or a load that goes
well into a machine that starts afresh. -/
def SetsSound (x : Moment) : Prop :=
  (∃ op, x.opcode? = some op ∧ Instr.IsSpecial op 0x18) ∨
  (x.request.IsLoad ∧ x.session.machine.settings.resetOnLoad = true ∧
    ∃ t, x.turn? = some t ∧ t.fault = none)

theorem not_setsSound_of_tick (a : Session) : ¬ SetsSound ⟨a, .tick⟩ := by
  rintro (⟨op, hop, -⟩ | ⟨hload, -⟩)
  · exact nomatch (opcode?_eq_some_iff.mp hop).1
  · exact hload

/-- What a tick comes to: both timers count down to zero, and one call leaves the gate
open if the sound timer still runs, else closed. -/
structure Ticks (x : Moment) (t : Turn) : Prop where
  delay : t.machine.delay.toNat = x.session.machine.delay.toNat - 1
  sound : t.machine.sound.toNat = x.session.machine.sound.toNat - 1
  tone : t.tones = #[.on] ∨ t.tones = #[.off]
  gate : (x.session.after x.request t).meter.enabled = true ↔ t.machine.sound ≠ 0

end Moment

/-! ## Calls of a timer that is left alone -/

namespace Tone

/-- The calls of `n` ticks with a sound timer that holds `k` at first: it is counted
down before it is looked at, so the last of the `k` ticks is silent. -/
def fading (k n : Nat) : List Tone :=
  List.replicate (min (k - 1) n) .on ++ List.replicate (n - (k - 1)) .off

theorem fading_of_off {k : Nat} (hk : k - 1 = 0) (n : Nat) :
    fading k (n + 1) = .off :: fading (k - 1) n := by
  simp [fading, hk, List.replicate_succ]

theorem fading_of_on {k : Nat} (hk : k - 1 ≠ 0) (n : Nat) :
    fading k (n + 1) = .on :: fading (k - 1) n := by
  obtain ⟨j, hj⟩ := Nat.exists_eq_add_one_of_ne_zero hk
  simp [fading, hj, Nat.add_min_add_right, List.replicate_succ]

theorem ofTimer_of_ne_zero {v : UInt8} (h : v ≠ 0) : ofTimer v = .on :=
  if_pos (UInt8.pos_iff_ne_zero.mpr h)

theorem ofTimer_zero : ofTimer 0 = .off := rfl

theorem fading_succ {v : UInt8} {k : Nat} (hv : v.toNat = k - 1) (n : Nat) :
    fading k (n + 1) = ofTimer v :: fading v.toNat n := by
  rw [hv]
  by_cases h0 : v = 0
  · have hk : k - 1 = 0 := by rw [← hv, h0]; rfl
    rw [fading_of_off hk, h0, ofTimer_zero]
  · have hk : k - 1 ≠ 0 := fun hk => h0 (UInt8.toNat_inj.mp (hv.trans hk))
    rw [fading_of_on hk, ofTimer_of_ne_zero h0]

end Tone

/-! ## The meter -/

/-- How many calls a meter has heard. -/
def Meter.calls (m : Meter) : Nat :=
  m.enables + m.disables

theorem Meter.calls_hearAll (l : List Tone) (m : Meter) :
    (m.hearAll l).calls = m.calls + l.length := by
  induction l generalizing m with
  | nil => rfl
  | cons t l ih =>
      have hone : (m.hear t).calls = m.calls + 1 := by
        cases t with
        | on => exact Nat.add_right_comm m.enables 1 m.disables
        | off => rfl
      show ((m.hear t).hearAll l).calls = _
      rw [ih, hone, List.length_cons, Nat.add_assoc, Nat.add_comm 1]

namespace Machine

variable {m : Machine} {t : Turn} {keys : Keypad}

theorem toNat_countDown (v : UInt8) : (countDown v).toNat = v.toNat - 1 := by
  unfold countDown
  split
  case isTrue h =>
      rw [h]
      rfl
  case isFalse h =>
      have hpos : 1 ≤ v := by
        rw [UInt8.le_iff_toNat_le]
        exact Nat.pos_of_ne_zero fun h0 => h (UInt8.toNat_inj.mp h0)
      rw [UInt8.toNat_sub_of_le _ _ hpos]
      rfl

theorem Outcome.sound (ht : m.Outcome keys t)
    (hset : ∀ op, m.ram.word? m.pc = some op → ¬ Instr.IsSpecial op 0x18) :
    t.machine.sound = m.sound := by
  rcases ht.effect_or_moved with ⟨op, hop, heff⟩ | ⟨pc, hmoved⟩
  · exact heff.sound (hset op hop)
  · rw [hmoved]

end Machine

namespace Session

open Machine (Safe)

variable {s : Settings} {a b c : Session} {t : Turn} {ms ms' : List Moment}

/-! ## One moment -/

/-- Only a tick calls for the tone, and it calls once. -/
theorem tones_of_answer? (hs : s.check = none) (ha : Safe s a.machine) {r : Request}
    (hr : r ≠ .frame) (ht : a.answer? r = some t) :
    t.tones = if r.isTick then #[Tone.ofTimer t.machine.sound] else #[] := by
  cases r with
  | frame => exact absurd rfl hr
  | load | read =>
      rcases turn_of_load ht trivial with ⟨f, rfl⟩ | ⟨base, ram, size, -, rfl⟩
      · rfl
      · rfl
  | tick | touch =>
      obtain rfl := Option.some.inj ht
      rfl
  | step =>
      have hout := outcome_of_answer? hs ha ht
      exact hout.tones

theorem sound_of_answer? (hs : s.check = none) (ha : Safe s a.machine) {r : Request}
    (hr : r ≠ .frame) (ht : a.answer? r = some t) (hset : ¬ Moment.SetsSound ⟨a, r⟩) :
    t.machine.sound.toNat = a.machine.sound.toNat - r.isTick.toNat := by
  cases r with
  | frame => exact absurd rfl hr
  | load | read =>
      rcases turn_of_load ht trivial with ⟨f, rfl⟩ | ⟨base, ram, size, rfl, rfl⟩
      · rfl
      · rw [if_neg fun hreset => hset (Or.inr ⟨trivial, hreset, _, ht, rfl⟩)]
        rfl
  | tick =>
      obtain rfl := Option.some.inj ht
      exact Machine.toNat_countDown _
  | touch =>
      obtain rfl := Option.some.inj ht
      rfl
  | step =>
      have hout := outcome_of_answer? hs ha ht
      refine congrArg UInt8.toNat (hout.sound fun op hop hspecial => hset ?_)
      exact Or.inl ⟨op, hop, hspecial⟩

theorem ticks_of_tick (a : Session) : Moment.Ticks ⟨a, .tick⟩ a.machine.tick := by
  refine ⟨Machine.toNat_countDown _, Machine.toNat_countDown _, ?_, ?_⟩
  · show #[Tone.ofTimer _] = _ ∨ #[Tone.ofTimer _] = _
    unfold Tone.ofTimer
    split
    · exact Or.inl rfl
    · exact Or.inr rfl
  · show (a.meter.hear (Tone.ofTimer _)).enabled = true ↔ _
    by_cases hsound : a.machine.tick.machine.sound = 0
    · have hsilent : Machine.countDown a.machine.sound = 0 := hsound
      simp [hsound, hsilent, Tone.ofTimer_zero, Meter.hear]
    · have hruns : Machine.countDown a.machine.sound ≠ 0 := hsound
      simp [hsound, Tone.ofTimer_of_ne_zero hruns, Meter.hear]

/-! ## Whole runs -/

theorem Leads.rest (h' : Leads a ms c) : Leads a (ms ++ ms') b → Leads c ms' b := by
  induction h' with
  | nil => exact id
  | cons hr ht _ ih =>
      intro h
      cases h with
      | cons hr' ht' h =>
          obtain rfl := Option.some.inj (ht'.symm.trans ht)
          exact ih h

theorem Leads.ticks (h : Leads a ms b) (hs : s.check = none) : Safe s a.machine →
    ∀ x ∈ ms, ∃ t, x.turn? = some t ∧ (x.request = .tick → x.Ticks t) ∧
      (x.request ≠ .tick → t.tones = #[] ∧
        (x.session.after x.request t).meter = x.session.meter) := by
  induction h with
  | nil => exact fun _ x hx => absurd hx List.not_mem_nil
  | @cons a b r t ms hr ht _ ih =>
      intro ha x hx
      have hsafe := safe_of_answer? hs ha ht
      rcases List.mem_cons.mp hx with rfl | hx
      · have htones := tones_of_answer? hs ha hr ht
        refine ⟨t, ht, ?_, ?_⟩
        · rintro rfl
          obtain rfl := Option.some.inj ht
          exact ticks_of_tick a
        · intro hne
          have hquiet : r.isTick = false := by
            cases r with
            | tick => exact absurd rfl hne
            | load | read | step | frame | touch => rfl
          rw [hquiet] at htones
          exact ⟨htones, by rw [after_of_quiet htones]⟩
      · exact ih hsafe x hx

theorem countP_isTick_cons (a : Session) (r : Request) (ms : List Moment) :
    List.countP Moment.isTick (⟨a, r⟩ :: ms) = ms.countP Moment.isTick + r.isTick.toNat := by
  rw [List.countP_cons]
  show _ + (if r.isTick then 1 else 0) = _
  cases r.isTick <;> rfl

/-- The meter counts the ticks. -/
theorem Leads.calls (h : Leads a ms b) (hs : s.check = none) : Safe s a.machine →
    b.meter.calls = a.meter.calls + ms.countP Moment.isTick := by
  induction h with
  | nil => exact fun _ => rfl
  | @cons a b r t ms hr ht _ ih =>
      intro ha
      have hsafe := safe_of_answer? hs ha ht
      have hone : (a.after r t).meter.calls = a.meter.calls + r.isTick.toNat := by
        show (a.meter.hearAll t.tones.toList).calls = _
        rw [Meter.calls_hearAll, tones_of_answer? hs ha hr ht]
        cases r.isTick <;> rfl
      rw [ih hsafe, hone, countP_isTick_cons, Nat.add_assoc, Nat.add_comm r.isTick.toNat]

theorem size_tones (hs : s.check = none) (ha : Safe s a.machine) {r : Request}
    (ht : a.answer? r = some t) : t.tones.size = r.ticks t := by
  by_cases hr : r = .frame
  · subst hr
    have hframed := framed_of_answer? hs ha ht
    cases hfault : t.fault with
    | none =>
        obtain ⟨m', -, -, htones⟩ := hframed.whole hfault
        simp [Request.ticks, hfault, htones, Machine.tick]
    | some f =>
        obtain ⟨_, _, _, -, -, -, -, -, -, -, htones⟩ := hframed.broken f hfault
        simp [Request.ticks, hfault, htones]
  · rw [tones_of_answer? hs ha hr ht]
    cases r with
    | frame => exact absurd rfl hr
    | load | read | step | tick | touch => rfl

theorem countP_moments (hs : s.check = none) : ∀ (requests : List Request) (a : Session),
    Safe s a.machine → ∀ ts, a.turns? requests = some ts →
      (a.moments requests).countP Moment.isTick = (List.zipWith Request.ticks requests ts).sum
  | [], _, _, ts, hts => by
      obtain rfl := Option.some.inj hts
      rfl
  | r :: rest, a, ha, ts, hts => by
      obtain ⟨t, ht, hts⟩ := Option.bind_eq_some_iff.mp hts
      obtain ⟨ts, hrest, rfl⟩ := Option.map_eq_some_iff.mp hts
      have hsafe := safe_of_answer? hs ha ht
      -- the meter tells how many ticks there are among the moments of one request
      have hone : (a.momentsOf r).countP Moment.isTick = r.ticks t := by
        have hcalls := (leads_momentsOf hs ha ht).calls hs ha
        have hheard : (a.after r t).meter.calls = a.meter.calls + t.tones.size :=
          Meter.calls_hearAll t.tones.toList a.meter
        rw [hheard] at hcalls
        rw [← size_tones hs ha ht]
        exact (Nat.add_left_cancel hcalls).symm
      rw [moments_cons ht, List.countP_append, hone, countP_moments hs rest _ hsafe ts hrest]
      rfl

/-- A sound timer that nothing sets turns the tone on with each tick that leaves it
running, and off from then on. -/
theorem Leads.tones (h : Leads a ms b) (hs : s.check = none) : Safe s a.machine →
    (∀ x ∈ ms, ¬ x.SetsSound) →
      ms.flatMap Moment.tones = Tone.fading a.machine.sound.toNat (ms.countP Moment.isTick) := by
  induction h with
  | nil => exact fun _ _ => by simp [Tone.fading]
  | @cons a b r t ms hr ht _ ih =>
      intro ha hset
      have hsafe := safe_of_answer? hs ha ht
      have hsound := sound_of_answer? hs ha hr ht (hset _ List.mem_cons_self)
      have hrest := ih hsafe fun x hx => hset x (List.mem_cons_of_mem _ hx)
      have hfirst : Moment.tones ⟨a, r⟩ = t.tones.toList := by
        simp [Moment.tones, Moment.turn?, ht]
      rw [List.flatMap_cons, hrest, hfirst, tones_of_answer? hs ha hr ht,
        countP_isTick_cons]
      show _ ++ Tone.fading t.machine.sound.toNat _ = _
      cases htick : r.isTick with
      | true =>
          rw [htick] at hsound
          rw [Bool.toNat_true, Tone.fading_succ hsound]
          rfl
      | false =>
          rw [htick] at hsound
          rw [hsound]
          rfl

/-- From when a machine was built on, whatever is asked, the tone hears from ticks and
from nothing else. A tick counts both timers down and makes one call, which leaves the
gate open exactly if the sound timer still runs; between ticks the gate stays. So the
calls are as many as the ticks asked for and the frames that went well. A sound timer
that nothing sets makes one call less than it holds to turn the tone on, and then only
calls to turn it off. -/
theorem ticks_gate_tone (ha : a.Begins s) (requests : List Request) :
    ∃ b ts, a.run? requests = some b ∧ a.turns? requests = some ts ∧
      Leads a (a.moments requests) b ∧
      (∀ x ∈ a.moments requests, ∃ t, x.turn? = some t ∧
        (x.request = .tick → x.Ticks t) ∧
        (x.request ≠ .tick → t.tones = #[] ∧
          (x.session.after x.request t).meter = x.session.meter)) ∧
      b.meter.enables + b.meter.disables = (List.zipWith Request.ticks requests ts).sum ∧
      (a.moments requests).countP Moment.isTick = (List.zipWith Request.ticks requests ts).sum ∧
      ∀ ms ms' c, a.moments requests = ms ++ ms' → Leads a ms c →
        (∀ x ∈ ms', ¬ x.SetsSound) → ms'.flatMap Moment.tones =
          List.replicate (min (c.machine.sound.toNat - 1) (ms'.countP Moment.isTick)) .on ++
          List.replicate (ms'.countP Moment.isTick - (c.machine.sound.toNat - 1)) .off := by
  obtain ⟨hs, hsafe⟩ := ha.safe
  obtain ⟨b, hb, hleads⟩ := ha.leads requests
  obtain ⟨ts, hts⟩ := exists_turns hs requests a hsafe
  have hcount := countP_moments hs requests a hsafe ts hts
  have hcalls : b.meter.calls = (a.moments requests).countP Moment.isTick := by
    rw [hleads.calls hs hsafe, ha.2]
    exact Nat.zero_add _
  refine ⟨b, ts, hb, hts, hleads, hleads.ticks hs hsafe, hcalls.trans hcount, hcount, ?_⟩
  intro ms ms' c hsplit hc hset
  have hrest : Leads c ms' b := hc.rest (hsplit ▸ hleads)
  exact hrest.tones hs (hc.safe hs hsafe).2 hset

theorem step?_set_sound {m : Machine} (keys : Keypad) (hop : m.ram.word? m.pc = some 0x6003)
    (hop' : m.ram.word? (m.pc + 2) = some 0xf018) :
    ∃ t u, m.step? keys = some t ∧ t.machine.step? keys = some u ∧ u.machine.sound = 3 := by
  obtain ⟨m₁, hm₁⟩ : ∃ m₁, m₁ = m.advanced.setReg 0 3 := ⟨_, rfl⟩
  have hzero : (0 : UInt8).toNat < 16 := by decide
  have hfirst : m.step? keys =
      some ((Turn.done m₁).noting (.executing m.pc 0x6003 (.loadByte 0 3))) := by
    have hset : m.advanced.setRegister? 0 3 = some m₁ :=
      (Machine.setRegister?_eq hzero 3).trans (congrArg some hm₁.symm)
    rw [Machine.step?_of_decode keys hop rfl]
    exact congrArg (Option.map _) (Machine.done_map hset)
  have hread : m₁.advanced.reg 0 = 3 := by
    rw [hm₁]
    exact Machine.get_setReg_digitX m.advanced 0x6003 3
  have hsecond : m₁.step? keys = some ((Turn.done { m₁.advanced with sound := 3 }).noting
      (.executing m₁.pc 0xf018 (.setSound 0))) := by
    have hop₁ : m₁.ram.word? m₁.pc = some 0xf018 := by
      rw [hm₁]
      exact hop'
    rw [Machine.step?_of_decode keys hop₁ rfl, ← hread]
    exact congrArg (Option.map _) (Machine.register?_bind hzero _)
  exact ⟨_, _, hfirst, hsecond, rfl⟩

/-- A program that sets the sound timer to three: of the three ticks after it, two turn
the tone on. -/
theorem ticks_gate_tone_three : ∃ (a b c : Session) (rom : Array UInt8),
    rom = #[0x60, 0x03, 0xf0, 0x18] ∧ a.Begins {} ∧
    a.run? [.load rom, .step, .step] = some c ∧ c.machine.sound = 3 ∧
    a.run? [.load rom, .step, .step, .tick, .tick, .tick] = some b ∧
    b.meter.enables + b.meter.disables = 3 ∧
    (c.moments [.tick, .tick, .tick]).flatMap Moment.tones = [.on, .on, .off] := by
  obtain ⟨a, ha, -⟩ := exists_begins (s := {}) rfl (by decide) .untouched
  obtain ⟨rom, hrom⟩ : ∃ rom : Array UInt8, rom = #[0x60, 0x03, 0xf0, 0x18] := ⟨_, rfl⟩
  have hwords : ∀ m : Machine,
      (m.load rom).machine.ram.word? (m.load rom).machine.pc = some 0x6003 ∧
      (m.load rom).machine.ram.word? ((m.load rom).machine.pc + 2) = some 0xf018 := by
    intro m
    subst hrom
    have hfits : (#[0x60, 0x03, 0xf0, 0x18] : Array UInt8).size ≤ Ram.programRoom := by decide
    have hfirst := m.word_of_load hfits (i := 0) rfl rfl
    have hsecond := m.word_of_load hfits (i := 2) rfl rfl
    obtain ⟨base, ram, -, -, hload⟩ := m.load_of_fits hfits
    rw [hload] at hfirst hsecond ⊢
    exact ⟨hfirst, hsecond⟩
  obtain ⟨a₁, hload, hfirst, hsecond⟩ : ∃ a₁, a₁ = a.after (.load rom) (a.machine.load rom) ∧
      a₁.machine.ram.word? a₁.machine.pc = some 0x6003 ∧
      a₁.machine.ram.word? (a₁.machine.pc + 2) = some 0xf018 := ⟨_, rfl, hwords a.machine⟩
  obtain ⟨t, u, ht, hu, hsound⟩ := step?_set_sound a₁.keys hfirst hsecond
  have ht : a₁.answer? .step = some t := ht
  have hu : (a₁.after .step t).answer? .step = some u := hu
  obtain ⟨c, hc⟩ : ∃ c, c = (a₁.after .step t).after .step u := ⟨_, rfl⟩
  have hleads : Leads a [⟨a, .load rom⟩, ⟨a₁, .step⟩, ⟨a₁.after .step t, .step⟩] c := by
    refine .cons Request.noConfusion rfl ?_
    rw [← hload]
    refine .cons Request.noConfusion ht (.cons Request.noConfusion hu ?_)
    rw [← hc]
    exact .nil c
  have hmoments : a.moments [.load rom, .step, .step, .tick, .tick, .tick] =
      [⟨a, .load rom⟩, ⟨a₁, .step⟩, ⟨a₁.after .step t, .step⟩] ++
        c.moments [.tick, .tick, .tick] := by
    rw [moments_cons rfl, ← hload, moments_cons ht, moments_cons hu, ← hc]
    rfl
  have hrun : ∀ rest, a.run? (.load rom :: .step :: .step :: rest) = c.run? rest := by
    intro rest
    rw [run?_cons rfl, ← hload, run?_cons ht, run?_cons hu, ← hc]
  have hthree : c.machine.sound = 3 := by rw [hc]; exact hsound
  obtain ⟨b, ts, hb, hts, -, -, hcalls, hcount, htones⟩ :=
    ticks_gate_tone ha [.load rom, .step, .step, .tick, .tick, .tick]
  have hticks : (c.moments [.tick, .tick, .tick]).countP Moment.isTick = 3 := rfl
  refine ⟨a, b, c, rom, hrom, ha, hrun [], hthree, hb, ?_, ?_⟩
  · rw [hcalls, ← hcount, hmoments, List.countP_append, hticks]
    rfl
  · rw [htones _ _ c hmoments hleads ?_, hticks, hthree]
    · rfl
    · intro x hx
      rcases hx with _ | ⟨_, _ | ⟨_, _ | ⟨_, _ | _⟩⟩⟩ <;>
        exact Moment.not_setsSound_of_tick _

end Session

end ChipEight
