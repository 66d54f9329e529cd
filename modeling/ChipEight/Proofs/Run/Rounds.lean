import ChipEight.Run

/-!
# What a round comes to

A round of a run comes to one of five things: the limit is reached, the user
asks to leave, the frame fails, the screen cannot be shown, or a tick is counted
and the run goes on. `Rounded view around limit p r` has a constructor for each,
with everything that was asked on the way, and a round is exactly that
(`rounded_of_round?`, `round?_of_rounded`).

A run of at most so many rounds is some rounds that go on and one that does not.
`rounds?_ended_iff` says where it ends, with the number of rounds before, and is
all that is needed of the bound on rounds.
-/

namespace ChipEight.Run

variable {σ : Type} {view : Viewer σ} {around : Surroundings} {limit : Option Nat}

/-- A limit that allows one more tick after `n`. -/
def Below (limit : Option Nat) (n : Nat) : Prop :=
  ∀ l ∈ limit, n < l

/-- What a round comes to. Each constructor has the answers of everything that
was asked before. -/
inductive Rounded (view : Viewer σ) (around : Surroundings) (limit : Option Nat)
    (p : Progress σ) : Round σ → Prop
  /-- The limit is reached, and nobody is asked. -/
  | full {l : Nat} (hlimit : limit = some l) (hle : l ≤ p.ticks) :
      Rounded view around limit p (.ended p)
  /-- The user asks to leave. -/
  | left (hbelow : Below limit p.ticks) (hquit : around.quit p.polls = true) :
      Rounded view around limit p
        (.ended { p with polls := p.polls + 1, notes := p.notes.push (.quit p.ticks) })
  /-- The frame fails. -/
  | broken {t : Turn} {f : Fault} (hbelow : Below limit p.ticks)
      (hquit : around.quit p.polls = false)
      (ht : p.machine.frame? (around.keys p.ticks) around.listening = some t)
      (hfault : t.fault = some f) :
      Rounded view around limit p
        (.ended { afterFrame { p with polls := p.polls + 1 } t with fault := some f })
  /-- The frame goes well and cannot be shown. -/
  | unshown {t : Turn} {f : Fault} {v : σ} (hbelow : Below limit p.ticks)
      (hquit : around.quit p.polls = false)
      (ht : p.machine.frame? (around.keys p.ticks) around.listening = some t)
      (hfault : t.fault = none) (hshow : view p.view t.machine.screen = some (some f, v)) :
      Rounded view around limit p
        (.ended { afterFrame { p with polls := p.polls + 1 } t with view := v, fault := some f })
  /-- A tick is counted. -/
  | ticked {t : Turn} {v : σ} (hbelow : Below limit p.ticks)
      (hquit : around.quit p.polls = false)
      (ht : p.machine.frame? (around.keys p.ticks) around.listening = some t)
      (hfault : t.fault = none) (hshow : view p.view t.machine.screen = some (none, v))
      (hfits : p.ticks + 1 < wordLimit) :
      Rounded view around limit p
        (.going { afterFrame { p with polls := p.polls + 1 } t with
          view := v, ticks := p.ticks + 1 })

theorem below_iff {n : Nat} : Below limit n ↔ limit.any (· ≤ n) = false := by
  cases limit with
  | none => simp [Below]
  | some l => simp [Below]

theorem rounded_of_round? {p : Progress σ} {r : Round σ}
    (h : round? view around limit p = some r) : Rounded view around limit p r := by
  unfold round? at h
  split at h
  case isTrue hfull =>
      obtain rfl := Option.some.inj h
      cases limit with
      | none => cases hfull
      | some l => exact .full rfl (of_decide_eq_true hfull)
  case isFalse hbelow =>
      have hbelow := below_iff.mpr (Bool.eq_false_iff.mpr hbelow)
      split at h
      case isTrue hquit =>
          obtain rfl := Option.some.inj h
          exact .left hbelow hquit
      case isFalse hquit =>
          have hquit := Bool.eq_false_iff.mpr hquit
          obtain ⟨t, ht, h⟩ := Option.bind_eq_some_iff.mp h
          cases hfault : t.fault with
          | some f =>
              rw [hfault] at h
              obtain rfl := Option.some.inj h
              exact .broken hbelow hquit ht hfault
          | none =>
              rw [hfault] at h
              obtain ⟨⟨fault, v⟩, hshow, h⟩ := Option.bind_eq_some_iff.mp h
              cases fault with
              | some f =>
                  obtain rfl := Option.some.inj h
                  exact .unshown hbelow hquit ht hfault hshow
              | none =>
                  simp only [] at h
                  split at h
                  case isTrue hfits =>
                      obtain rfl := Option.some.inj h
                      exact .ticked hbelow hquit ht hfault hshow hfits
                  case isFalse => cases h

theorem round?_of_rounded {p : Progress σ} {r : Round σ}
    (h : Rounded view around limit p r) : round? view around limit p = some r := by
  cases h with
  | full hlimit hle =>
      subst hlimit
      exact if_pos (decide_eq_true hle)
  | left hbelow hquit =>
      unfold round?
      rw [below_iff.mp hbelow, hquit]
      rfl
  | broken hbelow hquit ht hfault =>
      unfold round? makeFrame?
      rw [below_iff.mp hbelow, hquit, ht]
      simp [hfault]
  | unshown hbelow hquit ht hfault hshow =>
      unfold round? makeFrame? showFrame?
      rw [below_iff.mp hbelow, hquit, ht]
      simp [hfault, afterFrame, hshow]
  | ticked hbelow hquit ht hfault hshow hfits =>
      unfold round? makeFrame? showFrame?
      rw [below_iff.mp hbelow, hquit, ht]
      simp [hfault, afterFrame, hshow, hfits]

/-! ## Some rounds -/

theorem rounds?_succ (n : Nat) (p : Progress σ) :
    rounds? view around limit (n + 1) p = (rounds? view around limit n p).bind fun r =>
      match r with
      | .going p' => round? view around limit p'
      | .ended q => some (.ended q) := by
  induction n generalizing p with
  | zero =>
      rcases hround : round? view around limit p with - | ⟨p' | q⟩ <;> simp [rounds?, hround]
  | succ n ih =>
      rw [rounds?]
      rcases hround : round? view around limit p with - | ⟨p' | q⟩
      · simp [rounds?, hround]
      · simp only [rounds?, hround]
        exact ih p'
      · simp [rounds?, hround]

/-- A run that ended within a number of rounds went on for less than that many,
and then one ended it. -/
theorem rounds?_ended_iff {n : Nat} {p q : Progress σ} :
    rounds? view around limit n p = some (.ended q) ↔ ∃ k < n, ∃ p',
      rounds? view around limit k p = some (.going p') ∧
        Rounded view around limit p' (.ended q) := by
  induction n with
  | zero =>
      constructor
      · intro h
        cases h
      · rintro ⟨k, hk, -⟩
        exact absurd hk (Nat.not_lt_zero k)
  | succ n ih =>
      rw [rounds?_succ]
      constructor
      · intro h
        obtain ⟨r, hr, h⟩ := Option.bind_eq_some_iff.mp h
        cases r with
        | going p' => exact ⟨n, n.lt_succ_self, p', hr, rounded_of_round? h⟩
        | ended q' =>
            obtain rfl : q' = q := Round.ended.inj (Option.some.inj h)
            obtain ⟨k, hk, hlast⟩ := ih.mp hr
            exact ⟨k, Nat.lt_succ_of_lt hk, hlast⟩
      · rintro ⟨k, hk, p', hgoing, hlast⟩
        rcases Nat.lt_succ_iff_lt_or_eq.mp hk with hlt | rfl
        · rw [ih.mpr ⟨k, hlt, p', hgoing, hlast⟩]
          rfl
        · rw [hgoing]
          exact round?_of_rounded hlast

end ChipEight.Run
