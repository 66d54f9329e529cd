import ChipEight.Proofs.Run.Ending

/-!
# What a run is shown on

A run never looks at what its screens are shown on; it only hears whether showing one has failed.
So of two viewers that see the same, one through a function of what the other has, the runs are
the same through that function (`rounds?_map`). A viewer that keeps every screen has the most to
see: the screen after each tick (`Ticks.kept`). Counting the screens, and keeping each as a frame,
are functions of what it kept.

None of these ever fails. Shown on such a viewer, a safe machine with a limit always comes to an
end of its run, one round after its last tick at the latest (`exists_ended`).
-/

namespace ChipEight

variable {σ τ : Type}

namespace Viewer

/-- Keeps every screen that it is shown, in order. -/
def keeping : Viewer (List Screen) := fun screens s => some (none, screens ++ [s])

/-- A viewer that sees, through a function, what another has. -/
def Through (f : σ → τ) (view : Viewer σ) (view' : Viewer τ) : Prop :=
  ∀ v s, view' (f v) s = (view v s).map fun shown => (shown.1, f shown.2)

/-- A viewer that never fails. -/
def Serves (view : Viewer σ) : Prop :=
  ∀ v s, ∃ v', view v s = some (none, v')

theorem keeping_serves : keeping.Serves :=
  fun screens s => ⟨screens ++ [s], rfl⟩

theorem counting_through : Through List.length keeping counting := by
  intro screens s
  show some (none, screens.length + 1) = some (none, (screens ++ [s]).length)
  rw [List.length_append, List.length_singleton]

theorem collecting_through :
    Through (fun screens => (screens.map (frame false)).toArray) keeping collecting := by
  intro screens s
  show some (none, (screens.map (frame false)).toArray.push (frame false s)) =
    some (none, ((screens ++ [s]).map (frame false)).toArray)
  rw [List.push_toArray, List.map_append, List.map_singleton]

end Viewer

/-- A run as another viewer has it. -/
def Progress.map (f : σ → τ) (p : Progress σ) : Progress τ where
  machine := p.machine
  view := f p.view
  ticks := p.ticks
  polls := p.polls
  fault := p.fault
  notes := p.notes
  tones := p.tones

theorem Progress.fault_of_ok {p : Progress σ} {n : Nat} (h : p.result = .ok n) :
    p.fault = none := by
  unfold result at h
  split at h
  · assumption
  · cases h

theorem Progress.fault_of_error {p : Progress σ} {f : Fault} (h : p.result = .error f) :
    p.fault = some f := by
  unfold result at h
  split at h
  · cases h
  · next hfault =>
      obtain rfl := Except.error.inj h
      exact hfault

/-- A round as another viewer has it. -/
def Round.map (f : σ → τ) : Round σ → Round τ
  | .going p => .going (p.map f)
  | .ended p => .ended (p.map f)

namespace Run

variable {f : σ → τ} {view : Viewer σ} {view' : Viewer τ} {around : Surroundings}
  {limit : Option Nat}

/-! ## Two viewers -/

theorem rounded_map (hf : view.Through f view') {p : Progress σ} {r : Round σ}
    (h : Rounded view around limit p r) : Rounded view' around limit (p.map f) (r.map f) := by
  cases h with
  | full hlimit hle => exact .full hlimit hle
  | left hbelow hquit => exact .left hbelow hquit
  | broken hbelow hquit ht hfault => exact .broken hbelow hquit ht hfault
  | unshown hbelow hquit ht hfault hshow =>
      exact .unshown hbelow hquit ht hfault
        ((hf p.view _).trans (congrArg (Option.map _) hshow))
  | ticked hbelow hquit ht hfault hshow hfits =>
      exact .ticked hbelow hquit ht hfault
        ((hf p.view _).trans (congrArg (Option.map _) hshow)) hfits

/-- A round comes to the same for both viewers, unless it breaks down. -/
theorem round?_map (hf : view.Through f view') {p : Progress σ} {r : Round σ}
    (h : round? view around limit p = some r) :
    round? view' around limit (p.map f) = some (r.map f) :=
  round?_of_rounded (rounded_map hf (rounded_of_round? h))

theorem rounds?_map (hf : view.Through f view') : ∀ {n : Nat} {p : Progress σ} {r : Round σ},
    rounds? view around limit n p = some r →
      rounds? view' around limit n (p.map f) = some (r.map f)
  | 0, _, _, h => by
      obtain rfl := Option.some.inj h
      rfl
  | n + 1, p, r, h => by
      rw [rounds?] at h ⊢
      rcases hround : round? view around limit p with - | ⟨p' | q⟩
      · rw [hround] at h
        cases h
      · rw [hround] at h
        rw [round?_map hf hround]
        exact rounds?_map hf h
      · rw [hround] at h
        obtain rfl := Option.some.inj h
        rw [round?_map hf hround]
        rfl

/-! ## Ticks -/

theorem Ticks.map {m m' : Machine} {v v' : σ} {n : Nat} (hf : view.Through f view')
    (h : Ticks view around m v n m' v') : Ticks view' around m (f v) n m' (f v') := by
  induction h with
  | zero => exact .zero
  | succ _ htick ih =>
      obtain ⟨t, ht, hfault, rfl, hshow⟩ := htick
      exact .succ ih ⟨t, ht, hfault, rfl, (hf _ _).trans (congrArg (Option.map _) hshow)⟩

/-- What was kept after some ticks: the screen of the machine after each of them. -/
theorem Ticks.kept {m m' : Machine} {screens : List Screen} {n : Nat}
    (h : Ticks Viewer.keeping around m [] n m' screens) : screens.length = n ∧
      ∀ i (hi : i < screens.length), ∃ m₁ kept,
        Ticks Viewer.keeping around m [] (i + 1) m₁ kept ∧ screens[i] = m₁.screen := by
  induction h with
  | zero => exact ⟨rfl, fun i hi => absurd hi (Nat.not_lt_zero i)⟩
  | @succ n m' m'' screens screens' h htick ih =>
      have hall := h.succ htick
      obtain ⟨hlength, hscreen⟩ := ih
      obtain ⟨t, -, -, -, hshow⟩ := htick
      obtain rfl : screens ++ [m''.screen] = screens' := (Prod.mk.inj (Option.some.inj hshow)).2
      refine ⟨by rw [List.length_append, hlength, List.length_singleton], fun i hi => ?_⟩
      rw [List.length_append, List.length_singleton] at hi
      rcases Nat.lt_succ_iff_lt_or_eq.mp hi with hlt | rfl
      · rw [List.getElem_append_left hlt]
        exact hscreen i hlt
      · subst hlength
        exact ⟨m'', _, hall, List.getElem_concat_length rfl _⟩

theorem exists_ticks_of_returns {m m' : Machine} {v v' : σ} {k : Nat} {r : Except Fault Nat}
    (hrate : 0 < m.settings.tickRate) (hview : view.Serves)
    (h : Returns view around limit m v r k m' v') : ∃ n m₁, Ticks view around m v n m₁ v' := by
  cases r with
  | ok n =>
      obtain ⟨-, hticks, -⟩ := (returns_ok_iff hrate).mp h
      exact ⟨n, m', hticks⟩
  | error fault =>
      obtain ⟨n, m₁, v₁, -, hticks, -, -, -, t, -, rfl, hlast⟩ := (returns_error_iff hrate).mp h
      rcases hlast with ⟨-, rfl⟩ | ⟨-, hunshown⟩
      · exact ⟨n, m₁, hticks⟩
      · obtain ⟨v'', hshow⟩ := hview v₁ t.machine.screen
        cases hshow.symm.trans hunshown

/-! ## Runs that end -/

theorem roundsUntil_of_rounds? : ∀ {n : Nat} {p : Progress σ} {r : Round σ},
    rounds? view around limit n p = some r →
      roundsUntil (fun _ => false) view around limit n p = .ok r
  | 0, _, _, h => congrArg Except.ok (Option.some.inj h)
  | n + 1, p, r, h => by
      rw [rounds?] at h
      rw [roundsUntil, if_neg Bool.false_ne_true]
      rcases hround : round? view around limit p with - | ⟨p' | q⟩
      · rw [hround] at h
        cases h
      · rw [hround] at h
        exact roundsUntil_of_rounds? h
      · rw [hround] at h
        exact congrArg Except.ok (Option.some.inj h)

variable {s : Settings} {m : Machine} {l : Nat}

theorem exists_round (hs : s.check = none) (hview : view.Serves) (hl : l < wordLimit)
    {p : Progress σ} (hp : Machine.Safe s p.machine) :
    ∃ r, Rounded view around (some l) p r ∧ Machine.Safe s (progress r).machine := by
  by_cases hfull : l ≤ p.ticks
  case pos => exact ⟨_, .full rfl hfull, hp⟩
  case neg =>
    have hbelow : Below (some l) p.ticks := by
      intro k hk
      obtain rfl := Option.some.inj hk
      exact Nat.lt_of_not_le hfull
    cases hquit : around.quit p.polls with
    | true => exact ⟨_, .left hbelow hquit, hp⟩
    | false =>
        obtain ⟨t, ht, -, hsafe⟩ :=
          Machine.frame?_framed hs hp (around.keys p.ticks) around.listening
        cases hfault : t.fault with
        | some f => exact ⟨_, .broken hbelow hquit ht hfault, hsafe⟩
        | none =>
            obtain ⟨v', hshow⟩ := hview p.view t.machine.screen
            exact ⟨_, .ticked hbelow hquit ht hfault hshow
              (Nat.lt_of_le_of_lt (hbelow l rfl) hl), hsafe⟩

theorem exists_rounds (hs : s.check = none) (hview : view.Serves) (hl : l < wordLimit)
    (hm : Machine.Safe s m) (v : σ) : ∀ n : Nat,
      ∃ r, rounds? view around (some l) n (start m v) = some r ∧
        Machine.Safe s (progress r).machine
  | 0 => ⟨.going (start m v), rfl, hm⟩
  | n + 1 => by
      obtain ⟨r, hr, hsafe⟩ := exists_rounds hs hview hl hm v n
      rw [rounds?_succ, hr]
      cases r with
      | going p =>
          obtain ⟨r', hr', hsafe'⟩ := exists_round hs hview hl hsafe
          exact ⟨r', round?_of_rounded hr', hsafe'⟩
      | ended q => exact ⟨.ended q, rfl, hsafe⟩

/-- A run of a safe machine with a limit ends, one round after its last tick at the latest. -/
theorem exists_ended (hs : s.check = none) (hview : view.Serves) (hl : l < wordLimit)
    (hm : Machine.Safe s m) (around : Surroundings) (v : σ) :
    ∃ q, rounds? view around (some l) (boundFor (some l)) (start m v) = some (.ended q) := by
  obtain ⟨r, hr, -⟩ : ∃ r, rounds? view around (some l) (l + 1) (start m v) = some r ∧
      Machine.Safe s (progress r).machine := exists_rounds hs hview hl hm v (l + 1)
  cases r with
  | going p =>
      -- it would have made one tick too many
      exact absurd ((after_of_rounds? hr).within l rfl) (Nat.not_succ_le_self l)
  | ended q => exact ⟨q, hr⟩

theorem returns_of_ended (hrate : 0 < m.settings.tickRate) {v : σ} {n : Nat} {q : Progress σ}
    (h : rounds? view around limit n (start m v) = some (.ended q)) :
    Returns view around limit m v q.result q.polls q.machine q.view :=
  ⟨n, q, (run?_eq_rounds? hrate n).trans h, rfl, rfl, rfl, rfl⟩

end Run

end ChipEight
