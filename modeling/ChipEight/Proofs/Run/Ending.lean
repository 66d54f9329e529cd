import ChipEight.Proofs.Machine.Frames
import ChipEight.Proofs.Machine.Refit
import ChipEight.Proofs.Machine.Runs
import ChipEight.Proofs.Run.Rounds

/-!
# How a run ends

A run is told by its ticks. `Ticks view around m v n m' v'` says that `n` frames
in a row go well and are shown, each once and in order, and what they make of the
machine and of what the screens are shown on; it knows no limit and no wish to
leave. With ticks the endings of a run are listed: `returns_ok_iff` has those with
a number of ticks, `returns_error_iff` those with a fault. Both are exact, so
whether a run comes back is settled as well.

Since the endings are told by ticks, a run with a limit can be cut in two
anywhere. The ticks of the second part are the later ticks of the whole
(`Ticks.later_iff`), and the whole cannot end within the first part: it would
have to stop, or to fail, where that part ticked (`Ticks.next`).

Nothing is asked of the machine but a pace. It need not be one that a session can
get to, and its frames may break down; then the run does, too.
-/

namespace ChipEight

/-- What a run comes back with: its ticks, or the fault that ended it. -/
def Progress.result {σ : Type} (p : Progress σ) : Except Fault Nat :=
  match p.fault with
  | none => .ok p.ticks
  | some f => .error f

namespace Run

variable {σ : Type}

/-- A run comes back: with what, after how many questions, and what it leaves. -/
def Returns (view : Viewer σ) (around : Surroundings) (limit : Option Nat) (m : Machine) (v : σ)
    (result : Except Fault Nat) (polls : Nat) (m' : Machine) (v' : σ) : Prop :=
  ∃ bound p, run? view around limit bound m v = some (.ended p) ∧ p.result = result ∧
    p.polls = polls ∧ p.machine = m' ∧ p.view = v'

/-! ## Ticks and faults -/

/-- A tick: a frame that goes well, and its screen shown. -/
def Ticked (view : Viewer σ) (keys : Keypad) (listening : Bool) (m : Machine) (v : σ)
    (m' : Machine) (v' : σ) : Prop :=
  ∃ t, m.frame? keys listening = some t ∧ t.fault = none ∧ t.machine = m' ∧
    view v m'.screen = some (none, v')

/-- A frame that ends a run: it fails, or it goes well and cannot be shown. -/
def Faulted (view : Viewer σ) (keys : Keypad) (listening : Bool) (m : Machine) (v : σ) (f : Fault)
    (m' : Machine) (v' : σ) : Prop :=
  ∃ t, m.frame? keys listening = some t ∧ t.machine = m' ∧
    (t.fault = some f ∧ v' = v ∨ t.fault = none ∧ view v m'.screen = some (some f, v'))

/-- So many ticks in a row. -/
inductive Ticks (view : Viewer σ) (around : Surroundings) (m : Machine) (v : σ) :
    Nat → Machine → σ → Prop
  | zero : Ticks view around m v 0 m v
  | succ {n : Nat} {m' m'' : Machine} {v' v'' : σ} (h : Ticks view around m v n m' v')
      (htick : Ticked view (around.keys n) around.listening m' v' m'' v'') :
      Ticks view around m v (n + 1) m'' v''

variable {view : Viewer σ} {around : Surroundings} {limit : Option Nat}
  {m m' m₁ m₂ : Machine} {v v' v₁ v₂ : σ} {n k : Nat}

theorem Ticked.unique {keys : Keypad} {l : Bool} (h₁ : Ticked view keys l m v m₁ v₁)
    (h₂ : Ticked view keys l m v m₂ v₂) : m₁ = m₂ ∧ v₁ = v₂ := by
  obtain ⟨t, ht, -, rfl, hv₁⟩ := h₁
  obtain ⟨u, hu, -, rfl, hv₂⟩ := h₂
  obtain rfl := Option.some.inj (ht.symm.trans hu)
  exact ⟨rfl, (Prod.mk.inj (Option.some.inj (hv₁.symm.trans hv₂))).2⟩

theorem Ticked.not_faulted {keys : Keypad} {l : Bool} {f : Fault}
    (h : Ticked view keys l m v m₁ v₁) : ¬ Faulted view keys l m v f m₂ v₂ := by
  rintro ⟨u, hu, rfl, hcase⟩
  obtain ⟨t, ht, htfault, rfl, hshow⟩ := h
  obtain rfl := Option.some.inj (ht.symm.trans hu)
  rcases hcase with ⟨hfault, -⟩ | ⟨-, hunshown⟩
  · cases htfault.symm.trans hfault
  · cases hshow.symm.trans hunshown

theorem Ticks.unique (h₁ : Ticks view around m v n m₁ v₁) (h₂ : Ticks view around m v n m₂ v₂) :
    m₁ = m₂ ∧ v₁ = v₂ := by
  induction h₁ generalizing m₂ v₂ with
  | zero =>
      cases h₂
      exact ⟨rfl, rfl⟩
  | succ _ htick ih =>
      cases h₂ with
      | succ h₂ htick₂ =>
          obtain ⟨rfl, rfl⟩ := ih h₂
          exact htick.unique htick₂

theorem Ticks.next (h : Ticks view around m v n m₁ v₁) (hk : k < n)
    (h' : Ticks view around m v k m' v') :
    ∃ m'' v'', Ticked view (around.keys k) around.listening m' v' m'' v'' := by
  induction h with
  | zero => exact absurd hk (Nat.not_lt_zero k)
  | succ h htick ih =>
      rcases Nat.lt_succ_iff_lt_or_eq.mp hk with hlt | rfl
      · exact ih hlt
      · obtain ⟨rfl, rfl⟩ := h.unique h'
        exact ⟨_, _, htick⟩

theorem Ticks.later_iff (h : Ticks view around m v n m₁ v₁) :
    Ticks view (around.later n) m₁ v₁ k m' v' ↔ Ticks view around m v (n + k) m' v' := by
  induction k generalizing m' v' with
  | zero =>
      constructor
      · intro h'
        cases h'
        exact h
      · intro h'
        obtain ⟨rfl, rfl⟩ := h.unique h'
        exact .zero
  | succ k ih =>
      constructor
      · intro h'
        cases h' with
        | succ h' htick => exact .succ (ih.mp h') htick
      · intro h'
        cases h' with
        | succ h' htick => exact .succ (ih.mpr h') htick

theorem Ticks.settings (h : Ticks view around m v n m₁ v₁) : m₁.settings = m.settings := by
  induction h with
  | zero => rfl
  | succ _ htick ih =>
      obtain ⟨t, ht, -, rfl, -⟩ := htick
      exact (Machine.settings_of_frame? ht).trans ih

/-! ## The rounds that go on

A run that goes on has asked once for each tick it counted and was never told to
leave. Its rounds are its ticks: both ways the induction is on their number, and
`After` is what it carries. -/

/-- A run that has gone on for `n` rounds. -/
structure After (view : Viewer σ) (around : Surroundings) (limit : Option Nat) (m : Machine)
    (v : σ) (n : Nat) (p : Progress σ) : Prop where
  ticks : p.ticks = n
  polls : p.polls = n
  fault : p.fault = none
  path : Ticks view around m v n p.machine p.view
  asked : ∀ i < n, around.quit i = false
  within : ∀ l ∈ limit, n ≤ l
  fits : n < wordLimit

/-- A run before its first round. -/
def start (m : Machine) (v : σ) : Progress σ :=
  { machine := m, view := v }

theorem asked_through (hasked : ∀ i < n, around.quit i = false)
    (hquit : around.quit n = false) : ∀ i ≤ n, around.quit i = false := by
  intro i hi
  rcases Nat.lt_or_eq_of_le hi with hlt | rfl
  · exact hasked i hlt
  · exact hquit

theorem after_of_rounds? {p : Progress σ}
    (h : rounds? view around limit n (start m v) = some (.going p)) :
    After view around limit m v n p := by
  induction n generalizing p with
  | zero =>
      obtain rfl := Round.going.inj (Option.some.inj h)
      exact ⟨rfl, rfl, rfl, .zero, fun i hi => absurd hi (Nat.not_lt_zero i),
        fun l _ => Nat.zero_le l, by decide⟩
  | succ n ih =>
      rw [rounds?_succ] at h
      obtain ⟨r, hr, h⟩ := Option.bind_eq_some_iff.mp h
      cases r with
      | ended q => cases h
      | going p' =>
          obtain ⟨hticks, hpolls, hfault, hpath, hasked, -, -⟩ := ih hr
          cases rounded_of_round? h with
          | ticked hbelow hquit ht htfault hshow hfits =>
              rw [hticks] at ht hfits hbelow
              rw [hpolls] at hquit
              exact ⟨congrArg (· + 1) hticks, congrArg (· + 1) hpolls, hfault,
                .succ hpath ⟨_, ht, htfault, rfl, hshow⟩,
                fun i hi => asked_through hasked hquit i (Nat.le_of_lt_succ hi), hbelow, hfits⟩

theorem rounds?_of_ticks (h : Ticks view around m v n m' v')
    (hasked : ∀ i < n, around.quit i = false) (hwithin : ∀ l ∈ limit, n ≤ l)
    (hfits : n < wordLimit) :
    ∃ p, rounds? view around limit n (start m v) = some (.going p) ∧ p.machine = m' ∧
      p.view = v' := by
  induction h with
  | zero => exact ⟨start m v, rfl, rfl, rfl⟩
  | @succ n m' m'' v' v'' h htick ih =>
      obtain ⟨p, hp, rfl, rfl⟩ := ih (fun i hi => hasked i (Nat.lt_succ_of_lt hi))
        (fun l hl => Nat.le_of_succ_le (hwithin l hl)) (Nat.lt_of_succ_lt hfits)
      obtain ⟨hticks, hpolls, -⟩ := after_of_rounds? hp
      obtain ⟨t, ht, htfault, rfl, hshow⟩ := htick
      refine ⟨{ afterFrame { p with polls := p.polls + 1 } t with
        view := v'', ticks := p.ticks + 1 }, ?_, rfl, rfl⟩
      rw [rounds?_succ, hp]
      exact round?_of_rounded (.ticked (hticks ▸ hwithin) (hpolls ▸ hasked n n.lt_succ_self)
        (hticks ▸ ht) htfault hshow (hticks ▸ hfits))

/-! ## The endings -/

theorem run?_eq_rounds? (hrate : 0 < m.settings.tickRate) (bound : Nat) :
    run? view around limit bound m v = rounds? view around limit bound (start m v) := by
  unfold run? Settings.tickInterval?
  rw [if_neg (Nat.ne_of_gt hrate)]
  rfl

/-- A run comes back after some rounds that went on and one that ends it. -/
theorem returns_iff_rounded (hrate : 0 < m.settings.tickRate) {r : Except Fault Nat} :
    Returns view around limit m v r k m' v' ↔ ∃ n p q,
      rounds? view around limit n (start m v) = some (.going p) ∧
        Rounded view around limit p (.ended q) ∧ q.result = r ∧ q.polls = k ∧
          q.machine = m' ∧ q.view = v' := by
  constructor
  · rintro ⟨bound, q, hrun, hq⟩
    rw [run?_eq_rounds? hrate] at hrun
    obtain ⟨n, -, p, hgoing, hlast⟩ := rounds?_ended_iff.mp hrun
    exact ⟨n, p, q, hgoing, hlast, hq⟩
  · rintro ⟨n, p, q, hgoing, hlast, hq⟩
    refine ⟨n + 1, q, ?_, hq⟩
    rw [run?_eq_rounds? hrate]
    exact rounds?_ended_iff.mpr ⟨n, n.lt_succ_self, p, hgoing, hlast⟩

theorem returns_ok_iff (hrate : 0 < m.settings.tickRate) :
    Returns view around limit m v (.ok n) k m' v' ↔
      n < wordLimit ∧ Ticks view around m v n m' v' ∧ (∀ i < n, around.quit i = false) ∧
        (limit = some n ∧ k = n ∨ Below limit n ∧ around.quit n = true ∧ k = n + 1) := by
  rw [returns_iff_rounded hrate]
  constructor
  · rintro ⟨j, p, q, hgoing, hlast, hresult, rfl, rfl, rfl⟩
    obtain ⟨rfl, hpolls, hfault, hpath, hasked, hwithin, hfits⟩ := after_of_rounds? hgoing
    cases hlast with
    | full hlimit hle =>
        rw [Progress.result, hfault] at hresult
        obtain rfl := Except.ok.inj hresult
        have hfull := Nat.le_antisymm hle (hwithin _ hlimit)
        exact ⟨hfits, hpath, hasked, .inl ⟨hfull ▸ hlimit, hpolls⟩⟩
    | left hbelow hquit =>
        simp only [Progress.result, hfault] at hresult
        obtain rfl := Except.ok.inj hresult
        exact ⟨hfits, hpath, hasked, .inr ⟨hbelow, hpolls ▸ hquit, congrArg (· + 1) hpolls⟩⟩
    | broken => cases hresult
    | unshown => cases hresult
  · rintro ⟨hfits, hticks, hasked, hstop⟩
    have hwithin : ∀ l ∈ limit, n ≤ l := by
      intro l hl
      rcases hstop with ⟨rfl, -⟩ | ⟨hbelow, -⟩
      · exact Nat.le_of_eq (Option.some.inj hl)
      · exact Nat.le_of_lt (hbelow l hl)
    obtain ⟨p, hgoing, rfl, rfl⟩ := rounds?_of_ticks hticks hasked hwithin hfits
    obtain ⟨rfl, hpolls, hfault, -⟩ := after_of_rounds? hgoing
    rcases hstop with ⟨hlimit, rfl⟩ | ⟨hbelow, hquit, rfl⟩
    · refine ⟨_, p, p, hgoing, .full hlimit (Nat.le_refl _), ?_, hpolls, rfl, rfl⟩
      rw [Progress.result, hfault]
    · refine ⟨_, p, _, hgoing, .left hbelow (hpolls.symm ▸ hquit), ?_,
        congrArg (· + 1) hpolls, rfl, rfl⟩
      simp only [Progress.result, hfault]

theorem returns_error_iff (hrate : 0 < m.settings.tickRate) {f : Fault} :
    Returns view around limit m v (.error f) k m' v' ↔ ∃ n m₁ v₁,
      n < wordLimit ∧ Ticks view around m v n m₁ v₁ ∧ (∀ i ≤ n, around.quit i = false) ∧
        Below limit n ∧ k = n + 1 ∧
          Faulted view (around.keys n) around.listening m₁ v₁ f m' v' := by
  rw [returns_iff_rounded hrate]
  constructor
  · rintro ⟨n, p, q, hgoing, hlast, hresult, rfl, rfl, rfl⟩
    obtain ⟨rfl, hpolls, hfault, hpath, hasked, hwithin, hfits⟩ := after_of_rounds? hgoing
    cases hlast with
    | full =>
        rw [Progress.result, hfault] at hresult
        cases hresult
    | left =>
        simp only [Progress.result, hfault] at hresult
        cases hresult
    | broken hbelow hquit ht htfault =>
        obtain rfl := Except.error.inj hresult
        exact ⟨_, _, _, hfits, hpath, asked_through hasked (hpolls ▸ hquit), hbelow,
          congrArg (· + 1) hpolls, _, ht, rfl, .inl ⟨htfault, rfl⟩⟩
    | unshown hbelow hquit ht htfault hshow =>
        obtain rfl := Except.error.inj hresult
        exact ⟨_, _, _, hfits, hpath, asked_through hasked (hpolls ▸ hquit), hbelow,
          congrArg (· + 1) hpolls, _, ht, rfl, .inr ⟨htfault, hshow⟩⟩
  · rintro ⟨n, m₁, v₁, hfits, hticks, hasked, hbelow, rfl, t, ht, rfl, hcase⟩
    obtain ⟨p, hgoing, rfl, rfl⟩ := rounds?_of_ticks hticks
      (fun i hi => hasked i (Nat.le_of_lt hi)) (fun l hl => Nat.le_of_lt (hbelow l hl)) hfits
    obtain ⟨rfl, hpolls, -⟩ := after_of_rounds? hgoing
    have hquit : around.quit p.polls = false := hpolls.symm ▸ hasked _ (Nat.le_refl _)
    rcases hcase with ⟨htfault, rfl⟩ | ⟨htfault, hshow⟩
    · exact ⟨_, p, _, hgoing, .broken hbelow hquit ht htfault, rfl, congrArg (· + 1) hpolls,
        rfl, rfl⟩
    · exact ⟨_, p, _, hgoing, .unshown hbelow hquit ht htfault hshow, rfl,
        congrArg (· + 1) hpolls, rfl, rfl⟩

/-! ## A run in two parts

The first part is known by its ticks and by what it was answered, which is all
that its end with a full number of ticks says. -/

theorem asked_add {a : Nat} (hasked : ∀ i < a, around.quit i = false)
    (hlater : ∀ i < n, (around.later a).quit i = false) : ∀ i < a + n, around.quit i = false := by
  intro i hi
  rcases Nat.lt_or_ge i a with hlt | hge
  · exact hasked i hlt
  · obtain ⟨j, rfl⟩ := Nat.exists_eq_add_of_le hge
    exact hlater j (Nat.lt_of_add_lt_add_left hi)

theorem below_add_iff {a b : Nat} : Below (some (a + b)) (a + n) ↔ Below (some b) n := by
  simp [Below]

/-- A run that can make all its ticks makes them, and comes back with nothing else. -/
theorem Returns.eq_of_ticks {l : Nat} {r : Except Fault Nat} (hrate : 0 < m.settings.tickRate)
    (h : Returns view around (some l) m v r k m' v') (hticks : Ticks view around m v l m₁ v₁)
    (hasked : ∀ i < l, around.quit i = false) : r = .ok l ∧ m' = m₁ ∧ v' = v₁ := by
  cases r with
  | ok n =>
      obtain ⟨-, hpath, -, hstop⟩ := (returns_ok_iff hrate).mp h
      rcases hstop with ⟨hlimit, -⟩ | ⟨hbelow, hquit, -⟩
      · obtain rfl := Option.some.inj hlimit
        exact ⟨rfl, hpath.unique hticks⟩
      · cases hquit.symm.trans (hasked n (hbelow l rfl))
  | error f =>
      obtain ⟨n, m₂, v₂, -, hpath, -, hbelow, -, hfaulted⟩ := (returns_error_iff hrate).mp h
      obtain ⟨_, _, hticked⟩ := hticks.next (hbelow l rfl) hpath
      exact absurd hfaulted hticked.not_faulted

section Parts

variable {a b : Nat}

theorem returns_ok_add_iff (hrate : 0 < m.settings.tickRate) (hfits : a + b < wordLimit)
    (hticks : Ticks view around m v a m₁ v₁) (hasked : ∀ i < a, around.quit i = false) :
    Returns view around (some (a + b)) m v (.ok n) k m' v' ↔
      ∃ n' k', Returns view (around.later a) (some b) m₁ v₁ (.ok n') k' m' v' ∧
        n = a + n' ∧ k = a + k' := by
  have hrate₁ : 0 < m₁.settings.tickRate := hticks.settings.symm ▸ hrate
  constructor
  · intro h
    obtain ⟨hn, hpath, hquits, hstop⟩ := (returns_ok_iff hrate).mp h
    -- the whole run does not stop in the first part: it is not full there, and nobody asks to leave
    have hle : a ≤ n := by
      rcases hstop with ⟨hfull, -⟩ | ⟨-, hquit, -⟩
      · exact Nat.le_of_add_right_le (Nat.le_of_eq (Option.some.inj hfull))
      · refine Nat.le_of_not_lt fun hlt => ?_
        cases hquit.symm.trans (hasked n hlt)
    obtain ⟨n', rfl⟩ := Nat.exists_eq_add_of_le hle
    have hn' : n' < wordLimit := Nat.lt_of_le_of_lt (Nat.le_add_left ..) hn
    have hpath' := hticks.later_iff.mpr hpath
    have hquits' : ∀ i < n', (around.later a).quit i = false :=
      fun i hi => hquits (a + i) (Nat.add_lt_add_left hi a)
    rcases hstop with ⟨hfull, rfl⟩ | ⟨hbelow, hquit, rfl⟩
    · have hfull' : some b = some n' := congrArg some (Nat.add_left_cancel (Option.some.inj hfull))
      exact ⟨n', n', (returns_ok_iff hrate₁).mpr ⟨hn', hpath', hquits', .inl ⟨hfull', rfl⟩⟩,
        rfl, rfl⟩
    · exact ⟨n', n' + 1, (returns_ok_iff hrate₁).mpr ⟨hn', hpath', hquits',
        .inr ⟨below_add_iff.mp hbelow, hquit, rfl⟩⟩, rfl, rfl⟩
  · rintro ⟨n', k', h, rfl, rfl⟩
    obtain ⟨-, hpath, hquits, hstop⟩ := (returns_ok_iff hrate₁).mp h
    refine (returns_ok_iff hrate).mpr ⟨?_, hticks.later_iff.mp hpath, asked_add hasked hquits, ?_⟩
    · have hle : n' ≤ b := by
        rcases hstop with ⟨hfull, -⟩ | ⟨hbelow, -⟩
        · exact Nat.le_of_eq (Option.some.inj hfull).symm
        · exact Nat.le_of_lt (hbelow b rfl)
      exact Nat.lt_of_le_of_lt (Nat.add_le_add_left hle a) hfits
    · rcases hstop with ⟨hfull, rfl⟩ | ⟨hbelow, hquit, rfl⟩
      · exact .inl ⟨congrArg (fun b => some (a + b)) (Option.some.inj hfull), rfl⟩
      · exact .inr ⟨below_add_iff.mpr hbelow, hquit, rfl⟩

theorem returns_error_add_iff (hrate : 0 < m.settings.tickRate) (hfits : a + b < wordLimit)
    (hticks : Ticks view around m v a m₁ v₁) (hasked : ∀ i < a, around.quit i = false)
    {f : Fault} :
    Returns view around (some (a + b)) m v (.error f) k m' v' ↔
      ∃ k', Returns view (around.later a) (some b) m₁ v₁ (.error f) k' m' v' ∧ k = a + k' := by
  have hrate₁ : 0 < m₁.settings.tickRate := hticks.settings.symm ▸ hrate
  constructor
  · intro h
    obtain ⟨n, m₂, v₂, hn, hpath, hquits, hbelow, rfl, hfaulted⟩ := (returns_error_iff hrate).mp h
    -- a fault in the first part would be in the place of one of its ticks
    have hle : a ≤ n := by
      refine Nat.le_of_not_lt fun hlt => ?_
      obtain ⟨m₃, v₃, htick⟩ := hticks.next hlt hpath
      exact htick.not_faulted hfaulted
    obtain ⟨n', rfl⟩ := Nat.exists_eq_add_of_le hle
    exact ⟨n' + 1, (returns_error_iff hrate₁).mpr ⟨n', m₂, v₂,
      Nat.lt_of_le_of_lt (Nat.le_add_left ..) hn, hticks.later_iff.mpr hpath,
      fun i hi => hquits (a + i) (Nat.add_le_add_left hi a), below_add_iff.mp hbelow, rfl,
      hfaulted⟩, rfl⟩
  · rintro ⟨k', h, rfl⟩
    obtain ⟨n', m₂, v₂, -, hpath, hquits, hbelow, rfl, hfaulted⟩ := (returns_error_iff hrate₁).mp h
    have hquits' := asked_add (n := n' + 1) hasked fun i hi => hquits i (Nat.le_of_lt_succ hi)
    exact (returns_error_iff hrate).mpr ⟨a + n', m₂, v₂,
      Nat.lt_trans (Nat.add_lt_add_left (hbelow b rfl) a) hfits, hticks.later_iff.mp hpath,
      fun i hi => hquits' i (Nat.lt_succ_of_le hi), below_add_iff.mpr hbelow, rfl, hfaulted⟩

/-- After a first part that came back with as many ticks as it was allowed, a run
does what the second part does. -/
theorem returns_add_iff (hrate : 0 < m.settings.tickRate) (hfits : a + b < wordLimit) {j : Nat}
    (h : Returns view around (some a) m v (.ok a) j m₁ v₁) {r : Except Fault Nat} :
    Returns view around (some (a + b)) m v r k m' v' ↔
      ∃ r' k', Returns view (around.later a) (some b) m₁ v₁ r' k' m' v' ∧
        r = r'.map (a + ·) ∧ k = j + k' := by
  obtain ⟨-, hticks, hasked, hstop⟩ := (returns_ok_iff hrate).mp h
  obtain rfl : j = a := by
    rcases hstop with ⟨-, hj⟩ | ⟨hbelow, -⟩
    · exact hj
    · exact absurd (hbelow a rfl) (Nat.lt_irrefl a)
  cases r with
  | ok n =>
      rw [returns_ok_add_iff hrate hfits hticks hasked]
      constructor
      · rintro ⟨n', k', h', rfl, rfl⟩
        exact ⟨.ok n', k', h', rfl, rfl⟩
      · rintro ⟨r' | n', k', h', hr, rfl⟩
        · cases hr
        · exact ⟨n', k', h', Except.ok.inj hr, rfl⟩
  | error f =>
      rw [returns_error_add_iff hrate hfits hticks hasked]
      constructor
      · rintro ⟨k', h', rfl⟩
        exact ⟨.error f, k', h', rfl, rfl⟩
      · rintro ⟨f' | n', k', h', hr, rfl⟩
        · obtain rfl := Except.error.inj hr
          exact ⟨k', h', rfl⟩
        · cases hr

end Parts

/-- A run comes back with a number of ticks exactly if so many frames in a row go
well and are shown, nobody asked to leave before, and then either the limit is
reached and nobody is asked again, or the limit is not reached and the user asks
to leave. It comes back with a fault exactly if after some ticks within the limit
and a question more the next frame fails, or cannot be shown. So a run with a
limit can be made in two parts. -/
theorem returns_exactly (hrate : 0 < m.settings.tickRate) (view : Viewer σ)
    (around : Surroundings) (limit : Option Nat) (v : σ) :
    (∀ n k m' v', Returns view around limit m v (.ok n) k m' v' ↔
      n < wordLimit ∧ Ticks view around m v n m' v' ∧ (∀ i < n, around.quit i = false) ∧
        (limit = some n ∧ k = n ∨ Below limit n ∧ around.quit n = true ∧ k = n + 1)) ∧
    (∀ f k m' v', Returns view around limit m v (.error f) k m' v' ↔ ∃ n m₁ v₁,
      n < wordLimit ∧ Ticks view around m v n m₁ v₁ ∧ (∀ i ≤ n, around.quit i = false) ∧
        Below limit n ∧ k = n + 1 ∧
          Faulted view (around.keys n) around.listening m₁ v₁ f m' v') ∧
    ∀ a b j m₁ v₁, a + b < wordLimit → Returns view around (some a) m v (.ok a) j m₁ v₁ →
      ∀ r k m' v', Returns view around (some (a + b)) m v r k m' v' ↔
        ∃ r' k', Returns view (around.later a) (some b) m₁ v₁ r' k' m' v' ∧
          r = r'.map (a + ·) ∧ k = j + k' := by
  refine ⟨fun _ _ _ _ => returns_ok_iff hrate, fun _ _ _ _ => returns_error_iff hrate, ?_⟩
  intro a b j m₁ v₁ hfits h r k m' v'
  exact returns_add_iff hrate hfits h

/-! ## Jumping on the spot -/

theorem exists_ticks_of_spins (around : Surroundings) (h : m.Spins) (v n : Nat) :
    ∃ m', Ticks Viewer.counting around m v n m' (v + n) ∧ m'.Spins := by
  induction n with
  | zero => exact ⟨m, .zero, h⟩
  | succ n ih =>
      obtain ⟨m', hticks, h'⟩ := ih
      obtain ⟨t, ht, hfault, hmachine⟩ := h'.frame? (around.keys n) around.listening
      exact ⟨m'.tick.machine, .succ hticks ⟨t, ht, hfault, hmachine, rfl⟩, h'⟩

/-- One tick and then two more are three. -/
theorem returns_exactly_three : ∃ (a : Session) (around : Surroundings) (m₁ m' : Machine),
    a.Reachable ∧ Returns Viewer.counting around (some 1) a.machine 0 (.ok 1) 1 m₁ 1 ∧
      Returns Viewer.counting around (some 3) a.machine 0 (.ok 3) 3 m' 3 := by
  obtain ⟨a, hreach, hram, hstart, -⟩ := Session.exists_loaded (r := #[0x12, 0x00]) (by decide)
  have hop : a.machine.ram.word? a.machine.pc = some 0x1200 := by
    rw [hstart]
    exact Ram.word?_of_loadProgram hram (by decide : 0 + 1 < 2)
  have hspins : a.machine.Spins := ⟨_, hop, rfl, hstart.symm⟩
  obtain ⟨s, hs, hsafe⟩ := hreach.safe
  let around : Surroundings := { quit := fun _ => false, keys := fun _ => .untouched }
  obtain ⟨m₁, hone, hspins₁⟩ := exists_ticks_of_spins around hspins 0 1
  obtain ⟨m', htwo, -⟩ := exists_ticks_of_spins (around.later 1) hspins₁ 1 2
  have hrate := hsafe.rate_pos hs
  have hrate₁ : 0 < m₁.settings.tickRate := hone.settings.symm ▸ hrate
  obtain ⟨hfirst, -, hparts⟩ := returns_exactly hrate Viewer.counting around (some 1) 0
  obtain ⟨hsecond, -⟩ := returns_exactly hrate₁ Viewer.counting (around.later 1) (some 2) 1
  have hone : Returns Viewer.counting around (some 1) a.machine 0 (.ok 1) 1 m₁ 1 :=
    (hfirst 1 1 m₁ 1).mpr ⟨by decide, hone, fun _ _ => rfl, .inl ⟨rfl, rfl⟩⟩
  have htwo : Returns Viewer.counting (around.later 1) (some 2) m₁ 1 (.ok 2) 2 m' 3 :=
    (hsecond 2 2 m' 3).mpr ⟨by decide, htwo, fun _ _ => rfl, .inl ⟨rfl, rfl⟩⟩
  exact ⟨a, around, m₁, m', hreach, hone,
    (hparts 1 2 1 m₁ 1 (by decide) hone _ _ _ _).mpr ⟨_, _, htwo, rfl, rfl⟩⟩

end Run

end ChipEight
