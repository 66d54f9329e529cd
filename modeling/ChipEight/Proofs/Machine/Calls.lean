import ChipEight.Proofs.Machine.Runs

/-!
# Calls and returns

A call that is made at some depth leaves the address behind it in the entry of
the stack at that depth. As long as the depth stays above, nothing reaches that
entry or those below: a step writes only the entry at the depth it has, and only
when it calls (`Outcome.sameBelow`). So the return that ends the call finds the
address where the call left it, whatever was called, waited for or rewritten in
between, and it finds the older entries as they were.
-/

namespace ChipEight

namespace Machine

/-- Two machines have the same stack below some depth. -/
def SameBelow (d : Nat) (m m' : Machine) : Prop :=
  ∀ j : Fin 16, j.val < d → m'.stack.get j = m.stack.get j

variable {m m' m'' : Machine} {t : Turn} {d : Nat}

theorem SameBelow.refl (d : Nat) (m : Machine) : SameBelow d m m :=
  fun _ _ => rfl

theorem SameBelow.trans (h : SameBelow d m m') (h' : SameBelow d m' m'') : SameBelow d m m'' :=
  fun j hj => (h' j hj).trans (h j hj)

/-! ## One step -/

/-- No step changes the stack below the depth it is made at. -/
theorem Outcome.sameBelow {keys : Keypad} (ht : m.Outcome keys t) (hd : d ≤ m.depth) :
    SameBelow d m t.machine := by
  intro j hj
  cases ht with
  | ended hpc ht =>
      subst ht
      rfl
  | full _ _ _ ht | returned _ _ _ ht => exact congrArg (fun m => m.stack.get j) ht.machine
  | empty _ _ ht => exact congrArg (fun m => m.stack.get j) ht.machine
  | called _ _ hdepth ht =>
      rw [ht.machine]
      show (m.stack.set m.depth (m.pc + 2)).get j = _
      rw [get_set, if_neg (by omega)]
  | plain _ hcall hret ht => exact congrArg (fun v => v.get j) (ht.effect.stack hcall hret).1

end Machine

namespace Session

open Machine (Safe SameBelow)

/-- A step goes well and leads from one session to another. -/
def Steps (a b : Session) : Prop :=
  ∃ t, a.machine.step? a.keys = some t ∧ t.fault = none ∧ b = a.after .step t

/-- What may happen while a call lasts: steps that go well, ticks of the timers,
and other answers of the keypad. -/
inductive Moves (a : Session) : Session → Prop
  | step {b : Session} (h : a.Steps b) : Moves a b
  | tick : Moves a (a.after .tick a.machine.tick)
  | touch (keys : Keypad) : Moves a (a.after (.touch keys) (.done a.machine))

variable {s : Settings} {a b : Session} {d : Nat}

theorem Steps.outcome (h : a.Steps b) (hs : s.check = none) (ha : Safe s a.machine) :
    ∃ t, a.machine.Outcome a.keys t ∧ t.fault = none ∧ t.machine = b.machine ∧
      Safe s b.machine := by
  obtain ⟨t, ht, hfault, rfl⟩ := h
  obtain ⟨u, hu, hout, hsafe⟩ := ha.step hs a.keys
  obtain rfl := Option.some.inj (hu.symm.trans ht)
  exact ⟨u, hout, hfault, rfl, hsafe⟩

theorem Steps.entry_of_call (h : a.Steps b) (hs : s.check = none) (ha : Safe s a.machine)
    {op : UInt16} (hop : a.machine.ram.word? a.machine.pc = some op)
    (hcall : op.toNat / 4096 = 2) (hroom : a.machine.depth < 16) :
    b.machine.stack.get ⟨a.machine.depth, hroom⟩ = a.machine.pc + 2 := by
  obtain ⟨t, hout, -, hb, -⟩ := h.outcome hs ha
  rcases hout.of_call hop hcall with ⟨hfull, -⟩ | ⟨_, ht⟩
  · exact absurd hfull hroom.ne
  · rw [← hb, ht.machine]
    show (a.machine.stack.set a.machine.depth (a.machine.pc + 2)).get _ = _
    rw [Machine.get_set, if_pos rfl]

theorem Steps.pc_of_return (h : a.Steps b) (hs : s.check = none) (ha : Safe s a.machine)
    (hret : a.machine.ram.word? a.machine.pc = some 0x00ee) :
    a.machine.depth = b.machine.depth + 1 ∧
      ∀ i : Fin 16, i.val = b.machine.depth → b.machine.pc = a.machine.stack.get i := by
  obtain ⟨t, hout, hfault, hb, -⟩ := h.outcome hs ha
  rcases hout.of_return hret with ⟨-, ht⟩ | ⟨hpos, _, ht⟩
  · cases ht.fault.symm.trans hfault
  · rw [← hb, ht.machine]
    constructor
    · exact (Nat.sub_add_cancel hpos).symm
    · rintro ⟨i, hi⟩ rfl
      rfl

theorem Moves.safe (h : a.Moves b) (hs : s.check = none) (ha : Safe s a.machine) :
    Safe s b.machine := by
  cases h with
  | step h =>
      obtain ⟨t, -, -, -, hsafe⟩ := h.outcome hs ha
      exact hsafe
  | tick => exact ha.tick
  | touch keys => exact ha

theorem Moves.sameBelow (h : a.Moves b) (hs : s.check = none) (ha : Safe s a.machine)
    (hd : d ≤ a.machine.depth) : SameBelow d a.machine b.machine := by
  cases h with
  | step h =>
      obtain ⟨t, hout, -, hb, -⟩ := h.outcome hs ha
      exact hb ▸ hout.sameBelow hd
  | tick => exact .refl d a.machine
  | touch keys => exact .refl d a.machine

theorem exists_step_of_call (hs : s.check = none) (ha : Safe s a.machine) {op : UInt16}
    (hop : a.machine.ram.word? a.machine.pc = some op) (hcall : op.toNat / 4096 = 2)
    (hroom : a.machine.depth < 16) : ∃ b, a.Steps b ∧ Safe s b.machine ∧
      b.machine.ram = a.machine.ram ∧ b.machine.pc = Instr.fieldAddr op ∧
      b.machine.depth = a.machine.depth + 1 := by
  obtain ⟨t, ht, hout, hsafe⟩ := ha.step hs a.keys
  rcases hout.of_call hop hcall with ⟨hfull, -⟩ | ⟨_, hleaves⟩
  · exact absurd hfull hroom.ne
  · refine ⟨a.after .step t, ⟨t, ht, hleaves.fault, rfl⟩, hsafe, ?_⟩
    show t.machine.ram = _ ∧ t.machine.pc = _ ∧ t.machine.depth = _
    rw [hleaves.machine]
    exact ⟨rfl, rfl, rfl⟩

theorem exists_step_of_return (hs : s.check = none) (ha : Safe s a.machine)
    (hret : a.machine.ram.word? a.machine.pc = some 0x00ee) (hpos : 0 < a.machine.depth) :
    ∃ b, a.Steps b ∧ Safe s b.machine ∧ b.machine.ram = a.machine.ram ∧
      b.machine.depth + 1 = a.machine.depth := by
  obtain ⟨t, ht, hout, hsafe⟩ := ha.step hs a.keys
  rcases hout.of_return hret with ⟨hempty, -⟩ | ⟨_, _, hleaves⟩
  · exact absurd hempty hpos.ne'
  · refine ⟨a.after .step t, ⟨t, ht, hleaves.fault, rfl⟩, hsafe, ?_⟩
    show t.machine.ram = _ ∧ t.machine.depth + 1 = _
    rw [hleaves.machine]
    exact ⟨rfl, Nat.sub_add_cancel hpos⟩

/-- A call of a subroutine that does nothing goes on behind it. -/
theorem exists_call_and_return (hs : s.check = none) (ha : Safe s a.machine) {op : UInt16}
    (hop : a.machine.ram.word? a.machine.pc = some op) (hcall : op.toNat / 4096 = 2)
    (hroom : a.machine.depth < 16)
    (hret : a.machine.ram.word? (Instr.fieldAddr op) = some 0x00ee) :
    ∃ b c, a.Steps b ∧ b.Steps c ∧ Safe s c.machine ∧ c.machine.ram = a.machine.ram ∧
      b.machine.depth = a.machine.depth + 1 ∧ c.machine.depth = a.machine.depth ∧
      c.machine.pc = a.machine.pc + 2 := by
  obtain ⟨b, hab, hbsafe, hbsame, hbpc, hbdepth⟩ := exists_step_of_call hs ha hop hcall hroom
  have hback : b.machine.ram.word? b.machine.pc = some 0x00ee := by
    rw [hbsame, hbpc]
    exact hret
  obtain ⟨c, hbc, hcsafe, hcsame, hcdepth⟩ := exists_step_of_return hs hbsafe hback (by omega)
  have hcdepth : c.machine.depth = a.machine.depth := by omega
  have hpc := (hbc.pc_of_return hs hbsafe hback).2 ⟨a.machine.depth, hroom⟩ hcdepth.symm
  have hentry := hab.entry_of_call hs ha hop hcall hroom
  exact ⟨b, c, hab, hbc, hcsafe, hcsame.trans hbsame, hbdepth, hcdepth, hpc.trans hentry⟩

theorem Steps.reachable (h : a.Steps b) (ha : a.Reachable) : b.Reachable := by
  obtain ⟨t, ht, -, rfl⟩ := h
  exact ha.after ht

/-! ## Runs -/

/-- While the depth is `d` at least, the stack below `d` stays as it is. -/
theorem sameBelow_of_moves (hs : s.check = none) (run : Nat → Session)
    (hsafe : Safe s (run 0).machine) : ∀ {n : Nat}, (∀ i < n, (run i).Moves (run (i + 1))) →
      (∀ i < n, d ≤ (run i).machine.depth) →
        Safe s (run n).machine ∧ SameBelow d (run 0).machine (run n).machine
  | 0, _, _ => ⟨hsafe, .refl d _⟩
  | n + 1, hmoves, hdepth => by
      obtain ⟨hsafe', hsame⟩ := sameBelow_of_moves hs run hsafe (n := n)
        (fun i hi => hmoves i (Nat.lt_succ_of_lt hi)) (fun i hi => hdepth i (Nat.lt_succ_of_lt hi))
      have hlast := hmoves n n.lt_succ_self
      exact ⟨hlast.safe hs hsafe',
        hsame.trans (hlast.sameBelow hs hsafe' (hdepth n n.lt_succ_self))⟩

/-- A call comes back. A run that starts with a call at a depth below sixteen,
stays above that depth, and ends with a return to it, ends at the address behind
the call; and through all of it the stack below stays as it was. -/
theorem return_after_call {run : Nat → Session} {n : Nat} {op : UInt16}
    (hreach : (run 0).Reachable)
    (hop : (run 0).machine.ram.word? (run 0).machine.pc = some op) (hcall : op.toNat / 4096 = 2)
    (hroom : (run 0).machine.depth < 16) (hfirst : (run 0).Steps (run 1))
    (hmoves : ∀ i, 1 ≤ i → i < n → (run i).Moves (run (i + 1)))
    (habove : ∀ i, 1 ≤ i → i ≤ n → (run 0).machine.depth < (run i).machine.depth)
    (hret : (run n).machine.ram.word? (run n).machine.pc = some 0x00ee)
    (hlast : (run n).Steps (run (n + 1)))
    (hback : (run (n + 1)).machine.depth = (run 0).machine.depth) :
    (run (n + 1)).machine.pc.toNat = (run 0).machine.pc.toNat + 2 ∧
      ∀ i ≤ n + 1, ∀ j : Fin 16, j.val < (run 0).machine.depth →
        (run i).machine.stack.get j = (run 0).machine.stack.get j := by
  obtain ⟨s, hs, hsafe⟩ := hreach.safe
  have hn : 1 ≤ n := by
    rcases Nat.eq_zero_or_pos n with rfl | hpos
    · exact absurd hret (Machine.ne_return_of_call hop hcall)
    · exact hpos
  have hall : ∀ i < n + 1, (run i).Moves (run (i + 1)) := by
    intro i hi
    rcases Nat.eq_zero_or_pos i with rfl | hone
    · exact .step hfirst
    · rcases Nat.lt_or_eq_of_le (Nat.le_of_lt_succ hi) with hlt | rfl
      · exact hmoves i hone hlt
      · exact .step hlast
  have hdepths : ∀ i < n + 1, (run 0).machine.depth ≤ (run i).machine.depth := by
    intro i hi
    rcases Nat.eq_zero_or_pos i with rfl | hone
    · exact Nat.le_refl _
    · exact (habove i hone (Nat.le_of_lt_succ hi)).le
  constructor
  · obtain ⟨k, rfl⟩ := Nat.exists_eq_add_of_le' hn
    have hentry := hfirst.entry_of_call hs hsafe hop hcall hroom
    -- what comes in between keeps the entry of the call with those below
    obtain ⟨-, -, -, -, hsafe'⟩ := hfirst.outcome hs hsafe
    obtain ⟨hsafe'', hsame⟩ := sameBelow_of_moves hs (fun j => run (j + 1)) hsafe' (n := k)
      (fun j hj => hmoves (j + 1) (Nat.le_add_left 1 j) (by omega))
      (fun j hj => habove (j + 1) (Nat.le_add_left 1 j) (by omega))
    have hgoes := (hlast.pc_of_return hs hsafe'' hret).2 ⟨_, hroom⟩ hback.symm
    rw [hgoes, hsame ⟨_, hroom⟩ (Nat.lt_succ_self _), hentry]
    have hlt := Machine.pc_lt_of_word hop
    exact Machine.toNat_next (by omega)
  · intro i hi
    exact (sameBelow_of_moves hs run hsafe (fun j hj => hall j (by omega))
      (fun j hj => hdepths j (by omega))).2

/-- A program whose subroutine calls one that calls a third. -/
def nested : Array UInt8 :=
  #[0x22, 0x04, 0x00, 0x00, 0x22, 0x08, 0x00, 0xee, 0x22, 0x0c, 0x00, 0xee, 0x00, 0xee]

theorem word_of_loaded {program : Array UInt8}
    (hram : Ram.fresh.loadProgram program = .ok a.machine.ram)
    (hsame : b.machine.ram = a.machine.ram) {i : Nat} {addr : UInt16}
    (haddr : addr = UInt16.ofNat (0x200 + i)) {high low : UInt8}
    (hhigh : program[i]? = some high) (hlow : program[i + 1]? = some low) :
    b.machine.ram.word? addr = some (bigEndian high low) := by
  obtain ⟨_, rfl⟩ := Array.getElem?_eq_some_iff.mp hhigh
  obtain ⟨hi, rfl⟩ := Array.getElem?_eq_some_iff.mp hlow
  rw [hsame, haddr]
  exact Ram.word?_of_loadProgram hram hi

/-- The second call of the program, made with one entry on the stack. Before it comes back a timer
ticks, a key goes down, and the third subroutine is called and returns. -/
theorem return_after_call_nested : ∃ a b c d e f g : Session, a.Reachable ∧
    a.machine.pc = 0x204 ∧ a.machine.depth = 1 ∧ a.machine.stack.get 0 = 0x202 ∧
    a.Steps b ∧ c = b.after .tick b.machine.tick ∧
    d = c.after (.touch (ManualKeys.mk [5]).keypad) (.done c.machine) ∧
    d.Steps e ∧ e.machine.depth = 3 ∧ e.Steps f ∧ f.machine.depth = 2 ∧ f.Steps g ∧
    g.machine.depth = 1 ∧ g.machine.pc.toNat = 0x206 ∧
    ∀ x ∈ [b, c, d, e, f, g], x.machine.stack.get 0 = 0x202 := by
  obtain ⟨o, hreach, hram, hstart, hempty⟩ := exists_loaded (r := nested) (by decide)
  obtain ⟨s, hs, hsafe⟩ := hreach.safe
  -- the first call brings the session to the second, at depth one
  have hfirst : o.machine.ram.word? o.machine.pc = some 0x2204 :=
    word_of_loaded hram (i := 0) rfl hstart rfl rfl
  obtain ⟨a, hoa, hasafe, hasame, hapc, hadepth⟩ :=
    exists_step_of_call hs hsafe hfirst (by decide) (by omega)
  have hadepth : a.machine.depth = 1 := by omega
  have hbelow : a.machine.stack.get 0 = 0x202 := by
    have hentry := hoa.entry_of_call hs hsafe hfirst (by decide) (by omega)
    have hzero : (⟨o.machine.depth, by omega⟩ : Fin 16) = 0 := Fin.ext hempty
    rw [hzero, hstart] at hentry
    exact hentry
  -- the second call, a tick and a key
  have hsecond : a.machine.ram.word? a.machine.pc = some 0x2208 :=
    word_of_loaded hram (i := 4) hasame hapc rfl rfl
  obtain ⟨b, hab, hbsafe, hbsame, hbpc, hbdepth⟩ :=
    exists_step_of_call hs hasafe hsecond (by decide) (by omega)
  let c := b.after .tick b.machine.tick
  let d := c.after (.touch (ManualKeys.mk [5]).keypad) (.done c.machine)
  have hdsafe : Safe s d.machine := hbsafe.tick
  have hdsame : d.machine.ram = o.machine.ram := hbsame.trans hasame
  have hdpc : d.machine.pc = 0x208 := hbpc
  have hddepth : d.machine.depth = 2 := hbdepth.trans (congrArg Nat.succ hadepth)
  -- the third call and its return, then the return of the second
  have hthird : d.machine.ram.word? d.machine.pc = some 0x220c :=
    word_of_loaded hram (i := 8) hdsame hdpc rfl rfl
  obtain ⟨e, f, hde, hef, hfsafe, hfsame, hedepth, hfdepth, hfpc⟩ :=
    exists_call_and_return hs hdsafe hthird (by decide) (by omega)
      (word_of_loaded hram (i := 12) hdsame rfl rfl rfl)
  have hedepth : e.machine.depth = 3 := hedepth.trans (congrArg Nat.succ hddepth)
  have hfdepth : f.machine.depth = 2 := hfdepth.trans hddepth
  have houter : f.machine.ram.word? f.machine.pc = some 0x00ee :=
    word_of_loaded hram (i := 10) (hfsame.trans hdsame) (hfpc.trans (congrArg (· + 2) hdpc)) rfl rfl
  obtain ⟨g, hfg, -, -, hgdepth⟩ := exists_step_of_return hs hfsafe houter (by omega)
  have hgdepth : g.machine.depth = 1 := by omega
  let run (i : Nat) : Session := [a, b, c, d, e, f].getD i g
  have hstarts : (run 0).Reachable := hoa.reachable hreach
  have hroom : (run 0).machine.depth < 16 := Nat.lt_of_le_of_lt hadepth.le (by decide)
  have hmoves : ∀ i, 1 ≤ i → i < 5 → (run i).Moves (run (i + 1))
    | 1, _, _ => .tick
    | 2, _, _ => .touch _
    | 3, _, _ => .step hde
    | 4, _, _ => .step hef
  have habove : ∀ i, 1 ≤ i → i ≤ 5 → a.machine.depth < (run i).machine.depth
    | 1, _, _ | 2, _, _ | 3, _, _ => Nat.lt_of_lt_of_eq (by omega) hddepth.symm
    | 4, _, _ => Nat.lt_of_lt_of_eq (by omega) hedepth.symm
    | 5, _, _ => Nat.lt_of_lt_of_eq (by omega) hfdepth.symm
  obtain ⟨hpc, hkept⟩ := return_after_call (n := 5) hstarts hsecond (by decide) hroom hab hmoves
    habove houter hfg (hgdepth.trans hadepth.symm)
  have hpc : g.machine.pc.toNat = 0x206 := hpc.trans (congrArg (·.toNat + 2) hapc)
  have hzero (i : Nat) (hi : i ≤ 6) : (run i).machine.stack.get 0 = 0x202 :=
    (hkept i hi 0 (Nat.lt_of_lt_of_eq Nat.one_pos hadepth.symm)).trans hbelow
  refine ⟨a, b, c, d, e, f, g, hstarts, hapc, hadepth, hbelow, hab, rfl, rfl, hde, hedepth, hef,
    hfdepth, hfg, hgdepth, hpc, ?_⟩
  simp only [List.forall_mem_cons, List.not_mem_nil, false_implies, implies_true, and_true]
  exact ⟨hzero 1 (by omega), hzero 2 (by omega), hzero 3 (by omega), hzero 4 (by omega),
    hzero 5 (by omega), hzero 6 (by omega)⟩

end Session

end ChipEight
