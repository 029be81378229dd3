import HackStack.Machine.Running

/-!
# Runs and their budgets

A run is given a number of instructions that it may carry out, its **budget**.
This module says that nothing hangs on how the budget is handed over: a run of
`n + k` instructions is a run of `n` and then one of `k`, with the same
registers, memory and count at the end, or the same error on the same machine
(`Machine.runTo_add`). For this a step must leave the program and the symbols
alone, since both runs look up the place where to stop; that, and what a failed
step leaves, is all of a step that is needed (`Machine.step_cases`), so there
is no condition on what the cells hold.

Composing would also hold of a run that does nothing. `Machine.Course`
therefore says what the instructions of a run are: each is fetched on a machine
that is not done yet, and the machine that it leaves fetches the next. The
count of a machine grows by the length of its course, whichever way the run
ends.
-/

namespace HackStack.Machine

variable {m m' : Machine} {stop : Option Nat} {n k : Nat}

/-! ## One step -/

theorem finish_cases (m : Machine) (dest : Dest) (jump : Jump) (out : Int) :
    (∃ reason, m.finish dest jump out = .error ⟨reason, m⟩) ∨
    ∃ m', m.finish dest jump out = .ok m' ∧ m'.rom = m.rom ∧ m'.symbols = m.symbols ∧
      m'.steps = m.steps := by
  unfold finish
  split
  next =>
    split
    next => exact .inl ⟨_, rfl⟩
    next => exact .inr ⟨_, rfl, rfl, rfl, rfl⟩
  next => exact .inr ⟨_, rfl, rfl, rfl, rfl⟩

/-- **What a step can do to any machine.** Where there is no instruction it
fails and leaves the machine as it is. An instruction is counted, also when it
fails, and then nothing else has changed; otherwise the program and the symbols
are what they were. -/
theorem step_cases (m : Machine) :
    (m.fetch? = none ∧ ∃ reason, m.step = .error ⟨reason, m⟩) ∨
    ∃ ins, m.fetch? = some ins ∧
      ((∃ reason, m.step = .error ⟨reason, { m with steps := m.steps + 1 }⟩) ∨
        ∃ m', m.step = .ok m' ∧ m'.rom = m.rom ∧ m'.symbols = m.symbols ∧
          m'.steps = m.steps + 1) := by
  unfold step
  cases m.fetch? with
  | none => exact .inl ⟨rfl, _, rfl⟩
  | some ins =>
    refine .inr ⟨ins, rfl, ?_⟩
    cases ins with
    | address value => exact .inr ⟨_, rfl, rfl, rfl, rfl⟩
    | compute dest comp jump =>
      dsimp only
      split
      next => exact .inl ⟨_, rfl⟩
      next y _ => exact finish_cases { m with steps := m.steps + 1 } dest jump _

theorem of_step_ok (h : m.step = .ok m') :
    m.fetch?.isSome = true ∧ m'.symbols = m.symbols ∧ m'.steps = m.steps + 1 := by
  rcases m.step_cases with ⟨-, _, he⟩ | ⟨ins, hf, ⟨_, he⟩ | ⟨m₁, hok, -, hsymbols, hsteps⟩⟩
  · cases he.symm.trans h
  · cases he.symm.trans h
  · obtain rfl := Except.ok.inj (hok.symm.trans h)
    exact ⟨Option.isSome_of_eq_some hf, hsymbols, hsteps⟩

/-- A step that fails has counted its instruction, if there is one. -/
theorem of_step_error {e : Halt} (h : m.step = .error e) :
    e.machine.steps = m.steps + m.fetch?.toList.length := by
  rcases m.step_cases with ⟨hf, _, he⟩ | ⟨ins, hf, ⟨_, he⟩ | ⟨m₁, hok, -⟩⟩
  · obtain rfl := Except.error.inj (he.symm.trans h)
    rw [hf]
    rfl
  · obtain rfl := Except.error.inj (he.symm.trans h)
    rw [hf]
    rfl
  · cases hok.symm.trans h

/-! ## One budget after another -/

/-- A machine that is done stays as it is, whatever its budget. -/
theorem runTo_of_isDone (h : m.isDone stop = true) (n : Nat) : m.runTo stop n = .ok m := by
  cases n with
  | zero => rfl
  | succ n => rw [runTo, if_pos h]

theorem symbols_of_runTo (h : m.runTo stop n = .ok m') : m'.symbols = m.symbols := by
  induction n generalizing m with
  | zero => exact Except.ok.inj h ▸ rfl
  | succ n ih =>
    rw [runTo] at h
    split at h
    next => exact Except.ok.inj h ▸ rfl
    next =>
      cases hstep : m.step with
      | error e =>
        rw [hstep] at h
        cases h
      | ok m₁ =>
        rw [hstep] at h
        exact (ih h).trans (of_step_ok hstep).2.1

/-- **A run of `n + k` instructions is a run of `n` and then one of `k`.** -/
theorem runTo_add (stop : Option Nat) (n k : Nat) (m : Machine) :
    m.runTo stop (n + k) = (m.runTo stop n >>= runTo stop k) := by
  induction n generalizing m with
  | zero =>
    rw [Nat.zero_add]
    rfl
  | succ n ih =>
    rw [Nat.succ_add, runTo, runTo]
    by_cases hdone : m.isDone stop = true
    · rw [if_pos hdone, if_pos hdone]
      exact (runTo_of_isDone hdone k).symm
    · rw [if_neg hdone, if_neg hdone]
      cases m.step with
      | error e => rfl
      | ok m₁ => exact ih m₁

/-! ## The instructions of a run -/

/-- **The course of a run**: the instructions that it fetches, one after the
other, from a machine to the end of the run. It may go on wherever the machine
is not done. The last instruction may fail, and there may be none where one is
looked for. -/
inductive Course (stop : Option Nat) : Machine → List Instruction → Except Halt Machine → Prop
  | rest (m : Machine) : Course stop m [] (.ok m)
  | next {m m' : Machine} {ins : Instruction} {fetched : List Instruction}
      {r : Except Halt Machine} (going : m.isDone stop = false) (fetch : m.fetch? = some ins)
      (step : m.step = .ok m') (tail : Course stop m' fetched r) :
      Course stop m (ins :: fetched) r
  | fails {m : Machine} {ins : Instruction} {h : Halt} (going : m.isDone stop = false)
      (fetch : m.fetch? = some ins) (step : m.step = .error h) : Course stop m [ins] (.error h)
  | lost {m : Machine} {h : Halt} (going : m.isDone stop = false) (fetch : m.fetch? = none)
      (step : m.step = .error h) : Course stop m [] (.error h)

/-- The machine that a run leaves, whichever way it ends. -/
def left : Except Halt Machine → Machine
  | .ok m => m
  | .error h => h.machine

/-- **Every instruction that is fetched is counted**, and nothing else is. -/
theorem Course.steps_left {fetched : List Instruction} {r : Except Halt Machine}
    (h : Course stop m fetched r) : (left r).steps = m.steps + fetched.length := by
  induction h with
  | rest m => rfl
  | next _ _ hstep _ ih =>
    rw [ih, (of_step_ok hstep).2.2, List.length_cons, Nat.add_assoc, Nat.add_comm 1]
  | fails _ hfetch hstep | lost _ hfetch hstep =>
    rw [left, of_step_error hstep, hfetch]
    rfl

/-- **A run has a course within its budget.** It ends short of the budget only
where the machine is done, or with an error. -/
theorem exists_course (stop : Option Nat) (n : Nat) (m : Machine) :
    ∃ fetched, Course stop m fetched (m.runTo stop n) ∧ fetched.length ≤ n ∧
      ∀ m', m.runTo stop n = .ok m' → m'.isDone stop = true ∨ fetched.length = n := by
  induction n generalizing m with
  | zero => exact ⟨[], .rest m, Nat.le_refl 0, fun _ _ => .inr rfl⟩
  | succ n ih =>
    rw [runTo]
    split
    next hdone =>
      refine ⟨[], .rest m, Nat.zero_le _, fun m' hm' => .inl ?_⟩
      exact Except.ok.inj hm' ▸ hdone
    next hdone =>
      rw [Bool.not_eq_true] at hdone
      cases hstep : m.step with
      | error e =>
        refine ⟨m.fetch?.toList, ?_, ?_, fun _ h => by cases h⟩
        · cases hfetch : m.fetch? with
          | none => exact .lost hdone hfetch hstep
          | some ins => exact .fails hdone hfetch hstep
        · cases m.fetch? <;> simp
      | ok m₁ =>
        obtain ⟨ins, hfetch⟩ := Option.isSome_iff_exists.mp (of_step_ok hstep).1
        obtain ⟨fetched, hcourse, hlength, hend⟩ := ih m₁
        refine ⟨ins :: fetched, .next hdone hfetch hstep hcourse, Nat.succ_le_succ hlength,
          fun m' hm' => (hend m' hm').imp id fun hn => ?_⟩
        rw [List.length_cons, hn]

/-- A run ends by itself behind the program, or at the place where to stop. -/
theorem isDone_iff : m.isDone stop = true ↔ m.rom.size ≤ m.pc ∨ ∃ a, stop = some a ∧ m.pc = a := by
  cases stop <;> simp [isDone]

/-- **Budgets add up.** For every machine, every label to stop at, known or not
or none at all, and all budgets: a run of `n + k` comes out as a run of `n`
and, if this does not fail, a run of `k` from where it has come to. A run of
`n` that has come behind the program or to the label is also the run of any
greater budget. And a run fetches at most `n` instructions, exactly `n` unless
it is done before or fails; its count grows by the number of these. -/
theorem run_budget (m : Machine) (stopLabel : Option String) (n k : Nat) :
    m.run (n + k : Nat) stopLabel = (m.run n stopLabel >>= fun m' => m'.run k stopLabel) ∧
    (∀ m', m.run n stopLabel = .ok m' →
      (m'.rom.size ≤ m'.pc ∨ ∃ a, stopLabel.bind m.symbols.get? = some a ∧ m'.pc = a) →
      ∀ budget : Nat, n ≤ budget → m.run budget stopLabel = .ok m') ∧
    ∃ fetched, Course (stopLabel.bind m.symbols.get?) m fetched (m.run n stopLabel) ∧
      (left (m.run n stopLabel)).steps = m.steps + fetched.length ∧ fetched.length ≤ n ∧
      ∀ m', m.run n stopLabel = .ok m' →
        (m'.rom.size ≤ m'.pc ∨ ∃ a, stopLabel.bind m.symbols.get? = some a ∧ m'.pc = a) ∨
        fetched.length = n := by
  simp only [run, Int.toNat_natCast, ← isDone_iff]
  refine ⟨?_, fun m' hm' hdone budget hle => ?_, ?_⟩
  · rw [runTo_add]
    cases hrun : m.runTo (stopLabel.bind m.symbols.get?) n with
    | error h => rfl
    | ok m' =>
      -- the second run looks the label up in the same table
      show m'.runTo _ k = m'.runTo _ k
      rw [symbols_of_runTo hrun]
  · obtain ⟨more, rfl⟩ := Nat.exists_eq_add_of_le hle
    rw [runTo_add, hm']
    exact runTo_of_isDone hdone more
  · obtain ⟨fetched, hcourse, hlength, hend⟩ := m.exists_course (stopLabel.bind m.symbols.get?) n
    exact ⟨fetched, hcourse, hcourse.steps_left, hlength, hend⟩

end HackStack.Machine
