import Chip8.Proofs.Histories
import Chip8.Runner

/-! Updates as plain histories of a machine. An update that returns has ticked as often as the tick
loop went round and has then stepped, and only its last step may have answered anything else than
that the machine proceeds. -/

namespace Chip8

theorem Single.not_le_zero {a : Single} (positive : a.isPositive = true) : ¬a ≤ Single.zero := by
  intro h
  change a.le Single.zero = true at h
  cases a with
  | nan s => cases positive
  | infinite s => cases s <;> cases positive; cases h
  | finite s n fits =>
    cases s with
    | true => cases positive
    | false =>
      have below : n ≤ 0 := by simpa [Single.le, Single.zero, Single.signedUnits] using h
      obtain rfl := Nat.le_zero.1 below
      cases positive

namespace Machine

variable {m : Machine}

/-- The reasons for which an update stops after the next step. -/
def EndsBatch (m : Machine) : Prop :=
  (∃ x y height, m.pending? = some (.draw x y height)) ∨
    (∃ x, m.pending? = some (.waitKey x)) ∨
    (m.halted = false ∧ m.awaiting?.isSome = true ∧ m.latched? = none) ∨
    m.halted = true ∨ m.pending? = some .exit ∨ ∃ fault, m.step.2 = .error fault

theorem outcome_of_pending {i : Instruction} {outcome : Outcome} (pending : m.pending? = some i)
    (answer : m.step.2 = .ok outcome) : outcome = i.outcome := by
  obtain ⟨running, free, decoded⟩ := pending_eq_some_iff.1 pending
  cases hf : m.fault? with
  | some fault =>
    rw [step_of_fault hf] at answer
    cases answer
  | none =>
    rw [step_of_decode running free decoded hf] at answer
    exact (Except.ok.inj answer).symm

theorem step_proceeds_iff : m.step.2 = .ok .proceed ↔ ¬m.EndsBatch := by
  constructor
  · rintro answer (⟨x, y, height, pending⟩ | ⟨x, pending⟩ | ⟨running, awaiting, unlatched⟩ |
      ended | pending | ⟨fault, failed⟩)
    · cases outcome_of_pending pending answer
    · cases outcome_of_pending pending answer
    · obtain ⟨x, awaiting⟩ := Option.isSome_iff_exists.1 awaiting
      rw [step_of_unlatched running awaiting unlatched] at answer
      cases answer
    · rw [step_of_halted ended] at answer
      cases answer
    · cases outcome_of_pending pending answer
    · cases failed.symm.trans answer
  · intro going
    cases m.move with
    | rest ended hs => exact absurd (.inr (.inr (.inr (.inl ended)))) going
    | wait running x awaiting unlatched hs =>
      refine absurd (.inr (.inr (.inl ⟨running, ?_, unlatched⟩))) going
      rw [awaiting, Option.isSome_some]
    | receive running x key awaiting latched hs => rw [hs]
    | refuse running free fault refused hs =>
      exact absurd (.inr (.inr (.inr (.inr (.inr ⟨fault, by rw [hs]⟩))))) going
    | perform running free i decoded accepted hs =>
      have pending : m.pending? = some i := pending_eq_some_iff.2 ⟨running, free, decoded⟩
      rw [hs]
      cases i with
      | draw x y height => exact absurd (.inl ⟨x, y, height, pending⟩) going
      | waitKey x => exact absurd (.inr (.inl ⟨x, pending⟩)) going
      | exit => exact absurd (.inr (.inr (.inr (.inr (.inl pending))))) going
      | _ => rfl

def afterSteps (m : Machine) (n : Nat) : Machine := (m.run (List.replicate n .step)).1

def lastAnswer? (m : Machine) : Nat → Option (Except Fault Outcome)
  | 0 => none
  | n + 1 => some (m.afterSteps n).step.2

theorem run_ticks (m : Machine) (n : Nat) :
    (m.run (List.replicate n .tick)).1 = m.tickTimes n := by
  induction n generalizing m with
  | zero => rfl
  | succ n ih => exact ih m.tick

end Machine

namespace Runner

open Machine

def owed (period debt : Single) : Nat → Single
  | 0 => debt
  | n + 1 => owed period (debt - period) n

/-- How often a loop goes round that subtracts a period while it fits, and what it leaves. -/
structure Pays (period debt : Single) (rounds : Nat) (rest : Single) : Prop where
  rest_eq : rest = owed period debt rounds
  fits : ∀ j < rounds, period ≤ owed period debt j
  done : ¬period ≤ rest

variable {period debt rest rest' span : Single} {rounds rounds' paid n n' k : Nat} {m : Machine}
  {r : Runner} {u : Update}

theorem Pays.unique (h : Pays period debt n rest) (h' : Pays period debt n' rest') : n = n' := by
  rcases Nat.lt_trichotomy n n' with less | same | more
  · exact absurd (h'.fits n less) (h.rest_eq ▸ h.done)
  · exact same
  · exact absurd (h.fits n' more) (h'.rest_eq ▸ h'.done)

theorem pays_of_payOff (h : payOff period rounds debt paid = some (k, rest)) :
    ∃ n, k = paid + n ∧ Pays period debt n rest := by
  induction rounds generalizing debt paid with
  | zero => cases h
  | succ rounds ih =>
    rw [payOff] at h
    split at h
    · rename_i fits
      obtain ⟨n, hk, hp⟩ := ih h
      rw [Nat.add_right_comm, Nat.add_assoc] at hk
      refine ⟨n + 1, hk, hp.rest_eq, ?_, hp.done⟩
      intro j hj
      cases j with
      | zero => exact fits
      | succ j => exact hp.fits j (Nat.lt_of_succ_lt_succ hj)
    · rename_i done
      obtain ⟨rfl, rfl⟩ := Prod.mk.inj (Option.some.inj h)
      refine ⟨0, rfl, rfl, ?_, done⟩
      intro j hj
      exact absurd hj (Nat.not_lt_zero j)

theorem payOff_rounds {a : Nat × Single} (more : rounds ≤ rounds')
    (h : payOff period rounds debt paid = some a) : payOff period rounds' debt paid = some a := by
  induction rounds generalizing rounds' debt paid with
  | zero => cases h
  | succ rounds ih =>
    cases rounds' with
    | zero => exact absurd more (Nat.not_succ_le_zero rounds)
    | succ rounds' =>
      rw [payOff] at h ⊢
      by_cases fits : period ≤ debt
      · rw [if_pos fits] at h ⊢
        exact ih (Nat.le_of_succ_le_succ more) h
      · rw [if_neg fits] at h ⊢
        exact h

def verdict : Option (Except Fault Outcome) → Except Fault Status
  | some (.error fault) => .error fault
  | some (.ok .halted) => .ok .halted
  | _ => .ok .running

structure Stretch.Covers (s : Stretch) (period : Single) (m : Machine) (n : Nat) : Prop where
  machine_eq : s.machine = m.afterSteps n
  proceeds : ∀ j, j + 1 < n → (m.afterSteps j).step.2 = .ok .proceed
  result_eq : s.result = verdict (m.lastAnswer? n)
  cancelled : m.lastAnswer? n = some (.ok .endOfFrame) ∨ m.lastAnswer? n = some (.ok .halted) →
    s.debt = Single.zero
  done : ∀ status, s.result = .ok status → s.debt = Single.zero ∨ ¬period ≤ s.debt

namespace Stretch.Covers

variable {s : Stretch}

theorem cons (answer : m.step.2 = .ok .proceed) (h : s.Covers period m.step.1 n) :
    s.Covers period m (n + 1) where
  machine_eq := h.machine_eq
  proceeds j hj := by
    cases j with
    | zero => exact answer
    | succ j => exact h.proceeds j (Nat.lt_of_succ_lt_succ hj)
  result_eq := by
    cases n with
    | zero =>
      rw [h.result_eq]
      show _ = verdict (some m.step.2)
      rw [answer]
      rfl
    | succ n => exact h.result_eq
  cancelled last := by
    cases n with
    | zero => rcases last with last | last <;> cases answer.symm.trans (Option.some.inj last)
    | succ n => exact h.cancelled last
  done := h.done

theorem single (machine_eq : s.machine = m.step.1) (result_eq : s.result = verdict (some m.step.2))
    (cancelled : (∃ outcome, m.step.2 = .ok outcome) → s.debt = Single.zero) :
    s.Covers period m 1 where
  machine_eq := machine_eq
  proceeds j hj := absurd hj (Nat.not_lt_of_le (Nat.le_add_left 1 j))
  result_eq := result_eq
  cancelled last := by
    rcases last with last | last <;> exact cancelled ⟨_, Option.some.inj last⟩
  done status ok := by
    refine .inl (cancelled ?_)
    cases answer : m.step.2 with
    | ok outcome => exact ⟨outcome, rfl⟩
    | error fault =>
      rw [result_eq, answer] at ok
      cases ok

end Stretch.Covers

theorem covers_of_stepOff {s : Stretch} {steps : Nat}
    (h : stepOff period rounds m debt steps = some s) :
    ∃ n, s.steps = steps + n ∧ s.Covers period m n := by
  induction rounds generalizing m debt steps with
  | zero => cases h
  | succ rounds ih =>
    rw [stepOff] at h
    split at h
    · split at h
      case h_1 next hs =>
        -- the rounds that are left cover the steps that are left
        have answer : m.step.2 = .ok .proceed := congrArg Prod.snd hs
        have moved : next = m.step.1 := (congrArg Prod.fst hs).symm
        rw [moved] at h
        obtain ⟨n, hn, covers⟩ := ih h
        rw [Nat.add_right_comm, Nat.add_assoc] at hn
        exact ⟨n + 1, hn, covers.cons answer⟩
      case h_2 next hs | h_3 next hs =>
        obtain rfl := Option.some.inj h
        exact ⟨1, rfl, .single (by rw [hs]) (by rw [hs]; rfl) fun _ => rfl⟩
      case h_4 next fault hs =>
        -- a fault leaves the debt as it is, and the claim on cancelled debts is empty
        obtain rfl := Option.some.inj h
        refine ⟨1, rfl, .single (by rw [hs]) (by rw [hs]; rfl) ?_⟩
        rintro ⟨outcome, answer⟩
        rw [hs] at answer
        cases answer
    · rename_i done
      obtain rfl := Option.some.inj h
      refine ⟨0, rfl, rfl, ?_, rfl, ?_, fun _ _ => .inr done⟩
      · intro j hj
        exact absurd hj (Nat.not_lt_zero _)
      · rintro (last | last) <;> cases last

theorem stepOff_rounds {s : Stretch} {steps : Nat} (more : rounds ≤ rounds')
    (h : stepOff period rounds m debt steps = some s) :
    stepOff period rounds' m debt steps = some s := by
  induction rounds generalizing rounds' m debt steps with
  | zero => cases h
  | succ rounds ih =>
    cases rounds' with
    | zero => exact absurd more (Nat.not_succ_le_zero rounds)
    | succ rounds' =>
      rw [stepOff] at h ⊢
      by_cases fits : period ≤ debt
      · rw [if_pos fits] at h ⊢
        rcases hs : m.step with ⟨next, fault | outcome⟩
        · rw [hs] at h
          exact h
        · rw [hs] at h
          -- only a step that proceeds leads to another round
          cases outcome with
          | proceed => exact ih (Nat.le_of_succ_le_succ more) h
          | endOfFrame => exact h
          | halted => exact h
      · rw [if_neg fits] at h ⊢
        exact h

theorem update_rounds (more : rounds ≤ rounds') (returned : r.update rounds span = some u) :
    r.update rounds' span = some u := by
  unfold update at returned ⊢
  cases paid : payOff tickPeriod rounds (r.tickDebt + span) 0 with
  | none =>
    rw [paid] at returned
    cases returned
  | some a =>
    rw [paid] at returned
    rw [payOff_rounds more paid]
    cases stepped : stepOff r.stepPeriod rounds (r.machine.tickTimes a.1) (r.stepDebt + span) 0 with
    | none =>
      simp only [stepped] at returned
      cases returned
    | some s =>
      simp only [stepped] at returned
      simp only [stepOff_rounds more stepped]
      exact returned

def moment (r : Runner) (ticks steps : Nat) : Machine :=
  (r.machine.run (List.replicate ticks .tick ++ List.replicate steps .step)).1

theorem moment_eq (r : Runner) (ticks steps : Nat) :
    r.moment ticks steps = (r.machine.tickTimes ticks).afterSteps steps := by
  rw [moment, run_append_fst, run_ticks]
  rfl

/-- An update as ticks that are followed by steps. -/
structure Update.Unfolds (u : Update) (r : Runner) (span : Single) : Prop where
  ticks : Pays tickPeriod (r.tickDebt + span) u.ticks u.runner.tickDebt
  machine_eq : u.runner.machine = r.moment u.ticks u.steps
  stepPeriod_eq : u.runner.stepPeriod = r.stepPeriod
  proceeds : ∀ j, j + 1 < u.steps → (r.moment u.ticks j).step.2 = .ok .proceed
  last : ∀ j < u.steps, (r.moment u.ticks j).EndsBatch → j + 1 = u.steps
  one_draw : ∀ i < u.steps, ∀ j < u.steps,
    (∃ x y height, (r.moment u.ticks i).pending? = some (.draw x y height)) →
    (∃ x y height, (r.moment u.ticks j).pending? = some (.draw x y height)) → i = j
  halted : u.result = .ok .halted ↔
    ∃ j, u.steps = j + 1 ∧ (r.moment u.ticks j).step.2 = .ok .halted
  failed : ∀ fault, u.result = .error fault ↔
    ∃ j, u.steps = j + 1 ∧ (r.moment u.ticks j).step.2 = .error fault
  running : u.result = .ok .running ↔
    ∀ j, u.steps = j + 1 → (r.moment u.ticks j).step.2 = .ok .proceed ∨
      (r.moment u.ticks j).step.2 = .ok .endOfFrame
  cancelled : ∀ j, u.steps = j + 1 → (r.moment u.ticks j).step.2 = .ok .endOfFrame ∨
    (r.moment u.ticks j).step.2 = .ok .halted → u.runner.stepDebt = Single.zero
  done : ∀ status, u.result = .ok status →
    ¬tickPeriod ≤ u.runner.tickDebt ∧ ¬u.runner.stepPeriod ≤ u.runner.stepDebt

theorem verdict_halted {answer : Option (Except Fault Outcome)} :
    verdict answer = .ok .halted ↔ answer = some (.ok .halted) := by
  rcases answer with - | (fault | outcome)
  · simp [verdict]
  · simp [verdict]
  · cases outcome <;> simp [verdict]

theorem verdict_error {answer : Option (Except Fault Outcome)} {fault : Fault} :
    verdict answer = .error fault ↔ answer = some (.error fault) := by
  rcases answer with - | (fault | outcome)
  · simp [verdict]
  · simp [verdict]
  · cases outcome <;> simp [verdict]

theorem verdict_running {answer : Option (Except Fault Outcome)} :
    verdict answer = .ok .running ↔
      ∀ a, answer = some a → a = .ok .proceed ∨ a = .ok .endOfFrame := by
  rcases answer with - | (fault | outcome)
  · simp [verdict]
  · simp [verdict]
  · cases outcome <;> simp [verdict]

theorem lastAnswer_eq_some_iff {answer : Except Fault Outcome} :
    m.lastAnswer? n = some answer ↔ ∃ j, n = j + 1 ∧ (m.afterSteps j).step.2 = answer := by
  cases n <;> simp [lastAnswer?]

theorem update_eq_some (returned : r.update rounds span = some u) :
    ∃ s : Stretch, Pays tickPeriod (r.tickDebt + span) u.ticks u.runner.tickDebt ∧
      s.Covers r.stepPeriod (r.machine.tickTimes u.ticks) u.steps ∧
      u.runner.machine = s.machine ∧ u.runner.stepPeriod = r.stepPeriod ∧
      u.runner.stepDebt = s.debt ∧ u.result = s.result := by
  unfold update at returned
  split at returned
  · cases returned
  rename_i ticks tickDebt paid
  split at returned
  · cases returned
  rename_i s stepped
  obtain rfl := Option.some.inj returned
  obtain ⟨k, hk, pays⟩ := pays_of_payOff paid
  obtain ⟨n, hn, covers⟩ := covers_of_stepOff stepped
  rw [Nat.zero_add] at hk hn
  subst hk
  exact ⟨s, pays, hn ▸ covers, rfl, rfl, rfl, rfl⟩

/-- Whatever an update does, it is some ticks and then some steps of which all but the last
proceed. The ticks depend on nothing but the debt to the timers. -/
theorem update_unfolds (r : Runner) (positive : r.stepPeriod.isPositive = true) {rounds : Nat}
    {span : Single} {u : Update} (returned : r.update rounds span = some u) :
    u.Unfolds r span ∧
      ∀ (r' : Runner) (rounds' : Nat) (u' : Update), r'.tickDebt = r.tickDebt →
        r'.update rounds' span = some u' → u'.ticks = u.ticks := by
  obtain ⟨s, pays, covers, machine_eq, period_eq, debt_eq, result_eq⟩ := update_eq_some returned
  have proceeds : ∀ j, j + 1 < u.steps → (r.moment u.ticks j).step.2 = .ok .proceed := by
    intro j hj
    rw [moment_eq]
    exact covers.proceeds j hj
  -- a step that ends the batch does not proceed, and all steps before the last one do
  have last : ∀ j < u.steps, (r.moment u.ticks j).EndsBatch → j + 1 = u.steps := by
    intro j hj ends
    refine Nat.le_antisymm hj (Nat.le_of_not_lt fun early => ?_)
    exact step_proceeds_iff.1 (proceeds j early) ends
  constructor
  · refine ⟨pays, ?_, period_eq, proceeds, last, ?_, ?_, ?_, ?_, ?_, ?_⟩
    · rw [machine_eq, covers.machine_eq, moment_eq]
    · intro i hi j hj first second
      have hi' : i + 1 = u.steps := last i hi (.inl first)
      have hj' : j + 1 = u.steps := last j hj (.inl second)
      exact Nat.succ.inj (hi'.trans hj'.symm)
    · rw [result_eq, covers.result_eq, verdict_halted, lastAnswer_eq_some_iff]
      simp only [moment_eq]
    · intro fault
      rw [result_eq, covers.result_eq, verdict_error, lastAnswer_eq_some_iff]
      simp only [moment_eq]
    · rw [result_eq, covers.result_eq, verdict_running]
      simp only [lastAnswer_eq_some_iff, moment_eq]
      constructor
      · intro h j hj
        exact h _ ⟨j, hj, rfl⟩
      · rintro h a ⟨j, hj, rfl⟩
        exact h j hj
    · intro j hj answer
      rw [moment_eq] at answer
      rw [debt_eq]
      refine covers.cancelled ?_
      rcases answer with answer | answer
      · exact .inl (lastAnswer_eq_some_iff.2 ⟨j, hj, answer⟩)
      · exact .inr (lastAnswer_eq_some_iff.2 ⟨j, hj, answer⟩)
    · intro status ok
      refine ⟨pays.done, ?_⟩
      rw [period_eq, debt_eq]
      rcases covers.done status (result_eq ▸ ok) with cleared | unpayable
      · rw [cleared]
        exact Single.not_le_zero positive
      · exact unpayable
  · -- the other runner pays the same debt off, which takes one number of rounds only
    intro r' rounds' u' same returned'
    obtain ⟨s', pays', -⟩ := update_eq_some returned'
    rw [same] at pays'
    exact pays'.unique pays

theorem step_of_jump_back {target : Address} (running : m.halted = false)
    (free : m.awaiting? = none) (decoded : Instruction.decode m.fetch = some (.jump target))
    (back : target.toWord = m.pc) : m.step = (m, .ok .proceed) := by
  have pending : m.pending? = some (.jump target) :=
    pending_eq_some_iff.2 ⟨running, free, decoded⟩
  rw [step_jump pending, back]

theorem period_positive : (Single.ofNat 1 / Single.ofNat 120).isPositive = true := by
  decide +kernel

theorem update_of_loop (calm : m.tick = m) (loops : m.step = (m, .ok .proceed)) :
    (Runner.start m (Single.ofNat 120)).update 3 tickPeriod =
      some ⟨⟨m, Single.ofNat 1 / Single.ofNat 120, Single.zero, Single.zero⟩, 1, 2,
        .ok .running⟩ := by
  have owes : Single.zero + tickPeriod = tickPeriod := by decide +kernel
  have paid : payOff tickPeriod 3 tickPeriod 0 = some (1, Single.zero) := by
    have fits : tickPeriod ≤ tickPeriod := by decide +kernel
    have rest : tickPeriod - tickPeriod = Single.zero := by decide +kernel
    have done : ¬tickPeriod ≤ Single.zero := Single.not_le_zero (by decide +kernel)
    simp only [payOff, if_pos fits, rest, if_neg done]
  have stepped : stepOff (Single.ofNat 1 / Single.ofNat 120) 3 m tickPeriod 0 =
      some ⟨m, Single.zero, 2, .ok .running⟩ := by
    have first : Single.ofNat 1 / Single.ofNat 120 ≤ tickPeriod := by decide +kernel
    have second : Single.ofNat 1 / Single.ofNat 120 ≤
        tickPeriod - Single.ofNat 1 / Single.ofNat 120 := by decide +kernel
    have rest : tickPeriod - Single.ofNat 1 / Single.ofNat 120 - Single.ofNat 1 / Single.ofNat 120 =
        Single.zero := by decide +kernel
    have done := Single.not_le_zero period_positive
    simp only [stepOff, if_pos first, loops, if_pos second, rest, if_neg done]
  simp only [update, start, owes, paid, tickTimes, calm, stepped]

theorem update_unfolds_jump :
    let r := Runner.start (loaded .plain (.ofSeed 0) #[0x12, 0x00]) (Single.ofNat 120)
    r.stepPeriod.isPositive = true ∧
      ∃ u, r.update 3 tickPeriod = some u ∧ u.ticks = 1 ∧ u.steps = 2 ∧ u.Unfolds r tickPeriod := by
  intro r
  have word : r.machine.fetch = 0x1200 :=
    (fetch_loaded _ _ #[0x12, 0x00] (by decide) (by decide)).trans (by decide)
  have decoded : Instruction.decode r.machine.fetch = some (.jump 0x200) := by rw [word]; decide
  have loops : r.machine.step = (r.machine, .ok .proceed) :=
    step_of_jump_back rfl rfl decoded (by decide)
  have returned := update_of_loop (m := r.machine) rfl loops
  exact ⟨period_positive, _, returned, rfl, rfl,
    (update_unfolds r period_positive returned).1⟩

end Runner

end Chip8
