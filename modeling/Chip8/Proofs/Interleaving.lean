import Chip8.Proofs.Alteration
import Chip8.Proofs.Entitlement

/-! Timers and keys beside the steps. The timers may count before a step or after it, unless its
instruction uses one of them, and a key may move before or after, unless the step heeds it. A history
that uses no timer is therefore told by its other actions and by how often the timers count. -/

namespace Chip8

def Instruction.UsesTimer : Instruction → Prop
  | readDelay _ | setDelay _ | setSound _ => True
  | _ => False

namespace Machine

variable {m : Machine} {i : Instruction} {key : Nibble} {pressed : Bool} {history rest : List Action}

def Action.isTick : Action → Bool
  | .tick => true
  | _ => false

def steady (history : List Action) : List Action := history.filter (!·.isTick)

def Heeds (m : Machine) (key : Nibble) : Instruction → Prop
  | .waitKey _ => True
  | .skipPressed x | .skipNotPressed x => Nibble.low (m.registers.get x) = key
  | _ => False

def Untimed (m : Machine) (history : List Action) : Prop :=
  ∀ e ∈ m.trace executions history, ¬e.2.UsesTimer

def answers (m : Machine) : List (Except Fault Outcome) := [m.step.2]

def counting : Alteration := { delay := countDown, sound := countDown }

def keying (key : Nibble) (pressed : Bool) : Alteration := { keypad := (Bank.set · key pressed) }

theorem ignores_counting (unused : ¬i.UsesTimer) : m.Ignores counting i := by
  cases i with
  | readDelay | setDelay | setSound => exact absurd trivial unused
  | skipPressed | skipNotPressed | combine | jumpOffset | draw | addIndex | storeRegisters
  | loadRegisters => exact rfl
  | _ => trivial

theorem ignores_keying (unheeded : ¬m.Heeds key i) : m.Ignores (keying key pressed) i := by
  cases i with
  | skipPressed x | skipNotPressed x =>
    have other : key ≠ Nibble.low (m.registers.get x) := fun same => unheeded same.symm
    exact (Bank.get_set ..).trans (if_neg other)
  | combine | jumpOffset | draw | readDelay | setDelay | setSound | addIndex | storeRegisters
  | loadRegisters => exact rfl
  | _ => trivial

theorem step_tick (unused : ∀ i, m.pending? = some i → ¬i.UsesTimer) :
    m.tick.step = (m.step.1.tick, m.step.2) := by
  have ignored : ∀ i, m.pending? = some i → m.Ignores counting i :=
    fun i pending => ignores_counting (unused i pending)
  exact step_altered ignored

theorem awaiting_step (free : m.awaiting? = none) (starts : ∀ x, m.pending? ≠ some (.waitKey x)) :
    m.step.1.awaiting? = none := by
  have kept : m.Shares m.step.1 .awaiting := by
    refine shares_step fun deed does entitled => ?_
    cases does with
    | @perform i _ pending _ =>
      cases i with
      | waitKey x => exact starts x pending
      | _ => exact entitled
    | takeKey _ awaiting _ => cases free.symm.trans awaiting
  exact Eq.trans kept free

theorem setKey_of_free (free : m.awaiting? = none) (key : Nibble) (pressed : Bool) :
    m.setKey key pressed = m.altered (keying key pressed) := by
  have unheard :
      (pressed && !m.keypad.get key && m.awaiting?.isSome && m.latched?.isNone) = false := by
    simp [free]
  simp only [setKey, unheard, Bool.false_eq_true, if_false]
  rfl

theorem step_setKey (free : m.awaiting? = none)
    (unheeded : ∀ i, m.pending? = some i → ¬m.Heeds key i) :
    (m.setKey key pressed).step = (m.step.1.setKey key pressed, m.step.2) := by
  have ignored : ∀ i, m.pending? = some i → m.Ignores (keying key pressed) i :=
    fun i pending => ignores_keying (unheeded i pending)
  have still : m.step.1.awaiting? = none :=
    awaiting_step free fun x pending => unheeded _ pending trivial
  rw [setKey_of_free free, setKey_of_free still]
  exact step_altered ignored

theorem pending_tickTimes (m : Machine) (n : Nat) : (m.tickTimes n).pending? = m.pending? := by
  induction n generalizing m with
  | zero => rfl
  | succ n ih => exact ih m.tick

theorem step_tickTimes (unused : ∀ i, m.pending? = some i → ¬i.UsesTimer) (n : Nat) :
    (m.tickTimes n).step = (m.step.1.tickTimes n, m.step.2) := by
  induction n generalizing m with
  | zero => rfl
  | succ n ih =>
    have first : m.tick.step = (m.step.1.tick, m.step.2) := step_tick unused
    have others := ih (m := m.tick) unused
    rw [first] at others
    exact others

theorem setKey_tickTimes (m : Machine) (n : Nat) :
    (m.tickTimes n).setKey key pressed = (m.setKey key pressed).tickTimes n := by
  induction n generalizing m with
  | zero => rfl
  | succ n ih => exact ih m.tick

theorem interactive_steady :
    (∀ a ∈ steady history, a.Interactive) ↔ ∀ a ∈ history, a.Interactive := by
  constructor
  · intro interactive a ha
    cases a with
    | tick => trivial
    | reset | step | key => exact interactive _ (List.mem_filter.2 ⟨ha, rfl⟩)
  · intro interactive a ha
    exact interactive a (List.mem_filter.1 ha).1

theorem untimed_step :
    m.Untimed (.step :: rest) ↔
      (∀ i, m.pending? = some i → ¬i.UsesTimer) ∧ m.step.1.Untimed rest :=
  forall_executions_step

theorem untimed_steady (interactive : ∀ a ∈ history, a.Interactive) :
    m.Untimed history ↔
      (m.tickTimes (history.countP (·.isTick))).Untimed (steady history) := by
  induction history generalizing m with
  | nil => rfl
  | cons a rest ih =>
    obtain ⟨first, later⟩ := List.forall_mem_cons.1 interactive
    cases a with
    | reset program => exact absurd first id
    | step =>
      show _ ↔ (m.tickTimes (rest.countP (·.isTick))).Untimed (.step :: steady rest)
      rw [untimed_step, untimed_step, pending_tickTimes]
      refine and_congr_right fun unused => ?_
      rw [step_tickTimes unused]
      exact ih later
    | tick =>
      rw [List.countP_cons_of_pos rfl]
      exact ih (m := m.tick) later
    | key key pressed =>
      show _ ↔ ((m.tickTimes (rest.countP (·.isTick))).setKey key pressed).Untimed (steady rest)
      rw [setKey_tickTimes]
      exact ih (m := m.setKey key pressed) later

theorem run_steady (interactive : ∀ a ∈ history, a.Interactive) (untimed : m.Untimed history) :
    let counted := m.tickTimes (history.countP (·.isTick))
    (m.run history).1 = (counted.run (steady history)).1 ∧
      m.trace answers history = counted.trace answers (steady history) := by
  intro counted
  induction history generalizing m with
  | nil => exact ⟨rfl, rfl⟩
  | cons a rest ih =>
    obtain ⟨first, later⟩ := List.forall_mem_cons.1 interactive
    cases a with
    | reset program => exact absurd first id
    | step =>
      obtain ⟨unused, untimed⟩ := untimed_step.1 untimed
      obtain ⟨last, answered⟩ := ih later untimed
      have stepped : counted.step = (m.step.1.tickTimes (rest.countP (·.isTick)), m.step.2) :=
        step_tickTimes unused _
      show _ = (counted.step.1.run (steady rest)).1 ∧
        _ = counted.answers ++ counted.step.1.trace answers (steady rest)
      rw [answers, stepped]
      exact ⟨last, congrArg (m.answers ++ ·) answered⟩
    | tick =>
      -- this count is one of those made beforehand
      have counts : counted = m.tick.tickTimes (rest.countP (·.isTick)) := by
        show m.tickTimes _ = _
        rw [List.countP_cons_of_pos rfl]
        rfl
      rw [counts]
      exact ih (m := m.tick) later untimed
    | key key pressed =>
      have moved : counted.setKey key pressed = _ := setKey_tickTimes m _
      show _ = ((counted.setKey key pressed).run (steady rest)).1 ∧
        _ = (counted.setKey key pressed).trace answers (steady rest)
      rw [moved]
      exact ih (m := m.setKey key pressed) later untimed

/-- Counts of the timers may change places with steps that use no timer, and keys with steps that do
not heed them. So histories that use no timer end alike when they agree in all else and in the number
of counts. -/
theorem timers_and_keys_commute (m : Machine) :
    ((∀ i, m.pending? = some i → ¬i.UsesTimer) → m.tick.step = (m.step.1.tick, m.step.2)) ∧
    (∀ key pressed, m.awaiting? = none → (∀ i, m.pending? = some i → ¬m.Heeds key i) →
      (m.setKey key pressed).step = (m.step.1.setKey key pressed, m.step.2)) ∧
    (∀ key pressed, (m.setKey key pressed).tick = m.tick.setKey key pressed) ∧
    ∀ history history', (∀ a ∈ history, a.Interactive) → m.Untimed history →
      steady history = steady history' →
      history.countP (·.isTick) = history'.countP (·.isTick) →
        (m.run history).1 = (m.run history').1 ∧
          m.trace answers history = m.trace answers history' := by
  refine ⟨step_tick, fun key pressed => step_setKey, fun key pressed => rfl, ?_⟩
  intro history history' interactive untimed same counts
  have interactive' : ∀ a ∈ history', a.Interactive := by
    rw [← interactive_steady, ← same, interactive_steady]
    exact interactive
  have untimed' : m.Untimed history' := by
    rw [untimed_steady interactive', ← same, ← counts, ← untimed_steady interactive]
    exact untimed
  obtain ⟨last, answered⟩ := run_steady interactive untimed
  obtain ⟨last', answered'⟩ := run_steady interactive' untimed'
  constructor
  · rw [last, last', same, counts]
  · rw [answered, answered', same, counts]

theorem timers_and_keys_commute_skip :
    let m := { loaded .plain (.ofSeed 0) #[0xE3, 0x9E] with delay := 2, registers := Bank.fill 0x17 }
    let history := [.tick, .key 5 true, .step, .tick]
    let history' := [.key 5 true, .step, .tick, .tick]
    m.tick.step = (m.step.1.tick, m.step.2) ∧
      (m.setKey 5 true).step = (m.step.1.setKey 5 true, m.step.2) ∧
      (m.run history).1 = (m.run history').1 ∧ (m.run history).1.delay = 0 ∧
      m.trace answers history = [.ok .proceed] ∧ m.trace answers history' = [.ok .proceed] := by
  intro m history history'
  have pending : m.pending? = some (.skipPressed 3) :=
    pending_of_image (k := 0) (by decide) rfl rfl rfl rfl rfl rfl (by decide)
  obtain ⟨ticks, keys, -, moves⟩ := timers_and_keys_commute m
  have unused : ∀ i, m.pending? = some i → ¬i.UsesTimer := by
    rw [pending]
    rintro i ⟨⟩
    exact id
  have unheeded : ∀ i, m.pending? = some i → ¬m.Heeds 5 i := by
    rw [pending]
    rintro i ⟨⟩
    have named : m.registers.get 3 = 0x17 := Bank.get_fill 0x17 3
    show Nibble.low (m.registers.get 3) ≠ 5
    rw [named]
    decide
  let before := m.tick.setKey 5 true
  have stepped : before.step = ((before.execute (.skipPressed 3)).1, .ok .proceed) :=
    step_of_pending pending rfl
  have untimed : m.Untimed history :=
    untimed_step.2 ⟨unused, List.forall_mem_nil _⟩
  have interactive : ∀ a ∈ history, a.Interactive := by simp [history, Action.Interactive]
  obtain ⟨last, answered⟩ := moves history history' interactive untimed rfl rfl
  have delay : (m.run history).1.delay = 0 := by
    have kept : before.step.1.delay = before.delay := by
      rw [stepped]
      simp only [execute, carryOut, skipIf_eq, proceed]
      rfl
    show countDown before.step.1.delay = 0
    rw [kept]
    show countDown (countDown 2) = 0
    decide
  have answer : m.trace answers history = [.ok .proceed] := by
    show [before.step.2] = _
    rw [stepped]
  exact ⟨ticks unused, keys 5 true rfl unheeded, last, delay, answer, answered.symm.trans answer⟩

end Machine

end Chip8
