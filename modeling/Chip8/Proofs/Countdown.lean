import Chip8.Proofs.Interleaving

/-! The timers along a history. A timer keeps the byte to which it was set last, less one for each
count since, and it knows nothing of what else has happened. A program that is loaded stops it. -/

namespace Chip8

inductive Timer
  | delay
  | sound

def Timer.setter : Timer → Nibble → Instruction
  | delay => .setDelay
  | sound => .setSound

def Timer.part : Timer → Part
  | delay => .delay
  | sound => .sound

namespace Machine

variable {m : Machine} {timer : Timer} {x : Nibble} {a : Action} {history rest : List Action}
  {b : UInt8} {counts : Nat}

def counter (m : Machine) : Timer → UInt8
  | .delay => m.delay
  | .sound => m.sound

def Renews (m : Machine) (timer : Timer) : Action → Prop
  | .step => ∃ x, m.pending? = some (timer.setter x)
  | .reset program => program.size ≤ Memory.programLimit
  | _ => False

def Unrenewed (m : Machine) (timer : Timer) (history : List Action) : Prop :=
  ∀ before a after, history = before ++ a :: after → ¬(m.run before).1.Renews timer a

/-- In the program that is loaded, the timer was last set to this byte, and it has been counted so
often since. -/
def LastSet (m : Machine) (timer : Timer) (history : List Action) (b : UInt8) (counts : Nat) :
    Prop :=
  ∃ earlier later x, history = earlier ++ .step :: later ∧
    (m.run earlier).1.pending? = some (timer.setter x) ∧ (m.run earlier).1.registers.get x = b ∧
    (m.run earlier).1.step.1.Unrenewed timer later ∧ later.countP (·.isTick) = counts

theorem toNat_countDown (b : UInt8) : (countDown b).toNat = b.toNat - 1 := by
  unfold countDown
  split
  · subst b
    rfl
  · rename_i running
    have positive : b.toNat ≠ 0 := fun stopped => running (UInt8.toNat_inj.1 stopped)
    have fits : (1 : UInt8) ≤ b := UInt8.le_iff_toNat_le.2 (Nat.pos_of_ne_zero positive)
    rw [UInt8.toNat_sub_of_le b 1 fits]
    rfl

theorem counter_tick (m : Machine) (timer : Timer) :
    m.tick.counter timer = countDown (m.counter timer) := by
  cases timer <;> rfl

theorem step_setDelay (pending : m.pending? = some (.setDelay x)) :
    m.step = ({ m with pc := m.pc + 2, delay := m.registers.get x }, .ok .proceed) :=
  step_of_pending pending rfl

theorem step_setSound (pending : m.pending? = some (.setSound x)) :
    m.step = ({ m with pc := m.pc + 2, sound := m.registers.get x }, .ok .proceed) :=
  step_of_pending pending rfl

theorem step_readDelay (pending : m.pending? = some (.readDelay x)) :
    m.step =
      ({ m with pc := m.pc + 2, registers := m.registers.set x m.delay }, .ok .proceed) :=
  step_of_pending pending rfl

theorem counter_step_set (pending : m.pending? = some (timer.setter x)) :
    m.step.1.counter timer = m.registers.get x := by
  cases timer with
  | delay => rw [step_setDelay pending]; rfl
  | sound => rw [step_setSound pending]; rfl

theorem setter_of_entitled {deed : Deed} (entitled : m.Entitled timer.part deed) :
    ∃ x, deed = .perform (timer.setter x) := by
  rcases deed with i | x
  · cases timer <;> cases i <;> first | exact ⟨_, rfl⟩ | exact entitled.elim
  · cases timer <;> exact entitled.elim

theorem counter_step (unset : ∀ x, m.pending? ≠ some (timer.setter x)) :
    m.step.1.counter timer = m.counter timer := by
  have shared : m.Shares m.step.1 timer.part := by
    refine shares_step fun deed does entitled => ?_
    obtain ⟨x, rfl⟩ := setter_of_entitled entitled
    cases does with
    | perform pending _ => exact unset x pending
  cases timer <;> exact shared

theorem counter_act (kept : ¬m.Renews timer a) :
    ((m.act a).1.counter timer).toNat = (m.counter timer).toNat - if a.isTick then 1 else 0 := by
  cases a with
  | reset program =>
    rw [act_reset_rejected (Nat.lt_of_not_le kept)]
    rfl
  | step =>
    rw [act_step, counter_step fun x pending => kept ⟨x, pending⟩]
    rfl
  | tick => exact (congrArg UInt8.toNat (counter_tick m timer)).trans (toNat_countDown _)
  | key key pressed => cases timer <;> rfl

theorem unrenewed_nil : m.Unrenewed timer [] := by
  intro before a after split
  simp at split

theorem unrenewed_cons :
    m.Unrenewed timer (a :: rest) ↔ ¬m.Renews timer a ∧ (m.act a).1.Unrenewed timer rest := by
  constructor
  · intro unrenewed
    refine ⟨unrenewed [] a rest rfl, fun before c after split => ?_⟩
    exact unrenewed (a :: before) c after (by rw [split, List.cons_append])
  · rintro ⟨first, later⟩ before c after split
    cases before with
    | nil =>
      obtain ⟨rfl, rfl⟩ := List.cons.inj split
      exact first
    | cons d before =>
      obtain ⟨rfl, same⟩ := List.cons.inj split
      exact later before c after same

theorem Unrenewed.concat (unrenewed : m.Unrenewed timer history)
    (kept : ¬(m.run history).1.Renews timer a) : m.Unrenewed timer (history ++ [a]) := by
  induction history generalizing m with
  | nil => exact unrenewed_cons.2 ⟨kept, unrenewed_nil⟩
  | cons c rest ih =>
    obtain ⟨first, later⟩ := unrenewed_cons.1 unrenewed
    exact unrenewed_cons.2 ⟨first, ih later kept⟩

theorem counter_run (unrenewed : m.Unrenewed timer history) :
    ((m.run history).1.counter timer).toNat =
      (m.counter timer).toNat - history.countP (·.isTick) := by
  induction history generalizing m with
  | nil => rfl
  | cons a rest ih =>
    obtain ⟨first, later⟩ := unrenewed_cons.1 unrenewed
    rw [run_cons, ih later, counter_act first, List.countP_cons, Nat.sub_sub, Nat.add_comm]

namespace LastSet

theorem counter_eq (set : m.LastSet timer history b counts) :
    ((m.run history).1.counter timer).toNat = b.toNat - counts := by
  obtain ⟨earlier, later, x, rfl, pending, rfl, unrenewed, rfl⟩ := set
  rw [run_append_fst, run_cons, act_step, counter_run unrenewed, counter_step_set pending]

theorem concat (set : m.LastSet timer history b counts)
    (kept : ¬(m.run history).1.Renews timer a) :
    m.LastSet timer (history ++ [a]) b (counts + if a.isTick then 1 else 0) := by
  obtain ⟨earlier, later, x, rfl, pending, value, unrenewed, rfl⟩ := set
  rw [run_append_fst, run_cons, act_step] at kept
  refine ⟨earlier, later ++ [a], x, ?_, pending, value, unrenewed.concat kept, ?_⟩
  · rw [List.append_assoc, List.cons_append]
  · rw [List.countP_append, List.countP_singleton]

end LastSet

theorem lastSet_or_zero (stopped : m.counter timer = 0) (history : List Action) :
    (∃ b counts, m.LastSet timer history b counts) ∨ (m.run history).1.counter timer = 0 := by
  induction history using List.reverseRecOn with
  | nil => exact .inr stopped
  | append_singleton history a ih =>
    rw [run_append_fst, run_single]
    by_cases renews : (m.run history).1.Renews timer a
    · cases a with
      | reset program =>
        rw [act_reset_fst renews]
        cases timer <;> exact .inr rfl
      | step =>
        obtain ⟨x, pending⟩ := renews
        exact .inl ⟨_, _, history, [], x, rfl, pending, rfl, unrenewed_nil, rfl⟩
      | tick | key => exact absurd renews id
    · rcases ih with ⟨b, counts, set⟩ | zero
      · exact .inl ⟨b, _, set.concat renews⟩
      · refine .inr (UInt8.toNat_inj.1 ?_)
        rw [counter_act renews, zero]
        exact Nat.zero_sub _

/-- Both timers hold what they were last set to in the program, less the counts since, and nothing
when they were not set. An instruction that reads the delay timer finds that value, and the machine
beeps while the value of the other one is positive. -/
theorem timers_count_down (dialect : Dialect) (random : Random.Source) (history : List Action) :
    let fresh := start dialect random
    let m := (fresh.run history).1
    (∀ timer b counts, fresh.LastSet timer history b counts →
      (m.counter timer).toNat = b.toNat - counts) ∧
    (∀ timer, (∀ b counts, ¬fresh.LastSet timer history b counts) → m.counter timer = 0) ∧
    (∀ x, m.pending? = some (.readDelay x) →
      m.step = ({ m with pc := m.pc + 2, registers := m.registers.set x (m.counter .delay) },
        .ok .proceed)) ∧
    (m.beeping = true ↔ ∃ b counts, fresh.LastSet .sound history b counts ∧ counts < b.toNat) := by
  intro fresh m
  have settled : ∀ timer, (∃ b counts, fresh.LastSet timer history b counts) ∨
      m.counter timer = 0 := by
    intro timer
    exact lastSet_or_zero (by cases timer <;> rfl) history
  refine ⟨fun timer b counts set => set.counter_eq, ?_, fun x => step_readDelay, ?_⟩
  · intro timer never
    refine (settled timer).resolve_left ?_
    rintro ⟨b, counts, set⟩
    exact never b counts set
  · have sounds : m.beeping = true ↔ 0 < (m.counter .sound).toNat := by
      simp only [beeping, decide_eq_true_eq, UInt8.lt_iff_toNat_lt]
      rfl
    rw [sounds]
    constructor
    · intro positive
      rcases settled .sound with ⟨b, counts, set⟩ | zero
      · rw [set.counter_eq] at positive
        exact ⟨b, counts, set, Nat.lt_of_sub_pos positive⟩
      · rw [zero] at positive
        cases positive
    · rintro ⟨b, counts, set, less⟩
      rw [set.counter_eq]
      exact Nat.sub_pos_of_lt less

theorem timers_count_down_apart :
    let program : Array UInt8 := #[0x60, 0x05, 0xF0, 0x18, 0xF0, 0x15, 0xF1, 0x07]
    let large : Array UInt8 := Array.replicate 3585 0
    let fresh := start .plain (.ofSeed 0)
    let opening : List Action := [.reset program, .step]
    let between : List Action := [.step, .tick, .reset large]
    let closing : List Action := [.tick, .key 3 true, .tick]
    let history := opening ++ between ++ .step :: closing
    let m := (fresh.run history).1
    fresh.LastSet .delay history 5 2 ∧ fresh.LastSet .sound history 5 3 ∧
      (m.counter .delay).toNat = 3 ∧ (m.counter .sound).toNat = 2 ∧ m.beeping = true ∧
      m.pending? = some (.readDelay 1) ∧ m.step.1.registers.get 1 = m.counter .delay := by
  intro program large fresh opening between closing history m
  let entered := loaded .plain (.ofSeed 0) program
  let filled := { entered with pc := entered.pc + 2, registers := entered.registers.set 0 5 }
  let sounding := { filled with pc := filled.pc + 2, sound := filled.registers.get 0 }
  let counted := sounding.tick
  let delayed := { counted with pc := counted.pc + 2, delay := counted.registers.get 0 }
  have fits : program.size ≤ Memory.programLimit := by decide
  have beyond : Memory.programLimit < large.size := by
    rw [Array.size_replicate]
    decide
  have first : entered.pending? = some (.setByte 0 5) :=
    pending_of_image (k := 0) fits rfl rfl rfl rfl rfl rfl (by decide)
  have second : filled.pending? = some (.setSound 0) :=
    pending_of_image (k := 2) fits rfl rfl rfl rfl rfl rfl (by decide)
  have third : counted.pending? = some (.setDelay 0) :=
    pending_of_image (k := 4) fits rfl rfl rfl rfl rfl rfl (by decide)
  have last : (delayed.run closing).1.pending? = some (.readDelay 1) :=
    pending_of_image (k := 6) fits rfl rfl rfl rfl rfl rfl (by decide)
  have opened : (fresh.run opening).1 = filled := by
    have stepped : entered.step.1 = filled := by rw [step_setByte first]
    rw [run_cons, act_reset_fst fits, run_single, act_step]
    exact stepped
  have sounded : filled.step.1 = sounding := by rw [step_setSound second]
  have passed : (fresh.run (opening ++ between)).1 = counted := by
    rw [run_append_fst, opened, run_cons, act_step, sounded, run_cons, run_single,
      act_reset_rejected beyond]
    rfl
  have delays : counted.step.1 = delayed := by rw [step_setDelay third]
  have value : filled.registers.get 0 = 5 := (Bank.get_set ..).trans (if_pos rfl)
  have quiet : ∀ timer (n : Machine), n.Unrenewed timer closing := by
    intro timer n
    simp [closing, unrenewed_cons, unrenewed_nil, Renews]
  have delay : fresh.LastSet .delay history 5 2 := by
    refine ⟨opening ++ between, closing, 0, rfl, ?_, ?_, quiet _ _, rfl⟩
    · rw [passed]
      exact third
    · rw [passed]
      exact value
  have sound : fresh.LastSet .sound history 5 3 := by
    have other : ¬counted.Renews .sound .step := by
      rintro ⟨x, pending⟩
      cases third.symm.trans pending
    have rejected : ¬counted.Renews .sound (.reset large) := Nat.not_le_of_gt beyond
    refine ⟨opening, .tick :: .reset large :: .step :: closing, 0, rfl, ?_, ?_, ?_, rfl⟩
    · rw [opened]
      exact second
    · rw [opened]
      exact value
    · rw [opened, sounded]
      refine unrenewed_cons.2 ⟨id, unrenewed_cons.2 ⟨rejected, ?_⟩⟩
      rw [act_reset_rejected beyond]
      exact unrenewed_cons.2 ⟨other, quiet _ _⟩
  have reading : m.pending? = some (.readDelay 1) := by
    show (fresh.run (opening ++ between ++ .step :: closing)).1.pending? = _
    rw [run_append_fst, passed, run_cons, act_step, delays]
    exact last
  obtain ⟨left, -, read, sounds⟩ := timers_count_down .plain (.ofSeed 0) history
  refine ⟨delay, sound, left _ _ _ delay, left _ _ _ sound, sounds.2 ⟨5, 3, sound, by decide⟩,
    reading, ?_⟩
  rw [read 1 reading]
  exact (Bank.get_set ..).trans (if_pos rfl)

end Machine

end Chip8
