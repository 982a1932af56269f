import Chip8.Machine.Step

/-! What one step can do. An instruction is either refused, which touches nothing, or carried out
with an answer that depends on the instruction alone. Together with the steps of machines that have
halted or wait this gives five kinds of steps: `move`. -/

namespace Chip8

def Instruction.outcome : Instruction → Outcome
  | .draw .. | .waitKey _ => .endOfFrame
  | .exit => .halted
  | _ => .proceed

namespace Machine

variable {m : Machine} {origin : UInt16} {i : Instruction} {fault : Fault}

def refusal? (m : Machine) (origin : UInt16) : Instruction → Option Fault
  | .call _ => if m.stack.length < stackLimit then none else some (.stackOverflow origin stackLimit)
  | .ret => if m.stack = [] then some (.stackUnderflow origin) else none
  | _ => none

theorem skipIf_eq (m : Machine) (condition : Bool) :
    m.skipIf condition = { m with pc := if condition then m.pc + 2 else m.pc } := by
  cases condition <;> rfl

theorem carryOut_call {target : Address} (h : m.stack.length < stackLimit) :
    m.carryOut origin (.call target) =
      { m with pc := target.toWord, stack := m.pc :: m.stack }.proceed := by
  simp only [carryOut, call, if_pos h]

theorem carryOut_ret {a : UInt16} {rest : List UInt16} (h : m.stack = a :: rest) :
    m.carryOut origin .ret = { m with pc := a, stack := rest }.proceed := by
  simp only [carryOut, ret, h]

theorem refusal_call (m : Machine) (origin : UInt16) (target : Address) :
    m.refusal? origin (.call target) =
      if m.stack.length < stackLimit then none else some (.stackOverflow origin stackLimit) := rfl

theorem refusal_ret (m : Machine) (origin : UInt16) :
    m.refusal? origin .ret = if m.stack = [] then some (.stackUnderflow origin) else none := rfl

theorem carryOut_of_refusal (h : m.refusal? origin i = some fault) :
    m.carryOut origin i = (m, .error fault) := by
  cases i with
  | call target =>
    rw [refusal_call] at h
    split at h
    · cases h
    · rw [← Option.some.inj h]
      simp only [carryOut, call, if_neg ‹_›]
  | ret =>
    rw [refusal_ret] at h
    split at h
    · rw [← Option.some.inj h]
      simp only [carryOut, ret, ‹m.stack = []›]
    · cases h
  | _ => cases h

theorem carryOut_answer (h : m.refusal? origin i = none) :
    (m.carryOut origin i).2 = .ok i.outcome := by
  cases i with
  | call target =>
    rw [refusal_call] at h
    split at h
    · rw [carryOut_call ‹_›]
      rfl
    · cases h
  | ret =>
    rw [refusal_ret] at h
    cases hs : m.stack with
    | nil => simp only [if_pos hs, reduceCtorEq] at h
    | cons a rest =>
      rw [carryOut_ret hs]
      rfl
  | _ => rfl

theorem carryOut_signals (origin : UInt16) (hx : i ≠ .exit) (hw : ∀ x, i ≠ .waitKey x) :
    (m.carryOut origin i).1.halted = m.halted ∧
      (m.carryOut origin i).1.awaiting? = m.awaiting? ∧
      (m.carryOut origin i).1.latched? = m.latched? := by
  cases i with
  | exit => exact absurd rfl hx
  | waitKey x => exact absurd rfl (hw x)
  | call target =>
    simp only [carryOut, call]
    split <;> exact ⟨rfl, rfl, rfl⟩
  | ret =>
    simp only [carryOut, ret]
    split <;> exact ⟨rfl, rfl, rfl⟩
  | skipEqualByte | skipNotEqualByte | skipEqual | skipNotEqual | skipPressed | skipNotPressed =>
    simp only [carryOut, skipIf_eq, proceed, and_self]
  | _ => exact ⟨rfl, rfl, rfl⟩

theorem carryOut_keypad : (m.carryOut origin i).1.keypad = m.keypad := by
  cases i with
  | call target =>
    simp only [carryOut, call]
    split <;> rfl
  | ret =>
    simp only [carryOut, ret]
    split <;> rfl
  | skipEqualByte | skipNotEqualByte | skipEqual | skipNotEqual | skipPressed | skipNotPressed =>
    simp only [carryOut, skipIf_eq, proceed]
  | _ => rfl

theorem carryOut_stack_length (h : m.stack.length ≤ stackLimit) :
    (m.carryOut origin i).1.stack.length ≤ stackLimit := by
  cases i with
  | call target =>
    simp only [carryOut, call]
    split
    · exact Nat.succ_le_of_lt ‹_›
    · exact h
  | ret =>
    cases hs : m.stack with
    | nil => simpa only [carryOut, ret, hs] using h
    | cons a rest =>
      rw [hs, List.length_cons] at h
      rw [carryOut_ret hs]
      exact Nat.le_of_succ_le h
  | skipEqualByte | skipNotEqualByte | skipEqual | skipNotEqual | skipPressed | skipNotPressed =>
    simpa only [carryOut, skipIf_eq, proceed] using h
  | _ => exact h

def fault? (m : Machine) : Option Fault :=
  if m.halted || m.awaiting?.isSome then none
  else
    match Instruction.decode m.fetch with
    | some i => m.refusal? m.pc i
    | none => some (.unknownInstruction m.fetch m.pc)

/-- The kinds of steps, each with the conditions under which it is taken. -/
inductive Move (m : Machine) : Prop
  | rest (halted : m.halted = true) (step : m.step = (m, .ok .halted))
  | wait (running : m.halted = false) (x : Nibble) (awaiting : m.awaiting? = some x)
      (unlatched : m.latched? = none) (step : m.step = (m, .ok .endOfFrame))
  | receive (running : m.halted = false) (x key : Nibble) (awaiting : m.awaiting? = some x)
      (latched : m.latched? = some key) (step : m.step = (m.receiveKey x key, .ok .proceed))
  | refuse (running : m.halted = false) (free : m.awaiting? = none) (fault : Fault)
      (refused : m.fault? = some fault) (step : m.step = (m, .error fault))
  | perform (running : m.halted = false) (free : m.awaiting? = none) (i : Instruction)
      (decoded : Instruction.decode m.fetch = some i) (accepted : m.fault? = none)
      (step : m.step = ((m.execute i).1, .ok i.outcome))

theorem step_of_halted (ended : m.halted = true) : m.step = (m, .ok .halted) := by
  simp only [step, ended, if_true]

theorem step_running (running : m.halted = false) (free : m.awaiting? = none) :
    m.step = rollBack m.pc m.cycle := by
  simp only [step, running, free, Bool.false_eq_true, if_false]

theorem step_of_unlatched {x : Nibble} (running : m.halted = false)
    (awaiting : m.awaiting? = some x) (unlatched : m.latched? = none) :
    m.step = (m, .ok .endOfFrame) := by
  simp only [step, running, awaiting, pollKey, unlatched, Bool.false_eq_true, if_false]

theorem step_of_latched {x key : Nibble} (running : m.halted = false)
    (awaiting : m.awaiting? = some x) (latched : m.latched? = some key) :
    m.step = (m.receiveKey x key, .ok .proceed) := by
  simp only [step, running, awaiting, pollKey, latched, proceed, Bool.false_eq_true, if_false]

theorem rollBack_of_ok {r : Machine × Except Fault Outcome} {outcome : Outcome}
    (h : r.2 = .ok outcome) (pc : UInt16) : rollBack pc r = (r.1, .ok outcome) := by
  obtain ⟨next, answer⟩ := r
  subst h
  rfl

theorem execute_of_refusal (h : m.refusal? m.pc i = some fault) :
    m.execute i = (m.advance, .error fault) :=
  carryOut_of_refusal (m := m.advance) h

theorem execute_answer (h : m.refusal? m.pc i = none) : (m.execute i).2 = .ok i.outcome :=
  carryOut_answer (m := m.advance) h

theorem pending_eq_some_iff : m.pending? = some i ↔
    m.halted = false ∧ m.awaiting? = none ∧ Instruction.decode m.fetch = some i := by
  cases hh : m.halted <;> cases ha : m.awaiting? <;> simp [pending?, hh, ha]

theorem execute_waitKey (m : Machine) (x : Nibble) :
    m.execute (.waitKey x) = ({ m with awaiting? := some x, latched? := none }, .ok .endOfFrame) := by
  have back : m.pc + 2 - 2 = m.pc := UInt16.add_sub_cancel m.pc 2
  simp only [execute, carryOut, beginWait, advance, back]

theorem fault_running (running : m.halted = false) (free : m.awaiting? = none) :
    m.fault? = match Instruction.decode m.fetch with
      | some i => m.refusal? m.pc i
      | none => some (.unknownInstruction m.fetch m.pc) := by
  simp [fault?, running, free]

theorem active_of_fault (h : m.fault? = some fault) : m.halted = false ∧ m.awaiting? = none := by
  unfold fault? at h
  split at h
  · cases h
  · simp_all

/-- A step that fails is undone by putting the program counter back, since nothing else has changed
by then. -/
theorem step_of_fault (h : m.fault? = some fault) : m.step = (m, .error fault) := by
  obtain ⟨running, free⟩ := active_of_fault h
  rw [step_running running free, cycle]
  rw [fault_running running free] at h
  cases hd : Instruction.decode m.fetch with
  | some i =>
    rw [hd] at h
    simp only [execute_of_refusal h]
    rfl
  | none =>
    rw [hd] at h
    rw [← Option.some.inj h]
    rfl

theorem step_of_decode (running : m.halted = false) (free : m.awaiting? = none)
    (decoded : Instruction.decode m.fetch = some i) (accepted : m.fault? = none) :
    m.step = ((m.execute i).1, .ok i.outcome) := by
  rw [fault_running running free, decoded] at accepted
  rw [step_running running free, cycle, decoded]
  exact rollBack_of_ok (execute_answer accepted) m.pc

theorem step_of_pending (pending : m.pending? = some i) (accepted : m.refusal? m.pc i = none) :
    m.step = ((m.execute i).1, .ok i.outcome) := by
  obtain ⟨running, free, decoded⟩ := pending_eq_some_iff.1 pending
  have faultless : m.fault? = none := by rw [fault_running running free, decoded]; exact accepted
  exact step_of_decode running free decoded faultless

theorem step_of_pending_refused (pending : m.pending? = some i)
    (refused : m.refusal? m.pc i = some fault) : m.step = (m, .error fault) := by
  obtain ⟨running, free, decoded⟩ := pending_eq_some_iff.1 pending
  exact step_of_fault (by rw [fault_running running free, decoded]; exact refused)

theorem step_jump {target : Address} (pending : m.pending? = some (.jump target)) :
    m.step = ({ m with pc := target.toWord }, .ok .proceed) :=
  step_of_pending pending rfl

theorem step_setByte {x : Nibble} {b : UInt8} (pending : m.pending? = some (.setByte x b)) :
    m.step = ({ m with pc := m.pc + 2, registers := m.registers.set x b }, .ok .proceed) :=
  step_of_pending pending rfl

theorem move (m : Machine) : m.Move := by
  cases hh : m.halted with
  | true => exact .rest hh (step_of_halted hh)
  | false =>
    cases ha : m.awaiting? with
    | some x =>
      cases hl : m.latched? with
      | none => exact .wait hh x ha hl (step_of_unlatched hh ha hl)
      | some key => exact .receive hh x key ha hl (step_of_latched hh ha hl)
    | none =>
      cases hf : m.fault? with
      | some fault => exact .refuse hh ha fault hf (step_of_fault hf)
      | none =>
        cases hd : Instruction.decode m.fetch with
        | some i => exact .perform hh ha i hd hf (step_of_decode hh ha hd hf)
        | none =>
          rw [fault_running hh ha, hd] at hf
          cases hf

end Machine

end Chip8
