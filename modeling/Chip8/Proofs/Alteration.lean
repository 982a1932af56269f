import Chip8.Proofs.Histories

/-! Alterations. Few instructions look at the timers, the keypad or the dialect of a machine, and two
set a timer. Whoever alters these parts may do so before a step or after it, as long as the
instruction is none to which the alteration matters. -/

namespace Chip8

structure Alteration where
  delay : UInt8 → UInt8 := id
  sound : UInt8 → UInt8 := id
  keypad : Keypad → Keypad := id
  dialect : Dialect → Dialect := id

namespace Machine

variable {m : Machine} {f : Alteration} {i : Instruction} {origin : UInt16}

def altered (m : Machine) (f : Alteration) : Machine :=
  { m with
    delay := f.delay m.delay
    sound := f.sound m.sound
    keypad := f.keypad m.keypad
    dialect := f.dialect m.dialect }

/-- What the instruction computes from the altered parts, or stores in them, is what it would have
computed or stored without the alteration. -/
def Ignores (m : Machine) (f : Alteration) : Instruction → Prop
  | .combine op x y => ((m.altered f).combine op x y).registers = (m.combine op x y).registers
  | .jumpOffset base => (m.altered f).jumpDistance base = m.jumpDistance base
  | .draw x y height => (m.altered f).spriteCells x y height = m.spriteCells x y height
  | .skipPressed x | .skipNotPressed x => (m.altered f).keyDown x = m.keyDown x
  | .readDelay _ => f.delay m.delay = m.delay
  | .setDelay x => f.delay (m.registers.get x) = m.registers.get x
  | .setSound x => f.sound (m.registers.get x) = m.registers.get x
  | .addIndex _ =>
    (f.dialect m.dialect).indexOverflowSetsFlag = m.dialect.indexOverflowSetsFlag
  | .storeRegisters _ | .loadRegisters _ =>
    (f.dialect m.dialect).transferMovesIndex = m.dialect.transferMovesIndex
  | _ => True

theorem refusal_altered (m : Machine) (f : Alteration) (origin : UInt16) (i : Instruction) :
    (m.altered f).refusal? origin i = m.refusal? origin i := rfl

theorem carryOut_altered (ignored : m.Ignores f i) :
    (m.altered f).carryOut origin i =
      ((m.carryOut origin i).1.altered f, (m.carryOut origin i).2) := by
  cases i with
  | call target =>
    by_cases room : m.stack.length < stackLimit
    · rw [carryOut_call room, carryOut_call (m := m.altered f) room]
      rfl
    · have refused : m.refusal? origin (.call target) = some (.stackOverflow origin stackLimit) :=
        if_neg room
      rw [carryOut_of_refusal refused, carryOut_of_refusal ((refusal_altered ..).trans refused)]
  | ret =>
    cases stack : m.stack with
    | nil =>
      have refused : m.refusal? origin .ret = some (.stackUnderflow origin) := if_pos stack
      rw [carryOut_of_refusal refused, carryOut_of_refusal ((refusal_altered ..).trans refused)]
    | cons a rest =>
      rw [carryOut_ret stack, carryOut_ret (m := m.altered f) stack]
      rfl
  | skipEqualByte | skipNotEqualByte | skipEqual | skipNotEqual =>
    simp only [carryOut, skipIf_eq, proceed]
    rfl
  | skipPressed x | skipNotPressed x =>
    have pressed : (m.altered f).keyDown x = m.keyDown x := ignored
    simp only [carryOut, skipIf_eq, proceed, pressed]
    rfl
  | combine op x y =>
    have combined :
        Registers.combine (m.altered f).registers (m.altered f).dialect op x y = _ := ignored
    simp only [carryOut, proceed, combine, combined]
    rfl
  | jumpOffset base =>
    have distance : (m.altered f).jumpDistance base = m.jumpDistance base := ignored
    simp only [carryOut, proceed, distance]
    rfl
  | draw x y height =>
    have cells : (m.altered f).spriteCells x y height = m.spriteCells x y height := ignored
    simp only [carryOut, cells]
    rfl
  | readDelay x =>
    have read : f.delay m.delay = m.delay := ignored
    show ((m.altered f).setRegister x (f.delay m.delay)).proceed = _
    rw [read]
    rfl
  | setDelay x =>
    have stored : f.delay (m.registers.get x) = m.registers.get x := ignored
    simp only [carryOut, proceed, altered, stored]
  | setSound x =>
    have stored : f.sound (m.registers.get x) = m.registers.get x := ignored
    simp only [carryOut, proceed, altered, stored]
  | addIndex x =>
    have reported : (m.altered f).dialect.indexOverflowSetsFlag = _ := ignored
    simp only [carryOut, proceed, addIndex, reported]
    rfl
  | storeRegisters last =>
    have moved : (m.altered f).dialect.transferMovesIndex = _ := ignored
    simp only [carryOut, proceed, storeRegisters, indexAfter, moved]
    rfl
  | loadRegisters last =>
    have moved : (m.altered f).dialect.transferMovesIndex = _ := ignored
    simp only [carryOut, proceed, loadRegisters, indexAfter, moved]
    rfl
  | _ => rfl

theorem fault_altered (m : Machine) (f : Alteration) : (m.altered f).fault? = m.fault? := rfl

theorem step_altered (ignored : ∀ i, m.pending? = some i → m.Ignores f i) :
    (m.altered f).step = (m.step.1.altered f, m.step.2) := by
  cases m.move with
  | rest halted hs =>
    rw [hs]
    exact step_of_halted halted
  | wait running x awaiting unlatched hs =>
    rw [hs]
    exact step_of_unlatched running awaiting unlatched
  | receive running x key awaiting latched hs =>
    rw [hs]
    exact step_of_latched running awaiting latched
  | refuse running free fault refused hs =>
    rw [hs]
    exact step_of_fault ((fault_altered m f).trans refused)
  | perform running free i decoded accepted hs =>
    have performed : (m.altered f).step = (((m.altered f).execute i).1, .ok i.outcome) :=
      step_of_decode running free decoded ((fault_altered m f).trans accepted)
    have advanced : (m.altered f).execute i = _ :=
      carryOut_altered (m := m.advance) (ignored i (pending_eq_some_iff.2 ⟨running, free, decoded⟩))
    rw [hs, performed, advanced]
    rfl

end Machine

end Chip8
