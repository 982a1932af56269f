import Chip8.Proofs.Provenance

/-! What a step may change. Each part of a machine has a few instructions that are entitled to change
it, and under every other instruction it stays as it is. The program counter goes on to the next
instruction, apart from jumps, skips that are taken and the beginning of a wait. -/

namespace Chip8

/-- The parts of a machine beside its program counter, with memory and registers cell by cell. -/
inductive Part
  | display
  | stack
  | byte (a : Address)
  | index
  | register (j : Nibble)
  | delay
  | sound
  | keypad
  | awaiting
  | latched
  | halted
  | dialect
  | random

inductive Deed
  | perform (i : Instruction)
  | takeKey (x : Nibble)

def Operation.Flags (d : Dialect) : Operation → Prop
  | set => False
  | or | and | xor => d.logicClearsFlag = true
  | add | sub | subReverse | shiftRight | shiftLeft => True

theorem Operation.flag_apply {d : Dialect} {op : Operation} (silent : ¬op.Flags d) (a b : UInt8) :
    (op.apply d a b).2 = none := by
  cases op with
  | set => rfl
  | or | and | xor => exact if_neg silent
  | add | sub | subReverse | shiftRight | shiftLeft => exact absurd trivial silent

namespace Registers

variable {v : Registers} {j x : Nibble}

theorem get_set_other (other : j ≠ x) (b : UInt8) : (v.set x b).get j = v.get j := by
  rw [Bank.get_set, if_neg other.symm]

theorem get_setFlag (flag : Option Bool) (other : j = flagRegister → flag = none) :
    (setFlag v flag).get j = v.get j := by
  cases flag with
  | none => rfl
  | some on =>
    have away : j ≠ flagRegister := fun same => absurd (other same) (Option.some_ne_none on)
    exact get_set_other away (flagByte on)

end Registers

namespace Machine

variable {m : Machine} {part : Part} {deed : Deed} {i : Instruction} {origin : UInt16}

inductive Does (m : Machine) : Deed → Prop
  | perform {i : Instruction} {outcome : Outcome} (pending : m.pending? = some i)
      (answer : m.step.2 = .ok outcome) : m.Does (.perform i)
  | takeKey {x key : Nibble} (running : m.halted = false) (awaiting : m.awaiting? = some x)
      (latched : m.latched? = some key) : m.Does (.takeKey x)

def Shares (m n : Machine) : Part → Prop
  | .display => n.display = m.display
  | .stack => n.stack = m.stack
  | .byte a => n.memory.get a = m.memory.get a
  | .index => n.index = m.index
  | .register j => n.registers.get j = m.registers.get j
  | .delay => n.delay = m.delay
  | .sound => n.sound = m.sound
  | .keypad => n.keypad = m.keypad
  | .awaiting => n.awaiting? = m.awaiting?
  | .latched => n.latched? = m.latched?
  | .halted => n.halted = m.halted
  | .dialect => n.dialect = m.dialect
  | .random => n.random = m.random

def Entitled (m : Machine) : Part → Deed → Prop
  | .display, .perform .clearDisplay => True
  | .display, .perform (.draw ..) => True
  | .stack, .perform (.call _) => True
  | .stack, .perform .ret => True
  | .byte a, .perform (.storeDecimal _) => ∃ k < 3, a = .offset m.index k
  | .byte a, .perform (.storeRegisters last) => ∃ k < last.val + 1, a = .offset m.index k
  | .index, .perform (.setIndex _) => True
  | .index, .perform (.addIndex _) => True
  | .index, .perform (.pointGlyph _) => True
  | .index, .perform (.storeRegisters _) => m.dialect.transferMovesIndex = true
  | .index, .perform (.loadRegisters _) => m.dialect.transferMovesIndex = true
  | .register j, .perform (.setByte x _) => j = x
  | .register j, .perform (.addByte x _) => j = x
  | .register j, .perform (.combine op x _) => j = x ∨ j = flagRegister ∧ op.Flags m.dialect
  | .register j, .perform (.random x _) => j = x
  | .register j, .perform (.readDelay x) => j = x
  | .register j, .perform (.loadRegisters last) => j ≤ last
  | .register j, .perform (.addIndex _) =>
    j = flagRegister ∧ m.dialect.indexOverflowSetsFlag = true
  | .register j, .perform (.draw ..) => j = flagRegister
  | .register j, .takeKey x => j = x
  | .delay, .perform (.setDelay _) => True
  | .sound, .perform (.setSound _) => True
  | .awaiting, .perform (.waitKey _) => True
  | .awaiting, .takeKey _ => True
  | .latched, .perform (.waitKey _) => True
  | .latched, .takeKey _ => True
  | .halted, .perform .exit => True
  | .random, .perform (.random ..) => True
  | _, _ => False

def skips (m : Machine) : Instruction → Bool
  | .skipEqualByte x b => m.registers.get x = b
  | .skipNotEqualByte x b => m.registers.get x ≠ b
  | .skipEqual x y => m.registers.get x = m.registers.get y
  | .skipNotEqual x y => m.registers.get x ≠ m.registers.get y
  | .skipPressed x => m.keyDown x
  | .skipNotPressed x => !m.keyDown x
  | _ => false

def nextPc? (m : Machine) : Deed → Option UInt16
  | .perform (.jump _) => none
  | .perform (.call _) => none
  | .perform .ret => none
  | .perform (.jumpOffset _) => none
  | .perform (.waitKey _) => some m.pc
  | .perform i => some (if m.skips i then m.pc + 4 else m.pc + 2)
  | .takeKey _ => some (m.pc + 2)

theorem get_registers_combine {op : Operation} {j x y : Nibble}
    (other : ¬m.Entitled (.register j) (.perform (.combine op x y))) :
    (m.combine op x y).registers.get j = m.registers.get j := by
  obtain ⟨away, unflagged⟩ := not_or.1 other
  refine (Registers.get_setFlag _ fun same => ?_).trans (Registers.get_set_other away _)
  exact Operation.flag_apply (fun flags => unflagged ⟨same, flags⟩) _ _

theorem get_registers_addIndex {j x : Nibble}
    (other : ¬m.Entitled (.register j) (.perform (.addIndex x))) (b : UInt8) :
    (m.addIndex b).registers.get j = m.registers.get j :=
  Registers.get_setFlag _ fun same => if_neg fun reports => other ⟨same, reports⟩

theorem get_registers_load {j last : Nibble}
    (other : ¬m.Entitled (.register j) (.perform (.loadRegisters last))) :
    (m.loadRegisters last).registers.get j = m.registers.get j := by
  have beyond : ¬j ≤ last := other
  simp only [loadRegisters, Registers.load, Bank.get_ofFn, if_neg beyond]

theorem get_memory_carryOut {a : Address} (other : ¬m.Entitled (.byte a) (.perform i)) :
    (m.carryOut origin i).1.memory.get a = m.memory.get a := by
  rw [memory_carryOut]
  apply Memory.get_replay_of_untouched
  rintro w hw rfl
  cases i with
  | storeDecimal x =>
    simp only [writesOf, List.mem_cons, List.not_mem_nil, or_false] at hw
    rcases hw with rfl | rfl | rfl
    · exact other ⟨0, by decide, rfl⟩
    · exact other ⟨1, by decide, rfl⟩
    · exact other ⟨2, by decide, rfl⟩
  | storeRegisters last =>
    obtain ⟨k, hk, rfl⟩ := List.mem_map.1 hw
    exact other ⟨k, List.mem_range.1 hk, rfl⟩
  | _ => cases hw

theorem shares_carryOut (other : ¬m.Entitled part (.perform i)) :
    m.Shares (m.carryOut origin i).1 part := by
  -- the parts that an instruction does not mention are the same by definition
  cases i with
  | jump | jumpOffset | clearDisplay | exit | setIndex | pointGlyph | setDelay | setSound | waitKey =>
    cases part <;> first | rfl | exact absurd trivial other
  | skipEqualByte | skipNotEqualByte | skipEqual | skipNotEqual | skipPressed | skipNotPressed =>
    simp only [carryOut, skipIf_eq, proceed]
    cases part <;> rfl
  | call target =>
    simp only [carryOut, call]
    cases part with
    | stack => exact absurd trivial other
    | _ => split <;> rfl
  | ret =>
    simp only [carryOut, ret]
    cases part with
    | stack => exact absurd trivial other
    | _ => split <;> rfl
  | setByte | addByte | readDelay =>
    cases part with
    | register j => exact Registers.get_set_other other _
    | _ => rfl
  | random x mask =>
    cases part with
    | register j => exact Registers.get_set_other other _
    | random => exact absurd trivial other
    | _ => rfl
  | combine op x y =>
    cases part with
    | register j => exact get_registers_combine other
    | _ => rfl
  | addIndex x =>
    cases part with
    | register j => exact get_registers_addIndex other _
    | index => exact absurd trivial other
    | _ => rfl
  | draw x y height =>
    cases part with
    | register j => exact Registers.get_set_other other _
    | display => exact absurd trivial other
    | _ => rfl
  | storeDecimal x =>
    cases part with
    | byte a => exact get_memory_carryOut other
    | _ => rfl
  | storeRegisters last =>
    cases part with
    | byte a => exact get_memory_carryOut other
    | index => exact if_neg other
    | _ => rfl
  | loadRegisters last =>
    cases part with
    | register j => exact get_registers_load other
    | index => exact if_neg other
    | _ => rfl

theorem shares_receiveKey {x key : Nibble} (other : ¬m.Entitled part (.takeKey x)) :
    m.Shares (m.receiveKey x key) part := by
  cases part with
  | register j => exact Registers.get_set_other other _
  | awaiting | latched => exact absurd trivial other
  | _ => rfl

theorem shares_refl (m : Machine) (part : Part) : m.Shares m part := by
  cases part <;> rfl

theorem pc_execute {pc : UInt16} (goes : m.nextPc? (.perform i) = some pc) :
    (m.execute i).1.pc = pc := by
  have twice : m.pc + 2 + 2 = m.pc + 4 := UInt16.add_assoc m.pc 2 2
  cases i with
  | jump | call | ret | jumpOffset => cases goes
  | waitKey x =>
    rw [execute_waitKey]
    exact Option.some.inj goes
  | skipEqualByte | skipNotEqualByte | skipEqual | skipNotEqual | skipPressed | skipNotPressed =>
    rw [← Option.some.inj goes, ← twice]
    simp only [execute, carryOut, skipIf_eq, proceed]
    rfl
  | _ => exact Option.some.inj goes

theorem step_of_answer {outcome : Outcome} (pending : m.pending? = some i)
    (answer : m.step.2 = .ok outcome) : m.step.1 = (m.execute i).1 := by
  cases refused : m.refusal? m.pc i with
  | none => rw [step_of_pending pending refused]
  | some fault =>
    rw [step_of_pending_refused pending refused] at answer
    cases answer

theorem Does.shares (does : m.Does deed) (other : ¬m.Entitled part deed) :
    m.Shares m.step.1 part := by
  cases does with
  | perform pending answer =>
    rw [step_of_answer pending answer]
    exact shares_carryOut (m := m.advance) other
  | takeKey running awaiting latched =>
    rw [step_of_latched running awaiting latched]
    exact shares_receiveKey other

theorem Does.pc {pc : UInt16} (does : m.Does deed) (goes : m.nextPc? deed = some pc) :
    m.step.1.pc = pc := by
  cases does with
  | perform pending answer =>
    rw [step_of_answer pending answer]
    exact pc_execute goes
  | takeKey running awaiting latched =>
    rw [step_of_latched running awaiting latched]
    exact Option.some.inj goes

theorem step_of_idle (idle : ∀ deed, ¬m.Does deed) : m.step.1 = m := by
  cases m.move with
  | rest _ hs | wait _ _ _ _ hs | refuse _ _ _ _ hs => rw [hs]
  | receive running x key awaiting latched _ =>
    exact absurd (.takeKey running awaiting latched) (idle _)
  | perform running free i decoded _ hs =>
    have answer : m.step.2 = .ok i.outcome := congrArg Prod.snd hs
    exact absurd (.perform (pending_eq_some_iff.2 ⟨running, free, decoded⟩) answer) (idle _)

theorem shares_step (spared : ∀ deed, m.Does deed → ¬m.Entitled part deed) :
    m.Shares m.step.1 part := by
  by_cases done : ∃ deed, m.Does deed
  · obtain ⟨deed, does⟩ := done
    exact does.shares (spared deed does)
  · rw [step_of_idle (not_exists.1 done)]
    exact shares_refl m part

theorem step_changes_entitled_parts (m : Machine) (deed : Deed) (does : m.Does deed) :
    (∀ part, ¬m.Shares m.step.1 part → m.Entitled part deed) ∧
      ∀ pc, m.nextPc? deed = some pc → m.step.1.pc = pc := by
  refine ⟨fun part differs => ?_, fun pc goes => does.pc goes⟩
  by_contra other
  exact differs (does.shares other)

theorem step_changes_entitled_parts_flag_and_key :
    (let m := { loaded .cosmacVip (.ofSeed 0) #[0x81, 0x21] with registers := Bank.fill 7 }
     let deed := Deed.perform (.combine .or 1 2)
     m.Does deed ∧ ¬m.Shares m.step.1 (.register 15) ∧ m.Entitled (.register 15) deed ∧
       m.step.1.pc = 0x202) ∧
    (let m := { loaded .plain (.ofSeed 0) #[0xF3, 0x0A] with awaiting? := some 3, latched? := some 9 }
     m.Does (.takeKey 3) ∧ ¬m.Shares m.step.1 .awaiting ∧ m.Shares m.step.1 (.register 4) ∧
       m.step.1.pc = 0x202) := by
  constructor
  · intro m deed
    have pending : m.pending? = some (.combine .or 1 2) :=
      pending_of_image (k := 0) (by decide) rfl rfl rfl rfl rfl rfl (by decide)
    have stepped : m.step = ((m.execute (.combine .or 1 2)).1, .ok .proceed) :=
      step_of_pending pending rfl
    have does : m.Does deed := .perform pending (congrArg Prod.snd stepped)
    obtain ⟨entitled, goes⟩ := step_changes_entitled_parts m deed does
    have differs : ¬m.Shares m.step.1 (.register 15) := by
      rw [stepped]
      intro same
      have before : m.registers.get 15 = 7 := Bank.get_fill 7 15
      have after : (m.execute (.combine .or 1 2)).1.registers.get 15 = 0 :=
        (Bank.get_set ..).trans (if_pos rfl)
      exact absurd (after.symm.trans (same.trans before)) (by decide)
    exact ⟨does, differs, entitled _ differs, goes 0x202 rfl⟩
  · intro m
    have does : m.Does (.takeKey 3) := .takeKey rfl rfl rfl
    obtain ⟨entitled, goes⟩ := step_changes_entitled_parts m (.takeKey 3) does
    refine ⟨does, ?_, ?_, goes 0x202 rfl⟩
    · rw [step_of_latched rfl rfl rfl]
      intro same
      cases same
    · by_contra differs
      have other : (4 : Nibble) ≠ 3 := by decide
      exact other (entitled _ differs)

end Machine

end Chip8
