import Chip8.Proofs.Histories

/-! The flag of an addition to the index register. The sum is cut to sixteen bits before it is
compared with the last address, so that the flag tells the truth about every sum but those that do not
fit into a word. Index registers that make such sums are within reach: `climb` gets to the last one. -/

namespace Chip8.Machine

variable {m : Machine} {x : Nibble} {rounds : Nat}

theorem step_addIndex (pending : m.pending? = some (.addIndex x)) :
    m.step = ({ m.addIndex (m.registers.get x) with pc := m.pc + 2 }, .ok .proceed) :=
  step_of_pending pending rfl

theorem toNat_index_addIndex (m : Machine) (b : UInt8) :
    (m.addIndex b).index.toNat = (m.index.toNat + b.toNat) % 0x10000 := by
  simp only [addIndex, UInt16.toNat_add, UInt8.toNat_toUInt16]

theorem registers_addIndex (m : Machine) (b : UInt8)
    (reports : m.dialect.indexOverflowSetsFlag = true) :
    (m.addIndex b).registers =
      m.registers.set flagRegister (flagByte (0xFFF < m.index + b.toUInt16)) := by
  simp only [addIndex, reports, if_true, Registers.setFlag]

theorem lt_index_add_iff (a : UInt16) (b : UInt8) :
    0xFFF < a + b.toUInt16 ↔ 0xFFF < a.toNat + b.toNat ∧ a.toNat + b.toNat < 0x10000 := by
  have ha := a.toNat_lt
  have hb := b.toNat_lt
  rw [UInt16.lt_iff_toNat_lt, UInt16.toNat_add, UInt8.toNat_toUInt16]
  simp only [UInt16.reduceToNat]
  omega

theorem flag_addIndex (m : Machine) (b : UInt8) (reports : m.dialect.indexOverflowSetsFlag = true) :
    (m.addIndex b).registers.get flagRegister =
      if 0xFFF < m.index.toNat + b.toNat ∧ m.index.toNat + b.toNat < 0x10000 then 1 else 0 := by
  rw [registers_addIndex m b reports, Bank.get_set, if_pos rfl, flagByte]
  simp only [decide_eq_true_eq, lt_index_add_iff]

def climb : Array UInt8 := #[0x60, 0xFF, 0xF0, 0x1E, 0x12, 0x02]

structure Climbs (m : Machine) (rounds : Nat) : Prop where
  memory : m.memory = Memory.image climb
  pc : m.pc = 0x202
  index : m.index = UInt16.ofNat (255 * rounds)
  summand : m.registers.get 0 = 255
  running : m.halted = false
  free : m.awaiting? = none
  reports : m.dialect.indexOverflowSetsFlag = true

namespace Climbs

theorem pending (c : m.Climbs rounds) : m.pending? = some (.addIndex 0) :=
  pending_of_image (k := 2) (by decide) rfl rfl c.memory c.pc c.running c.free (by decide)

theorem round (c : m.Climbs rounds) : (m.run [.step, .step]).1.Climbs (rounds + 1) := by
  let added := { m.addIndex 255 with pc := 0x204 }
  have first : (m.act .step).1 = added := by
    rw [act_step, step_addIndex c.pending, c.summand, c.pc]
    rfl
  have jumps : added.pending? = some (.jump 0x202) :=
    pending_of_image (k := 4) (by decide) rfl rfl c.memory rfl c.running c.free (by decide)
  rw [run_cons, first, run_single, act_step, step_jump jumps]
  refine ⟨c.memory, rfl, ?_, ?_, c.running, c.free, c.reports⟩
  · show m.index + 255 = UInt16.ofNat (255 * rounds + 255)
    rw [c.index, UInt16.ofNat_add]
    rfl
  · -- the flag register is not the summand
    show (m.addIndex 255).registers.get 0 = 255
    rw [registers_addIndex m 255 c.reports, Bank.get_set, if_neg (by decide), c.summand]

theorem run (c : m.Climbs 0) (rounds : Nat) :
    (m.run (List.replicate (2 * rounds) .step)).1.Climbs rounds := by
  induction rounds with
  | zero => exact c
  | succ rounds ih =>
    rw [Nat.mul_succ, ← List.replicate_append_replicate, run_append_fst]
    exact ih.round

theorem unflagged (c : m.Climbs 257) :
    m.pending? = some (.addIndex 0) ∧ 0xFFF < m.index.toNat + (m.registers.get 0).toNat ∧
      m.step.1.registers.get flagRegister = 0 := by
  have index : m.index.toNat = 0xFFFF := by
    rw [c.index]
    rfl
  refine ⟨c.pending, ?_, ?_⟩
  · rw [c.summand, index]
    decide
  · rw [step_addIndex c.pending, c.summand]
    show (m.addIndex 255).registers.get flagRegister = 0
    rw [flag_addIndex m 255 c.reports, index]
    rfl

theorem start {dialect : Dialect} (reports : dialect.indexOverflowSetsFlag = true)
    (random : Random.Source) : ((loaded dialect random climb).act .step).1.Climbs 0 := by
  have pending : (loaded dialect random climb).pending? = some (.setByte 0 0xFF) :=
    pending_of_image (k := 0) (by decide) rfl rfl rfl rfl rfl rfl (by decide)
  rw [act_step, step_setByte pending]
  exact ⟨rfl, rfl, rfl, rfl, rfl, rfl, reports⟩

end Climbs

/-- An addition to the index register sets the flag for the sums beyond the last address that fit into
a word, and clears it for all others. -/
theorem addIndex_flags_sum (m : Machine) (x : Nibble) (pending : m.pending? = some (.addIndex x)) :
    let sum := m.index.toNat + (m.registers.get x).toNat
    m.step.2 = .ok .proceed ∧ m.step.1.index.toNat = sum % 0x10000 ∧
      (m.dialect.indexOverflowSetsFlag = true →
        m.step.1.registers.get flagRegister = (if 0xFFF < sum ∧ sum < 0x10000 then 1 else 0) ∧
          ∀ k, k ≠ flagRegister → m.step.1.registers.get k = m.registers.get k) ∧
      (m.dialect.indexOverflowSetsFlag = false → m.step.1.registers = m.registers) := by
  intro sum
  rw [step_addIndex pending]
  refine ⟨rfl, toNat_index_addIndex m _, ?_, ?_⟩
  · intro reports
    refine ⟨flag_addIndex m _ reports, fun k other => ?_⟩
    show (m.addIndex _).registers.get k = m.registers.get k
    rw [registers_addIndex m _ reports, Bank.get_set, if_neg other.symm]
  · intro silent
    simp only [addIndex, silent, Registers.setFlag, Bool.false_eq_true, if_false]

theorem addIndex_flags_sum_past_end :
    let m := { loaded { Dialect.plain with indexOverflowSetsFlag := true } (.ofSeed 0) #[0xF0, 0x1E]
      with index := 0xFFF, registers := Bank.fill 2 }
    m.pending? = some (.addIndex 0) ∧ m.step.1.index.toNat = 0x1001 ∧
      m.step.1.registers.get flagRegister = 1 ∧ m.step.1.registers.get 0 = 2 := by
  intro m
  have word : m.fetch = 0xF01E :=
    (fetch_of_image (m := m) (k := 0) (by decide) rfl rfl rfl rfl).trans (by decide)
  have pending : m.pending? = some (.addIndex 0) :=
    pending_eq_some_iff.2 ⟨rfl, rfl, by rw [word]; decide⟩
  have summand : m.registers.get 0 = 2 := Bank.get_fill 2 0
  have sum : m.index.toNat + (m.registers.get 0).toNat = 0x1001 := by
    rw [summand]
    rfl
  have reports : m.dialect.indexOverflowSetsFlag = true := rfl
  clear_value m
  obtain ⟨-, index, flagged, -⟩ := addIndex_flags_sum m 0 pending
  obtain ⟨flag, others⟩ := flagged reports
  rw [sum] at index flag
  exact ⟨pending, index, flag, (others 0 (by decide)).trans summand⟩

/-- A sum that does not fit into a word leaves the address space, and the flag says that it does
not. -/
theorem overflow_unflagged :
    let dialect := { Dialect.plain with indexOverflowSetsFlag := true }
    let m := ((start dialect (.ofSeed 0)).run (.reset climb :: List.replicate 515 .step)).1
    m.pending? = some (.addIndex 0) ∧ 0xFFF < m.index.toNat + (m.registers.get 0).toNat ∧
      m.step.1.registers.get flagRegister = 0 := by
  intro dialect m
  have fits : climb.size ≤ Memory.programLimit := by decide
  have entered : ((start dialect (.ofSeed 0)).act (.reset climb)).1 =
      loaded dialect (.ofSeed 0) climb := by
    rw [act_reset_accepted fits]
    rfl
  have steps : List.replicate 515 Action.step = .step :: List.replicate (2 * 257) .step := rfl
  have climbed : m.Climbs 257 := by
    show ((start dialect (.ofSeed 0)).run (.reset climb :: List.replicate 515 .step)).1.Climbs 257
    rw [run_cons, entered, steps, run_cons]
    exact (Climbs.start rfl (.ofSeed 0)).run 257
  exact climbed.unflagged

end Chip8.Machine
