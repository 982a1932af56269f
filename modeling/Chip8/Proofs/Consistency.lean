import Chip8.Proofs.Histories

/-! What holds of every machine with a history. The flags of a machine that waits or has halted agree
with the instruction in memory that set them, which no later action overwrites: the memory of such a
machine stands still. -/

namespace Chip8.Machine

structure Consistent (m : Machine) : Prop where
  stack_le : m.stack.length ≤ stackLimit
  latched : m.latched?.isSome = true → m.awaiting?.isSome = true
  exclusive : ¬(m.halted = true ∧ m.awaiting?.isSome = true)
  awaiting : ∀ x, m.awaiting? = some x → Instruction.decode m.fetch = some (.waitKey x)
  halted : m.halted = true → Instruction.decode (m.memory.readWord (m.pc - 2)) = some .exit

namespace Consistent

variable {m : Machine}

theorem of_idle (stack : m.stack.length ≤ stackLimit) (unlatched : m.latched? = none)
    (free : m.awaiting? = none) (running : m.halted = false) : m.Consistent where
  stack_le := stack
  latched h := by simp [unlatched] at h
  exclusive h := by simp [free] at h
  awaiting x h := by simp [free] at h
  halted h := by simp [running] at h

theorem start (dialect : Dialect) (random : Random.Source) :
    (start dialect random).Consistent :=
  of_idle (Nat.zero_le _) rfl rfl rfl

theorem unlatched (c : m.Consistent) (free : m.awaiting? = none) : m.latched? = none := by
  have silent := c.latched
  rw [free, Option.isSome_none] at silent
  simpa using silent

/-- The instructions that set flags leave memory alone, so that the word which was decoded is still
where the flags point. -/
theorem execute (c : m.Consistent) (running : m.halted = false) (free : m.awaiting? = none)
    {i : Instruction} (decoded : Instruction.decode m.fetch = some i) :
    (m.execute i).1.Consistent := by
  by_cases hx : i = .exit
  · subst hx
    have back : m.pc + 2 - 2 = m.pc := UInt16.add_sub_cancel m.pc 2
    -- memory is as it was, and the program counter stands behind the exit
    refine ⟨c.stack_le, c.latched, ?_, ?_, ?_⟩
    · rintro ⟨-, awaited⟩
      rw [show (m.execute .exit).1.awaiting? = none from free] at awaited
      cases awaited
    · intro x awaited
      cases free.symm.trans awaited
    · intro _
      show Instruction.decode (m.memory.readWord (m.pc + 2 - 2)) = some .exit
      rw [back]
      exact decoded
  by_cases hw : ∃ x, i = .waitKey x
  · obtain ⟨x, rfl⟩ := hw
    rw [execute_waitKey]
    refine ⟨c.stack_le, fun _ => rfl, ?_, ?_, ?_⟩
    · rintro ⟨ended, -⟩
      cases running.symm.trans ended
    · intro y awaited
      rw [← Option.some.inj awaited]
      exact decoded
    · intro ended
      cases running.symm.trans ended
  · -- whatever else the instruction does, it leaves a machine without flags
    obtain ⟨hh, ha, hl⟩ := carryOut_signals (m := m.advance) m.pc hx
      fun x hi => hw ⟨x, hi⟩
    exact of_idle (carryOut_stack_length (m := m.advance) c.stack_le)
      (hl.trans (c.unlatched free)) (ha.trans free) (hh.trans running)

theorem step (c : m.Consistent) : m.step.1.Consistent := by
  cases m.move with
  | rest _ hs => rwa [hs]
  | wait _ _ _ _ hs => rwa [hs]
  | receive running x key awaiting latched hs =>
    rw [hs]
    exact of_idle c.stack_le rfl rfl running
  | refuse _ _ _ _ hs => rwa [hs]
  | perform running free i decoded _ hs =>
    rw [hs]
    exact c.execute running free decoded

theorem setKey (c : m.Consistent) (key : Nibble) (pressed : Bool) :
    (m.setKey key pressed).Consistent := by
  refine ⟨c.stack_le, ?_, c.exclusive, c.awaiting, c.halted⟩
  intro kept
  by_cases awaited : m.awaiting?.isSome = true
  · exact awaited
  · refine c.latched ?_
    simpa [Machine.setKey, awaited] using kept

theorem act (c : m.Consistent) (a : Action) : (m.act a).1.Consistent := by
  cases a with
  | reset program =>
    by_cases fits : program.size ≤ Memory.programLimit
    · rw [act_reset_accepted fits]
      exact of_idle (Nat.zero_le _) rfl rfl rfl
    · rwa [act_reset_rejected (Nat.lt_of_not_le fits)]
  | step => exact c.step
  | tick => exact ⟨c.stack_le, c.latched, c.exclusive, c.awaiting, c.halted⟩
  | key key pressed => exact c.setKey key pressed

theorem run (c : m.Consistent) (history : List Action) : (m.run history).1.Consistent :=
  run_invariant c fun _ a _ h => h.act a

end Consistent

theorem Reachable.consistent {m : Machine} (h : m.Reachable) : m.Consistent := by
  obtain ⟨dialect, random, history, rfl⟩ := h
  exact (Consistent.start dialect random).run history

theorem consistent_history (dialect : Dialect) (random : Random.Source) (history : List Action) :
    ((start dialect random).run history).1.Consistent :=
  (Consistent.start dialect random).run history

end Chip8.Machine
