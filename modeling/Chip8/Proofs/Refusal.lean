import Chip8.Proofs.Consistency

/-! Steps that fail, and machines that never leave the state they are in. A step fails for one of
three reasons, which nothing but a new program can remove. -/

namespace Chip8

open Word

theorem Instruction.decode_eq_call_iff {w : UInt16} :
    (∃ target, decode w = some (.call target)) ↔ digit w 3 = 2 := by
  constructor
  · rintro ⟨target, decoded⟩
    rw [← encode_of_decode decoded]
    exact digit_withAddress 2 target
  · intro head
    refine ⟨Address.ofWord w, decode_eq_some_iff.2 ?_⟩
    have spelled := withAddress_digit w
    rwa [head] at spelled

namespace Machine

variable {m n : Machine} {fault : Fault} {history : List Action}

/-- The next step finds a word that is no instruction, a call with a full stack or a return with an
empty one. -/
def Refuses (m : Machine) (fault : Fault) : Prop :=
  m.halted = false ∧ m.awaiting? = none ∧
    (Instruction.decode m.fetch = none ∧ fault = .unknownInstruction m.fetch m.pc ∨
      digit m.fetch 3 = 2 ∧ 16 ≤ m.stack.length ∧ fault = .stackOverflow m.pc 16 ∨
      m.fetch = 0x00EE ∧ m.stack = [] ∧ fault = .stackUnderflow m.pc)

theorem refusal_eq_some_iff {origin : UInt16} {i : Instruction} :
    m.refusal? origin i = some fault ↔
      (∃ target, i = .call target) ∧ 16 ≤ m.stack.length ∧ fault = .stackOverflow origin 16 ∨
        i = .ret ∧ m.stack = [] ∧ fault = .stackUnderflow origin := by
  cases i with
  | call target =>
    rw [refusal_call]
    by_cases room : m.stack.length < 16
    · simp [stackLimit, room, Nat.not_le_of_gt room]
    · simp [stackLimit, room, Nat.le_of_not_lt room, eq_comm]
  | ret =>
    rw [refusal_ret]
    by_cases empty : m.stack = [] <;> simp [empty, eq_comm]
  | _ =>
    constructor
    · intro h
      cases h
    · rintro (⟨⟨target, h⟩, -⟩ | ⟨h, -⟩) <;> cases h

theorem fault_eq_some_iff : m.fault? = some fault ↔ m.Refuses fault := by
  constructor
  · intro h
    obtain ⟨running, free⟩ := active_of_fault h
    refine ⟨running, free, ?_⟩
    rw [fault_running running free] at h
    cases hd : Instruction.decode m.fetch with
    | none =>
      rw [hd] at h
      exact .inl ⟨rfl, (Option.some.inj h).symm⟩
    | some i =>
      rw [hd] at h
      rcases refusal_eq_some_iff.1 h with ⟨⟨target, rfl⟩, full, rfl⟩ | ⟨rfl, empty, rfl⟩
      · exact .inr (.inl ⟨Instruction.decode_eq_call_iff.1 ⟨target, hd⟩, full, rfl⟩)
      · exact .inr (.inr ⟨(Instruction.encode_of_decode hd).symm, empty, rfl⟩)
  · rintro ⟨running, free, cause⟩
    rw [fault_running running free]
    rcases cause with ⟨undecoded, rfl⟩ | ⟨head, full, rfl⟩ | ⟨word, empty, rfl⟩
    · rw [undecoded]
    · obtain ⟨target, decoded⟩ := Instruction.decode_eq_call_iff.2 head
      rw [decoded]
      exact refusal_eq_some_iff.2 (.inl ⟨⟨target, rfl⟩, full, rfl⟩)
    · have decoded : Instruction.decode m.fetch = some .ret :=
        Instruction.decode_eq_some_iff.2 word.symm
      rw [decoded]
      exact refusal_eq_some_iff.2 (.inr ⟨rfl, empty, rfl⟩)

theorem step_error_iff : m.step.2 = .error fault ↔ m.fault? = some fault := by
  constructor
  · intro failed
    cases m.move with
    | refuse running free other refused hs =>
      rw [hs] at failed
      rwa [← Except.error.inj failed]
    | rest _ hs | wait _ _ _ _ hs | receive _ _ _ _ _ hs | perform _ _ _ _ _ hs =>
      rw [hs] at failed
      cases failed
  · intro refused
    rw [step_of_fault refused]

theorem answer_of_idle {answer : Except Fault Outcome} (free : m.awaiting? = none)
    (idle : ∀ n, m.UpToInputs n → n.step = (n, answer))
    (continuing : ∀ a ∈ history, a.Continuing) :
    m.UpToInputs (m.run history).1 ∧ (m.run history).1.step = ((m.run history).1, answer) := by
  have still : m.UpToInputs (m.run history).1 := by
    refine run_invariant (.refl m) ?_
    intro n a ha h
    -- a key that nobody waits for is not kept
    have deaf : n.awaiting? = none := by
      rw [h]
      exact free
    cases a with
    | reset program =>
      rw [act_reset_rejected (continuing _ ha)]
      exact h
    | step =>
      rw [act_step, idle n h]
      exact h
    | tick => exact h.tick
    | key key pressed => exact h.setKey (by rw [deaf]; simp)
  exact ⟨still, idle _ still⟩

theorem step_of_upToInputs_fault (refused : m.fault? = some fault) (h : m.UpToInputs n) :
    n.step = (n, .error fault) := by
  apply step_of_fault
  rw [h]
  exact refused

theorem step_of_upToInputs_halted (ended : m.halted = true) (h : m.UpToInputs n) :
    n.step = (n, .ok .halted) := by
  apply step_of_halted
  rw [h]
  exact ended

/-- A step fails exactly for the three reasons and changes nothing then. The same fault meets every
later step until a program is loaded, and a machine that has halted is as hard to wake. -/
theorem failing_steps (m : Machine) :
    (∀ fault, m.step.2 = .error fault ↔ m.Refuses fault) ∧
    (∀ fault, m.step.2 = .error fault → m.step.1 = m ∧
      ∀ history : List Action, (∀ a ∈ history, a.Continuing) →
        let n := (m.step.1.run history).1
        m.UpToInputs n ∧ n.step = (n, .error fault)) ∧
    (m.Reachable → m.halted = true →
      ∀ history : List Action, (∀ a ∈ history, a.Continuing) →
        let n := (m.run history).1
        m.UpToInputs n ∧ n.step = (n, .ok .halted)) := by
  refine ⟨fun fault => step_error_iff.trans fault_eq_some_iff, ?_, ?_⟩
  · intro fault failed
    have refused : m.fault? = some fault := step_error_iff.1 failed
    have unchanged : m.step.1 = m := congrArg Prod.fst (step_of_fault refused)
    refine ⟨unchanged, fun history continuing => ?_⟩
    rw [unchanged]
    exact answer_of_idle (active_of_fault refused).2
      (fun n h => step_of_upToInputs_fault refused h) continuing
  · intro reachable ended history continuing
    -- a machine with a history does not wait when it has halted, so that no key is kept
    have free : m.awaiting? = none := by
      have lone := reachable.consistent.exclusive
      simpa [ended] using lone
    exact answer_of_idle free (fun n h => step_of_upToInputs_halted ended h) continuing

theorem failing_steps_underflow_and_exit :
    (let m := loaded .plain (.ofSeed 0) #[0x00, 0xEE]
     m.step.2 = .error (.stackUnderflow 0x200) ∧
     let n := (m.step.1.run [.tick, .key 3 true, .step, .reset (Array.replicate 3585 0)]).1
     m.UpToInputs n ∧ n.step = (n, .error (.stackUnderflow 0x200))) ∧
    (let m := ((start .plain (.ofSeed 0)).run [.reset #[0x00, 0xFD], .step]).1
     m.halted = true ∧
     let n := (m.run [.key 3 true, .step, .tick]).1
     m.UpToInputs n ∧ n.step = (n, .ok .halted)) := by
  constructor
  · intro m
    have word : m.fetch = 0x00EE :=
      (fetch_loaded _ _ #[0x00, 0xEE] (by decide) (by decide)).trans (by decide)
    have failed : m.step.2 = .error (.stackUnderflow 0x200) :=
      ((failing_steps m).1 _).2 ⟨rfl, rfl, .inr (.inr ⟨word, rfl, rfl⟩)⟩
    refine ⟨failed, ((failing_steps m).2.1 _ failed).2 _ ?_⟩
    simp [Action.Continuing, Memory.programLimit, Memory.size, Memory.programStart]
  · let fresh := loaded .plain (.ofSeed 0) #[0x00, 0xFD]
    have fits : (#[0x00, 0xFD] : Array UInt8).size ≤ Memory.programLimit := by decide
    have word : fresh.fetch = 0x00FD := (fetch_loaded _ _ _ fits (by decide)).trans (by decide)
    have decoded : Instruction.decode fresh.fetch = some .exit := by rw [word]; decide
    have accepted : fresh.fault? = none := by rw [fault_running rfl rfl, decoded]; rfl
    have ended :
        ((start .plain (.ofSeed 0)).run [.reset #[0x00, 0xFD], .step]).1.halted = true := by
      have entered : ((start .plain (.ofSeed 0)).act (.reset #[0x00, 0xFD])).1 = fresh := by
        rw [act_reset_accepted fits]
        rfl
      rw [run_cons, entered, run_single, act_step, step_of_decode rfl rfl decoded accepted]
      rfl
    refine ⟨ended, (failing_steps _).2.2 ⟨_, _, _, rfl⟩ ended _ ?_⟩
    simp [Action.Continuing]

end Machine

end Chip8
