import Chip8.Proofs.Entitlement

/-! The random bytes that a machine has taken. Random instructions take one byte each, whatever they
keep of it, and nothing else takes any. So the random instructions of a history find the bytes of the
seed in their order, however many programs were loaded between them. -/

namespace Chip8.Machine

variable {m : Machine} {x : Nibble} {mask : UInt8}

structure Roll where
  x : Nibble
  mask : UInt8
  stored : UInt8
deriving DecidableEq

def rolls (m : Machine) : List Roll :=
  match m.pending? with
  | some (.random x mask) => [⟨x, mask, m.step.1.registers.get x⟩]
  | _ => []

theorem step_random (pending : m.pending? = some (.random x mask)) :
    m.step = ({ m with
      pc := m.pc + 2
      registers := m.registers.set x (m.random.next &&& mask)
      random := m.random.skip }, .ok .proceed) :=
  step_of_pending pending rfl

theorem rolls_of_random (pending : m.pending? = some (.random x mask)) :
    m.rolls = [⟨x, mask, m.random.next &&& mask⟩] := by
  have stored : m.step.1.registers.get x = m.random.next &&& mask := by
    rw [step_random pending, Bank.get_set, if_pos rfl]
  rw [rolls, pending, ← stored]

theorem rolls_of_other (other : ∀ x mask, m.pending? ≠ some (.random x mask)) : m.rolls = [] := by
  unfold rolls
  split
  · rename_i x mask pending
    exact absurd pending (other x mask)
  · rfl

theorem random_step_of_other (other : ∀ x mask, m.pending? ≠ some (.random x mask)) :
    m.step.1.random = m.random := by
  show m.Shares m.step.1 .random
  refine shares_step fun deed does entitled => ?_
  cases does with
  | @perform i _ pending _ =>
    cases i with
    | random x mask => exact other x mask pending
    | _ => exact entitled
  | takeKey => exact entitled

theorem random_act {a : Action}
    (other : a = .step → ∀ x mask, m.pending? ≠ some (.random x mask)) :
    (m.act a).1.random = m.random := by
  cases a with
  | reset program => exact (act_reset_keeps m program).2
  | step => exact random_step_of_other (other rfl)
  | tick | key => rfl

/-- Between two machines these instructions took bytes, each the one that came next. -/
structure Takes (m n : Machine) (rolled : List Roll) : Prop where
  random : n.random = ⟨m.random.key, m.random.position + rolled.length⟩
  stored : ∀ j r, rolled[j]? = some r →
    r.stored = Random.Source.byteAt m.random.key (m.random.position + j) &&& r.mask

namespace Takes

variable {n k : Machine} {rolled later : List Roll}

theorem nothing (same : n.random = m.random) : m.Takes n [] where
  random := same
  stored := nofun

theorem byte (pending : m.pending? = some (.random x mask)) : m.Takes m.step.1 m.rolls := by
  rw [step_random pending, rolls_of_random pending]
  refine ⟨rfl, fun j r hr => ?_⟩
  cases j with
  | zero =>
    obtain rfl := Option.some.inj hr
    rfl
  | succ j => cases hr

theorem append (first : m.Takes n rolled) (second : n.Takes k later) :
    m.Takes k (rolled ++ later) := by
  constructor
  · rw [second.random, first.random, List.length_append, Nat.add_assoc]
  · intro j r hr
    by_cases early : j < rolled.length
    · rw [List.getElem?_append_left early] at hr
      exact first.stored j r hr
    · rw [List.getElem?_append_right (Nat.le_of_not_lt early)] at hr
      have place : m.random.position + rolled.length + (j - rolled.length) =
          m.random.position + j := by
        omega
      rw [second.stored _ r hr, first.random, place]

theorem act (m : Machine) (a : Action) : m.Takes (m.act a).1 (m.trace rolls [a]) := by
  cases a with
  | step =>
    show m.Takes m.step.1 (m.rolls ++ [])
    rw [List.append_nil]
    by_cases random : ∃ x mask, m.pending? = some (.random x mask)
    · obtain ⟨x, mask, pending⟩ := random
      exact byte pending
    · have other : ∀ x mask, m.pending? ≠ some (.random x mask) := by
        intro x mask pending
        exact random ⟨x, mask, pending⟩
      rw [rolls_of_other other]
      exact nothing (random_step_of_other other)
  | reset | tick | key => exact nothing (random_act nofun)

theorem run (m : Machine) (history : List Action) :
    m.Takes (m.run history).1 (m.trace rolls history) := by
  induction history generalizing m with
  | nil => exact nothing rfl
  | cons a rest ih =>
    rw [run_cons, trace_cons]
    exact (act m a).append (ih _)

end Takes

/-- The random instruction number j of a history, counted from zero over all its programs, keeps byte
j of the seed under its mask. No other action takes a byte, so that the source stands at the number
of random instructions. -/
theorem random_bytes_in_order (dialect : Dialect) (seed : UInt64) (history : List Action) :
    let fresh := start dialect (.ofSeed seed)
    let m := (fresh.run history).1
    let rolled := fresh.trace rolls history
    (∀ j r, rolled[j]? = some r → r.stored = Random.Source.byteAt (.ofSeed seed) j &&& r.mask) ∧
      m.random = ⟨.ofSeed seed, rolled.length⟩ ∧
      (∀ x mask, m.pending? = some (.random x mask) →
        m.step.2 = .ok .proceed ∧ m.step.1.random.position = rolled.length + 1 ∧
          m.step.1.registers.get x = Random.Source.byteAt (.ofSeed seed) rolled.length &&& mask) ∧
      ∀ a, (a = .step → ∀ x mask, m.pending? ≠ some (.random x mask)) →
        (m.act a).1.random = m.random := by
  intro fresh m rolled
  have taken : fresh.Takes m rolled := .run fresh history
  have origin : fresh.random.position = 0 := rfl
  have random : m.random = ⟨.ofSeed seed, rolled.length⟩ := by
    rw [taken.random, origin, Nat.zero_add]
    rfl
  refine ⟨?_, random, ?_, fun a => random_act⟩
  · intro j r hr
    rw [taken.stored j r hr, origin, Nat.zero_add]
    rfl
  · intro x mask pending
    rw [step_random pending, random]
    exact ⟨rfl, rfl, (Bank.get_set ..).trans (if_pos rfl)⟩

theorem random_bytes_in_order_across_resets :
    let program : Array UInt8 := #[0xC3, 0x0F]
    let large : Array UInt8 := Array.replicate 3585 0
    let history := [.reset program, .step, .reset large, .reset program, .step]
    (∃ a b, (start .plain (.ofSeed 7)).trace rolls history = [⟨3, 0x0F, a⟩, ⟨3, 0x0F, b⟩] ∧
      a = Random.Source.byteAt (.ofSeed 7) 0 &&& 0x0F ∧
      b = Random.Source.byteAt (.ofSeed 7) 1 &&& 0x0F) ∧
      ((start .plain (.ofSeed 7)).run history).1.random = ⟨.ofSeed 7, 2⟩ := by
  intro program large history
  have fits : program.size ≤ Memory.programLimit := by decide
  have beyond : Memory.programLimit < large.size := by
    rw [Array.size_replicate]
    decide
  have pending : ∀ source, (loaded .plain source program).pending? = some (.random 3 0x0F) := by
    intro source
    exact pending_of_image (k := 0) fits rfl rfl rfl rfl rfl rfl (by decide)
  have rolled : ∃ a b,
      (start .plain (.ofSeed 7)).trace rolls history = [⟨3, 0x0F, a⟩, ⟨3, 0x0F, b⟩] := by
    simp only [history, trace, act_reset_fst fits, act_reset_rejected beyond, start,
      step_random (pending _), rolls_of_random (pending _)]
    have plain : (loaded .plain (.ofSeed 7) program).dialect = .plain := rfl
    rw [plain, rolls_of_random (pending _), List.append_nil]
    exact ⟨_, _, rfl⟩
  obtain ⟨a, b, rolled⟩ := rolled
  obtain ⟨bytes, random, -⟩ := random_bytes_in_order .plain 7 history
  rw [rolled] at bytes random
  exact ⟨⟨a, b, rolled, bytes 0 ⟨3, 0x0F, a⟩ rfl, bytes 1 ⟨3, 0x0F, b⟩ rfl⟩, random⟩

end Chip8.Machine
