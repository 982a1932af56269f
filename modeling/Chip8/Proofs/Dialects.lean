import Mathlib.Data.List.Basic
import Chip8.Proofs.Alteration
import Chip8.Proofs.Compositing
import Chip8.Proofs.Entitlement

/-! Machines that differ in their dialects. A point of a dialect matters to a few instructions, and
to some of these only on certain machines. Two machines whose dialects differ at some points behave
alike as long as the first carries out no instruction to which one of these points matters. -/

namespace Chip8

namespace Sprite

variable {top : Fin 32} {left : Fin 64} {down right : Nat}

theorem place_inside (below : top.val + down < 32) (beside : left.val + right < 64)
    (wrap : Bool) :
    place wrap top left down right =
      some (⟨top.val + down, below⟩, ⟨left.val + right, beside⟩) := by
  rw [place_eq_some_iff]
  split
  · exact ⟨(Nat.mod_eq_of_lt below).symm, (Nat.mod_eq_of_lt beside).symm⟩
  · exact ⟨rfl, rfl⟩

theorem cells_inside {rows : List UInt8} (bottom : top.val + rows.length ≤ 32)
    (side : left.val + 8 ≤ 64) (wrap wrap' : Bool) :
    cells wrap top left rows = cells wrap' top left rows := by
  refine List.flatMap_congr fun p hp => List.filterMap_congr fun right hr => ?_
  have below : top.val + p.2 < 32 := by
    have := List.snd_lt_of_mem_zipIdx hp
    omega
  have beside : left.val + right < 64 := by
    have := List.mem_range.1 hr
    omega
  simp only [place_inside below beside]

end Sprite

namespace Dialect

inductive Point
  | indexOverflow
  | wrapping
  | shiftOperand
  | logicFlag
  | transferIndex
  | offsetRegister

def answer (d : Dialect) : Point → Bool
  | .indexOverflow => d.indexOverflowSetsFlag
  | .wrapping => d.wrapSprites
  | .shiftOperand => d.shiftReadsSecond
  | .logicFlag => d.logicClearsFlag
  | .transferIndex => d.transferMovesIndex
  | .offsetRegister => d.offsetReadsNamed

end Dialect

namespace Machine

open Dialect

variable {m : Machine} {i : Instruction} {d : Dialect} {history : List Action}

/-- The point can matter to what the instruction does on the machine. -/
def Minds (m : Machine) : Point → Instruction → Prop
  | .indexOverflow, .addIndex _ => True
  | .wrapping, .draw x y height =>
    64 < (m.registers.get x).toNat % 64 + 8 ∨ 32 < (m.registers.get y).toNat % 32 + height.val
  | .shiftOperand, .combine .shiftRight x y => m.registers.get x ≠ m.registers.get y
  | .shiftOperand, .combine .shiftLeft x y => m.registers.get x ≠ m.registers.get y
  | .logicFlag, .combine .or _ _ => True
  | .logicFlag, .combine .and _ _ => True
  | .logicFlag, .combine .xor _ _ => True
  | .transferIndex, .storeRegisters _ => True
  | .transferIndex, .loadRegisters _ => True
  | .offsetRegister, .jumpOffset base => m.registers.get base.register ≠ m.registers.get 0
  | _, _ => False

theorem apply_settled {op : Operation} {x y : Nibble}
    (settled : ∀ p, m.Minds p (.combine op x y) → m.dialect.answer p = d.answer p) :
    op.apply d (m.registers.get x) (m.registers.get y) =
      op.apply m.dialect (m.registers.get x) (m.registers.get y) := by
  cases op with
  | or | and | xor =>
    have flag : m.dialect.logicClearsFlag = d.logicClearsFlag := settled .logicFlag trivial
    simp only [Operation.apply, logicFlag, flag]
  | shiftRight | shiftLeft =>
    have source : d.shifted (m.registers.get x) (m.registers.get y) =
        m.dialect.shifted (m.registers.get x) (m.registers.get y) := by
      by_cases same : m.registers.get x = m.registers.get y
      · simp only [shifted, same, ite_self]
      · have operand : m.dialect.shiftReadsSecond = d.shiftReadsSecond := settled .shiftOperand same
        simp only [shifted, operand]
    simp only [Operation.apply, source]
  | _ => rfl

theorem ignores_dialect (settled : ∀ p, m.Minds p i → m.dialect.answer p = d.answer p) :
    m.Ignores { dialect := fun _ => d } i := by
  cases i with
  | combine op x y =>
    have applied := apply_settled settled
    show Registers.combine m.registers d op x y = Registers.combine m.registers m.dialect op x y
    simp only [Registers.combine, applied]
  | jumpOffset base =>
    show (if d.offsetReadsNamed then _ else _) = if m.dialect.offsetReadsNamed then _ else _
    by_cases same : m.registers.get base.register = m.registers.get 0
    · simp only [altered, same, ite_self]
    · have named : m.dialect.offsetReadsNamed = d.offsetReadsNamed := settled .offsetRegister same
      rw [named]
      rfl
  | draw x y height =>
    show Sprite.cells d.wrapSprites _ _ _ = Sprite.cells m.dialect.wrapSprites _ _ _
    by_cases crosses : 64 < (m.registers.get x).toNat % 64 + 8 ∨
        32 < (m.registers.get y).toNat % 32 + height.val
    · have wrapping : m.dialect.wrapSprites = d.wrapSprites := settled .wrapping crosses
      rw [wrapping]
      rfl
    · obtain ⟨side, bottom⟩ := not_or.1 crosses
      refine Sprite.cells_inside ?_ (Nat.not_lt.1 side) _ _
      have rows : (m.memory.readFrom m.index height.val).length = height.val := by
        rw [Memory.readFrom, List.length_map, List.length_range]
      show (m.registers.get y).toNat % 32 + (m.memory.readFrom m.index height.val).length ≤ 32
      rw [rows]
      exact Nat.not_lt.1 bottom
  | addIndex x => exact (settled .indexOverflow trivial).symm
  | storeRegisters last | loadRegisters last => exact (settled .transferIndex trivial).symm
  | readDelay | setDelay | setSound | skipPressed | skipNotPressed => exact rfl
  | _ => trivial

theorem dialect_step (m : Machine) : m.step.1.dialect = m.dialect := by
  show m.Shares m.step.1 .dialect
  exact shares_step fun _ _ entitled => entitled

theorem dialect_act (m : Machine) (a : Action) : (m.act a).1.dialect = m.dialect := by
  cases a with
  | reset program => exact (act_reset_keeps m program).1
  | step => exact dialect_step m
  | tick | key => rfl

theorem act_dialect {a : Action}
    (settled : ∀ e ∈ m.trace executions [a], ∀ p, e.1.Minds p e.2 →
      m.dialect.answer p = d.answer p) :
    ({ m with dialect := d } : Machine).act a = ({ (m.act a).1 with dialect := d }, (m.act a).2) := by
  cases a with
  | reset program =>
    by_cases fits : program.size ≤ Memory.programLimit
    · rw [act_reset_accepted fits, act_reset_accepted fits]
      rfl
    · have large := Nat.lt_of_not_le fits
      rw [act_reset_rejected large, act_reset_rejected large]
  | step =>
    have ignored : ∀ i, m.pending? = some i → m.Ignores { dialect := fun _ => d } i :=
      fun i pending => ignores_dialect ((forall_executions_step.1 settled).1 i pending)
    have stepped : ({ m with dialect := d } : Machine).step =
        ({ m.step.1 with dialect := d }, m.step.2) := step_altered ignored
    rw [act, stepped]
    rfl
  | tick | key => rfl

theorem run_dialect
    (settled : ∀ e ∈ m.trace executions history, ∀ p, e.1.Minds p e.2 →
      m.dialect.answer p = d.answer p) :
    ({ m with dialect := d } : Machine).run history =
      ({ (m.run history).1 with dialect := d }, (m.run history).2) := by
  induction history generalizing m with
  | nil => rfl
  | cons a rest ih =>
    rw [trace_cons, List.forall_mem_append] at settled
    obtain ⟨now, later⟩ := settled
    rw [← dialect_act m a] at later
    have next := ih later
    rw [run, act_dialect now]
    simp only [run, next]

/-- Dialects that differ only at points which do not matter to what the first machine carries out
give the same answers, and leave machines that differ in nothing else. -/
theorem unminded_dialect_unseen (m n : Machine) (same : n = { m with dialect := n.dialect })
    (history : List Action)
    (unminded : ∀ p, m.dialect.answer p ≠ n.dialect.answer p →
      ∀ e ∈ m.trace executions history, ¬e.1.Minds p e.2) :
    (n.run history).2 = (m.run history).2 ∧
      (n.run history).1 = { (m.run history).1 with dialect := n.dialect } := by
  have settled : ∀ e ∈ m.trace executions history, ∀ p, e.1.Minds p e.2 →
      m.dialect.answer p = n.dialect.answer p := by
    intro e he p minded
    by_contra differ
    exact unminded p differ e he minded
  have replayed := run_dialect settled
  rw [← same] at replayed
  rw [replayed]
  exact ⟨rfl, rfl⟩

theorem unminded_dialect_unseen_shift_and_draw :
    let m := loaded .plain (.ofSeed 0) #[0x81, 0x16, 0xD2, 0x2F]
    let n := { m with dialect := { Dialect.plain with shiftReadsSecond := true, wrapSprites := true } }
    let history := [.step, .tick, .key 3 true, .step]
    (m.trace executions history).map (·.2) = [.combine .shiftRight 1 1, .draw 2 2 15] ∧
      (n.run history).2 = (m.run history).2 ∧
      (n.run history).1 = { (m.run history).1 with dialect := n.dialect } := by
  intro m n history
  let shifted := (m.execute (.combine .shiftRight 1 1)).1.tick.setKey 3 true
  have first : m.pending? = some (.combine .shiftRight 1 1) :=
    pending_of_image (k := 0) (by decide) rfl rfl rfl rfl rfl rfl (by decide)
  have second : shifted.pending? = some (.draw 2 2 15) :=
    pending_of_image (k := 2) (by decide) rfl rfl rfl rfl rfl rfl (by decide)
  have stepped : m.step = ((m.execute (.combine .shiftRight 1 1)).1, .ok .proceed) :=
    step_of_pending first rfl
  have executed : m.trace executions history =
      [(m, .combine .shiftRight 1 1), (shifted, .draw 2 2 15)] := by
    show m.executions ++ ((m.step.1.tick.setKey 3 true).executions ++ []) = _
    rw [stepped, executions, first]
    show _ ++ (shifted.executions ++ []) = _
    rw [executions, second]
    rfl
  have corner : shifted.registers.get 2 = 0 := by
    have spared : ¬m.advance.Entitled (.register 2) (.perform (.combine .shiftRight 1 1)) :=
      not_or.2 ⟨by decide, fun flagged => absurd flagged.1 (by decide)⟩
    have kept : m.advance.Shares (m.advance.carryOut m.pc (.combine .shiftRight 1 1)).1
        (.register 2) := shares_carryOut spared
    have zero : m.advance.registers.get 2 = 0 := Bank.get_fill 0 2
    exact kept.trans zero
  refine ⟨congrArg (List.map (·.2)) executed, unminded_dialect_unseen m n rfl history ?_⟩
  intro p differ e he
  rw [executed] at he
  simp only [List.mem_cons, List.not_mem_nil, or_false] at he
  cases p with
  | wrapping =>
    rcases he with rfl | rfl
    · exact id
    · show ¬(64 < (shifted.registers.get 2).toNat % 64 + 8 ∨
        32 < (shifted.registers.get 2).toNat % 32 + 15)
      rw [corner]
      decide
  | shiftOperand =>
    rcases he with rfl | rfl
    · exact fun other => other rfl
    · exact id
  | _ => exact absurd rfl differ

end Machine

end Chip8
