import Chip8.Machine.Action
import Chip8.Proofs.Moves

/-! Machines along histories. What every action keeps, a run keeps. The keypad is told by the keys
alone, and some runs change a machine in nothing but its timers and its keypad. -/

namespace Chip8

open Machine

def Keypad.after (pad : Keypad) : Action → Keypad
  | .key key pressed => Bank.set pad key pressed
  | .reset program => if program.size ≤ Memory.programLimit then Bank.fill false else pad
  | .step | .tick => pad

def Keypad.follow (pad : Keypad) (history : List Action) : Keypad := history.foldl Keypad.after pad

namespace Machine

def Action.Interactive : Action → Prop
  | .reset _ => False
  | _ => True

def Action.Continuing : Action → Prop
  | .reset program => Memory.programLimit < program.size
  | _ => True

def Action.External : Action → Prop
  | .tick | .key .. => True
  | _ => False

def trace {α : Type} (leave : Machine → List α) (m : Machine) : List Action → List α
  | [] => []
  | .step :: rest => leave m ++ m.step.1.trace leave rest
  | a :: rest => (m.act a).1.trace leave rest

def executions (m : Machine) : List (Machine × Instruction) := m.pending?.toList.map (m, ·)

def loaded (dialect : Dialect) (random : Random.Source) (program : Array UInt8) : Machine :=
  { start dialect random with memory := Memory.image program }

def Reachable (m : Machine) : Prop :=
  ∃ dialect random history, m = ((start dialect random).run history).1

def UpToInputs (m n : Machine) : Prop :=
  n = { m with delay := n.delay, sound := n.sound, keypad := n.keypad }

variable {m n k : Machine}

theorem run_cons (m : Machine) (a : Action) (rest : List Action) :
    (m.run (a :: rest)).1 = ((m.act a).1.run rest).1 := rfl

theorem run_single (m : Machine) (a : Action) : (m.run [a]).1 = (m.act a).1 := rfl

theorem act_step (m : Machine) : (m.act .step).1 = m.step.1 := rfl

theorem run_append_fst (m : Machine) (xs ys : List Action) :
    (m.run (xs ++ ys)).1 = ((m.run xs).1.run ys).1 := by
  rw [run_append]

theorem trace_append {α : Type} (leave : Machine → List α) (m : Machine) (xs ys : List Action) :
    m.trace leave (xs ++ ys) = m.trace leave xs ++ (m.run xs).1.trace leave ys := by
  induction xs generalizing m with
  | nil => rfl
  | cons a rest ih =>
    cases a with
    | step => rw [List.cons_append, trace, trace, ih, List.append_assoc]; rfl
    | reset | tick | key => exact ih _

theorem trace_cons {α : Type} (leave : Machine → List α) (m : Machine) (a : Action)
    (rest : List Action) :
    m.trace leave (a :: rest) = m.trace leave [a] ++ (m.act a).1.trace leave rest :=
  trace_append leave m [a] rest

theorem forall_executions_step {P : Machine × Instruction → Prop} {rest : List Action} :
    (∀ e ∈ m.trace executions (.step :: rest), P e) ↔
      (∀ i, m.pending? = some i → P (m, i)) ∧ ∀ e ∈ m.step.1.trace executions rest, P e := by
  simp [trace, executions, or_imp, forall_and]

theorem run_invariant {P : Machine → Prop} {history : List Action} (start : P m)
    (keep : ∀ n, ∀ a ∈ history, P n → P (n.act a).1) : P (m.run history).1 := by
  induction history generalizing m with
  | nil => exact start
  | cons a rest ih =>
    rw [run_cons]
    apply ih
    · exact keep m a List.mem_cons_self start
    · intro n b hb
      exact keep n b (List.mem_cons_of_mem a hb)

theorem reset_of_fits {program : Array UInt8} (h : program.size ≤ Memory.programLimit) :
    m.reset program = .ok (loaded m.dialect m.random program) := by
  rw [reset, if_pos h]
  rfl

theorem reset_of_large {program : Array UInt8} (h : Memory.programLimit < program.size) :
    m.reset program = .error (.programTooLarge program.size Memory.programLimit) := by
  rw [reset, if_neg (Nat.not_le_of_gt h)]

theorem act_reset_accepted {program : Array UInt8} (h : program.size ≤ Memory.programLimit) :
    m.act (.reset program) = (loaded m.dialect m.random program, .ok .done) := by
  simp only [act, reset_of_fits h]

theorem act_reset_fst {program : Array UInt8} (h : program.size ≤ Memory.programLimit) :
    (m.act (.reset program)).1 = loaded m.dialect m.random program := by
  rw [act_reset_accepted h]

theorem act_reset_rejected {program : Array UInt8} (h : Memory.programLimit < program.size) :
    m.act (.reset program) =
      (m, .error (.programTooLarge program.size Memory.programLimit)) := by
  simp only [act, reset_of_large h]

theorem act_reset_keeps (m : Machine) (program : Array UInt8) :
    (m.act (.reset program)).1.dialect = m.dialect ∧
      (m.act (.reset program)).1.random = m.random := by
  by_cases fits : program.size ≤ Memory.programLimit
  · rw [act_reset_fst fits, loaded, start]
    exact ⟨rfl, rfl⟩
  · rw [act_reset_rejected (Nat.lt_of_not_le fits)]
    exact ⟨rfl, rfl⟩

theorem fetch_of_image {program : Array UInt8} {k : Nat} {high low : UInt8}
    (fits : program.size ≤ Memory.programLimit) (first : program[k]? = some high)
    (second : program[k + 1]? = some low) (memory : m.memory = Memory.image program)
    (pc : m.pc = UInt16.ofNat (Memory.programStart + k)) :
    m.fetch = UInt16.ofNat (high.toNat * 256 + low.toNat) := by
  obtain ⟨hk, rfl⟩ := Array.getElem?_eq_some_iff.1 first
  obtain ⟨hk', rfl⟩ := Array.getElem?_eq_some_iff.1 second
  rw [fetch, memory, pc, Memory.readWord_image program fits k hk']

theorem fetch_loaded (dialect : Dialect) (random : Random.Source) (program : Array UInt8)
    (fits : program.size ≤ Memory.programLimit) (h : 1 < program.size) :
    (loaded dialect random program).fetch =
      UInt16.ofNat (program[0].toNat * 256 + program[1].toNat) :=
  Memory.readWord_image program fits 0 h

theorem pending_of_image {program : Array UInt8} {k : Nat} {high low : UInt8} {i : Instruction}
    (fits : program.size ≤ Memory.programLimit) (first : program[k]? = some high)
    (second : program[k + 1]? = some low) (memory : m.memory = Memory.image program)
    (pc : m.pc = UInt16.ofNat (Memory.programStart + k)) (running : m.halted = false)
    (free : m.awaiting? = none)
    (decoded : Instruction.decode (UInt16.ofNat (high.toNat * 256 + low.toNat)) = some i) :
    m.pending? = some i := by
  have word := fetch_of_image fits first second memory pc
  exact pending_eq_some_iff.2 ⟨running, free, word ▸ decoded⟩

theorem keypad_step (m : Machine) : m.step.1.keypad = m.keypad := by
  cases m.move with
  | rest _ hs => rw [hs]
  | wait _ _ _ _ hs => rw [hs]
  | receive _ _ _ _ _ hs => rw [hs]; rfl
  | refuse _ _ _ _ hs => rw [hs]
  | perform _ _ i _ _ hs =>
    rw [hs]
    exact carryOut_keypad (m := m.advance)

theorem keypad_act (m : Machine) (a : Action) : (m.act a).1.keypad = m.keypad.after a := by
  cases a with
  | reset program =>
    by_cases h : program.size ≤ Memory.programLimit
    · rw [act_reset_accepted h, Keypad.after, if_pos h]
      rfl
    · rw [act_reset_rejected (Nat.lt_of_not_le h), Keypad.after, if_neg h]
  | step => exact keypad_step m
  | tick => rfl
  | key key pressed => rfl

theorem keypad_run (m : Machine) (history : List Action) :
    (m.run history).1.keypad = m.keypad.follow history := by
  induction history generalizing m with
  | nil => rfl
  | cons a rest ih =>
    rw [run_cons, ih, keypad_act]
    rfl

namespace UpToInputs

theorem refl (m : Machine) : m.UpToInputs m := rfl

theorem trans (h : m.UpToInputs n) (h' : n.UpToInputs k) : m.UpToInputs k := by
  unfold UpToInputs at h h' ⊢
  rw [h', h]

theorem tick (h : m.UpToInputs n) : m.UpToInputs n.tick := h.trans rfl

theorem setKey {key : Nibble} {pressed : Bool} (h : m.UpToInputs n)
    (unheard : (pressed && !n.keypad.get key && n.awaiting?.isSome && n.latched?.isNone) = false) :
    m.UpToInputs (n.setKey key pressed) := by
  refine h.trans ?_
  simp only [UpToInputs, Machine.setKey, unheard, Bool.false_eq_true, if_false]

end UpToInputs

end Machine

end Chip8
