import Chip8.Journal
import Chip8.Machine.Step

/-! Histories. An action is one request to a machine, and a run carries out a list of them. The
journal of an action is what it gives to the log. -/

namespace Chip8.Machine

inductive Action
  | reset (program : Array UInt8)
  | step
  | tick
  | key (key : Nibble) (pressed : Bool)

inductive Reply
  | done
  | stepped (outcome : Outcome)
deriving DecidableEq

def act (m : Machine) : Action → Machine × Except Fault Reply
  | .reset program =>
    match m.reset program with
    | .ok next => (next, .ok .done)
    | .error fault => (m, .error fault)
  | .step => (m.step.1, m.step.2.map .stepped)
  | .tick => (m.tick, .ok .done)
  | .key key pressed => (m.setKey key pressed, .ok .done)

def run (m : Machine) : List Action → Machine × List (Except Fault Reply)
  | [] => (m, [])
  | a :: rest =>
    let (next, reply) := m.act a
    let (last, replies) := next.run rest
    (last, reply :: replies)

def stepJournal (m : Machine) : List Event :=
  let executed := m.pending?.toList.map (.executed m.pc m.fetch)
  match m.step.2 with
  | .ok _ => executed
  | .error fault => executed ++ [.failed fault]

def stepsJournal (m : Machine) : Nat → List Event
  | 0 => []
  | n + 1 => m.stepJournal ++ m.step.1.stepsJournal n

def journal (m : Machine) : Action → List Event
  | .reset program =>
    match m.reset program with
    | .ok _ => [.loaded program.size]
    | .error _ => []
  | .step => m.stepJournal
  | .tick | .key .. => []

theorem run_append (m : Machine) (xs ys : List Action) :
    m.run (xs ++ ys) =
      (((m.run xs).1.run ys).1, (m.run xs).2 ++ ((m.run xs).1.run ys).2) := by
  induction xs generalizing m with
  | nil => rfl
  | cons a rest ih => simp only [List.cons_append, run, ih]

end Chip8.Machine
