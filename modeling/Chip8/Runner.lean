import Chip8.Machine.Action
import Chip8.Single.Basic

/-! Pacing. A runner turns spans of time into timer ticks, sixty a second, and steps at a rate of
its own. It owes time to the timers and to the processor and pays it off period by period: first
all ticks, then the steps, of which one that ends the frame or halts cancels the debt. A loop that
subtracts a period may never end, so an update takes the number of rounds it may use. -/

namespace Chip8

def defaultRate : Single := Single.ofNat 700

def timerRate : Single := Single.ofNat 60

def tickPeriod : Single := Single.ofNat 1 / timerRate

structure Runner where
  machine : Machine
  stepPeriod : Single
  stepDebt : Single
  tickDebt : Single

inductive Status
  | running
  | halted
deriving DecidableEq

namespace Runner

def Admissible (rate : Single) : Prop := rate.isFinite = true ∧ rate.isPositive = true

instance (rate : Single) : Decidable (Admissible rate) :=
  inferInstanceAs (Decidable (rate.isFinite = true ∧ rate.isPositive = true))

/-- A runner without debts. The rate is meant to be admissible. -/
def start (machine : Machine) (rate : Single) : Runner :=
  ⟨machine, Single.ofNat 1 / rate, Single.zero, Single.zero⟩

def payOff (period : Single) : (rounds : Nat) → (debt : Single) → (paid : Nat) →
    Option (Nat × Single)
  | 0, _, _ => none
  | rounds + 1, debt, paid =>
    if period ≤ debt then payOff period rounds (debt - period) (paid + 1) else some (paid, debt)

structure Stretch where
  machine : Machine
  debt : Single
  steps : Nat
  result : Except Fault Status

def stepOff (period : Single) : (rounds : Nat) → Machine → (debt : Single) → (steps : Nat) →
    Option Stretch
  | 0, _, _, _ => none
  | rounds + 1, m, debt, steps =>
    if period ≤ debt then
      match m.step with
      | (next, .ok .proceed) => stepOff period rounds next (debt - period) (steps + 1)
      | (next, .ok .endOfFrame) => some ⟨next, Single.zero, steps + 1, .ok .running⟩
      | (next, .ok .halted) => some ⟨next, Single.zero, steps + 1, .ok .halted⟩
      | (next, .error fault) => some ⟨next, debt - period, steps + 1, .error fault⟩
    else
      some ⟨m, debt, steps, .ok .running⟩

structure Update where
  runner : Runner
  ticks : Nat
  steps : Nat
  result : Except Fault Status

/-- Let a span of time pass. There is no answer when the rounds do not suffice. -/
def update (r : Runner) (rounds : Nat) (span : Single) : Option Update :=
  match payOff tickPeriod rounds (r.tickDebt + span) 0 with
  | none => none
  | some (ticks, tickDebt) =>
    match stepOff r.stepPeriod rounds (r.machine.tickTimes ticks) (r.stepDebt + span) 0 with
    | none => none
    | some s =>
      some ⟨⟨s.machine, r.stepPeriod, s.debt, tickDebt⟩, ticks, s.steps, s.result⟩

def updateJournal (r : Runner) (u : Update) : List Event :=
  (r.machine.tickTimes u.ticks).stepsJournal u.steps

end Runner

end Chip8
