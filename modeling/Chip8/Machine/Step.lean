import Chip8.Instruction.Word
import Chip8.Machine.Execute

/-! Steps. A halted machine stays, a machine that waits looks for its key, and any other carries
out the instruction at its program counter. Where that fails, the program counter goes back to the
instruction. -/

namespace Chip8.Machine

def fetch (m : Machine) : UInt16 := m.memory.readWord m.pc

def pending? (m : Machine) : Option Instruction :=
  if m.halted || m.awaiting?.isSome then none else Instruction.decode m.fetch

def receiveKey (m : Machine) (x key : Nibble) : Machine :=
  { m.setRegister x key.toByte with awaiting? := none, latched? := none }.advance

def pollKey (m : Machine) (x : Nibble) : Machine × Except Fault Outcome :=
  match m.latched? with
  | none => (m, .ok .endOfFrame)
  | some key => (m.receiveKey x key).proceed

def cycle (m : Machine) : Machine × Except Fault Outcome :=
  match Instruction.decode m.fetch with
  | some i => m.execute i
  | none => (m, .error (.unknownInstruction m.fetch m.pc))

def rollBack (pc : UInt16) : Machine × Except Fault Outcome → Machine × Except Fault Outcome
  | (m, .error fault) => ({ m with pc := pc }, .error fault)
  | (m, .ok outcome) => (m, .ok outcome)

def step (m : Machine) : Machine × Except Fault Outcome :=
  if m.halted then (m, .ok .halted)
  else
    match m.awaiting? with
    | some x => m.pollKey x
    | none => rollBack m.pc m.cycle

end Chip8.Machine
