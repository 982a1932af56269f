import Chip8.Hex
import Chip8.Nibble

/-! The ways in which a machine refuses what it is asked to do. -/

namespace Chip8

inductive Fault
  | programTooLarge (size limit : Nat)
  | unknownInstruction (word pc : UInt16)
  | stackOverflow (pc : UInt16) (depth : Nat)
  | stackUnderflow (pc : UInt16)
deriving DecidableEq

def addressText (pc : UInt16) : String := Hex.marked 3 pc.toNat

def Fault.message : Fault → String
  | programTooLarge size limit =>
    "ROM is too large (" ++ size.repr ++ " bytes), max size is " ++ limit.repr ++ " bytes"
  | unknownInstruction word pc =>
    "Unknown opcode " ++ Hex.marked 4 word.toNat ++ " at address " ++ addressText pc
  | stackOverflow pc depth =>
    "Stack overflow: subroutine call at " ++ addressText pc ++ " exceeds " ++ depth.repr ++
      " nested calls"
  | stackUnderflow pc =>
    "Stack underflow: return at " ++ addressText pc ++ " with empty call stack"

def NibbleOverflow.message (e : NibbleOverflow) : String :=
  "value " ++ Hex.marked 2 e.value.toNat ++ " does not fit in a nibble"

end Chip8
