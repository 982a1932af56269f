import Chip8.Fault
import Chip8.Nibble
import Chip8.Numeral

/-! Keys on the command line: numerals of bytes, in base sixteen behind the mark `0x` and in base
ten otherwise, of which those above fifteen are no keys. -/

namespace Chip8.CommandLine

inductive KeyProblem
  | numeral (problem : Numeral.Problem)
  | overflow (problem : NibbleOverflow)
deriving DecidableEq

def KeyProblem.message : KeyProblem → String
  | numeral problem => problem.message
  | overflow problem => problem.message

def readByte : List Char → Except Numeral.Problem Nat
  | '0' :: 'x' :: digits => Numeral.read 16 255 digits
  | '0' :: 'X' :: digits => Numeral.read 16 255 digits
  | digits => Numeral.read 10 255 digits

def readKey (cs : List Char) : Except KeyProblem Nibble :=
  match readByte cs with
  | .error problem => .error (.numeral problem)
  | .ok n => (Nibble.ofByte (UInt8.ofNat n)).mapError .overflow

end Chip8.CommandLine
