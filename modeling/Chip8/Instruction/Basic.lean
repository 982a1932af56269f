import Chip8.Address
import Chip8.Nibble

/-! The instruction set. An instruction holds its operands with their exact ranges: registers are
nibbles, targets are twelve-bit addresses and immediate values are bytes. Every value of the type
is therefore an instruction that a word can spell. -/

namespace Chip8

inductive Operation
  | set
  | or
  | and
  | xor
  | add
  | sub
  | shiftRight
  | subReverse
  | shiftLeft
deriving DecidableEq

inductive Instruction
  | clearDisplay
  | ret
  | exit
  | jump (target : Address)
  | call (target : Address)
  | skipEqualByte (x : Nibble) (byte : UInt8)
  | skipNotEqualByte (x : Nibble) (byte : UInt8)
  | skipEqual (x y : Nibble)
  | setByte (x : Nibble) (byte : UInt8)
  | addByte (x : Nibble) (byte : UInt8)
  | combine (op : Operation) (x y : Nibble)
  | skipNotEqual (x y : Nibble)
  | setIndex (target : Address)
  | jumpOffset (base : Address)
  | random (x : Nibble) (mask : UInt8)
  | draw (x y height : Nibble)
  | skipPressed (x : Nibble)
  | skipNotPressed (x : Nibble)
  | readDelay (x : Nibble)
  | waitKey (x : Nibble)
  | setDelay (x : Nibble)
  | setSound (x : Nibble)
  | addIndex (x : Nibble)
  | pointGlyph (x : Nibble)
  | storeDecimal (x : Nibble)
  | storeRegisters (last : Nibble)
  | loadRegisters (last : Nibble)
deriving DecidableEq

/-- The register that a jump with offset names beside V0: the highest digit of its base. -/
def Address.register (a : Address) : Nibble := ⟨a.val / 256, by omega⟩

end Chip8
