import Chip8.Instruction.Basic
import Chip8.Machine.Basic

/-! Arithmetic between registers. An operation gives a byte for its first register and, for most
operations, a flag. The flag is stored after the byte, so that it prevails when the first register
is the flag register. -/

namespace Chip8

def Dialect.shifted (d : Dialect) (a b : UInt8) : UInt8 := if d.shiftReadsSecond then b else a

def Dialect.logicFlag (d : Dialect) : Option Bool := if d.logicClearsFlag then some false else none

/-- The value and the flag of an operation. Addition flags a carry, subtraction flags that nothing
was borrowed and a shift flags the bit that it pushes out. -/
def Operation.apply (d : Dialect) (op : Operation) (a b : UInt8) : UInt8 × Option Bool :=
  match op with
  | set => (b, none)
  | or => (a ||| b, d.logicFlag)
  | and => (a &&& b, d.logicFlag)
  | xor => (a ^^^ b, d.logicFlag)
  | add => (a + b, some (a + b < a))
  | sub => (a - b, some (b ≤ a))
  | shiftRight => (d.shifted a b >>> 1, some (d.shifted a b &&& 1 = 1))
  | subReverse => (b - a, some (a ≤ b))
  | shiftLeft => (d.shifted a b <<< 1, some (d.shifted a b >>> 7 = 1))

namespace Registers

def setFlag (v : Registers) : Option Bool → Registers
  | none => v
  | some on => v.set flagRegister (flagByte on)

def combine (v : Registers) (d : Dialect) (op : Operation) (x y : Nibble) : Registers :=
  let (value, flag) := op.apply d (v.get x) (v.get y)
  setFlag (v.set x value) flag

def upTo (v : Registers) (last : Nibble) : List UInt8 := v.toList.take (last.val + 1)

def load (v : Registers) (memory : Memory) (a : UInt16) (last : Nibble) : Registers :=
  Bank.ofFn fun k => if k ≤ last then memory.read (a + UInt16.ofNat k.val) else v.get k

end Registers

def decimalDigits (b : UInt8) : List UInt8 := [b / 100, b / 10 % 10, b % 10]

end Chip8
