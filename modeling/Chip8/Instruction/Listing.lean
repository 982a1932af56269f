import Chip8.Instruction.Basic

/-! The text of an instruction in execution logs: its name and, between braces, its operands with
their labels. Register numbers are marked as nibbles, all numbers are decimal. -/

namespace Chip8

def Operation.name : Operation → String
  | set => "Set"
  | or => "Or"
  | and => "And"
  | xor => "Xor"
  | add => "Add"
  | sub => "Sub"
  | shiftRight => "ShiftRight"
  | subReverse => "SubReverse"
  | shiftLeft => "ShiftLeft"

inductive Operand
  | nibble (value : Nibble)
  | byte (value : UInt8)
  | address (value : Address)
  | operation (value : Operation)
deriving DecidableEq

def Operand.text : Operand → String
  | nibble n => "u4(" ++ n.val.repr ++ ")"
  | byte b => b.toNat.repr
  | address a => a.val.repr
  | operation op => op.name

namespace Instruction

def name : Instruction → String
  | clearDisplay => "ClearDisplay"
  | ret => "Return"
  | exit => "Exit"
  | jump _ => "Jump"
  | call _ => "Call"
  | skipEqualByte .. => "SkipRegEqualImm"
  | skipNotEqualByte .. => "SkipRegNotEqualImm"
  | skipEqual .. => "SkipRegEqualReg"
  | setByte .. => "SetRegImm"
  | addByte .. => "AddRegImm"
  | combine .. => "ALU"
  | skipNotEqual .. => "SkipRegNotEqualReg"
  | setIndex _ => "SetIndexImm"
  | jumpOffset _ => "JumpWithOffset"
  | random .. => "Random"
  | draw .. => "Draw"
  | skipPressed _ => "SkipIfPressed"
  | skipNotPressed _ => "SkipIfNotPressed"
  | readDelay _ => "ReadDelayTimer"
  | waitKey _ => "WaitForKey"
  | setDelay _ => "SetDelayTimer"
  | setSound _ => "SetSoundTimer"
  | addIndex _ => "AddIndexReg"
  | pointGlyph _ => "FontChar"
  | storeDecimal _ => "BCD"
  | storeRegisters _ => "StoreRegs"
  | loadRegisters _ => "LoadRegs"

def operands : Instruction → List (String × Operand)
  | clearDisplay | ret | exit => []
  | jump a | call a | setIndex a => [("nnn", .address a)]
  | jumpOffset a => [("x", .nibble a.register), ("nnn", .address a)]
  | skipEqualByte x b | skipNotEqualByte x b | setByte x b | addByte x b | random x b =>
    [("x", .nibble x), ("nn", .byte b)]
  | skipEqual x y | skipNotEqual x y => [("x", .nibble x), ("y", .nibble y)]
  | combine op x y => [("x", .nibble x), ("y", .nibble y), ("op", .operation op)]
  | draw x y n => [("x", .nibble x), ("y", .nibble y), ("n", .nibble n)]
  | skipPressed x | skipNotPressed x | readDelay x | waitKey x | setDelay x | setSound x
  | addIndex x | pointGlyph x | storeDecimal x | storeRegisters x | loadRegisters x =>
    [("x", .nibble x)]

def listing (i : Instruction) : String :=
  match i.operands with
  | [] => i.name
  | operands =>
    i.name ++ " \x7b " ++
      ", ".intercalate (operands.map fun (label, operand) => label ++ ": " ++ operand.text) ++
      " \x7d"

end Instruction

end Chip8
