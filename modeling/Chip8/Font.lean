import Chip8.Nibble

/-! The built-in glyphs of the sixteen digits, five rows each, four columns wide. They lie one
after the other at `Font.base`. -/

namespace Chip8.Font

def base : Nat := 0x50

def glyphSize : Nat := 5

def glyph : Nibble → List UInt8
  | 0x0 => [0xF0, 0x90, 0x90, 0x90, 0xF0]
  | 0x1 => [0x20, 0x60, 0x20, 0x20, 0x70]
  | 0x2 => [0xF0, 0x10, 0xF0, 0x80, 0xF0]
  | 0x3 => [0xF0, 0x10, 0xF0, 0x10, 0xF0]
  | 0x4 => [0x90, 0x90, 0xF0, 0x10, 0x10]
  | 0x5 => [0xF0, 0x80, 0xF0, 0x10, 0xF0]
  | 0x6 => [0xF0, 0x80, 0xF0, 0x90, 0xF0]
  | 0x7 => [0xF0, 0x10, 0x20, 0x40, 0x40]
  | 0x8 => [0xF0, 0x90, 0xF0, 0x90, 0xF0]
  | 0x9 => [0xF0, 0x90, 0xF0, 0x10, 0xF0]
  | 0xA => [0xF0, 0x90, 0xF0, 0x90, 0x90]
  | 0xB => [0xE0, 0x90, 0xE0, 0x90, 0xE0]
  | 0xC => [0xF0, 0x80, 0x80, 0x80, 0xF0]
  | 0xD => [0xE0, 0x90, 0x90, 0x90, 0xE0]
  | 0xE => [0xF0, 0x80, 0xF0, 0x80, 0xF0]
  | _ => [0xF0, 0x80, 0xF0, 0x80, 0x80]

def bytes : Array UInt8 := ((List.finRange 16).flatMap glyph).toArray

def address (digit : Nibble) : UInt16 := UInt16.ofNat (base + glyphSize * digit.val)

theorem size_bytes : bytes.size = 80 := by
  decide +kernel

end Chip8.Font
