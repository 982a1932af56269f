import Chip8.Display

/-! Sprites: columns of bytes whose set bits, highest first, turn cells of the screen over. A cell
beyond the edge comes in again on the other side, or is left out, as the dialect says. -/

namespace Chip8.Sprite

open Display

def row (y : UInt8) : Fin 32 := ⟨y.toNat % 32, Nat.mod_lt _ (by decide)⟩

def column (x : UInt8) : Fin 64 := ⟨x.toNat % 64, Nat.mod_lt _ (by decide)⟩

def place (wrap : Bool) (top : Fin 32) (left : Fin 64) (down right : Nat) : Option Cell :=
  if wrap then
    some (⟨(top.val + down) % 32, by omega⟩, ⟨(left.val + right) % 64, by omega⟩)
  else if h : top.val + down < 32 ∧ left.val + right < 64 then
    some (⟨top.val + down, h.1⟩, ⟨left.val + right, h.2⟩)
  else
    none

def bit (row : UInt8) (right : Nat) : Bool := row.toNat.testBit (7 - right)

def rowCells (wrap : Bool) (top : Fin 32) (left : Fin 64) (down : Nat) (row : UInt8) :
    List Cell :=
  (List.range 8).filterMap fun right =>
    if bit row right then place wrap top left down right else none

/-- The cells that a sprite covers, none twice as long as it has at most 32 rows. -/
def cells (wrap : Bool) (top : Fin 32) (left : Fin 64) (rows : List UInt8) : List Cell :=
  rows.zipIdx.flatMap fun (row, down) => rowCells wrap top left down row

end Chip8.Sprite
