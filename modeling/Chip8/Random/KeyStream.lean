/-! The word stream of a stream cipher with twelve rounds. The cipher works on a grid of four rows
of four words. A key, a block number and a fixed first row fill the grid. The grid is stirred and
then added to its first state, which gives the sixteen words of the block. -/

namespace Chip8.Random

structure Row where
  w0 : UInt32
  w1 : UInt32
  w2 : UInt32
  w3 : UInt32
deriving DecidableEq

def rotateLeft (x : UInt32) (k : UInt32) : UInt32 := x <<< k ||| x >>> (32 - k)

namespace Row

def add (r s : Row) : Row := ⟨r.w0 + s.w0, r.w1 + s.w1, r.w2 + s.w2, r.w3 + s.w3⟩

def mix (r s : Row) (k : UInt32) : Row :=
  ⟨rotateLeft (r.w0 ^^^ s.w0) k, rotateLeft (r.w1 ^^^ s.w1) k, rotateLeft (r.w2 ^^^ s.w2) k,
    rotateLeft (r.w3 ^^^ s.w3) k⟩

def turn (r : Row) : Row := ⟨r.w1, r.w2, r.w3, r.w0⟩

def toList (r : Row) : List UInt32 := [r.w0, r.w1, r.w2, r.w3]

end Row

structure Grid where
  a : Row
  b : Row
  c : Row
  d : Row
deriving DecidableEq

namespace Grid

def add (g h : Grid) : Grid := ⟨g.a.add h.a, g.b.add h.b, g.c.add h.c, g.d.add h.d⟩

def columns (g : Grid) : Grid :=
  let a := g.a.add g.b
  let d := g.d.mix a 16
  let c := g.c.add d
  let b := g.b.mix c 12
  let a := a.add b
  let d := d.mix a 8
  let c := c.add d
  let b := b.mix c 7
  ⟨a, b, c, d⟩

def slant (g : Grid) : Grid := ⟨g.a, g.b.turn, g.c.turn.turn, g.d.turn.turn.turn⟩

def unslant (g : Grid) : Grid := ⟨g.a, g.b.turn.turn.turn, g.c.turn.turn, g.d.turn⟩

def doubleRound (g : Grid) : Grid := g.columns.slant.columns.unslant

def stir : Nat → Grid → Grid
  | 0, g => g
  | n + 1, g => stir n g.doubleRound

def toList (g : Grid) : List UInt32 := g.a.toList ++ g.b.toList ++ g.c.toList ++ g.d.toList

theorem unslant_slant (g : Grid) : g.slant.unslant = g := rfl

end Grid

structure Key where
  first : Row
  second : Row
deriving DecidableEq

namespace Key

def constants : Row := ⟨0x61707865, 0x3320646e, 0x79622d32, 0x6b206574⟩

/-- The grid before it is stirred. The block number takes two words, the low one first. -/
def grid (key : Key) (block : UInt64) : Grid :=
  ⟨constants, key.first, key.second, ⟨block.toUInt32, (block >>> 32).toUInt32, 0, 0⟩⟩

def block (key : Key) (number : UInt64) : List UInt32 :=
  ((Grid.stir 6 (key.grid number)).add (key.grid number)).toList

def word (key : Key) (position : Nat) : UInt32 :=
  (key.block (UInt64.ofNat (position / 16))).getD (position % 16) 0

end Key

end Chip8.Random
