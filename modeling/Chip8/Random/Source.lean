import Chip8.Random.KeyStream

/-! Random bytes. A source is a key with a position in its word stream. Each byte taken is the low
byte of the next word, so the bytes of a source are fixed by its key and counted by its position.
-/

namespace Chip8.Random

namespace Seed

/-- One step of the generator that spreads a seed over a key. -/
def advance (state : UInt64) : UInt64 := state * 6364136223846793005 + 11634580027462260723

def rotateRight (x : UInt32) (k : UInt32) : UInt32 := x >>> k ||| x <<< (32 - k)

def output (state : UInt64) : UInt32 :=
  rotateRight (((state >>> 18) ^^^ state) >>> 27).toUInt32 (state >>> 59).toUInt32

def stateAfter : Nat → UInt64 → UInt64
  | 0, state => state
  | n + 1, state => stateAfter n (advance state)

def word (seed : UInt64) (k : Nat) : UInt32 := output (stateAfter (k + 1) seed)

end Seed

def Key.ofSeed (seed : UInt64) : Key where
  first := ⟨Seed.word seed 0, Seed.word seed 1, Seed.word seed 2, Seed.word seed 3⟩
  second := ⟨Seed.word seed 4, Seed.word seed 5, Seed.word seed 6, Seed.word seed 7⟩

structure Source where
  key : Key
  position : Nat
deriving DecidableEq

namespace Source

def ofKey (key : Key) : Source := ⟨key, 0⟩

def ofSeed (seed : UInt64) : Source := ofKey (Key.ofSeed seed)

def byteAt (key : Key) (position : Nat) : UInt8 := (key.word position).toUInt8

def next (s : Source) : UInt8 := byteAt s.key s.position

def skip (s : Source) : Source := { s with position := s.position + 1 }

end Source

end Chip8.Random
