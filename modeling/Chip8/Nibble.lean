/-! Nibbles, the half bytes that name registers, keys and glyphs. A byte is read as a nibble
either with a check, which refuses sixteen and more, or by keeping its low four bits. -/

namespace Chip8

abbrev Nibble := Fin 16

/-- Numerals for nibbles rest on this fact. -/
instance Nibble.neZero : @NeZero Nat Zero.ofOfNat0 16 := ⟨by decide⟩

structure NibbleOverflow where
  value : UInt8
deriving DecidableEq

namespace Nibble

def ofByte (b : UInt8) : Except NibbleOverflow Nibble :=
  if h : b.toNat < 16 then .ok ⟨b.toNat, h⟩ else .error ⟨b⟩

def low (b : UInt8) : Nibble := ⟨b.toNat % 16, Nat.mod_lt _ (by decide)⟩

def toByte (n : Nibble) : UInt8 := UInt8.ofNat n.val

theorem toNat_toByte (n : Nibble) : n.toByte.toNat = n.val := by
  simp only [toByte, UInt8.toNat_ofNat']
  omega

theorem ofByte_eq_ok_iff {b : UInt8} {n : Nibble} : ofByte b = .ok n ↔ b.toNat = n.val := by
  unfold ofByte
  split <;> simp only [Except.ok.injEq, Fin.ext_iff, reduceCtorEq, false_iff]
  omega

end Nibble

end Chip8
