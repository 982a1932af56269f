import Chip8.Single.Basic

/-! The interchange format of single-precision numbers: a sign bit, eight bits for the exponent
and 23 bits for the fraction. -/

namespace Chip8.Single

def ofBits (w : UInt32) : Single :=
  let negative := w.toNat / twoPow 31 = 1
  let exponent := w.toNat / twoPow 23 % 256
  let fraction := w.toNat % twoPow 23
  if exponent = 255 then
    if fraction = 0 then .infinite negative else .nan negative
  else if exponent = 0 then
    ofUnits negative fraction
  else
    ofUnits negative ((twoPow 23 + fraction) * twoPow (exponent - 1))

def signBit (negative : Bool) : Nat := if negative then twoPow 31 else 0

/-- The bit pattern of a number. The exponent counts from the least one, and the highest of the 24
significant bits carries into it. -/
def toBits : Single → UInt32
  | nan s => UInt32.ofNat (signBit s + 0x7FC00000)
  | infinite s => UInt32.ofNat (signBit s + 0x7F800000)
  | finite s n _ => UInt32.ofNat (signBit s + excess n * twoPow 23 + n / twoPow (excess n))

end Chip8.Single
