/-! Addresses of the 4096 bytes of memory. A word of sixteen bits names the address in its low
twelve bits. -/

namespace Chip8

abbrev Address := Fin 4096

namespace Address

def ofWord (w : UInt16) : Address := ⟨w.toNat % 4096, Nat.mod_lt _ (by decide)⟩

def toWord (a : Address) : UInt16 := UInt16.ofNat a.val

end Address

end Chip8
