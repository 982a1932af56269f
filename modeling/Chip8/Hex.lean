/-! Upper-case hexadecimal text. Numbers are padded with zeros to a least count of digits and are
never cut. -/

namespace Chip8.Hex

def digits (n : Nat) : List Char := (Nat.toDigits 16 n).map Char.toUpper

def padded (width n : Nat) : List Char :=
  List.replicate (width - (digits n).length) '0' ++ digits n

def text (n : Nat) : String := String.ofList (digits n)

def paddedText (width n : Nat) : String := String.ofList (padded width n)

/-- The number behind the mark `0x`, the mark not counted in `width`. -/
def marked (width n : Nat) : String := "0x" ++ paddedText width n

end Chip8.Hex
