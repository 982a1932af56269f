import Chip8.Single.Basic

/-! Single-precision numbers from decimal text: a sign, digits around an optional point, and an
optional exponent, or one of the words for infinity and for what is no number. The number is the
one nearest to the exact value of the text. -/

namespace Chip8.Single

def digitsValue (digits : List Char) : Nat :=
  digits.foldl (fun n c => n * 10 + (c.toNat - '0'.toNat)) 0

/-- The value of an exponent's digits. Those behind a value of 65536 or more no longer count. -/
def exponentValue (digits : List Char) : Nat :=
  digits.foldl (fun n c => if n < 65536 then n * 10 + (c.toNat - '0'.toNat) else n) 0

def readExponentDigits? (digits : List Char) : Option Nat :=
  if digits ≠ [] ∧ digits.all Char.isDigit then some (exponentValue digits) else none

def readExponent? : List Char → Option Int
  | [] => some 0
  | c :: rest =>
    if c = 'e' ∨ c = 'E' then
      match rest with
      | '-' :: digits => (readExponentDigits? digits).map fun n => -n
      | '+' :: digits => (readExponentDigits? digits).map fun n => n
      | digits => (readExponentDigits? digits).map fun n => n
    else none

def splitFraction : List Char → List Char × List Char
  | '.' :: rest => rest.span Char.isDigit
  | rest => ([], rest)

def readScaled? (cs : List Char) : Option (List Char × Int) :=
  let (whole, rest) := cs.span Char.isDigit
  let (fraction, tail) := splitFraction rest
  if whole ++ fraction = [] then none
  else (readExponent? tail).map fun e => (whole ++ fraction, e - fraction.length)

/-- The number nearest to scaled digits. Values below 10⁻⁴⁶ are nearer to zero than to any other
number, and those from 10³⁹ on are too large. -/
def ofScaled (negative : Bool) (digits : List Char) (scale : Int) : Single :=
  let places : Int := (digits.dropWhile (· = '0')).length + scale
  if digitsValue digits = 0 ∨ places ≤ -46 then ofUnits negative 0
  else if 40 ≤ places then .infinite negative
  else if 0 ≤ scale then ofUnits negative (digitsValue digits * Nat.pow 10 scale.toNat * one)
  else ofRatio negative (digitsValue digits * one) (Nat.pow 10 (-scale).toNat)

def readMagnitude? (negative : Bool) (cs : List Char) : Option Single :=
  match readScaled? cs with
  | some (digits, scale) => some (ofScaled negative digits scale)
  | none =>
    let word := cs.map Char.toLower
    if word = ['i', 'n', 'f'] ∨ word = ['i', 'n', 'f', 'i', 'n', 'i', 't', 'y'] then
      some (.infinite negative)
    else if word = ['n', 'a', 'n'] then some (.nan negative)
    else none

def read? : List Char → Option Single
  | '-' :: rest => readMagnitude? true rest
  | '+' :: rest => readMagnitude? false rest
  | cs => readMagnitude? false cs

end Chip8.Single
