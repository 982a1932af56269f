/-! Unsigned numerals. Digits are read from the left up to a limit, and the first digit with which
reading cannot go on decides what is wrong with the numeral. -/

namespace Chip8.Numeral

inductive Problem
  | empty
  | invalidDigit
  | tooLarge
deriving DecidableEq

def Problem.message : Problem → String
  | empty => "cannot parse integer from empty string"
  | invalidDigit => "invalid digit found in string"
  | tooLarge => "number too large to fit in target type"

def digitValue (base : Nat) (c : Char) : Option Nat :=
  let value :=
    if '0' ≤ c ∧ c ≤ '9' then c.toNat - '0'.toNat
    else if 'a' ≤ c ∧ c ≤ 'f' then c.toNat - 'a'.toNat + 10
    else if 'A' ≤ c ∧ c ≤ 'F' then c.toNat - 'A'.toNat + 10
    else base
  if value < base then some value else none

def readDigits (base limit : Nat) : (value : Nat) → List Char → Except Problem Nat
  | value, [] => .ok value
  | value, c :: rest =>
    match digitValue base c with
    | none => .error .invalidDigit
    | some d =>
      if value * base + d ≤ limit then readDigits base limit (value * base + d) rest
      else .error .tooLarge

/-- A sign is not a numeral by itself. -/
def readSigned (base limit : Nat) : List Char → Except Problem Nat
  | [] => .error .invalidDigit
  | digits => readDigits base limit 0 digits

def read (base limit : Nat) : List Char → Except Problem Nat
  | [] => .error .empty
  | '+' :: digits => readSigned base limit digits
  | digits => readDigits base limit 0 digits

/-- A decimal numeral that may also have a minus sign when it is zero. -/
def readCount (limit : Nat) : List Char → Except Problem Nat
  | '-' :: digits => readSigned 10 0 digits
  | digits => read 10 limit digits

theorem readDigits_append (base limit value : Nat) (xs ys : List Char) :
    readDigits base limit value (xs ++ ys) =
      (readDigits base limit value xs).bind fun v => readDigits base limit v ys := by
  induction xs generalizing value with
  | nil => rfl
  | cons c rest ih =>
    simp only [List.cons_append, readDigits]
    split
    · rfl
    · split
      · exact ih _
      · rfl

end Chip8.Numeral
