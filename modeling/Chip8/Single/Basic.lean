import Chip8.Single.Rounding

/-! Single-precision numbers. A finite number is a whole count of units of 2⁻¹⁴⁹, the least
positive number of the format, with a sign. Each operation takes the exact result and rounds it
once. -/

namespace Chip8

inductive Single
  | nan (negative : Bool)
  | infinite (negative : Bool)
  | finite (negative : Bool) (units : Nat) (fits : Single.Representable units)
deriving DecidableEq

namespace Single

def ofRatio (negative : Bool) (a b : Nat) : Single :=
  if h : nearest a b < tooLarge then .finite negative (nearest a b) (representable_nearest h)
  else .infinite negative

def ofUnits (negative : Bool) (n : Nat) : Single := ofRatio negative n 1

def ofNat (n : Nat) : Single := ofUnits false (n * one)

def zero : Single := .finite false 0 (by decide)

def neg : Single → Single
  | nan s => .nan !s
  | infinite s => .infinite !s
  | finite s n h => .finite (!s) n h

/-- The sum of two counts of units with signs. Where they cancel the sum is positive zero. -/
def addUnits (s : Bool) (n : Nat) (t : Bool) (m : Nat) : Single :=
  if s = t then ofUnits s (n + m)
  else if n < m then ofUnits t (m - n)
  else if m < n then ofUnits s (n - m)
  else zero

def add : Single → Single → Single
  | nan s, _ => .nan s
  | _, nan s => .nan s
  | infinite s, infinite t => if s = t then .infinite s else .nan false
  | infinite s, finite .. => .infinite s
  | finite .., infinite t => .infinite t
  | finite s n _, finite t m _ => addUnits s n t m

def sub (a b : Single) : Single := a.add b.neg

def div : Single → Single → Single
  | nan s, _ => .nan s
  | _, nan s => .nan s
  | infinite _, infinite _ => .nan false
  | infinite s, finite t _ _ => .infinite (s != t)
  | finite s _ _, infinite t => ofUnits (s != t) 0
  | finite s n _, finite t m _ =>
    if m = 0 then if n = 0 then .nan false else .infinite (s != t)
    else ofRatio (s != t) (n * one) m

instance : Add Single := ⟨add⟩
instance : Sub Single := ⟨sub⟩
instance : Div Single := ⟨div⟩
instance : Neg Single := ⟨neg⟩

def isFinite : Single → Bool
  | finite .. => true
  | _ => false

def signedUnits (s : Bool) (n : Nat) : Int := if s then -n else n

/-- The order of numbers. Nothing stands in it with a number that is none. -/
def le : Single → Single → Bool
  | nan _, _ => false
  | _, nan _ => false
  | infinite true, _ => true
  | _, infinite false => true
  | infinite false, _ => false
  | _, infinite true => false
  | finite s n _, finite t m _ => signedUnits s n ≤ signedUnits t m

instance : LE Single := ⟨fun a b => a.le b = true⟩

instance (a b : Single) : Decidable (a ≤ b) := inferInstanceAs (Decidable (a.le b = true))

def isPositive : Single → Bool
  | infinite s => !s
  | finite s n _ => !s && n != 0
  | nan _ => false

end Single

end Chip8
