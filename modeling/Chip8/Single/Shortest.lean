import Chip8.Single.Basic

/-! The shortest decimal text of a single-precision number: of all decimals that are read back as
the number, one with the fewest digits, and of those the nearest. The text is positional and has
no exponent. -/

namespace Chip8.Single

/-- Magnitudes are compared in quarters of 10⁻¹⁴⁹, in which a unit is a whole number and so are the
middles between neighbouring numbers. -/
def quarters (n : Nat) : Nat := 4 * n * Nat.pow 5 149

def quartersInOne : Nat := 4 * Nat.pow 10 149

/-- How far below a number the values lie that are rounded to it, in quarter units. Below a power of
two the numbers lie twice as close as above. -/
def reachBelow (n : Nat) : Nat :=
  if n = twoPow (23 + excess n) ∧ 0 < excess n then twoPow (excess n)
  else 2 * twoPow (excess n)

def reachAbove (n : Nat) : Nat := 2 * twoPow (excess n)

/-- Whether a magnitude, in quarters, is read back as a number. The ends of the range are when the
last significant bit of the number is zero. -/
def readsBack (n q : Nat) : Prop :=
  let low := quarters n - reachBelow n * Nat.pow 5 149
  let high := quarters n + reachAbove n * Nat.pow 5 149
  if n / twoPow (excess n) % 2 = 0 then low ≤ q ∧ q ≤ high else low < q ∧ q < high

instance (n q : Nat) : Decidable (readsBack n q) := by
  unfold readsBack
  dsimp only
  infer_instance

/-- The multiple of a step that is read back as a number, the nearer one of the number's two
neighbours and the upper one from the middle. -/
def onGrid? (n step : Nat) : Option Nat :=
  let low := quarters n / step * step
  let high := low + step
  if readsBack n low then
    if readsBack n high ∧ high - quarters n ≤ quarters n - low then some high else some low
  else if readsBack n high then some high
  else none

/-- The magnitude on the coarsest grid of decimals that has one, from a grid of `10 ^ places` parts
of 10⁻¹⁴⁹ down. -/
def coarsest (n : Nat) : (places : Nat) → Nat
  | 0 => quarters n
  | places + 1 => (onGrid? n (4 * Nat.pow 10 (places + 1))).getD (coarsest n places)

def fractionDigits (q : Nat) : List Char :=
  let digits := Nat.toDigits 10 (q % quartersInOne / 4)
  let padded := List.replicate (149 - digits.length) '0' ++ digits
  (padded.reverse.dropWhile (· = '0')).reverse

def magnitudeText (q : Nat) : String :=
  let whole := (q / quartersInOne).repr
  match fractionDigits q with
  | [] => whole
  | digits => whole ++ "." ++ String.ofList digits

def signText (negative : Bool) : String := if negative then "-" else ""

def text : Single → String
  | nan _ => "NaN"
  | infinite s => signText s ++ "inf"
  | finite s n _ => signText s ++ magnitudeText (if n = 0 then 0 else coarsest n 188)

end Chip8.Single
